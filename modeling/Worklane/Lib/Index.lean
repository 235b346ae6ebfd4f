import Mathlib.Logic.Function.Basic
import Mathlib.Tactic.Common

/-!
# Exact indices

An index maps a key to the owner that holds it.  It is exact when it has no
orphan and misses nobody, which also makes every key the key of one owner.
-/

namespace Lib

universe u v

variable {Key : Type u} {Owner : Type v} [DecidableEq Key]

/-- Write the entry of an optional key. -/
def assign (index : Key → Option Owner) (key : Option Key)
    (value : Option Owner) : Key → Option Owner :=
  match key with
  | some name => Function.update index name value
  | none => index

omit [DecidableEq Key] in
/-- The index maps a key to an owner exactly when the owner holds it. -/
def Exact (index : Key → Option Owner) (holds : Owner → Key → Prop) :
    Prop :=
  ∀ key owner, index key = some owner ↔ holds owner key

variable {index : Key → Option Owner} {holds holds' : Owner → Key → Prop}

omit [DecidableEq Key] in
theorem Exact.congr (exact : Exact index holds)
    (same : ∀ owner key, holds' owner key ↔ holds owner key) :
    Exact index holds' := by
  intro key owner
  rw [same]
  apply exact

omit [DecidableEq Key] in
theorem Exact.owner_eq (exact : Exact index holds) {key : Key}
    {first second : Owner} (left : holds first key)
    (right : holds second key) : first = second := by
  have firstEntry := (exact key first).mpr left
  have secondEntry := (exact key second).mpr right
  rw [firstEntry] at secondEntry
  exact Option.some.inj secondEntry

theorem Exact.claim (exact : Exact index holds) {key : Option Key}
    {owner : Owner} (free : key.bind index = none)
    (extended : ∀ other name, holds' other name ↔
      holds other name ∨ (other = owner ∧ key = some name)) :
    Exact (assign index key (some owner)) holds' := by
  cases key with
  | none => exact exact.congr (by simpa using extended)
  | some taken =>
    have free : index taken = none := free
    intro name other
    simp only [assign, extended, Option.some.injEq]
    by_cases same : name = taken
    · subst same
      have unheld : ¬ holds other name := by
        intro held
        rw [(exact name other).mpr held] at free
        cases free
      simp [unheld, eq_comm]
    · rw [Function.update_of_ne same, exact name other]
      simp [Ne.symm same]

theorem Exact.free (exact : Exact index holds) {key : Option Key} {owner : Owner}
    (own : ∀ name, holds owner name ↔ key = some name)
    (reduced : ∀ other name, holds' other name ↔ holds other name ∧ other ≠ owner) :
    Exact (assign index key none) holds' := by
  cases key with
  | none =>
    refine exact.congr fun other name => ?_
    rw [reduced]
    refine ⟨And.left, fun held => ⟨held, ?_⟩⟩
    rintro rfl
    cases (own name).mp held
  | some freed =>
    intro name other
    simp only [assign, reduced]
    by_cases same : name = freed
    · subst same
      have kept : ¬ (holds other name ∧ other ≠ owner) := by
        rintro ⟨held, different⟩
        exact different (exact.owner_eq held ((own name).mpr rfl))
      simp [kept]
    · rw [Function.update_of_ne same, exact name other]
      refine ⟨fun held => ⟨held, ?_⟩, And.left⟩
      rintro rfl
      exact same (Option.some.inj ((own name).mp held)).symm

/-! ## Properties of all entries -/

section Every

universe w

variable {Value : Type w} {table : Key → Option Value}
variable {property : Key → Value → Prop}

omit [DecidableEq Key] in
/-- Every entry of a table has the property. -/
def Every (table : Key → Option Value) (property : Key → Value → Prop) :
    Prop :=
  ∀ key value, table key = some value → property key value

theorem Every.put (every : Every table property) {key : Key}
    {value : Value} (own : property key value) :
    Every (Function.update table key (some value)) property := by
  intro other stored found
  by_cases same : other = key
  · subst same
    rw [Function.update_self] at found
    cases found
    exact own
  · rw [Function.update_of_ne same] at found
    exact every other stored found

theorem Every.erase (every : Every table property) (key : Key) :
    Every (Function.update table key none) property := by
  intro other stored found
  by_cases same : other = key
  · subst same
    rw [Function.update_self] at found
    cases found
  · rw [Function.update_of_ne same] at found
    exact every other stored found

omit [DecidableEq Key] in
theorem Every.imp {property' : Key → Value → Prop} (every : Every table property)
    (weaker : ∀ key value, property key value → property' key value) :
    Every table property' :=
  fun key value found => weaker key value (every key value found)

end Every

/-! ## Owners with at most one key -/

omit [DecidableEq Key] in
/-- The index of a function that gives every owner at most one key. -/
def ExactOf (index : Key → Option Owner) (keyOf : Owner → Option Key) :
    Prop :=
  Exact index fun owner key => keyOf owner = some key

section Owners

variable [DecidableEq Owner] {keyOf : Owner → Option Key} {owner : Owner}

theorem ExactOf.claim (exact : ExactOf index keyOf) {key : Option Key}
    (absent : keyOf owner = none) (free : key.bind index = none) :
    ExactOf (assign index key (some owner)) (Function.update keyOf owner key) := by
  refine Exact.claim exact free fun other name => ?_
  by_cases same : other = owner
  · subst same
    simp [absent]
  · simp [same]

theorem ExactOf.free (exact : ExactOf index keyOf) : ExactOf (assign index (keyOf owner) none)
      (Function.update keyOf owner none) := by
  refine Exact.free exact (fun _ => Iff.rfl) fun other name => ?_
  by_cases same : other = owner
  · subst same
    simp
  · simp [same]

omit [DecidableEq Key] in
theorem ExactOf.keep (exact : ExactOf index keyOf) {key : Option Key} (same : keyOf owner = key) :
    ExactOf index (Function.update keyOf owner key) := by
  rwa [← same, Function.update_eq_self]

end Owners

end Lib
