import Mathlib.Logic.Function.Basic
import Mathlib.Tactic.Common

/-!
# Inserting with two deduplication rules

A store maps ids to items, and an item may hold a key.  An insertion is
dropped when its id is present, and when its key is held.  Which rule is looked
at first matters exactly when the id is present and the key is held by another
item.
-/

namespace Lib.Dedup

universe u v w

variable {Id : Type u} {Key : Type v} {Item : Type w}

/-- `id` holds `key`. -/
def Holds (keyOf : Item → Option Key) (store : Id → Option Item) (key : Key) (id : Id) : Prop :=
  ∃ item, store id = some item ∧ keyOf item = some key

/-- No key is held twice. -/
def Single (keyOf : Item → Option Key) (store : Id → Option Item) : Prop :=
  ∀ key first second, Holds keyOf store key first → Holds keyOf store key second → first = second

/-- The id is present and the key is held by another item. -/
def Contested (keyOf : Item → Option Key) (store : Id → Option Item)
    (id : Id) (key : Option Key) : Prop :=
  store id ≠ none ∧ ∃ name ∈ key, ∃ holder, holder ≠ id ∧ Holds keyOf store name holder

/-- Nobody holds the key. -/
def Unheld (keyOf : Item → Option Key) (store : Id → Option Item) (key : Option Key) : Prop :=
  ∀ name ∈ key, ∀ holder, ¬ Holds keyOf store name holder

section Insert

variable [DecidableEq Id] (keyOf : Item → Option Key)
variable (store : Id → Option Item) (id : Id) (key : Option Key)
variable (item : Item)

/-- What an insertion returns and leaves when the id is looked up first. -/
inductive IdFirst : Id → (Id → Option Item) → Prop
  | present (found : store id ≠ none) : IdFirst id store
  | held {name : Key} {holder : Id} (absent : store id = none)
      (keyed : key = some name) (holds : Holds keyOf store name holder) :
      IdFirst holder store
  | inserted (absent : store id = none) (free : Unheld keyOf store key) :
      IdFirst id (Function.update store id (some item))

/-- The same with the key looked up first. -/
inductive KeyFirst : Id → (Id → Option Item) → Prop
  | held {name : Key} {holder : Id} (keyed : key = some name)
      (holds : Holds keyOf store name holder) : KeyFirst holder store
  | present (free : Unheld keyOf store key) (found : store id ≠ none) : KeyFirst id store
  | inserted (free : Unheld keyOf store key) (absent : store id = none) :
      KeyFirst id (Function.update store id (some item))

end Insert

section Agree

variable [DecidableEq Id] {keyOf : Item → Option Key}
variable {store left right : Id → Option Item} {id first second : Id}
variable {key : Option Key} {item : Item}

theorem IdFirst.unique (single : Single keyOf store)
    (one : IdFirst keyOf store id key item first left)
    (other : IdFirst keyOf store id key item second right) :
    first = second ∧ left = right := by
  cases one with
  | present found =>
    cases other with
    | present => exact ⟨rfl, rfl⟩
    | held absent => exact absurd absent found
    | inserted absent => exact absurd absent found
  | @held name _ absent keyed holds =>
    cases other with
    | present found => exact absurd absent found
    | held _ again alsoHolds =>
      cases keyed.symm.trans again
      exact ⟨single _ _ _ holds alsoHolds, rfl⟩
    | inserted _ free => exact absurd holds (free name keyed _)
  | inserted absent free =>
    cases other with
    | present found => exact absurd absent found
    | held _ keyed holds => exact absurd holds (free _ keyed _)
    | inserted => exact ⟨rfl, rfl⟩

theorem KeyFirst.unique (single : Single keyOf store)
    (one : KeyFirst keyOf store id key item first left)
    (other : KeyFirst keyOf store id key item second right) :
    first = second ∧ left = right := by
  cases one with
  | held keyed holds =>
    cases other with
    | held again alsoHolds =>
      cases keyed.symm.trans again
      exact ⟨single _ _ _ holds alsoHolds, rfl⟩
    | present free => exact absurd holds (free _ keyed _)
    | inserted free => exact absurd holds (free _ keyed _)
  | present free found =>
    cases other with
    | held keyed holds => exact absurd holds (free _ keyed _)
    | present => exact ⟨rfl, rfl⟩
    | inserted _ absent => exact absurd absent found
  | inserted free absent =>
    cases other with
    | held keyed holds => exact absurd holds (free _ keyed _)
    | present _ found => exact absurd absent found
    | inserted => exact ⟨rfl, rfl⟩

/-- The two orders agree unless the insertion is contested. -/
theorem agree_iff (single : Single keyOf store) (byId : IdFirst keyOf store id key item first left)
    (byKey : KeyFirst keyOf store id key item second right) :
    (first = second ∧ left = right) ↔ ¬ Contested keyOf store id key := by
  constructor
  · rintro ⟨same, _⟩ ⟨found, name, keyed, holder, different, holds⟩
    cases byKey with
    | held again alsoHolds =>
      cases keyed.symm.trans again
      cases byId with
      | present =>
        exact different ((single _ _ _ holds alsoHolds).trans same.symm)
      | held absent => exact found absent
      | inserted absent => exact found absent
    | present free => exact free name keyed holder holds
    | inserted free => exact free name keyed holder holds
  · intro calm
    cases byId with
    | present found =>
      cases byKey with
      | @held name _ keyed holds =>
        by_cases own : second = id
        · exact ⟨own.symm, rfl⟩
        · exact absurd ⟨found, name, keyed, second, own, holds⟩ calm
      | present => exact ⟨rfl, rfl⟩
      | inserted _ absent => exact absurd absent found
    | held absent keyed holds =>
      cases byKey with
      | held again alsoHolds =>
        cases keyed.symm.trans again
        exact ⟨single _ _ _ holds alsoHolds, rfl⟩
      | present _ found => exact absurd absent found
      | inserted free => exact absurd holds (free _ keyed _)
    | inserted absent free =>
      cases byKey with
      | held keyed holds => exact absurd holds (free _ keyed _)
      | present _ found => exact absurd absent found
      | inserted => exact ⟨rfl, rfl⟩

end Agree

end Lib.Dedup
