import Mathlib.Algebra.BigOperators.Group.Finset.Basic
import Mathlib.Algebra.Order.BigOperators.Group.Finset
import Mathlib.Data.Fintype.EquivFin
import Mathlib.Logic.Relation
import Mathlib.Order.WellFounded
import Mathlib.Tactic.Common

/-!
# Exclusive locks taken one by one

Owners take locks in the order of their plans and hold them until they end.
A lock that is held by its owner already is taken again at once.  Owners can
come to wait for each other in a circle exactly if their plans can be cut so
that no lock is in two of the first parts and the locks that come next close
such a circle (`never_deadlock_iff`).  That is out of the question if the locks
can be ranked so that every plan meets each new lock above the ones before it.
-/

namespace Lib.Locks

universe u v w

variable {Owner : Type u} {Lock : Type v} {Rank : Type w}

/-- An owner: the locks it holds, those it has still to take, and whether it
has ended. -/
structure Session (Lock : Type v) where
  held : List Lock
  left : List Lock
  ended : Bool

def start (plan : Owner → List Lock) : Owner → Session Lock := fun owner =>
  { held := [], left := plan owner, ended := false }

section Steps

variable [DecidableEq Owner]

/-- What an owner does on its own: take the next lock, or end with a plan
that is done.  All its locks are released at the end. -/
inductive Advance (owner : Owner) : (Owner → Session Lock) → (Owner → Session Lock) → Prop
  | acquire {state : Owner → Session Lock} {lock : Lock}
      {rest : List Lock} (running : (state owner).ended = false)
      (next : (state owner).left = lock :: rest)
      (free : ∀ other, other ≠ owner → lock ∉ (state other).held) :
      Advance owner state (Function.update state owner
        { held := (state owner).held ++ [lock], left := rest,
          ended := false })
  | commit {state : Owner → Session Lock} (running : (state owner).ended = false)
      (done : (state owner).left = []) :
      Advance owner state (Function.update state owner { held := [], left := [], ended := true })

/-- A step of the system; an owner may also be stopped from outside. -/
inductive Step : (Owner → Session Lock) → (Owner → Session Lock) → Prop
  | advance {state next : Owner → Session Lock} (owner : Owner)
      (acts : Advance owner state next) : Step state next
  | abort (state : Owner → Session Lock) (owner : Owner) : Step state (Function.update state owner
        { held := [], left := [], ended := true })

def Reachable (plan : Owner → List Lock) (state : Owner → Session Lock) :
    Prop :=
  Relation.ReflTransGen Step (start plan) state

end Steps

/-- `owner` wants the next lock of its plan and `other` holds it. -/
def Waits (state : Owner → Session Lock) (owner other : Owner) : Prop :=
  other ≠ owner ∧ ∃ lock rest, (state owner).left = lock :: rest ∧ lock ∈ (state other).held

/-- No lock has two holders. -/
def Exclusive (state : Owner → Session Lock) : Prop :=
  ∀ owner other lock, lock ∈ (state owner).held → lock ∈ (state other).held → owner = other

/-- Every owner is somewhere in its plan. -/
structure Cut (plan : Owner → List Lock) (state : Owner → Session Lock) : Prop where
  whole : ∀ owner, (state owner).held ++ (state owner).left = plan owner
  running : ∀ owner, (state owner).ended = false
  exclusive : Exclusive state

/-- The plans can be cut so that owners wait for each other in a circle. -/
def Entangled (plan : Owner → List Lock) : Prop :=
  ∃ state, Cut plan state ∧ ∃ owner, Relation.TransGen (Waits state) owner owner

/-! ## States that are reached -/

/-- The invariant: locks have one holder, and an owner follows its plan until it
has ended. -/
structure Tidy (plan : Owner → List Lock) (state : Owner → Session Lock) : Prop where
  exclusive : Exclusive state
  whole : ∀ owner, (state owner).ended = false →
    (state owner).held ++ (state owner).left = plan owner
  ended : ∀ owner, (state owner).ended = true → (state owner).held = [] ∧ (state owner).left = []

variable {plan : Owner → List Lock} {state next : Owner → Session Lock}

theorem tidy_start (plan : Owner → List Lock) : Tidy plan (start plan) where
  exclusive := fun _ _ _ held => nomatch held
  whole := fun _ _ => rfl
  ended := fun _ exceeded => nomatch exceeded

section Safety

variable [DecidableEq Owner]

theorem Exclusive.update (exclusive : Exclusive state) {owner : Owner} {session : Session Lock}
    (apart : ∀ other, other ≠ owner → ∀ lock ∈ session.held, lock ∉ (state other).held) :
    Exclusive (Function.update state owner session) := by
  intro first second lock left right
  by_cases ownFirst : first = owner
  · by_cases ownSecond : second = owner
    · exact ownFirst.trans ownSecond.symm
    · subst ownFirst
      rw [Function.update_self] at left
      rw [Function.update_of_ne ownSecond] at right
      exact absurd right (apart second ownSecond lock left)
  · rw [Function.update_of_ne ownFirst] at left
    by_cases ownSecond : second = owner
    · subst ownSecond
      rw [Function.update_self] at right
      exact absurd left (apart first ownFirst lock right)
    · rw [Function.update_of_ne ownSecond] at right
      exact exclusive first second lock left right

theorem Tidy.update (tidy : Tidy plan state) {owner : Owner} {session : Session Lock}
    (apart : ∀ other, other ≠ owner → ∀ lock ∈ session.held, lock ∉ (state other).held)
    (whole : session.ended = false → session.held ++ session.left = plan owner)
    (ended : session.ended = true → session.held = [] ∧ session.left = []) :
    Tidy plan (Function.update state owner session) where
  exclusive := tidy.exclusive.update apart
  whole := by
    intro other running
    by_cases own : other = owner
    · subst own
      rw [Function.update_self] at running ⊢
      exact whole running
    · rw [Function.update_of_ne own] at running ⊢
      exact tidy.whole other running
  ended := by
    intro other exceeded
    by_cases own : other = owner
    · subst own
      rw [Function.update_self] at exceeded ⊢
      exact ended exceeded
    · rw [Function.update_of_ne own] at exceeded ⊢
      exact tidy.ended other exceeded

theorem Step.tidy (step : Step state next) (tidy : Tidy plan state) : Tidy plan next := by
  have released : ∀ owner, Tidy plan (Function.update state owner ⟨[], [], true⟩) := fun owner =>
    tidy.update (fun _ _ _ held => nomatch held) (fun running => nomatch running)
      fun _ => ⟨rfl, rfl⟩
  cases step with
  | advance owner acts =>
    cases acts with
    | acquire running wanted free =>
      refine tidy.update ?_ ?_ fun exceeded => nomatch exceeded
      · intro other different lock member theirs
        rcases List.mem_append.mp member with old | new
        · exact different (tidy.exclusive other owner lock theirs old)
        · exact free other different (List.mem_singleton.mp new ▸ theirs)
      · intro _
        rw [← tidy.whole owner running, wanted]
        simp
    | commit running done => exact released owner
  | abort owner => exact released owner

theorem Reachable.tidy (reachable : Reachable plan state) : Tidy plan state := by
  induction reachable with
  | refl => exact tidy_start plan
  | tail _ step ih => exact step.tidy ih

end Safety

/-- The owners that have ended start again. -/
def revived (plan : Owner → List Lock) (state : Owner → Session Lock) : Owner → Session Lock :=
  fun owner => if (state owner).ended then ⟨[], plan owner, false⟩ else state owner

theorem Tidy.held_revived (tidy : Tidy plan state) (owner : Owner) :
    (revived plan state owner).held = (state owner).held := by
  unfold revived
  split
  · next exceeded => exact (tidy.ended owner exceeded).1.symm
  · rfl

theorem Tidy.cut (tidy : Tidy plan state) : Cut plan (revived plan state) where
  whole := by
    intro owner
    unfold revived
    split
    · rfl
    · next running => exact tidy.whole owner (by simpa using running)
  running := by
    intro owner
    unfold revived
    split
    · rfl
    · next running => simpa using running
  exclusive := by
    intro owner other lock
    rw [tidy.held_revived, tidy.held_revived]
    exact tidy.exclusive owner other lock

theorem Tidy.waits (tidy : Tidy plan state) {owner other : Owner}
    (waits : Waits state owner other) :
    Waits (revived plan state) owner other := by
  obtain ⟨different, lock, rest, wanted, taken⟩ := waits
  refine ⟨different, lock, rest, ?_, ?_⟩
  · unfold revived
    split
    · next exceeded =>
      rw [(tidy.ended owner exceeded).2] at wanted
      cases wanted
    · exact wanted
  · rwa [tidy.held_revived]

theorem Tidy.acyclic (tidy : Tidy plan state) (untangled : ¬ Entangled plan) (owner : Owner) :
    ¬ Relation.TransGen (Waits state) owner owner :=
  fun cycle => untangled ⟨_, tidy.cut, owner, cycle.lift id fun _ _ => tidy.waits⟩

/-! ## Progress -/

section Progress

variable [DecidableEq Owner]

theorem Tidy.advances_or_waits (tidy : Tidy plan state) {owner : Owner}
    (running : (state owner).ended = false) :
    (∃ next, Advance owner state next) ∨
      ∃ other, Waits state owner other ∧ (state other).ended = false := by
  cases left : (state owner).left with
  | nil => exact Or.inl ⟨_, .commit running left⟩
  | cons lock rest =>
    by_cases taken : ∃ other, other ≠ owner ∧ lock ∈ (state other).held
    · obtain ⟨other, different, held⟩ := taken
      refine Or.inr ⟨other, ⟨different, lock, rest, left, held⟩, ?_⟩
      by_contra exceeded
      have empty := (tidy.ended other (by simpa using exceeded)).1
      rw [empty] at held
      cases held
    · refine Or.inl ⟨_, .acquire running left ?_⟩
      intro other different held
      exact taken ⟨other, different, held⟩

/-- Some owner can go on: one that waits for nobody. -/
theorem Tidy.progress [Finite Owner] (tidy : Tidy plan state)
    (acyclic : ∀ owner, ¬ Relation.TransGen (Waits state) owner owner) {owner : Owner}
    (running : (state owner).ended = false) : ∃ other next, Advance other state next := by
  let after : Owner → Owner → Prop := fun one other =>
    Relation.TransGen (Waits state) other one
  have irreflexive : Std.Irrefl after := ⟨acyclic⟩
  have transitive : IsTrans Owner after := ⟨fun _ _ _ first second => second.trans first⟩
  have grounded : WellFounded after := Finite.wellFounded_of_trans_of_irrefl after
  obtain ⟨last, going, least⟩ := grounded.has_min
    { other | (state other).ended = false } ⟨owner, running⟩
  rcases tidy.advances_or_waits going with moves | ⟨other, waits, alive⟩
  · exact ⟨last, moves⟩
  · exact absurd (Relation.TransGen.single waits) (least other alive)

/-! ## Cuts are reached -/

/-- Owners whose first parts share no lock take them one after the other. -/
theorem Cut.reachable [Fintype Owner] (cut : Cut plan state) : Reachable plan state := by
  induction total : ∑ owner, (state owner).held.length generalizing state with
  | zero =>
    have same : state = start plan := by
      funext owner
      have none : (state owner).held = [] :=
        List.eq_nil_of_length_eq_zero (Finset.sum_eq_zero_iff.mp total owner (Finset.mem_univ _))
      have whole := cut.whole owner
      have running := cut.running owner
      cases session : state owner
      simp_all [start]
    rw [same]
    exact .refl
  | succ count ih =>
    -- the last lock of some owner is given back
    obtain ⟨owner, _, some⟩ : ∃ owner ∈ Finset.univ, (state owner).held.length ≠ 0 :=
      Finset.exists_ne_zero_of_sum_ne_zero (by omega)
    obtain ⟨before, lock, taken⟩ := (List.eq_nil_or_concat (state owner).held).resolve_left
      fun none => some (by rw [none]; rfl)
    have rest := cut.whole owner
    rw [taken, List.concat_eq_append, List.append_assoc, List.singleton_append] at rest
    let earlier := Function.update state owner ⟨before, lock :: (state owner).left, false⟩
    have shorter : Cut plan earlier := by
      refine ⟨?_, ?_, cut.exclusive.update ?_⟩
      · intro other
        by_cases own : other = owner
        · subst own
          simpa [earlier] using rest
        · simpa [earlier, own] using cut.whole other
      · intro other
        by_cases own : other = owner
        · subst own
          simp [earlier]
        · simpa [earlier, own] using cut.running other
      · intro other different held member theirs
        exact different (cut.exclusive other owner held theirs (by simp [taken, member]))
    have reached : Reachable plan earlier := by
      apply ih shorter
      have others : ∑ other ∈ Finset.univ.erase owner, (earlier other).held.length =
          ∑ other ∈ Finset.univ.erase owner, (state other).held.length :=
        Finset.sum_congr rfl fun other inside => by
          simp [earlier, Finset.ne_of_mem_erase inside]
      have later := Finset.add_sum_erase Finset.univ (fun other => (state other).held.length)
        (Finset.mem_univ owner)
      have sooner := Finset.add_sum_erase Finset.univ (fun other => (earlier other).held.length)
        (Finset.mem_univ owner)
      have one : (state owner).held.length = (earlier owner).held.length + 1 := by
        simp [earlier, taken]
      omega
    have step := Step.advance owner (@Advance.acquire Owner Lock _ owner earlier lock
      (state owner).left (by simp [earlier]) (by simp [earlier]) (by
        intro other different theirs
        refine different (cut.exclusive other owner lock ?_ (by simp [taken]))
        simpa [earlier, different] using theirs))
    have same : Function.update earlier owner ⟨(earlier owner).held ++ [lock],
        (state owner).left, false⟩ = state := by
      have held : (earlier owner).held ++ [lock] = (state owner).held := by
        simp [earlier, taken]
      rw [held, ← cut.running owner]
      simp [earlier]
    rw [same] at step
    exact reached.tail step

theorem never_deadlock_iff [Finite Owner] (plan : Owner → List Lock) :
    (∀ state, Reachable plan state → (∀ owner, ¬ Relation.TransGen (Waits state) owner owner) ∧
        ((∃ owner, (state owner).ended = false) → ∃ owner next, Advance owner state next)) ↔
      ¬ Entangled plan := by
  have := Fintype.ofFinite Owner
  constructor
  · rintro calm ⟨state, cut, owner, cycle⟩
    exact (calm state cut.reachable).1 owner cycle
  · intro untangled state reachable
    have acyclic := reachable.tidy.acyclic untangled
    refine ⟨acyclic, ?_⟩
    rintro ⟨owner, running⟩
    exact reachable.tidy.progress acyclic running

end Progress

/-! ## Ranked locks -/

section Ranks

/-- Each new lock ranks above the locks before it. -/
def Ascends [LT Rank] (rank : Lock → Rank) (plan : List Lock) : Prop :=
  ∀ before lock after, plan = before ++ lock :: after →
    lock ∈ before ∨ ∀ earlier ∈ before, rank earlier < rank lock

theorem ascends_of_pairwise [LT Rank] {rank : Lock → Rank} {plan : List Lock}
    (increasing : plan.Pairwise fun lock later => rank lock < rank later) :
    Ascends rank plan := by
  intro before lock after split
  rw [split, List.pairwise_append] at increasing
  exact Or.inr fun earlier member =>
    increasing.2.2 earlier member lock (List.mem_cons_self ..)

variable {rank : Lock → Rank}

/-- What an owner waits for ranks above everything it holds. -/
theorem Cut.above [LT Rank] (cut : Cut plan state) (ascending : ∀ owner, Ascends rank (plan owner))
    {owner other : Owner} {lock : Lock} {rest : List Lock} (different : other ≠ owner)
    (wanted : (state owner).left = lock :: rest) (taken : lock ∈ (state other).held) :
    ∀ held ∈ (state owner).held, rank held < rank lock := by
  have split := cut.whole owner
  rw [wanted] at split
  rcases ascending owner (state owner).held lock rest split.symm with own | above
  · exact absurd (cut.exclusive other owner lock taken own) different
  · exact above

/-- Along a chain of waiting owners the locks waited for ascend. -/
theorem Cut.chain [Preorder Rank] (cut : Cut plan state)
    (ascending : ∀ owner, Ascends rank (plan owner)) {first last : Owner}
    (chain : Relation.TransGen (Waits state) first last) :
    ∀ lock rest, (state first).left = lock :: rest →
      ∃ held ∈ (state last).held, rank lock ≤ rank held := by
  induction chain with
  | single waits =>
    intro lock rest wanted
    obtain ⟨_, lock', rest', wanted', taken⟩ := waits
    rw [wanted] at wanted'
    cases wanted'
    exact ⟨lock, taken, le_refl _⟩
  | tail _ waits ih =>
    intro lock rest wanted
    obtain ⟨held, inside, below⟩ := ih lock rest wanted
    obtain ⟨different, next, _, wantedNext, taken⟩ := waits
    have above := cut.above ascending different wantedNext taken held inside
    exact ⟨next, taken, below.trans above.le⟩

theorem not_entangled_of_ascends [Preorder Rank] (ascending : ∀ owner, Ascends rank (plan owner)) :
    ¬ Entangled plan := by
  rintro ⟨state, cut, owner, cycle⟩
  obtain ⟨next, ⟨different, lock, rest, wanted, taken⟩, _⟩ := Relation.TransGen.head'_iff.mp cycle
  obtain ⟨held, inside, below⟩ := cut.chain ascending cycle lock rest wanted
  have above := cut.above ascending different wanted taken held inside
  exact absurd above (not_lt_of_ge below)

end Ranks

end Lib.Locks
