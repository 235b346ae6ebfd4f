import Mathlib.Data.List.Induction
import Mathlib.Data.List.Pairwise
import Mathlib.Logic.Relation
import Worklane.Lib.Program
import Worklane.Lib.Select

/-!
# Interleaved programs over shared state

A system runs any number of programs at once.  A thread is started at any
time and keeps what is left of its program; one step of the system lets one
thread perform its next operation on the shared state.  A crashed thread is
one that takes no further step, so crashes need no step of their own.

The log records every operation in the order performed.  What one thread has
done is a history of its program (`own`), so a law that the bodies of the
threads obey on their own holds of every event of the log, whatever the other
threads do (`Reachable.orderly`).  Invariants of whole systems are then
proved by induction on lawful logs (`Behaves`), without looking at programs.
-/

namespace Lib

open List
open Program (Step Lawful)

variable {Start Op Report Shared : Type} {Answer : Op → Type}

/-- An operation of a thread and the answer it got. -/
structure Event (Op : Type) (Answer : Op → Type) where
  thread : Nat
  op : Op
  answer : Answer op

def Event.step (event : Event Op Answer) : Step Op Answer :=
  ⟨event.op, event.answer⟩

/-- What one thread has done. -/
def own (thread : Nat) (log : List (Event Op Answer)) : List (Step Op Answer) :=
  (log.filter fun event => event.thread = thread).map Event.step

@[simp]
theorem own_nil (thread : Nat) : own thread ([] : List (Event Op Answer)) = [] := rfl

@[simp]
theorem own_append (thread : Nat) (first second : List (Event Op Answer)) :
    own thread (first ++ second) = own thread first ++ own thread second := by
  simp [own]

@[simp]
theorem own_singleton_self (thread : Nat) (op : Op) (answer : Answer op) :
    own thread [⟨thread, op, answer⟩] = [⟨op, answer⟩] := by
  simp [own, Event.step]

theorem own_singleton_of_ne {thread other : Nat} (op : Op)
    (answer : Answer op) (different : other ≠ thread) :
    own thread [⟨other, op, answer⟩] = [] := by
  simp [own, different]

variable {log : List (Event Op Answer)}

theorem mem_own {thread : Nat} {op : Op} {answer : Answer op} :
    ⟨op, answer⟩ ∈ own thread log ↔ ⟨thread, op, answer⟩ ∈ log := by
  simp only [own, mem_map, mem_filter, decide_eq_true_eq]
  constructor
  · rintro ⟨⟨other, op', answer'⟩, ⟨member, same⟩, equal⟩
    cases same
    cases equal
    exact member
  · intro member
    exact ⟨_, ⟨member, rfl⟩, rfl⟩

theorem order_of_mem {α : Type} {items : List α} {left right : α}
    (inLeft : left ∈ items) (inRight : right ∈ items) :
    left = right ∨ (∃ past future, items = past ++ right :: future ∧ left ∈ past) ∨
      ∃ past future, items = past ++ left :: future ∧ right ∈ past := by
  obtain ⟨past, future, rfl⟩ := append_of_mem inLeft
  rcases mem_append.mp inRight with early | late
  · exact Or.inr (Or.inr ⟨past, future, rfl, early⟩)
  · rcases mem_cons.mp late with same | later
    · exact Or.inl same.symm
    · obtain ⟨between, rest, rfl⟩ := append_of_mem later
      exact Or.inr (Or.inl ⟨past ++ left :: between, rest, by simp, by simp⟩)

theorem own_sublist (thread : Nat) (log : List (Event Op Answer)) :
    (own thread log).Sublist (log.map Event.step) :=
  filter_sublist.map _

theorem eq_of_filterMap_nodup {α β : Type} {value : α → Option β}
    {items : List α} (distinct : (items.filterMap value).Nodup)
    {left right : α} {found : β} (inLeft : left ∈ items)
    (inRight : right ∈ items) (atLeft : value left = some found)
    (atRight : value right = some found) : left = right := by
  rw [List.Nodup, pairwise_filterMap] at distinct
  have symmetric : Std.Symm fun first second : α =>
    ∀ here, value first = some here → ∀ there, value second = some there → here ≠ there := by
    refine ⟨?_⟩
    intro first second apart here atFirst there atSecond same
    exact apart there atSecond here atFirst same.symm
  by_contra different
  exact distinct.forall inLeft inRight different found atLeft found atRight rfl

theorem owner_unique {β : Type} {value : Step Op Answer → Option β}
    (distinct : ((log.map Event.step).filterMap value).Nodup)
    {left right : Nat} {found : β}
    (inLeft : found ∈ (own left log).filterMap value)
    (inRight : found ∈ (own right log).filterMap value) : left = right := by
  obtain ⟨⟨op, answer⟩, memberLeft, valueLeft⟩ := mem_filterMap.mp inLeft
  obtain ⟨⟨op', answer'⟩, memberRight, valueRight⟩ := mem_filterMap.mp inRight
  rw [mem_own] at memberLeft memberRight
  rw [filterMap_map] at distinct
  exact congrArg Event.thread (eq_of_filterMap_nodup distinct memberLeft
    memberRight valueLeft valueRight)

/-- Programs to start, and what operations do to the shared state.  Answers
may depend on the log, so that fresh values can be asked for. -/
structure System (Start Op : Type) (Answer : Op → Type) (Report Shared : Type) where
  body : Start → Program Op Answer Report
  initial : Shared
  answers : List (Event Op Answer) → Shared → (op : Op) → Answer op → Shared → Prop

/-- How a thread was started and what is left of it. -/
structure Thread (Start Op : Type) (Answer : Op → Type) (Report : Type) where
  start : Start
  rest : Program Op Answer Report

structure Pool (Start Op : Type) (Answer : Op → Type) (Report Shared : Type) where
  shared : Shared
  log : List (Event Op Answer)
  threads : List (Thread Start Op Answer Report)

def Pool.starts (pool : Pool Start Op Answer Report Shared) (thread : Nat) : Option Start :=
  pool.threads[thread]?.map Thread.start

namespace System

variable (system : System Start Op Answer Report Shared)

def empty : Pool Start Op Answer Report Shared where
  shared := system.initial
  log := []
  threads := []

/-- A thread is started, or one thread performs its next operation. -/
inductive Moves : Pool Start Op Answer Report Shared → Pool Start Op Answer Report Shared → Prop
  | spawn {pool : Pool Start Op Answer Report Shared} (start : Start) : Moves pool
        { pool with
          threads := pool.threads ++ [⟨start, system.body start⟩] }
  | act {pool : Pool Start Op Answer Report Shared}
      {before after : List (Thread Start Op Answer Report)}
      {start : Start} {op : Op}
      {next : Answer op → Program Op Answer Report}
      {answer : Answer op} {shared : Shared}
      (split : pool.threads = before ++ ⟨start, .act op next⟩ :: after)
      (answered : system.answers pool.log pool.shared op answer shared) :
      Moves pool
        { shared := shared
          log := pool.log ++ [⟨before.length, op, answer⟩]
          threads := before ++ ⟨start, next answer⟩ :: after }

/-- What a pool may become. -/
def Leads (pool later : Pool Start Op Answer Report Shared) : Prop :=
  Relation.ReflTransGen system.Moves pool later

def Reachable (pool : Pool Start Op Answer Report Shared) : Prop :=
  system.Leads system.empty pool

section Behaves

variable (law : Start → List (Step Op Answer) → Op → Prop)
variable (starts : Nat → Option Start)

/-- Logs whose events are answered by the shared state and lawful for the
thread that performs them. -/
inductive Behaves : List (Event Op Answer) → Shared → Prop
  | nil : Behaves [] system.initial
  | snoc {log : List (Event Op Answer)} {shared next : Shared}
      {thread : Nat} {start : Start} {op : Op} {answer : Answer op}
      (earlier : Behaves log shared)
      (started : starts thread = some start)
      (lawful : law start (own thread log) op)
      (answered : system.answers log shared op answer next) :
      Behaves (log ++ [⟨thread, op, answer⟩]) next

variable {system law starts}

variable {log : List (Event Op Answer)} {shared : Shared}

theorem Behaves.more_starts {starts' : Nat → Option Start}
    (more : ∀ thread start, starts thread = some start → starts' thread = some start)
    (behaves : system.Behaves law starts log shared) :
    system.Behaves law starts' log shared := by
  induction behaves with
  | nil => exact .nil
  | snoc _ started lawful answered ih =>
    exact .snoc ih (more _ _ started) lawful answered

theorem Behaves.moment {past future : List (Event Op Answer)}
    (behaves : system.Behaves law starts log shared)
    {event : Event Op Answer} (split : log = past ++ event :: future) :
    ∃ before after start, system.Behaves law starts past before ∧
      system.Behaves law starts (past ++ [event]) after ∧
      starts event.thread = some start ∧
      law start (own event.thread past) event.op ∧
      system.answers past before event.op event.answer after := by
  induction behaves generalizing future with
  | nil => simp at split
  | @snoc log shared next thread start op answer earlier started lawful
      answered ih =>
      rcases eq_nil_or_concat future with rfl | ⟨later, last, rfl⟩
      · obtain ⟨rfl, same⟩ := append_inj' split rfl
        obtain rfl := (List.cons.inj same).1
        exact ⟨shared, next, start, earlier,
          .snoc earlier started lawful answered, started, lawful, answered⟩
      · rw [concat_eq_append, ← cons_append, ← append_assoc] at split
        exact ih (append_inj' split rfl).1

theorem Behaves.past {past future : List (Event Op Answer)}
    (behaves : system.Behaves law starts log shared) (split : log = past ++ future) :
    ∃ before, system.Behaves law starts past before := by
  cases future with
  | nil =>
    rw [append_nil] at split
    exact ⟨shared, split ▸ behaves⟩
  | cons event later =>
    obtain ⟨before, _, _, earlier, _⟩ := behaves.moment split
    exact ⟨before, earlier⟩

end Behaves

section Orderly

variable {system}
variable (law : Start → List (Step Op Answer) → Op → Prop)
variable (post : Start → Report → List (Step Op Answer) → Prop)

/-- Every thread has obeyed its law and goes on obeying it. -/
structure Orderly (pool : Pool Start Op Answer Report Shared) : Prop where
  behaves : system.Behaves law pool.starts pool.log pool.shared
  lawful : ∀ (index : Nat) (thread : Thread Start Op Answer Report),
    pool.threads[index]? = some thread →
    Lawful (law thread.start) (post thread.start) (own index pool.log) thread.rest
  silent : ∀ index, pool.threads.length ≤ index → own index pool.log = []

variable {law post} {pool later : Pool Start Op Answer Report Shared}

theorem Orderly.spawn (orderly : system.Orderly law post pool) (start : Start)
    (body : Lawful (law start) (post start) [] (system.body start)) :
    system.Orderly law post
      { pool with
        threads := pool.threads ++ [⟨start, system.body start⟩] } where
  behaves := by
    refine orderly.behaves.more_starts ?_
    intro thread started known
    obtain ⟨found, inside, rfl⟩ := Option.map_eq_some_iff.mp known
    have shorter := (List.getElem?_eq_some_iff.mp inside).1
    simp [Pool.starts, List.getElem?_append_left shorter, inside]
  lawful := by
    intro index thread found
    rcases Nat.lt_or_ge index pool.threads.length with early | late
    · rw [List.getElem?_append_left early] at found
      exact orderly.lawful index thread found
    · rw [List.getElem?_append_right late, List.getElem?_singleton] at found
      split at found
      · cases found
        rw [orderly.silent index late]
        exact body
      · cases found
  silent := by
    intro index late
    apply orderly.silent
    simp only [List.length_append, List.length_singleton] at late
    omega

theorem Orderly.act (orderly : system.Orderly law post pool)
    {before after : List (Thread Start Op Answer Report)}
    {start : Start} {op : Op}
    {next : Answer op → Program Op Answer Report}
    {answer : Answer op} {shared : Shared}
    (split : pool.threads = before ++ ⟨start, .act op next⟩ :: after)
    (answered : system.answers pool.log pool.shared op answer shared) :
    system.Orderly law post
      { shared := shared
        log := pool.log ++ [⟨before.length, op, answer⟩]
        threads := before ++ ⟨start, next answer⟩ :: after } := by
  have acting : pool.threads[before.length]? = some ⟨start, .act op next⟩ := by simp [split]
  obtain ⟨allowed, goesOn⟩ := orderly.lawful _ _ acting
  refine ⟨?_, ?_, ?_⟩
  · have same : ∀ thread started, pool.starts thread = some started →
        ((before ++ ⟨start, next answer⟩ :: after)[thread]?.map Thread.start) = some started := by
      intro thread started known
      rw [Pool.starts, split] at known
      by_cases here : before.length = thread
      · subst here
        simpa using known
      · rwa [getElem?_split_of_ne here _ ⟨start, .act op next⟩]
    refine .snoc (orderly.behaves.more_starts same) ?_ allowed answered
    simp [Pool.starts]
  · intro index thread found
    rw [own_append]
    by_cases here : before.length = index
    · subst here
      simp only [getElem?_append_right (Nat.le_refl _), Nat.sub_self,
        getElem?_cons_zero, Option.some.injEq] at found
      subst found
      rw [own_singleton_self]
      exact goesOn answer
    · rw [own_singleton_of_ne op answer here, append_nil]
      apply orderly.lawful index thread
      rwa [split, getElem?_split_of_ne here _ ⟨start, next answer⟩]
  · intro index late
    have longer : before.length ≠ index := by
      simp only [length_append, length_cons] at late
      omega
    rw [own_append, own_singleton_of_ne op answer longer, append_nil]
    apply orderly.silent
    simpa [split] using late

/-- The rule for systems: if every body obeys its law on its own, every
reachable pool is orderly. -/
theorem Reachable.orderly (bodies : ∀ start, Lawful (law start) (post start) [] (system.body start))
    (reachable : system.Reachable pool) : system.Orderly law post pool := by
  induction reachable with
  | refl =>
    exact ⟨.nil, by simp [System.empty], by simp [System.empty]⟩
  | tail _ moves ih =>
    cases moves with
    | spawn start => exact ih.spawn start (bodies start)
    | act split answered => exact ih.act split answered

end Orderly

/-! ## Replaying a log -/

section Replay

open Program (Performs)

/-- A log whose answers the shared state gives. -/
inductive Answered : List (Event Op Answer) → Shared → Prop
  | nil : Answered [] system.initial
  | snoc {log : List (Event Op Answer)} {shared next : Shared}
      {thread : Nat} {op : Op} {answer : Answer op}
      (earlier : Answered log shared)
      (answered : system.answers log shared op answer next) :
      Answered (log ++ [⟨thread, op, answer⟩]) next

/-- Every thread has performed its part of the log. -/
structure Replays (starts : List Start) (log : List (Event Op Answer))
    (shared : Shared) (pool : Pool Start Op Answer Report Shared) :
    Prop where
  reachable : system.Reachable pool
  sameLog : pool.log = log
  sameShared : pool.shared = shared
  threads : ∀ (index : Nat) (start : Start), starts[index]? = some start →
    ∃ rest, pool.threads[index]? = some ⟨start, rest⟩ ∧
      Performs (system.body start) (own index log) rest

variable {system}

theorem reachable_spawned (starts : List Start) :
    system.Reachable ⟨system.initial, [], starts.map fun start =>
      ⟨start, system.body start⟩⟩ := by
  induction starts using List.reverseRecOn with
  | nil => exact Relation.ReflTransGen.refl
  | append_singleton past start ih =>
    rw [map_append]
    exact ih.tail (.spawn start)

/-- A log that the programs can perform and the shared state can answer is
the log of a reachable pool. -/
theorem Answered.replays {log : List (Event Op Answer)} {shared : Shared}
    (answered : system.Answered log shared) {starts : List Start}
    (performs : ∀ (index : Nat) (start : Start), starts[index]? = some start →
      ∃ rest, Performs (system.body start) (own index log) rest)
    (known : ∀ event ∈ log, event.thread < starts.length) :
    ∃ pool, system.Replays starts log shared pool := by
  induction answered with
  | nil =>
    refine ⟨_, reachable_spawned starts, rfl, rfl, ?_⟩
    intro index start found
    exact ⟨system.body start, by simp [found], .refl _⟩
  | @snoc log shared next thread op answer earlier answered
      ih =>
      obtain ⟨pool, reachable, rfl, rfl, threads⟩ := ih (by
        intro index start found
        obtain ⟨rest, whole⟩ := performs index start found
        rw [own_append] at whole
        obtain ⟨middle, first, _⟩ := Program.performs_append.mp whole
        exact ⟨middle, first⟩) (fun event member =>
          known event (mem_append_left _ member))
      have bound : thread < starts.length := known ⟨thread, op, answer⟩
        (mem_append_right _ (mem_singleton.mpr rfl))
      have started := getElem?_eq_getElem bound
      -- The acting thread is where its own part of the log leaves it.
      obtain ⟨rest, here, part⟩ := threads thread _ started
      obtain ⟨final, whole⟩ := performs thread _ started
      rw [own_append, own_singleton_self] at whole
      obtain ⟨middle, first, last⟩ := Program.performs_append.mp whole
      obtain rfl := part.unique first
      obtain ⟨continued, rfl, _⟩ := Program.performs_singleton last
      obtain ⟨inside, equal⟩ := List.getElem?_eq_some_iff.mp here
      have split : pool.threads = pool.threads.take thread ++ ⟨starts[thread], .act op continued⟩ ::
            pool.threads.drop (thread + 1) := by
        rw [← equal, getElem_cons_drop, take_append_drop]
      have width : (pool.threads.take thread).length = thread := by
        rw [length_take]
        omega
      refine ⟨_, reachable.tail (.act split answered), ?_, rfl, ?_⟩
      · rw [width]
      · intro index start found
        by_cases acting : thread = index
        · subst acting
          obtain rfl := Option.some.inj (started.symm.trans found)
          refine ⟨continued answer, ?_, ?_⟩
          · rw [getElem?_append_right (by omega), width]
            simp
          · rw [own_append, own_singleton_self]
            exact Program.performs_append.mpr ⟨_, part, .step (.refl _)⟩
        · obtain ⟨left, place, own⟩ := threads index start found
          refine ⟨left, ?_, ?_⟩
          · refine Eq.trans ?_ place
            conv_rhs => rw [split]
            exact getElem?_split_of_ne (by rwa [width]) _ _
          · rw [own_append, own_singleton_of_ne op answer acting, append_nil]
            exact own

end Replay

end System

end Lib
