import Mathlib.Data.List.Basic
import Mathlib.Tactic.Common

/-!
# Programs that ask and are answered

Asynchronous code is a tree: it is done, or it performs an operation and goes
on with the answer.  What the operations mean is not part of a program; a
history is the list of operations it has performed so far, with the answers.

`Lawful` is the program logic of the development.  A law says which operation
may be performed after which history, whatever the answers are, so a lawful
program obeys its law in every environment.
-/

namespace Lib

/-- Code over operations `Op`, each with its own type of answers. -/
inductive Program (Op : Type) (Answer : Op → Type) (α : Type) where
  | done (value : α)
  | act (op : Op) (next : Answer op → Program Op Answer α)

namespace Program

variable {Op : Type} {Answer : Op → Type} {α β γ : Type}

/-- An operation and the answer it got. -/
abbrev Step (Op : Type) (Answer : Op → Type) : Type := (op : Op) × Answer op

def bind : Program Op Answer α → (α → Program Op Answer β) → Program Op Answer β
  | done value, rest => rest value
  | act op next, rest => act op fun answer => (next answer).bind rest

instance : Monad (Program Op Answer) where
  pure := done
  bind := bind

/-- Perform one operation. -/
def perform (op : Op) : Program Op Answer (Answer op) := act op done

@[simp]
theorem pure_eq (value : α) : (pure value : Program Op Answer α) = done value := rfl

@[simp]
theorem done_bind (value : α) (rest : α → Program Op Answer β) :
    done value >>= rest = rest value := rfl

@[simp]
theorem act_bind (op : Op) (next : Answer op → Program Op Answer α)
    (rest : α → Program Op Answer β) :
    act op next >>= rest = act op fun answer => next answer >>= rest := rfl

@[simp]
theorem perform_bind (op : Op) (rest : Answer op → Program Op Answer β) :
    perform op >>= rest = act op rest := rfl

theorem bind_done (program : Program Op Answer α) : program >>= done = program := by
  induction program with
  | done value => rfl
  | act op next ih =>
    rw [act_bind]
    congr 1
    funext answer
    exact ih answer

theorem bind_assoc (program : Program Op Answer α)
    (first : α → Program Op Answer β) (second : β → Program Op Answer γ) :
    program >>= first >>= second = program >>= fun value => first value >>= second := by
  induction program with
  | done value => rfl
  | act op next ih =>
    simp only [act_bind]
    congr 1
    funext answer
    exact ih answer

instance : LawfulMonad (Program Op Answer) :=
  LawfulMonad.mk' _ bind_done (fun _ _ => rfl) bind_assoc

/-! ## Executions -/

/-- `rest` is what is left of a program after a list of steps. -/
inductive Performs : Program Op Answer α → List (Step Op Answer) → Program Op Answer α → Prop
  | refl (program : Program Op Answer α) : Performs program [] program
  | step {op : Op} {next : Answer op → Program Op Answer α}
      {answer : Answer op} {steps : List (Step Op Answer)}
      {rest : Program Op Answer α}
      (later : Performs (next answer) steps rest) :
      Performs (act op next) (⟨op, answer⟩ :: steps) rest

/-- The program performs these steps and ends with this value. -/
def Returns (program : Program Op Answer α) (steps : List (Step Op Answer)) (value : α) : Prop :=
  Performs program steps (done value)

variable {steps : List (Step Op Answer)}

@[simp]
theorem returns_done {value result : α} :
    Returns (done value) steps result ↔ steps = [] ∧ result = value := by
  constructor
  · intro returns
    cases returns
    exact ⟨rfl, rfl⟩
  · rintro ⟨rfl, rfl⟩
    exact .refl _

@[simp]
theorem returns_act {op : Op} {next : Answer op → Program Op Answer α} {result : α} :
    Returns (act op next) steps result ↔ ∃ answer later, steps = ⟨op, answer⟩ :: later ∧
        Returns (next answer) later result := by
  constructor
  · intro returns
    cases returns with
    | step later => exact ⟨_, _, rfl, later⟩
  · rintro ⟨answer, later, rfl, returns⟩
    exact .step returns

@[simp]
theorem returns_perform {op : Op} {result : Answer op} :
    Returns (perform op) steps result ↔ steps = [⟨op, result⟩] := by
  simp [perform]

theorem returns_perform_bind {op : Op} {rest : Answer op → Program Op Answer α} {result : α} :
    Returns (perform op >>= rest) steps result ↔ ∃ answer later, steps = ⟨op, answer⟩ :: later ∧
        Returns (rest answer) later result := by
  rw [perform_bind, returns_act]

variable {program : Program Op Answer α} {rest : Program Op Answer α}

theorem performs_append {first second : List (Step Op Answer)} :
    Performs program (first ++ second) rest ↔ ∃ middle, Performs program first middle ∧
        Performs middle second rest := by
  induction first generalizing program with
  | nil =>
    constructor
    · intro performs
      exact ⟨program, .refl _, performs⟩
    · rintro ⟨middle, ⟨⟩, performs⟩
      exact performs
  | cons step later ih =>
    constructor
    · rintro ⟨⟩
      next performs =>
        obtain ⟨middle, head, tail⟩ := ih.mp performs
        exact ⟨middle, .step head, tail⟩
    · rintro ⟨middle, ⟨⟩, tail⟩
      next head => exact .step (ih.mpr ⟨middle, head, tail⟩)

theorem Performs.unique {other : Program Op Answer α} (left : Performs program steps rest)
    (right : Performs program steps other) : rest = other := by
  induction left with
  | refl =>
    cases right
    rfl
  | step _ ih =>
    cases right with
    | step later => exact ih later

theorem performs_nil (performs : Performs program [] rest) : rest = program := by
  cases performs
  rfl

theorem performs_singleton {op : Op}
    {answer : Answer op} (performs : Performs program [⟨op, answer⟩] rest) :
    ∃ next, program = act op next ∧ rest = next answer := by
  cases performs with
  | step later => exact ⟨_, rfl, performs_nil later⟩

/-- Programs in sequence: the steps split where the first one ends. -/
theorem returns_bind {rest : α → Program Op Answer β} {result : β} :
    Returns (program >>= rest) steps result ↔ ∃ first value second, steps = first ++ second ∧
        Returns program first value ∧ Returns (rest value) second result := by
  induction program generalizing steps with
  | done value => simp
  | act op next ih =>
    simp only [act_bind, returns_act, ih]
    constructor
    · rintro ⟨answer, _, rfl, first, value, second, rfl, head, tail⟩
      exact ⟨⟨op, answer⟩ :: first, value, second, rfl, ⟨answer, first, rfl, head⟩, tail⟩
    · rintro ⟨_, value, second, rfl, ⟨answer, first, rfl, head⟩, tail⟩
      exact ⟨answer, first ++ second, rfl, first, value, second, rfl, head, tail⟩

/-! ## Laws -/

section Law

variable (law : List (Step Op Answer) → Op → Prop)

/-- After `past`, every operation of the program is one the law allows, and
the value it ends with satisfies `post`. -/
def Lawful (post : α → List (Step Op Answer) → Prop) :
    List (Step Op Answer) → Program Op Answer α → Prop
  | past, done value => post value past
  | past, act op next => law past op ∧ ∀ answer, Lawful post (past ++ [⟨op, answer⟩]) (next answer)

variable {law} {post : α → List (Step Op Answer) → Prop}
variable {past : List (Step Op Answer)}

@[simp]
theorem lawful_done {value : α} : Lawful law post past (done value) ↔ post value past := Iff.rfl

@[simp]
theorem lawful_act {op : Op} {next : Answer op → Program Op Answer α} :
    Lawful law post past (act op next) ↔ law past op ∧
      ∀ answer, Lawful law post (past ++ [⟨op, answer⟩]) (next answer) :=
  Iff.rfl

@[simp]
theorem lawful_perform {op : Op} {post : Answer op → List (Step Op Answer) → Prop} :
    Lawful law post past (perform op) ↔ law past op ∧
      ∀ answer, post answer (past ++ [⟨op, answer⟩]) := Iff.rfl

variable {program : Program Op Answer α}

theorem Lawful.mono {weaker : α → List (Step Op Answer) → Prop}
    (lawful : Lawful law post past program)
    (implies : ∀ value history, post value history → weaker value history) :
    Lawful law weaker past program := by
  induction program generalizing past with
  | done value => exact implies value past lawful
  | act op next ih =>
    exact ⟨lawful.1, fun answer =>
      ih answer (lawful.2 answer)⟩

/-- Programs in sequence: the second one starts with the history the first
one leaves. -/
theorem lawful_bind {rest : α → Program Op Answer β} {post : β → List (Step Op Answer) → Prop} :
    Lawful law post past (program >>= rest) ↔
      Lawful law (fun value history => Lawful law post history (rest value))
        past program := by
  induction program generalizing past with
  | done value => exact Iff.rfl
  | act op next ih =>
    simp only [act_bind, lawful_act]
    exact and_congr_right fun _ =>
      forall_congr' fun answer => ih answer

theorem Lawful.bind {middle : α → List (Step Op Answer) → Prop} {rest : α → Program Op Answer β}
    {post : β → List (Step Op Answer) → Prop}
    (first : Lawful law middle past program)
    (second : ∀ value history, middle value history → Lawful law post history (rest value)) :
    Lawful law post past (program >>= rest) :=
  lawful_bind.mpr (first.mono second)

theorem Lawful.law_mono {weaker : List (Step Op Answer) → Op → Prop}
    (lawful : Lawful law post past program)
    (implies : ∀ history op, law history op → weaker history op) :
    Lawful weaker post past program := by
  induction program generalizing past with
  | done value => exact lawful
  | act op next ih =>
    exact ⟨implies past op lawful.1, fun answer =>
      ih answer (lawful.2 answer)⟩

theorem Lawful.and {other : List (Step Op Answer) → Op → Prop}
    {otherPost : α → List (Step Op Answer) → Prop}
    (lawful : Lawful law post past program)
    (also : Lawful other otherPost past program) :
    Lawful (fun history op => law history op ∧ other history op)
      (fun value history => post value history ∧ otherPost value history)
      past program := by
  induction program generalizing past with
  | done value => exact ⟨lawful, also⟩
  | act op next ih =>
    exact ⟨⟨lawful.1, also.1⟩, fun answer =>
      ih answer (lawful.2 answer) (also.2 answer)⟩

theorem Lawful.performs {rest : Program Op Answer α} {steps : List (Step Op Answer)}
    (lawful : Lawful law post past program)
    (performs : Performs program steps rest) :
    Lawful law post (past ++ steps) rest := by
  induction performs generalizing past with
  | refl => simpa using lawful
  | @step op next answer steps rest _ ih =>
    have later := ih (lawful.2 answer)
    simpa using later

theorem Lawful.allowed {rest : Program Op Answer α} {steps before after : List (Step Op Answer)}
    {op : Op} {answer : Answer op}
    (lawful : Lawful law post past program)
    (performs : Performs program steps rest)
    (split : steps = before ++ ⟨op, answer⟩ :: after) :
    law (past ++ before) op := by
  induction performs generalizing past before with
  | refl => simp at split
  | @step first next given steps rest _ ih =>
    cases before with
    | nil =>
      obtain ⟨same, _⟩ := List.cons.inj split
      cases same
      simpa using lawful.1
    | cons head tail =>
      obtain ⟨rfl, equal⟩ := List.cons.inj split
      have later := ih (lawful.2 given) equal
      simpa using later

end Law

/-! ## Operations a program uses -/

section Uses

/-- Every operation the program can perform is one of these. -/
def Uses (allowed : Op → Prop) : Program Op Answer α → Prop
  | done _ => True
  | act op next => allowed op ∧ ∀ answer, Uses allowed (next answer)

variable {allowed : Op → Prop}

@[simp]
theorem uses_done {value : α} : Uses allowed (done value : Program Op Answer α) ↔ True := Iff.rfl

@[simp]
theorem uses_act {op : Op} {next : Answer op → Program Op Answer α} : Uses allowed (act op next) ↔
      allowed op ∧ ∀ answer, Uses allowed (next answer) := Iff.rfl

variable {program : Program Op Answer α}

theorem Uses.bind {rest : α → Program Op Answer β} (first : Uses allowed program)
    (second : ∀ value, Uses allowed (rest value)) :
    Uses allowed (program >>= rest) := by
  induction program with
  | done value => exact second value
  | act op next ih =>
    exact ⟨first.1, fun answer =>
      ih answer (first.2 answer)⟩

theorem Uses.performs {rest : Program Op Answer α}
    {steps : List (Step Op Answer)} (uses : Uses allowed program)
    (performs : Performs program steps rest) :
    ∀ step ∈ steps, allowed step.1 := by
  induction performs with
  | refl => simp
  | step _ ih =>
    intro step member
    rcases List.mem_cons.mp member with rfl | later
    · exact uses.1
    · exact ih (uses.2 _) step later

/-- A program is lawful when the law allows all it uses. -/
theorem Uses.lawful {law : List (Step Op Answer) → Op → Prop} {past : List (Step Op Answer)}
    (uses : Uses allowed program)
    (allows : ∀ history op, allowed op → law history op) :
    Lawful law (fun value history => ∃ steps, history = past ++ steps ∧
        Returns program steps value ∧ ∀ step ∈ steps, allowed step.1)
      past program := by
  induction program generalizing past with
  | done value => exact ⟨[], by simp, .refl _, by simp⟩
  | act op next ih =>
    refine ⟨allows past op uses.1, fun answer => ?_⟩
    refine (ih answer (uses.2 answer)).mono ?_
    rintro value history ⟨steps, rfl, returns, only⟩
    refine ⟨⟨op, answer⟩ :: steps, by simp, .step returns, ?_⟩
    intro step member
    rcases List.mem_cons.mp member with rfl | later
    · exact uses.1
    · exact only step later

end Uses

/-! ## Operations as programs -/

section Interpret

variable {Op' : Type} {Answer' : Op' → Type}

/-- Every operation is replaced by a program that answers it. -/
def interpret (meaning : (op : Op) → Program Op' Answer' (Answer op)) :
    Program Op Answer α → Program Op' Answer' α
  | done value => done value
  | act op next =>
    meaning op >>= fun answer => interpret meaning (next answer)

variable {meaning : (op : Op) → Program Op' Answer' (Answer op)}

@[simp]
theorem interpret_done (value : α) :
    interpret meaning (done value : Program Op Answer α) = done value := rfl

@[simp]
theorem interpret_act (op : Op) (next : Answer op → Program Op Answer α) :
    interpret meaning (act op next) =
      meaning op >>= fun answer => interpret meaning (next answer) := rfl

@[simp]
theorem interpret_perform (op : Op) : interpret meaning (perform op) = meaning op :=
  bind_done (meaning op)

@[simp]
theorem interpret_bind (program : Program Op Answer α) (rest : α → Program Op Answer β) :
    interpret meaning (program >>= rest) = interpret meaning program >>= fun value =>
      interpret meaning (rest value) := by
  induction program with
  | done value => rfl
  | act op next ih =>
    rw [act_bind, interpret_act, interpret_act, bind_assoc]
    congr 1
    funext answer
    exact ih answer

theorem interpret_interpret {Op'' : Type} {Answer'' : Op'' → Type}
    {outer : (op : Op') → Program Op'' Answer'' (Answer' op)}
    (program : Program Op Answer α) :
    interpret outer (interpret meaning program) =
      interpret (fun op => interpret outer (meaning op)) program := by
  induction program with
  | done value => rfl
  | act op next ih =>
    rw [interpret_act, interpret_bind, interpret_act]
    congr 1
    funext answer
    exact ih answer

theorem interpret_self (program : Program Op Answer α) :
    interpret (fun op => perform op) program = program := by
  induction program with
  | done value => rfl
  | act op next ih =>
    rw [interpret_act, perform_bind]
    congr 1
    funext answer
    exact ih answer

end Interpret

end Program

end Lib
