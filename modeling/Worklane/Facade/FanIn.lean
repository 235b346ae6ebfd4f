import Worklane.Facade.Effects

/-!
# The fan-in payload and its assembly

The data part of `workflow.rs`: the payload a watcher carries from generation
to generation, its validation, and the conversions between the captured
outputs of the payload and the slots of an assembly.

`Assembly` is the type of another crate.  It enters as the structure
`Lengkap`, with the four facts about it the watcher relies on.
-/

namespace Worklane.Facade

/-- `FanInPolicy`. -/
structure FanInPolicy where
  pollDelaySecs : UInt64
  maxGenerations : UInt32
  deriving DecidableEq, Repr

structure FanInWatcherPayload where
  faninId : String
  dependencies : List JobId
  generation : UInt32
  pollDelaySecs : UInt64
  maxGenerations : UInt32
  collected : List (JobId × Blob)
  callbackLane : String
  callbackKind : String
  callbackPayload : Blob
  callbackMaxAttempts : UInt32
  callbackPriority : UInt8
  deriving DecidableEq, Repr

namespace FanInWatcherPayload

/-- `FanInWatcherPayload::new`: generation 1, nothing captured. -/
def new (faninId : String) (dependencies : List JobId)
    (callbackLane callbackKind : String) (callbackPayload : Blob)
    (callbackMaxAttempts : UInt32) (callbackPriority : UInt8)
    (policy : FanInPolicy) : Except Failure FanInWatcherPayload :=
  if dependencies = [] then
    .error (.spi (.broker "a fan-in must have at least one dependency"))
  else if policy.maxGenerations = 0 then
    .error (.spi (.broker "a fan-in watcher needs at least one generation (max_generations >= 1)"))
  else
    .ok
      { faninId := faninId
        dependencies := dependencies
        generation := 1
        pollDelaySecs := policy.pollDelaySecs
        maxGenerations := policy.maxGenerations
        collected := []
        callbackLane := callbackLane
        callbackKind := callbackKind
        callbackPayload := callbackPayload
        callbackMaxAttempts := callbackMaxAttempts
        callbackPriority := callbackPriority }

/-! ## Validation -/

def ensure (holds : Prop) [Decidable holds] (text : String) :
    Except String Unit :=
  if holds then .ok () else .error text

def malformed (payload : FanInWatcherPayload) (detail : String) : String :=
  s!"fan-in watcher payload for {payload.faninId} is malformed: {detail}"

/-- The `HashSet` pass over the dependencies. -/
def checkDistinct (text : JobId → String) : List JobId → List JobId → Except String Unit
  | _, [] => .ok ()
  | seen, id :: rest =>
    if id ∈ seen then
      .error (text id)
    else
      checkDistinct text (id :: seen) rest

/-- The pass over the captured outputs. -/
def checkCaptured (payload : FanInWatcherPayload) :
    List JobId → List (JobId × Blob) → Except String Unit
  | _, [] => .ok ()
  | seen, (id, _) :: rest =>
    if id ∉ payload.dependencies then
      .error (payload.malformed s!"captured unknown dependency {id}")
    else if id ∈ seen then
      .error (payload.malformed s!"duplicate captured dependency {id}")
    else
      checkCaptured payload (id :: seen) rest

def validate (payload : FanInWatcherPayload) : Except String Unit := do
  ensure (payload.faninId ≠ "") "fan-in watcher payload is malformed: fanin_id is empty"
  ensure (payload.dependencies ≠ []) (payload.malformed "no dependencies")
  ensure (payload.generation ≠ 0) (payload.malformed "generation must be positive")
  ensure (payload.maxGenerations ≠ 0 ∧ payload.generation ≤ payload.maxGenerations)
    (payload.malformed s!"generation {payload.generation} exceeds max {payload.maxGenerations}")
  ensure (payload.callbackKind ≠ "") (payload.malformed "callback kind is empty")
  match Lane.validated payload.callbackLane with
  | .error failure =>
    .error (payload.malformed s!"invalid callback lane: {failure.text}")
  | .ok _ => do
      checkDistinct (fun id => payload.malformed s!"duplicate dependency {id}")
        [] payload.dependencies
      checkCaptured payload [] payload.collected

/-- What `validate` accepts. -/
structure Valid (payload : FanInWatcherPayload) : Prop where
  faninId : payload.faninId ≠ ""
  dependencies : payload.dependencies ≠ []
  generation : payload.generation ≠ 0
  bounded : payload.generation ≤ payload.maxGenerations
  callbackKind : payload.callbackKind ≠ ""
  callbackLane : ∃ lane, Lane.validated payload.callbackLane = .ok lane
  distinct : payload.dependencies.Nodup
  known : ∀ entry ∈ payload.collected, entry.1 ∈ payload.dependencies
  once : (payload.collected.map Prod.fst).Nodup

theorem checkDistinct_ok {text : JobId → String} (seen ids : List JobId) :
    checkDistinct text seen ids = .ok () ↔ ids.Nodup ∧ ∀ id ∈ ids, id ∉ seen := by
  induction ids generalizing seen with
  | nil => simp [checkDistinct]
  | cons id rest ih =>
    unfold checkDistinct
    by_cases repeated : id ∈ seen
    · simp [repeated]
    · rw [if_neg repeated, ih]
      simp only [List.nodup_cons, List.mem_cons, not_or, forall_eq_or_imp]
      constructor
      · rintro ⟨distinct, unseen⟩
        exact ⟨⟨fun member => (unseen id member).1 rfl, distinct⟩,
          repeated, fun other member => (unseen other member).2⟩
      · rintro ⟨⟨fresh, distinct⟩, _, unseen⟩
        refine ⟨distinct, fun other member => ⟨?_, unseen other member⟩⟩
        rintro rfl
        exact fresh member

theorem checkCaptured_ok (payload : FanInWatcherPayload)
    (seen : List JobId) (collected : List (JobId × Blob)) :
    checkCaptured payload seen collected = .ok () ↔
      (∀ entry ∈ collected, entry.1 ∈ payload.dependencies) ∧ (collected.map Prod.fst).Nodup ∧
        ∀ entry ∈ collected, entry.1 ∉ seen := by
  induction collected generalizing seen with
  | nil => simp [checkCaptured]
  | cons entry rest ih =>
    obtain ⟨id, bytes⟩ := entry
    unfold checkCaptured
    by_cases known : id ∈ payload.dependencies
    · by_cases repeated : id ∈ seen
      · simp [known, repeated]
      · rw [if_neg (not_not_intro known), if_neg repeated, ih]
        simp only [List.mem_cons, not_or, forall_eq_or_imp, known,
          true_and, List.map_cons, List.nodup_cons, List.mem_map,
          not_exists, not_and, repeated, not_false_eq_true]
        constructor
        · rintro ⟨inside, distinct, unseen⟩
          exact ⟨inside, ⟨fun other member same => (unseen other member).1 same, distinct⟩,
            fun other member => (unseen other member).2⟩
        · rintro ⟨inside, ⟨fresh, distinct⟩, unseen⟩
          exact ⟨inside, distinct, fun other member =>
            ⟨fun same => fresh other member same, unseen other member⟩⟩
    · simp [known]

theorem validate_ok (payload : FanInWatcherPayload) :
    payload.validate = .ok () ↔ payload.Valid := by
  have first : ∀ (holds : Prop) [Decidable holds] (text : String) (rest : Except String Unit),
      (ensure holds text >>= fun _ => rest) = .ok () ↔ holds ∧ rest = .ok () := by
    intro holds decided text rest
    unfold ensure
    split <;> simp_all [Bind.bind, Except.bind]
  have second : ∀ (head rest : Except String Unit),
      (head >>= fun _ => rest) = .ok () ↔ head = .ok () ∧ rest = .ok () := by
    intro head rest
    cases head <;> simp [Bind.bind, Except.bind]
  unfold validate
  simp only [first]
  constructor
  · rintro ⟨faninId, dependencies, generation, bounded, kind, rest⟩
    split at rest
    · cases rest
    · next lane parsed =>
      rw [second, checkDistinct_ok, checkCaptured_ok] at rest
      exact ⟨faninId, dependencies, generation, bounded.2, kind,
        ⟨lane, parsed⟩, rest.1.1, rest.2.1, rest.2.2.1⟩
  · intro valid
    obtain ⟨lane, parsed⟩ := valid.callbackLane
    have positive : payload.maxGenerations ≠ 0 := by
      intro zero
      have bounded := valid.bounded
      rw [zero, UInt32.le_zero_iff] at bounded
      exact valid.generation bounded
    refine ⟨valid.faninId, valid.dependencies, valid.generation,
      ⟨positive, valid.bounded⟩, valid.callbackKind, ?_⟩
    rw [parsed]
    simp only
    rw [second, checkDistinct_ok, checkCaptured_ok]
    exact ⟨⟨valid.distinct, by simp⟩, valid.known, valid.once, by simp⟩

end FanInWatcherPayload

/-! ## The assembly -/

inductive FanInImpossible where
  | deadLettered (id : JobId)
  | missingResult (id : JobId)
  deriving DecidableEq, Repr

inductive Finding where
  | produced (bytes : Blob)
  | impossible (cause : FanInImpossible)
  deriving DecidableEq, Repr

inductive Decision (Assembly : Type) where
  | pending (assembly : Assembly)
  | ready (results : List Blob)
  | impossible (cause : FanInImpossible)

abbrev Slots : Type := List (Option Blob)

/-- The slots with the produced findings filled in. -/
def fill : Slots → List (Nat × Finding) → Slots
  | slots, [] => slots
  | slots, (index, .produced bytes) :: rest =>
    fill (slots.set index (some bytes)) rest
  | slots, (_, .impossible _) :: rest => fill slots rest

/-- The positions of the empty slots, in order. -/
def emptySlots (slots : Slots) : List Nat :=
  (List.range slots.length).filter fun index => slots[index]? = some none

/-- What the watcher relies on of the assembly crate. -/
structure Lengkap where
  Assembly : Type
  fromSlots : Slots → Assembly
  intoSlots : Assembly → Slots
  unresolvedSlots : Assembly → List Nat
  adjudicate : Assembly → List (Nat × Finding) → Except String (Decision Assembly)
  intoSlots_fromSlots : ∀ slots, intoSlots (fromSlots slots) = slots
  fromSlots_intoSlots : ∀ assembly, fromSlots (intoSlots assembly) = assembly
  unresolvedSlots_eq : ∀ assembly, unresolvedSlots assembly = emptySlots (intoSlots assembly)
  adjudicate_pending : ∀ assembly findings next,
    adjudicate assembly findings = .ok (.pending next) →
    intoSlots next = fill (intoSlots assembly) findings ∧ none ∈ intoSlots next
  adjudicate_ready : ∀ assembly findings results,
    adjudicate assembly findings = .ok (.ready results) →
    fill (intoSlots assembly) findings = results.map some

/-- `iter().position(..)` on the dependencies. -/
def position (dependencies : List JobId) (id : JobId) : Option Nat :=
  dependencies.findIdx? fun candidate => candidate = id

def unknownDependency (id : JobId) : Failure :=
  .spi (.broker s!"fan-in checkpoint contains unknown dependency {id}")

/-- The loop of `restore_fan_in_assembly`. -/
def restoreSlots (dependencies : List JobId) : Slots → List (JobId × Blob) → Except Failure Slots
  | slots, [] => .ok slots
  | slots, (id, bytes) :: rest =>
    match position dependencies id with
    | none => .error (unknownDependency id)
    | some index =>
      if (slots[index]?.join).isSome then
        .error (.spi (.broker s!"fan-in checkpoint repeats dependency {id}"))
      else
        restoreSlots dependencies (slots.set index (some bytes)) rest

def restoreFanInAssembly (lengkap : Lengkap) (dependencies : List JobId)
    (collected : List (JobId × Blob)) : Except Failure lengkap.Assembly :=
  (restoreSlots dependencies (dependencies.map fun _ => none) collected).map lengkap.fromSlots

/-- The first loop of `checkpoint_fan_in_assembly`: the outputs captured
before, taken out of their slots, and the slots that are left. -/
def takeCaptured (dependencies : List JobId) : Slots → List (JobId × Blob) →
      Except Failure (List (JobId × Blob) × Slots)
  | slots, [] => .ok ([], slots)
  | slots, (id, _) :: rest =>
    match position dependencies id with
    | none => .error (unknownDependency id)
    | some index =>
      match slots[index]?.join with
      | none => .error (.spi (.broker
          s!"fan-in checkpoint lost previously captured dependency {id}"))
      | some bytes =>
        (takeCaptured dependencies (slots.set index none) rest).map
          fun taken => ((id, bytes) :: taken.1, taken.2)

/-- The outputs left in the slots, in dependency order. -/
def remaining (dependencies : List JobId) (slots : Slots) : List (JobId × Blob) :=
  (dependencies.zip slots).filterMap fun entry =>
    entry.2.map fun bytes => (entry.1, bytes)

def checkpointFanInAssembly (lengkap : Lengkap)
    (dependencies : List JobId) (previous : List (JobId × Blob))
    (assembly : lengkap.Assembly) :
    Except Failure (List (JobId × Blob)) :=
  (takeCaptured dependencies (lengkap.intoSlots assembly) previous).map
    fun taken => taken.1 ++ remaining dependencies taken.2

end Worklane.Facade
