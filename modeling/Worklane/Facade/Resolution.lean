import Worklane.Facade.Json
import Worklane.Facade.Process

/-!
# One resolution for each delivery

Every run of `process`, whatever it is answered, calls the broker once to
resolve its job.  A run is cut at that call: before it there is nothing to see
and nothing is deleted; after it come the deletion of the job's blob and the
report to the observer, each under the condition the source puts on it.
-/

namespace Worklane.Facade

open List
open Lib.Program

/-! ## What a run shows -/

/-- The four calls that resolve a job. -/
inductive Resolution where
  | ack
  | retry (delay : Nat)
  | defer (delay : Nat)
  | fail (reason : String)
  deriving DecidableEq, Repr

namespace Resolution

def step (receipt : ReservationReceipt) (served : Served Unit) : Resolution → Observation
  | .ack => ⟨.op .worker (.call (.ack receipt)), served⟩
  | .retry delay => ⟨.op .worker (.call (.retry receipt delay)), served⟩
  | .defer delay => ⟨.op .worker (.call (.defer receipt delay)), served⟩
  | .fail reason => ⟨.op .worker (.call (.fail receipt reason)), served⟩

/-- What the observer is told, if anything. -/
def outcome : Resolution → Option JobOutcome
  | .ack => some .acked
  | .retry _ => some .retried
  | .defer _ => none
  | .fail _ => some .deadLettered

end Resolution

def resolutionOf : Deed → Option (ReservationReceipt × Resolution)
  | .op .worker (.call (.ack receipt)) => some (receipt, .ack)
  | .op .worker (.call (.retry receipt delay)) =>
    some (receipt, .retry delay)
  | .op .worker (.call (.defer receipt delay)) =>
    some (receipt, .defer delay)
  | .op .worker (.call (.fail receipt reason)) =>
    some (receipt, .fail reason)
  | _ => none

def hookOf : Deed → Option Hook
  | .hook hook => some hook
  | _ => none

/-- A blob the worker deletes. -/
def deletionOf : Deed → Option String
  | .op .worker (.delete key) => some key
  | _ => none

/-- A step of the handler. -/
def handledOf : Observation → Option Did
  | ⟨.op .handler op, answer⟩ => some ⟨op, answer⟩
  | _ => none

def resolutions (steps : List Observation) : List (ReservationReceipt × Resolution) :=
  steps.filterMap fun step => resolutionOf step.1

def hooks (steps : List Observation) : List Hook :=
  steps.filterMap fun step => hookOf step.1

def deletions (steps : List Observation) : List String :=
  steps.filterMap fun step => deletionOf step.1

def handled (steps : List Observation) : List Did :=
  steps.filterMap handledOf

/-- Nothing is resolved, reported or deleted. -/
def isQuiet (deed : Deed) : Bool :=
  (resolutionOf deed).isNone && (hookOf deed).isNone && (deletionOf deed).isNone

def Quiet (steps : List Observation) : Prop :=
  ∀ step ∈ steps, isQuiet step.1 = true

theorem quiet_append {first second : List Observation} :
    Quiet (first ++ second) ↔ Quiet first ∧ Quiet second :=
  forall_mem_append

variable {steps : List Observation}

theorem Quiet.spec (quiet : Quiet steps) :
    resolutions steps = [] ∧ hooks steps = [] ∧ deletions steps = [] := by
  have each : ∀ step ∈ steps, resolutionOf step.1 = none ∧
      hookOf step.1 = none ∧ deletionOf step.1 = none := by
    intro step member
    have held := quiet step member
    simpa [isQuiet, and_assoc] using held
  refine ⟨?_, ?_, ?_⟩
  · exact filterMap_eq_nil_iff.mpr fun step member => (each step member).1
  · exact filterMap_eq_nil_iff.mpr fun step member =>
    (each step member).2.1
  · exact filterMap_eq_nil_iff.mpr fun step member =>
    (each step member).2.2

@[simp]
theorem resolutions_append (first second : List Observation) : resolutions (first ++ second) =
      resolutions first ++ resolutions second :=
  filterMap_append ..

@[simp]
theorem hooks_append (first second : List Observation) :
    hooks (first ++ second) = hooks first ++ hooks second :=
  filterMap_append ..

@[simp]
theorem deletions_append (first second : List Observation) :
    deletions (first ++ second) = deletions first ++ deletions second :=
  filterMap_append ..

@[simp]
theorem handled_append (first second : List Observation) :
    handled (first ++ second) = handled first ++ handled second :=
  filterMap_append ..

/-! ## Steps of a party -/

def stepBy (party : Party) (step : Did) : Observation :=
  ⟨.op party step.1, step.2⟩

theorem returns_performedBy {α : Type} {party : Party} {action : Action α} {value : α}
    (returns : Returns (performedBy party action) steps value) :
    ∃ taken : List Did, steps = taken.map (stepBy party) ∧
      Returns action taken value := by
  induction action generalizing steps with
  | done result =>
    obtain ⟨rfl, rfl⟩ := returns_done.mp returns
    exact ⟨[], rfl, .refl _⟩
  | act op next ih =>
    obtain ⟨answer, later, rfl, tail⟩ := returns_act.mp returns
    obtain ⟨taken, rfl, ends⟩ := ih answer tail
    exact ⟨⟨op, answer⟩ :: taken, rfl, .step ends⟩

theorem handled_byHandler (taken : List Did) : handled (taken.map (stepBy .handler)) = taken := by
  induction taken with
  | nil => rfl
  | cons step rest ih =>
    exact congrArg (List.cons step) ih

theorem handled_byWorker (taken : List Did) : handled (taken.map (stepBy .worker)) = [] := by
  refine filterMap_eq_nil_iff.mpr ?_
  intro step member
  obtain ⟨did, _, rfl⟩ := mem_map.mp member
  rfl

theorem quiet_byHandler (taken : List Did) : Quiet (taken.map (stepBy .handler)) := by
  intro step member
  obtain ⟨did, _, rfl⟩ := mem_map.mp member
  rfl

/-- Own operations that resolve and delete nothing. -/
def harmless (op : Op) : Prop := isQuiet (.op .worker op) = true

theorem quiet_byWorker {taken : List Did} (uses : ∀ step ∈ taken, harmless step.1) :
    Quiet (taken.map (stepBy .worker)) := by
  intro step member
  obtain ⟨did, inside, rfl⟩ := mem_map.mp member
  exact uses did inside

theorem quiet_of_uses {α : Type} {action : Action α} {value : α} (uses : Uses harmless action)
    (returns : Returns (asOwn action) steps value) :
    Quiet steps ∧ handled steps = [] := by
  obtain ⟨taken, rfl, performed⟩ := returns_performedBy returns
  exact ⟨quiet_byWorker (uses.performs performed), handled_byWorker taken⟩

theorem returns_ownCall {request : Call} {result : Except Failure request.Result}
    (returns : Returns (asOwn (call request)) steps result) :
    ∃ served : Served request.Result, steps = [⟨.op .worker (.call request), served⟩] ∧
        result = served.reply.mapError .spi := by
  obtain ⟨taken, rfl, performed⟩ := returns_performedBy returns
  obtain ⟨served, later, rfl, ends⟩ := returns_act.mp performed
  obtain ⟨rfl, rfl⟩ := returns_done.mp ends
  exact ⟨served, rfl, rfl⟩

/-! ## After the call -/

/-- The report of a resolution that took effect. -/
def finished (observer : Bool) (envelope : JobEnvelope)
    (resolution : Resolution) (reply : Except Error Unit) : List Hook :=
  match resolution.outcome, reply with
  | some outcome, .ok _ =>
    if observer then
      [.onJobFinished envelope.lane envelope.kind outcome]
    else
      []
  | _, _ => []

theorem finished_unobserved (envelope : JobEnvelope)
    (resolution : Resolution) (reply : Except Error Unit) :
    finished false envelope resolution reply = [] := by
  unfold finished
  split <;> rfl

/-- What follows the call that resolves a job. -/
structure Closes (observer : Bool) (envelope : JobEnvelope)
    (resolution : Resolution) (reply : Except Error Unit)
    (after : List Observation) (result : Except Failure Unit) : Prop where
  resolved : resolutions after = []
  reported : hooks after = finished observer envelope resolution reply
  discarded : ∀ key ∈ deletions after,
    referenceKey envelope.payload = some key ∧ resolution = .ack ∧ reply = .ok ()
  result : result = settled (reply.mapError .spi)

section Closing

variable {observer : Bool} {envelope : JobEnvelope} {resolution : Resolution}
variable {reply : Except Error Unit} {steps : List Observation}
variable {result : Except Failure Unit}

theorem report_returns {hook : Hook} {value : Unit}
    (returns : Returns (Process.report observer hook) steps value) :
    steps = if observer then [⟨.hook hook, ()⟩] else [] := by
  unfold Process.report at returns
  split at returns
  · next watched =>
    rw [if_pos watched]
    obtain ⟨_, _, rfl, ends⟩ := returns_act.mp returns
    obtain ⟨rfl, _⟩ := returns_done.mp ends
    rfl
  · next unwatched =>
    rw [if_neg unwatched]
    exact (returns_done.mp returns).1

theorem report_shows {hook : Hook} {value : Unit}
    (returns : Returns (Process.report observer hook) steps value) :
    resolutions steps = [] ∧ deletions steps = [] ∧ handled steps = [] ∧
      hooks steps = if observer then [hook] else [] := by
  rw [report_returns returns]
  cases observer <;> exact ⟨rfl, rfl, rfl, rfl⟩

/-- `resolve` reports what took effect, and nothing else. -/
theorem resolve_closes {outcome : JobOutcome} (told : resolution.outcome = some outcome)
    (returns : Returns (Process.resolve observer envelope outcome
      (reply.mapError .spi)) steps result) :
    Closes observer envelope resolution reply steps result := by
  cases reply with
  | ok value =>
    obtain ⟨first, _, second, rfl, reports, ends⟩ := returns_bind.mp returns
    obtain ⟨rfl, rfl⟩ := returns_done.mp ends
    rw [append_nil, report_returns reports]
    refine ⟨?_, ?_, ?_, rfl⟩
    · split <;> rfl
    · simp only [finished, told]
      split <;> rfl
    · split <;> rintro _ ⟨⟩
  | error failure =>
    have silent : steps = [] ∧ result = settled (.error (.spi failure)) := by
      cases failure <;> exact returns_done.mp returns
    obtain ⟨rfl, rfl⟩ := silent
    refine ⟨rfl, ?_, by rintro _ ⟨⟩, rfl⟩
    simp [finished, told, hooks]

theorem Closes.before {lead : List Observation}
    (closes : Closes observer envelope resolution reply steps result)
    (quiet : Quiet lead) :
    Closes observer envelope resolution reply (lead ++ steps) result := by
  obtain ⟨noResolution, noHook, noDeletion⟩ := quiet.spec
  refine ⟨?_, ?_, ?_, closes.result⟩
  · rw [resolutions_append, noResolution, closes.resolved, nil_append]
  · rw [hooks_append, noHook, closes.reported, nil_append]
  · rw [deletions_append, noDeletion, nil_append]
    exact closes.discarded

theorem Closes.andThen {tail : List Observation}
    (closes : Closes observer envelope resolution reply steps result)
    (quiet : Quiet tail) :
    Closes observer envelope resolution reply (steps ++ tail) result := by
  obtain ⟨noResolution, noHook, noDeletion⟩ := quiet.spec
  refine ⟨?_, ?_, ?_, closes.result⟩
  · rw [resolutions_append, noResolution, closes.resolved, nil_append]
  · rw [hooks_append, noHook, closes.reported, append_nil]
  · rw [deletions_append, noDeletion, append_nil]
    exact closes.discarded

end Closing

/-! ## The parts of a run -/

section Parts

variable {worker : Worker} {steps : List Observation}

theorem recordBreaker_uses (worker : Worker) (kind : String)
    (success : Bool) : Uses harmless (worker.recordBreaker kind success) := by
  unfold Worker.recordBreaker
  split
  · exact ⟨rfl, fun _ => trivial⟩
  · trivial

theorem resolvePayload_uses (worker : Worker) (payload : Blob) :
    Uses harmless (worker.resolvePayload payload) := by
  unfold Worker.resolvePayload
  split
  · trivial
  · split
    · refine ⟨rfl, ?_⟩
      rintro (failure | found)
      · trivial
      · cases found <;> trivial
    · trivial

theorem egress_uses (worker : Worker) (id : JobId) (output : Blob) :
    Uses harmless (worker.egress id output) := by
  unfold Worker.egress
  split
  · exact ⟨rfl, fun _ => trivial⟩
  · trivial

theorem deletePayload_returns {payload : Blob} {value : Unit}
    (returns : Returns (asOwn (worker.deletePayload payload)) steps value) :
    resolutions steps = [] ∧ hooks steps = [] ∧
      ∀ key ∈ deletions steps, referenceKey payload = some key := by
  unfold Worker.deletePayload at returns
  split at returns
  · next key reads _ =>
    obtain ⟨answer, later, rfl, ends⟩ := returns_act.mp returns
    obtain ⟨rfl, _⟩ := returns_done.mp ends
    refine ⟨rfl, rfl, ?_⟩
    intro other member
    rw [mem_singleton.mp member]
    exact reads
  · obtain ⟨rfl, _⟩ := returns_done.mp returns
    exact ⟨rfl, rfl, by rintro _ ⟨⟩⟩

end Parts

/-! ## One call -/

/-- The steps are cut at the one call that resolves the job.  `needs` is what
the steps before it show for that resolution. -/
def Settles (observer : Bool) (receipt : ReservationReceipt) (envelope : JobEnvelope)
    (needs : List Observation → Resolution → Prop)
    (steps : List Observation) (result : Except Failure Unit) : Prop :=
  ∃ before resolution served after, steps = before ++ resolution.step receipt served :: after ∧
      Quiet before ∧ needs before resolution ∧
      Closes observer envelope resolution served.reply after result

section Settling

variable {crates : Crates} {worker : Worker} {observer : Bool}
variable {receipt : ReservationReceipt} {envelope : JobEnvelope}
variable {needs : List Observation → Resolution → Prop}
variable {steps : List Observation} {result : Except Failure Unit}

theorem Settles.lead {first : List Observation} (quiet : Quiet first)
    (settles : Settles observer receipt envelope
      (fun before => needs (first ++ before)) steps result) :
    Settles observer receipt envelope needs (first ++ steps) result := by
  obtain ⟨before, resolution, served, after, rfl, early, needed, closes⟩ := settles
  exact ⟨first ++ before, resolution, served, after, by simp,
    quiet_append.mpr ⟨quiet, early⟩, needed, closes⟩

theorem Settles.tail {last : List Observation} (quiet : Quiet last)
    (settles : Settles observer receipt envelope needs steps result) :
    Settles observer receipt envelope needs (steps ++ last) result := by
  obtain ⟨before, resolution, served, after, rfl, early, needed, closes⟩ := settles
  exact ⟨before, resolution, served, after ++ last, by simp, early, needed, closes.andThen quiet⟩

theorem Settles.mono {weaker : List Observation → Resolution → Prop}
    (settles : Settles observer receipt envelope needs steps result)
    (implies : ∀ before resolution, needs before resolution → weaker before resolution) :
    Settles observer receipt envelope weaker steps result := by
  obtain ⟨before, resolution, served, after, split, early, needed, closes⟩ := settles
  exact ⟨before, resolution, served, after, split, early, implies before resolution needed, closes⟩

theorem settles_of_call {resolution : Resolution} {served : Served Unit}
    (needed : needs [] resolution)
    (closes : Closes observer envelope resolution served.reply steps result) :
    Settles observer receipt envelope needs (resolution.step receipt served :: steps) result :=
  ⟨[], resolution, served, steps, rfl, by rintro _ ⟨⟩, needed, closes⟩

theorem fail_settles {reason : String} (needed : needs [] (.fail reason)) (returns : Returns (do
      let failed ← asOwn (call (.fail receipt reason))
      Process.resolve observer envelope .deadLettered failed) steps
      result) :
    Settles observer receipt envelope needs steps result := by
  obtain ⟨first, _, second, rfl, calls, resolves⟩ := returns_bind.mp returns
  obtain ⟨served, rfl, rfl⟩ := returns_ownCall calls
  exact @settles_of_call _ _ _ _ _ _ (.fail reason) served needed (resolve_closes rfl resolves)

/-- What a failing run may do with its job. -/
def FailsOrRetries (envelope : JobEnvelope) : Resolution → Prop
  | .fail _ => True
  | .retry _ => saturatingSucc envelope.attempts < envelope.maxAttempts
  | _ => False

theorem handleFailure_settles {failure : Failure}
    (returns : Returns (Process.handleFailure crates worker observer receipt
      envelope failure) steps result) :
    Settles observer receipt envelope (fun _ resolution => FailsOrRetries envelope resolution) steps
      result := by
  unfold Process.handleFailure at returns
  split at returns
  · next again =>
    obtain ⟨first, _, second, rfl, calls, resolves⟩ := returns_bind.mp returns
    obtain ⟨served, rfl, rfl⟩ := returns_ownCall calls
    exact @settles_of_call _ _ _ _ _ _ (.retry _) served again (resolve_closes rfl resolves)
  · exact fail_settles trivial returns

theorem recordedFailure_settles {failure : Failure} {kind : String} (returns : Returns (do
      asOwn (worker.recordBreaker kind false)
      Process.handleFailure crates worker observer receipt envelope failure)
      steps result) :
    Settles observer receipt envelope (fun _ resolution => FailsOrRetries envelope resolution) steps
      result := by
  obtain ⟨first, _, second, rfl, records, fails⟩ := returns_bind.mp returns
  obtain ⟨quiet, _⟩ := quiet_of_uses (recordBreaker_uses worker kind false) records
  exact (handleFailure_settles fails).lead quiet

theorem acknowledge_settles (needed : needs [] .ack)
    (returns : Returns (Process.acknowledge worker observer receipt envelope) steps result) :
    Settles observer receipt envelope needs steps result := by
  obtain ⟨first, acked, second, rfl, calls, rest⟩ := returns_bind.mp returns
  obtain ⟨served, rfl, rfl⟩ := returns_ownCall calls
  refine @settles_of_call _ _ _ _ _ _ .ack served needed ?_
  cases replied : served.reply with
  | error failure =>
    rw [replied] at rest
    exact resolve_closes rfl rest
  | ok value =>
    rw [replied] at rest
    obtain ⟨records, _, others, rfl, recording, rest⟩ := returns_bind.mp rest
    obtain ⟨deletes, _, reports, rfl, deleting, resolves⟩ := returns_bind.mp rest
    obtain ⟨quiet, _⟩ := quiet_of_uses (recordBreaker_uses worker envelope.kind true) recording
    obtain ⟨noResolution, noHook, own⟩ := deletePayload_returns deleting
    have closes : Closes observer envelope .ack (.ok ()) reports result :=
      resolve_closes rfl resolves
    have discards : Closes observer envelope .ack (.ok ()) (deletes ++ reports) result := by
      refine ⟨?_, ?_, ?_, closes.result⟩
      · rw [resolutions_append, noResolution, closes.resolved, nil_append]
      · rw [hooks_append, noHook, closes.reported, nil_append]
      · intro key member
        rw [deletions_append] at member
        rcases mem_append.mp member with early | late
        · exact ⟨own key early, rfl, rfl⟩
        · exact closes.discarded key late
    exact discards.before quiet

end Settling

/-! ## Running the handler -/

section Running

variable {worker : Worker} {steps : List Observation}

theorem runMaintained_returns {timeout : Option Nat}
    {action : Action Unwound} {outcome : HandlerOutcome}
    (returns : Returns (Process.runMaintained timeout action) steps outcome) :
    Quiet steps ∧ ∀ output, outcome = .completed (.ok output) →
      Returns action (handled steps) (.returned (.ok output)) := by
  induction action generalizing steps with
  | done ended =>
    obtain ⟨cancelled, later, rfl, ends⟩ := returns_act.mp returns
    have quiet : Quiet [(⟨.cancelled, cancelled⟩ : Observation)] := by
      intro step member
      rw [mem_singleton.mp member]
      rfl
    cases cancelled with
    | true =>
      obtain ⟨rfl, rfl⟩ := returns_done.mp ends
      exact ⟨quiet, by rintro _ ⟨⟩⟩
    | false =>
      obtain ⟨rfl, rfl⟩ := returns_done.mp ends
      refine ⟨quiet, fun output completed => ?_⟩
      cases ended with
      | panicked panic => cases completed
      | returned result =>
        cases completed
        exact .refl _
  | act op next ih =>
    have acts : ∀ (answer : op.Answer) (later : List Observation),
        Returns (Process.runMaintained timeout (next answer)) later outcome →
        Quiet (⟨.op .handler op, answer⟩ :: later) ∧ ∀ output, outcome = .completed (.ok output) →
            Returns (.act op next) (handled (⟨.op .handler op, answer⟩ :: later))
              (.returned (.ok output)) := by
      intro answer later tail
      obtain ⟨quiet, ok⟩ := ih answer tail
      refine ⟨forall_mem_cons.mpr ⟨rfl, quiet⟩, ?_⟩
      intro output completed
      exact .step (ok output completed)
    cases timeout with
    | none =>
      obtain ⟨answer, later, rfl, tail⟩ := returns_act.mp returns
      exact acts answer later tail
    | some limit =>
      obtain ⟨passed, later, rfl, tail⟩ := returns_act.mp returns
      cases passed with
      | true =>
        obtain ⟨rfl, rfl⟩ := returns_done.mp tail
        exact ⟨forall_mem_cons.mpr ⟨rfl, by rintro _ ⟨⟩⟩, by rintro _ ⟨⟩⟩
      | false =>
        obtain ⟨answer, more, rfl, inner⟩ := returns_act.mp tail
        obtain ⟨quiet, ok⟩ := acts answer more inner
        exact ⟨forall_mem_cons.mpr ⟨rfl, quiet⟩, ok⟩

theorem runHandler_returns {handler : Handler} {payload : Blob} {outcome : HandlerOutcome}
    (returns : Returns (Process.runHandler worker handler payload) steps outcome) :
    Quiet steps ∧ ∀ output, outcome = .completed (.ok output) →
      Returns (handler payload) (handled steps) (.returned (.ok output)) := by
  unfold Process.runHandler at returns
  split at returns
  · exact runMaintained_returns returns
  · obtain ⟨first, ended, second, rfl, runs, ends⟩ := returns_bind.mp returns
    obtain ⟨rfl, rfl⟩ := returns_done.mp ends
    obtain ⟨taken, rfl, performed⟩ := returns_performedBy runs
    rw [append_nil, handled_byHandler]
    refine ⟨quiet_byHandler taken, fun output completed => ?_⟩
    cases ended with
    | panicked panic => cases completed
    | returned result =>
      cases completed
      exact performed

end Running

/-! ## A whole run -/

section Run

variable {crates : Crates} {worker : Worker} {observer : Bool}
variable {receipt : ReservationReceipt} {envelope : JobEnvelope}
variable {steps : List Observation} {result : Except Failure Unit}

/-- What has happened before a job is acked: its handler returned an output,
and a configured result store has accepted it. -/
def Completed (worker : Worker) (dispatch : Option Handler)
    (envelope : JobEnvelope) (before : List Observation) : Prop :=
  ∃ handler payload output, dispatch = some handler ∧
    Returns (handler payload) (handled before) (.returned (.ok output)) ∧
    (worker.resultStore = true → stepBy .worker ⟨.storeResult envelope.id output, .ok ()⟩ ∈ before)

/-- When each resolution is called for. -/
def Warranted (worker : Worker) (dispatch : Option Handler)
    (envelope : JobEnvelope) (before : List Observation) :
    Resolution → Prop
  | .ack => Completed worker dispatch envelope before
  | .defer delay => worker.circuitBreaker = true ∧
      stepBy .worker ⟨.admitKind envelope.kind, some delay⟩ ∈ before
  | .retry _ => saturatingSucc envelope.attempts < envelope.maxAttempts
  | .fail _ => True

variable {dispatch : Option Handler}

theorem FailsOrRetries.warranted {before : List Observation} {resolution : Resolution}
    (fails : FailsOrRetries envelope resolution) :
    Warranted worker dispatch envelope before resolution := by
  cases resolution with
  | ack => exact fails.elim
  | defer delay => exact fails.elim
  | retry delay => exact fails
  | fail reason => trivial

theorem complete_settles {output : Blob}
    (returns : Returns (Process.complete crates worker observer receipt
      envelope output) steps result) :
    Settles observer receipt envelope (fun before resolution => FailsOrRetries envelope resolution ∨
        resolution = .ack ∧ handled before = [] ∧ (worker.resultStore = true →
            stepBy .worker ⟨.storeResult envelope.id output, .ok ()⟩ ∈ before))
      steps result := by
  obtain ⟨first, stored, second, rfl, stores, rest⟩ := returns_bind.mp returns
  obtain ⟨quiet, unhandled⟩ := quiet_of_uses (egress_uses worker envelope.id output) stores
  cases stored with
  | error failure =>
    refine Settles.lead quiet ((recordedFailure_settles rest).mono ?_)
    exact fun _ _ fails => Or.inl fails
  | ok value =>
    refine Settles.lead quiet (acknowledge_settles ?_ rest)
    refine Or.inr ⟨rfl, by simpa using unhandled, fun configured => ?_⟩
    rw [Worker.egress, if_pos configured] at stores
    obtain ⟨taken, rfl, performed⟩ := returns_performedBy stores
    obtain rfl := returns_perform.mp performed
    simp

theorem conclude_settles {outcome : HandlerOutcome}
    (returns : Returns (Process.conclude crates worker observer receipt
      envelope outcome) steps result) :
    Settles observer receipt envelope (fun before resolution => FailsOrRetries envelope resolution ∨
        ∃ output, outcome = .completed (.ok output) ∧ resolution = .ack ∧
          handled before = [] ∧ (worker.resultStore = true →
            stepBy .worker ⟨.storeResult envelope.id output, .ok ()⟩ ∈ before))
      steps result := by
  unfold Process.conclude at returns
  split at returns
  · next output =>
    refine (complete_settles returns).mono ?_
    rintro before resolution (fails | completed)
    · exact Or.inl fails
    · exact Or.inr ⟨output, rfl, completed⟩
  · exact fail_settles (Or.inl trivial) returns
  · exact (recordedFailure_settles returns).mono fun _ _ fails => Or.inl fails
  · obtain ⟨first, _, second, rfl, records, rest⟩ := returns_bind.mp returns
    obtain ⟨fails, ended, others, rfl, failing, rest⟩ := returns_bind.mp rest
    obtain ⟨asks, lags, last, rfl, asking, rest⟩ := returns_bind.mp rest
    obtain ⟨recorded, _⟩ := quiet_of_uses (recordBreaker_uses worker envelope.kind false) records
    obtain ⟨asked, _⟩ := quiet_of_uses
      (show Uses harmless (perform Op.lags) from ⟨rfl, fun _ => trivial⟩)
      asking
    obtain ⟨rfl, late⟩ : result = ended ∧ Quiet last := by
      cases lags with
      | false =>
        obtain ⟨rfl, rfl⟩ := returns_done.mp rest
        exact ⟨rfl, by rintro _ ⟨⟩⟩
      | true =>
        obtain ⟨straggles, _, done, rfl, straggling, ends⟩ := returns_bind.mp rest
        obtain ⟨rfl, rfl⟩ := returns_done.mp ends
        obtain ⟨taken, rfl, _⟩ := returns_performedBy straggling
        rw [append_nil]
        exact ⟨rfl, quiet_byHandler taken⟩
    have settles := (handleFailure_settles failing).tail (quiet_append.mpr ⟨asked, late⟩)
    exact Settles.lead recorded (settles.mono fun _ _ held => Or.inl held)

theorem runAdmitted_settles {handler : Handler}
    (returns : Returns (Process.runAdmitted crates worker observer handler
      receipt envelope) steps result) :
    Settles observer receipt envelope (fun before resolution => FailsOrRetries envelope resolution ∨
        resolution = .ack ∧ Completed worker (some handler) envelope before)
      steps result := by
  obtain ⟨first, found, second, rfl, resolves, rest⟩ := returns_bind.mp returns
  obtain ⟨resolving, unhandled⟩ :=
    quiet_of_uses (resolvePayload_uses worker envelope.payload) resolves
  cases found with
  | error failure =>
    refine Settles.lead resolving ((handleFailure_settles rest).mono ?_)
    exact fun _ _ fails => Or.inl fails
  | ok payload =>
    obtain ⟨running, outcome, last, rfl, runs, concludes⟩ := returns_bind.mp rest
    obtain ⟨quiet, returned⟩ := runHandler_returns runs
    refine Settles.lead resolving (Settles.lead quiet ((conclude_settles concludes).mono ?_))
    rintro before resolution (fails | ⟨output, completed, rfl, none, stored⟩)
    · exact Or.inl fails
    · refine Or.inr ⟨rfl, handler, payload, output, rfl, ?_, ?_⟩
      · simpa [unhandled, none] using returned output completed
      · intro configured
        exact mem_append_right _ (mem_append_right _ (stored configured))

theorem Completed.lead {first before : List Observation} (unhandled : handled first = [])
    (completed : Completed worker dispatch envelope before) :
    Completed worker dispatch envelope (first ++ before) := by
  obtain ⟨handler, payload, output, given, returned, stored⟩ := completed
  refine ⟨handler, payload, output, given, ?_, fun configured =>
    mem_append_right _ (stored configured)⟩
  rwa [handled_append, unhandled, nil_append]

theorem admitted_settles {handler : Handler} {first : List Observation}
    (quiet : Quiet first) (unhandled : handled first = [])
    (returns : Returns (Process.runAdmitted crates worker observer handler
      receipt envelope) steps result) :
    Settles observer receipt envelope
      (fun before => Warranted worker (some handler) envelope before)
      (first ++ steps) result := by
  refine Settles.lead quiet ((runAdmitted_settles returns).mono ?_)
  rintro before resolution (fails | ⟨rfl, completed⟩)
  · exact fails.warranted
  · exact completed.lead unhandled

theorem deliver_settles (returns : Returns (Process.deliver crates worker observer dispatch
      receipt envelope) steps result) :
    Settles observer receipt envelope
      (fun before => Warranted worker dispatch envelope before) steps
      result := by
  unfold Process.deliver at returns
  split at returns
  · exact fail_settles trivial returns
  · next handler =>
    split at returns
    · next guarded =>
      obtain ⟨first, rejected, second, rfl, asks, rest⟩ := returns_bind.mp returns
      obtain ⟨quiet, unhandled⟩ := quiet_of_uses
        (show Uses harmless (perform (Op.admitKind envelope.kind)) from
          ⟨rfl, fun _ => trivial⟩) asks
      cases rejected with
      | none => exact admitted_settles quiet unhandled rest
      | some delay =>
        obtain ⟨taken, rfl, performed⟩ := returns_performedBy asks
        obtain rfl := returns_perform.mp performed
        obtain ⟨calls, deferred, last, rfl, calling, ends⟩ := returns_bind.mp rest
        obtain ⟨served, rfl, rfl⟩ := returns_ownCall calling
        obtain ⟨rfl, rfl⟩ := returns_done.mp ends
        refine Settles.lead quiet (@settles_of_call _ _ _ _ _ _ (.defer delay) served ?_ ?_)
        · exact ⟨guarded, by simp⟩
        · exact ⟨rfl, rfl, by rintro _ ⟨⟩, rfl⟩
    · exact @admitted_settles _ _ _ _ _ _ _ _ [] (by rintro _ ⟨⟩) rfl returns

/-- A run of `process`, cut at the call that resolves its job. -/
structure ResolvedOnce (worker : Worker) (observer : Bool)
    (dispatch : Option Handler) (reservation : Reservation)
    (steps : List Observation) (result : Except Failure Unit)
    (before : List Observation) (resolution : Resolution)
    (served : Served Unit) (after : List Observation) : Prop where
  split : steps = before ++ resolution.step reservation.receipt served :: after
  once : resolutions steps = [(reservation.receipt, resolution)]
  acked : resolution = .ack → Completed worker dispatch reservation.envelope before
  deferred : ∀ delay, resolution = .defer delay → worker.circuitBreaker = true ∧
      stepBy .worker ⟨.admitKind reservation.envelope.kind, some delay⟩ ∈ before
  retried : ∀ delay, resolution = .retry delay →
    reservation.envelope.attempts + 1 < reservation.envelope.maxAttempts
  kept : deletions before = []
  discarded : ∀ key ∈ deletions after, referenceKey reservation.envelope.payload = some key ∧
      resolution = .ack ∧ served.reply = .ok ()
  observed : hooks steps = if observer then
      .onJobStarted reservation.envelope.lane reservation.envelope.kind ::
        finished true reservation.envelope resolution served.reply ++
        [.onJobStopped reservation.envelope.lane reservation.envelope.kind]
    else
      []
  result : result = settled (served.reply.mapError .spi)

theorem attempts_lt_of_saturating {attempts most : Nat}
    (bounded : most ≤ u32Max) (again : saturatingSucc attempts < most) :
    attempts + 1 < most := by
  unfold saturatingSucc at again
  omega

theorem resolutions_cons_step (receipt : ReservationReceipt)
    (served : Served Unit) (resolution : Resolution)
    (after : List Observation) :
    resolutions (resolution.step receipt served :: after) =
        (receipt, resolution) :: resolutions after ∧
      hooks (resolution.step receipt served :: after) = hooks after := by
  cases resolution <;> exact ⟨rfl, rfl⟩

/-- Whatever it is answered, a run of `process` resolves its job once. -/
theorem process_resolves_once (crates : Crates) (worker : Worker)
    (observer : Bool) (dispatch : Option Handler) (reservation : Reservation)
    (steps : List Observation) (result : Except Failure Unit)
    (u32 : reservation.envelope.maxAttempts ≤ u32Max)
    (returns : Returns (Process.process crates worker observer dispatch reservation) steps result) :
    ∃ before resolution served after,
      ResolvedOnce worker observer dispatch reservation steps result before
        resolution served after := by
  obtain ⟨start, _, others, rfl, starts, rest⟩ := returns_bind.mp returns
  obtain ⟨middle, ended, last, rfl, delivers, rest⟩ := returns_bind.mp rest
  obtain ⟨stop, _, done, rfl, stops, ends⟩ := returns_bind.mp rest
  obtain ⟨rfl, rfl⟩ := returns_done.mp ends
  obtain ⟨before, resolution, served, after, rfl, quiet, needed, closes⟩ := deliver_settles delivers
  obtain ⟨noResolution, noHook, noDeletion⟩ := quiet.spec
  obtain ⟨startResolves, startDeletes, startHandles, startHooks⟩ := report_shows starts
  obtain ⟨stopResolves, stopDeletes, _, stopHooks⟩ := report_shows stops
  obtain ⟨resolves, unhooked⟩ := resolutions_cons_step reservation.receipt served resolution after
  refine ⟨start ++ before, resolution, served, after ++ stop, ?_⟩
  constructor
  case split => simp
  case once =>
    simp only [resolutions_append, startResolves, noResolution,
      stopResolves, resolves, closes.resolved, append_nil,
      nil_append]
  case acked =>
    rintro rfl
    exact Completed.lead startHandles needed
  case deferred =>
    rintro delay rfl
    exact ⟨needed.1, mem_append_right _ needed.2⟩
  case retried =>
    rintro delay rfl
    exact attempts_lt_of_saturating u32 needed
  case kept => simp [startDeletes, noDeletion]
  case discarded =>
    rw [deletions_append, stopDeletes, append_nil]
    exact closes.discarded
  case observed =>
    simp only [hooks_append, startHooks, noHook, unhooked,
      closes.reported, stopHooks, append_nil, nil_append]
    cases observer with
    | false => simp [finished_unobserved]
    | true => simp
  case result => exact closes.result

end Run

section Cases

/-- A worker with every store and a breaker. -/
def fullWorker : Worker where
  lane := ⟨"a"⟩
  resultStore := true
  payloadStore := true
  circuitBreaker := true
  handlerTimeout := none
  leaseKeepalive := false
  handlers := []
  watcher := none
  retryDelay := fun _ _ => 0

def reserved : Reservation where
  receipt := ⟨⟨7⟩⟩
  envelope := ⟨⟨⟨1⟩⟩, ⟨"a"⟩, "kind", makeReference "blob", 0, 3, 0, none⟩
  lease := 30

/-- The payload is its own output. -/
def echo : Handler := fun payload => return .returned (.ok payload)

def ackedSteps : List Observation :=
  [⟨.hook (.onJobStarted ⟨"a"⟩ "kind"), ()⟩, ⟨.op .worker (.admitKind "kind"), none⟩,
    ⟨.op .worker (.get "blob"), .ok (some [49])⟩,
    ⟨.op .worker (.storeResult ⟨⟨1⟩⟩ [49]), .ok ()⟩,
    ⟨.op .worker (.call (.ack ⟨⟨7⟩⟩)), ⟨0, ⟨⟨0⟩⟩, .ok ()⟩⟩,
    ⟨.op .worker (.record "kind" true), ()⟩,
    ⟨.op .worker (.delete "blob"), .ok ()⟩,
    ⟨.hook (.onJobFinished ⟨"a"⟩ "kind" .acked), ()⟩,
    ⟨.hook (.onJobStopped ⟨"a"⟩ "kind"), ()⟩]

theorem ackedSteps_resolved_once : reserved.envelope.maxAttempts ≤ u32Max ∧
      Returns (Process.process plainCrates fullWorker true (some echo)
        reserved) ackedSteps (.ok ()) ∧
      ∃ before resolution served after,
        ResolvedOnce fullWorker true (some echo) reserved ackedSteps (.ok ())
          before resolution served after := by
  have u32 : reserved.envelope.maxAttempts ≤ u32Max := by decide
  have returns : Returns (Process.process plainCrates fullWorker true
      (some echo) reserved) ackedSteps (.ok ()) :=
    .step (.step (.step (.step (.step (.step (.step (.step (.step (.refl _)))))))))
  exact ⟨u32, returns, process_resolves_once plainCrates fullWorker true
    (some echo) reserved ackedSteps (.ok ()) u32 returns⟩

end Cases

end Worklane.Facade
