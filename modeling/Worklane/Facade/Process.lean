import Worklane.Facade.Worker

/-!
# `ProcessCtx::process`

The run of one reservation in full: with the hooks of the observer, and with a
handler that is any program at all and may panic.  An operation of a run is
the worker's own or the handler's, so that what a handler does for itself is
not mistaken for what is done with its job.

The hooks return.  For handlers that do not panic, forgetting them gives back
the run of `Worker` (`erase_process`).
-/

namespace Worklane.Facade

open Lib.Program

/-! ## Operations -/

inductive JobOutcome where
  | acked
  | retried
  | deadLettered
  deriving DecidableEq, Repr

/-- The calls of a `JobObserver`.  The duration of an event is left out. -/
inductive Hook where
  | onJobStarted (lane : Lane) (kind : String)
  | onJobFinished (lane : Lane) (kind : String) (outcome : JobOutcome)
  | onJobStopped (lane : Lane) (kind : String)
  deriving DecidableEq, Repr

/-- Whose operation it is. -/
inductive Party where
  | worker
  | handler
  deriving DecidableEq, Repr

inductive Deed where
  | op (party : Party) (op : Op)
  | hook (hook : Hook)
  /-- Whether the runtime cancelled the handler's task. -/
  | cancelled

@[reducible]
def Deed.Answer : Deed → Type
  | .op _ operation => operation.Answer
  | .hook _ => Unit
  | .cancelled => Bool

abbrev Observed (α : Type) : Type := Lib.Program Deed Deed.Answer α

/-- A step of an observed run. -/
abbrev Observation : Type := Lib.Program.Step Deed Deed.Answer

def performedBy (party : Party) {α : Type} (action : Action α) :
    Observed α :=
  interpret (fun op => perform (Deed.op party op)) action

abbrev asOwn {α : Type} (action : Action α) : Observed α :=
  performedBy .worker action

abbrev asHandler {α : Type} (action : Action α) : Observed α :=
  performedBy .handler action

/-! ## Handlers -/

/-- The payload of a panic: text, or something else. -/
inductive Panic where
  | text (detail : String)
  | other
  deriving DecidableEq, Repr

inductive Unwound where
  | returned (result : Except Failure Blob)
  | panicked (panic : Panic)

/-- What a registered handler, with the middleware around it, does with a
payload. -/
abbrev Handler : Type := Blob → Action Unwound

def panicMessage : Panic → String
  | .text detail => s!"handler panicked: {detail}"
  | .other => "handler panicked: handler panicked"

def catchUnwind : Unwound → Except Failure Blob
  | .returned result => result
  | .panicked panic => .error (.handler (panicMessage panic))

namespace Process

/-- `run_maintained`; the heartbeat is a program of its own. -/
def runMaintained (timeout : Option Nat) : Action Unwound → Observed HandlerOutcome
  | .done ended => .act Deed.cancelled fun cancelled : Bool =>
    if cancelled then
      return .completed (.error (.handler "handler task ended without a result"))
    else
      return .completed (catchUnwind ended)
  | .act op next =>
    match timeout with
    | none => .act (Deed.op .handler op) fun answer =>
      runMaintained none (next answer)
    | some limit => .act (Deed.op .worker .deadline) fun passed : Bool =>
      if passed then
        return .timedOut limit (.act op fun _ => return)
      else
        .act (Deed.op .handler op) fun answer =>
          runMaintained (some limit) (next answer)

variable (crates : Crates) (worker : Worker) (observer : Bool)

def runHandler (handler : Handler) (payload : Blob) :
    Observed HandlerOutcome :=
  if worker.handlerTimeout.isSome ∨ worker.leaseKeepalive then
    runMaintained worker.handlerTimeout (handler payload)
  else do
    let ended ← asHandler (handler payload)
    return .completed (catchUnwind ended)

def report (hook : Hook) : Observed Unit :=
  if observer then
    perform (Deed.hook hook)
  else
    return

/-- `resolve`: a stale resolution is a lost lease, not an error. -/
def resolve (envelope : JobEnvelope) (outcome : JobOutcome) :
    Except Failure Unit → Observed (Except Failure Unit)
  | .ok _ => do
      report observer (.onJobFinished envelope.lane envelope.kind outcome)
      return .ok ()
  | .error (.spi (.staleReservation _)) => return .ok ()
  | .error failure => return .error failure

def handleFailure (receipt : ReservationReceipt) (envelope : JobEnvelope)
    (failure : Failure) : Observed (Except Failure Unit) :=
  if saturatingSucc envelope.attempts < envelope.maxAttempts then do
    let retried ← asOwn (call (.retry receipt (worker.retryDelay envelope.attempts envelope.id)))
    resolve observer envelope .retried retried
  else do
    let failed ← asOwn (call (.fail receipt (crates.redact failure.text)))
    resolve observer envelope .deadLettered failed

def acknowledge (receipt : ReservationReceipt) (envelope : JobEnvelope) :
    Observed (Except Failure Unit) := do
  let acked : Except Failure Unit ← asOwn (call (.ack receipt))
  match acked with
  | .ok _ =>
    asOwn (worker.recordBreaker envelope.kind true)
    asOwn (worker.deletePayload envelope.payload)
    resolve observer envelope .acked acked
  | .error _ => resolve observer envelope .acked acked

def complete (receipt : ReservationReceipt) (envelope : JobEnvelope)
    (output : Blob) : Observed (Except Failure Unit) := do
  match ← asOwn (worker.egress envelope.id output) with
  | .error failure =>
    asOwn (worker.recordBreaker envelope.kind false)
    handleFailure crates worker observer receipt envelope failure
  | .ok _ => acknowledge worker observer receipt envelope

def conclude (receipt : ReservationReceipt) (envelope : JobEnvelope) :
    HandlerOutcome → Observed (Except Failure Unit)
  | .completed (.ok output) =>
    complete crates worker observer receipt envelope output
  | .completed (.error (.spi (.serialization text))) => do
      let failed ← asOwn (call (.fail receipt (crates.redact s!"serialization error: {text}")))
      resolve observer envelope .deadLettered failed
  | .completed (.error failure) => do
      asOwn (worker.recordBreaker envelope.kind false)
      handleFailure crates worker observer receipt envelope failure
  | .timedOut limit straggler => do
      asOwn (worker.recordBreaker envelope.kind false)
      let ended ← handleFailure crates worker observer receipt envelope
        (.handler s!"handler timed out after {crates.durationText limit}")
      let lags : Bool ← asOwn (perform Op.lags)
      if lags then asHandler straggler
      return ended

def runAdmitted (handler : Handler) (receipt : ReservationReceipt)
    (envelope : JobEnvelope) : Observed (Except Failure Unit) := do
  match ← asOwn (worker.resolvePayload envelope.payload) with
  | .error failure =>
    handleFailure crates worker observer receipt envelope failure
  | .ok payload =>
    let outcome ← runHandler worker handler payload
    conclude crates worker observer receipt envelope outcome

/-- The body of `process`, between the creation of the `InFlightGuard` and
its drop. -/
def deliver (dispatch : Option Handler) (receipt : ReservationReceipt)
    (envelope : JobEnvelope) : Observed (Except Failure Unit) :=
  match dispatch with
  | none => do
      let failed ← asOwn (call (.fail receipt s!"unknown job kind: {envelope.kind}"))
      resolve observer envelope .deadLettered failed
  | some handler =>
    if worker.circuitBreaker then do
      let rejected : Option Nat ← asOwn (perform (Op.admitKind envelope.kind))
      match rejected with
      | some delay => return settled (← asOwn (call (.defer receipt delay)))
      | none => runAdmitted crates worker observer handler receipt envelope
    else
      runAdmitted crates worker observer handler receipt envelope

/-- `ProcessCtx::process`. -/
def process (dispatch : Option Handler) (reservation : Reservation) :
    Observed (Except Failure Unit) := do
  let receipt := reservation.receipt
  let envelope := reservation.envelope
  report observer (.onJobStarted envelope.lane envelope.kind)
  let ended ← deliver crates worker observer dispatch receipt envelope
  report observer (.onJobStopped envelope.lane envelope.kind)
  return ended

/-! ## The run without its hooks -/

/-- Nobody observes the run, and the runtime cancels nothing. -/
def forget : (deed : Deed) → Action deed.Answer
  | .op _ op => perform op
  | .hook _ => return
  | .cancelled => return false

def erase {α : Type} (run : Observed α) : Action α := interpret forget run

@[simp]
theorem erase_performedBy {α : Type} (party : Party) (action : Action α) :
    erase (performedBy party action) = action := by
  unfold erase performedBy
  rw [interpret_interpret]
  simp only [interpret_perform, forget]
  exact interpret_self action

@[simp]
theorem erase_bind {α β : Type} (run : Observed α) (rest : α → Observed β) :
    erase (run >>= rest) = erase run >>= fun value => erase (rest value) :=
  interpret_bind run rest

@[simp]
theorem erase_done {α : Type} (value : α) : erase (.done value : Observed α) = .done value := rfl

@[simp]
theorem erase_act {α : Type} (party : Party) (op : Op) (next : op.Answer → Observed α) :
    erase (.act (Deed.op party op) next) = .act op fun answer => erase (next answer) := rfl

@[simp]
theorem erase_report (hook : Hook) : erase (report observer hook) = return := by
  unfold report
  split <;> rfl

@[simp]
theorem erase_resolve (envelope : JobEnvelope) (outcome : JobOutcome)
    (result : Except Failure Unit) :
    erase (resolve observer envelope outcome result) =
      return settled result := by
  unfold resolve
  split
  · simp [settled]
  · rfl
  · next failure other =>
    unfold settled
    split
    · next impossible => cases impossible
    · next stale =>
      cases stale
      exact absurd rfl (other _)
    · next same =>
      cases same
      rfl

/-- A handler that does not panic. -/
def calm (handler : Blob → Action (Except Failure Blob)) : Handler :=
  fun payload => do return .returned (← handler payload)

theorem erase_runMaintained (timeout : Option Nat) (action : Action (Except Failure Blob)) :
    erase (runMaintained timeout (do return .returned (← action))) =
      Facade.runMaintained timeout action := by
  induction action with
  | done result => rfl
  | act op next ih =>
    cases timeout with
    | none =>
      simp only [act_bind, runMaintained, Facade.runMaintained, erase_act, ih]
    | some limit =>
      simp only [act_bind, runMaintained, Facade.runMaintained, erase_act]
      congr 1
      funext passed
      cases passed with
      | true => rfl
      | false => exact congrArg (act op) (funext ih)

theorem runMaintained_none (action : Action (Except Failure Blob)) :
    Facade.runMaintained none action = action >>= fun result => return .completed result := by
  induction action with
  | done result => rfl
  | act op next ih =>
    simp only [act_bind, Facade.runMaintained, ih]

theorem erase_runHandler (handler : Blob → Action (Except Failure Blob)) (payload : Blob) :
    erase (runHandler worker (calm handler) payload) = worker.runGuarded handler payload := by
  unfold runHandler Worker.runGuarded calm
  split
  · exact erase_runMaintained _ _
  · next bare =>
    have unbounded : worker.handlerTimeout = none := by
      simpa using fun given => bare (Or.inl given)
    rw [unbounded, runMaintained_none]
    simp [catchUnwind]

theorem erase_handleFailure (receipt : ReservationReceipt)
    (envelope : JobEnvelope) (failure : Failure) :
    erase (handleFailure crates worker observer receipt envelope failure) =
      worker.handleFailure crates receipt envelope failure := by
  unfold handleFailure Worker.handleFailure
  split <;> simp

theorem erase_conclude (receipt : ReservationReceipt)
    (envelope : JobEnvelope) (outcome : HandlerOutcome) :
    erase (conclude crates worker observer receipt envelope outcome) =
      worker.conclude crates receipt envelope outcome := by
  unfold conclude Worker.conclude
  split
  · unfold complete Worker.complete
    rw [erase_bind, erase_performedBy]
    congr 1
    funext stored
    cases stored with
    | error failure => simp [erase_handleFailure]
    | ok _ =>
      unfold acknowledge Worker.acknowledge
      rw [erase_bind, erase_performedBy]
      congr 1
      funext acked
      cases acked <;> simp
  · simp
  · simp [erase_handleFailure]
  · rw [erase_bind, erase_performedBy]
    congr 1
    funext _
    rw [erase_bind, erase_handleFailure]
    congr 1
    funext ended
    rw [erase_bind, erase_performedBy]
    congr 1
    funext lags
    cases lags <;> simp

/-- For handlers that do not panic, forgetting the hooks leaves the run of
`Worker`. -/
theorem erase_process (dispatch : Option (Blob → Action (Except Failure Blob)))
    (reservation : Reservation) :
    erase (process crates worker observer (dispatch.map calm) reservation) =
      worker.deliver crates dispatch reservation := by
  have admitted : ∀ handler, erase (runAdmitted crates worker observer (calm handler)
      reservation.receipt reservation.envelope) =
      worker.runAdmitted crates handler reservation.receipt reservation.envelope := by
    intro handler
    unfold runAdmitted Worker.runAdmitted
    rw [erase_bind, erase_performedBy]
    congr 1
    funext resolved
    cases resolved with
    | error failure => exact erase_handleFailure ..
    | ok payload =>
      simp only [erase_bind, erase_runHandler, erase_conclude]
  unfold process Worker.deliver
  simp only [erase_bind, erase_report, pure_eq, done_bind, erase_done, bind_done]
  unfold deliver
  cases dispatch with
  | none => simp
  | some handler =>
    simp only [Option.map_some]
    split
    · rw [erase_bind, erase_performedBy]
      congr 1
      funext rejected
      cases rejected with
      | some delay => simp
      | none => exact admitted handler
    · exact admitted handler

end Process

end Worklane.Facade
