import Worklane.Facade.Watcher

/-!
# `Worker`

One reservation is one run of `process`.  The observer and the tracing calls
are left out, and so is middleware, which is the user's code around the
handler.  The heartbeat runs on a task of its own and is a program of its own
here.

A handler under a timeout is aborted, which takes effect at its next yield
point: the operation it is about to perform may still happen after the job
has been resolved (`timedOut`).
-/

namespace Worklane.Facade

open Lib.Program (perform)

/-- A worker's settings.  `handlers` are the kinds with a registered handler
of the user, `watcher` the client of a registered `FanInWatcherJob`, and
`retryDelay` is `delay_for_seeded` of its retry policy. -/
structure Worker where
  lane : Lane
  resultStore : Bool
  payloadStore : Bool
  circuitBreaker : Bool
  handlerTimeout : Option Nat
  leaseKeepalive : Bool
  handlers : List String
  watcher : Option Client
  retryDelay : Nat → JobId → Nat

inductive Dispatch where
  | watcher (client : Client)
  | user

inductive HandlerOutcome where
  | completed (result : Except Failure Blob)
  | timedOut (timeout : Nat) (straggler : Action Unit)

/-- A handler under a deadline. -/
def runMaintained (timeout : Option Nat) : Action (Except Failure Blob) → Action HandlerOutcome
  | .done result => return .completed result
  | .act op next =>
    match timeout with
    | none => .act op fun answer => runMaintained none (next answer)
    | some limit => .act Op.deadline fun passed : Bool =>
      if passed then
        return .timedOut limit (.act op fun _ => return)
      else
        .act op fun answer => runMaintained (some limit) (next answer)

/-- The heartbeat of one reservation, for some number of beats. -/
def heartbeat (receipt : ReservationReceipt) : Nat → Action Unit
  | 0 => return
  | beats + 1 => do
      match ← call (.extend receipt) with
      | .ok _ => heartbeat receipt beats
      | .error _ => return

/-- A stale resolution is a lost lease, not an error. -/
def settled : Except Failure Unit → Except Failure Unit
  | .ok _ => .ok ()
  | .error (.spi (.staleReservation _)) => .ok ()
  | .error failure => .error failure

namespace Worker

variable (crates : Crates) (worker : Worker)

def dispatch (kind : String) : Option Dispatch :=
  if kind = watcherKind then
    worker.watcher.map Dispatch.watcher
  else if kind ∈ worker.handlers then
    some .user
  else
    none

def recordBreaker (kind : String) (success : Bool) : Action Unit :=
  if worker.circuitBreaker then
    perform (Op.record kind success)
  else
    return

def resolvePayload (payload : Blob) : Action (Except Failure Blob) :=
  match referenceKey payload with
  | none => return .ok payload
  | some key =>
    if worker.payloadStore then
      andThen (perform (Op.get key)) fun found : Option Blob =>
        match found with
        | some bytes => return .ok bytes
        | none => return .error (.handler s!"claim-check payload {key} is missing from the store")
    else
      return .error (.handler
        "job payload is a claim-check reference but the worker has no payload store configured (call Worker::with_payload_store)")

/-- `delete_payload`: a failing delete is only logged. -/
def deletePayload (payload : Blob) : Action Unit :=
  match referenceKey payload, worker.payloadStore with
  | some key, true => do
      let _ : Except Failure Unit ← perform (Op.delete key)
  | _, _ => return

def handleFailure (receipt : ReservationReceipt) (envelope : JobEnvelope)
    (failure : Failure) : Action (Except Failure Unit) := do
  if saturatingSucc envelope.attempts < envelope.maxAttempts then
    return settled (← call (.retry receipt (worker.retryDelay envelope.attempts envelope.id)))
  else
    return settled (← call (.fail receipt (crates.redact failure.text)))

/-- The handler a job is dispatched to. -/
def runHandler (target : Dispatch) (envelope : JobEnvelope)
    (payload : Blob) : Action (Except Failure Blob) :=
  match target with
  | .user => perform (Op.handle envelope payload)
  | .watcher client =>
    Watcher.dispatch crates client envelope.lane payload

/-- A handler, with a deadline when one is configured. -/
def runGuarded (handler : Blob → Action (Except Failure Blob))
    (payload : Blob) : Action HandlerOutcome :=
  runMaintained worker.handlerTimeout (handler payload)

/-- The result is stored. -/
def egress (id : JobId) (output : Blob) : Action (Except Failure Unit) :=
  if worker.resultStore then
    perform (Op.storeResult id output)
  else
    return .ok ()

/-- The job is acked, and its blob deleted once that has succeeded. -/
def acknowledge (receipt : ReservationReceipt) (envelope : JobEnvelope) :
    Action (Except Failure Unit) := do
  let acked : Except Failure Unit ← call (.ack receipt)
  match acked with
  | .ok _ =>
    worker.recordBreaker envelope.kind true
    worker.deletePayload envelope.payload
    return settled acked
  | .error _ => return settled acked

/-- A handler that returned `Ok`. -/
def complete (receipt : ReservationReceipt) (envelope : JobEnvelope)
    (output : Blob) : Action (Except Failure Unit) := do
  match ← worker.egress envelope.id output with
  | .error failure =>
    worker.recordBreaker envelope.kind false
    worker.handleFailure crates receipt envelope failure
  | .ok _ => worker.acknowledge receipt envelope

/-- The outcome of the handler is resolved with the broker. -/
def conclude (receipt : ReservationReceipt) (envelope : JobEnvelope) :
    HandlerOutcome → Action (Except Failure Unit)
  | .completed (.ok output) => worker.complete crates receipt envelope output
  | .completed (.error (.spi (.serialization text))) => do
      return settled (← call (.fail receipt (crates.redact s!"serialization error: {text}")))
  | .completed (.error failure) => do
      worker.recordBreaker envelope.kind false
      worker.handleFailure crates receipt envelope failure
  | .timedOut limit straggler => do
      worker.recordBreaker envelope.kind false
      let ended ← worker.handleFailure crates receipt envelope
        (.handler s!"handler timed out after {crates.durationText limit}")
      let lags : Bool ← perform Op.lags
      if lags then straggler
      return ended

/-- An admitted job. -/
def runAdmitted (handler : Blob → Action (Except Failure Blob)) (receipt : ReservationReceipt)
    (envelope : JobEnvelope) : Action (Except Failure Unit) := do
  match ← worker.resolvePayload envelope.payload with
  | .error failure => worker.handleFailure crates receipt envelope failure
  | .ok payload =>
    let outcome ← worker.runGuarded handler payload
    worker.conclude crates receipt envelope outcome

/-- `ProcessCtx::process`, for the handler the kind is registered with. -/
def deliver (handler : Option (Blob → Action (Except Failure Blob))) (reservation : Reservation) :
    Action (Except Failure Unit) :=
  let receipt := reservation.receipt
  let envelope := reservation.envelope
  match handler with
  | none => do
      return settled (← call (.fail receipt s!"unknown job kind: {envelope.kind}"))
  | some handler =>
    if worker.circuitBreaker then do
      let rejected : Option Nat ← perform (Op.admitKind envelope.kind)
      match rejected with
      | some delay => return settled (← call (.defer receipt delay))
      | none => worker.runAdmitted crates handler receipt envelope
    else
      worker.runAdmitted crates handler receipt envelope

def process (reservation : Reservation) : Action (Except Failure Unit) :=
  worker.deliver crates ((worker.dispatch reservation.envelope.kind).map fun target =>
    runHandler crates target reservation.envelope) reservation

/-- `process_next`: whether a job was processed. -/
def processNext : Action (Except Failure Bool) := do
  match ← call (.reserve worker.lane) with
  | .error failure => return .error failure
  | .ok none => return .ok false
  | .ok (some reservation) =>
    return (← worker.process crates reservation).map fun _ => true

end Worker

end Worklane.Facade
