import Worklane.Facade.Client

/-!
# `FanInWatcherJob`

The watcher polls the dependencies that are not captured yet, then either
reschedules itself with what it has captured, or enqueues the callback, or
fails.  A handler's error is a boxed error of which only the text is kept.
-/

namespace Worklane.Facade

open Lib.Program (perform)

/-- An error on its way out of a handler. -/
def boxed {α : Type} (action : Action (Except Failure α)) : Action (Except String α) := do
  return (← action).mapError Failure.text

namespace Watcher

/-- The loop over the unresolved slots.  A finding that makes the fan-in
impossible ends it; the slots always lie inside the dependency list. -/
def discover (dependencies : List JobId) : List Nat → Action (Except String (List (Nat × Finding)))
  | [] => return .ok []
  | slot :: rest =>
    match dependencies[slot]? with
    | none => return .error "index out of bounds"
    | some id =>
      andThen (boxed (call (.classify id))) fun state : JobState =>
        match state with
        | .deadLettered =>
          return .ok [(slot, .impossible (.deadLettered id))]
        | .live => discover dependencies rest
        | .completedOrUnknown =>
          andThen (boxed (perform (Op.getResult id))) fun found : Option Blob =>
            match found with
            | some bytes =>
              andThen (discover dependencies rest) fun later =>
                return .ok ((slot, .produced bytes) :: later)
            | none =>
              return .ok [(slot, .impossible (.missingResult id))]

def watcherKey (faninId : String) (generation : UInt32) : String :=
  s!"fiw:{faninId}:{generation}"

def callbackKey (faninId : String) : String :=
  s!"fanin:{faninId}:callback"

/-- `u32::saturating_add(1)`. -/
def nextGeneration (generation : UInt32) : UInt32 :=
  UInt32.ofNat (saturatingSucc generation.toNat)

def nextPayload (payload : FanInWatcherPayload)
    (collected : List (JobId × Blob)) : FanInWatcherPayload :=
  { payload with
    generation := nextGeneration payload.generation
    collected := collected }

/-- The builder of the next generation. -/
def nextSpec (crates : Crates) (lane : Lane) (next : FanInWatcherPayload) : JobSpec where
  kind := watcherKind
  payload := crates.toWatcher next
  lane := some lane
  delay := next.pollDelaySecs.toNat * 10 ^ 9
  uniqueKey := some (watcherKey next.faninId next.generation)
  priority := none

/-- `Decision::Pending`: poll again later. -/
def reschedule (crates : Crates) (client : Client) (lane : Lane)
    (payload : FanInWatcherPayload) (assembly : crates.lengkap.Assembly) :
    Action (Except String Unit) :=
  if payload.maxGenerations ≤ payload.generation then
    return .error s!"Fan-in {payload.faninId} exceeded max generations ({payload.maxGenerations})"
  else
    match checkpointFanInAssembly crates.lengkap payload.dependencies
      payload.collected assembly with
    | .error failure => return .error failure.text
    | .ok collected =>
      andThen (boxed (client.enqueue (nextSpec crates lane (nextPayload payload collected))))
        fun _ => return .ok ()

def impossibleText (payload : FanInWatcherPayload) : FanInImpossible → String
  | .deadLettered id =>
    s!"Fan-in {payload.faninId} cannot complete: dependency {id} was dead-lettered"
  | .missingResult id =>
    s!"Fan-in {payload.faninId} cannot aggregate: dependency {id} completed but its result was evicted before capture (increase the result TTL)"

def callbackJob (payload : FanInWatcherPayload) (lane : Lane)
    (bytes : Blob) (id : JobId) : NewJob where
  id := id
  lane := lane
  kind := payload.callbackKind
  payload := bytes
  maxAttempts := payload.callbackMaxAttempts.toNat
  delay := 0
  uniqueKey := some (callbackKey payload.faninId)
  priority := payload.callbackPriority.toNat
  traceContext := none

/-- The callback is submitted.  Its payload is cleaned up when that fails,
and only then. -/
def submitCallback (client : Client) (job : NewJob) : Action (Except String Unit) := do
  match ← client.enqueueBatch [job] with
  | .error failure =>
    client.cleanupOffload job.payload
    return .error failure.text
  | .ok _ => return .ok ()

/-- `Decision::Ready`: every output is captured. -/
def fire (crates : Crates) (client : Client) (payload : FanInWatcherPayload) (results : List Blob) :
    Action (Except String Unit) :=
  if results.length ≠ payload.dependencies.length then
    return .error
      s!"fan-in {payload.faninId} internal inconsistency: ready result count {results.length} differs from dependency count {payload.dependencies.length}"
  else
    match crates.fanInResultsPayload payload.callbackPayload results with
    | .error text => return .error ("serialization error: " ++ text)
    | .ok bytes =>
      match Lane.validated payload.callbackLane with
      | .error failure => return .error failure.text
      | .ok lane =>
        match client.checkLane lane with
        | .error failure => return .error failure.text
        | .ok _ =>
          andThen (boxed (client.maybeOffload bytes.bytes)) fun offloaded => do
              let id ← newId
              submitCallback client (callbackJob payload lane offloaded id)

/-- `FanInWatcherJob::run`. -/
def run (crates : Crates) (client : Client) (lane : Lane)
    (payload : FanInWatcherPayload) : Action (Except String Unit) :=
  match payload.validate with
  | .error text => return .error text
  | .ok _ =>
    match restoreFanInAssembly crates.lengkap payload.dependencies payload.collected with
    | .error failure => return .error failure.text
    | .ok assembly =>
      andThen (discover payload.dependencies
          (crates.lengkap.unresolvedSlots assembly)) fun findings =>
        match crates.lengkap.adjudicate assembly findings with
        | .error text =>
          return .error s!"fan-in {payload.faninId} internal adjudication inconsistency: {text}"
        | .ok (.pending next) =>
          reschedule crates client lane payload next
        | .ok (.ready results) => fire crates client payload results
        | .ok (.impossible cause) =>
          return .error (impossibleText payload cause)

/-- `to_payload(&())`. -/
def unitOutput : Blob := [110, 117, 108, 108]

/-- `JobDispatcher::dispatch` for the watcher. -/
def dispatch (crates : Crates) (client : Client) (lane : Lane)
    (bytes : Blob) : Action (Except Failure Blob) :=
  match crates.fromWatcher bytes with
  | .error text => return .error (.spi (.serialization text))
  | .ok payload => do
      let ended ← run crates client lane payload
      return (ended.mapError Failure.handler).map fun _ => unitOutput

end Watcher

end Worklane.Facade
