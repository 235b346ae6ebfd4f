import Worklane.Core.Json
import Worklane.Core.RedactUserinfo
import Worklane.Facade.FanIn

/-!
# `Client`

The enqueue paths, the fan-in submission and `get_result`, one function of
`client.rs` and `client_builder.rs` at a time.  A payload arrives serialized;
a builder is the `NewJob` it holds.
-/

namespace Worklane.Facade

open Lib.Program (perform)
open Lib (Format separates)
open Lib.Format

/-- The crates behind the facade: the assembly, and the JSON of the fan-in
payloads.  `Value` is `serde_json::Value`, `redactQuery` the second pass of
`redact_credentials`, and `durationText` prints a `Duration` with `{:?}`. -/
structure Crates where
  lengkap : Lengkap
  toWatcher : FanInWatcherPayload → Serialized
  fromWatcher : Blob → Except String FanInWatcherPayload
  fromWatcher_toWatcher : ∀ payload, fromWatcher (toWatcher payload).bytes = .ok payload
  Value : Type
  value : Format Value
  fromSlice : Blob → Except String Value
  fromSlice_print : ∀ context, fromSlice (value.print context) = .ok context
  redactQuery : String → String
  durationText : Nat → String

theorem plain_of_open {bytes : Blob} {rest : Blob}
    (starts : bytes = 123 :: rest) : referenceKey bytes = none :=
  referenceKey_of_head starts (by decide)

theorem brace_separates : separates [125] = true := by decide

namespace Crates

variable (crates : Crates)

/-- `FanInResults`, with each result as an array of numbers. -/
def results : Format (crates.Value × List Blob) :=
  after (utf8 "\x7b\"context\":") ((crates.value.seq (utf8 ",\"results\":") (by decide)
    Worklane.Json.blobs).before [125] brace_separates)

/-- `fan_in_results_payload`, which fails on a context that is not JSON. -/
def fanInResultsPayload (callbackPayload : Blob) (results : List Blob) :
    Except String Serialized :=
  match crates.fromSlice callbackPayload with
  | .error text => .error text
  | .ok context => .ok ⟨crates.results.print (context, results), plain_of_open rfl⟩

theorem fanInResultsPayload_reads {callbackPayload : Blob} {results : List Blob}
    {bytes : Serialized} (made : crates.fanInResultsPayload callbackPayload results = .ok bytes) :
    ∃ context, crates.fromSlice callbackPayload = .ok context ∧
      crates.results.readAll bytes.bytes = some (context, results) := by
  unfold fanInResultsPayload at made
  split at made
  · cases made
  · next context parsed =>
    cases made
    exact ⟨context, parsed, readAll_print ..⟩

/-- `redact_credentials`. -/
def redact (text : String) : String :=
  match Redact.redactUserinfo text.toList with
  | .ok hidden => crates.redactQuery (String.ofList hidden)
  | .error _ => text

theorem redact_eq (text : String) : crates.redact text =
    crates.redactQuery (String.ofList (Redact.hideUserinfo text.toList)) := by
  rw [redact, Redact.redactUserinfo_eq]

end Crates

/-- A client's settings.  `batches` says whether its broker provides
`BatchEnqueue`. -/
structure Client where
  batches : Bool
  resultStore : Bool
  payloadStore : Bool
  offloadThreshold : Nat
  defaultMaxAttempts : UInt32
  lane : Lane
  priority : UInt8
  laneRegistry : Option (List Lane)

/-- The settings of one `JobBuilder`. -/
structure JobSpec where
  kind : String
  payload : Serialized
  lane : Option Lane
  delay : Nat
  uniqueKey : Option String
  priority : Option UInt8

def watcherKind : String := "worklane:fan_in_watcher"

def newId : Action JobId := perform Op.newId

namespace Client

variable (client : Client)

def enqueueBatch (jobs : List NewJob) : Action (Except Failure (List JobId)) :=
  if client.batches then
    call (.enqueueBatch jobs)
  else
    return .error (.unsupportedCapability "batch enqueue")

def maybeOffload (payload : Blob) : Action (Except Failure Blob) :=
  if client.payloadStore ∧ client.offloadThreshold < payload.length then do
    let stored : Except Failure String ← perform (Op.put payload)
    return stored.map makeReference
  else if maxEnvelopeBytes < payload.length then
    return .error (.spi (.serialization
      s!"job payload is {payload.length} bytes, over the {maxEnvelopeBytes}-byte inline limit; configure a PayloadStore to offload large payloads"))
  else
    return .ok payload

/-- `cleanup_offload`: a failing delete is only logged. -/
def cleanupOffload (payload : Blob) : Action Unit :=
  match client.payloadStore, referenceKey payload with
  | true, some key => do
      let _ : Except Failure Unit ← perform (Op.delete key)
  | _, _ => return

def cleanupDedupedOffload (submitted returned : JobId) (payload : Blob) :
    Action Unit :=
  if submitted = returned then
    return
  else
    client.cleanupOffload payload

/-- `cleanup_offloads` on the payloads of the submitted jobs. -/
def cleanupOffloads : List NewJob → Action Unit
  | [] => return
  | job :: rest => do
      client.cleanupOffload job.payload
      cleanupOffloads rest

def checkLane (lane : Lane) : Except Failure Unit :=
  match client.laneRegistry with
  | some lanes =>
    if lane ∈ lanes then .ok () else .error (.unknownLane lane.name)
  | none => .ok ()

/-- `check_lane` on every job, before anything is submitted. -/
def checkLanes : List NewJob → Except Failure Unit
  | [] => .ok ()
  | job :: rest =>
    match client.checkLane job.lane with
    | .error failure => .error failure
    | .ok _ => checkLanes rest

/-- `NewJob::new` with the client's defaults. -/
def newJob (kind : String) (payload : Serialized) (id : JobId) : NewJob where
  id := id
  lane := client.lane
  kind := kind
  payload := payload.bytes
  maxAttempts := client.defaultMaxAttempts.toNat
  delay := 0
  uniqueKey := none
  priority := client.priority.toNat
  traceContext := none

/-- `build_job`. -/
def buildJob (kind : String) (payload : Serialized) : Action NewJob := do
  let id ← newId
  return client.newJob kind payload id

/-- The `with_*` methods of the builder. -/
def configure (spec : JobSpec) (job : NewJob) : NewJob :=
  { job with
    lane := spec.lane.getD job.lane
    delay := spec.delay
    uniqueKey := spec.uniqueKey
    priority := (spec.priority.map UInt8.toNat).getD job.priority }

def build (spec : JobSpec) : Action NewJob := do
  let job ← client.buildJob spec.kind spec.payload
  return configure spec job

/-! ## `JobBuilder::enqueue` and `enqueue_to_lanes` -/

def submit (job : NewJob) (payload : Blob) : Action (Except Failure JobId) := do
  let returned : Except Failure JobId ← call (.enqueue { job with payload := payload })
  match returned with
  | .error failure =>
    client.cleanupOffload payload
    return .error failure
  | .ok id =>
    client.cleanupDedupedOffload job.id id payload
    return .ok id

/-- `JobBuilder::enqueue`. -/
def enqueueJob (job : NewJob) : Action (Except Failure JobId) :=
  match client.checkLane job.lane with
  | .error failure => return .error failure
  | .ok _ => andThen (client.maybeOffload job.payload) (client.submit job)

/-- `enqueue`, `enqueue_to`, `enqueue_in` and `enqueue_unique`. -/
def enqueue (spec : JobSpec) : Action (Except Failure JobId) := do
  let job ← client.build spec
  client.enqueueJob job

/-- One copy of the job for each lane, each with an id of its own. -/
def copies (job : NewJob) : List Lane → Action (List NewJob)
  | [] => return []
  | lane :: rest => do
      let id ← newId
      let later ← copies job rest
      return { job with lane := lane, id := id } :: later

/-- The loop that offloads the payloads of a batch.  The first failure ends
the call. -/
def offloadAll : List NewJob → Action (Except Failure (List NewJob))
  | [] => return .ok []
  | job :: rest =>
    andThen (client.maybeOffload job.payload) fun payload =>
      andThen (offloadAll rest) fun later =>
        return .ok ({ job with payload := payload } :: later)

def cleanupDeduped : List NewJob → List JobId → Action Unit
  | job :: rest, id :: ids => do
      client.cleanupDedupedOffload job.id id job.payload
      cleanupDeduped rest ids
  | _, _ => return

def submitAll (jobs : List NewJob) : Action (Except Failure (List JobId)) := do
  match ← client.enqueueBatch jobs with
  | .error failure =>
    client.cleanupOffloads jobs
    return .error failure
  | .ok returned =>
    client.cleanupDeduped jobs returned
    return .ok returned

/-- `JobBuilder::enqueue_to_lanes`. -/
def fanOut (job : NewJob) (lanes : List Lane) : Action (Except Failure (List JobId)) := do
  let jobs ← copies job lanes
  match client.checkLanes jobs with
  | .error failure => return .error failure
  | .ok _ =>
    if job.uniqueKey.isSome ∧ 1 < jobs.length then
      return .error (.spi (.broker
        "a unique_key cannot be combined with multi-lane fan-out: the shared key would deduplicate the per-lane jobs down to one; enqueue per lane instead"))
    else
      andThen (client.offloadAll jobs) client.submitAll

def enqueueToLanes (spec : JobSpec) (lanes : List Lane) : Action (Except Failure (List JobId)) := do
  let job ← client.build spec
  client.fanOut job lanes

/-! ## Fan-in -/

/-- The loop over the dependencies of `fan_in_with_policy`. -/
def checkDependencies : List JobId → List NewJob → Except Failure Unit
  | _, [] => .ok ()
  | seen, job :: rest =>
    if job.uniqueKey.isSome then
      .error (.spi (.broker
        "a fan-in dependency must not set a unique_key: the atomic batch enqueue could deduplicate the member away, leaving the watcher with a dependency id that was never persisted"))
    else if job.id ∈ seen then
      .error (.spi (.broker s!"a fan-in dependency id appears more than once: {job.id}"))
    else
      checkDependencies (job.id :: seen) rest

/-- The batch is submitted; its payloads are cleaned up when that fails. -/
def submitFanIn (batch : List NewJob) : Action (Except Failure Unit) := do
  match ← client.enqueueBatch batch with
  | .error failure =>
    client.cleanupOffloads batch
    return .error failure
  | .ok _ => return .ok ()

/-- The payload of the first watcher, with the callback's defaults. -/
def watcherPayload (faninId : String) (dependencies : List NewJob)
    (callbackKind : String) (context : Serialized) (policy : FanInPolicy) :
    Except Failure FanInWatcherPayload :=
  FanInWatcherPayload.new faninId (dependencies.map NewJob.id) client.lane.name callbackKind
    context.bytes client.defaultMaxAttempts client.priority policy

/-- `fan_in_with_policy`. -/
def fanInWithPolicy (crates : Crates) (faninId : String)
    (dependencies : List NewJob) (callbackKind : String)
    (context : Serialized) (policy : FanInPolicy) :
    Action (Except Failure Unit) :=
  if policy.pollDelaySecs = 0 then
    return .error (.spi (.broker
      "FanInPolicy.poll_delay_secs must be >= 1; a zero delay would re-poll with no wait between generations"))
  else
    match checkDependencies [] dependencies with
    | .error failure => return .error failure
    | .ok _ =>
      match client.watcherPayload faninId dependencies callbackKind context policy with
      | .error failure => return .error failure
      | .ok payload => do
          let watcher ← client.buildJob watcherKind (crates.toWatcher payload)
          let batch := dependencies ++ [watcher]
          match client.checkLanes batch with
          | .error failure => return .error failure
          | .ok _ => andThen (client.offloadAll batch) client.submitFanIn

/-- The builders of the dependencies, each made by its own client. -/
def buildAll : List (Client × JobSpec) → Action (List NewJob)
  | [] => return []
  | (builder, spec) :: rest => do
      let job ← builder.build spec
      let later ← buildAll rest
      return job :: later

def fanIn (crates : Crates) (faninId : String)
    (dependencies : List (Client × JobSpec)) (callbackKind : String)
    (context : Serialized) (policy : FanInPolicy) :
    Action (Except Failure Unit) := do
  let jobs ← buildAll dependencies
  client.fanInWithPolicy crates faninId jobs callbackKind context policy

/-! ## `get_result` -/

/-- The stored bytes; deserializing them is left to the caller. -/
def getResult (id : JobId) : Action (Except Failure (Option Blob)) :=
  if client.resultStore then
    andThen (call (.classify id)) fun state : JobState =>
      match state with
      | .completedOrUnknown => perform (Op.getResult id)
      | .live | .deadLettered => return .ok none
  else
    return .error (.resultStore "no result store configured")

end Client

end Worklane.Facade
