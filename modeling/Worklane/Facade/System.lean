import Worklane.Facade.Json
import Worklane.Facade.WorkerLaw
import Worklane.Memory.Origin

/-!
# The facade over one in-memory broker

Any number of clients, workers, heartbeats and operators, each a thread, over
one `MemoryBroker`, one result store and one payload store.  Threads are
interleaved at their operations.  A crashed thread takes no further step, a
slow one takes its next step late, and a lease expires when the broker's
clock says so: readings are arbitrary.

A failing write may or may not have taken place.  Ids, receipts and blob keys
are fresh, as a version 4 UUID is taken to be.
-/

namespace Worklane.Facade

open Lib.Program

/-! ## What is run -/

/-- The calls an operator makes. -/
inductive Operation where
  | requeue (id : JobId)
  | purgeDeadLetters (lane : Lane)
  | readDeadLetters (lane : Lane) (limit : Nat)
  | countDeadLetters (lane : Lane)
  | pendingCount (lane : Lane)
  | classify (id : JobId)

def Operation.request : Operation → Call
  | .requeue id => .requeue id
  | .purgeDeadLetters lane => .purgeDeadLetters lane
  | .readDeadLetters lane limit => .readDeadLetters lane limit
  | .countDeadLetters lane => .countDeadLetters lane
  | .pendingCount lane => .pendingCount lane
  | .classify id => .classify id

/-- The ways to start a thread. -/
inductive Api where
  | processNext (worker : Worker)
  | heartbeat (receipt : ReservationReceipt) (beats : Nat)
  | enqueue (client : Client) (spec : JobSpec)
  | enqueueToLanes (client : Client) (spec : JobSpec) (lanes : List Lane)
  | fanIn (client : Client) (faninId : String)
      (dependencies : List (Client × JobSpec)) (callbackKind : String)
      (context : Serialized) (policy : FanInPolicy)
  | getResult (client : Client) (id : JobId)
  | operate (operation : Operation)

/-- What a call of the facade returns. -/
inductive Report where
  | processed (ended : Except Failure Bool)
  | beaten
  | enqueued (ended : Except Failure JobId)
  | spread (ended : Except Failure (List JobId))
  | fannedIn (ended : Except Failure Unit)
  | result (ended : Except Failure (Option Blob))
  | operated

def Api.body (crates : Crates) : Api → Action Report
  | .processNext worker => do
      return .processed (← worker.processNext crates)
  | .heartbeat receipt beats => do
      Facade.heartbeat receipt beats
      return .beaten
  | .enqueue client spec => do
      return .enqueued (← client.enqueue spec)
  | .enqueueToLanes client spec lanes => do
      return .spread (← client.enqueueToLanes spec lanes)
  | .fanIn client faninId dependencies callbackKind context policy => do
      return .fannedIn (← client.fanIn crates faninId dependencies callbackKind context policy)
  | .getResult client id => do
      return .result (← client.getResult id)
  | .operate operation => do
      let _ ← call operation.request
      return .operated

/-! ## The shared state -/

structure Shared where
  inner : Memory.Inner
  results : JobId → Option Blob
  blobs : String → Option Blob

def Shared.store (shared : Shared) (id : JobId) (output : Option Blob) :
    Shared :=
  { shared with results := Function.update shared.results id output }

def Shared.keep (shared : Shared) (key : String) (blob : Option Blob) :
    Shared :=
  { shared with blobs := Function.update shared.blobs key blob }

/-- `evicts` says whether the result store may forget a result. -/
structure Settings where
  config : Config
  crates : Crates
  evicts : Bool

def steps (log : Log) : List Did := log.map Lib.Event.step

/-- A broker call as an entry of the broker machine's trace. -/
def entryOf : Did → Option Entry
  | ⟨.call request, served⟩ =>
    let served : Served request.Result := served
    some (⟨served.now, served.mint, request⟩, served.reply.map request.value)
  | _ => none

def entries (log : Log) : List Entry := (steps log).filterMap entryOf

def inputs (log : Log) : List Input := (entries log).map Prod.fst

variable (settings : Settings)

/-- The broker's answer to a call. -/
structure Serves (log : Log) (shared : Shared) (request : Call)
    (served : Served request.Result) (next : Shared) : Prop where
  fresh : FreshMints (inputs log ++ [⟨served.now, served.mint, request⟩])
  reply : (Memory.perform Memory.releaseLease settings.config shared.inner
    ⟨served.now, served.mint, request⟩).reply = served.reply.map request.value
  next : next = { shared with
    inner := (Memory.perform Memory.releaseLease settings.config shared.inner
      ⟨served.now, served.mint, request⟩).inner }

/-- How the surroundings answer an operation. -/
def answers (log : Log) (shared : Shared) : (op : Op) → op.Answer → Shared → Prop
  | .call request, served, next =>
    Serves settings log shared request served next
  | .newId, id, next => id ∉ mintedIds (steps log) ∧ next = shared
  | .storeResult id output, .ok _, next =>
    next = shared.store id (some output)
  | .storeResult id output, .error _, next =>
    next = shared ∨ next = shared.store id (some output)
  | .getResult id, .ok found, next =>
    (found = shared.results id ∧ next = shared) ∨ (settings.evicts = true ∧ found = none ∧
        next = shared.store id none)
  | .getResult _, .error _, next => next = shared
  | .put content, .ok key, next =>
    key ∉ putKeys (steps log) ∧ next = shared.keep key (some content)
  | .put _, .error _, next => next = shared
  | .get key, .ok found, next => found = shared.blobs key ∧ next = shared
  | .get _, .error _, next => next = shared
  | .delete key, .ok _, next => next = shared.keep key none
  | .delete key, .error _, next =>
    next = shared ∨ next = shared.keep key none
  | .handle _ _, _, next => next = shared
  | .admitKind _, _, next => next = shared
  | .record _ _, _, next => next = shared
  | .deadline, _, next => next = shared
  | .lags, _, next => next = shared

def system : Lib.System Api Op Op.Answer Report Shared where
  body := Api.body settings.crates
  initial := ⟨Memory.Inner.empty, fun _ => none, fun _ => none⟩
  answers := answers settings

abbrev Pool : Type := Lib.Pool Api Op Op.Answer Report Shared

/-! ## Executing a log -/

/-- The state after an operation, when the surroundings can answer so.  A
failing write is taken not to have taken place. -/
def serve (log : Log) (shared : Shared) : (op : Op) → op.Answer → Option Shared
  | .call request, served =>
    let input : Input := ⟨served.now, served.mint, request⟩
    let outcome := Memory.perform Memory.releaseLease settings.config shared.inner input
    if FreshMints (inputs log ++ [input]) ∧ outcome.reply = served.reply.map request.value then
      some { shared with inner := outcome.inner }
    else
      none
  | .newId, id => if id ∈ mintedIds (steps log) then none else some shared
  | .storeResult id output, .ok _ => some (shared.store id (some output))
  | .storeResult _ _, .error _ => some shared
  | .getResult id, .ok found =>
    if found = shared.results id then some shared else none
  | .getResult _, .error _ => some shared
  | .put content, .ok key =>
    if key ∈ putKeys (steps log) then none
    else some (shared.keep key (some content))
  | .put _, .error _ => some shared
  | .get key, .ok found =>
    if found = shared.blobs key then some shared else none
  | .get _, .error _ => some shared
  | .delete key, .ok _ => some (shared.keep key none)
  | .delete _, .error _ => some shared
  | .handle _ _, _ => some shared
  | .admitKind _, _ => some shared
  | .record _ _, _ => some shared
  | .deadline, _ => some shared
  | .lags, _ => some shared

def replayFrom (past : Log) (shared : Shared) : Log → Option Shared
  | [] => some shared
  | event :: rest =>
    match serve settings past shared event.op event.answer with
    | none => none
    | some next => replayFrom (past ++ [event]) next rest

/-- The state after a log. -/
def replay (log : Log) : Option Shared :=
  replayFrom settings [] (system settings).initial log

theorem serve_answers {log : Log} {shared next : Shared} {op : Op} {answer : op.Answer}
    (serves : serve settings log shared op answer = some next) :
    answers settings log shared op answer next := by
  cases op with
  | call request =>
    simp only [serve] at serves
    split at serves
    · next valid =>
      cases serves
      exact ⟨valid.1, valid.2, rfl⟩
    · cases serves
  | newId =>
    simp only [serve] at serves
    split at serves
    · cases serves
    · next fresh =>
      cases serves
      exact ⟨fresh, rfl⟩
  | storeResult id output =>
    cases answer with
    | ok done => exact (Option.some.inj serves).symm
    | error failure => exact Or.inl (Option.some.inj serves).symm
  | getResult id =>
    cases answer with
    | ok found =>
      simp only [serve] at serves
      split at serves
      · next same =>
        cases serves
        exact Or.inl ⟨same, rfl⟩
      · cases serves
    | error failure => exact (Option.some.inj serves).symm
  | put content =>
    cases answer with
    | ok key =>
      simp only [serve] at serves
      split at serves
      · cases serves
      · next fresh =>
        cases serves
        exact ⟨fresh, rfl⟩
    | error failure => exact (Option.some.inj serves).symm
  | get key =>
    cases answer with
    | ok found =>
      simp only [serve] at serves
      split at serves
      · next same =>
        cases serves
        exact ⟨same, rfl⟩
      · cases serves
    | error failure => exact (Option.some.inj serves).symm
  | delete key =>
    cases answer with
    | ok done => exact (Option.some.inj serves).symm
    | error failure => exact Or.inl (Option.some.inj serves).symm
  | handle envelope payload => exact (Option.some.inj serves).symm
  | admitKind kind => exact (Option.some.inj serves).symm
  | record kind success => exact (Option.some.inj serves).symm
  | deadline => exact (Option.some.inj serves).symm
  | lags => exact (Option.some.inj serves).symm

theorem replayFrom_answered {past log : Log} {shared final : Shared}
    (answered : (system settings).Answered past shared)
    (replays : replayFrom settings past shared log = some final) :
    (system settings).Answered (past ++ log) final := by
  induction log generalizing past shared with
  | nil =>
    cases replays
    rwa [List.append_nil]
  | cons event rest ih =>
    simp only [replayFrom] at replays
    split at replays
    · cases replays
    · next next served =>
      rw [List.append_cons]
      exact ih (.snoc answered (serve_answers settings served)) replays

/-- A log that can be executed and performed is the log of a reachable pool,
whose state can be tested. -/
theorem replay_reachable {log : Log} {starts : List Api} {test : Shared → Bool}
    (replays : (replay settings log).any test = true)
    (performs : ∀ (index : Nat) (start : Api), starts[index]? = some start → ∃ rest, Performs
        (start.body settings.crates) (Lib.own index log) rest)
    (known : ∀ event ∈ log, event.thread < starts.length) :
    ∃ pool, (system settings).Replays starts log pool.shared pool ∧ test pool.shared = true := by
  cases final : replay settings log with
  | none =>
    rw [final] at replays
    cases replays
  | some shared =>
    rw [final] at replays
    have answered := replayFrom_answered settings .nil final
    rw [List.nil_append] at answered
    obtain ⟨pool, whole⟩ := answered.replays performs known
    have same := whole.sameShared
    subst same
    exact ⟨pool, whole, replays⟩

/-! ## The laws of the threads -/

def Api.law (crates : Crates) : Api → List Did → Op → Prop
  | .processNext worker => WorkerLaw crates worker
  | .heartbeat receipt _ => fun _ op => op = .call (.extend receipt)
  | .enqueue _ _ => SubmissionLaw
  | .enqueueToLanes _ _ _ => SubmissionLaw
  | .fanIn client faninId _ callbackKind context policy =>
    FanInLaw crates client faninId callbackKind context policy
  | .getResult _ id => fun past op => op = .call (.classify id) ∨
      (op = .getResult id ∧ id ∈ completed past)
  | .operate operation => fun _ op => op = .call operation.request

/-- What a finished call has seen. -/
def Api.post : Api → Report → List Did → Prop
  | .getResult _ id, .result (.ok (some output)), history =>
    (⟨.getResult id, .ok (some output)⟩ : Did) ∈ history
  | .getResult _ id, .result (.ok none), history =>
    (∃ served : Served JobState, (⟨.call (.classify id), served⟩ : Did) ∈ history ∧
          served.reply ≠ .ok .completedOrUnknown) ∨
      (⟨.getResult id, .ok none⟩ : Did) ∈ history
  | _, _, _ => True

theorem heartbeat_lawful (receipt : ReservationReceipt) (beats : Nat) (past : List Did) :
    Lawful (fun _ op => op = .call (.extend receipt)) (fun _ _ => True)
      past (heartbeat receipt beats) := by
  induction beats generalizing past with
  | zero => trivial
  | succ beats ih =>
    refine lawful_bind.mpr (lawful_call.mpr ⟨rfl, fun served => ?_⟩)
    cases served.reply with
    | ok done => exact ih _
    | error failure => trivial

theorem getResult_lawful {crates : Crates} (client : Client) (id : JobId) :
    Lawful (Api.law crates (.getResult client id)) (fun ended history =>
      Api.post (.getResult client id) (.result ended) history) []
      (client.getResult id) := by
  unfold Client.getResult
  split
  · refine lawful_andThen_iff.mpr (lawful_call.mpr ⟨Or.inl rfl, fun served => ?_⟩)
    obtain ⟨now, mint, reply⟩ := served
    cases reply with
    | error failure => trivial
    | ok state =>
      cases state with
      | completedOrUnknown =>
        refine lawful_perform.mpr ⟨Or.inr ⟨rfl, by simp [completed, completedOf]⟩, ?_⟩
        intro found
        cases found with
        | error failure => trivial
        | ok output =>
          cases output with
          | none => exact Or.inr (by simp)
          | some bytes =>
            show (⟨_, _⟩ : Did) ∈ _
            simp
      | live => exact Or.inl ⟨_, List.mem_singleton.mpr rfl, by simp⟩
      | deadLettered => exact Or.inl ⟨_, List.mem_singleton.mpr rfl, by simp⟩
  · trivial

theorem clean_nil : Clean [] := by
  rintro _ ⟨⟩

/-- Every call of the facade obeys its law. -/
theorem body_lawful (crates : Crates) (start : Api) :
    Lawful (start.law crates) start.post [] (start.body crates) := by
  cases start with
  | processNext worker =>
    exact processNext_lawful.bind fun _ _ _ => trivial
  | heartbeat receipt beats =>
    exact (heartbeat_lawful receipt beats []).bind fun _ _ _ => trivial
  | enqueue client spec =>
    exact (enqueue_lawful client spec clean_nil).bind fun _ _ _ => trivial
  | enqueueToLanes client spec lanes =>
    exact (enqueueToLanes_lawful client spec lanes clean_nil).bind fun _ _ _ => trivial
  | fanIn client faninId dependencies callbackKind context policy =>
    exact (fanIn_lawful crates client faninId callbackKind context policy
      dependencies clean_nil).bind fun _ _ _ => trivial
  | getResult client id =>
    exact (getResult_lawful client id).bind fun _ _ held => held
  | operate operation =>
    exact lawful_bind.mpr (lawful_call.mpr ⟨rfl, fun _ => trivial⟩)

/-- Logs of the system in which every thread obeys its law. -/
abbrev Runs (starts : Nat → Option Api) (log : Log) (shared : Shared) :
    Prop :=
  (system settings).Behaves (Api.law settings.crates) starts log shared

/-- A broker without retention or delivery bound, a result store that keeps
everything, and the plain crates. -/
def plainSettings : Settings where
  config := ⟨10, ⟨none, none⟩, none⟩
  crates := plainCrates
  evicts := false

variable {settings}

theorem orderly_of_reachable {pool : Pool} (reachable : (system settings).Reachable pool) :
    (system settings).Orderly (Api.law settings.crates) Api.post pool :=
  Lib.System.Reachable.orderly (body_lawful settings.crates) reachable

theorem runs_of_reachable {pool : Pool} (reachable : (system settings).Reachable pool) :
    Runs settings pool.starts pool.log pool.shared :=
  (orderly_of_reachable reachable).behaves

end Worklane.Facade
