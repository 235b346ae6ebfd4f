import Worklane.Facade.Ownership
import Worklane.Facade.Worker

/-!
# What a worker does with a reservation

A run of `process_next` starts with one `reserve`.  Every later operation is
justified by the reservation it got: settling it, storing its result, deleting
its blob, or running the fan-in watcher it carries.
-/

namespace Worklane.Facade

open List
open Lib.Program

/-! ## What a history shows -/

/-- The reservation a run started with. -/
def taken : List Did → Option Reservation
  | ⟨.call (.reserve _), served⟩ :: _ =>
    match (show Served (Option Reservation) from served).reply with
    | .ok handed => handed
    | .error _ => none
  | _ => none

theorem taken_append {past : List Did} {reservation : Reservation}
    (takes : taken past = some reservation) (more : List Did) :
    taken (past ++ more) = some reservation := by
  cases past with
  | nil => cases takes
  | cons first rest =>
    rw [← takes]
    obtain ⟨op, answer⟩ := first
    cases op with
    | call request => cases request <;> rfl
    | _ => rfl

/-- Operations of the programs that submit. -/
def submitting : Op → Bool
  | .newId | .put _ | .delete _ | .getResult _ | .call (.classify _)
  | .call (.enqueue _) | .call (.enqueueBatch _) => true
  | _ => false

/-- The part of a history that belongs to the watcher. -/
def seen (history : List Did) : List Did :=
  history.filter fun step => submitting step.1

@[simp]
theorem seen_append (first second : List Did) :
    seen (first ++ second) = seen first ++ seen second := by
  simp [seen]

def storeOf : Did → Option (JobId × Blob)
  | ⟨.storeResult id output, _⟩ => some (id, output)
  | _ => none

/-- The results a run has tried to store. -/
def stores (history : List Did) : List (JobId × Blob) :=
  history.filterMap storeOf

@[simp]
theorem stores_append (first second : List Did) :
    stores (first ++ second) = stores first ++ stores second :=
  filterMap_append ..

/-- The circuit breaker did not admit the job. -/
def Rejected (history : List Did) : Prop :=
  ∃ kind delay, (⟨.admitKind kind, some delay⟩ : Did) ∈ history

/-- The payload of a job, fetched when it was a reference. -/
def Resolved (history : List Did) (reservation : Reservation) (bytes : Blob) : Prop :=
  (referenceKey reservation.envelope.payload = none ∧ bytes = reservation.envelope.payload) ∨
    ∃ key, referenceKey reservation.envelope.payload = some key ∧
      (⟨.get key, .ok (some bytes)⟩ : Did) ∈ history

/-- The handler has returned this output. -/
def Produced (history : List Did) (reservation : Reservation) (output : Blob) : Prop :=
  (reservation.envelope.kind = watcherKind ∧ output = Watcher.unitOutput) ∨ ∃ payload,
      (⟨.handle reservation.envelope payload, .ok output⟩ : Did) ∈ history

/-- The run has acked its reservation, whose payload refers to this blob. -/
def Cleared (history : List Did) (key : String) : Prop :=
  ∃ reservation, ∃ served : Served Unit, taken history = some reservation ∧
      referenceKey reservation.envelope.payload = some key ∧
      (⟨.call (.ack reservation.receipt), served⟩ : Did) ∈ history ∧
      served.reply = .ok ()

/-- What has to be done before a job is acked. -/
structure Concluded (worker : Worker) (history : List Did)
    (reservation : Reservation) (output : Blob) : Prop where
  produced : Produced history reservation output
  stored : worker.resultStore = true →
    (⟨.storeResult reservation.envelope.id output, .ok ()⟩ : Did) ∈ history
  handed : reservation.envelope.kind = watcherKind → Watcher.Handed (seen history)

/-- An operation of the watcher the job carries. -/
def Watching (crates : Crates) (history : List Did) (op : Op) : Prop :=
  ∃ reservation bytes payload, taken history = some reservation ∧
    reservation.envelope.kind = watcherKind ∧
    Resolved history reservation bytes ∧
    crates.fromWatcher bytes = .ok payload ∧
    Watcher.Law crates payload (seen history) op ∧
    SubmissionLaw (seen history) op

/-! ## The law -/

def WorkerLaw (crates : Crates) (worker : Worker) (past : List Did) : Op → Prop
  | .call (.reserve lane) => past = [] ∧ lane = worker.lane
  | .call (.ack receipt) => ∃ reservation output,
      taken past = some reservation ∧ reservation.receipt = receipt ∧
      ¬ Rejected past ∧ Concluded worker past reservation output
  | .call (.retry receipt _) => ∃ reservation,
      taken past = some reservation ∧ reservation.receipt = receipt ∧
      ¬ Rejected past ∧ saturatingSucc reservation.envelope.attempts <
        reservation.envelope.maxAttempts
  | .call (.fail receipt _) => ∃ reservation,
      taken past = some reservation ∧ reservation.receipt = receipt ∧
      ¬ Rejected past
  | .call (.defer receipt _) => ∃ reservation,
      taken past = some reservation ∧ reservation.receipt = receipt ∧
      Rejected past
  | .storeResult id output => ∃ reservation,
      taken past = some reservation ∧ reservation.envelope.id = id ∧
      worker.resultStore = true ∧ Produced past reservation output ∧
      stores past = []
  | .handle envelope _ => ∃ reservation,
      taken past = some reservation ∧ reservation.envelope = envelope ∧
      ¬ Rejected past
  | .admitKind _ => worker.circuitBreaker = true
  | .get _ | .record _ _ | .deadline | .lags => True
  | .delete key => Cleared past key ∨ Watching crates past (.delete key)
  | .newId => Watching crates past .newId
  | .put bytes => Watching crates past (.put bytes)
  | .getResult id => Watching crates past (.getResult id)
  | .call (.classify id) => Watching crates past (.call (.classify id))
  | .call (.enqueue job) => Watching crates past (.call (.enqueue job))
  | .call (.enqueueBatch jobs) =>
    Watching crates past (.call (.enqueueBatch jobs))
  | _ => False

/-! ## A handler under a deadline -/

section Maintained

variable {inner law : List Did → Op → Prop}
variable {Relates : List Did → List Did → Prop}

/-- What is known when a handler under a deadline is over: its own history,
related to the history of the run, and for a handler that was aborted the
operation it may still perform. -/
def Maintains (inner : List Did → Op → Prop) (Relates : List Did → List Did → Prop)
    (post : Except Failure Blob → List Did → Prop) :
    HandlerOutcome → List Did → Prop
  | .completed result, history =>
    ∃ own, Relates own history ∧ post result own
  | .timedOut _ straggler, history =>
    ∃ own op, Relates own history ∧ inner own op ∧ straggler = .act op fun _ => return

theorem runMaintained_lawful (allows : ∀ own past op, Relates own past → inner own op → law past op)
    (follows : ∀ own past op (answer : op.Answer), Relates own past → inner own op →
      Relates (own ++ [⟨op, answer⟩]) (past ++ [⟨op, answer⟩]))
    (waits : ∀ own past (passed : Bool), Relates own past →
      Relates own (past ++ [⟨.deadline, passed⟩]))
    (deadline : ∀ past, law past .deadline)
    {post : Except Failure Blob → List Did → Prop} {timeout : Option Nat}
    {program : Action (Except Failure Blob)} {own past : List Did}
    (lawful : Lawful inner post own program) (related : Relates own past) :
    Lawful law (Maintains inner Relates post) past (runMaintained timeout program) := by
  induction program generalizing own past with
  | done result => exact ⟨own, related, lawful⟩
  | act op next ih =>
    cases timeout with
    | none =>
      exact ⟨allows own past op related lawful.1, fun answer =>
        ih answer (lawful.2 answer) (follows own past op answer related lawful.1)⟩
    | some limit =>
      refine ⟨deadline past, fun passed => ?_⟩
      have later := waits own past passed related
      cases passed with
      | true => exact ⟨own, op, later, lawful.1, rfl⟩
      | false =>
        exact ⟨allows own _ op later lawful.1, fun answer =>
          ih answer (lawful.2 answer) (follows own _ op answer later lawful.1)⟩

end Maintained

/-! ## Stages of a run -/

section Stage

/-- A run that holds its reservation; `own` is what the watcher has done so
far. -/
structure Stage (reservation : Reservation) (own past : List Did) : Prop where
  taken : taken past = some reservation
  watched : seen past = own
  admitted : ¬ Rejected past

/-- Operations that do not change the stage. -/
def neutral : Op → Bool
  | .admitKind _ => false
  | op => !submitting op

variable {reservation : Reservation} {own past : List Did}

theorem not_rejected_append {step : Did} (admitted : ¬ Rejected past)
    (other : ∀ kind delay, step ≠ ⟨.admitKind kind, some delay⟩) :
    ¬ Rejected (past ++ [step]) := by
  rintro ⟨kind, delay, member⟩
  rcases mem_append.mp member with early | last
  · exact admitted ⟨kind, delay, early⟩
  · exact other kind delay (mem_singleton.mp last).symm

theorem seen_singleton {step : Did} (watched : submitting step.1 = true) :
    seen [step] = [step] := by
  simp [seen, watched]

theorem seen_of_neutral {step : Did} (quiet : neutral step.1 = true) : seen [step] = [] := by
  obtain ⟨op, answer⟩ := step
  cases op with
  | call request => cases request <;> first | rfl | cases quiet
  | _ => first | rfl | cases quiet

theorem Stage.step (stage : Stage reservation own past) {op : Op}
    {answer : op.Answer} (quiet : neutral op = true) :
    Stage reservation own (past ++ [⟨op, answer⟩]) where
  taken := taken_append stage.taken _
  watched := by
    rw [seen_append, stage.watched, seen_of_neutral quiet, append_nil]
  admitted := by
    refine not_rejected_append stage.admitted ?_
    rintro kind delay same
    cases same
    cases quiet

theorem Stage.watch (stage : Stage reservation own past) {op : Op}
    {answer : op.Answer} (watched : submitting op = true) :
    Stage reservation (own ++ [⟨op, answer⟩]) (past ++ [⟨op, answer⟩]) where
  taken := taken_append stage.taken _
  watched := by
    rw [seen_append, stage.watched, seen_singleton watched]
  admitted := by
    refine not_rejected_append stage.admitted ?_
    rintro kind delay same
    cases same
    cases watched

theorem stores_step {op : Op} {answer : op.Answer}
    (other : ∀ id output, op ≠ .storeResult id output) :
    stores (past ++ [⟨op, answer⟩]) = stores past := by
  rw [stores_append]
  cases op with
  | storeResult id output => exact absurd rfl (other id output)
  | _ => exact append_nil _

end Stage

/-! ## The parts of `process` -/

section Process

variable {crates : Crates} {worker : Worker} {reservation : Reservation}
variable {own past : List Did}

theorem lawful_recordBreaker {kind : String} {success : Bool}
    {post : Unit → List Did → Prop} (same : post () past)
    (told : post () (past ++ [⟨.record kind success, ()⟩])) :
    Lawful (WorkerLaw crates worker) post past (worker.recordBreaker kind success) := by
  unfold Worker.recordBreaker
  split
  · exact lawful_perform.mpr ⟨trivial, fun _ => told⟩
  · exact same

theorem recordBreaker_lawful (stage : Stage reservation own past) (kind : String) (success : Bool) :
    Lawful (WorkerLaw crates worker) (fun _ history => Stage reservation own history ∧
        ∀ step ∈ past, step ∈ history) past
      (worker.recordBreaker kind success) :=
  lawful_recordBreaker ⟨stage, fun _ member => member⟩
    ⟨stage.step rfl, fun _ member => mem_append_left _ member⟩

theorem handleFailure_lawful (stage : Stage reservation own past) (failure : Failure) :
    Lawful (WorkerLaw crates worker) (fun _ history => Stage reservation own history ∧
        ∀ step ∈ past, step ∈ history) past
      (worker.handleFailure crates reservation.receipt reservation.envelope failure) := by
  have kept : ∀ {op : Op} {answer : op.Answer}, neutral op = true →
      Stage reservation own (past ++ [⟨op, answer⟩]) ∧
        ∀ step ∈ past, step ∈ past ++ [⟨op, answer⟩] := by
    intro op answer quiet
    exact ⟨stage.step quiet, fun step member =>
      mem_append_left _ member⟩
  unfold Worker.handleFailure
  split
  · next retries =>
    exact lawful_bind.mpr (lawful_call.mpr
      ⟨⟨reservation, stage.taken, rfl, stage.admitted, retries⟩, fun served => kept rfl⟩)
  · exact lawful_bind.mpr (lawful_call.mpr ⟨⟨reservation, stage.taken, rfl, stage.admitted⟩,
        fun served => kept rfl⟩)

theorem deletePayload_lawful {payload : Blob}
    (cleared : ∀ key, referenceKey payload = some key → Cleared past key) :
    Lawful (WorkerLaw crates worker) (fun _ _ => True) past (worker.deletePayload payload) := by
  unfold Worker.deletePayload
  split
  · next key reads _ =>
    exact lawful_bind.mpr (lawful_perform.mpr ⟨Or.inl (cleared key reads), fun _ => trivial⟩)
  · trivial

theorem acknowledge_lawful {output : Blob}
    (takes : taken past = some reservation) (admitted : ¬ Rejected past)
    (concluded : Concluded worker past reservation output) :
    Lawful (WorkerLaw crates worker) (fun _ _ => True) past
      (worker.acknowledge reservation.receipt reservation.envelope) := by
  refine lawful_bind.mpr (lawful_call.mpr ⟨⟨reservation, output, takes, rfl, admitted, concluded⟩,
      fun served => ?_⟩)
  cases replied : served.reply with
  | error failure => trivial
  | ok done =>
    have cleared : ∀ more key, referenceKey reservation.envelope.payload = some key →
        Cleared (past ++ [⟨.call (.ack reservation.receipt), served⟩] ++ more) key := by
      intro more key reads
      refine ⟨reservation, served, taken_append (taken_append takes _) _, reads, by simp, ?_⟩
      rw [replied]
    refine lawful_bind.mpr (lawful_recordBreaker ?_ ?_)
    · refine Lawful.bind (deletePayload_lawful ?_) fun _ _ _ => trivial
      have here := cleared []
      rwa [append_nil] at here
    · exact (deletePayload_lawful (cleared _)).bind fun _ _ _ => trivial

theorem Produced.mono {later : List Did} {output : Blob}
    (produced : Produced past reservation output)
    (more : ∀ step ∈ past, step ∈ later) :
    Produced later reservation output := by
  rcases produced with watcher | ⟨payload, member⟩
  · exact Or.inl watcher
  · exact Or.inr ⟨payload, more _ member⟩

theorem complete_lawful {output : Blob} (stage : Stage reservation own past)
    (unstored : stores past = [])
    (produced : Produced past reservation output)
    (handed : reservation.envelope.kind = watcherKind → Watcher.Handed own) :
    Lawful (WorkerLaw crates worker) (fun _ _ => True) past
      (worker.complete crates reservation.receipt reservation.envelope output) := by
  unfold Worker.complete Worker.egress
  split
  · next keeps =>
    refine lawful_bind.mpr (lawful_perform.mpr
      ⟨⟨reservation, stage.taken, rfl, keeps, produced, unstored⟩, fun answer => ?_⟩)
    have later : Stage reservation own (past ++ [⟨.storeResult
        reservation.envelope.id output, answer⟩]) := stage.step rfl
    cases answer with
    | error failure =>
      refine (recordBreaker_lawful later _ _).bind ?_
      intro _ history ⟨failed, _⟩
      exact (handleFailure_lawful failed failure).mono fun _ _ _ => trivial
    | ok done =>
      refine @acknowledge_lawful _ _ _ _ output later.taken later.admitted ⟨?_, ?_, ?_⟩
      · exact produced.mono fun step member =>
        mem_append_left _ member
      · intro _
        simp
      · rw [later.watched]
        exact handed
  · next keeps =>
    refine acknowledge_lawful stage.taken stage.admitted ⟨produced, ?_, ?_⟩
    · intro configured
      exact absurd configured keeps
    · rw [stage.watched]
      exact handed

/-- What is known when the handler is over. -/
def Outcome (crates : Crates) (worker : Worker) (reservation : Reservation) :
    HandlerOutcome → List Did → Prop
  | .completed (.ok output), history => ∃ own, Stage reservation own history ∧ stores history = [] ∧
        Produced history reservation output ∧
        (reservation.envelope.kind = watcherKind → Watcher.Handed own)
  | .completed (.error _), history => ∃ own, Stage reservation own history
  | .timedOut _ straggler, history => ∃ own op, Stage reservation own history ∧
        straggler = (.act op fun _ => return) ∧
        ∀ later, Stage reservation own later →
          (∀ step ∈ history, step ∈ later) → WorkerLaw crates worker later op

theorem conclude_lawful {outcome : HandlerOutcome}
    (known : Outcome crates worker reservation outcome past) :
    Lawful (WorkerLaw crates worker) (fun _ _ => True) past
      (worker.conclude crates reservation.receipt reservation.envelope outcome) := by
  cases outcome with
  | completed result =>
    cases result with
    | ok output =>
      obtain ⟨own, stage, unstored, produced, handed⟩ := known
      exact complete_lawful stage unstored produced handed
    | error failure =>
      obtain ⟨own, stage⟩ := known
      have retried : Lawful (WorkerLaw crates worker) (fun _ _ => True) past (do
            worker.recordBreaker reservation.envelope.kind false
            worker.handleFailure crates reservation.receipt reservation.envelope failure) :=
        (recordBreaker_lawful stage _ _).bind fun _ _ later =>
          (handleFailure_lawful later.1 failure).mono fun _ _ _ => trivial
      cases failure with
      | spi error =>
        cases error with
        | serialization text =>
          exact lawful_bind.mpr (lawful_call.mpr ⟨⟨reservation, stage.taken, rfl, stage.admitted⟩,
              fun _ => trivial⟩)
        | _ => exact retried
      | _ => exact retried
  | timedOut limit straggler =>
    obtain ⟨own, op, stage, rfl, allowed⟩ := known
    refine (recordBreaker_lawful stage _ _).bind ?_
    intro _ first ⟨atFirst, toFirst⟩
    refine (handleFailure_lawful atFirst _).bind ?_
    intro ended second ⟨atSecond, toSecond⟩
    refine lawful_bind.mpr (lawful_perform.mpr ⟨trivial, fun answer => ?_⟩)
    have atThird : Stage reservation own (second ++ [⟨.lags, answer⟩]) := atSecond.step rfl
    have toThird : ∀ step ∈ past, step ∈ second ++ [⟨.lags, answer⟩] :=
      fun step member => mem_append_left _ (toSecond step (toFirst step member))
    cases answer with
    | true => exact ⟨allowed _ atThird toThird, fun _ => trivial⟩
    | false => trivial

/-! ## Handlers -/

theorem Resolved.mono {later : List Did} {bytes : Blob} (resolved : Resolved past reservation bytes)
    (more : ∀ step ∈ past, step ∈ later) :
    Resolved later reservation bytes := by
  rcases resolved with plain | ⟨key, reads, member⟩
  · exact Or.inl plain
  · exact Or.inr ⟨key, reads, more _ member⟩

theorem submitting_of_law {payload : FanInWatcherPayload} {op : Op}
    (law : Watcher.Law crates payload past op) : submitting op = true := by
  cases op with
  | call request => cases request <;> first | rfl | cases law
  | _ => first | rfl | cases law

theorem Watching.allowed {op : Op} (watching : Watching crates past op) :
    WorkerLaw crates worker past op := by
  obtain ⟨_, _, _, _, _, _, _, law, _⟩ := id watching
  cases op with
  | call request => cases request <;> first | exact watching | cases law
  | delete key => exact Or.inr watching
  | _ => first | exact watching | cases law

theorem runUser_lawful {payload : Blob} (timeout : Option Nat)
    (stage : Stage reservation [] past) (unstored : stores past = [])
    (user : reservation.envelope.kind ≠ watcherKind) :
    Lawful (WorkerLaw crates worker) (Outcome crates worker reservation) past (runMaintained timeout
        (perform (Op.handle reservation.envelope payload))) := by
  let Relates : List Did → List Did → Prop := fun own history =>
    Stage reservation [] history ∧ stores history = [] ∧ ∀ step ∈ own, step ∈ history
  let inner : List Did → Op → Prop := fun _ op =>
    op = .handle reservation.envelope payload
  have allows : ∀ own history op, Relates own history → inner own op →
      WorkerLaw crates worker history op := by
    rintro own history op ⟨held, _, _⟩ rfl
    exact ⟨reservation, held.taken, rfl, held.admitted⟩
  have handles : Lawful inner (fun result own =>
        own = [⟨.handle reservation.envelope payload, result⟩]) []
    (perform (Op.handle reservation.envelope payload)) :=
    lawful_perform.mpr ⟨rfl, fun _ => rfl⟩
  have related : Relates [] past := ⟨stage, unstored, by simp⟩
  refine (runMaintained_lawful allows ?_ ?_ ?_ handles related).mono ?_
  · rintro own history op answer ⟨held, empty, inside⟩ rfl
    refine ⟨held.step rfl, ?_, ?_⟩
    · rwa [stores_step (by rintro _ _ ⟨⟩)]
    · intro step member
      rcases mem_append.mp member with early | last
      · exact mem_append_left _ (inside step early)
      · exact mem_append_right _ last
  · rintro own history passed ⟨held, empty, inside⟩
    refine ⟨held.step rfl, ?_, fun step member =>
      mem_append_left _ (inside step member)⟩
    rwa [stores_step (by rintro _ _ ⟨⟩)]
  · intro _
    trivial
  · intro outcome history known
    cases outcome with
    | completed result =>
      obtain ⟨own, ⟨held, empty, inside⟩, rfl⟩ := known
      cases result with
      | error failure => exact ⟨[], held⟩
      | ok output =>
        refine ⟨[], held, empty, Or.inr ⟨payload, ?_⟩, fun same =>
          absurd same user⟩
        exact inside _ (mem_singleton.mpr rfl)
    | timedOut limit straggler =>
      obtain ⟨own, op, ⟨held, _, _⟩, handle, rfl⟩ := known
      refine ⟨[], op, held, rfl, ?_⟩
      rintro later kept _
      obtain rfl := handle
      exact ⟨reservation, kept.taken, rfl, kept.admitted⟩

theorem dispatch_lawful (client : Client) (lane : Lane) (bytes : Blob) : Lawful
      (fun own op => ∃ payload, crates.fromWatcher bytes = .ok payload ∧
        Watcher.Law crates payload own op ∧ SubmissionLaw own op)
      (fun result own => ∀ output, result = .ok output →
        output = Watcher.unitOutput ∧ Watcher.Handed own) []
      (Watcher.dispatch crates client lane bytes) := by
  unfold Watcher.dispatch
  split
  · rintro output ⟨⟩
  · next payload reads =>
    have both := (Watcher.run_lawful Watcher.fresh_nil).and
      (@run_owned [] crates client lane payload (by rintro _ ⟨⟩))
    refine Lawful.bind (both.law_mono ?_) ?_
    · rintro own op ⟨law, owned⟩
      exact ⟨payload, reads, law, owned⟩
    · rintro ended own ⟨finished, _⟩ output same
      cases ended with
      | error text => cases same
      | ok done =>
        cases same
        exact ⟨rfl, finished rfl⟩

theorem runWatcher_lawful {bytes : Blob} {client : Client}
    (timeout : Option Nat) (stage : Stage reservation [] past)
    (unstored : stores past = [])
    (resolved : Resolved past reservation bytes)
    (watcher : reservation.envelope.kind = watcherKind) :
    Lawful (WorkerLaw crates worker) (Outcome crates worker reservation) past (runMaintained timeout
        (Watcher.dispatch crates client reservation.envelope.lane bytes)) := by
  let Relates : List Did → List Did → Prop := fun own history =>
    Stage reservation own history ∧ stores history = [] ∧ Resolved history reservation bytes
  let inner : List Did → Op → Prop := fun own op =>
    ∃ payload, crates.fromWatcher bytes = .ok payload ∧
      Watcher.Law crates payload own op ∧ SubmissionLaw own op
  have watching : ∀ own history op, Stage reservation own history →
      Resolved history reservation bytes → inner own op →
      Watching crates history op := by
    rintro own history op held known ⟨payload, reads, law, owned⟩
    refine ⟨reservation, bytes, payload, held.taken, watcher, known, reads, ?_, ?_⟩
    · rwa [held.watched]
    · rwa [held.watched]
  have more : ∀ (history : List Did) (step : Did), ∀ old ∈ history, old ∈ history ++ [step] :=
    fun history step old member => mem_append_left _ member
  have related : Relates [] past := ⟨stage, unstored, resolved⟩
  refine (runMaintained_lawful ?_ ?_ ?_ ?_ (dispatch_lawful client _ bytes) related).mono ?_
  · rintro own history op ⟨held, _, known⟩ allowed
    exact (watching own history op held known allowed).allowed
  · rintro own history op answer ⟨held, empty, known⟩ ⟨_, _, law, _⟩
    have submits := submitting_of_law law
    refine ⟨held.watch submits, ?_, known.mono (more _ _)⟩
    rwa [stores_step (by rintro _ _ rfl; cases submits)]
  · rintro own history passed ⟨held, empty, known⟩
    refine ⟨held.step rfl, ?_, known.mono (more _ _)⟩
    rwa [stores_step (by rintro _ _ ⟨⟩)]
  · intro _
    trivial
  · intro outcome history known
    cases outcome with
    | completed result =>
      obtain ⟨own, ⟨held, empty, _⟩, ended⟩ := known
      cases result with
      | error failure => exact ⟨own, held⟩
      | ok output =>
        obtain ⟨unit, handed⟩ := ended output rfl
        exact ⟨own, held, empty, Or.inl ⟨watcher, unit⟩, fun _ => handed⟩
    | timedOut limit straggler =>
      obtain ⟨own, op, ⟨held, _, known⟩, allowed, rfl⟩ := known
      refine ⟨own, op, held, rfl, ?_⟩
      intro later kept inside
      exact (watching own later op kept (known.mono inside) allowed).allowed

/-! ## A whole run -/

theorem resolvePayload_lawful (stage : Stage reservation [] past) (unstored : stores past = []) :
    Lawful (WorkerLaw crates worker) (fun resolved history => Stage reservation [] history ∧
        stores history = [] ∧ ∀ bytes, resolved = .ok bytes →
          Resolved history reservation bytes) past
      (worker.resolvePayload reservation.envelope.payload) := by
  unfold Worker.resolvePayload
  split
  · next plain =>
    refine ⟨stage, unstored, ?_⟩
    rintro bytes ⟨⟩
    exact Or.inl ⟨plain, rfl⟩
  · next key reads =>
    split
    · refine lawful_andThen_iff.mpr (lawful_perform.mpr ⟨trivial, fun found => ?_⟩)
      have later : Stage reservation [] (past ++ [⟨.get key, found⟩]) := stage.step rfl
      have none : stores (past ++ [⟨.get key, found⟩]) = [] := by
        rwa [stores_step (by rintro _ _ ⟨⟩)]
      cases found with
      | error failure => exact ⟨later, none, by rintro _ ⟨⟩⟩
      | ok blob =>
        cases blob with
        | none => exact ⟨later, none, by rintro _ ⟨⟩⟩
        | some bytes =>
          refine ⟨later, none, ?_⟩
          rintro _ ⟨⟩
          exact Or.inr ⟨key, reads, by simp⟩
    · exact ⟨stage, unstored, by rintro _ ⟨⟩⟩

theorem runAdmitted_lawful {target : Dispatch}
    (chosen : worker.dispatch reservation.envelope.kind = some target)
    (stage : Stage reservation [] past) (unstored : stores past = []) :
    Lawful (WorkerLaw crates worker) (fun _ _ => True) past
      (worker.runAdmitted crates (Worker.runHandler crates target reservation.envelope)
        reservation.receipt reservation.envelope) := by
  refine (resolvePayload_lawful stage unstored).bind ?_
  rintro resolved history ⟨held, empty, known⟩
  cases resolved with
  | error failure =>
    exact (handleFailure_lawful held failure).mono fun _ _ _ => trivial
  | ok bytes =>
    have guarded : Lawful (WorkerLaw crates worker) (Outcome crates worker reservation) history
        (worker.runGuarded (Worker.runHandler crates target reservation.envelope) bytes) := by
      unfold Worker.dispatch at chosen
      cases target with
      | user =>
        refine runUser_lawful _ held empty ?_
        intro same
        rw [if_pos same] at chosen
        cases asked : worker.watcher with
        | none => rw [asked] at chosen; cases chosen
        | some client => rw [asked] at chosen; cases chosen
      | watcher client =>
        refine runWatcher_lawful _ held empty (known bytes rfl) ?_
        by_contra other
        rw [if_neg other] at chosen
        split at chosen <;> cases chosen
    exact guarded.bind fun _ _ outcome => conclude_lawful outcome

theorem process_lawful (stage : Stage reservation [] past) (unstored : stores past = []) :
    Lawful (WorkerLaw crates worker) (fun _ _ => True) past
      (worker.process crates reservation) := by
  unfold Worker.process Worker.deliver
  cases chosen : worker.dispatch reservation.envelope.kind with
  | none =>
    exact lawful_bind.mpr (lawful_call.mpr
      ⟨⟨reservation, stage.taken, rfl, stage.admitted⟩, fun _ => trivial⟩)
  | some target =>
    simp only [Option.map_some]
    split
    · next guarded =>
      refine lawful_bind.mpr (lawful_perform.mpr ⟨guarded, fun rejected => ?_⟩)
      cases rejected with
      | some delay =>
        exact lawful_bind.mpr (lawful_call.mpr ⟨⟨reservation, taken_append stage.taken _, rfl,
            ⟨reservation.envelope.kind, delay, by simp⟩⟩,
            fun _ => trivial⟩)
      | none =>
        refine runAdmitted_lawful chosen ⟨?_, ?_, ?_⟩ ?_
        · exact taken_append stage.taken _
        · rw [seen_append, stage.watched]
          rfl
        · refine not_rejected_append stage.admitted ?_
          rintro kind delay ⟨⟩
        · rwa [stores_step (by rintro _ _ ⟨⟩)]
    · exact runAdmitted_lawful chosen stage unstored

theorem processNext_lawful : Lawful (WorkerLaw crates worker) (fun _ _ => True) []
      (worker.processNext crates) := by
  refine lawful_bind.mpr (lawful_call.mpr ⟨⟨rfl, rfl⟩, fun served => ?_⟩)
  obtain ⟨now, mint, reply⟩ := served
  cases reply with
  | error failure => trivial
  | ok handed =>
    cases handed with
    | none => trivial
    | some reservation =>
      refine Lawful.bind (process_lawful ⟨rfl, rfl, ?_⟩ rfl) fun _ _ _ => trivial
      rintro ⟨kind, delay, member⟩
      cases mem_singleton.mp member

end Process

end Worklane.Facade
