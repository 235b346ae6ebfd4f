import Worklane.Facade.Record

/-!
# Reservations and fates

A reservation belongs to the thread that took it.  A job that was stored is
live, dead-lettered, acked by the thread that held its reservation, or dropped
from the dead letters, and only one of these.
-/

namespace Worklane.Facade

open List
open Lib (own)

variable {settings : Settings} {starts : Nat → Option Api}
variable {log : Log} {shared : Shared}

/-! ## Reservations -/

def mintOf : Did → Option ReservationReceipt
  | ⟨.call (.reserve _), served⟩ =>
    some (show Served (Option Reservation) from served).mint
  | _ => none

theorem mints_inputs (log : Log) : (steps log).filterMap mintOf = mints (inputs log) := by
  induction log using List.reverseRecOn with
  | nil => rfl
  | append_singleton past event ih =>
    rw [steps_concat, filterMap_append, ih]
    obtain ⟨thread, op, answer⟩ := event
    cases op with
    | call request =>
      rw [inputs_call, mints_concat]
      cases request <;> rfl
    | _ =>
      rw [inputs_other past thread answer (by rintro _ ⟨⟩)]
      exact append_nil _

variable {reservation : Reservation}

theorem taken_iff {history : List Did} :
    taken history = some reservation ↔ ∃ (lane : Lane) (served : Served (Option Reservation))
        (rest : List Did),
        history = ⟨.call (.reserve lane), served⟩ :: rest ∧
          served.reply = .ok (some reservation) := by
  constructor
  · intro takes
    match history, takes with
    | ⟨.call (.reserve lane), served⟩ :: rest, takes =>
      refine ⟨lane, served, rest, rfl, ?_⟩
      simp only [taken] at takes
      split at takes
      · next replied => rw [← takes]; exact replied
      · cases takes
  · rintro ⟨lane, served, rest, rfl, replied⟩
    simp only [taken]
    split
    · next found => exact Except.ok.inj (found.symm.trans replied)
    · next found => cases found.symm.trans replied

/-- The calls only a worker makes. -/
def ofWorker : Call → Bool
  | .reserve _ | .ack _ | .retry _ _ | .fail _ _ => true
  | _ => false

theorem law_ofWorker {crates : Crates} {start : Api} {past : List Did} {request : Call}
    (law : start.law crates past (.call request)) (only : ofWorker request = true) :
    ∃ worker, start = .processNext worker := by
  cases start with
  | processNext worker => exact ⟨worker, rfl⟩
  | heartbeat receipt beats =>
    cases law
    cases only
  | enqueue client spec => cases request <;> first | exact Bool.noConfusion only | cases law
  | enqueueToLanes client spec lanes =>
    cases request <;> first | exact Bool.noConfusion only | cases law
  | fanIn client faninId dependencies callbackKind context policy =>
    cases request <;> first | exact Bool.noConfusion only | cases law.1
  | getResult client id =>
    rcases law with same | ⟨same, _⟩
    · cases same
      cases only
    · cases same
  | operate operation =>
    cases law
    cases operation <;> cases only

theorem law_reserves {crates : Crates} {start : Api} {past : List Did}
    {lane : Lane} (law : start.law crates past (.call (.reserve lane))) :
    past = [] ∧ ∃ worker, start = .processNext worker ∧ lane = worker.lane := by
  obtain ⟨worker, rfl⟩ := law_ofWorker law rfl
  exact ⟨law.1, worker, rfl, law.2⟩

variable {thread : Nat}

theorem Runs.reserves (runs : Runs settings starts log shared) {lane : Lane}
    {served : Served (Option Reservation)}
    (member : ⟨thread, .call (.reserve lane), served⟩ ∈ log) :
    ∃ rest worker, own thread log = ⟨.call (.reserve lane), served⟩ :: rest ∧
      starts thread = some (.processNext worker) ∧ lane = worker.lane := by
  obtain ⟨past, future, before, after, start, split, _, _, started, law, _⟩ :=
    runs.moment_of_mem member
  obtain ⟨first, worker, rfl, same⟩ := law_reserves law
  refine ⟨own thread future, worker, ?_, started, same⟩
  rw [split, ← singleton_append, Lib.own_append, Lib.own_append, first, Lib.own_singleton_self]
  rfl

/-- The thread holds this reservation. -/
def Took (log : Log) (thread : Nat) (reservation : Reservation) : Prop :=
  taken (own thread log) = some reservation

theorem Took.unique {other : Reservation}
    (left : Took log thread reservation) (right : Took log thread other) :
    reservation = other :=
  Option.some.inj (left.symm.trans right)

variable {past : Log}

theorem Took.mono {future : Log} (took : Took past thread reservation)
    (split : log = past ++ future) : Took log thread reservation := by
  rw [Took, split, Lib.own_append]
  exact taken_append took _

section Taken

variable (runs : Runs settings starts log shared)

include runs

theorem Runs.took_iff :
    Took log thread reservation ↔ ∃ (lane : Lane) (served : Served (Option Reservation)),
        ⟨thread, .call (.reserve lane), served⟩ ∈ log ∧ served.reply = .ok (some reservation) := by
  constructor
  · intro took
    obtain ⟨lane, served, rest, history, replied⟩ := taken_iff.mp took
    refine ⟨lane, served, Lib.mem_own.mp ?_, replied⟩
    rw [history]
    simp
  · rintro ⟨lane, served, member, replied⟩
    obtain ⟨rest, _, history, _⟩ := runs.reserves member
    exact taken_iff.mpr ⟨lane, served, rest, history, replied⟩

theorem Runs.took_moment (took : Took log thread reservation) :
    ∃ (past future : Log) (lane : Lane) (served : Served (Option Reservation)) (before : Shared),
      log = past ++ ⟨thread, .call (.reserve lane), served⟩ :: future ∧
        Runs settings starts past before ∧
        reservation.receipt = served.mint ∧
        ∃ job ∈ before.inner.jobs, job.envelope = reservation.envelope := by
  obtain ⟨lane, served, member, replied⟩ := runs.took_iff.mp took
  obtain ⟨past, future, before, after, start, split, earlier, _, _, _,
    answered⟩ := runs.moment_of_mem member
  have reply := answered.reply
  rw [replied] at reply
  obtain ⟨minted, job, live, same, _⟩ := Memory.perform_handed settings.config rfl reply
  exact ⟨past, future, lane, served, before, split, earlier, minted, job, live, same⟩

theorem Runs.receipt_unique {left right : Nat} {other : Reservation}
    (inLeft : Took log left reservation) (inRight : Took log right other)
    (same : reservation.receipt = other.receipt) : left = right := by
  have minted : ∀ {thread : Nat} {handed : Reservation}, Took log thread handed →
      handed.receipt ∈ (own thread log).filterMap mintOf := by
    intro thread handed took
    obtain ⟨past, future, lane, served, _, split, _, equal, _⟩ := runs.took_moment took
    refine mem_filterMap.mpr ⟨⟨.call (.reserve lane), served⟩, Lib.mem_own.mpr ?_, ?_⟩
    · rw [split]
      simp
    · rw [equal]
      rfl
  have distinct : ((steps log).filterMap mintOf).Nodup := by
    rw [mints_inputs]
    exact runs.recorded.fresh
  exact Lib.owner_unique distinct (minted inLeft) (same ▸ minted inRight)

/-- The receipt on a live job is held by a thread that took the job as it
is. -/
theorem Runs.held {job : Memory.StoredJob} {receipt : ReservationReceipt}
    (live : job ∈ shared.inner.jobs) (holds : job.receipt = some receipt) :
    ∃ thread, Took log thread ⟨job.envelope, receipt, settings.config.lease⟩ := by
  have recorded := runs.recorded
  rw [recorded.inner] at live
  obtain ⟨input, lane, calls, member⟩ := Memory.run_held settings.config
    (inputs log) ⟨job, live, holds, rfl⟩
  rw [recorded.trace] at member
  obtain ⟨⟨op, answer⟩, performed, found⟩ := mem_filterMap.mp member
  obtain ⟨thread, event⟩ := mem_steps.mp performed
  refine ⟨thread, runs.took_iff.mpr ?_⟩
  cases op with
  | call request =>
    obtain ⟨same, replied⟩ := Prod.mk.inj (Option.some.inj found)
    rw [← same] at calls
    obtain rfl : request = .reserve lane := calls
    obtain ⟨now, mint, reply⟩ := answer
    refine ⟨lane, ⟨now, mint, reply⟩, event, ?_⟩
    cases reply with
    | error failure => cases replied
    | ok handed =>
      exact congrArg Except.ok (Value.reserved.inj (Except.ok.inj replied))
  | _ => cases found

theorem Runs.held_by (took : Took log thread reservation) {job : Memory.StoredJob}
    (live : job ∈ shared.inner.jobs)
    (holds : job.receipt = some reservation.receipt) :
    job.envelope = reservation.envelope := by
  obtain ⟨holder, held⟩ := runs.held live holds
  obtain rfl := runs.receipt_unique took held rfl
  rw [took.unique held]

theorem Runs.card_submitted {card : JobEnvelope × Option String}
    (member : card ∈ shared.inner.cards) :
    ∃ thread job, Submitted log thread job ∧
      Memory.Same job.intoEnvelope card.1 ∧ job.uniqueKey = card.2 := by
  have recorded := runs.recorded
  rw [recorded.inner] at member
  obtain ⟨_, brought, same, key⟩ := Memory.run_cards settings.config (inputs log) member
  obtain ⟨job, listed, rfl⟩ := mem_map.mp brought
  obtain ⟨thread, submitted⟩ := mem_newJobs.mp listed
  exact ⟨thread, job, submitted, same, key⟩

theorem Runs.took_submitted (took : Took log thread reservation) :
    ∃ submitter job, Submitted log submitter job ∧
      Memory.Same job.intoEnvelope reservation.envelope := by
  obtain ⟨past, future, _, _, before, split, earlier, _, job, live, same⟩ := runs.took_moment took
  obtain ⟨submitter, new, submitted, equal, _⟩ :=
    Runs.card_submitted earlier (Memory.mem_cards_job live)
  refine ⟨submitter, new, submitted.mono ?_, same ▸ equal⟩
  intro event member
  rw [split]
  exact mem_append_left _ member

end Taken

/-! ## What became of a job -/

def Live (shared : Shared) (id : JobId) : Prop :=
  ∃ job ∈ shared.inner.jobs, job.id = id

def Dead (shared : Shared) (id : JobId) : Prop :=
  ∃ entry ∈ shared.inner.dead, entry.id = id

/-- The submission of the job was answered with its own id. -/
def Stored (log : Log) (thread : Nat) (job : NewJob) : Prop :=
  StoredBy (own thread log) job

/-- A worker has acked the job, with the broker's consent. -/
def Acked (log : Log) (thread : Nat) (reservation : Reservation) : Prop :=
  Took log thread reservation ∧ ∃ served : Served Unit,
    ⟨thread, .call (.ack reservation.receipt), served⟩ ∈ log ∧ served.reply = .ok ()

/-- The job's dead letter was removed by retention or by a purge. -/
def Dropped (settings : Settings) (log : Log) (id : JobId) : Prop :=
  ∃ entry ∈ Memory.droppedIn settings.config (inputs log), entry.id = id

theorem law_acks {crates : Crates} {start : Api} {past : List Did} {receipt : ReservationReceipt}
    (law : start.law crates past (.call (.ack receipt))) :
    ∃ worker reservation output, start = .processNext worker ∧
      taken past = some reservation ∧ reservation.receipt = receipt ∧
      Concluded worker past reservation output := by
  obtain ⟨worker, rfl⟩ := law_ofWorker law rfl
  obtain ⟨reservation, output, takes, same, _, concluded⟩ := law
  exact ⟨worker, reservation, output, rfl, takes, same, concluded⟩

theorem Acked.mono {future : Log} (acked : Acked past thread reservation)
    (split : log = past ++ future) : Acked log thread reservation := by
  obtain ⟨took, served, member, replied⟩ := acked
  refine ⟨took.mono split, served, ?_, replied⟩
  rw [split]
  exact mem_append_left _ member

theorem Runs.acked_at (runs : Runs settings starts log shared) (took : Took log thread reservation)
    {future : Log} {served : Served Unit}
    (split : log = past ++ ⟨thread, .call (.ack reservation.receipt), served⟩ :: future) :
    ∃ (before after : Shared) (worker : Worker) (output : Blob),
      Runs settings starts past before ∧
      Serves settings past before (.ack reservation.receipt) served after ∧
      starts thread = some (.processNext worker) ∧
      Took past thread reservation ∧
      Concluded worker (own thread past) reservation output := by
  obtain ⟨before, after, start, earlier, _, started, law, answered⟩ := runs.moment split
  obtain ⟨worker, held, output, rfl, takes, _, concluded⟩ := law_acks law
  have same : held = reservation := (Took.mono takes split).unique took
  subst same
  exact ⟨before, after, worker, output, earlier, answered, started, takes, concluded⟩

theorem Runs.acked_moment (runs : Runs settings starts log shared)
    (acked : Acked log thread reservation) :
    ∃ (past future : Log) (served : Served Unit) (before after : Shared)
      (worker : Worker) (output : Blob),
      log = past ++ ⟨thread, .call (.ack reservation.receipt), served⟩ :: future ∧
      served.reply = .ok () ∧
      Runs settings starts past before ∧
      Serves settings past before (.ack reservation.receipt) served after ∧
      starts thread = some (.processNext worker) ∧
      Took past thread reservation ∧
      Concluded worker (own thread past) reservation output := by
  obtain ⟨took, served, member, replied⟩ := acked
  obtain ⟨past, future, split⟩ := append_of_mem member
  obtain ⟨before, after, worker, output, moment⟩ := runs.acked_at took split
  exact ⟨past, future, served, before, after, worker, output, split, replied, moment⟩

theorem Runs.acked_of_mem (runs : Runs settings starts log shared) {envelope : JobEnvelope}
    (member : envelope ∈ Memory.ackedIn settings.config (inputs log)) :
    ∃ thread reservation, Acked log thread reservation ∧ reservation.envelope = envelope := by
  induction runs with
  | nil => cases member
  | @snoc log shared next thread start op answer earlier started lawful
      answered ih =>
      have before : envelope ∈ Memory.ackedIn settings.config (inputs log) →
          ∃ acker reservation, Acked (log ++ [⟨thread, op, answer⟩]) acker
            reservation ∧ reservation.envelope = envelope := by
        intro old
        obtain ⟨acker, reservation, acked, same⟩ := ih old
        exact ⟨acker, reservation, acked.mono rfl, same⟩
      by_cases calls : ∃ request, op = .call request
      · obtain ⟨request, rfl⟩ := calls
        rw [inputs_call, Memory.ackedIn_concat] at member
        rcases mem_append.mp member with old | new
        · exact before old
        · have recorded := Runs.recorded earlier
          rw [← recorded.inner, answered.reply] at new
          cases request with
          | ack receipt =>
            obtain ⟨now, mint, reply⟩ := answer
            cases reply with
            | error failure => cases new
            | ok done =>
              obtain ⟨_, reservation, _, rfl, takes, rfl, _⟩ := law_acks lawful
              obtain ⟨job, live, holds, under⟩ :=
                Memory.perform_resolves settings.config rfl answered.reply
              have found : envelope ∈ shared.inner.underReceipt reservation.receipt := new
              rw [under, mem_singleton] at found
              rw [found]
              refine ⟨thread, reservation, ⟨Took.mono takes rfl,
                ⟨now, mint, .ok done⟩, by simp, rfl⟩, ?_⟩
              exact (Runs.held_by earlier takes live holds).symm
          | _ => cases new
      · rw [inputs_other log thread answer (fun request same => calls ⟨request, same⟩)] at member
        exact before member

theorem inputs_longer (longer : past <+: log) : inputs past <+: inputs log := by
  obtain ⟨more, rfl⟩ := longer
  refine ⟨inputs more, ?_⟩
  simp [inputs, entries, steps]

theorem Runs.mem_of_acked (runs : Runs settings starts log shared)
    (acked : Acked log thread reservation) :
    reservation.envelope ∈ Memory.ackedIn settings.config (inputs log) := by
  obtain ⟨past, future, served, before, after, _, _, split, replied, earlier,
    serves, _, took, _⟩ := runs.acked_moment acked
  have recorded := Runs.recorded earlier
  have longer : past ++ [⟨thread, .call (.ack reservation.receipt),
      served⟩] <+: log := ⟨future, by simp [split]⟩
  refine Memory.ackedIn_mono (inputs_longer longer) ?_
  rw [inputs_call, Memory.ackedIn_concat, ← recorded.inner, serves.reply, replied]
  refine mem_append_right _ ?_
  have accepted := serves.reply
  rw [replied] at accepted
  obtain ⟨job, live, holds, under⟩ := Memory.perform_resolves settings.config rfl accepted
  show reservation.envelope ∈ before.inner.underReceipt reservation.receipt
  rw [under, Runs.held_by earlier took live holds]
  simp

variable {job : NewJob}

theorem answered_iff {request : Call} {served : Served request.Result} :
    (job, job.id) ∈ Memory.answered request (served.reply.map request.value) ↔
      StoredBy [⟨.call request, served⟩] job := by
  obtain ⟨now, mint, reply⟩ := served
  constructor
  · intro member
    cases request with
    | enqueue other =>
      cases reply with
      | error failure => cases member
      | ok id =>
        obtain ⟨rfl, rfl⟩ := Prod.mk.inj (mem_singleton.mp member)
        exact .single (mem_singleton.mpr rfl) rfl
    | enqueueBatch jobs =>
      cases reply with
      | error failure => cases member
      | ok ids =>
        exact .batch (mem_singleton.mpr rfl) rfl member
    | _ => cases member
  · intro stored
    cases stored with
    | single member own =>
      cases mem_singleton.mp member
      cases own
      exact mem_singleton.mpr rfl
    | batch member replied own =>
      cases mem_singleton.mp member
      cases replied
      exact own

theorem storedBy_append {first second : List Did} : StoredBy (first ++ second) job ↔
      StoredBy first job ∨ StoredBy second job := by
  constructor
  · intro stored
    cases stored with
    | single member own =>
      rcases mem_append.mp member with early | late
      · exact Or.inl (.single early own)
      · exact Or.inr (.single late own)
    | batch member replied own =>
      rcases mem_append.mp member with early | late
      · exact Or.inl (.batch early replied own)
      · exact Or.inr (.batch late replied own)
  · rintro (stored | stored)
    · cases stored with
      | single member own => exact .single (mem_append_left _ member) own
      | batch member replied own =>
        exact .batch (mem_append_left _ member) replied own
    · cases stored with
      | single member own =>
        exact .single (mem_append_right _ member) own
      | batch member replied own =>
        exact .batch (mem_append_right _ member) replied own

theorem StoredBy.listed {request : Call} {served : Served request.Result}
    (stored : StoredBy [⟨.call request, served⟩] job) : job ∈ request.newJobs := by
  cases stored with
  | single member own =>
    cases mem_singleton.mp member
    exact mem_singleton.mpr rfl
  | batch member replied own =>
    cases mem_singleton.mp member
    exact (of_mem_zip own).1

theorem Stored.submitted {thread : Nat} {job : NewJob}
    (stored : Stored log thread job) : Submitted log thread job := by
  cases stored with
  | single member own =>
    exact ⟨_, _, Lib.mem_own.mp member, mem_singleton.mpr rfl⟩
  | batch member replied own =>
    exact ⟨_, _, Lib.mem_own.mp member, (of_mem_zip own).1⟩

theorem Stored.mono {future : Log}
    (stored : Stored past thread job) (split : log = past ++ future) :
    Stored log thread job := by
  rw [Stored, split, Lib.own_append]
  exact storedBy_append.mpr (Or.inl stored)

theorem Runs.live_submitted (runs : Runs settings starts log shared)
    {id : JobId} (live : shared.inner.isLive id = true) :
    ∃ thread job, Submitted log thread job ∧ job.id = id := by
  obtain ⟨job, member, same⟩ := any_eq_true.mp live
  obtain ⟨thread, new, submitted, equal, _⟩ := runs.card_submitted (Memory.mem_cards_job member)
  refine ⟨thread, new, submitted, ?_⟩
  rw [← of_decide_eq_true same]
  exact (congrArg JobEnvelope.id equal).symm

theorem stored_concat {actor : Nat} {op : Op} {answer : op.Answer}
    (stored : Stored (log ++ [⟨actor, op, answer⟩]) thread job) :
    Stored log thread job ∨ ∃ (request : Call) (served : Served request.Result),
        (⟨actor, op, answer⟩ : Lib.Event Op Op.Answer) = ⟨thread, .call request, served⟩ ∧
        StoredBy [⟨.call request, served⟩] job := by
  rw [Stored, Lib.own_append] at stored
  rcases storedBy_append.mp stored with old | new
  · exact Or.inl old
  · right
    by_cases here : actor = thread
    · subst here
      rw [Lib.own_singleton_self] at new
      cases op with
      | call request => exact ⟨request, answer, rfl, new⟩
      | _ =>
        cases new with
        | single member => cases mem_singleton.mp member
        | batch member => cases mem_singleton.mp member
    · rw [Lib.own_singleton_of_ne op answer here] at new
      cases new with
      | single member => cases member
      | batch member => cases member

theorem Runs.stores {actor : Nat} {request : Call} {served : Served request.Result} {next : Shared}
    (earlier : Runs settings starts log shared)
    (whole : Runs settings starts (log ++ [⟨actor, .call request, served⟩]) next)
    (serves : Serves settings log shared request served next)
    (new : StoredBy [⟨.call request, served⟩] job) :
    job.intoEnvelope ∈ Memory.storedBy request shared.inner next.inner ∧
      Memory.storedJob job served.now ∈ next.inner.jobs := by
  have recorded := Runs.recorded earlier
  have distinct := whole.ids_nodup
  rw [inputs_call, newJobs_concat, map_append] at distinct
  rw [serves.next]
  refine @Memory.perform_kept settings.config shared.inner recorded.coherent
    ⟨served.now, served.mint, request⟩ (nodup_append.mp distinct).2.1
    job ?_ ?_
  · rw [serves.reply]
    exact answered_iff.mpr new
  · by_contra live
    rw [Bool.not_eq_false] at live
    obtain ⟨submitter, old, submitted, same⟩ := Runs.live_submitted earlier live
    exact whole.new_ids new.listed submitted same

theorem Runs.mem_of_stored (runs : Runs settings starts log shared)
    (stored : Stored log thread job) :
    job.intoEnvelope ∈ Memory.storedIn settings.config (inputs log) := by
  induction runs with
  | nil => cases stored <;> contradiction
  | @snoc log shared next actor start op answer earlier started lawful
      answered ih =>
      rcases stored_concat stored with old | ⟨request, served, same, new⟩
      · have longer : inputs log <+: inputs (log ++ [⟨actor, op, answer⟩]) :=
          inputs_longer (prefix_append _ _)
        exact Memory.storedIn_mono longer (ih old)
      · cases same
        have recorded := Runs.recorded earlier
        have kept := (Runs.stores earlier (.snoc earlier started lawful answered) answered new).1
        rw [inputs_call, Memory.storedIn_concat, ← recorded.inner]
        rw [answered.next] at kept
        exact mem_append_right _ kept

theorem Runs.stored_of_mem (runs : Runs settings starts log shared) {envelope : JobEnvelope}
    (member : envelope ∈ Memory.storedIn settings.config (inputs log)) :
    ∃ thread job, Stored log thread job ∧ envelope = job.intoEnvelope := by
  induction runs with
  | nil => cases member
  | @snoc log shared next actor start op answer earlier started lawful
      answered ih =>
      have before : envelope ∈ Memory.storedIn settings.config (inputs log) →
          ∃ thread job, Stored (log ++ [⟨actor, op, answer⟩]) thread job ∧
            envelope = job.intoEnvelope := by
        intro old
        obtain ⟨thread, job, stored, same⟩ := ih old
        exact ⟨thread, job, stored.mono rfl, same⟩
      by_cases calls : ∃ request, op = .call request
      · obtain ⟨request, rfl⟩ := calls
        have recorded := Runs.recorded earlier
        rw [inputs_call, Memory.storedIn_concat, ← recorded.inner] at member
        rcases mem_append.mp member with old | new
        · exact before old
        · obtain ⟨job, _, same, own⟩ := Memory.perform_stored
            settings.config recorded.coherent (law_unscheduled lawful) envelope new
          rw [answered.reply] at own
          refine ⟨actor, job, ?_, same⟩
          rw [Stored, Lib.own_append, Lib.own_singleton_self]
          exact storedBy_append.mpr (Or.inr (answered_iff.mp own))
      · rw [inputs_other log actor answer (fun request same => calls ⟨request, same⟩)] at member
        exact before member

/-- The conservation law for one id: it was stored at most once. -/
theorem Runs.counts (runs : Runs settings starts log shared) (id : JobId) :
    shared.inner.jobs.countP (fun job => job.id = id) +
        shared.inner.dead.countP (fun entry => entry.id = id) +
        (Memory.ackedIn settings.config (inputs log)).countP (fun envelope => envelope.id = id) +
        (Memory.droppedIn settings.config (inputs log)).countP (fun entry => entry.id = id) =
      (Memory.storedIn settings.config (inputs log)).countP (fun envelope => envelope.id = id) ∧
      (Memory.storedIn settings.config (inputs log)).countP
        (fun envelope => envelope.id = id) ≤ 1 := by
  have recorded := runs.recorded
  refine ⟨?_, ?_⟩
  · rw [recorded.inner]
    exact (Memory.run_counts settings.config (inputs log) id).symm
  · have distinct := (Memory.storedIn_ids settings.config (inputs log)
      recorded.fresh recorded.unscheduled).nodup runs.ids_nodup
    have once := nodup_iff_count_le_one.mp distinct id
    rw [List.count, countP_map] at once
    refine Nat.le_trans (Nat.le_of_eq ?_) once
    congr 1

theorem countP_pos_of_mem {α : Type} {items : List α} {name : α → JobId}
    {item : α} (member : item ∈ items) :
    0 < items.countP fun other => name other = name item :=
  countP_pos_iff.mpr ⟨item, member, by simp⟩

section Became

variable (runs : Runs settings starts log shared)

include runs

theorem Runs.fate (stored : Stored log thread job) :
    Live shared job.id ∨ Dead shared job.id ∨ (∃ acker reservation, Acked log acker reservation ∧
        reservation.envelope.id = job.id) ∨
      Dropped settings log job.id := by
  obtain ⟨balance, _⟩ := runs.counts job.id
  have positive : 0 < (Memory.storedIn settings.config (inputs log)).countP
      (fun envelope => envelope.id = job.id) :=
    countP_pos_of_mem (runs.mem_of_stored stored)
  have found : ∀ {α : Type} {items : List α} {name : α → JobId},
      0 < items.countP (fun item => name item = job.id) →
      ∃ item ∈ items, name item = job.id := by
    intro α items name some
    obtain ⟨item, member, same⟩ := countP_pos_iff.mp some
    exact ⟨item, member, of_decide_eq_true same⟩
  by_cases live : 0 < shared.inner.jobs.countP (fun stored => stored.id = job.id)
  · exact Or.inl (found live)
  by_cases dead : 0 < shared.inner.dead.countP (fun entry => entry.id = job.id)
  · exact Or.inr (Or.inl (found dead))
  by_cases acked : 0 < (Memory.ackedIn settings.config (inputs log)).countP
      (fun envelope => envelope.id = job.id)
  · obtain ⟨envelope, member, same⟩ := found acked
    obtain ⟨acker, reservation, done, rfl⟩ := runs.acked_of_mem member
    exact Or.inr (Or.inr (Or.inl ⟨acker, reservation, done, same⟩))
  · refine Or.inr (Or.inr (Or.inr (found ?_)))
    omega

theorem Runs.present_stored {id : JobId} (present : Live shared id ∨ Dead shared id) :
    ∃ thread job, Stored log thread job ∧ job.id = id := by
  obtain ⟨balance, _⟩ := runs.counts id
  have positive : 0 < (Memory.storedIn settings.config (inputs log)).countP
      (fun envelope => envelope.id = id) := by
    rcases present with ⟨job, member, rfl⟩ | ⟨entry, member, rfl⟩
    · have some : 0 < shared.inner.jobs.countP (fun other =>
          other.id = job.id) := countP_pos_of_mem member
      omega
    · have some : 0 < shared.inner.dead.countP (fun other =>
          other.id = entry.id) := countP_pos_of_mem member
      omega
  obtain ⟨envelope, member, same⟩ := countP_pos_iff.mp positive
  obtain ⟨thread, job, stored, rfl⟩ := runs.stored_of_mem member
  exact ⟨thread, job, stored, of_decide_eq_true same⟩

/-- A live job is not dead-lettered, and nothing of it was dropped. -/
theorem Runs.live_alone {id : JobId} (live : Live shared id) :
    ¬ Dead shared id ∧ ¬ Dropped settings log id := by
  obtain ⟨balance, once⟩ := runs.counts id
  obtain ⟨job, member, rfl⟩ := live
  have some : 0 < shared.inner.jobs.countP (fun other =>
    other.id = job.id) := countP_pos_of_mem member
  refine ⟨?_, ?_⟩
  · rintro ⟨entry, inside, same⟩
    have other : 0 < shared.inner.dead.countP (fun other =>
      other.id = entry.id) := countP_pos_of_mem inside
    rw [same] at other
    omega
  · rintro ⟨entry, inside, same⟩
    have other : 0 < (Memory.droppedIn settings.config (inputs log)).countP
        (fun other => other.id = entry.id) := countP_pos_of_mem inside
    rw [same] at other
    omega

theorem Runs.acked_gone (acked : Acked log thread reservation) :
    ¬ Live shared reservation.envelope.id ∧ ¬ Dead shared reservation.envelope.id ∧
      ¬ Dropped settings log reservation.envelope.id := by
  obtain ⟨balance, once⟩ := runs.counts reservation.envelope.id
  have some : 0 < (Memory.ackedIn settings.config (inputs log)).countP
      (fun envelope => envelope.id = reservation.envelope.id) :=
    countP_pos_of_mem (runs.mem_of_acked acked)
  refine ⟨?_, ?_, ?_⟩
  · rintro ⟨job, member, same⟩
    have other : 0 < shared.inner.jobs.countP (fun other =>
      other.id = job.id) := countP_pos_of_mem member
    rw [same] at other
    omega
  · rintro ⟨entry, member, same⟩
    have other : 0 < shared.inner.dead.countP (fun other =>
      other.id = entry.id) := countP_pos_of_mem member
    rw [same] at other
    omega
  · rintro ⟨entry, member, same⟩
    have other : 0 < (Memory.droppedIn settings.config (inputs log)).countP
        (fun other => other.id = entry.id) := countP_pos_of_mem member
    rw [same] at other
    omega

end Became

end Worklane.Facade
