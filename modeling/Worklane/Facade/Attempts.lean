import Worklane.Facade.Fates

/-!
# Attempts stay below their bound

A worker decides to retry from the attempts it was handed.  Its retry is
accepted only while its receipt is the one on the job, and then the job still
has those attempts.  So the attempts of a job count its accepted retries, over
dead-letterings and requeues, and stay below the bound.
-/

namespace Worklane.Facade

open List
open Lib (own)
open Lib.Program (Performs)

variable {settings : Settings} {starts : Nat → Option Api}
variable {log : Log} {shared : Shared}

/-- How often a job was successfully retried. -/
def retries (settings : Settings) (log : Log) (id : JobId) : Nat :=
  (Memory.retriedIn settings.config (inputs log)).countP fun envelope =>
    envelope.id = id

theorem retries_other (thread : Nat) {op : Op} (answer : op.Answer)
    (other : ∀ request, op ≠ .call request) (id : JobId) :
    retries settings (log ++ [⟨thread, op, answer⟩]) id =
      retries settings log id := by
  rw [retries, inputs_other log thread answer other]
  rfl

variable {thread : Nat}

theorem Recorded.retries_call (recorded : Recorded settings log shared) {request : Call}
    {served : Served request.Result} {next : Shared}
    (serves : Serves settings log shared request served next) (id : JobId) :
    retries settings (log ++ [⟨thread, .call request, served⟩]) id = retries settings log id +
        (Memory.retriedBy shared.inner (⟨served.now, served.mint, request⟩,
            served.reply.map request.value)).countP
          fun envelope => envelope.id = id := by
  rw [retries, inputs_call, Memory.retriedIn_concat, ← recorded.inner, serves.reply, countP_append]
  rfl

theorem mem_contents {inner : Memory.Inner} {envelope : JobEnvelope} : envelope ∈ inner.contents ↔
      ∃ key, (envelope, key) ∈ inner.cards := by
  simp only [Memory.Inner.contents, Memory.Inner.cards, Multiset.mem_add,
    Multiset.mem_coe, mem_map, mem_append]
  constructor
  · rintro (⟨job, member, rfl⟩ | ⟨entry, member, rfl⟩)
    · exact ⟨_, Or.inl ⟨job, member, rfl⟩⟩
    · exact ⟨_, Or.inr ⟨entry, member, rfl⟩⟩
  · rintro ⟨key, ⟨job, member, same⟩ | ⟨entry, member, same⟩⟩
    · exact Or.inl ⟨job, member, (Prod.mk.inj same).1⟩
    · exact Or.inr ⟨entry, member, (Prod.mk.inj same).1⟩

theorem Runs.contents_nodup (runs : Runs settings starts log shared) :
    (shared.inner.contents.map JobEnvelope.id).Nodup := by
  refine Multiset.nodup_iff_count_le_one.mpr ?_
  intro id
  obtain ⟨balance, once⟩ := runs.counts id
  simp only [Memory.Inner.contents, Multiset.map_add, Multiset.map_coe,
    Multiset.count_add, Multiset.coe_count, map_map, List.count,
    countP_map]
  have jobs : shared.inner.jobs.countP ((fun other => other == id) ∘ JobEnvelope.id ∘
        Memory.StoredJob.envelope) =
      shared.inner.jobs.countP fun job => job.id = id := rfl
  have dead : shared.inner.dead.countP ((fun other => other == id) ∘ JobEnvelope.id ∘
        fun entry => entry.letter.envelope) =
      shared.inner.dead.countP fun entry => entry.id = id := rfl
  omega

variable {receipt : ReservationReceipt}

theorem law_retries {crates : Crates} {start : Api} {past : List Did} {delay : Nat}
    (law : start.law crates past (.call (.retry receipt delay))) :
    ∃ reservation, taken past = some reservation ∧ reservation.receipt = receipt ∧
      saturatingSucc reservation.envelope.attempts <
        reservation.envelope.maxAttempts := by
  obtain ⟨worker, rfl⟩ := law_ofWorker law rfl
  obtain ⟨reservation, takes, same, _, below⟩ := law
  exact ⟨reservation, takes, same, below⟩

theorem Runs.submitted_attempts (runs : Runs settings starts log shared) {job : NewJob}
    (submitted : Submitted log thread job) : job.maxAttempts ≤ u32Max := by
  obtain ⟨request, served, member, listed⟩ := submitted
  obtain ⟨past, future, split⟩ := append_of_mem member
  exact (runs.submits split listed).attempts job listed

theorem succ_lt_of_saturating {attempts maxAttempts : Nat} (small : maxAttempts ≤ u32Max)
    (below : saturatingSucc attempts < maxAttempts) :
    saturatingSucc attempts = attempts + 1 ∧ attempts + 1 < maxAttempts := by
  unfold saturatingSucc at below ⊢
  omega

theorem Runs.retry_below (runs : Runs settings starts log shared) {delay : Nat}
    {served : Served Unit}
    (member : ⟨thread, .call (.retry receipt delay), served⟩ ∈ log) :
    ∃ reservation, Took log thread reservation ∧ reservation.receipt = receipt ∧
      reservation.envelope.attempts + 1 <
        reservation.envelope.maxAttempts := by
  obtain ⟨past, future, _, _, _, split, _, _, _, law, _⟩ := runs.moment_of_mem member
  obtain ⟨reservation, takes, same, below⟩ := law_retries law
  have took : Took log thread reservation := Took.mono takes split
  obtain ⟨submitter, job, submitted, equal⟩ := runs.took_submitted took
  have small : reservation.envelope.maxAttempts ≤ u32Max := by
    rw [congrArg JobEnvelope.maxAttempts equal]
    exact runs.submitted_attempts submitted
  exact ⟨reservation, took, same, (succ_lt_of_saturating small below).2⟩

/-! ## The count -/

/-- Attempts count retries, and retries stay below the bound. -/
structure Counted (settings : Settings) (log : Log) (shared : Shared) : Prop where
  attempts : ∀ envelope ∈ shared.inner.contents,
    envelope.attempts = retries settings log envelope.id
  known : ∀ envelope ∈ Memory.retriedIn settings.config (inputs log),
    ∃ thread job, Submitted log thread job ∧ job.id = envelope.id
  bounded : ∀ thread job, Submitted log thread job →
    retries settings log job.id ≤ max job.maxAttempts 1 - 1

theorem Counted.retries_zero (counted : Counted settings log shared)
    {id : JobId} (new : ∀ thread job, Submitted log thread job →
      job.id ≠ id) : retries settings log id = 0 := by
  refine countP_eq_zero.mpr ?_
  intro envelope member same
  obtain ⟨thread, job, submitted, equal⟩ := counted.known envelope member
  exact new thread job submitted (equal.trans (of_decide_eq_true same))

theorem Counted.other (counted : Counted settings log shared) {op : Op} {answer : op.Answer}
    {next : Shared} (other : ∀ request, op ≠ .call request)
    (answered : answers settings log shared op answer next) :
    Counted settings (log ++ [⟨thread, op, answer⟩]) next where
  attempts := by
    intro envelope member
    rw [answers_inner other answered] at member
    rw [retries_other thread answer other]
    exact counted.attempts envelope member
  known := by
    intro envelope member
    rw [inputs_other log thread answer other] at member
    obtain ⟨submitter, job, submitted, same⟩ := counted.known envelope member
    exact ⟨submitter, job, submitted.mono fun event inside =>
      mem_append_left _ inside, same⟩
  bounded := by
    intro submitter job submitted
    rw [retries_other thread answer other]
    rcases submitted_concat submitted with old | ⟨request, calls, _⟩
    · exact counted.bounded submitter job old
    · exact absurd calls (other request)

section Calls

variable {thread : Nat} {request : Call} {served : Served request.Result}
variable {next : Shared}

theorem Counted.bounded_call (counted : Counted settings log shared) (whole : Runs settings starts
      (log ++ [⟨thread, .call request, served⟩]) next)
    (old : ∀ submitter job, Submitted log submitter job →
      retries settings (log ++ [⟨thread, .call request, served⟩]) job.id ≤
        max job.maxAttempts 1 - 1)
    (unretried : request.newJobs ≠ [] → ∀ id,
      retries settings (log ++ [⟨thread, .call request, served⟩]) id = retries settings log id) :
    ∀ submitter job, Submitted (log ++ [⟨thread, .call request, served⟩]) submitter job →
      retries settings (log ++ [⟨thread, .call request, served⟩]) job.id ≤
        max job.maxAttempts 1 - 1 := by
  intro submitter job submitted
  rcases submitted_concat submitted with early | ⟨_, same, listed⟩
  · exact old submitter job early
  · cases same
    rw [unretried (ne_nil_of_mem listed), counted.retries_zero
      (fun _ _ earlier => whole.new_ids listed earlier)]
    exact Nat.zero_le _

theorem Counted.quiet (counted : Counted settings log shared)
    (earlier : Runs settings starts log shared)
    (whole : Runs settings starts (log ++ [⟨thread, .call request, served⟩]) next)
    (unscheduled : Memory.schedules request = false)
    (serves : Serves settings log shared request served next)
    (nothing : Memory.retriedBy shared.inner (⟨served.now, served.mint, request⟩,
        served.reply.map request.value) = []) :
    Counted settings (log ++ [⟨thread, .call request, served⟩]) next := by
  have recorded := Runs.recorded earlier
  have same : ∀ id, retries settings (log ++ [⟨thread, .call request, served⟩]) id =
        retries settings log id := by
    intro id
    rw [recorded.retries_call serves, nothing]
    rfl
  refine ⟨?_, ?_, ?_⟩
  · intro envelope member
    rw [same]
    have bound := Memory.perform_contents settings.config
      ⟨served.now, served.mint, request⟩ shared.inner
    rw [serves.reply, nothing] at bound
    have inside := Multiset.mem_of_le bound (Multiset.mem_add.mpr (Or.inl (serves.next ▸ member)))
    simp only [map_nil, Multiset.coe_nil, add_zero, Multiset.mem_add, Multiset.mem_coe] at inside
    rcases inside with old | new
    · exact counted.attempts envelope old
    · obtain ⟨job, listed, rfl, _⟩ := @Memory.perform_stored settings.config
        _ recorded.coherent ⟨served.now, served.mint, request⟩ unscheduled envelope new
      exact (counted.retries_zero fun _ _ submitted => whole.new_ids listed submitted).symm
  · intro envelope member
    rw [inputs_call, Memory.retriedIn_concat, ← recorded.inner,
      serves.reply, nothing, append_nil] at member
    obtain ⟨submitter, job, submitted, equal⟩ := counted.known envelope member
    exact ⟨submitter, job, submitted.mono fun event inside =>
      mem_append_left _ inside, equal⟩
  · refine counted.bounded_call whole ?_ fun _ => same
    intro submitter job submitted
    rw [same]
    exact counted.bounded submitter job submitted

end Calls

theorem Counted.retried (counted : Counted settings log shared)
    (earlier : Runs settings starts log shared) {delay : Nat} {served : Served Unit}
    {next : Shared} {start : Api}
    (law : start.law settings.crates (own thread log) (.call (.retry receipt delay)))
    (whole : Runs settings starts (log ++ [⟨thread, .call (.retry receipt delay), served⟩]) next)
    (serves : Serves settings log shared (.retry receipt delay) served next)
    (accepted : served.reply = .ok ()) :
    Counted settings (log ++ [⟨thread, .call (.retry receipt delay), served⟩]) next := by
  have recorded := Runs.recorded earlier
  have reply := serves.reply
  rw [accepted] at reply
  obtain ⟨job, live, holds, under⟩ := Memory.perform_resolves settings.config rfl reply
  obtain ⟨reservation, takes, rfl, below⟩ := law_retries law
  have handed := Runs.held_by earlier takes live holds
  obtain ⟨submitter, new, submitted, origin, _⟩ :=
    Runs.card_submitted earlier (Memory.mem_cards_job live)
  have named : job.envelope.id = new.id := congrArg JobEnvelope.id origin
  have limit : job.envelope.maxAttempts = new.maxAttempts := congrArg JobEnvelope.maxAttempts origin
  rw [← handed] at below
  obtain ⟨exact', room⟩ := succ_lt_of_saturating
    (limit ▸ Runs.submitted_attempts earlier submitted) below
  have retried : Memory.retriedBy shared.inner
      (⟨served.now, served.mint, .retry reservation.receipt delay⟩,
        served.reply.map (Call.retry reservation.receipt delay).value) =
      [job.envelope] := by
    rw [accepted]
    exact under
  have inside : job.envelope ∈ shared.inner.contents :=
    mem_contents.mpr ⟨_, Memory.mem_cards_job live⟩
  have count := counted.attempts _ inside
  have counts : ∀ id, retries settings (log ++
      [⟨thread, .call (.retry reservation.receipt delay), served⟩]) id =
      retries settings log id + if job.envelope.id = id then 1 else 0 := by
    intro id
    rw [recorded.retries_call serves, retried, countP_singleton]
    simp
  refine ⟨?_, ?_, ?_⟩
  · -- The one envelope is replaced by its successor.
    obtain ⟨others, split⟩ := Multiset.exists_cons_of_mem inside
    have distinct := Runs.contents_nodup earlier
    rw [split, Multiset.map_cons, Multiset.nodup_cons] at distinct
    have bound := Memory.perform_contents settings.config
      ⟨served.now, served.mint, .retry reservation.receipt delay⟩
      shared.inner
    rw [serves.reply, retried, split] at bound
    have left : (Memory.perform Memory.releaseLease settings.config
        shared.inner ⟨served.now, served.mint, .retry reservation.receipt delay⟩).inner.contents ≤
        {job.envelope.bump} + others := by
      have whole : {job.envelope.bump} + others + {job.envelope} =
          job.envelope ::ₘ others + 0 + {job.envelope.bump} := by
        rw [← Multiset.singleton_add]
        abel
      exact le_of_add_le_add_right (bound.trans_eq whole.symm)
    intro envelope member
    rw [counts]
    rcases Multiset.mem_add.mp (Multiset.mem_of_le left (serves.next ▸ member)) with here | there
    · have own : job.envelope.id = job.envelope.bump.id := rfl
      rw [Multiset.mem_singleton.mp here, if_pos own]
      show saturatingSucc job.envelope.attempts = retries settings log job.envelope.id + 1
      omega
    · rw [if_neg, Nat.add_zero]
      · refine counted.attempts envelope ?_
        rw [split]
        exact Multiset.mem_cons_of_mem there
      · intro same
        exact distinct.1 (Multiset.mem_map.mpr ⟨envelope, there, same.symm⟩)
  · intro envelope member
    rw [inputs_call, Memory.retriedIn_concat, ← recorded.inner, serves.reply, retried] at member
    have more : ∀ event ∈ log, event ∈ log ++
        [⟨thread, .call (.retry reservation.receipt delay), served⟩] :=
      fun event inside => mem_append_left _ inside
    rcases mem_append.mp member with old | last
    · obtain ⟨submitter, job, submitted, equal⟩ := counted.known envelope old
      exact ⟨submitter, job, submitted.mono more, equal⟩
    · rw [mem_singleton.mp last]
      exact ⟨submitter, new, submitted.mono more, named.symm⟩
  · refine counted.bounded_call whole ?_ fun some => absurd rfl some
    intro other old known
    rw [counts]
    split
    · next same =>
      obtain ⟨_, rfl⟩ := Runs.job_unique earlier submitted known (named.symm.trans same)
      rw [← same, ← count]
      omega
    · exact counted.bounded other old known

/-- A retry the broker accepted. -/
def AcceptedRetry : Did → Prop
  | ⟨.call (.retry _ _), served⟩ =>
    (show Served Unit from served).reply = .ok ()
  | _ => False

theorem retriedBy_nil {inner : Memory.Inner} {request : Call} {served : Served request.Result}
    (other : ¬ AcceptedRetry ⟨.call request, served⟩) :
    Memory.retriedBy inner (⟨served.now, served.mint, request⟩,
      served.reply.map request.value) = [] := by
  obtain ⟨now, mint, reply⟩ := served
  cases request with
  | retry receipt delay =>
    cases reply with
    | error failure => rfl
    | ok done => exact absurd rfl other
  | _ => rfl

theorem Runs.counted (runs : Runs settings starts log shared) :
    Counted settings log shared := by
  induction runs with
  | nil =>
    refine ⟨?_, ?_, ?_⟩
    · rintro envelope member
      cases (mem_contents.mp member).choose_spec
    · rintro envelope ⟨⟩
    · rintro thread job ⟨_, _, ⟨⟩, _⟩
  | @snoc log shared next thread start op answer earlier started lawful
      answered ih =>
      have whole : Runs settings starts (log ++ [⟨thread, op, answer⟩])
        next := .snoc earlier started lawful answered
      by_cases calls : ∃ request, op = .call request
      · obtain ⟨request, rfl⟩ := calls
        by_cases retried : AcceptedRetry ⟨.call request, answer⟩
        · cases request with
          | retry receipt delay =>
            exact ih.retried earlier lawful whole answered retried
          | _ => exact retried.elim
        · exact ih.quiet earlier whole (law_unscheduled lawful) answered (retriedBy_nil retried)
      · exact ih.other (fun request same => calls ⟨request, same⟩) answered

theorem Runs.retries_step {past : Log} {event : Lib.Event Op Op.Answer}
    (runs : Runs settings starts (past ++ [event]) shared)
    (other : ¬ AcceptedRetry event.step) (id : JobId) :
    retries settings (past ++ [event]) id = retries settings past id := by
  have split : past ++ [event] = past ++ event :: [] := rfl
  obtain ⟨before, after, _, earlier, _, _, _, answered⟩ := runs.moment split
  obtain ⟨thread, op, answer⟩ := event
  by_cases calls : ∃ request, op = .call request
  · obtain ⟨request, rfl⟩ := calls
    rw [(Runs.recorded earlier).retries_call answered, retriedBy_nil other]
    rfl
  · exact retries_other thread answer (fun request same => calls ⟨request, same⟩) id

/-- The envelopes of the broker after a log. -/
def envelopesAfter (settings : Settings) (log : Log) : Multiset JobEnvelope :=
  ((Memory.machine settings.config).run (inputs log)).contents

/-- The attempts of every reachable state are bounded, however workers,
expired leases, stale resolutions, deferrals, dead-letterings and requeues
are interleaved.  A worker retries only below the bound, a job is retried
less often than its bound says, and nothing but an accepted retry changes the
attempts of a job. -/
theorem attempts_bounded {pool : Pool} (reachable : (system settings).Reachable pool) :
    (∀ job ∈ pool.shared.inner.jobs, job.envelope.attempts ≤ max job.envelope.maxAttempts 1 - 1) ∧
    (∀ (thread : Nat) (receipt : ReservationReceipt) (delay : Nat) (served : Served Unit),
      ⟨thread, .call (.retry receipt delay), served⟩ ∈ pool.log →
      ∃ reservation, Took pool.log thread reservation ∧ reservation.receipt = receipt ∧
        reservation.envelope.attempts + 1 < reservation.envelope.maxAttempts) ∧
    (∀ thread job, Submitted pool.log thread job →
      retries settings pool.log job.id ≤ job.maxAttempts - 1) ∧
    ∀ past event future, pool.log = past ++ event :: future → ¬ AcceptedRetry event.step →
      ∀ old ∈ envelopesAfter settings past, ∀ new ∈ envelopesAfter settings (past ++ [event]),
          new.id = old.id → new.attempts = old.attempts := by
  have runs := runs_of_reachable reachable
  have counted := Runs.counted runs
  refine ⟨?_, ?_, ?_, ?_⟩
  · intro job live
    have member := Memory.mem_cards_job live
    obtain ⟨thread, new, submitted, same, _⟩ := Runs.card_submitted runs member
    have bound := counted.bounded thread new submitted
    have count := counted.attempts job.envelope (mem_contents.mpr ⟨_, member⟩)
    have named : job.envelope.id = new.id := congrArg JobEnvelope.id same
    have limit : job.envelope.maxAttempts = new.maxAttempts := congrArg JobEnvelope.maxAttempts same
    rw [count, named, limit]
    exact bound
  · intro thread receipt delay served member
    exact Runs.retry_below runs member
  · intro thread job submitted
    have bound := counted.bounded thread job submitted
    omega
  · intro past event future split other old before new after same
    obtain ⟨first, second, _, earlier, later, _⟩ := runs.moment split
    rw [envelopesAfter, ← (Runs.recorded earlier).inner] at before
    rw [envelopesAfter, ← (Runs.recorded later).inner] at after
    rw [(Runs.counted later).attempts new after, (Runs.counted earlier).attempts old before, same]
    exact Runs.retries_step later other old.id

section Cases

def flakyClient : Client where
  batches := true
  resultStore := false
  payloadStore := false
  offloadThreshold := 0
  defaultMaxAttempts := 3
  lane := ⟨"a"⟩
  priority := 0
  laneRegistry := none

def flakySpec : JobSpec where
  kind := "kind"
  payload := ⟨[49], referenceKey_digit⟩
  lane := none
  delay := 0
  uniqueKey := none
  priority := none

def flakyWorker : Worker where
  lane := ⟨"a"⟩
  resultStore := false
  payloadStore := false
  circuitBreaker := false
  handlerTimeout := none
  leaseKeepalive := false
  handlers := ["kind"]
  watcher := none
  retryDelay := fun _ _ => 0

def flakyJob : NewJob := flakyClient.newJob "kind" flakySpec.payload ⟨⟨1⟩⟩

def flakyReservation : Reservation := ⟨flakyJob.intoEnvelope, ⟨⟨7⟩⟩, 10⟩

def flakyStarts : List Api :=
  [.enqueue flakyClient flakySpec, .processNext flakyWorker]

/-- A job is enqueued, and its handler fails once. -/
def flakyLog : Log :=
  [⟨0, .newId, ⟨⟨1⟩⟩⟩, ⟨0, .call (.enqueue flakyJob), (⟨5, ⟨⟨0⟩⟩, .ok ⟨⟨1⟩⟩⟩ : Served JobId)⟩,
    ⟨1, .call (.reserve ⟨"a"⟩), (⟨6, ⟨⟨7⟩⟩, .ok (some flakyReservation)⟩ :
        Served (Option Reservation))⟩,
    ⟨1, .handle flakyJob.intoEnvelope [49], .error (.handler "down")⟩,
    ⟨1, .call (.retry ⟨⟨7⟩⟩ 0), (⟨7, ⟨⟨0⟩⟩, .ok ()⟩ : Served Unit)⟩]

theorem flakyLog_performs (index : Nat) (start : Api) (found : flakyStarts[index]? = some start) :
    ∃ rest, Performs (start.body plainSettings.crates) (own index flakyLog) rest := by
  rcases index with _ | _ | index
  · cases found
    exact ⟨_, .step (.step (.refl _))⟩
  · cases found
    exact ⟨_, .step (.step (.step (.refl _)))⟩
  · cases found

theorem attempts_bounded_flakyLog :
    ∃ pool, (system plainSettings).Reachable pool ∧ pool.log = flakyLog ∧
      pool.shared.inner.jobs.map (fun job => job.envelope.attempts) = [1] ∧
      ∀ job ∈ pool.shared.inner.jobs,
        job.envelope.attempts ≤ max job.envelope.maxAttempts 1 - 1 := by
  obtain ⟨pool, replays, holds⟩ := @replay_reachable plainSettings flakyLog
    flakyStarts (fun shared => decide (shared.inner.jobs.map
      (fun job => job.envelope.attempts) = [1]))
    (by decide +kernel) flakyLog_performs (by decide)
  exact ⟨pool, replays.reachable, replays.sameLog, of_decide_eq_true holds,
    (attempts_bounded replays.reachable).1⟩

end Cases

end Worklane.Facade
