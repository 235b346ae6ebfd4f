import Worklane.Facade.Fates
import Worklane.Memory.Deliveries

/-!
# Jobs an open circuit defers

A deferred job keeps its attempts, but every reservation counts as a delivery,
deferred or not.  With a delivery bound, an outage that outlasts the bound
dead-letters the job.
-/

namespace Worklane.Facade

open Lib (own)
open Lib.Program (Performs)

variable {settings : Settings} {starts : Nat → Option Api}
variable {log : Log} {shared : Shared}

/-! ## Deliveries -/

def deliveredOf : Did → Option JobId
  | ⟨.call (.reserve _), served⟩ =>
    match (show Served (Option Reservation) from served).reply with
    | .ok (some reservation) => some reservation.envelope.id
    | _ => none
  | _ => none

/-- How often a job was handed out. -/
def deliveries (log : Log) (id : JobId) : Nat :=
  ((steps log).filterMap deliveredOf).count id

theorem deliveries_concat (log : Log) (event : Lib.Event Op Op.Answer) (id : JobId) :
    deliveries (log ++ [event]) id =
      deliveries log id + (deliveredOf event.step).toList.count id := by
  rw [deliveries, steps_concat, List.filterMap_append, List.count_append]
  cases found : deliveredOf event.step <;> simp [deliveries, found]

theorem deliveries_le_concat (log : Log) (event : Lib.Event Op Op.Answer)
    (id : JobId) : deliveries log id ≤ deliveries (log ++ [event]) id := by
  rw [deliveries_concat]
  exact Nat.le_add_right _ _

/-- Every worker that was handed the job has only asked the breaker, which
rejected it, and deferred it. -/
def Deferred (log : Log) (id : JobId) : Prop :=
  ∀ thread reservation, Took log thread reservation →
    reservation.envelope.id = id → ∀ step ∈ own thread log,
      (∃ lane, step.1 = .call (.reserve lane)) ∨
      (∃ kind delay, step = ⟨.admitKind kind, some delay⟩) ∨
      ∃ delay, step.1 = .call (.defer reservation.receipt delay)

theorem Deferred.past {past future : Log} {id : JobId}
    (deferred : Deferred log id) (split : log = past ++ future) :
    Deferred past id := by
  intro thread reservation took same step member
  exact deferred thread reservation (took.mono split) same step (own_subset split member)

/-- The delivery bound is off, or no `reserve` of the job's lane came after the
last delivery it allows. -/
def Within (settings : Settings) (log : Log) (job : NewJob) : Prop :=
  ∀ max, settings.config.maxDeliveries = some max → u32Max ≤ max ∨
    ∀ past future thread served,
      log = past ++ ⟨thread, .call (.reserve job.lane), served⟩ :: future →
        deliveries past job.id < max

theorem Within.past {past future : Log} {job : NewJob} (within : Within settings log job)
    (split : log = past ++ future) : Within settings past job := by
  intro max bound
  refine (within max bound).imp_right ?_
  intro below earlier later thread served same
  exact below earlier (later ++ future) thread served (by simp [split, same])

/-! ## The job stays -/

theorem law_resolves {crates : Crates} {start : Api} {past : List Did}
    {request : Call} {receipt : ReservationReceipt}
    (law : start.law crates past (.call request)) (calls : Memory.Concludes request receipt) :
    ∃ reservation, taken past = some reservation ∧ reservation.receipt = receipt := by
  rcases calls with rfl | ⟨_, rfl⟩ | ⟨_, rfl⟩
  · obtain ⟨worker, rfl⟩ := law_ofWorker law rfl
    obtain ⟨reservation, _, takes, same, _⟩ := law
    exact ⟨reservation, takes, same⟩
  · obtain ⟨worker, rfl⟩ := law_ofWorker law rfl
    obtain ⟨reservation, takes, same, _⟩ := law
    exact ⟨reservation, takes, same⟩
  · obtain ⟨worker, rfl⟩ := law_ofWorker law rfl
    obtain ⟨reservation, takes, same, _⟩ := law
    exact ⟨reservation, takes, same⟩

/-- A deferred job is not settled by anyone. -/
theorem Deferred.not_settled {thread : Nat} {start : Api} {request : Call}
    {served : Served request.Result} {stored : Memory.StoredJob}
    (deferred : Deferred (log ++ [⟨thread, .call request, served⟩]) stored.id)
    (earlier : Runs settings starts log shared)
    (law : start.law settings.crates (own thread log) (.call request))
    (live : stored ∈ shared.inner.jobs) {outcome : Memory.Outcome} :
    ¬ Memory.Settles ⟨served.now, served.mint, request⟩ outcome stored := by
  rintro ⟨receipt, value, holds, _, calls⟩
  obtain ⟨holder, held⟩ := Runs.held earlier live holds
  obtain ⟨reservation, takes, same⟩ := law_resolves law calls
  obtain rfl := Runs.receipt_unique earlier held takes same.symm
  have step : (⟨.call request, served⟩ : Did) ∈
      own holder (log ++ [⟨holder, .call request, served⟩]) :=
    Lib.mem_own.mpr (by simp)
  have calls : Memory.Concludes request receipt := calls
  rcases deferred holder _ (held.mono rfl) rfl _ step with
    ⟨_, other⟩ | ⟨_, _, other⟩ | ⟨_, other⟩
  · rcases calls with rfl | ⟨_, rfl⟩ | ⟨_, rfl⟩ <;> cases other
  · cases other
  · rcases calls with rfl | ⟨_, rfl⟩ | ⟨_, rfl⟩ <;> cases other

theorem Within.not_exhausted {thread : Nat} {request : Call} {served : Served request.Result}
    {stored : Memory.StoredJob} {job : NewJob}
    (within : Within settings (log ++ [⟨thread, .call request, served⟩]) job)
    (envelope : stored.envelope = job.intoEnvelope)
    (counted : stored.deliveries ≤ deliveries log job.id) :
    ¬ Memory.Exhausted settings.config ⟨served.now, served.mint, request⟩ stored := by
  rintro ⟨max, calls, bound, exceeded⟩
  rw [envelope] at calls
  obtain rfl : request = .reserve job.lane := calls
  unfold Memory.overDelivered saturatingSucc at exceeded
  rcases within max bound with unlimited | below
  · omega
  · have few := below log [] thread served rfl
    omega

theorem deliveredOf_handsOut {config : Config} {request : Call}
    {served : Served request.Result} {envelope : JobEnvelope}
    (hands : Memory.HandsOut config ⟨served.now, served.mint, request⟩
      (served.reply.map request.value) envelope) :
    deliveredOf ⟨.call request, served⟩ = some envelope.id := by
  obtain ⟨⟨lane, calls⟩, replied⟩ := hands
  obtain rfl : request = .reserve lane := calls
  obtain ⟨now, mint, reply⟩ := served
  cases reply with
  | error failure => cases replied
  | ok handed =>
    have same : handed = some ⟨envelope, mint, config.lease⟩ :=
      Value.reserved.inj (Except.ok.inj replied)
    rw [same]
    rfl

theorem Runs.deferred_kept (runs : Runs settings starts log shared)
    {thread : Nat} {job : NewJob} (stored : Stored log thread job)
    (deferred : Deferred log job.id) (within : Within settings log job) :
    ∃ kept ∈ shared.inner.jobs, kept.envelope = job.intoEnvelope ∧
      kept.deliveries ≤ deliveries log job.id := by
  induction runs with
  | nil => cases stored <;> contradiction
  | @snoc log shared next actor start op answer earlier started lawful
      answered ih =>
      have whole : Runs settings starts (log ++ [⟨actor, op, answer⟩])
        next := .snoc earlier started lawful answered
      have more := deliveries_le_concat log ⟨actor, op, answer⟩ job.id
      rcases stored_concat stored with old | ⟨request, served, same, new⟩
      · obtain ⟨kept, live, envelope, counted⟩ := ih old (deferred.past rfl) (within.past rfl)
        by_cases calls : ∃ request, op = .call request
        · obtain ⟨request, rfl⟩ := calls
          have named : kept.id = job.id := congrArg JobEnvelope.id envelope
          have ids := (Runs.recorded earlier).coherent.ids
          cases @Memory.perform_fate settings.config shared.inner
            ⟨answer.now, answer.mint, request⟩ kept ids live with
          | kept inside same count _ =>
            rw [answered.next]
            exact ⟨_, inside, same.trans envelope, by omega⟩
          | handed inside same count hands _ =>
            rw [answered.next]
            refine ⟨_, inside, same.trans envelope, ?_⟩
            rw [answered.reply] at hands
            rw [deliveries_concat, count]
            show saturatingSucc kept.deliveries ≤ deliveries log job.id +
              (deliveredOf ⟨.call request, answer⟩).toList.count job.id
            rw [deliveredOf_handsOut hands]
            have here : kept.envelope.id = job.id := named
            simp only [here, Option.toList_some, List.count_singleton_self]
            unfold saturatingSucc
            omega
          | settled settles _ _ =>
            rw [← named] at deferred
            exact absurd settles (deferred.not_settled earlier lawful live)
          | swept exhausted _ _ => exact absurd exhausted (within.not_exhausted envelope counted)
        · have other : ∀ request, op ≠ .call request := fun request same => calls ⟨request, same⟩
          rw [answers_inner other answered]
          exact ⟨kept, live, envelope, Nat.le_trans counted more⟩
      · cases same
        exact ⟨_, (Runs.stores earlier whole answered new).2, rfl, Nat.zero_le _⟩

/-- A job that the breaker defers at every delivery stays live with the
attempts it was enqueued with, and no dead letter of it is ever written, as
long as the delivery bound is off or nobody asks for a job of the lane after the
last delivery it allows. -/
theorem deferred_stays_live {pool : Pool}
    (reachable : (system settings).Reachable pool) {thread : Nat}
    {job : NewJob} (stored : Stored pool.log thread job)
    (deferred : Deferred pool.log job.id)
    (within : Within settings pool.log job) :
    (∃ kept ∈ pool.shared.inner.jobs, kept.envelope = job.intoEnvelope) ∧
      ¬ Dead pool.shared job.id ∧ ¬ Dropped settings pool.log job.id := by
  have runs := runs_of_reachable reachable
  obtain ⟨kept, live, same, _⟩ := Runs.deferred_kept runs stored deferred within
  refine ⟨⟨kept, live, same⟩, ?_⟩
  exact Runs.live_alone runs ⟨kept, live, congrArg JobEnvelope.id same⟩

section Cases

def outageClient : Client where
  batches := true
  resultStore := false
  payloadStore := false
  offloadThreshold := 0
  defaultMaxAttempts := 3
  lane := ⟨"a"⟩
  priority := 0
  laneRegistry := none

def outageSpec : JobSpec where
  kind := "kind"
  payload := ⟨[49], referenceKey_digit⟩
  lane := none
  delay := 0
  uniqueKey := none
  priority := none

def outageWorker : Worker where
  lane := ⟨"a"⟩
  resultStore := false
  payloadStore := false
  circuitBreaker := true
  handlerTimeout := none
  leaseKeepalive := false
  handlers := ["kind"]
  watcher := none
  retryDelay := fun _ _ => 0

def outageJob : NewJob :=
  outageClient.newJob "kind" outageSpec.payload ⟨⟨1⟩⟩

def outageReservation : Reservation :=
  ⟨outageJob.intoEnvelope, ⟨⟨7⟩⟩, 10⟩

/-- Jobs are handed out at most so many times. -/
def boundedSettings (max : Nat) : Settings where
  config := ⟨10, ⟨none, none⟩, some max⟩
  crates := plainCrates
  evicts := false

def outageStarts : List Api :=
  [.enqueue outageClient outageSpec, .processNext outageWorker, .processNext outageWorker]

/-- A job is enqueued, handed to a worker whose circuit is open, and put back
for one tick. -/
def outageLog : Log :=
  [⟨0, .newId, ⟨⟨1⟩⟩⟩, ⟨0, .call (.enqueue outageJob), (⟨5, ⟨⟨0⟩⟩, .ok ⟨⟨1⟩⟩⟩ : Served JobId)⟩,
    ⟨1, .call (.reserve ⟨"a"⟩), (⟨6, ⟨⟨7⟩⟩, .ok (some outageReservation)⟩ :
        Served (Option Reservation))⟩,
    ⟨1, .admitKind "kind", some 1⟩,
    ⟨1, .call (.defer ⟨⟨7⟩⟩ 1), (⟨7, ⟨⟨0⟩⟩, .ok ()⟩ : Served Unit)⟩]

/-- Another worker asks for a job, still within the lease that was given
back. -/
def outageEnd : Log :=
  outageLog ++ [⟨2, .call (.reserve ⟨"a"⟩), (⟨8, ⟨⟨9⟩⟩, .ok none⟩ : Served (Option Reservation))⟩]

theorem outageLog_performs (index : Nat) (start : Api) (found : outageStarts[index]? = some start) :
    ∃ rest, Performs (start.body plainCrates) (own index outageLog) rest := by
  rcases index with _ | _ | _ | index
  · cases found
    exact ⟨_, .step (.step (.refl _))⟩
  · cases found
    exact ⟨_, .step (.step (.step (.refl _)))⟩
  · cases found
    exact ⟨_, .refl _⟩
  · cases found

theorem outageEnd_performs (index : Nat) (start : Api) (found : outageStarts[index]? = some start) :
    ∃ rest, Performs (start.body plainCrates) (own index outageEnd) rest := by
  rcases index with _ | _ | _ | index
  · cases found
    exact ⟨_, .step (.step (.refl _))⟩
  · cases found
    exact ⟨_, .step (.step (.step (.refl _)))⟩
  · cases found
    exact ⟨_, .step (.refl _)⟩
  · cases found

theorem outageJob_stored : Stored outageLog 0 outageJob :=
  .single (.tail _ (.head _)) rfl

theorem outageEnd_deferred : Deferred outageEnd outageJob.id := by
  intro thread reservation took same step member
  rcases thread with _ | _ | _ | thread
  · cases took
  · cases took
    have member : step ∈ own 1 outageLog := member
    rcases member with _ | ⟨_, _ | ⟨_, _ | ⟨_, nothing⟩⟩⟩
    · exact .inl ⟨_, rfl⟩
    · exact .inr (.inl ⟨_, _, rfl⟩)
    · exact .inr (.inr ⟨_, rfl⟩)
    · cases nothing
  · cases took
  · cases took

theorem outageLog_within (settings : Settings) (bound : settings.config.maxDeliveries = some 1) :
    Within settings outageLog outageJob := by
  intro max bounded
  cases bound.symm.trans bounded
  refine Or.inr ?_
  intro past future thread served split
  unfold outageLog at split
  rcases past with _ | ⟨_, _ | ⟨_, _ | ⟨_, _ | ⟨_, _ | ⟨_, past⟩⟩⟩⟩⟩
  · cases split
  · cases split
  · cases split
    decide
  · cases split
  · cases split
  · have sizes := congrArg List.length split
    simp only [List.length_append, List.length_cons, List.length_nil] at sizes
    omega

theorem deferred_stays_live_outageLog : ∃ pool, (system (boundedSettings 1)).Reachable pool ∧
      pool.log = outageLog ∧ deliveries pool.log outageJob.id = 1 ∧
      (∃ kept ∈ pool.shared.inner.jobs, kept.envelope = outageJob.intoEnvelope) ∧
      ¬ Dead pool.shared outageJob.id := by
  obtain ⟨pool, replays, _⟩ := @replay_reachable (boundedSettings 1)
    outageLog outageStarts (fun _ => true) (by decide +kernel)
    outageLog_performs (by decide)
  have same := replays.sameLog
  have once : deliveries outageLog outageJob.id = 1 := by decide
  have stays := deferred_stays_live replays.reachable (same ▸ outageJob_stored)
    (same ▸ outageEnd_deferred.past rfl) (same ▸ outageLog_within (boundedSettings 1) rfl)
  exact ⟨pool, replays.reachable, same, by rw [same, once], stays.1, stays.2.1⟩

/-- With a bound of one delivery, a single deferral sends the job to the dead
letters: the next worker that asks for a job finds it delivered too often. -/
theorem outage_dead_letters : ∃ pool, (system (boundedSettings 1)).Reachable pool ∧
      Stored pool.log 0 outageJob ∧ Deferred pool.log outageJob.id ∧
      pool.shared.inner.jobs = [] ∧ Dead pool.shared outageJob.id := by
  obtain ⟨pool, replays, holds⟩ := @replay_reachable (boundedSettings 1)
    outageEnd outageStarts (fun shared => decide (shared.inner.jobs.length = 0 ∧
        ∃ entry ∈ shared.inner.dead, entry.id = outageJob.id))
    (by decide +kernel) outageEnd_performs (by decide)
  have same := replays.sameLog
  have holds := of_decide_eq_true holds
  exact ⟨pool, replays.reachable, same ▸ outageJob_stored.mono rfl,
    same ▸ outageEnd_deferred, List.length_eq_zero_iff.mp holds.1, holds.2⟩

end Cases

end Worklane.Facade
