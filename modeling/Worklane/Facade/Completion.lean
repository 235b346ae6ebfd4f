import Worklane.Facade.Attempts

/-!
# What becomes of an accepted job

However clients, workers, heartbeats and operators interleave, a job that the
broker accepted is in exactly one place.  It is acked at most once, by one
worker, after its handler has returned and the output was stored.
-/

namespace Worklane.Facade

open List
open Lib (own)
open Lib.Program

inductive Fate where
  | live
  | deadLettered
  | acked
  | dropped
  deriving DecidableEq, Repr

/-- Where the job is, or how it left. -/
def Fate.Holds (settings : Settings) (log : Log) (shared : Shared) (id : JobId) : Fate → Prop
  | .live => Live shared id
  | .deadLettered => Dead shared id
  | .acked => ∃ thread reservation, Acked log thread reservation ∧ reservation.envelope.id = id
  | .dropped => Dropped settings log id

variable {settings : Settings} {starts : Nat → Option Api} {log past : Log}
variable {shared before after : Shared} {id : JobId}
variable {thread : Nat} {reservation : Reservation}

theorem Runs.one_fate (runs : Runs settings starts log shared) {fate other : Fate}
    (holds : fate.Holds settings log shared id) (also : other.Holds settings log shared id) :
    fate = other := by
  have counted : ∀ {found : Fate}, found.Holds settings log shared id → 0 < match found with
      | .live => shared.inner.jobs.countP fun job => job.id = id
      | .deadLettered => shared.inner.dead.countP fun entry => entry.id = id
      | .acked => (Memory.ackedIn settings.config (inputs log)).countP fun envelope =>
          envelope.id = id
      | .dropped => (Memory.droppedIn settings.config (inputs log)).countP fun entry =>
          entry.id = id := by
    intro found present
    cases found with
    | live =>
      obtain ⟨job, member, rfl⟩ := present
      exact countP_pos_of_mem member
    | deadLettered =>
      obtain ⟨entry, member, rfl⟩ := present
      exact countP_pos_of_mem member
    | acked =>
      obtain ⟨thread, reservation, acked, rfl⟩ := present
      exact countP_pos_of_mem (runs.mem_of_acked acked)
    | dropped =>
      obtain ⟨entry, member, rfl⟩ := present
      exact countP_pos_of_mem member
  obtain ⟨balance, once⟩ := runs.counts id
  have here := counted holds
  have there := counted also
  cases fate <;> cases other <;> first | rfl | (simp only at here there; omega)

theorem Runs.not_acked_before (runs : Runs settings starts past before)
    (took : Took past thread reservation) {served : Served Unit}
    (serves : Serves settings past before (.ack reservation.receipt) served after)
    (replied : served.reply = .ok ()) {other : Nat} {also : Reservation}
    (acked : Acked past other also) : also.envelope.id ≠ reservation.envelope.id := by
  intro same
  have accepted := serves.reply
  rw [replied] at accepted
  obtain ⟨job, live, holds, _⟩ := Memory.perform_resolves settings.config rfl accepted
  have held := congrArg JobEnvelope.id (runs.held_by took live holds)
  exact (runs.acked_gone acked).1 ⟨job, live, held.trans same.symm⟩

/-- Two accepted acks of one job are one event of the log: the later one would
have found the job gone. -/
theorem Runs.acked_once (runs : Runs settings starts log shared) {other : Nat}
    {also : Reservation} {past past' future future' : Log} {served served' : Served Unit}
    (took : Took log thread reservation) (took' : Took log other also)
    (split : log = past ++ ⟨thread, .call (.ack reservation.receipt), served⟩ :: future)
    (split' : log = past' ++ ⟨other, .call (.ack also.receipt), served'⟩ :: future')
    (replied : served.reply = .ok ()) (replied' : served'.reply = .ok ())
    (same : also.envelope.id = reservation.envelope.id) :
    past' = past ∧ other = thread ∧ also = reservation := by
  obtain ⟨_, _, _, _, earlier, serves, _, taken, _⟩ := runs.acked_at took split
  obtain ⟨_, _, _, _, earlier', serves', _, taken', _⟩ := runs.acked_at took' split'
  rcases append_eq_append_iff.mp (split.symm.trans split') with
    ⟨_ | ⟨event, between⟩, longer, rest⟩ | ⟨_ | ⟨event, between⟩, longer, rest⟩
  · obtain rfl : thread = other := congrArg Lib.Event.thread (cons.inj rest).1
    exact ⟨by simpa using longer, rfl, took'.unique took⟩
  · obtain ⟨rfl, _⟩ := cons.inj rest
    exact absurd same.symm (Runs.not_acked_before earlier' taken' serves' replied'
      ⟨taken.mono longer, served, by simp [longer], replied⟩)
  · obtain rfl : other = thread := congrArg Lib.Event.thread (cons.inj rest).1
    exact ⟨by simpa using longer.symm, rfl, took'.unique took⟩
  · obtain ⟨rfl, _⟩ := cons.inj rest
    exact absurd same (Runs.not_acked_before earlier taken serves replied
      ⟨taken'.mono longer, served', by simp [longer], replied'⟩)

/-- In every reachable state of the system a job that was accepted has exactly
one fate.  If it was acked, then by one event of the log, of one worker and
under one reservation, and before it the handler had returned an output, which
the result store had taken if the worker has one. -/
theorem accepted_job_fate {pool : Pool} (reachable : (system settings).Reachable pool)
    {job : NewJob} (stored : Stored pool.log thread job) :
    (∃! fate : Fate, fate.Holds settings pool.log pool.shared job.id) ∧
      ∀ acker reservation, Acked pool.log acker reservation →
        reservation.envelope.id = job.id →
        (∀ other also, Acked pool.log other also → also.envelope.id = job.id →
          other = acker ∧ also = reservation) ∧
        ∃ past future served worker output,
          pool.log = past ++ ⟨acker, .call (.ack reservation.receipt), served⟩ :: future ∧
          (served : Served Unit).reply = .ok () ∧
          (∀ past' future' served',
            pool.log = past' ++ ⟨acker, .call (.ack reservation.receipt), served'⟩ :: future' →
            (served' : Served Unit).reply = .ok () → past' = past) ∧
          pool.starts acker = some (.processNext worker) ∧
          Concluded worker (own acker past) reservation output := by
  have runs := runs_of_reachable reachable
  refine ⟨?_, ?_⟩
  · obtain ⟨fate, holds⟩ : ∃ fate : Fate, fate.Holds settings pool.log pool.shared job.id := by
      rcases runs.fate stored with live | dead | acked | dropped
      · exact ⟨.live, live⟩
      · exact ⟨.deadLettered, dead⟩
      · exact ⟨.acked, acked⟩
      · exact ⟨.dropped, dropped⟩
    exact ⟨fate, holds, fun other also => runs.one_fate also holds⟩
  · rintro acker reservation ⟨took, served, member, replied⟩ same
    obtain ⟨past, future, split⟩ := append_of_mem member
    obtain ⟨_, _, worker, output, _, _, started, _, concluded⟩ := runs.acked_at took split
    refine ⟨?_, past, future, served, worker, output, split, replied, ?_, started, concluded⟩
    · rintro other also ⟨took', served', member', replied'⟩ equal
      obtain ⟨past', future', split'⟩ := append_of_mem member'
      exact (runs.acked_once took took' split split' replied replied'
        (equal.trans same.symm)).2
    · intro past' future' served' split' replied'
      exact (runs.acked_once took took split split' replied replied' rfl).1

/-- A job is enqueued, run and acked. -/
def calmLog : Log :=
  flakyLog.take 3 ++ [⟨1, .handle flakyJob.intoEnvelope [49], .ok [50]⟩,
    ⟨1, .call (.ack ⟨⟨7⟩⟩), (⟨7, ⟨⟨0⟩⟩, .ok ()⟩ : Served Unit)⟩]

theorem calmLog_performs (index : Nat) (start : Api) (found : flakyStarts[index]? = some start) :
    ∃ rest, Performs (start.body plainSettings.crates) (own index calmLog) rest := by
  rcases index with _ | _ | index
  · cases found
    exact ⟨_, .step (.step (.refl _))⟩
  · cases found
    exact ⟨_, .step (.step (.step (.refl _)))⟩
  · cases found

theorem accepted_job_fate_calmLog :
    ∃ pool, (system plainSettings).Reachable pool ∧ pool.log = calmLog ∧
      Stored pool.log 0 flakyJob ∧
      ∃! fate : Fate, fate.Holds plainSettings pool.log pool.shared flakyJob.id := by
  obtain ⟨pool, replays, _⟩ := @replay_reachable plainSettings calmLog flakyStarts
    (fun shared => decide (shared.inner.jobs = [])) (by decide +kernel) calmLog_performs (by decide)
  have stored : Stored pool.log 0 flakyJob := by
    rw [replays.sameLog]
    exact .single (List.Mem.tail _ (List.Mem.head _)) rfl
  exact ⟨pool, replays.reachable, replays.sameLog, stored,
    (accepted_job_fate replays.reachable stored).1⟩

end Worklane.Facade
