import Worklane.Facade.Json
import Worklane.Facade.Orphans
import Worklane.Facade.Ownership

/-!
# What an accepted fan-in submits

`fan_in_with_policy` checks its policy, its dependencies and its lanes before
it submits anything; the watcher validates the payload it is given once more
when it runs.  The two do not check the same things: the submission looks at
neither the fan-in id nor the callback kind, and a client's lane may be one
that was deserialized, and so never validated.
-/

namespace Worklane.Facade

open List
open Lib.Program

/-! ## The checks of a submission -/

theorem checkDependencies_distinct {seen : List JobId} {jobs : List NewJob}
    (accepted : Client.checkDependencies seen jobs = .ok ()) :
    (jobs.map NewJob.id).Nodup ∧ ∀ job ∈ jobs, job.id ∉ seen := by
  induction jobs generalizing seen with
  | nil => simp
  | cons job rest ih =>
    unfold Client.checkDependencies at accepted
    split at accepted
    · cases accepted
    · split at accepted
      · cases accepted
      · next fresh =>
        obtain ⟨distinct, unseen⟩ := ih accepted
        rw [map_cons, nodup_cons]
        refine ⟨⟨?_, distinct⟩, ?_⟩
        · intro member
          obtain ⟨other, inside, same⟩ := mem_map.mp member
          exact unseen other inside (by simp [same])
        · intro other member
          rcases mem_cons.mp member with rfl | later
          · exact fresh
          · exact fun early =>
            unseen other later (mem_cons_of_mem _ early)

/-- The first payload of a fan-in fails only the checks its submission does
not make. -/
theorem watcherPayload_valid_iff {client : Client} {faninId : String}
    {dependencies : List NewJob} {callbackKind : String}
    {context : Serialized} {policy : FanInPolicy}
    {payload : FanInWatcherPayload}
    (made : client.watcherPayload faninId dependencies callbackKind context policy = .ok payload)
    (distinct : (dependencies.map NewJob.id).Nodup) :
    payload.Valid ↔ faninId ≠ "" ∧ callbackKind ≠ "" ∧
      ∃ lane, Lane.validated client.lane.name = .ok lane := by
  unfold Client.watcherPayload FanInWatcherPayload.new at made
  split at made
  · cases made
  · next some =>
    split at made
    · cases made
    · next positive =>
      cases made
      constructor
      · intro valid
        exact ⟨valid.faninId, valid.callbackKind, valid.callbackLane⟩
      · rintro ⟨named, kind, lane⟩
        have first : (1 : UInt32) ≠ 0 := by decide
        refine ⟨named, some, first, ?_, kind, lane, distinct, by simp, by simp⟩
        have nonzero : policy.maxGenerations.toNat ≠ 0 := fun zero =>
          positive (UInt32.toNat_inj.mp zero)
        rw [UInt32.le_iff_toNat_le]
        exact Nat.one_le_iff_ne_zero.mpr nonzero

/-! ## The submitted batch -/

/-- The batch was accepted, and its last job is a watcher whose payload, read
through the blob it may have been offloaded to, decodes to this one. -/
def SubmitsWatcher (crates : Crates) (steps : List Did) (payload : FanInWatcherPayload) : Prop :=
  ∃ (dependencies : List NewJob) (watcher : NewJob)
    (served : Served (List JobId)) (ids : List JobId) (content : Blob),
    (⟨.call (.enqueueBatch (dependencies ++ [watcher])), served⟩ : Did) ∈ steps ∧
      served.reply = .ok ids ∧ watcher.kind = watcherKind ∧
      Carries steps content watcher.payload ∧
      crates.fromWatcher content = .ok payload

theorem submitFanIn_accepted {client : Client} {jobs : List NewJob} {steps : List Did}
    (returns : Returns (client.submitFanIn jobs) steps (.ok ())) :
    ∃ (served : Served (List JobId)) (ids : List JobId),
      steps = [⟨.call (.enqueueBatch jobs), served⟩] ∧ served.reply = .ok ids := by
  obtain ⟨first, returned, second, rfl, head, tail⟩ := returns_bind.mp returns
  cases returned with
  | error failure =>
    obtain ⟨_, _, _, _, _, ends⟩ := returns_bind.mp tail
    obtain ⟨_, impossible⟩ := returns_done.mp ends
    cases impossible
  | ok ids =>
    obtain ⟨rfl, _⟩ := returns_done.mp tail
    rw [append_nil]
    obtain ⟨served, rfl, accepted⟩ := enqueueBatch_accepted head
    exact ⟨served, ids, rfl, accepted⟩

/-- What a submission that was accepted has checked and done. -/
theorem fanInWithPolicy_accepted {crates : Crates} {client : Client}
    {faninId : String} {dependencies : List NewJob} {callbackKind : String}
    {context : Serialized} {policy : FanInPolicy} {steps : List Did}
    (returns : Returns (client.fanInWithPolicy crates faninId dependencies
      callbackKind context policy) steps (.ok ())) :
    ∃ (payload : FanInWatcherPayload) (id : JobId) (puts : List Did)
      (batch : List NewJob) (served : Served (List JobId))
      (ids : List JobId),
      Client.checkDependencies [] dependencies = .ok () ∧
        client.watcherPayload faninId dependencies callbackKind context policy = .ok payload ∧
        OffloadedAll client (dependencies ++
          [client.newJob watcherKind (crates.toWatcher payload) id]) puts
          batch ∧
        steps = ⟨.newId, id⟩ :: puts ++ [⟨.call (.enqueueBatch batch), served⟩] ∧
        served.reply = .ok ids := by
  unfold Client.fanInWithPolicy at returns
  split at returns
  · cases (returns_done.mp returns).2
  · split at returns
    · cases (returns_done.mp returns).2
    · next checked =>
      split at returns
      · cases (returns_done.mp returns).2
      · next payload made =>
        unfold Client.buildJob newId at returns
        rw [bind_assoc] at returns
        obtain ⟨id, later, rfl, tail⟩ := returns_perform_bind.mp returns
        rw [pure_eq, done_bind] at tail
        simp only at tail
        split at tail
        · cases (returns_done.mp tail).2
        · obtain ⟨puts, outcome, last, rfl, offloads, submits⟩ := returns_bind.mp tail
          rcases offloadAll_cases offloads with
            ⟨batch, rfl, all⟩ | ⟨failure, rfl, _⟩
          · obtain ⟨served, ids, rfl, replied⟩ := submitFanIn_accepted submits
            exact ⟨payload, id, puts, batch, served, ids, checked, made, all, rfl, replied⟩
          · cases (returns_done.mp submits).2

/-- An accepted fan-in submits the payload it made, and its watcher accepts
that payload exactly when the fan-in id and the callback kind are not empty
and the client's lane passes validation. -/
theorem accepted_fanIn_valid_iff (crates : Crates) (client : Client)
    (faninId : String) (dependencies : List NewJob) (callbackKind : String)
    (context : Serialized) (policy : FanInPolicy) (steps : List Did)
    (returns : Returns (client.fanInWithPolicy crates faninId dependencies
      callbackKind context policy) steps (.ok ())) :
    ∃ payload, client.watcherPayload faninId dependencies callbackKind
        context policy = .ok payload ∧
      SubmitsWatcher crates steps payload ∧
      (payload.validate = .ok () ↔ faninId ≠ "" ∧ callbackKind ≠ "" ∧
        ∃ lane, Lane.validated client.lane.name = .ok lane) := by
  obtain ⟨payload, id, puts, batch, served, ids, checked, made, all, rfl,
    replied⟩ := fanInWithPolicy_accepted returns
  refine ⟨payload, made, ?_, ?_⟩
  · obtain ⟨front, watcher, _, rfl, _, ⟨same, carries⟩, ⟨⟩⟩ := Lib.aligned_split all.each
    refine ⟨front, watcher, served, ids, _, by simp, replied, ?_, ?_,
      crates.fromWatcher_toWatcher payload⟩
    · rw [same]
      rfl
    · refine (carries (crates.toWatcher payload).inline).mono ?_
      intro step member
      exact mem_append_left _ (mem_cons_of_mem _ member)
  · rw [FanInWatcherPayload.validate_ok]
    exact watcherPayload_valid_iff made (checkDependencies_distinct checked).1

section Cases

/-- A fan-in of one dependency, on a client that offloads every payload. -/
def oneDependency (faninId : String) : Action (Except Failure Unit) :=
  Submission.offloading.fanInWithPolicy plainCrates faninId
    [Submission.digit.job] "callback" ⟨[49], referenceKey_digit⟩ ⟨10, 1⟩

def onePayload (faninId : String) : FanInWatcherPayload where
  faninId := faninId
  dependencies := [⟨⟨0⟩⟩]
  generation := 1
  pollDelaySecs := 10
  maxGenerations := 1
  collected := []
  callbackLane := "a"
  callbackKind := "callback"
  callbackPayload := [49]
  callbackMaxAttempts := 1
  callbackPriority := 0

/-- The watcher of the batch, after its payload was offloaded. -/
def oneWatcher (faninId : String) : NewJob :=
  { Submission.offloading.newJob watcherKind
      (plainCrates.toWatcher (onePayload faninId)) ⟨⟨1⟩⟩ with
    payload := makeReference "second" }

def oneBatch (faninId : String) : List NewJob :=
  [{ Submission.digit.job with payload := makeReference "first" }] ++ [oneWatcher faninId]

def oneSteps (faninId : String) : List Did :=
  [⟨.newId, ⟨⟨1⟩⟩⟩, ⟨.put [49], .ok "first"⟩,
    ⟨.put (plainCrates.toWatcher (onePayload faninId)).bytes, .ok "second"⟩,
    ⟨.call (.enqueueBatch (oneBatch faninId)), ⟨0, ⟨⟨0⟩⟩, .ok [⟨⟨0⟩⟩, ⟨⟨1⟩⟩]⟩⟩]

theorem oneDependency_returns (faninId : String) :
    Returns (oneDependency faninId) (oneSteps faninId) (.ok ()) :=
  .step (.step (.step (.step (.refl _))))

theorem accepted_fanIn_valid_report :
    Returns (oneDependency "report") (oneSteps "report") (.ok ()) ∧
      ∃ payload, SubmitsWatcher plainCrates (oneSteps "report") payload ∧
        payload.validate = .ok () := by
  refine ⟨oneDependency_returns "report", ?_⟩
  obtain ⟨payload, _, submits, valid⟩ := accepted_fanIn_valid_iff plainCrates
    Submission.offloading "report" [Submission.digit.job] "callback"
    ⟨[49], referenceKey_digit⟩ ⟨10, 1⟩ (oneSteps "report")
    (oneDependency_returns "report")
  exact ⟨payload, submits, valid.mpr ⟨by decide, by decide, ⟨"a"⟩, by decide⟩⟩

/-- A fan-in with an empty id is accepted; its watcher is not. -/
theorem empty_faninId_accepted : Returns (oneDependency "") (oneSteps "") (.ok ()) ∧
      SubmitsWatcher plainCrates (oneSteps "") (onePayload "") ∧
      (onePayload "").validate =
        .error "fan-in watcher payload is malformed: fanin_id is empty" := by
  refine ⟨oneDependency_returns "", ?_, by decide⟩
  refine ⟨_, oneWatcher "", _, _, _, mem_cons_of_mem _ (mem_cons_of_mem _ (mem_cons_of_mem _
      (mem_singleton.mpr rfl))), rfl, rfl, .offloaded ?_,
    plainCrates.fromWatcher_toWatcher (onePayload "")⟩
  exact mem_cons_of_mem _ (mem_cons_of_mem _ (mem_cons_self ..))

end Cases

end Worklane.Facade
