import Worklane.Core.Json
import Worklane.Redis.UniqueKeys

/-!
# The watermark of a schedule

Redis compares occurrences as texts of twenty digits, the in-memory broker as
numbers.  The texts are ordered as the numbers are, so on calls that pass the
checks of the Redis broker the two answer alike, whatever the occurrences.
The Redis broker refuses some calls that the in-memory broker takes: a schedule
id or a lane that is unsafe in a key, and an envelope that cannot be encoded.
-/

namespace Worklane.Redis

open Memory (Inner)

/-! ## The order of the texts -/

theorem length_occurrenceText (occurrence : Int64) : (occurrenceText occurrence).length = 20 :=
  Lib.fixedText_length ..

/-- Watermarks compare as texts the way the occurrences do. -/
theorem occurrenceText_lt_iff {early late : Int64} :
    occurrenceText early < occurrenceText late ↔ early < late := by
  have low := Int64.le_toInt early
  have low' := Int64.le_toInt late
  have high := Int64.toInt_lt early
  have high' := Int64.toInt_lt late
  rw [occurrenceText, occurrenceText,
    Lib.fixedText_lt_iff (by decide) (by decide) (by omega) (by omega),
    Int64.lt_iff_toInt_lt]
  omega

theorem occurrenceText_inj {left right : Int64} :
    occurrenceText left = occurrenceText right ↔ left = right := by
  constructor
  · intro same
    have before := @occurrenceText_lt_iff left right
    have after := @occurrenceText_lt_iff right left
    rw [same, Int64.lt_iff_toInt_lt] at before after
    have notBefore : ¬ left.toInt < right.toInt := fun early => lt_irrefl _ (before.mpr early)
    have notAfter : ¬ right.toInt < left.toInt := fun late => lt_irrefl _ (after.mpr late)
    exact Int64.toInt_inj.mp (by omega)
  · rintro rfl
    rfl

theorem claims_iff (last : Option Int64) (occurrence : Int64) : (last.map occurrenceText).any
        (fun current => decide (occurrenceText occurrence ≤ current)) =
      !Memory.wins last occurrence := by
  cases last with
  | none => rfl
  | some claimed =>
    have order := @occurrenceText_lt_iff claimed occurrence
    rw [Option.map_some, Option.any_some, Memory.wins, ← decide_not,
      decide_eq_decide, ← order, not_lt]

/-! ## Sequences of claims -/

inductive ScheduleCall where
  | enqueueScheduled (now : Nat) (scheduleId : String) (occurrence : Int64) (job : NewJob)
  | removeSchedule (scheduleId : String)

/-- What the in-memory broker answers to the claims of a sequence. -/
def memoryAnswers : Inner → List ScheduleCall → List Reply
  | _, [] => []
  | inner, .enqueueScheduled now scheduleId occurrence job :: rest =>
    let outcome := Memory.enqueueScheduled inner now scheduleId occurrence job
    outcome.reply :: memoryAnswers outcome.inner rest
  | inner, .removeSchedule scheduleId :: rest =>
    memoryAnswers (Memory.removeSchedule inner scheduleId).inner rest

section Answers

variable (serde : SerdeJson)

/-- What the Redis broker answers to them. -/
def redisAnswers : Store → List ScheduleCall → List Reply
  | _, [] => []
  | store, .enqueueScheduled now scheduleId occurrence job :: rest =>
    let ran := enqueueScheduled serde store now scheduleId occurrence job
    ran.2 :: redisAnswers ran.1 rest
  | store, .removeSchedule scheduleId :: rest =>
    redisAnswers (removeSchedule store scheduleId).1 rest

/-- The claim passes the checks of the Redis broker. -/
def ScheduleCall.Admitted : ScheduleCall → Prop
  | .enqueueScheduled _ scheduleId _ job =>
    laneKeySegment job.lane = .ok () ∧ checkedKeySegment scheduleId "schedule id" = .ok () ∧
      ∃ blob, encodeEnvelope serde job.intoEnvelope = .ok blob
  | .removeSchedule _ => True

end Answers

/-- The brokers have claimed the same occurrences, on the ids that Redis
takes. -/
def Matched (inner : Inner) (store : Store) : Prop :=
  ∀ scheduleId, checkedKeySegment scheduleId "schedule id" = .ok () → store.schedule scheduleId =
      (inner.schedules scheduleId).map occurrenceText

section Steps

variable {serde : SerdeJson} {inner : Inner} {store : Store} {now : Nat}
  {scheduleId : String} {occurrence : Int64} {job : NewJob}

theorem insertOne_schedules (inner : Inner) (job : NewJob) (now : Nat) :
    (Memory.insertOne inner job now).1.schedules = inner.schedules := by
  rcases Memory.insertOne_cases inner job now with
    ⟨_, same⟩ | ⟨_, _, _, same⟩ | ⟨_, _, same⟩
  · rw [same]
  · rw [same]
  · rw [same]

theorem Matched.update (matched : Matched inner store)
    (scheduleId : String) (last : Option Int64) {inner' : Inner}
    {store' : Store}
    (here : inner'.schedules = Function.update inner.schedules scheduleId last)
    (there : store'.schedule = Function.update store.schedule scheduleId
      (last.map occurrenceText)) : Matched inner' store' := by
  intro other safe
  rw [here, there]
  by_cases same : other = scheduleId
  · subst same
    rw [Function.update_self, Function.update_self]
  · rw [Function.update_of_ne same, Function.update_of_ne same]
    exact matched other safe

theorem claim_agrees (matched : Matched inner store)
    (admitted : (ScheduleCall.enqueueScheduled now scheduleId occurrence job).Admitted serde) :
    (enqueueScheduled serde store now scheduleId occurrence job).2 =
        (Memory.enqueueScheduled inner now scheduleId occurrence job).reply ∧
      Matched (Memory.enqueueScheduled inner now scheduleId occurrence job).inner
        (enqueueScheduled serde store now scheduleId occurrence job).1 := by
  obtain ⟨safeLane, safeId, blob, encoded⟩ := admitted
  obtain ⟨args, sent⟩ : ∃ args, jobArgs serde now job = .ok args := by
    simp only [jobArgs, safeLane, encoded, Bind.bind, Except.bind]
    exact ⟨_, rfl⟩
  have claim := claims_iff (inner.schedules scheduleId) occurrence
  rw [← matched scheduleId safeId] at claim
  simp only [enqueueScheduled, safeLane, safeId, sent,
    Store.enqueueScheduled, claim, Memory.enqueueScheduled]
  cases Memory.wins (inner.schedules scheduleId) occurrence with
  | false => exact ⟨rfl, matched⟩
  | true =>
    exact ⟨rfl, matched.update scheduleId (some occurrence)
      (insertOne_schedules ..) (enqueue_schedule ..)⟩

theorem removal_agrees (matched : Matched inner store) (scheduleId : String) :
    Matched (Memory.removeSchedule inner scheduleId).inner (removeSchedule store scheduleId).1 := by
  unfold removeSchedule
  cases checked : checkedKeySegment scheduleId "schedule id" with
  | error failure =>
    -- Redis refuses the id, and the ids it takes are not this one.
    intro other safe
    have different : other ≠ scheduleId := by
      rintro rfl
      rw [checked] at safe
      cases safe
    rw [matched other safe]
    exact congrArg _ (Function.update_of_ne different _ _).symm
  | ok done => exact matched.update scheduleId none rfl rfl

theorem refused_differs (refused : ¬ (ScheduleCall.enqueueScheduled now scheduleId occurrence
      job).Admitted serde) :
    (Memory.enqueueScheduled inner now scheduleId occurrence job).reply ≠
      (enqueueScheduled serde store now scheduleId occurrence job).2 := by
  have answered : ∃ won, (Memory.enqueueScheduled inner now scheduleId occurrence job).reply =
        .ok (.claimed won) := by
    unfold Memory.enqueueScheduled
    split
    · exact ⟨true, rfl⟩
    · exact ⟨false, rfl⟩
  obtain ⟨won, answered⟩ := answered
  rw [answered]
  intro same
  apply refused
  unfold enqueueScheduled at same
  split at same
  · cases same
  · rename_i safeLane
    split at same
    · cases same
    · rename_i safeId
      split at same
      · cases same
      · rename_i args sent
        refine ⟨safeLane, safeId, ?_⟩
        simp only [jobArgs, safeLane, Bind.bind, Except.bind] at sent
        cases encoded : encodeEnvelope serde job.intoEnvelope with
        | error failure =>
          rw [encoded] at sent
          cases sent
        | ok blob => exact ⟨blob, rfl⟩

end Steps

/-- **The watermark is exact**: the texts have twenty characters and are
ordered as the occurrences, and a sequence of claims and removals gets the same
answers from both brokers exactly when Redis refuses none of its claims. -/
theorem watermark_exact (serde : SerdeJson) (inner : Inner) (store : Store)
    (matched : Matched inner store) (calls : List ScheduleCall) :
    (∀ occurrence, (occurrenceText occurrence).length = 20) ∧ (∀ early late,
        (occurrenceText early < occurrenceText late ↔ early < late) ∧
        (occurrenceText early = occurrenceText late ↔ early = late)) ∧
      (memoryAnswers inner calls = redisAnswers serde store calls ↔
        ∀ call ∈ calls, call.Admitted serde) := by
  refine ⟨length_occurrenceText, fun early late =>
    ⟨occurrenceText_lt_iff, occurrenceText_inj⟩, ?_⟩
  induction calls generalizing inner store with
  | nil => exact iff_of_true rfl (by simp)
  | cons call rest ih =>
    rw [List.forall_mem_cons]
    cases call with
    | removeSchedule scheduleId =>
      rw [memoryAnswers, redisAnswers, ih _ _ (removal_agrees matched scheduleId)]
      exact (and_iff_right trivial).symm
    | enqueueScheduled now scheduleId occurrence job =>
      by_cases admitted : (ScheduleCall.enqueueScheduled now scheduleId
          occurrence job).Admitted serde
      · obtain ⟨same, next⟩ := claim_agrees matched admitted
        rw [memoryAnswers, redisAnswers, List.cons.injEq, ← ih _ _ next]
        exact and_congr (iff_of_true same.symm admitted) Iff.rfl
      · refine iff_of_false ?_ fun all => admitted all.1
        intro same
        exact refused_differs admitted (List.cons.inj same).1

theorem matched_empty : Matched Inner.empty Store.empty :=
  fun _ _ => rfl

/-- A job without a payload. -/
def tinyJob : NewJob :=
  ⟨⟨⟨1⟩⟩, ⟨"mail"⟩, "send", [], 3, 0, none, 0, none⟩

/-- An id with a colon is claimed in memory and refused by Redis. -/
theorem colon_refused : memoryAnswers Inner.empty [.enqueueScheduled 0 "a:b" 1 tinyJob] =
        [.ok (.claimed true)] ∧
      redisAnswers Json.serde Store.empty [.enqueueScheduled 0 "a:b" 1 tinyJob] =
        [.error (keyUnsafeErr "schedule id" "a:b" ':')] := by
  constructor
  · decide +kernel
  · decide +kernel

/-- The smallest occurrence, the largest and one between them. -/
def extremes : List ScheduleCall :=
  [.enqueueScheduled 0 "nightly" Int64.minValue tinyJob,
    .enqueueScheduled 0 "nightly" Int64.maxValue tinyJob,
    .enqueueScheduled 0 "nightly" 0 tinyJob]

theorem extremes_agree : memoryAnswers Inner.empty extremes =
      redisAnswers Json.serde Store.empty extremes := by
  have encoded : ∃ blob, encodeEnvelope Json.serde tinyJob.intoEnvelope = .ok blob :=
    (@Json.encodable_of_room tinyJob.intoEnvelope rfl (by decide +kernel)).encodes_new
  refine (watermark_exact Json.serde Inner.empty Store.empty matched_empty extremes).2.2.mpr ?_
  intro call member
  simp only [extremes, List.mem_cons, List.not_mem_nil, or_false] at member
  rcases member with rfl | rfl | rfl
  · exact ⟨rfl, rfl, encoded⟩
  · exact ⟨rfl, rfl, encoded⟩
  · exact ⟨rfl, rfl, encoded⟩

end Worklane.Redis
