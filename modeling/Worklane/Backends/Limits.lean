import Worklane.Backends.Retries
import Worklane.Memory.Broker

/-!
# Size limits in memory and in the durable brokers

The in-memory broker bounds the payload, not the encoded envelope, and does
not look at the trace context; `enqueue_scheduled` checks nothing.  So it
accepts whatever `encode_envelope` accepts, and more.
-/

namespace Worklane.Memory

open Json (zeros zerosJob)

/-- The call did not fail. -/
def Outcome.Accepts (outcome : Outcome) : Prop :=
  ∃ value, outcome.reply = .ok value

/-- `encode_envelope` takes the envelope of the job. -/
def Storable (job : NewJob) : Prop :=
  ∃ blob, encodeEnvelope Json.serde job.intoEnvelope = .ok blob

/-- The caps on the trace context, and the size of the JSON text. -/
structure WithinCaps (job : NewJob) : Prop where
  context : ∀ entries, job.traceContext = some entries →
    entries.length ≤ maxTraceContextEntries ∧ traceContextBytes entries ≤ maxTraceContextBytes
  size : Json.envelopeSize job.intoEnvelope ≤ maxEnvelopeBytes

section Limits

variable {inner : Inner} {now : Nat} {job : NewJob} {jobs : List NewJob}

theorem checkPayloadSize_ok_iff : checkPayloadSize job = .ok () ↔
      job.payload.length ≤ maxEnvelopeBytes := by
  unfold checkPayloadSize
  split
  · rename_i long
    exact iff_of_false (fun accepted => by cases accepted)
      (Nat.not_le.mpr long)
  · rename_i short
    exact iff_of_true rfl (Nat.not_lt.mp short)

theorem checkTraceContext_ok_iff {context : Option (List (String × String))} :
    checkTraceContext context = .ok () ↔ ∀ entries, context = some entries →
      entries.length ≤ maxTraceContextEntries ∧
        traceContextBytes entries ≤ maxTraceContextBytes := by
  unfold checkTraceContext
  split
  · simp
  · next entries =>
    split
    · next many => simp [Nat.not_le.mpr many]
    · next few =>
      split
      · next long => simp [Nat.not_le.mpr long]
      · next short => simp [Nat.not_lt.mp few, Nat.not_lt.mp short]

theorem storable_iff : Storable job ↔ WithinCaps job := by
  constructor
  · rintro ⟨blob, encoded⟩
    obtain ⟨context, rfl, fits⟩ := of_encode encoded
    exact ⟨checkTraceContext_ok_iff.mp context, Json.length_print _ ▸ fits⟩
  · intro within
    exact ⟨_, Json.encode_of_fits (checkTraceContext_ok_iff.mpr within.context)
      (Json.length_print _ ▸ within.size)⟩

theorem payload_le_of_storable (storable : Storable job) :
    job.payload.length ≤ maxEnvelopeBytes := by
  obtain ⟨blob, encoded⟩ := storable
  exact payload_le_of_encode encoded

theorem enqueue_accepts : (enqueue inner now job).Accepts ↔
      job.payload.length ≤ maxEnvelopeBytes := by
  rw [← checkPayloadSize_ok_iff, Outcome.Accepts, enqueue]
  cases checkPayloadSize job with
  | error failure => simp
  | ok checked => simp

theorem checkAll_ok : jobs.forM checkPayloadSize = .ok () ↔
      ∀ job ∈ jobs, job.payload.length ≤ maxEnvelopeBytes := by
  induction jobs with
  | nil => exact iff_of_true rfl (by simp)
  | cons job rest ih =>
    rw [List.forall_mem_cons, ← ih, ← checkPayloadSize_ok_iff]
    simp only [List.forM, Bind.bind, Except.bind]
    cases checkPayloadSize job with
    | error failure => simp
    | ok checked => simp

theorem enqueueBatch_accepts : (enqueueBatch inner now jobs).Accepts ↔
      ∀ job ∈ jobs, job.payload.length ≤ maxEnvelopeBytes := by
  rw [← checkAll_ok, Outcome.Accepts, enqueueBatch]
  cases jobs.forM checkPayloadSize with
  | error failure => simp
  | ok checked => simp

theorem enqueueScheduled_accepts {scheduleId : String} {occurrence : Int64} :
    (enqueueScheduled inner now scheduleId occurrence job).Accepts := by
  unfold enqueueScheduled
  split
  · exact ⟨_, rfl⟩
  · exact ⟨_, rfl⟩

end Limits

/-- **Where the in-memory limits agree with the durable encoding**, on the
three ways to submit: for jobs within the caps, and for payloads that are too
long by themselves.  A rejected submission changes nothing on any of them. -/
theorem limits_agree (inner : Inner) (now : Nat) (scheduleId : String)
    (occurrence : Int64) (job : NewJob) (jobs : List NewJob) :
    (((enqueue inner now job).Accepts ↔ Storable job) ↔
      WithinCaps job ∨ maxEnvelopeBytes < job.payload.length) ∧
    (((enqueueBatch inner now jobs).Accepts ↔ ∀ job ∈ jobs, Storable job) ↔
      (∀ job ∈ jobs, WithinCaps job) ∨ ∃ job ∈ jobs, maxEnvelopeBytes < job.payload.length) ∧
    (((enqueueScheduled inner now scheduleId occurrence job).Accepts ↔
        Storable job) ↔ WithinCaps job) ∧
    ∀ outcome, (outcome = enqueue inner now job ∨ outcome = enqueueBatch inner now jobs ∨
        outcome = enqueueScheduled inner now scheduleId occurrence job) →
      ¬ outcome.Accepts → outcome.inner = inner := by
  simp only [← storable_iff]
  refine ⟨?_, ?_, ?_, ?_⟩
  · rw [enqueue_accepts]
    have smaller := @payload_le_of_storable job
    constructor
    · intro agree
      by_cases fits : job.payload.length ≤ maxEnvelopeBytes
      · exact .inl (agree.mp fits)
      · exact .inr (Nat.not_le.mp fits)
    · rintro (storable | long)
      · exact iff_of_true (smaller storable) storable
      · exact iff_of_false (Nat.not_le.mpr long)
          fun storable => absurd (smaller storable) (Nat.not_le.mpr long)
  · rw [enqueueBatch_accepts]
    constructor
    · intro agree
      by_cases fits : ∀ job ∈ jobs, job.payload.length ≤ maxEnvelopeBytes
      · exact .inl (agree.mp fits)
      · push Not at fits
        exact .inr fits
    · rintro (storable | ⟨job, member, long⟩)
      · exact iff_of_true (fun job member => payload_le_of_storable (storable job member)) storable
      · exact iff_of_false (fun fits => absurd (fits job member) (Nat.not_le.mpr long))
          fun storable => absurd (payload_le_of_storable
            (storable job member)) (Nat.not_le.mpr long)
  · exact iff_true_left enqueueScheduled_accepts
  · rintro outcome (rfl | rfl | rfl) rejected
    · unfold enqueue at rejected ⊢
      split
      · rfl
      · rename_i checked found
        exact absurd ⟨_, by rw [found]⟩ rejected
    · unfold enqueueBatch at rejected ⊢
      split
      · rfl
      · rename_i checked found
        exact absurd ⟨_, by rw [found]⟩ rejected
    · exact absurd enqueueScheduled_accepts rejected

/-- A payload of 32 MiB of zeros is under the cap, its encoding is not; the
job is taken on all three ways. -/
theorem zeros_accepted : (enqueue Inner.empty 0 (zerosJob 33554367)).Accepts ∧
      (enqueueBatch Inner.empty 0 [zerosJob 33554367]).Accepts ∧
      (enqueueScheduled Inner.empty 0 "nightly" 1 (zerosJob 33554367)).Accepts ∧
      ¬ Storable (zerosJob 33554367) := by
  have length : (zerosJob 33554367).payload.length = 33554368 := List.length_replicate
  have short : (zerosJob 33554367).payload.length ≤ maxEnvelopeBytes := by
    rw [length]
    decide
  refine ⟨enqueue_accepts.mpr short, enqueueBatch_accepts.mpr ?_, enqueueScheduled_accepts, ?_⟩
  · intro job member
    rw [List.mem_singleton.mp member]
    exact short
  · rintro ⟨blob, encoded⟩
    have long : (Json.envelope.print (zeros 33554367 0)).length =
        67108866 := Json.length_zeros 33554367 0
    obtain ⟨_, rfl, fits⟩ := of_encode encoded
    have bound := long ▸ fits
    exact absurd bound (by decide)

end Worklane.Memory
