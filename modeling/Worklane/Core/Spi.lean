import Worklane.Core.Debug

/-!
# The service-provider interface

What `worklane_core::spi` shares between the brokers: the limits, the errors,
the storage form of an envelope and the conversion of times to integer
nanoseconds.
-/

namespace Worklane

/-- The errors a broker returns.  `StaleReservation` keeps the receipt its
text is made from. -/
inductive Error where
  | serialization (text : String)
  | broker (text : String)
  | liveJobIdConflict (text : String)
  | staleReservation (receipt : ReservationReceipt)
  | uniqueKeyHeld (text : String)
  deriving DecidableEq, Repr

/-- The `Display` text of an error. -/
def Error.text : Error → String
  | .serialization text => "serialization error: " ++ text
  | .broker text => "broker error: " ++ text
  | .liveJobIdConflict text => "live job id conflict: " ++ text
  | .staleReservation receipt =>
    s!"stale reservation: receipt {receipt} is not current"
  | .uniqueKeyHeld text => "unique key held: " ++ text

/-- `spi::stale`. -/
def stale (receipt : ReservationReceipt) : Error :=
  .staleReservation receipt

/-- `MAX_ENVELOPE_BYTES`: 64 MiB. -/
def maxEnvelopeBytes : Nat := 64 * 1024 * 1024

/-- `MAX_TRACE_CONTEXT_ENTRIES`. -/
def maxTraceContextEntries : Nat := 34

/-- `MAX_TRACE_CONTEXT_BYTES`: 8 KiB. -/
def maxTraceContextBytes : Nat := 8 * 1024

/-- `MAX_DEAD_LETTER_SWEEP`: how many over-delivered jobs one `reserve` may
move to the dead-letter store. -/
def maxDeadLetterSweep : Nat := 128

/-- The bytes of a stored envelope. -/
abbrev Blob := List UInt8

/-- `serde_json` on `JobEnvelope`, as far as the brokers rely on it: what was
written is read back, and the payload is written out byte by byte. -/
structure SerdeJson where
  toVec : JobEnvelope → Blob
  fromSlice : Blob → Except String JobEnvelope
  fromSlice_toVec : ∀ envelope, fromSlice (toVec envelope) = .ok envelope
  payload_le_toVec : ∀ envelope, envelope.payload.length ≤ (toVec envelope).length

/-- The total size of the keys and values of a trace context. -/
def traceContextBytes (entries : List (String × String)) : Nat :=
  (entries.map fun entry =>
    entry.1.utf8ByteSize + entry.2.utf8ByteSize).sum

/-- The trace-context caps `encode_envelope` checks first. -/
def checkTraceContext : Option (List (String × String)) → Except Error Unit
  | none => .ok ()
  | some entries =>
    if entries.length > maxTraceContextEntries then
      .error (.serialization
        s!"trace_context has {entries.length} entries, over the {maxTraceContextEntries}-entry limit")
    else if traceContextBytes entries > maxTraceContextBytes then
      .error (.serialization
        s!"trace_context is {traceContextBytes entries} bytes, over the {maxTraceContextBytes}-byte limit")
    else
      .ok ()

/-- `spi::encode_envelope`. -/
def encodeEnvelope (serde : SerdeJson) (envelope : JobEnvelope) :
    Except Error Blob := do
  checkTraceContext envelope.traceContext
  let bytes := serde.toVec envelope
  if bytes.length > maxEnvelopeBytes then
    .error (.serialization
      s!"encoded job envelope is {bytes.length} bytes, over the {maxEnvelopeBytes}-byte limit")
  else
    .ok bytes

/-- `spi::decode_envelope`.  The text of a parse error is the one `json_err`
has redacted and cut. -/
def decodeEnvelope (serde : SerdeJson) (bytes : Blob) :
    Except Error JobEnvelope :=
  if bytes.length > maxEnvelopeBytes then
    .error (.serialization
      s!"stored job envelope is {bytes.length} bytes, over the {maxEnvelopeBytes}-byte limit")
  else
    match serde.fromSlice bytes with
    | .ok envelope => .ok envelope
    | .error text => .error (.broker text)

variable {serde : SerdeJson} {envelope : JobEnvelope}

theorem of_encode {bytes : Blob} (encoded : encodeEnvelope serde envelope = .ok bytes) :
    checkTraceContext envelope.traceContext = .ok () ∧ bytes = serde.toVec envelope ∧
      bytes.length ≤ maxEnvelopeBytes := by
  unfold encodeEnvelope at encoded
  cases checked : checkTraceContext envelope.traceContext with
  | error failure =>
    rw [checked] at encoded
    cases encoded
  | ok value =>
    rw [checked] at encoded
    simp only [Bind.bind, Except.bind] at encoded
    split at encoded
    · cases encoded
    · next fits =>
      cases encoded
      exact ⟨rfl, rfl, Nat.le_of_not_lt fits⟩

/-- What `encode_envelope` accepted, `decode_envelope` reads back. -/
theorem decode_of_encode {bytes : Blob} (encoded : encodeEnvelope serde envelope = .ok bytes) :
    decodeEnvelope serde bytes = .ok envelope := by
  obtain ⟨_, rfl, fits⟩ := of_encode encoded
  rw [decodeEnvelope, if_neg (Nat.not_lt.mpr fits), serde.fromSlice_toVec]

theorem payload_le_of_encode {bytes : Blob} (encoded : encodeEnvelope serde envelope = .ok bytes) :
    envelope.payload.length ≤ maxEnvelopeBytes := by
  obtain ⟨_, rfl, fits⟩ := of_encode encoded
  exact le_trans (serde.payload_le_toVec envelope) fits

/-- The envelope can be stored, whatever its attempts come to. -/
def Encodable (serde : SerdeJson) (envelope : JobEnvelope) : Prop :=
  ∀ attempts ≤ u32Max, ∃ blob,
    encodeEnvelope serde { envelope with attempts := attempts } = .ok blob

theorem Encodable.bump (encodable : Encodable serde envelope) : Encodable serde envelope.bump :=
  encodable

theorem Encodable.bump_encodes (encodable : Encodable serde envelope) :
    ∃ blob, encodeEnvelope serde envelope.bump = .ok blob :=
  encodable (saturatingSucc envelope.attempts) (Nat.min_le_right ..)

theorem Encodable.encodes_new {job : NewJob} (encodable : Encodable serde job.intoEnvelope) :
    ∃ blob, encodeEnvelope serde job.intoEnvelope = .ok blob :=
  encodable 0 (Nat.zero_le _)

/-- `spi::nanos`: saturates at `i64::MAX`. -/
def nanos (duration : Nat) : Nat := min duration i64Max

theorem nanos_mono {early late : Nat} (ordered : early ≤ late) : nanos early ≤ nanos late := by
  unfold nanos
  omega

theorem nanos_of_lt {duration : Nat} (small : duration < i64Max) : nanos duration = duration := by
  unfold nanos
  omega

theorem nanos_le_iff {time now : Nat} (small : now < i64Max) : nanos time ≤ now ↔ time ≤ now := by
  unfold nanos
  omega

/-- `spi::classify_state`. -/
def classifyState : Option Int → JobState
  | some 1 => .live
  | some 2 => .deadLettered
  | _ => .completedOrUnknown

/-- `RetentionPolicy::age_cutoff_nanos`: negative when nothing can be too
old yet. -/
def RetentionPolicy.ageCutoffNanos (policy : RetentionPolicy) (now : Nat) :
    Option Int :=
  policy.maxAge.map fun age => (now : Int) - (nanos age : Int)

/-- `RetentionPolicy::keep_count`, saturating at `i64::MAX`. -/
def RetentionPolicy.keepCount (policy : RetentionPolicy) : Option Nat :=
  policy.maxCount.map fun count => min count i64Max

end Worklane
