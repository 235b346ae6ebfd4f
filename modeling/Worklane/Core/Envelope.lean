import Worklane.Lib.Digits

/-!
# Jobs, envelopes and receipts

The data every broker stores and hands out (`worklane-core`): `NewJob`, the
opaque `JobEnvelope`, the reservation receipt and the dead-letter record.
A `std::time::Duration` is its number of nanoseconds.
-/

namespace Worklane

/-- `Duration::MAX`: `u64::MAX` seconds and `999_999_999` nanoseconds. -/
def durationMax : Nat := 2 ^ 64 * 10 ^ 9 - 1

/-- `Duration::saturating_add`. -/
def saturatingAdd (left right : Nat) : Nat :=
  min (left + right) durationMax

/-- `u32::MAX`. -/
def u32Max : Nat := 2 ^ 32 - 1

/-- `i64::MAX`. -/
def i64Max : Nat := 2 ^ 63 - 1

/-- `u32::saturating_add(1)`, for the attempt and delivery counters. -/
def saturatingSucc (count : Nat) : Nat :=
  min (count + 1) u32Max

/-- A UUID: 128 bits, printed in the hyphenated form. -/
structure Uuid where
  bits : BitVec 128
  deriving DecidableEq, Repr

/-- Lower-case hexadecimal in the groups 8-4-4-4-12. -/
def Uuid.hyphenated (uuid : Uuid) : List Char :=
  let digits := Lib.fixedText 16 32 uuid.bits.toNat
  digits.take 8 ++ '-' :: ((digits.drop 8).take 4 ++ '-' ::
    ((digits.drop 12).take 4 ++ '-' :: ((digits.drop 16).take 4 ++ '-' :: digits.drop 20)))

/-- `JobId`: assigned by the client, stored by the broker. -/
structure JobId where
  uuid : Uuid
  deriving DecidableEq, Repr

/-- `JobId`'s `Display`. -/
def JobId.toText (id : JobId) : List Char := id.uuid.hyphenated

instance : ToString JobId where
  toString id := String.ofList id.toText

/-- `ReservationReceipt`: the token a reservation is resolved with. -/
structure ReservationReceipt where
  uuid : Uuid
  deriving DecidableEq, Repr

/-- `ReservationReceipt`'s derived `Debug`. -/
instance : ToString ReservationReceipt where
  toString receipt := "ReservationReceipt(" ++ String.ofList receipt.uuid.hyphenated ++ ")"

/-- A lane name.  Deserialized lanes are not validated again, so the brokers
may not rely on more than the string. -/
structure Lane where
  name : String
  deriving DecidableEq, Repr

/-- `char::is_control`. -/
def isControl (char : Char) : Bool :=
  decide (char.toNat < 32) || (decide (127 ≤ char.toNat) && decide (char.toNat < 160))

/-- `char::is_whitespace`. -/
def isWhitespace (char : Char) : Bool :=
  (decide (9 ≤ char.toNat) && decide (char.toNat ≤ 13)) ||
    (decide (8192 ≤ char.toNat) && decide (char.toNat ≤ 8202)) ||
    decide (char.toNat ∈ [32, 133, 160, 5760, 8232, 8233, 8239, 8287, 12288])

inductive LaneError where
  | empty
  | tooLong
  | invalidChar
  deriving DecidableEq, Repr

/-- The `Display` text of a lane error. -/
def LaneError.text : LaneError → String
  | .empty => "lane name must not be empty"
  | .tooLong => "lane name must not exceed 256 bytes"
  | .invalidChar =>
    "lane name must not contain control characters or leading/trailing whitespace"

/-- `Lane::validated`, behind `FromStr` and `TryFrom`. -/
def Lane.validated (name : String) : Except LaneError Lane :=
  if name = "" then
    .error .empty
  else if name.utf8ByteSize > 256 then
    .error .tooLong
  else if name.toList.any isControl then
    .error .invalidChar
  else if name.toList.head?.any isWhitespace || name.toList.getLast?.any isWhitespace then
    -- `name.trim() != name`
    .error .invalidChar
  else
    .ok ⟨name⟩

/-- `NewJob`: a job on its way into a broker. -/
structure NewJob where
  id : JobId
  lane : Lane
  kind : String
  payload : List UInt8
  maxAttempts : Nat
  delay : Nat
  uniqueKey : Option String
  priority : Nat
  traceContext : Option (List (String × String))
  deriving DecidableEq, Repr

/-- `JobEnvelope`: the stored job, opaque to the brokers. -/
structure JobEnvelope where
  id : JobId
  lane : Lane
  kind : String
  payload : List UInt8
  attempts : Nat
  maxAttempts : Nat
  priority : Nat
  traceContext : Option (List (String × String))
  deriving DecidableEq, Repr

/-- `NewJob::into_envelope`: `attempts` starts at zero, `delay` and
`unique_key` stay outside the envelope. -/
def NewJob.intoEnvelope (job : NewJob) : JobEnvelope where
  id := job.id
  lane := job.lane
  kind := job.kind
  payload := job.payload
  attempts := 0
  maxAttempts := job.maxAttempts
  priority := job.priority
  traceContext := job.traceContext

/-- One more attempt on the envelope, saturating. -/
def JobEnvelope.bump (envelope : JobEnvelope) : JobEnvelope :=
  { envelope with attempts := saturatingSucc envelope.attempts }

@[simp]
theorem JobEnvelope.bump_id (envelope : JobEnvelope) : envelope.bump.id = envelope.id := rfl

@[simp]
theorem JobEnvelope.bump_lane (envelope : JobEnvelope) : envelope.bump.lane = envelope.lane := rfl

@[simp]
theorem JobEnvelope.bump_priority (envelope : JobEnvelope) :
    envelope.bump.priority = envelope.priority := rfl

@[simp]
theorem NewJob.intoEnvelope_id (job : NewJob) : job.intoEnvelope.id = job.id := rfl

/-- `Reservation`: the envelope, its receipt and the lease applied. -/
structure Reservation where
  envelope : JobEnvelope
  receipt : ReservationReceipt
  lease : Nat
  deriving DecidableEq, Repr

/-- `DeadLetter`: the envelope as it was when it failed, and the error. -/
structure DeadLetter where
  envelope : JobEnvelope
  error : String
  deriving DecidableEq, Repr

/-- `JobState`, the answer of `classify`. -/
inductive JobState where
  | live
  | deadLettered
  | completedOrUnknown
  deriving DecidableEq, Repr

/-- `RetentionPolicy`: optional bounds on the dead-letter store. -/
structure RetentionPolicy where
  maxAge : Option Nat
  maxCount : Option Nat
  deriving DecidableEq, Repr

/-- `RetentionPolicy::is_unbounded`. -/
def RetentionPolicy.isUnbounded (policy : RetentionPolicy) : Bool :=
  policy.maxAge.isNone && policy.maxCount.isNone

end Worklane
