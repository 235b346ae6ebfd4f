import Worklane.Core.Json
import Worklane.Facade.Client

/-!
# The JSON of a fan-in watcher

The bytes `serde_json::to_vec` writes for a `FanInWatcherPayload`: its fields
in declaration order, ids as strings, captured outputs as pairs, byte vectors
as arrays of numbers.

`plainCrates` puts this format together with an assembly that is the list of
its slots.  It shows that what is assumed of the crates can be met.
-/

namespace Worklane.Facade

open Lib Lib.Format

namespace Json

def jobId : Format JobId :=
  Worklane.Json.uuid.adapt JobId.uuid (fun uuid => some ⟨uuid⟩) fun _ => rfl

def u32 : Format UInt32 :=
  number.adapt UInt32.toNat
    (fun value => if value < 2 ^ 32 then some (UInt32.ofNat value) else none)
    (by
      intro value
      simp [value.toNat_lt])

def u64 : Format UInt64 :=
  number.adapt UInt64.toNat
    (fun value => if value < 2 ^ 64 then some (UInt64.ofNat value) else none)
    (by
      intro value
      simp [value.toNat_lt])

theorem bracket_noDigit : isDigitByte 93 = false := by decide

theorem bracket_noComma : (93 : UInt8) ≠ 44 := by decide

theorem jobId_apart (value : JobId) (rest : List UInt8) :
    (jobId.print value ++ rest).head? ≠ some 93 := by
  simp [jobId, Worklane.Json.uuid, adapt, quoted]

def ids : Format (List JobId) :=
  jobId.list 91 93 bracket_noDigit bracket_noComma jobId_apart

/-- A captured output. -/
def captured : Format (JobId × Blob) :=
  after [91] ((jobId.seq [44] (by decide) Worklane.Json.bytes).before [93] (by decide))

theorem captured_apart (value : JobId × Blob) (rest : List UInt8) :
    (captured.print value ++ rest).head? ≠ some 93 := by
  simp [captured, after]

def collected : Format (List (JobId × Blob)) :=
  captured.list 91 93 bracket_noDigit bracket_noComma captured_apart

abbrev Fields : Type :=
  String × List JobId × UInt32 × UInt64 × UInt32 × List (JobId × Blob) ×
    String × String × Blob × UInt32 × UInt8

def fields : Format Fields :=
  after (utf8 "\x7b\"fanin_id\":") ((string.seq (utf8 ",\"dependencies\":") (by decide)
    (ids.seq (utf8 ",\"generation\":") (by decide)
    (u32.seq (utf8 ",\"poll_delay_secs\":") (by decide)
    (u64.seq (utf8 ",\"max_generations\":") (by decide)
    (u32.seq (utf8 ",\"collected\":") (by decide)
    (collected.seq (utf8 ",\"callback_lane\":") (by decide)
    (string.seq (utf8 ",\"callback_kind\":") (by decide)
    (string.seq (utf8 ",\"callback_payload\":") (by decide)
    (Worklane.Json.bytes.seq (utf8 ",\"callback_max_attempts\":") (by decide)
    (u32.seq (utf8 ",\"callback_priority\":") (by decide)
      Worklane.Json.byte)))))))))).before [125] brace_separates)

def toFields (payload : FanInWatcherPayload) : Fields :=
  (payload.faninId, payload.dependencies, payload.generation,
    payload.pollDelaySecs, payload.maxGenerations, payload.collected,
    payload.callbackLane, payload.callbackKind, payload.callbackPayload,
    payload.callbackMaxAttempts, payload.callbackPriority)

def ofFields : Fields → FanInWatcherPayload
  | (faninId, dependencies, generation, pollDelaySecs, maxGenerations,
      collected, callbackLane, callbackKind, callbackPayload,
      callbackMaxAttempts, callbackPriority) =>
      { faninId := faninId
        dependencies := dependencies
        generation := generation
        pollDelaySecs := pollDelaySecs
        maxGenerations := maxGenerations
        collected := collected
        callbackLane := callbackLane
        callbackKind := callbackKind
        callbackPayload := callbackPayload
        callbackMaxAttempts := callbackMaxAttempts
        callbackPriority := callbackPriority }

def watcher : Format FanInWatcherPayload :=
  fields.adapt toFields (fun fields => some (ofFields fields)) (fun _ => rfl)

/-- The values of JSON that are not nested, with numbers in `u64`'s form. -/
inductive Scalar where
  | null
  | bool (value : Bool)
  | natural (value : Nat)
  | text (value : String)

def Scalar.print : Scalar → Blob
  | .null => utf8 "null"
  | .bool true => utf8 "true"
  | .bool false => utf8 "false"
  | .natural value => number.print value
  | .text value => string.print value

def Scalar.read (input : Blob) : Option (Scalar × Blob) :=
  match input with
  | 110 :: _ => (expect (utf8 "null") input).map fun rest => (.null, rest)
  | 116 :: _ => (expect (utf8 "true") input).map fun rest => (.bool true, rest)
  | 102 :: _ => (expect (utf8 "false") input).map fun rest => (.bool false, rest)
  | 34 :: _ => (string.read input).map fun found => (.text found.1, found.2)
  | _ => (number.read input).map fun found => (.natural found.1, found.2)

theorem Scalar.read_print (value : Scalar) (rest : Blob) (follows : Ends rest) :
    Scalar.read (value.print ++ rest) = some (value, rest) := by
  cases value with
  | null => rfl
  | bool value => cases value <;> rfl
  | text value =>
    have whole := string.read_print value rest follows
    change Option.map _ (string.read (string.print value ++ rest)) = _
    rw [whole]
    rfl
  | natural value =>
    have whole := number.read_print value rest follows
    obtain ⟨byte, tail, printed, digit⟩ := number_starts value
    rw [printed] at whole
    rw [Scalar.print, printed]
    unfold Scalar.read
    split <;> simp_all [isDigitByte]

def scalar : Format Scalar := ⟨Scalar.print, Scalar.read, Scalar.read_print⟩

end Json

/-- An assembly that is its slots. -/
def plainLengkap : Lengkap where
  Assembly := Slots
  fromSlots slots := slots
  intoSlots slots := slots
  unresolvedSlots := emptySlots
  adjudicate slots findings :=
    match findings.findSome? fun finding =>
      match finding.2 with
      | .impossible cause => some cause
      | .produced _ => none with
    | some cause => .ok (.impossible cause)
    | none =>
      if none ∈ fill slots findings then
        .ok (.pending (fill slots findings))
      else
        .ok (.ready ((fill slots findings).filterMap id))
  intoSlots_fromSlots _ := rfl
  fromSlots_intoSlots _ := rfl
  unresolvedSlots_eq _ := rfl
  adjudicate_pending slots findings next decides := by
    split at decides
    · cases decides
    · split at decides
      · next empty =>
        cases decides
        exact ⟨rfl, empty⟩
      · cases decides
  adjudicate_ready slots findings results decides := by
    split at decides
    · cases decides
    · split at decides
      · cases decides
      · next full =>
        cases decides
        generalize fill slots findings = filled at full
        induction filled with
        | nil => rfl
        | cons slot rest ih =>
          rw [List.mem_cons, not_or] at full
          cases slot with
          | none => exact absurd rfl full.1
          | some bytes => simpa using ih full.2

def plainCrates : Crates where
  lengkap := plainLengkap
  toWatcher payload := ⟨Json.watcher.print payload, plain_of_open rfl⟩
  fromWatcher bytes :=
    match Json.watcher.readAll bytes with
    | some payload => .ok payload
    | none => .error "invalid fan-in watcher payload"
  fromWatcher_toWatcher payload := by simp
  Value := Json.Scalar
  value := Json.scalar
  fromSlice bytes :=
    match Json.scalar.readAll bytes with
    | some context => .ok context
    | none => .error "expected value"
  fromSlice_print context := by simp
  redactQuery text := text
  durationText duration := s!"{duration}ns"

end Worklane.Facade
