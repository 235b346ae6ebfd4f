import Worklane.Core.Spi
import Worklane.Lib.Codec

/-!
# The stored form of an envelope

The bytes `serde_json::to_vec` writes for a `JobEnvelope`: the fields in
declaration order, ids and lanes as strings, the payload as an array of
numbers, and `trace_context` only when it is present.
-/

namespace Worklane.Json

open Lib Lib.Format

/-- The hexadecimal digits of a UUID text, with its hyphens skipped. -/
def parseUuid (bytes : List UInt8) : Option Uuid :=
  let digits := bytes.filter fun byte => byte != 45
  if digits.length = 32 then
    some ⟨BitVec.ofNat 128 (digitsValue 16 0 (digits.map fun byte => (hexValue byte).toNat))⟩
  else
    none

/-- Hexadecimal digits as bytes. -/
def hexBytes (width value : Nat) : List UInt8 :=
  (fixedText 16 width value).map Char.toUInt8

theorem hexBytes_value (width value : Nat) :
    (hexBytes width value).map (fun byte => (hexValue byte).toNat) =
      fixedDigits 16 width value := by
  have readBack : ∀ digit < 16, (hexValue (digitChar digit).toUInt8).toNat = digit := by
    decide
  simp only [hexBytes, fixedText, List.map_map]
  apply (List.map_congr_left _).trans (List.map_id _)
  intro digit member
  exact readBack digit (fixedDigits_lt (by decide) member)

theorem hexBytes_noHyphen (width value : Nat) :
    ∀ byte ∈ hexBytes width value, (byte != 45) = true := by
  have noHyphen : ∀ digit < 16, ((digitChar digit).toUInt8 != 45) = true := by
    decide
  simp only [hexBytes, fixedText, List.map_map]
  intro byte member
  obtain ⟨digit, listed, rfl⟩ := List.mem_map.mp member
  exact noHyphen digit (fixedDigits_lt (by decide) listed)

theorem filter_hyphenated (uuid : Uuid) :
    (uuid.hyphenated.map Char.toUInt8).filter (fun byte => byte != 45) =
      hexBytes 32 uuid.bits.toNat := by
  have noHyphen := hexBytes_noHyphen 32 uuid.bits.toNat
  have group : ∀ skipped length, (((hexBytes 32 uuid.bits.toNat).drop skipped).take length).filter
        (fun byte => byte != 45) =
      ((hexBytes 32 uuid.bits.toNat).drop skipped).take length := by
    intro skipped length
    apply List.filter_eq_self.mpr
    intro byte member
    exact noHyphen byte (List.mem_of_mem_drop (List.mem_of_mem_take member))
  have first := group 0 8
  have last : ((hexBytes 32 uuid.bits.toNat).drop 20).filter
      (fun byte => byte != 45) = (hexBytes 32 uuid.bits.toNat).drop 20 := by
    apply List.filter_eq_self.mpr
    intro byte member
    exact noHyphen byte (List.mem_of_mem_drop member)
  have hyphen : ('-'.toUInt8 != 45) = false := by decide
  simp only [Uuid.hyphenated, List.map_append, List.map_cons, List.map_take,
    List.map_drop, List.filter_append, List.filter_cons, hyphen]
  simp only [hexBytes, List.drop_zero] at first group last ⊢
  have joined : ∀ {skipped length : Nat} (digits : List UInt8),
      (digits.drop skipped).take length ++ digits.drop (skipped + length) =
        digits.drop skipped := by
    intro skipped length digits
    rw [← List.drop_drop, List.take_append_drop]
  rw [first, group, group, group, last]
  simp [joined]

theorem parseUuid_hyphenated (uuid : Uuid) :
    parseUuid (uuid.hyphenated.map Char.toUInt8) = some uuid := by
  have fits : uuid.bits.toNat % 16 ^ 32 = uuid.bits.toNat :=
    Nat.mod_eq_of_lt (by simpa using uuid.bits.isLt)
  simp only [parseUuid, filter_hyphenated, hexBytes_value, digitsValue_fixedDigits, fits]
  simp [hexBytes]

theorem hyphenated_injective : Function.Injective Uuid.hyphenated := by
  intro left right same
  have parsed := parseUuid_hyphenated left
  rw [same, parseUuid_hyphenated] at parsed
  exact (Option.some.inj parsed).symm

def uuid : Format Uuid :=
  quoted.adapt (fun uuid => uuid.hyphenated.map Char.toUInt8) parseUuid parseUuid_hyphenated

/-- `Vec<u8>`: an array of numbers. -/
def byte : Format UInt8 :=
  number.adapt UInt8.toNat (fun value => if value < 256 then some (UInt8.ofNat value) else none) (by
      intro byte
      simp [byte.toNat_lt])

def bytes : Format (List UInt8) :=
  byte.list 91 93 (by decide) (by decide) (by
    intro value rest
    obtain ⟨first, tail, printed, digit⟩ := number_starts value.toNat
    change (number.print value.toNat ++ rest).head? ≠ _
    rw [printed]
    rintro ⟨⟩
    cases digit)

def blobs : Format (List Blob) :=
  bytes.list 91 93 (by decide) (by decide) (by
    intro value rest
    simp [bytes, list])

/-- A string-to-string map. -/
def headers : Format (List (String × String)) :=
  (string.seq [58] (by decide) string).list 123 125 (by decide) (by decide) (by
      intro value rest
      simp [seq, followed, string, adapt, quoted])

abbrev Fields : Type :=
  Uuid × String × String × List UInt8 × Nat × Nat × Nat × Option (List (String × String))

def fields : Format Fields :=
  after (utf8 "\x7b\"id\":") (uuid.seq (utf8 ",\"lane\":") (by decide)
    (string.seq (utf8 ",\"kind\":") (by decide)
    (string.seq (utf8 ",\"payload\":") (by decide)
    (bytes.seq (utf8 ",\"attempts\":") (by decide)
    (number.seq (utf8 ",\"max_attempts\":") (by decide)
    (number.seq (utf8 ",\"priority\":") (by decide)
    (number.followed (optional (utf8 ",\"trace_context\":") [125] (by decide)
        (fun _ => rfl) headers)
      (optional_ends (by decide) (by decide) _ headers))))))))

/-- An envelope as its fields. -/
def toFields (envelope : JobEnvelope) : Fields :=
  (envelope.id.uuid, envelope.lane.name, envelope.kind, envelope.payload,
    envelope.attempts, envelope.maxAttempts, envelope.priority,
    envelope.traceContext)

def ofFields : Fields → JobEnvelope
  | (id, lane, kind, payload, attempts, maxAttempts, priority, context) =>
    { id := ⟨id⟩
      lane := ⟨lane⟩
      kind := kind
      payload := payload
      attempts := attempts
      maxAttempts := maxAttempts
      priority := priority
      traceContext := context }

def envelope : Format JobEnvelope :=
  fields.adapt toFields (fun fields => some (ofFields fields)) (fun _ => rfl)

theorem payload_le_print (stored : JobEnvelope) :
    stored.payload.length ≤ (envelope.print stored).length := by
  have written := length_le_printItems byte 93 stored.payload
  simp only [envelope, adapt, fields, after, seq, followed, toFields, bytes,
    list, List.length_append, List.length_cons]
  omega

/-- `serde_json` with this layout. -/
def serde : SerdeJson where
  toVec := envelope.print
  fromSlice bytes :=
    match envelope.readAll bytes with
    | some stored => .ok stored
    | none => .error "invalid job envelope"
  fromSlice_toVec stored := by simp
  payload_le_toVec := payload_le_print

/-- The size of the stored form.  A payload byte takes its digits and, except
for the last, a comma. -/
def envelopeSize (envelope : JobEnvelope) : Nat :=
  let digits (value : Nat) := Nat.log 10 value + 1
  111 + textSize envelope.lane.name + textSize envelope.kind +
    listSize (envelope.payload.map fun byte => digits byte.toNat) + digits envelope.attempts +
    digits envelope.maxAttempts + digits envelope.priority +
    match envelope.traceContext with
    | none => 1
    | some entries =>
      18 + listSize (entries.map fun entry => textSize entry.1 + 1 + textSize entry.2)

theorem length_uuid (id : Uuid) : (uuid.print id).length = 38 := by
  have plain : ∀ digit < 16, escapedSize (digitChar digit).toUInt8 = 1 := by decide
  have hex : ∀ char ∈ fixedText 16 32 id.bits.toNat, escapedSize char.toUInt8 = 1 := by
    intro char member
    obtain ⟨digit, listed, rfl⟩ := List.mem_map.mp member
    exact plain digit (fixedDigits_lt (by decide) listed)
  have ones : (id.hyphenated.map Char.toUInt8).map escapedSize = List.replicate 36 1 := by
    rw [List.map_map, List.eq_replicate_iff]
    refine ⟨by simp [Uuid.hyphenated], List.forall_mem_map.mpr fun char member => ?_⟩
    simp only [Uuid.hyphenated, List.mem_append, List.mem_cons] at member
    rcases member with inside | rfl | inside | rfl | inside | rfl | inside | rfl | inside
    · exact hex char (List.mem_of_mem_take inside)
    · rfl
    · exact hex char (List.mem_of_mem_drop (List.mem_of_mem_take inside))
    · rfl
    · exact hex char (List.mem_of_mem_drop (List.mem_of_mem_take inside))
    · rfl
    · exact hex char (List.mem_of_mem_drop (List.mem_of_mem_take inside))
    · rfl
    · exact hex char (List.mem_of_mem_drop inside)
  rw [uuid, adapt, length_quoted, ones]
  rfl

theorem length_print (stored : JobEnvelope) :
    (envelope.print stored).length = envelopeSize stored := by
  have payload : (bytes.print stored.payload).length =
      listSize (stored.payload.map fun byte => Nat.log 10 byte.toNat + 1) :=
    (length_list byte 91 93 _).trans (by simp only [byte, adapt, length_number])
  have context : ∀ entries, (headers.print entries).length =
      listSize (entries.map fun entry => textSize entry.1 + 1 + textSize entry.2) := by
    intro entries
    refine (length_list _ 123 125 _).trans ?_
    simp only [seq, followed, after, List.length_append, length_string, List.length_singleton,
      Nat.add_assoc]
  have names : (utf8 "\x7b\"id\":").length = 6 ∧ (utf8 ",\"lane\":").length = 8 ∧
      (utf8 ",\"kind\":").length = 8 ∧ (utf8 ",\"payload\":").length = 11 ∧
      (utf8 ",\"attempts\":").length = 12 ∧ (utf8 ",\"max_attempts\":").length = 16 ∧
      (utf8 ",\"priority\":").length = 12 ∧ (utf8 ",\"trace_context\":").length = 17 := by
    decide
  simp only [envelope, adapt, fields, after, seq, followed, toFields, List.length_append,
    length_uuid, length_string, length_number, payload, names, envelopeSize]
  cases stored.traceContext with
  | none =>
    simp only [Format.optional, List.length_singleton]
    omega
  | some entries =>
    simp only [Format.optional, List.length_append, names, context, List.length_singleton]
    omega

/-- The size of a stored envelope depends on its attempts only through their
digits. -/
theorem length_print_attempts (stored : JobEnvelope) (attempts : Nat) :
    (envelope.print { stored with attempts := attempts }).length +
        (number.print stored.attempts).length =
      (envelope.print stored).length + (number.print attempts).length := by
  simp only [envelope, adapt, fields, after, seq, followed, toFields, List.length_append]
  omega

theorem encodable_of_room {stored : JobEnvelope}
    (context : checkTraceContext stored.traceContext = .ok ())
    (room : (envelope.print stored).length + 10 ≤ maxEnvelopeBytes) :
    Encodable serde stored := by
  intro attempts small
  have digits : (number.print attempts).length ≤ 10 := by
    simp only [number, List.length_map]
    apply (Nat.length_toDigits_le_iff (by decide) (by decide)).mpr
    exact Nat.lt_of_le_of_lt small (by decide)
  have length := length_print_attempts stored attempts
  refine ⟨envelope.print { stored with attempts := attempts }, ?_⟩
  have fits : ¬ (envelope.print { stored with attempts := attempts }).length >
      maxEnvelopeBytes := by omega
  simp only [encodeEnvelope, context, Bind.bind, Except.bind, serde]
  exact if_neg fits

end Worklane.Json
