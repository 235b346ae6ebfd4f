import Mathlib.Algebra.GroupWithZero.Nat
import Mathlib.Data.Nat.Log
import Mathlib.Data.String.Basic
import Mathlib.Tactic.Common

/-!
# Printed formats that can be read back

A `Format` prints values as bytes and reads one value off the front of an
input.  The only thing a reader has to know about what follows a value is
that it does not continue a number, so formats compose with separators that
do not start with a digit.
-/

namespace Lib

open List

def isDigitByte (byte : UInt8) : Bool :=
  decide (48 ≤ byte) && decide (byte ≤ 57)

/-- The input after a value does not continue a number. -/
def Ends (rest : List UInt8) : Prop :=
  ∀ byte ∈ rest.head?, isDigitByte byte = false

/-- A separator: not empty, and its first byte is no digit. -/
def separates : List UInt8 → Bool
  | [] => false
  | byte :: _ => !isDigitByte byte

theorem ends_of_separates {separator : List UInt8}
    (valid : separates separator = true) (rest : List UInt8) :
    Ends (separator ++ rest) := by
  cases separator with
  | nil => cases valid
  | cons byte tail =>
    intro first member
    cases member
    simpa [separates] using valid

/-- The input after `token`, when it starts with `token`. -/
def expect : List UInt8 → List UInt8 → Option (List UInt8)
  | [], input => some input
  | _ :: _, [] => none
  | byte :: token, next :: input =>
    if byte = next then expect token input else none

@[simp]
theorem expect_append (token rest : List UInt8) : expect token (token ++ rest) = some rest := by
  induction token with
  | nil => rfl
  | cons byte token ih =>
    simp [expect, ih]

structure Format (α : Type) where
  print : α → List UInt8
  read : List UInt8 → Option (α × List UInt8)
  read_print : ∀ value rest, Ends rest → read (print value ++ rest) = some (value, rest)

namespace Format

variable {α β : Type}

/-- A whole input, with nothing after the value. -/
def readAll (format : Format α) (input : List UInt8) : Option α :=
  match format.read input with
  | some (value, []) => some value
  | _ => none

@[simp]
theorem readAll_print (format : Format α) (value : α) :
    format.readAll (format.print value) = some value := by
  have noMore : Ends [] := by simp [Ends]
  have whole := format.read_print value [] noMore
  rw [append_nil] at whole
  simp [readAll, whole]

/-- Values of another type, through a conversion that can be undone. -/
def adapt (format : Format α) (unwrap : β → α) (wrap : α → Option β)
    (wrap_unwrap : ∀ value, wrap (unwrap value) = some value) :
    Format β where
  print value := format.print (unwrap value)
  read input := do
    let (inner, rest) ← format.read input
    let value ← wrap inner
    some (value, rest)
  read_print value rest follows := by
    simp [format.read_print _ rest follows, wrap_unwrap]

/-- A value behind a fixed text. -/
def after (opening : List UInt8) (format : Format α) : Format α where
  print value := opening ++ format.print value
  read input := (expect opening input).bind format.read
  read_print value rest follows := by
    simp [append_assoc, format.read_print _ rest follows]

/-- A value before a separator. -/
def before (format : Format α) (closing : List UInt8)
    (valid : separates closing = true) : Format α where
  print value := format.print value ++ closing
  read input := do
    let (value, more) ← format.read input
    let rest ← expect closing more
    some (value, rest)
  read_print value rest _ := by
    rw [append_assoc, format.read_print _ _ (ends_of_separates valid rest)]
    simp

theorem before_read (format : Format α) {closing : List UInt8}
    (valid : separates closing = true) (value : α) (rest : List UInt8) :
    (format.before closing valid).read (format.print value ++ (closing ++ rest)) =
      some (value, rest) := by
  simp [before, format.read_print _ _ (ends_of_separates valid rest)]

/-- Two values, where the second never continues a number. -/
def followed (first : Format α) (second : Format β)
    (valid : ∀ value rest, Ends (second.print value ++ rest)) :
    Format (α × β) where
  print value := first.print value.1 ++ second.print value.2
  read input := do
    let (left, more) ← first.read input
    let (right, rest) ← second.read more
    some ((left, right), rest)
  read_print value rest follows := by
    simp [append_assoc, first.read_print _ _ (valid value.2 rest), second.read_print _ rest follows]

/-- Two values with a separator between them. -/
def seq (first : Format α) (separator : List UInt8)
    (valid : separates separator = true) (second : Format β) :
    Format (α × β) :=
  first.followed (second.after separator) (by
    intro value rest
    simpa [after, append_assoc] using ends_of_separates valid _)

/-- `closing`, or a value between `opening` and `closing`. -/
def optional (opening closing : List UInt8) (valid : separates closing = true)
    (differ : ∀ rest, expect opening (closing ++ rest) = none)
    (format : Format α) : Format (Option α) where
  print
    | none => closing
    | some value => opening ++ (format.print value ++ closing)
  read input :=
    match expect opening input with
    | some more => do
        let (value, rest) ← (format.before closing valid).read more
        some (some value, rest)
    | none => (expect closing input).map fun rest => (none, rest)
  read_print value rest _ := by
    cases value with
    | none => simp [differ]
    | some value => simp [append_assoc, before_read]

theorem optional_ends {opening closing : List UInt8}
    (opens : separates opening = true) (valid : separates closing = true)
    (differ : ∀ rest, expect opening (closing ++ rest) = none)
    (format : Format α) (value : Option α) (rest : List UInt8) :
    Ends ((optional opening closing valid differ format).print value ++ rest) := by
  cases value with
  | none => exact ends_of_separates valid rest
  | some value =>
    simp only [optional, append_assoc]
    exact ends_of_separates opens _

/-! ## Numbers -/

theorem digit_byte {char : Char} (digit : char.isDigit = true) : isDigitByte char.toUInt8 = true ∧
      Char.ofNat char.toUInt8.toNat = char := by
  have bounds : 48 ≤ char.toNat ∧ char.toNat ≤ 57 := by
    simpa [Char.isDigit, UInt32.le_iff_toNat_le] using digit
  have same : char.toUInt8.toNat = char.toNat := by
    change char.val.toNat % 256 = char.val.toNat
    exact Nat.mod_eq_of_lt (Nat.lt_of_le_of_lt bounds.2 (by decide))
  refine ⟨?_, by rw [same, Char.ofNat_toNat]⟩
  simp [isDigitByte, UInt8.le_iff_toNat_le, same, bounds]

theorem takeWhile_of_ends {rest : List UInt8} (follows : Ends rest) :
    rest.takeWhile isDigitByte = [] ∧ rest.dropWhile isDigitByte = rest := by
  cases rest with
  | nil => exact ⟨rfl, rfl⟩
  | cons byte tail =>
    have other := follows byte rfl
    simp [other]

/-- The value of decimal digits. -/
def decimalValue (digits : List UInt8) : Nat :=
  Nat.ofDigitChars 10 (digits.map fun byte => Char.ofNat byte.toNat) 0

/-- Natural numbers in decimal. -/
def number : Format Nat where
  print value := (Nat.toDigits 10 value).map Char.toUInt8
  read input :=
    let digits := input.takeWhile isDigitByte
    if digits = [] then
      none
    else
      some (decimalValue digits, input.dropWhile isDigitByte)
  read_print value rest follows := by
    have isDigit : ∀ char ∈ Nat.toDigits 10 value, char.isDigit = true :=
      fun char member =>
        Nat.isDigit_of_mem_toDigits (by decide) (by decide) member
    have allDigits : ∀ byte ∈ (Nat.toDigits 10 value).map Char.toUInt8,
        isDigitByte byte = true := by
      intro byte member
      obtain ⟨char, listed, rfl⟩ := mem_map.mp member
      exact (digit_byte (isDigit char listed)).1
    have readBack : ((Nat.toDigits 10 value).map Char.toUInt8).map
        (fun byte => Char.ofNat byte.toNat) = Nat.toDigits 10 value := by
      rw [map_map]
      apply (map_congr_left _).trans (map_id _)
      intro char listed
      exact (digit_byte (isDigit char listed)).2
    obtain ⟨noDigits, unchanged⟩ := takeWhile_of_ends follows
    simp only [takeWhile_append_of_pos allDigits, noDigits,
      append_nil, dropWhile_append_of_pos allDigits, unchanged,
      map_eq_nil_iff, Nat.toDigits_ne_nil, if_false, decimalValue,
      readBack, Nat.ofDigitChars_toDigits (b := 10) (by decide) (by decide)]

theorem number_starts (value : Nat) : ∃ byte tail, number.print value = byte :: tail ∧
      isDigitByte byte = true := by
  cases printed : Nat.toDigits 10 value with
  | nil => exact absurd printed Nat.toDigits_ne_nil
  | cons char chars =>
    have digit : char.isDigit = true :=
      Nat.isDigit_of_mem_toDigits (b := 10) (n := value) (by decide) (by decide) (by simp [printed])
    exact ⟨char.toUInt8, chars.map Char.toUInt8, by simp [number, printed], (digit_byte digit).1⟩

/-! ## Strings -/

/-- The lower-case hexadecimal digit of a number below sixteen. -/
def hexByte (digit : UInt8) : UInt8 :=
  if digit < 10 then 48 + digit else 87 + digit

def hexValue (byte : UInt8) : UInt8 :=
  if byte < 58 then byte - 48 else byte - 87

/-- The bytes with a short escape, and the letter behind the backslash. -/
def shortEscapes : List (UInt8 × UInt8) :=
  [(34, 34), (92, 92), (8, 98), (9, 116), (10, 110), (12, 102), (13, 114)]

/-- One byte inside quotes: quote, backslash and control characters are
escaped. -/
def escape (byte : UInt8) : List UInt8 :=
  match shortEscapes.lookup byte with
  | some letter => [92, letter]
  | none =>
    if byte < 32 then
      [92, 117, 48, 48, hexByte (byte / 16), hexByte (byte % 16)]
    else
      [byte]

/-- The byte of a short escape. -/
def unescape (letter : UInt8) : Option UInt8 :=
  (shortEscapes.find? fun entry => entry.2 = letter).map Prod.fst

/-- Everything up to the closing quote. -/
def readQuoted : List UInt8 → Option (List UInt8 × List UInt8)
  | [] => none
  | byte :: rest =>
    if byte = 34 then
      some ([], rest)
    else if byte = 92 then
      match rest with
      | [] => none
      | letter :: more =>
        if letter = 117 then
          match more with
          | _ :: _ :: high :: low :: tail =>
            (readQuoted tail).map (.map ((16 * hexValue high + hexValue low) :: ·) id)
          | _ => none
        else
          (unescape letter).bind fun byte =>
            (readQuoted more).map (.map (byte :: ·) id)
    else
      (readQuoted rest).map (.map (byte :: ·) id)

/-- The three forms an escaped byte can have. -/
inductive Escaped (byte : UInt8) : List UInt8 → Prop
  | plain (noQuote : byte ≠ 34) (noEscape : byte ≠ 92) : Escaped byte [byte]
  | short {letter : UInt8} (noCode : letter ≠ 117)
      (known : unescape letter = some byte) : Escaped byte [92, letter]
  | code {high low : UInt8} (value : 16 * hexValue high + hexValue low = byte) :
      Escaped byte [92, 117, 48, 48, high, low]

theorem escaped_escape (byte : UInt8) : Escaped byte (escape byte) := by
  have shortCase : shortEscapes.all (fun entry =>
    entry.2 ≠ 117 ∧ unescape entry.2 = some entry.1) = true := by
    decide
  have controlCase : ∀ code < 32, ∀ control, control = UInt8.ofNat code →
      16 * hexValue (hexByte (control / 16)) + hexValue (hexByte (control % 16)) = control := by
    rintro code below control rfl
    revert code
    decide +kernel
  have listed : (34, 34) ∈ shortEscapes ∧ (92, 92) ∈ shortEscapes := by
    decide
  unfold escape
  cases found : shortEscapes.lookup byte with
  | some letter =>
    have member : (byte, letter) ∈ shortEscapes := by
      obtain ⟨first, last, split, _⟩ := lookup_eq_some_iff.mp found
      rw [split]
      simp
    obtain ⟨noCode, known⟩ := of_decide_eq_true (all_eq_true.mp shortCase _ member)
    exact .short noCode known
  | none =>
    have absent := lookup_eq_none_iff.mp found
    dsimp only
    split
    · rename_i control
      apply Escaped.code
      apply controlCase byte.toNat
      · exact UInt8.lt_iff_toNat_lt.mp control
      · simp
    · apply Escaped.plain
      · rintro rfl
        simpa using absent _ listed.1
      · rintro rfl
        simpa using absent _ listed.2

theorem readQuoted_escape (byte : UInt8) (rest : List UInt8) : readQuoted (escape byte ++ rest) =
      (readQuoted rest).map (.map (byte :: ·) id) := by
  have form := escaped_escape byte
  generalize escape byte = written at form
  cases form with
  | plain noQuote noEscape =>
    rw [cons_append, readQuoted.eq_def]
    simp [noQuote, noEscape]
  | short noCode known =>
    rw [cons_append, readQuoted.eq_def]
    simp [noCode, known]
  | code value =>
    rw [cons_append, readQuoted.eq_def]
    simp [value]

/-- Bytes between quotes. -/
def quoted : Format (List UInt8) where
  print value := 34 :: (value.flatMap escape ++ [34])
  read input := (expect [34] input).bind readQuoted
  read_print value rest _ := by
    have body : readQuoted (value.flatMap escape ++ (34 :: rest)) = some (value, rest) := by
      induction value with
      | nil =>
        rw [flatMap_nil, nil_append, readQuoted.eq_def]
        simp
      | cons byte value ih =>
        rw [flatMap_cons, append_assoc, readQuoted_escape, ih]
        rfl
    simp [expect, body]

/-- The bytes of a string. -/
def utf8 (text : String) : List UInt8 := text.toByteArray.data.toList

/-- Strings, as their quoted bytes. -/
def string : Format String :=
  quoted.adapt utf8 (fun bytes => String.fromUTF8? ⟨bytes.toArray⟩) (by
    intro text
    simp [utf8, String.fromUTF8?, String.fromUTF8, text.isValidUTF8])

/-! ## Lists -/

section Lists

/-- The items and the closing byte, behind the opening one. -/
def printItems (item : Format α) (closing : UInt8) : List α → List UInt8
  | [] => [closing]
  | [value] => item.print value ++ [closing]
  | value :: values => item.print value ++ 44 :: printItems item closing values

/-- Items separated by commas.  The fuel is spent once an item. -/
def readItems (item : Format α) (closing : UInt8) : Nat → List UInt8 → Option (List α × List UInt8)
  | 0, _ => none
  | fuel + 1, input =>
    match item.read input with
    | none => none
    | some (_, []) => none
    | some (value, byte :: more) =>
      if byte = 44 then
        (readItems item closing fuel more).map (.map (value :: ·) id)
      else if byte = closing then
        some ([value], more)
      else
        none

theorem length_le_printItems (item : Format α) (closing : UInt8) :
    ∀ values, values.length ≤ (printItems item closing values).length
  | [] => Nat.zero_le _
  | [value] => by simp [printItems]
  | value :: next :: values => by
      have later := length_le_printItems item closing (next :: values)
      simp only [printItems, length_append, length_cons] at later ⊢
      omega

theorem readItems_printItems (item : Format α) {closing : UInt8}
    (noDigit : isDigitByte closing = false) (noComma : closing ≠ 44)
    (rest : List UInt8) :
    ∀ (fuel : Nat) (values : List α), values ≠ [] → values.length ≤ fuel →
      readItems item closing fuel (printItems item closing values ++ rest) = some (values, rest)
  | _, [], nonempty, _ => absurd rfl nonempty
  | fuel + 1, [value], _, _ => by
      have follows : Ends (closing :: rest) := by
        intro byte member
        cases member
        exact noDigit
      simp [readItems, printItems, item.read_print value _ follows, noComma]
  | fuel + 1, value :: next :: values, _, enough => by
      have follows : ∀ later, Ends ((44 : UInt8) :: later) := by
        intro later byte member
        cases member
        rfl
      have others := readItems_printItems item noDigit noComma rest fuel
        (next :: values) (by simp) (by simpa using enough)
      simp [readItems, printItems, item.read_print value _ (follows _), others]

/-- Values between an opening and a closing byte, separated by commas. -/
def list (item : Format α) (opening closing : UInt8)
    (noDigit : isDigitByte closing = false) (noComma : closing ≠ 44)
    (apart : ∀ value rest, (item.print value ++ rest).head? ≠ some closing) :
    Format (List α) where
  print values := opening :: printItems item closing values
  read input :=
    match expect [opening] input with
    | none => none
    | some more =>
      if more.head? = some closing then
        some ([], more.tail)
      else
        readItems item closing more.length more
  read_print values rest _ := by
    cases values with
    | nil => simp [expect, printItems]
    | cons value values =>
      have starts : (printItems item closing (value :: values) ++ rest).head? ≠ some closing := by
        cases values with
        | nil =>
          simpa [printItems] using apart value (closing :: rest)
        | cons next values =>
          simpa [printItems] using apart value
            (44 :: (printItems item closing (next :: values) ++ rest))
      have enough := length_le_printItems item closing (value :: values)
      have items := readItems_printItems item noDigit noComma rest
        (printItems item closing (value :: values) ++ rest).length
        (value :: values) (by simp)
        (by rw [length_append]; omega)
      simp only [cons_append, expect, if_true, starts, if_false, items]

end Lists

/-! ## Sizes -/

/-- How many bytes a byte takes between quotes. -/
def escapedSize (byte : UInt8) : Nat :=
  if byte ∈ [8, 9, 10, 12, 13, 34, 92] then 2 else if byte < 32 then 6 else 1

/-- The size of a quoted string. -/
def textSize (text : String) : Nat := 2 + ((utf8 text).map escapedSize).sum

/-- The size of a bracketed list, from the sizes of its items. -/
def listSize (sizes : List Nat) : Nat := 2 + sizes.sum + (sizes.length - 1)

theorem length_number (value : Nat) : (number.print value).length = Nat.log 10 value + 1 := by
  simp only [number, length_map]
  apply Nat.le_antisymm
  · exact (Nat.length_toDigits_le_iff (by decide) (Nat.succ_pos _)).mpr
      (Nat.lt_pow_succ_log_self (by decide) _)
  · by_contra fewer
    have positive : 0 < (Nat.toDigits 10 value).length := Nat.length_toDigits_pos
    have below := (Nat.length_toDigits_le_iff (by decide) positive).mp (Nat.le_refl _)
    exact fewer (Nat.log_lt_of_lt_pow' (Nat.ne_of_gt positive) below)

theorem length_escape (byte : UInt8) : (escape byte).length = escapedSize byte := by
  have all : ∀ code < 256, (escape (.ofNat code)).length = escapedSize (.ofNat code) := by
    decide +kernel
  simpa using all byte.toNat byte.toNat_lt

theorem length_quoted (bytes : List UInt8) :
    (quoted.print bytes).length = 2 + (bytes.map escapedSize).sum := by
  simp only [quoted, length_cons, length_append, length_flatMap, length_nil, length_escape]
  exact Nat.add_comm _ 2

theorem length_string (text : String) : (string.print text).length = textSize text :=
  length_quoted _

theorem length_printItems (item : Format α) (closing : UInt8) : ∀ values,
    (printItems item closing values).length =
      (values.map fun value => (item.print value).length).sum + (values.length - 1) + 1
  | [] => rfl
  | [value] => by simp [printItems]
  | value :: next :: values => by
      have later := length_printItems item closing (next :: values)
      simp only [printItems, length_append, length_cons, map_cons, sum_cons] at later ⊢
      omega

theorem length_list (item : Format α) (opening closing : UInt8) (values : List α) :
    (opening :: printItems item closing values).length =
      listSize (values.map fun value => (item.print value).length) := by
  rw [length_cons, length_printItems, listSize, length_map]
  omega

end Format

end Lib
