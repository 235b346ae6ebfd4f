import Mathlib.Data.List.MinMax
import Worklane.Lib.Utf8

/-!
# Credential redaction

The userinfo pass of `redact.rs`.  A text is a list of characters and every offset
counts bytes, as in the source.  Two things can go wrong and both are faults
here: a slice at an offset inside a character, and a loop that needs more
rounds than it is given.
-/

namespace Worklane.Redact

open Lib.Utf8

abbrev Text := List Char

inductive Fault where
  | sliced
  | unfinished
  deriving DecidableEq, Repr

/-- `&text[offset..]`. -/
def sliceFrom (text : Text) (offset : Nat) : Except Fault Text :=
  match splitAt offset text with
  | some parts => .ok parts.2
  | none => .error .sliced

/-- `&text[..offset]`. -/
def sliceTo (text : Text) (offset : Nat) : Except Fault Text :=
  match splitAt offset text with
  | some parts => .ok parts.1
  | none => .error .sliced

def schemeMark : Text := "://".toList

def stars : Text := "***".toList

/-- The whitespace and quotes that end a URL in a line of text. -/
def isDelimiter (char : Char) : Bool :=
  char == ' ' || char == '\t' || char == '\n' || char == '"' || char == '\''

/-! ## Userinfo -/

def isMarker (char : Char) : Bool := char == '/' || char == '?' || char == '#'

def looksLikeUserinfo (text : Text) : Bool :=
  text.contains ':' || !text.any isMarker

/-- The loop of `redact_userinfo`: what is left of the message and the output
so far. -/
def userinfoLoop : Nat → Text → Text → Except Fault Text
  | 0, _, _ => .error .unfinished
  | rounds + 1, rest, out =>
    match find schemeMark rest with
    | none => .ok (out ++ rest)
    | some schemePos => do
      let after := schemePos + 3
      let head ← sliceTo rest after
      let tail ← sliceFrom rest after
      let tokenEnd := (findChar isDelimiter tail).getD (size tail)
      let token ← sliceTo tail tokenEnd
      let next ← sliceFrom tail tokenEnd
      match rfindChar '@' token with
      | some position => do
        let userinfo ← sliceTo token position
        if looksLikeUserinfo userinfo then do
          let host ← sliceFrom token (position + 1)
          userinfoLoop rounds next (out ++ head ++ (stars ++ ['@']) ++ host)
        else
          userinfoLoop rounds next (out ++ head ++ token)
      | none => userinfoLoop rounds next (out ++ head ++ token)

def redactUserinfo (msg : Text) : Except Fault Text :=
  userinfoLoop (size msg + 1) msg []

/-! ## Slices that succeed -/

section Slices

variable {text front back : Text}

@[simp]
theorem sliceFrom_size (front back : Text) : sliceFrom (front ++ back) (size front) = .ok back := by
  simp [sliceFrom]

@[simp]
theorem sliceTo_size (front back : Text) : sliceTo (front ++ back) (size front) = .ok front := by
  simp [sliceTo]

end Slices

end Worklane.Redact
