import Worklane.Core.Redact
import Worklane.Lib.Words

/-!
# The first pass: userinfo

The loop of `redact_userinfo` rewrites every word of the message by itself: from
the first `://` of the word on it looks at the last `@`, and drops what stands
before that if it takes it for userinfo.
-/

namespace Worklane.Redact

open List
open Lib.Utf8 Lib.Words

/-- What the loop makes of the part of a URL behind the scheme. -/
def redactToken (token : Text) : Text :=
  match cutLast '@' token with
  | some (userinfo, host) =>
    if looksLikeUserinfo userinfo then stars ++ '@' :: host else token
  | none => token

def redactWord (word : Text) : Text :=
  match cut schemeMark word with
  | some (scheme, token) => scheme ++ schemeMark ++ redactToken token
  | none => word

def hideUserinfo (msg : Text) : Text := each isDelimiter redactWord [] msg

theorem redactWord_nil : redactWord [] = [] := rfl

theorem schemeMark_solid : Solid isDelimiter schemeMark := solid_of_all (by decide)

/-! ## The first scheme mark -/

section Mark

variable {scheme token text : Text}

/-- A mark does not overlap itself, so behind a text without one it is first. -/
theorem firstAt_mark (unmarked : ¬ schemeMark <:+: scheme) :
    FirstAt schemeMark scheme (scheme ++ schemeMark ++ token) := by
  induction scheme with
  | nil => exact fun _ _ _ => Nat.zero_le _
  | cons char rest ih =>
    intro earlier after split
    cases earlier with
    | cons head tail =>
      simp only [cons_append, List.cons.injEq] at split
      exact Nat.succ_le_succ (ih
        (fun inside => unmarked (infix_cons_iff.mpr (Or.inr inside))) tail after split.2)
    | nil =>
      exfalso
      rcases rest with _ | ⟨second, _ | ⟨third, rest⟩⟩
      · simp [schemeMark] at split
      · simp [schemeMark] at split
      · simp only [schemeMark, String.reduceToList, cons_append, nil_append,
          List.cons.injEq] at split
        obtain ⟨rfl, rfl, rfl, _⟩ := split
        exact unmarked ⟨[], rest, rfl⟩

theorem redactWord_mark (first : FirstAt schemeMark scheme (scheme ++ schemeMark ++ token)) :
    redactWord (scheme ++ schemeMark ++ token) = scheme ++ schemeMark ++ redactToken token := by
  rw [redactWord, cut_of_firstAt first]

theorem redactWord_plain (unmarked : ¬ schemeMark <:+: text) : redactWord text = text := by
  rw [redactWord]
  cases found : cut schemeMark text with
  | none => rfl
  | some parts =>
    obtain ⟨front, back⟩ := parts
    exact absurd ⟨front, back, (cut_eq_some found).1.symm⟩ unmarked

theorem each_plain {word : Text} (unmarked : ¬ schemeMark <:+: word ++ text) :
    each isDelimiter redactWord word text = word ++ text := by
  induction text generalizing word with
  | nil =>
    rw [append_nil] at unmarked ⊢
    exact redactWord_plain unmarked
  | cons char rest ih =>
    rw [each]
    split
    · have front : ¬ schemeMark <:+: word :=
        fun inside => unmarked (inside.trans (prefix_append ..).isInfix)
      have back : ¬ schemeMark <:+: [] ++ rest := fun inside =>
        unmarked (inside.trans (suffix_append_of_suffix (suffix_cons ..)).isInfix)
      rw [redactWord_plain front, ih back, nil_append]
    · rw [ih (by rwa [append_assoc, singleton_append]), append_assoc, singleton_append]

theorem hideUserinfo_plain (unmarked : ¬ schemeMark <:+: text) : hideUserinfo text = text :=
  each_plain unmarked

end Mark

/-! ## The loop -/

section Loop

theorem hideUserinfo_first {front tail : Text}
    (first : FirstAt schemeMark front (front ++ schemeMark ++ tail)) :
    hideUserinfo (front ++ schemeMark ++ tail) =
      front ++ schemeMark ++ redactToken (tail.takeWhile fun char => !isDelimiter char) ++
        hideUserinfo (tail.dropWhile fun char => !isDelimiter char) := by
  obtain ⟨before, scheme, rfl, ended, solid⟩ := @exists_last_word _ isDelimiter front
  generalize tokenShape : tail.takeWhile (fun char => !isDelimiter char) = token
  generalize nextShape : tail.dropWhile (fun char => !isDelimiter char) = next
  have shape : tail = token ++ next := by
    rw [← tokenShape, ← nextShape, takeWhile_append_dropWhile]
  have tokenSolid : Solid isDelimiter token := tokenShape ▸ takeWhile_solid tail
  have opened : Opened isDelimiter next := nextShape ▸ dropWhile_opened tail
  have unmarked : ¬ schemeMark <:+: before := by
    rintro ⟨early, late, split⟩
    have := first early (late ++ (scheme ++ (schemeMark ++ tail))) (by
      rw [← split]
      simp only [append_assoc])
    have length := congrArg List.length split
    simp only [length_append] at this length
    have : schemeMark.length = 3 := rfl
    omega
  have inWord : FirstAt schemeMark scheme (scheme ++ schemeMark ++ token) := by
    intro early late split
    have := first (before ++ early) (late ++ next) (by
      rw [shape]
      simp only [append_assoc] at split ⊢
      rw [← append_assoc schemeMark token next, ← append_assoc scheme, split]
      simp only [append_assoc])
    simp only [length_append] at this
    omega
  have whole : before ++ scheme ++ schemeMark ++ tail =
      before ++ (scheme ++ schemeMark ++ token) ++ next := by
    rw [shape]
    simp only [append_assoc]
  rw [whole, hideUserinfo, each_word redactWord_nil ended
    ((solid.append schemeMark_solid).append tokenSolid) opened, redactWord_mark inWord,
    show each isDelimiter redactWord [] before = before from hideUserinfo_plain unmarked]
  simp only [hideUserinfo, append_assoc]

theorem userinfoLoop_eq (rounds : Nat) (rest out : Text) (enough : size rest < rounds) :
    userinfoLoop rounds rest out = .ok (out ++ hideUserinfo rest) := by
  induction rounds generalizing rest out with
  | zero => exact absurd enough (Nat.not_lt_zero _)
  | succ rounds ih =>
    rw [userinfoLoop, find_eq]
    cases found : cut schemeMark rest with
    | none =>
      rw [hideUserinfo_plain (cut_eq_none found)]
      rfl
    | some parts =>
      obtain ⟨front, tail⟩ := parts
      obtain ⟨shape, first⟩ := cut_eq_some found
      subst shape
      have three : size front + 3 = size (front ++ schemeMark) := by
        rw [size_append]
        rfl
      generalize tokenShape : tail.takeWhile (fun char => !isDelimiter char) = token
      generalize nextShape : tail.dropWhile (fun char => !isDelimiter char) = next
      have shape : tail = token ++ next := by
        rw [← tokenShape, ← nextShape, takeWhile_append_dropWhile]
      have fewer : size next < rounds := by
        rw [shape, size_append, size_append, size_append] at enough
        have : size schemeMark = 3 := rfl
        omega
      have step : ∀ text, userinfoLoop rounds next (out ++ (front ++ schemeMark) ++ text) =
          .ok (out ++ (front ++ schemeMark ++ text ++ hideUserinfo next)) := by
        intro text
        rw [ih next _ fewer]
        simp only [append_assoc]
      rw [hideUserinfo_first first, tokenShape, nextShape]
      have cutToken : sliceTo tail (size token) = .ok token := by
        rw [shape, sliceTo_size]
      have cutNext : sliceFrom tail (size token) = .ok next := by
        rw [shape, sliceFrom_size]
      have ends := findChar_getD isDelimiter tail
      rw [tokenShape] at ends
      simp only [Option.map_some, three, sliceTo_size, sliceFrom_size, ends, bind, Except.bind,
        cutToken, cutNext]
      rw [rfindChar_eq, redactToken]
      by_cases present : '@' ∈ token
      · obtain ⟨userinfo, host, rfl, absent⟩ := exists_cutLast present
        have next : size userinfo + 1 = size (userinfo ++ ['@']) := by
          rw [size_append]
          rfl
        have cutHost : sliceFrom (userinfo ++ '@' :: host) (size userinfo + 1) = .ok host := by
          rw [next, append_cons]
          exact sliceFrom_size _ host
        rw [cutLast_append absent]
        simp only [Option.map_some, sliceTo_size, cutHost]
        split
        · rw [append_assoc (out ++ (front ++ schemeMark)), step]
          simp only [append_assoc, cons_append, nil_append]
        · exact step _
      · rw [cutLast_eq_none present]
        exact step token

theorem redactUserinfo_eq (msg : Text) : redactUserinfo msg = .ok (hideUserinfo msg) :=
  userinfoLoop_eq _ msg [] (Nat.lt_succ_self _)

end Loop

/-! ## One URL in a message -/

theorem looksLikeUserinfo_iff {text : Text} :
    looksLikeUserinfo text = true ↔ ':' ∈ text ∨ ∀ char ∈ text, isMarker char = false := by
  simp [looksLikeUserinfo]

/-- A URL with userinfo stands between delimiters. -/
structure UrlBetween (before scheme userinfo host after : Text) : Prop where
  ended : Ended isDelimiter before
  opened : Opened isDelimiter after
  schemeSolid : Solid isDelimiter scheme
  userinfoSolid : Solid isDelimiter userinfo
  hostSolid : Solid isDelimiter host
  unmarked : ¬ schemeMark <:+: scheme
  nonempty : userinfo ≠ []
  authority : ∀ char ∈ userinfo, char ≠ '@' ∧ isMarker char = false

/-- The userinfo is replaced, the rest of the URL is kept from some point on, and
what stands around the URL is redacted by itself. -/
def HidesUserinfo (before scheme userinfo host after : Text) : Prop :=
  ∃ kept early late, kept <:+ host ∧ redactUserinfo before = .ok early ∧
    redactUserinfo after = .ok late ∧
    redactUserinfo (before ++ (scheme ++ schemeMark ++ (userinfo ++ '@' :: host)) ++ after) =
      .ok (early ++ (scheme ++ schemeMark ++ (stars ++ '@' :: kept)) ++ late)

section Url

variable {before scheme userinfo host after : Text}

theorem UrlBetween.redacted (url : UrlBetween before scheme userinfo host after) :
    redactUserinfo (before ++ (scheme ++ schemeMark ++ (userinfo ++ '@' :: host)) ++ after) =
      .ok (hideUserinfo before ++
        (scheme ++ schemeMark ++ redactToken (userinfo ++ '@' :: host)) ++ hideUserinfo after) := by
  have hostSolid : Solid isDelimiter ('@' :: host) := by
    refine @Solid.append _ isDelimiter ['@'] host (fun char inside => ?_) url.hostSolid
    rw [mem_singleton.mp inside]
    rfl
  rw [redactUserinfo_eq, hideUserinfo, each_word redactWord_nil url.ended
    ((url.schemeSolid.append schemeMark_solid).append (url.userinfoSolid.append hostSolid))
    url.opened,
    redactWord_mark (firstAt_mark url.unmarked)]
  rfl

theorem UrlBetween.token_of_not_mem (url : UrlBetween before scheme userinfo host after)
    (absent : '@' ∉ host) : redactToken (userinfo ++ '@' :: host) = stars ++ '@' :: host := by
  have looks : looksLikeUserinfo userinfo = true :=
    looksLikeUserinfo_iff.mpr (Or.inr fun char inside => (url.authority char inside).2)
  rw [redactToken, cutLast_append absent]
  exact if_pos looks

/-- With one, all that stands before the last `@` has to look like userinfo. -/
theorem UrlBetween.token_of_last {front back : Text}
    (url : UrlBetween before scheme userinfo (front ++ '@' :: back) after) (absent : '@' ∉ back) :
    ((':' ∈ userinfo ++ front ∨ ∀ char ∈ front, isMarker char = false) ∧
      redactToken (userinfo ++ '@' :: (front ++ '@' :: back)) = stars ++ '@' :: back) ∨
    (¬ (':' ∈ userinfo ++ front ∨ ∀ char ∈ front, isMarker char = false) ∧
      redactToken (userinfo ++ '@' :: (front ++ '@' :: back)) =
        userinfo ++ '@' :: (front ++ '@' :: back)) := by
  have shape : userinfo ++ '@' :: (front ++ '@' :: back) =
      (userinfo ++ '@' :: front) ++ '@' :: back := by
    simp
  have looks : looksLikeUserinfo (userinfo ++ '@' :: front) = true ↔
      (':' ∈ userinfo ++ front ∨ ∀ char ∈ front, isMarker char = false) := by
    rw [looksLikeUserinfo_iff]
    constructor
    · rintro (colon | clean)
      · left
        simpa using colon
      · exact Or.inr fun char inside => clean char (by simp [inside])
    · rintro (colon | clean)
      · left
        simpa using colon
      · right
        intro char inside
        rcases mem_append.mp inside with early | late
        · exact (url.authority char early).2
        · rcases mem_cons.mp late with rfl | late
          · rfl
          · exact clean char late
  rw [shape, redactToken, cutLast_append absent]
  by_cases taken : looksLikeUserinfo (userinfo ++ '@' :: front) = true
  · exact Or.inl ⟨looks.mp taken, if_pos taken⟩
  · exact Or.inr ⟨fun given => taken (looks.mpr given), if_neg taken⟩

/-- What is cut off at the first `@` does not depend on what follows. -/
theorem UrlBetween.userinfo_eq (url : UrlBetween before scheme userinfo host after) {kept : Text}
    (same : userinfo ++ '@' :: host = stars ++ '@' :: kept) : userinfo = stars := by
  have solid : Solid (· == '@') userinfo := by
    intro char inside
    simpa using (url.authority char inside).1
  have starsSolid : Solid (· == '@') stars := solid_of_all (by decide)
  exact (solid_append_inj solid starsSolid (.cons rfl _) (.cons rfl _) same).1

end Url

/-- The userinfo of a URL is replaced unless a later `@` of the URL stands behind
a path, query or fragment and nothing before it is a colon. -/
theorem hides_userinfo_iff {before scheme userinfo host after : Text}
    (url : UrlBetween before scheme userinfo host after) :
    HidesUserinfo before scheme userinfo host after ↔
      userinfo = stars ∨ ∀ front back, host = front ++ '@' :: back → '@' ∉ back →
        ':' ∈ userinfo ++ front ∨ ∀ char ∈ front, isMarker char = false := by
  have early := redactUserinfo_eq before
  have late := redactUserinfo_eq after
  constructor
  · rintro ⟨kept, _, _, _, earlyGiven, lateGiven, whole⟩
    cases earlyGiven.symm.trans early
    cases lateGiven.symm.trans late
    by_cases starred : userinfo = stars
    · exact Or.inl starred
    · right
      rintro front back rfl absent
      rcases url.token_of_last absent with ⟨looks, _⟩ | ⟨_, untouched⟩
      · exact looks
      · rw [url.redacted, untouched] at whole
        have same := append_cancel_left
          (append_cancel_left (append_cancel_right (Except.ok.inj whole)))
        exact absurd (url.userinfo_eq same) starred
  · intro taken
    by_cases present : '@' ∈ host
    · obtain ⟨front, back, rfl, absent⟩ := exists_cutLast present
      rcases url.token_of_last absent with ⟨_, redacted⟩ | ⟨fails, untouched⟩
      · refine ⟨back, _, _, ⟨front ++ ['@'], by simp⟩, early, late, ?_⟩
        rw [url.redacted, redacted]
      · rcases taken with starred | looks
        · refine ⟨_, _, _, suffix_rfl, early, late, ?_⟩
          rw [url.redacted, untouched, starred]
        · exact absurd (looks front back rfl absent) fails
    · refine ⟨host, _, _, suffix_rfl, early, late, ?_⟩
      rw [url.redacted, url.token_of_not_mem present]

theorem authority_of_all {userinfo : Text}
    (plain : userinfo.all (fun char => char != '@' && !isMarker char) = true) :
    ∀ char ∈ userinfo, char ≠ '@' ∧ isMarker char = false := by
  simpa using plain

theorem postgres_url : UrlBetween "for ".toList "postgres".toList "alice:s3cret".toList
    "db.host:5432/jobs".toList " now".toList := by
  refine ⟨Or.inr ⟨"for".toList, ' ', rfl, rfl⟩, Or.inr ⟨' ', "now".toList, rfl, rfl⟩,
    ?_, ?_, ?_, by decide, by decide, authority_of_all (by decide)⟩
  all_goals exact solid_of_all (by decide)

theorem postgres_url_hidden : HidesUserinfo "for ".toList "postgres".toList "alice:s3cret".toList
    "db.host:5432/jobs".toList " now".toList := by
  refine (hides_userinfo_iff postgres_url).mpr (Or.inr fun front back split _ => Or.inl ?_)
  have colon : ':' ∈ "alice:s3cret".toList := by decide
  exact mem_append_left front colon

/-- A name before the host survives when the path has an `@` too. -/
theorem token_url_kept : UrlBetween [] "https".toList "token".toList "host/a@b".toList [] ∧
      ¬ HidesUserinfo [] "https".toList "token".toList "host/a@b".toList [] := by
  have url : UrlBetween [] "https".toList "token".toList "host/a@b".toList [] := by
    refine ⟨Or.inl rfl, Or.inl rfl, ?_, ?_, ?_, by decide, by decide,
      authority_of_all (by decide)⟩
    all_goals exact solid_of_all (by decide)
  refine ⟨url, ?_⟩
  rintro ⟨kept, early, late, _, earlyGiven, lateGiven, whole⟩
  cases earlyGiven.symm.trans (redactUserinfo_eq [])
  cases lateGiven.symm.trans (redactUserinfo_eq [])
  have untouched : redactToken ("token".toList ++ '@' :: "host/a@b".toList) =
      "token".toList ++ '@' :: "host/a@b".toList := by decide
  rw [url.redacted, untouched] at whole
  have same := append_cancel_left (append_cancel_left (append_cancel_right (Except.ok.inj whole)))
  exact absurd (url.userinfo_eq same) (by decide)

end Worklane.Redact
