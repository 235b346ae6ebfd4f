import Worklane.Redis.Keys

/-!
# Two namespaces on one server

A namespace may hold colons, so one can lie below another.  Which pairs of
namespaces have a key in common is decided by their segments.  Besides the keys
it builds, a broker reads every key that the pattern of `dead_letters` matches.
-/

namespace Worklane.Redis

open List

/-! ## What a broker touches -/

/-- The glob characters `connect_with_namespace` looks for. -/
def globUnsafe (char : Char) : Bool :=
  char = '*' || char = '?' || char = '[' || char = ']'

/-- The check of `connect_with_namespace`. -/
def checkNamespace (ns : String) : Except Error Unit :=
  if ns = "" then
    .error (.broker "redis namespace must not be empty")
  else
    match ns.toList.find? globUnsafe with
    | some char =>
      .error (.broker s!"redis namespace {strDebug ns} contains glob character '{char}'; avoid '*', '?', '[', ']'")
    | none => .ok ()

/-- The text starts with a character that passes the test. -/
def startsWith (test : Char → Bool) (rest : Text → Bool) : Text → Bool
  | [] => false
  | char :: later => test char && rest later

/-- Redis' pattern matching, without character classes: no pattern of the
broker has a bracket. -/
def globMatch : Text → Text → Bool
  | [] => List.isEmpty
  | '*' :: pattern => fun text => text.tails.any (globMatch pattern)
  | '?' :: pattern => startsWith (fun _ => true) (globMatch pattern)
  | '\\' :: char :: pattern =>
    startsWith (fun other => other = char) (globMatch pattern)
  | char :: pattern =>
    startsWith (fun other => other = char) (globMatch pattern)

/-- The pattern `dead_letters` scans for. -/
def scanPattern (ns : String) : Text :=
  Lib.joined ':' [ns.toList, "dead".toList, "job".toList, "*".toList]

/-- The keys a broker of the namespace, or its result store, can read or
write. -/
inductive Touches (ns : String) : Text → Prop
  | built {key : Key} (safe : key.Safe) : Touches ns (key.text ns)
  | scanned {text : Text} (matched : globMatch (scanPattern ns) text = true) : Touches ns text

/-! ## The keys a scan finds -/

/-- The text a pattern without wildcards stands for.  A backslash at the end
is dropped: it protects the colon that follows a namespace. -/
def unescape : Text → Text
  | [] => []
  | ['\\'] => []
  | '\\' :: char :: pattern => char :: unescape pattern
  | char :: pattern => char :: unescape pattern

theorem startsWith_char {char : Char} {rest : Text → Bool} {key : Text} :
    startsWith (fun other => other = char) rest key = true ↔
      ∃ later, key = char :: later ∧ rest later = true := by
  cases key with
  | nil => simp [startsWith]
  | cons first later =>
    rw [startsWith, Bool.and_eq_true, decide_eq_true_iff]
    constructor
    · rintro ⟨rfl, matched⟩
      exact ⟨later, rfl, matched⟩
    · rintro ⟨_, same, matched⟩
      cases same
      exact ⟨rfl, matched⟩

theorem globMatch_escaped (char : Char) (pattern : Text) : globMatch ('\\' :: char :: pattern) =
      startsWith (fun other => other = char) (globMatch pattern) := by
  rw [globMatch]

theorem globMatch_literal {char : Char} (plain : globUnsafe char = false)
    (noEscape : char ≠ '\\') (pattern : Text) :
    globMatch (char :: pattern) = startsWith (fun other => other = char) (globMatch pattern) := by
  rw [globMatch]
  · rintro rfl
    cases plain
  · rintro rfl
    cases plain
  · intro _ _ same
    exact absurd same noEscape

variable {text : Text}

theorem globMatch_colon {rest key : Text} (plain : ∀ char ∈ text, globUnsafe char = false) :
    globMatch (text ++ ':' :: rest) key = true ↔ ∃ back, key = unescape text ++ ':' :: back ∧
        globMatch rest back = true := by
  have colon : globMatch (':' :: rest) = startsWith (fun other => other = ':') (globMatch rest) :=
    globMatch_literal (by decide) (by decide) rest
  fun_induction unescape text generalizing key with
  | case1 =>
    rw [nil_append, colon, startsWith_char]
    rfl
  | case2 =>
    rw [singleton_append, globMatch_escaped, startsWith_char]
    rfl
  | case3 char pattern ih =>
    have later : ∀ other ∈ pattern, globUnsafe other = false :=
      fun other member => plain other (by simp [member])
    rw [cons_append, cons_append, globMatch_escaped, startsWith_char]
    simp only [ih later]
    constructor
    · rintro ⟨_, rfl, back, rfl, matched⟩
      exact ⟨back, rfl, matched⟩
    · rintro ⟨back, rfl, matched⟩
      exact ⟨_, rfl, back, rfl, matched⟩
  | case4 char pattern alone escaped ih =>
    have later : ∀ other ∈ pattern, globUnsafe other = false :=
      fun other member => plain other (by simp [member])
    have noEscape : char ≠ '\\' := by
      intro same
      cases pattern with
      | nil => exact alone same rfl
      | cons next rest => exact escaped next rest same rfl
    rw [cons_append, globMatch_literal (plain char (by simp)) noEscape, startsWith_char]
    simp only [ih later]
    constructor
    · rintro ⟨_, rfl, back, rfl, matched⟩
      exact ⟨back, rfl, matched⟩
    · rintro ⟨back, rfl, matched⟩
      exact ⟨_, rfl, back, rfl, matched⟩

theorem globMatch_star (text : Text) : globMatch ['*'] text = true := by
  rw [globMatch, any_eq_true]
  exact ⟨[], (mem_tails _ _).mpr (nil_suffix ..), rfl⟩

theorem plain_of_checkNamespace {ns : String} (accepted : checkNamespace ns = .ok ()) :
    ∀ char ∈ ns.toList, globUnsafe char = false := by
  intro char member
  unfold checkNamespace at accepted
  split at accepted
  · cases accepted
  · cases found : ns.toList.find? globUnsafe with
    | some other =>
      rw [found] at accepted
      cases accepted
    | none =>
      exact Bool.eq_false_iff.mpr (find?_eq_none.mp found char member)

/-- The segments of the namespace as the pattern matches it. -/
def scanSegments (ns : String) : List Text := segments (unescape ns.toList)

/-- The segments every scanned key goes on with. -/
def deadJobSegments : List Text := ["dead".toList, "job".toList]

theorem plain_of_all (plain : text.all (!globUnsafe ·) = true) :
    ∀ char ∈ text, globUnsafe char = false := by
  simpa using plain

theorem scanned_iff {ns : String} (accepted : checkNamespace ns = .ok ()) :
    globMatch (scanPattern ns) text = true ↔ ∃ later, later ≠ [] ∧
        segments text = scanSegments ns ++ (deadJobSegments ++ later) := by
  have dead : ∀ rest key, globMatch ("dead".toList ++ ':' :: rest) key =
      true ↔ ∃ back, key = "dead".toList ++ ':' :: back ∧ globMatch rest back = true :=
    fun rest key => globMatch_colon (plain_of_all (by decide))
  have job : ∀ rest key, globMatch ("job".toList ++ ':' :: rest) key =
      true ↔ ∃ back, key = "job".toList ++ ':' :: back ∧ globMatch rest back = true :=
    fun rest key => globMatch_colon (plain_of_all (by decide))
  have pattern : scanPattern ns = ns.toList ++ ':' ::
      ("dead".toList ++ ':' :: ("job".toList ++ ':' :: ['*'])) := by
    simp [scanPattern, Lib.joined_cons, Lib.joined_singleton]
  rw [pattern, globMatch_colon (plain_of_checkNamespace accepted)]
  constructor
  · rintro ⟨back, rfl, matched⟩
    obtain ⟨back, rfl, matched⟩ := (dead _ _).mp matched
    obtain ⟨back, rfl, _⟩ := (job _ _).mp matched
    refine ⟨segments back, Lib.segments_ne_nil back, ?_⟩
    rw [segments, Lib.segments_append_cons, Lib.segments_append_cons, Lib.segments_append_cons]
    rfl
  · rintro ⟨later, some, split⟩
    obtain ⟨afterName, rfl, first⟩ := Lib.eq_append_of_segments (cons_ne_nil _ _) split
    have first : segments afterName = segments "dead".toList ++ ("job".toList :: later) := first
    obtain ⟨afterDead, rfl, second⟩ := Lib.eq_append_of_segments (cons_ne_nil _ _) first
    have second : segments afterDead = segments "job".toList ++ later := second
    obtain ⟨back, rfl, _⟩ := Lib.eq_append_of_segments some second
    exact ⟨_, rfl, (dead _ _).mpr ⟨_, rfl, (job _ _).mpr ⟨_, rfl, globMatch_star back⟩⟩⟩

/-! ## When two namespaces share a key -/

/-- A key of the first namespace is a key of the second: by the colons in the
second name, or by a scan. -/
inductive Intrudes (left right : String) : Prop
  | nested {tail : List Text} (below : segments right.toList = segments left.toList ++ tail)
      (reached : tail = ["lane".toList] ∨ tail = ["dead".toList] ∨ tail = ["schedule".toList] ∨
        ∃ rest, tail = "unique".toList :: rest)
  | scanned {tail : List Text} (below : segments right.toList = scanSegments left ++ tail)
      (reached : tail = [] ∨ tail = ["dead".toList] ∨ ∃ rest, tail = deadJobSegments ++ rest)
  | freeKey {rest : List Text} (below : scanSegments left =
        segments right.toList ++ "unique".toList :: rest)
  | sameScan (same : scanSegments left = scanSegments right)
  | nestedScan {rest : List Text} (below : scanSegments right =
        scanSegments left ++ (deadJobSegments ++ rest))

/-- The words a key goes on with after its namespace. -/
def familyWords : List Text :=
  ["lane".toList, "job".toList, "rcpt".toList, "unique".toList,
    "dead".toList, "seq".toList, "schedule".toList,
    "schema_version".toList, "result".toList]

theorem Key.shape_head (key : Key) : ∃ word ∈ familyWords, ∃ rest, key.shape = word :: rest := by
  cases key <;> exact ⟨_, by decide, _, rfl⟩

theorem hyphenated_length (uuid : Uuid) : uuid.hyphenated.length = 36 := by
  simp [Uuid.hyphenated]

theorem uuid_not_word (uuid : Uuid) : uuid.hyphenated ∉ familyWords := by
  intro member
  have short : ∀ word ∈ familyWords, word.length ≠ 36 := by decide
  exact short _ member (hyphenated_length uuid)

theorem receiptKey_not_word (receipt : ReservationReceipt) : receiptKey receipt ∉ familyWords := by
  intro member
  have bare : ∀ word ∈ familyWords, word.head? ≠ some '"' := by decide
  exact bare _ member rfl

theorem digits_not_word (number : Nat) : Nat.toDigits 10 number ∉ familyWords := by
  intro member
  have letters : familyWords.all (·.any fun char => !char.isDigit) = true := by decide
  obtain ⟨char, inside, letter⟩ := any_eq_true.mp (all_eq_true.mp letters _ member)
  rw [Nat.isDigit_of_mem_toDigits (by decide) (by decide) inside] at letter
  cases letter

theorem nil_or_mem_tail {α : Type} {list later rest : List α} {word : α}
    (split : list = later ++ word :: rest) :
    later = [] ∨ word ∈ list.tail := by
  cases later with
  | nil => exact Or.inl rfl
  | cons first more =>
    rw [split]
    exact Or.inr (mem_append_right _ (mem_cons_self ..))

/-- The first segments of a key that may belong to a nested namespace. -/
theorem Key.nested_shape {left right : Key} {tail : List Text}
    (some : tail ≠ []) (same : left.shape = tail ++ right.shape) :
    tail = ["lane".toList] ∨ tail = ["dead".toList] ∨ tail = ["schedule".toList] ∨
      ∃ rest, tail = "unique".toList :: rest := by
  obtain ⟨word, family, rest, head⟩ := right.shape_head
  obtain ⟨first, later, rfl⟩ := exists_cons_of_ne_nil some
  rw [head] at same
  obtain ⟨start, _, more, split⟩ := left.shape_head
  rw [split, cons_append] at same
  obtain ⟨rfl, cut⟩ := List.cons.inj same
  have inside : word ∈ more := cut ▸ mem_append_right _ (mem_cons_self ..)
  have place := nil_or_mem_tail cut
  cases left with
  | unique key =>
    cases split
    exact Or.inr (Or.inr (Or.inr ⟨later, rfl⟩))
  | level lane priority =>
    cases split
    have outside : word ∉ ["p".toList, Nat.toDigits 10 priority] := by
      rintro (_ | ⟨_, _ | ⟨_, nothing⟩⟩)
      · exact absurd family (by decide)
      · exact digits_not_word priority family
      · cases nothing
    exact Or.inl (by rw [place.resolve_right outside])
  | prios lane =>
    cases split
    have outside : word ∉ ["prios".toList] := by
      rintro (_ | ⟨_, nothing⟩)
      · exact absurd family (by decide)
      · cases nothing
    exact Or.inl (by rw [place.resolve_right outside])
  | dead lane =>
    cases split
    exact Or.inr (Or.inl (by
      rw [place.resolve_right not_mem_nil]))
  | deadJob id =>
    cases split
    have outside : word ∉ [id.toText] := by
      intro member
      rw [mem_singleton.mp member] at family
      exact uuid_not_word _ family
    exact Or.inr (Or.inl (by rw [place.resolve_right outside]))
  | schedule scheduleId =>
    cases split
    exact Or.inr (Or.inr (Or.inl (by
      rw [place.resolve_right not_mem_nil])))
  | job id =>
    cases split
    rw [mem_singleton.mp inside] at family
    exact absurd family (uuid_not_word _)
  | result id =>
    cases split
    rw [mem_singleton.mp inside] at family
    exact absurd family (uuid_not_word _)
  | rcpt receipt =>
    cases split
    rw [mem_singleton.mp inside] at family
    exact absurd family (receiptKey_not_word _)
  | seq =>
    cases split
    cases inside
  | schemaVersion =>
    cases split
    cases inside

theorem Key.scanned_shape {key : Key} {tail later : List Text}
    (some : tail ≠ []) (more : later ≠ [])
    (same : key.shape = tail ++ (deadJobSegments ++ later)) :
    ∃ rest, tail = "unique".toList :: rest := by
  obtain ⟨first, front, rfl⟩ := exists_cons_of_ne_nil some
  obtain ⟨word, back, rfl⟩ := exists_cons_of_ne_nil more
  have long : 4 ≤ key.shape.length := by
    rw [same]
    simp [deadJobSegments]
    omega
  cases key with
  | unique key =>
    cases (List.cons.inj same).1
    exact ⟨front, rfl⟩
  | level lane priority =>
    have count := congrArg List.length same
    simp [Key.shape, Key.path, deadJobSegments] at count
    have none : front = [] := length_eq_zero_iff.mp (by omega)
    subst none
    simp [Key.shape, Key.path, deadJobSegments] at same
  | _ => exact absurd long (by simp [Key.shape, Key.path])

theorem Touches.of_segments {ns : String} {text : Text} {key : Key} (safe : key.Safe)
    (split : segments text = segments ns.toList ++ key.shape) :
    Touches ns text := by
  rw [← Key.segments_text ns safe] at split
  rw [Lib.segments_injective split]
  exact .built safe

theorem Touches.of_scan {ns : String} (accepted : checkNamespace ns = .ok ())
    {text : Text} {later : List Text} (some : later ≠ [])
    (split : segments text = scanSegments ns ++ (deadJobSegments ++ later)) : Touches ns text :=
  .scanned ((scanned_iff accepted).mpr ⟨later, some, split⟩)

theorem Touches.of_unique {ns : String} {text : Text} {later : List Text} (some : later ≠ [])
    (split : segments text = segments ns.toList ++ "unique".toList :: later) : Touches ns text := by
  obtain ⟨back, rfl, first⟩ := Lib.eq_append_of_segments (cons_ne_nil _ _) split
  have first : segments back = segments "unique".toList ++ later := first
  obtain ⟨key, rfl, named⟩ := Lib.eq_append_of_segments some first
  refine @Touches.of_segments _ _ (.unique (String.ofList key)) trivial ?_
  have shape : (Key.unique (String.ofList key)).shape = "unique".toList :: later := by
    rw [← named, Key.shape, @String.toList_ofList key]
  rw [split, shape]

theorem Touches.split {ns : String} (accepted : checkNamespace ns = .ok ())
    (touches : Touches ns text) :
    (∃ key : Key, segments text = segments ns.toList ++ key.shape) ∨ ∃ later, later ≠ [] ∧
        segments text = scanSegments ns ++ (deadJobSegments ++ later) := by
  cases touches with
  | @built key safe => exact Or.inl ⟨key, Key.segments_text ns safe⟩
  | scanned matched => exact Or.inr ((scanned_iff accepted).mp matched)

section Overlap

variable {left right : String}

theorem intrudes_of_keys (different : left ≠ right) {key other : Key}
    (same : segments left.toList ++ key.shape = segments right.toList ++ other.shape) :
    Intrudes left right ∨ Intrudes right left := by
  have apart : segments left.toList ≠ segments right.toList := fun same =>
    different (String.toList_inj.mp (Lib.segments_injective same))
  rcases append_eq_append_iff.mp same with
    ⟨tail, below, rest⟩ | ⟨tail, below, rest⟩
  · have some : tail ≠ [] := by
      rintro rfl
      exact apart (by rw [below, append_nil])
    exact Or.inl (.nested below (Key.nested_shape some rest))
  · have some : tail ≠ [] := by
      rintro rfl
      exact apart (by rw [below, append_nil])
    exact Or.inr (.nested below (Key.nested_shape some rest))

theorem intrudes_of_scan {later : List Text} (more : later ≠ []) {key : Key}
    (same : scanSegments left ++ (deadJobSegments ++ later) =
      segments right.toList ++ key.shape) : Intrudes left right := by
  rcases append_eq_append_iff.mp same with
    ⟨tail, below, rest⟩ | ⟨tail, below, rest⟩
  · refine .scanned below ?_
    rcases tail with _ | ⟨first, _ | ⟨second, back⟩⟩
    · exact Or.inl rfl
    · cases (List.cons.inj rest).1
      exact Or.inr (Or.inl rfl)
    · obtain ⟨rfl, next⟩ := List.cons.inj rest
      obtain ⟨rfl, _⟩ := List.cons.inj next
      exact Or.inr (Or.inr ⟨back, rfl⟩)
  · by_cases none : tail = []
    · subst none
      refine @Intrudes.scanned left right [] ?_ (Or.inl rfl)
      rw [below, append_nil, append_nil]
    · obtain ⟨back, rfl⟩ := Key.scanned_shape none more rest
      exact .freeKey below

theorem intrudes_of_scans {later later' : List Text}
    (same : scanSegments left ++ (deadJobSegments ++ later) =
      scanSegments right ++ (deadJobSegments ++ later')) :
    Intrudes left right ∨ Intrudes right left := by
  have below : ∀ {one other : String} {tail back back' : List Text},
      scanSegments other = scanSegments one ++ tail →
      deadJobSegments ++ back = tail ++ (deadJobSegments ++ back') →
      Intrudes one other := by
    intro one other tail back back' below rest
    rcases tail with _ | ⟨first, _ | ⟨second, more⟩⟩
    · exact .sameScan (by rw [below, append_nil])
    · exact absurd (List.cons.inj (List.cons.inj rest).2).1 (by decide)
    · obtain ⟨rfl, next⟩ := List.cons.inj rest
      obtain ⟨rfl, _⟩ := List.cons.inj next
      exact .nestedScan below
  rcases append_eq_append_iff.mp same with
    ⟨tail, lower, rest⟩ | ⟨tail, lower, rest⟩
  · exact Or.inl (below lower rest)
  · exact Or.inr (below lower rest)

theorem exists_scanned (ns : String) : ∃ text : Text,
    segments text = scanSegments ns ++ (deadJobSegments ++ [[]]) := by
  refine ⟨unescape ns.toList ++ ':' :: ("dead".toList ++ ':' :: ("job".toList ++ ':' :: [])), ?_⟩
  rw [segments, Lib.segments_append_cons, Lib.segments_append_cons, Lib.segments_append_cons]
  rfl

theorem Intrudes.shares (leftAccepted : checkNamespace left = .ok ())
    (rightAccepted : checkNamespace right = .ok ())
    (intrudes : Intrudes left right) :
    ∃ text, Touches left text ∧ Touches right text := by
  have id : JobId := ⟨⟨0⟩⟩
  have seq := @Key.segments_text right .seq trivial
  cases intrudes with
  | nested below reached =>
    rcases reached with rfl | rfl | rfl | ⟨rest, rfl⟩
    · have text := @Key.segments_text right (.unique "p:0") trivial
      refine ⟨_, ?_, @Touches.built _ (.unique "p:0") trivial⟩
      refine @Touches.of_segments _ _ (.level ⟨"unique"⟩ 0) (by decide) ?_
      rw [text, below, append_assoc]
      rfl
    · refine ⟨_, ?_, @Touches.built _ (.seq) trivial⟩
      refine @Touches.of_segments _ _ (.dead ⟨"seq"⟩) (by decide) ?_
      rw [seq, below, append_assoc]
      rfl
    · refine ⟨_, ?_, @Touches.built _ (.seq) trivial⟩
      refine @Touches.of_segments _ _ (.schedule "seq") (by decide) ?_
      rw [seq, below, append_assoc]
      rfl
    · refine ⟨_, ?_, @Touches.built _ (.seq) trivial⟩
      refine @Touches.of_unique _ _ (rest ++ ["seq".toList]) (by simp) ?_
      rw [seq, below, append_assoc]
      rfl
  | scanned below reached =>
    rcases reached with rfl | rfl | ⟨rest, rfl⟩
    · have text := @Key.segments_text right (.deadJob id) trivial
      refine ⟨_, ?_, @Touches.built _ (.deadJob id) trivial⟩
      refine @Touches.of_scan _ leftAccepted _ [id.toText] (by simp) ?_
      rw [text, below, append_assoc]
      rfl
    · have text := @Key.segments_text right (.job id) trivial
      refine ⟨_, ?_, @Touches.built _ (.job id) trivial⟩
      refine @Touches.of_scan _ leftAccepted _ [id.toText] (by simp) ?_
      rw [text, below, append_assoc]
      rfl
    · refine ⟨_, ?_, @Touches.built _ (.seq) trivial⟩
      refine @Touches.of_scan _ leftAccepted _ (rest ++ ["seq".toList]) (by simp) ?_
      rw [seq, below, append_assoc]
      rfl
  | @freeKey rest below =>
    obtain ⟨text, split⟩ := exists_scanned left
    refine ⟨text, .of_scan leftAccepted (cons_ne_nil _ _) split, ?_⟩
    refine @Touches.of_unique _ _ (rest ++ (deadJobSegments ++ [[]])) (by simp) ?_
    rw [split, below, append_assoc]
    rfl
  | sameScan same =>
    obtain ⟨text, split⟩ := exists_scanned left
    refine ⟨text, .of_scan leftAccepted (cons_ne_nil _ _) split, ?_⟩
    rw [same] at split
    exact .of_scan rightAccepted (cons_ne_nil _ _) split
  | @nestedScan rest below =>
    obtain ⟨text, split⟩ := exists_scanned right
    refine ⟨text, ?_, .of_scan rightAccepted (cons_ne_nil _ _) split⟩
    refine @Touches.of_scan _ leftAccepted _ (rest ++ (deadJobSegments ++ [[]])) (by simp) ?_
    rw [split, below, append_assoc, append_assoc]

/-- Two different namespaces have no key in common exactly when neither
intrudes on the other. -/
theorem namespaces_apart_iff (leftAccepted : checkNamespace left = .ok ())
    (rightAccepted : checkNamespace right = .ok ())
    (different : left ≠ right) :
    (∀ text, Touches left text → ¬ Touches right text) ↔
      ¬ Intrudes left right ∧ ¬ Intrudes right left := by
  constructor
  · intro apart
    refine ⟨fun intrudes => ?_, fun intrudes => ?_⟩
    · obtain ⟨text, one, other⟩ := intrudes.shares leftAccepted rightAccepted
      exact apart text one other
    · obtain ⟨text, one, other⟩ := intrudes.shares rightAccepted leftAccepted
      exact apart text other one
  · rintro ⟨notLeft, notRight⟩ text one other
    have none : ¬ (Intrudes left right ∨ Intrudes right left) := not_or.mpr ⟨notLeft, notRight⟩
    rcases one.split leftAccepted with ⟨key, split⟩ | ⟨later, more, split⟩ <;>
      rcases other.split rightAccepted with
        ⟨key', split'⟩ | ⟨later', more', split'⟩
    · exact none (intrudes_of_keys different (split.symm.trans split'))
    · exact notRight (intrudes_of_scan more' (split'.symm.trans split))
    · exact notLeft (intrudes_of_scan more (split.symm.trans split'))
    · exact none (intrudes_of_scans (split.symm.trans split'))

theorem unescape_of_not_mem {text : Text} (absent : '\\' ∉ text) : unescape text = text := by
  fun_induction unescape text with
  | case1 => rfl
  | case2 => simp at absent
  | case3 char pattern _ => simp at absent
  | case4 char pattern _ _ ih =>
    rw [ih fun member =>
      absent (mem_cons_of_mem _ member)]

/-- Names without a colon and without a backslash do not intrude. -/
theorem not_intrudes_of_plain (different : left ≠ right)
    (leftColon : ':' ∉ left.toList) (rightColon : ':' ∉ right.toList)
    (leftPlain : '\\' ∉ left.toList) (rightPlain : '\\' ∉ right.toList) :
    ¬ Intrudes left right := by
  have one : segments left.toList = [left.toList] := Lib.segments_of_not_mem leftColon
  have other : segments right.toList = [right.toList] := Lib.segments_of_not_mem rightColon
  have scan : scanSegments left = [left.toList] := by
    rw [scanSegments, unescape_of_not_mem leftPlain, one]
  have scan' : scanSegments right = [right.toList] := by
    rw [scanSegments, unescape_of_not_mem rightPlain, other]
  have apart : right.toList ≠ left.toList := fun same =>
    different (String.toList_inj.mp same).symm
  have apart' := apart.symm
  intro intrudes
  cases intrudes with
  | nested below reached =>
    rw [one, other] at below
    exact apart (List.cons.inj below).1
  | scanned below reached =>
    rw [scan, other] at below
    exact apart (List.cons.inj below).1
  | freeKey below =>
    rw [scan, other] at below
    exact apart' (List.cons.inj below).1
  | sameScan same =>
    rw [scan, scan'] at same
    exact apart' (List.cons.inj same).1
  | nestedScan below =>
    rw [scan, scan'] at below
    exact apart (List.cons.inj below).1

end Overlap

theorem namespaces_apart_mail_jobs :
    checkNamespace "mail" = .ok () ∧ checkNamespace "jobs" = .ok () ∧
      ∀ text, Touches "mail" text → ¬ Touches "jobs" text :=
  ⟨by decide, by decide, (namespaces_apart_iff (by decide) (by decide)
    (by decide)).mpr
    ⟨not_intrudes_of_plain (by decide) (by decide) (by decide) (by decide) (by decide),
    not_intrudes_of_plain (by decide) (by decide) (by decide) (by decide) (by decide)⟩⟩

/-- The job hashes of `worklane:dead` are the dead records of `worklane`. -/
theorem namespaces_share_dead_jobs : checkNamespace "worklane" = .ok () ∧
      checkNamespace "worklane:dead" = .ok () ∧
      "worklane" ≠ "worklane:dead" ∧
      (Key.deadJob ⟨⟨1⟩⟩).text "worklane" = (Key.job ⟨⟨1⟩⟩).text "worklane:dead" ∧
      ∃ text, Touches "worklane" text ∧ Touches "worklane:dead" text :=
  ⟨by decide, by decide, by decide, by decide,
    (Key.deadJob ⟨⟨1⟩⟩).text "worklane", .built trivial,
    @Touches.built "worklane:dead" (.job ⟨⟨1⟩⟩) trivial⟩

end Worklane.Redis
