import Worklane.Lib.Segments
import Worklane.Redis.Broker
import Worklane.Redis.Naming

/-!
# Keys as text

The store of the other modules is indexed by what a key is made from.  Here the
keys are the strings that the broker, the scripts and the result store send, and
two of them are compared segment by segment, a segment being what stands between
two colons.
-/

namespace Worklane.Redis

open List

/-! ## The key scheme -/

/-- The keys of a namespace: those of the broker and its scripts, and the
results of the result store. -/
inductive Key where
  | level (lane : Lane) (priority : Nat)
  | prios (lane : Lane)
  | job (id : JobId)
  | rcpt (receipt : ReservationReceipt)
  | unique (key : String)
  | dead (lane : Lane)
  | deadJob (id : JobId)
  | seq
  | schedule (scheduleId : String)
  | schemaVersion
  | result (id : JobId)
  deriving DecidableEq, Repr

/-- `receipt_key`: the receipt as a JSON string. -/
def receiptKey (receipt : ReservationReceipt) : Text :=
  '"' :: (receipt.uuid.hyphenated ++ ['"'])

/-- What follows the namespace, from colon to colon. -/
def Key.path : Key → List Text
  | .level lane priority =>
    ["lane".toList, lane.name.toList, "p".toList, Nat.toDigits 10 priority]
  | .prios lane => ["lane".toList, lane.name.toList, "prios".toList]
  | .job id => ["job".toList, id.toText]
  | .rcpt receipt => ["rcpt".toList, receiptKey receipt]
  | .unique key => ["unique".toList, key.toList]
  | .dead lane => ["dead".toList, lane.name.toList]
  | .deadJob id => ["dead".toList, "job".toList, id.toText]
  | .seq => ["seq".toList]
  | .schedule scheduleId => ["schedule".toList, scheduleId.toList]
  | .schemaVersion => ["schema_version".toList]
  | .result id => ["result".toList, id.toText]

/-- The key as it is sent. -/
def Key.text (ns : String) (key : Key) : Text :=
  Lib.joined ':' (ns.toList :: key.path)

/-- The lane or the schedule id in the key passed its check. -/
def Key.Safe : Key → Prop
  | .level lane _ => laneKeySegment lane = .ok ()
  | .prios lane => laneKeySegment lane = .ok ()
  | .dead lane => laneKeySegment lane = .ok ()
  | .schedule scheduleId =>
    checkedKeySegment scheduleId "schedule id" = .ok ()
  | _ => True

instance (key : Key) : Decidable key.Safe := by
  cases key <;> unfold Key.Safe <;> infer_instance

/-! ## Segments of a key -/

abbrev segments (text : Text) : List Text := Lib.segments ':' text

/-- The segments of a safe key after the namespace. -/
def Key.shape : Key → List Text
  | .unique key => "unique".toList :: segments key.toList
  | key => key.path

theorem colon_not_mem_of_checked {value what : String}
    (safe : checkedKeySegment value what = .ok ()) :
    ':' ∉ value.toList := by
  intro member
  unfold checkedKeySegment at safe
  cases found : value.toList.find? keyUnsafe with
  | some char =>
    rw [found] at safe
    cases safe
  | none =>
    have clear := find?_eq_none.mp found ':' member
    exact clear rfl

theorem colon_not_mem_lane {lane : Lane}
    (safe : laneKeySegment lane = .ok ()) : ':' ∉ lane.name.toList :=
  colon_not_mem_of_checked safe

theorem colon_not_mem_uuid (uuid : Uuid) : ':' ∉ uuid.hyphenated := by
  have digits : ':' ∉ Lib.fixedText 16 32 uuid.bits.toNat := by
    intro member
    obtain ⟨digit, inside, same⟩ := mem_map.mp member
    have checked : ∀ tested < 16, Lib.digitChar tested ≠ ':' := by decide
    exact checked digit (Lib.fixedDigits_lt (by decide) inside) same
  intro member
  simp only [Uuid.hyphenated, mem_append, mem_cons] at member
  rcases member with inside | same | inside | same | inside | same | inside | same | inside
  · exact digits (mem_of_mem_take inside)
  · exact absurd same (by decide)
  · exact digits (mem_of_mem_drop (mem_of_mem_take inside))
  · exact absurd same (by decide)
  · exact digits (mem_of_mem_drop (mem_of_mem_take inside))
  · exact absurd same (by decide)
  · exact digits (mem_of_mem_drop (mem_of_mem_take inside))
  · exact absurd same (by decide)
  · exact digits (mem_of_mem_drop inside)

theorem colon_not_mem_receiptKey (receipt : ReservationReceipt) : ':' ∉ receiptKey receipt := by
  intro member
  simp only [receiptKey, mem_cons, mem_append] at member
  rcases member with same | inside | same | nothing
  · exact absurd same (by decide)
  · exact colon_not_mem_uuid _ inside
  · exact absurd same (by decide)
  · cases nothing

theorem colon_not_mem_digits (number : Nat) : ':' ∉ Nat.toDigits 10 number := by
  intro member
  have digit := Nat.isDigit_of_mem_toDigits (by decide) (by decide) member
  exact absurd digit (by decide)

/-- The parts of a path are segments, a unique key apart, which may hold anything. -/
theorem Key.path_segments {key : Key} (safe : key.Safe) :
    key.path.flatMap segments = key.shape := by
  have single : ∀ parts : List Text, (∀ part ∈ parts, ':' ∉ part) →
      parts.flatMap segments = parts := by
    intro parts clear
    induction parts with
    | nil => rfl
    | cons first rest ih =>
      rw [flatMap_cons, segments, Lib.segments_of_not_mem (clear first (mem_cons_self ..)),
        ih fun part member =>
          clear part (mem_cons_of_mem _ member)]
      rfl
  cases key with
  | unique key =>
    show ["unique".toList, key.toList].flatMap segments = _
    rw [flatMap_cons, flatMap_singleton, segments, Lib.segments_of_not_mem (by decide)]
    rfl
  | level lane priority =>
    apply single
    have lane := colon_not_mem_lane safe
    have digits := colon_not_mem_digits priority
    simp [Key.path, lane, digits]
  | prios lane =>
    apply single
    simp [Key.path, colon_not_mem_lane safe]
  | dead lane =>
    apply single
    simp [Key.path, colon_not_mem_lane safe]
  | schedule scheduleId =>
    apply single
    simp [Key.path, colon_not_mem_of_checked safe]
  | job id =>
    apply single
    simp [Key.path, JobId.toText, colon_not_mem_uuid]
  | deadJob id =>
    apply single
    simp [Key.path, JobId.toText, colon_not_mem_uuid]
  | result id =>
    apply single
    simp [Key.path, JobId.toText, colon_not_mem_uuid]
  | rcpt receipt =>
    apply single
    simp [Key.path, colon_not_mem_receiptKey]
  | seq =>
    apply single
    simp [Key.path]
  | schemaVersion =>
    apply single
    simp [Key.path]

theorem Key.segments_text (ns : String) {key : Key} (safe : key.Safe) :
    segments (key.text ns) = segments ns.toList ++ key.shape := by
  rw [Key.text, segments, Lib.segments_joined (cons_ne_nil _ _),
    flatMap_cons, ← Key.path_segments safe]

theorem toDigits_injective : Function.Injective (Nat.toDigits 10) := by
  intro left right same
  have read := congrArg (fun digits => Nat.ofDigitChars 10 digits 0) same
  simpa [Nat.ofDigitChars_toDigits] using read

theorem receiptKey_injective : Function.Injective receiptKey := by
  intro left right same
  have texts := append_cancel_right (List.cons.inj same).2
  obtain ⟨uuid⟩ := left
  obtain ⟨uuid'⟩ := right
  exact congrArg ReservationReceipt.mk (Json.hyphenated_injective texts)

theorem Lane.eq_of_toList {left right : Lane}
    (same : left.name.toList = right.name.toList) : left = right := by
  obtain ⟨name⟩ := left
  obtain ⟨name'⟩ := right
  exact congrArg Lane.mk (String.toList_inj.mp same)

theorem Key.shape_injective : Function.Injective Key.shape := by
  intro left right same
  -- keys of different families have different words or lengths
  cases left <;> cases right <;>
    simp [Key.shape, Key.path] at same ⊢
  case level.level =>
    exact ⟨Lane.eq_of_toList same.1, toDigits_injective same.2⟩
  case prios.prios => exact Lane.eq_of_toList same
  case job.job => exact toText_injective same
  case rcpt.rcpt => exact receiptKey_injective same
  case unique.unique =>
    exact String.toList_inj.mp (Lib.segments_injective same)
  case dead.dead => exact Lane.eq_of_toList same
  case deadJob.deadJob => exact toText_injective same
  case schedule.schedule => exact String.toList_inj.mp same
  case result.result => exact toText_injective same

/-- Inside a namespace two keys are one string only when they are one key. -/
theorem key_text_injective (ns : String) {left right : Key}
    (leftSafe : left.Safe) (rightSafe : right.Safe)
    (same : left.text ns = right.text ns) : left = right := by
  have segments := congrArg segments same
  rw [Key.segments_text ns leftSafe, Key.segments_text ns rightSafe] at segments
  exact Key.shape_injective (append_cancel_left segments)

theorem key_text_injective_dead_job : (Key.dead ⟨"job"⟩).Safe ∧ (Key.unique "dead:job").Safe ∧
      (Key.dead ⟨"job"⟩).text "worklane" ≠ (Key.unique "dead:job").text "worklane" :=
  ⟨by decide, by decide, fun same => nomatch
    @key_text_injective "worklane" (.dead ⟨"job"⟩) (.unique "dead:job")
      (by decide) (by decide) same⟩

end Worklane.Redis
