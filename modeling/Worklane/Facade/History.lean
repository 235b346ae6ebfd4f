import Worklane.Facade.Effects

/-!
# What a history shows

A program's history decides what it may do next.  These are the facts the
laws of the facade are stated with: the blobs put, the outputs read, the
dependencies found completed, and what a payload in a job stands for.
-/

namespace Worklane.Facade

open List

/-! ## Blobs -/

/-- The key of a successful put. -/
def putKey : Did → Option String
  | ⟨.put _, answer⟩ => Except.toOption (show Except Failure String from answer)
  | _ => none

def putKeys (steps : List Did) : List String := steps.filterMap putKey

@[simp]
theorem putKeys_append (first second : List Did) :
    putKeys (first ++ second) = putKeys first ++ putKeys second :=
  filterMap_append ..

variable {steps : List Did}

theorem put_of_key {key : String} (member : key ∈ putKeys steps) :
    ∃ content, (⟨.put content, .ok key⟩ : Did) ∈ steps := by
  obtain ⟨⟨op, answer⟩, done, found⟩ := mem_filterMap.mp member
  cases op with
  | put content =>
    cases answer with
    | error failure => cases found
    | ok given =>
      cases found
      exact ⟨content, done⟩
  | _ => cases found

def NoPuts (steps : List Did) : Prop :=
  ∀ (payload : Blob) (answer : Except Failure String), (⟨.put payload, answer⟩ : Did) ∉ steps

theorem NoPuts.putKeys (none : NoPuts steps) : putKeys steps = [] := by
  refine filterMap_eq_nil_iff.mpr ?_
  rintro ⟨op, answer⟩ member
  cases op with
  | put payload => exact absurd member (none payload answer)
  | _ => rfl

theorem noPuts_append {first second : List Did} :
    NoPuts (first ++ second) ↔ NoPuts first ∧ NoPuts second := by
  constructor
  · intro none
    exact ⟨fun payload answer member =>
      none payload answer (mem_append_left _ member),
      fun payload answer member =>
        none payload answer (mem_append_right _ member)⟩
  · rintro ⟨left, right⟩ payload answer member
    rcases mem_append.mp member with early | late
    · exact left payload answer early
    · exact right payload answer late

def OnlyIds (steps : List Did) : Prop :=
  ∀ step ∈ steps, ∃ id, step = ⟨.newId, id⟩

def OnlyDeletes (steps : List Did) : Prop :=
  ∀ step ∈ steps, ∃ key answer, step = ⟨.delete key, answer⟩

theorem OnlyIds.putKeys (only : OnlyIds steps) : putKeys steps = [] := by
  refine filterMap_eq_nil_iff.mpr ?_
  intro step member
  obtain ⟨id, rfl⟩ := only step member
  rfl

theorem OnlyDeletes.putKeys (only : OnlyDeletes steps) : putKeys steps = [] := by
  refine filterMap_eq_nil_iff.mpr ?_
  intro step member
  obtain ⟨key, answer, rfl⟩ := only step member
  rfl

theorem OnlyIds.noPuts (only : OnlyIds steps) :
    NoPuts steps := by
  intro payload answer member
  obtain ⟨_, equal⟩ := only _ member
  cases equal

theorem OnlyDeletes.noPuts (only : OnlyDeletes steps) :
    NoPuts steps := by
  intro payload answer member
  obtain ⟨_, _, equal⟩ := only _ member
  cases equal

/-- The references of the payloads of a batch. -/
def keysOf (jobs : List NewJob) : List String :=
  jobs.filterMap fun job => referenceKey job.payload

/-- A payload stands for this content: it is the content itself, or a
reference to a blob put with it. -/
inductive Carries (history : List Did) (content : Blob) : Blob → Prop
  | inline (plain : referenceKey content = none) : Carries history content content
  | offloaded {key : String} (put : (⟨.put content, .ok key⟩ : Did) ∈ history) :
      Carries history content (makeReference key)

theorem Carries.mono {history later : List Did} {content payload : Blob}
    (carries : Carries history content payload)
    (more : ∀ step ∈ history, step ∈ later) :
    Carries later content payload := by
  cases carries with
  | inline plain => exact .inline plain
  | offloaded put => exact .offloaded (more _ put)

/-! ## Ids -/

def mintedOf : Did → Option JobId
  | ⟨.newId, id⟩ => some id
  | _ => none

/-- The ids minted. -/
def mintedIds (history : List Did) : List JobId :=
  history.filterMap mintedOf

@[simp]
theorem mintedIds_append (first second : List Did) :
    mintedIds (first ++ second) = mintedIds first ++ mintedIds second :=
  filterMap_append ..

/-! ## Outputs -/

/-- An output read from the result store. -/
def readOf : Did → Option (JobId × Blob)
  | ⟨.getResult id, answer⟩ =>
    match (show Except Failure (Option Blob) from answer) with
    | .ok (some bytes) => some (id, bytes)
    | _ => none
  | _ => none

def reads (history : List Did) : List (JobId × Blob) :=
  history.filterMap readOf

@[simp]
theorem reads_append (first second : List Did) :
    reads (first ++ second) = reads first ++ reads second :=
  filterMap_append ..

/-- A job the broker called completed or unknown. -/
def completedOf : Did → Option JobId
  | ⟨.call (.classify id), served⟩ =>
    match (show Served JobState from served).reply with
    | .ok .completedOrUnknown => some id
    | _ => none
  | _ => none

def completed (history : List Did) : List JobId :=
  history.filterMap completedOf

@[simp]
theorem completed_append (first second : List Did) :
    completed (first ++ second) = completed first ++ completed second :=
  filterMap_append ..

/-- The job was neither classified nor read. -/
def Untouched (history : List Did) (id : JobId) : Prop :=
  ∀ step ∈ history, step.1 ≠ .call (.classify id) ∧ step.1 ≠ .getResult id

theorem Untouched.step {past : List Did} {id other : JobId}
    (untouched : Untouched past id) (different : other ≠ id) {step : Did}
    (poll : step.1 = .call (.classify other) ∨ step.1 = .getResult other) :
    Untouched (past ++ [step]) id := by
  intro candidate member
  rcases mem_append.mp member with early | last
  · exact untouched candidate early
  · rw [mem_singleton.mp last]
    rcases poll with classifies | reads
    · rw [classifies]
      exact ⟨fun same => different (Call.classify.inj (Op.call.inj same)), by rintro ⟨⟩⟩
    · rw [reads]
      exact ⟨by rintro ⟨⟩, fun same => different (Op.getResult.inj same)⟩

end Worklane.Facade
