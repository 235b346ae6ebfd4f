import Worklane.Facade.System

/-!
# What a log records

Facts that hold of every log of the system: the broker's state is the run of
its machine over the calls of the log, fresh values belong to one thread, and
every submission, reservation and resolution is explained by what its own
thread has done before.
-/

namespace Worklane.Facade

open List
open Lib (own)

variable {settings : Settings} {starts : Nat → Option Api}
variable {log : Log} {shared : Shared}

/-! ## One more event -/

@[simp]
theorem steps_concat (log : Log) (event : Lib.Event Op Op.Answer) :
    steps (log ++ [event]) = steps log ++ [event.step] := by
  simp [steps]

theorem entries_call (log : Log) (thread : Nat) (request : Call) (served : Served request.Result) :
    entries (log ++ [⟨thread, .call request, served⟩]) =
      entries log ++ [(⟨served.now, served.mint, request⟩, served.reply.map request.value)] := by
  simp [entries, Lib.Event.step, entryOf]

theorem inputs_call (log : Log) (thread : Nat) (request : Call) (served : Served request.Result) :
    inputs (log ++ [⟨thread, .call request, served⟩]) =
      inputs log ++ [⟨served.now, served.mint, request⟩] := by
  rw [inputs, entries_call, map_append]
  rfl

variable {op : Op}

theorem entries_other (log : Log) (thread : Nat)
    (answer : op.Answer) (other : ∀ request, op ≠ .call request) :
    entries (log ++ [⟨thread, op, answer⟩]) = entries log := by
  rw [entries, steps_concat, filterMap_append]
  cases op with
  | call request => exact absurd rfl (other request)
  | _ => exact append_nil _

theorem inputs_other (log : Log) (thread : Nat)
    (answer : op.Answer) (other : ∀ request, op ≠ .call request) :
    inputs (log ++ [⟨thread, op, answer⟩]) = inputs log := by
  rw [inputs, entries_other log thread answer other]
  rfl

theorem mem_steps {step : Did} : step ∈ steps log ↔ ∃ thread, ⟨thread, step.1, step.2⟩ ∈ log := by
  constructor
  · intro member
    obtain ⟨event, inside, rfl⟩ := mem_map.mp member
    exact ⟨event.thread, inside⟩
  · rintro ⟨thread, inside⟩
    exact mem_map.mpr ⟨_, inside, rfl⟩

theorem answers_inner {answer : op.Answer} {next : Shared} (other : ∀ request, op ≠ .call request)
    (answered : answers settings log shared op answer next) :
    next.inner = shared.inner := by
  cases op with
  | call request => exact absurd rfl (other request)
  | newId => rw [answered.2]
  | storeResult id output =>
    cases answer with
    | ok done => rw [answered]; rfl
    | error failure => rcases answered with rfl | rfl <;> rfl
  | getResult id =>
    cases answer with
    | ok found =>
      rcases answered with ⟨_, rfl⟩ | ⟨_, _, rfl⟩ <;> rfl
    | error failure => rw [answered]
  | put content =>
    cases answer with
    | ok key => rw [answered.2]; rfl
    | error failure => rw [answered]
  | get key =>
    cases answer with
    | ok found => rw [answered.2]
    | error failure => rw [answered]
  | delete key =>
    cases answer with
    | ok done => rw [answered]; rfl
    | error failure => rcases answered with rfl | rfl <;> rfl
  | handle envelope payload => rw [answered]
  | admitKind kind => rw [answered]
  | record kind success => rw [answered]
  | deadline => rw [answered]
  | lags => rw [answered]

/-! ## The broker behind the log -/

/-- The facts every log keeps. -/
structure Recorded (settings : Settings) (log : Log) (shared : Shared) : Prop where
  inner : shared.inner = (Memory.machine settings.config).run (inputs log)
  trace : (Memory.machine settings.config).trace (inputs log) = entries log
  fresh : FreshMints (inputs log)
  ids : (mintedIds (steps log)).Nodup
  keys : (putKeys (steps log)).Nodup
  unscheduled : ∀ input ∈ inputs log, Memory.schedules input.call = false

variable {request : Call}

theorem law_unscheduled {crates : Crates} {start : Api} {past : List Did}
    (law : start.law crates past (.call request)) : Memory.schedules request = false := by
  cases start with
  | processNext worker => cases request <;> first | rfl | cases law
  | heartbeat receipt beats => cases law; rfl
  | enqueue client spec => cases request <;> first | rfl | cases law
  | enqueueToLanes client spec lanes =>
    cases request <;> first | rfl | cases law
  | fanIn client faninId dependencies callbackKind context policy =>
    cases request <;> first | rfl | cases law.1
  | getResult client id =>
    rcases law with same | ⟨same, _⟩
    · cases same
      rfl
    · cases same
  | operate operation =>
    cases law
    cases operation <;> rfl

theorem recorded_nil : Recorded settings [] (system settings).initial where
  inner := rfl
  trace := rfl
  fresh := nodup_nil
  ids := nodup_nil
  keys := nodup_nil
  unscheduled := by rintro _ ⟨⟩

variable {thread : Nat}

theorem Recorded.coherent (recorded : Recorded settings log shared) :
    Memory.Coherent shared.inner :=
  recorded.inner ▸ Memory.run_coherent settings.config _

theorem Recorded.call (recorded : Recorded settings log shared) {served : Served request.Result}
    {next : Shared} (unscheduled : Memory.schedules request = false)
    (serves : Serves settings log shared request served next) :
    Recorded settings (log ++ [⟨thread, .call request, served⟩]) next where
  inner := by
    rw [serves.next, inputs_call, Lib.Machine.run_concat, ← recorded.inner]
    rfl
  trace := by
    rw [inputs_call, entries_call, Lib.Machine.trace_concat, recorded.trace,
      ← recorded.inner, ← serves.reply]
    rfl
  fresh := by
    rw [inputs_call]
    exact serves.fresh
  ids := by
    rw [steps_concat, mintedIds_append]
    show (mintedIds (steps log) ++ []).Nodup
    rw [append_nil]
    exact recorded.ids
  keys := by
    rw [steps_concat, putKeys_append]
    show (putKeys (steps log) ++ []).Nodup
    rw [append_nil]
    exact recorded.keys
  unscheduled := by
    intro input member
    rw [inputs_call] at member
    rcases mem_append.mp member with early | last
    · exact recorded.unscheduled input early
    · rw [mem_singleton.mp last]
      exact unscheduled

theorem Recorded.other (recorded : Recorded settings log shared) {answer : op.Answer}
    {next : Shared} (other : ∀ request, op ≠ .call request)
    (answered : answers settings log shared op answer next) :
    Recorded settings (log ++ [⟨thread, op, answer⟩]) next where
  inner := by
    rw [answers_inner other answered, inputs_other log thread answer other]
    exact recorded.inner
  trace := by
    rw [inputs_other log thread answer other, entries_other log thread answer other]
    exact recorded.trace
  fresh := by
    rw [inputs_other log thread answer other]
    exact recorded.fresh
  ids := by
    rw [steps_concat, mintedIds_append]
    cases op with
    | newId =>
      refine nodup_append.mpr ⟨recorded.ids, nodup_singleton _, ?_⟩
      rintro old before new last rfl
      rw [mem_singleton.mp last] at before
      exact answered.1 before
    | _ =>
      show (mintedIds (steps log) ++ []).Nodup
      rw [append_nil]
      exact recorded.ids
  keys := by
    rw [steps_concat, putKeys_append]
    cases op with
    | put content =>
      cases answer with
      | error failure =>
        show (putKeys (steps log) ++ []).Nodup
        rw [append_nil]
        exact recorded.keys
      | ok key =>
        refine nodup_append.mpr ⟨recorded.keys, nodup_singleton _, ?_⟩
        rintro old before new last rfl
        rw [mem_singleton.mp last] at before
        exact answered.1 before
    | _ =>
      show (putKeys (steps log) ++ []).Nodup
      rw [append_nil]
      exact recorded.keys
  unscheduled := by
    rw [inputs_other log thread answer other]
    exact recorded.unscheduled

theorem Runs.recorded (runs : Runs settings starts log shared) :
    Recorded settings log shared := by
  induction runs with
  | nil => exact recorded_nil
  | @snoc log shared next thread start op answer earlier started lawful
      answered ih =>
      by_cases calls : ∃ request, op = .call request
      · obtain ⟨request, rfl⟩ := calls
        exact ih.call (law_unscheduled lawful) answered
      · exact ih.other (fun request same => calls ⟨request, same⟩) answered

theorem Runs.moment_of_mem (runs : Runs settings starts log shared)
    {event : Lib.Event Op Op.Answer} (member : event ∈ log) :
    ∃ past future before after start, log = past ++ event :: future ∧
      Runs settings starts past before ∧
      Runs settings starts (past ++ [event]) after ∧
      starts event.thread = some start ∧
      start.law settings.crates (own event.thread past) event.op ∧
      answers settings past before event.op event.answer after := by
  obtain ⟨past, future, split⟩ := append_of_mem member
  obtain ⟨before, after, start, moment⟩ := runs.moment split
  exact ⟨past, future, before, after, start, split, moment⟩

/-! ## Submissions -/

theorem filterMap_seen {β : Type} {value : Did → Option β}
    (only : ∀ step, submitting step.1 = false → value step = none)
    (history : List Did) :
    (seen history).filterMap value = history.filterMap value := by
  induction history with
  | nil => rfl
  | cons step rest ih =>
    unfold seen at ih ⊢
    cases submits : submitting step.1 with
    | true =>
      rw [filter_cons, if_pos submits, filterMap_cons, filterMap_cons, ih]
    | false =>
      rw [filter_cons_of_neg (by simp [submits]), filterMap_cons, only step submits, ih]

theorem mintedIds_seen (history : List Did) : mintedIds (seen history) = mintedIds history := by
  refine filterMap_seen ?_ history
  rintro ⟨op, answer⟩ quiet
  cases op <;> first | rfl | cases quiet

theorem putKeys_seen (history : List Did) : putKeys (seen history) = putKeys history := by
  refine filterMap_seen ?_ history
  rintro ⟨op, answer⟩ quiet
  cases op <;> first | rfl | cases quiet

variable {history : List Did}

theorem mem_seen {step : Did} : step ∈ seen history ↔ step ∈ history ∧ submitting step.1 = true :=
  mem_filter

theorem submitting_of_hands (handing : hands op = true) : submitting op = true := by
  cases op with
  | call request => cases request <;> first | rfl | cases handing
  | _ => first | rfl | cases handing

theorem Clean.of_seen (clean : Clean (seen history)) :
    Clean history := by
  intro step member
  cases handing : hands step.1 with
  | false => rfl
  | true =>
    have quiet := clean step (mem_seen.mpr ⟨member, submitting_of_hands handing⟩)
    rw [handing] at quiet
    cases quiet

theorem Submits.of_seen {jobs : List NewJob}
    (submits : Submits (seen history) jobs) : Submits history jobs where
  clean := submits.clean.of_seen
  ids := mintedIds_seen history ▸ submits.ids
  keys := putKeys_seen history ▸ submits.keys
  attempts := submits.attempts

variable {job : NewJob}

theorem StoredBy.to_seen (stored : StoredBy history job) : StoredBy (seen history) job := by
  cases stored with
  | single member own => exact .single (mem_seen.mpr ⟨member, rfl⟩) own
  | batch member reply own =>
    exact .batch (mem_seen.mpr ⟨member, rfl⟩) reply own

variable {key : String}

theorem Discards.of_seen (discards : Discards (seen history) key) : Discards history key where
  own := putKeys_seen history ▸ discards.own
  unused := by
    intro distinct job stored
    rw [← putKeys_seen] at distinct
    exact discards.unused distinct job stored.to_seen

theorem law_submits {crates : Crates} {start : Api} {past : List Did}
    (law : start.law crates past (.call request)) (submission : Memory.submits request = true) :
    Submits past request.newJobs := by
  cases start with
  | processNext worker =>
    cases request with
    | enqueue job =>
      obtain ⟨_, _, _, _, _, _, _, _, submits⟩ := law
      exact Submits.of_seen submits
    | enqueueBatch jobs =>
      obtain ⟨_, _, _, _, _, _, _, _, submits⟩ := law
      exact Submits.of_seen submits
    | _ => cases submission
  | heartbeat receipt beats =>
    cases law
    cases submission
  | enqueue client spec =>
    cases request <;> first | exact law | cases submission
  | enqueueToLanes client spec lanes =>
    cases request <;> first | exact law | cases submission
  | fanIn client faninId dependencies callbackKind context policy =>
    cases request <;> first | exact law.1 | cases submission
  | getResult client id =>
    rcases law with same | ⟨same, _⟩
    · cases same
      cases submission
    · cases same
  | operate operation =>
    cases law
    cases operation <;> cases submission

theorem law_deletes {crates : Crates} {start : Api} {past : List Did}
    (law : start.law crates past (.delete key)) : Discards past key ∨ Cleared past key := by
  cases start with
  | processNext worker =>
    rcases law with cleared | ⟨_, _, _, _, _, _, _, _, discards⟩
    · exact Or.inr cleared
    · exact Or.inl (Discards.of_seen discards)
  | heartbeat receipt beats => cases law
  | enqueue client spec => exact Or.inl law
  | enqueueToLanes client spec lanes => exact Or.inl law
  | fanIn client faninId dependencies callbackKind context policy =>
    exact Or.inl law.1
  | getResult client id =>
    rcases law with same | ⟨same, _⟩ <;> cases same
  | operate operation => cases law

/-- The thread has submitted this job. -/
def Submitted (log : Log) (thread : Nat) (job : NewJob) : Prop :=
  ∃ (request : Call) (served : Served request.Result),
    ⟨thread, .call request, served⟩ ∈ log ∧ job ∈ request.newJobs

theorem Submitted.mono {later : Log} (submitted : Submitted log thread job)
    (more : ∀ event ∈ log, event ∈ later) :
    Submitted later thread job := by
  obtain ⟨request, served, member, inside⟩ := submitted
  exact ⟨request, served, more _ member, inside⟩

theorem mem_inputs {input : Input} : input ∈ inputs log ↔ ∃ (thread : Nat) (request : Call)
      (served : Served request.Result),
      ⟨thread, .call request, served⟩ ∈ log ∧ input = ⟨served.now, served.mint, request⟩ := by
  constructor
  · intro member
    obtain ⟨entry, inside, rfl⟩ := mem_map.mp member
    obtain ⟨⟨op, answer⟩, performed, found⟩ := mem_filterMap.mp inside
    obtain ⟨thread, event⟩ := mem_steps.mp performed
    cases op with
    | call request =>
      cases found
      exact ⟨thread, request, answer, event, rfl⟩
    | _ => cases found
  · rintro ⟨thread, request, served, event, rfl⟩
    refine mem_map.mpr ⟨_, mem_filterMap.mpr
      ⟨⟨.call request, served⟩, mem_steps.mpr ⟨thread, event⟩, rfl⟩, rfl⟩

theorem mem_newJobs : job ∈ newJobs (inputs log) ↔ ∃ thread, Submitted log thread job := by
  constructor
  · intro member
    obtain ⟨input, inside, listed⟩ := mem_flatMap.mp member
    obtain ⟨thread, request, served, event, rfl⟩ := mem_inputs.mp inside
    exact ⟨thread, request, served, event, listed⟩
  · rintro ⟨thread, request, served, event, listed⟩
    exact mem_flatMap.mpr ⟨_, mem_inputs.mpr ⟨thread, request, served, event, rfl⟩, listed⟩

theorem submits_of_newJobs (member : job ∈ request.newJobs)
    (unscheduled : Memory.schedules request = false) :
    Memory.submits request = true := by
  cases request with
  | enqueue | enqueueBatch => rfl
  | enqueueScheduled => cases unscheduled
  | _ => cases member

theorem own_subset {past future : Log} {step : Did}
    (split : log = past ++ future) (member : step ∈ own thread past) :
    step ∈ own thread log := by
  rw [split, Lib.own_append]
  exact mem_append_left _ member

theorem Runs.submits (runs : Runs settings starts log shared) {served : Served request.Result}
    {past future : Log}
    (split : log = past ++ ⟨thread, .call request, served⟩ :: future)
    (listed : job ∈ request.newJobs) : Submits (own thread past) request.newJobs := by
  obtain ⟨before, after, start, _, _, _, law, _⟩ := runs.moment split
  exact law_submits law (submits_of_newJobs listed (law_unscheduled law))

theorem Runs.submitted_own (runs : Runs settings starts log shared)
    (submitted : Submitted log thread job) :
    job.id ∈ mintedIds (own thread log) ∧ ∀ key, referenceKey job.payload = some key →
        key ∈ putKeys (own thread log) := by
  obtain ⟨request, served, member, listed⟩ := submitted
  obtain ⟨past, future, split⟩ := append_of_mem member
  have submits := runs.submits split listed
  rw [split, Lib.own_append, mintedIds_append, putKeys_append]
  refine ⟨mem_append_left _ (submits.ids.subset (mem_map.mpr ⟨job, listed, rfl⟩)), ?_⟩
  intro key reads
  exact mem_append_left _ (submits.keys.subset (mem_filterMap.mpr ⟨job, listed, reads⟩))

theorem hands_of_newJobs (listed : job ∈ request.newJobs)
    (unscheduled : Memory.schedules request = false) :
    hands (.call request) = true := by
  cases request with
  | enqueue | enqueueBatch => rfl
  | enqueueScheduled => cases unscheduled
  | _ => cases listed

theorem Runs.not_submitted (runs : Runs settings starts log shared)
    (clean : Clean (own thread log)) : ¬ Submitted log thread job := by
  rintro ⟨request, served, member, listed⟩
  have unscheduled := runs.recorded.unscheduled _
    (mem_inputs.mpr ⟨thread, request, served, member, rfl⟩)
  have quiet := clean _ (Lib.mem_own.mpr member)
  rw [hands_of_newJobs listed unscheduled] at quiet
  cases quiet

theorem Runs.submits_once (runs : Runs settings starts log shared) {first second : Call}
    {served : Served first.Result} {served' : Served second.Result} {other : NewJob}
    (inFirst : ⟨thread, .call first, served⟩ ∈ log)
    (inSecond : ⟨thread, .call second, served'⟩ ∈ log)
    (listed : job ∈ first.newJobs) (listed' : other ∈ second.newJobs) :
    (⟨thread, .call first, served⟩ : Lib.Event Op Op.Answer) = ⟨thread, .call second, served'⟩ := by
  rcases Lib.order_of_mem inFirst inSecond with
    same | ⟨past, future, split, before⟩ | ⟨past, future, split, before⟩
  · exact same
  · obtain ⟨_, earlier⟩ := runs.past split
    exact absurd ⟨first, served, before, listed⟩
      (Runs.not_submitted earlier (runs.submits split listed').clean)
  · obtain ⟨_, earlier⟩ := runs.past split
    exact absurd ⟨second, served', before, listed'⟩
      (Runs.not_submitted earlier (runs.submits split listed).clean)

variable {left : Nat} {right : Nat}

theorem Recorded.owner_of_id (recorded : Recorded settings log shared) {id : JobId}
    (inLeft : id ∈ mintedIds (own left log))
    (inRight : id ∈ mintedIds (own right log)) : left = right :=
  Lib.owner_unique recorded.ids inLeft inRight

theorem Recorded.owner_of_key (recorded : Recorded settings log shared)
    (inLeft : key ∈ putKeys (own left log))
    (inRight : key ∈ putKeys (own right log)) : left = right :=
  Lib.owner_unique recorded.keys inLeft inRight

theorem Runs.ids_nodup (runs : Runs settings starts log shared) :
    ((newJobs (inputs log)).map NewJob.id).Nodup := by
  induction runs with
  | nil => exact nodup_nil
  | @snoc log shared next thread start op answer earlier started lawful
      answered ih =>
      by_cases calls : ∃ request, op = .call request
      · obtain ⟨request, rfl⟩ := calls
        rw [inputs_call, newJobs_concat, map_append]
        have submits : ∀ job ∈ request.newJobs, Submits (own thread log) request.newJobs :=
          fun job listed => law_submits lawful (submits_of_newJobs listed (law_unscheduled lawful))
        have recorded := Runs.recorded earlier
        refine nodup_append.mpr ⟨ih, ?_, ?_⟩
        · cases listed : request.newJobs with
          | nil => exact nodup_nil
          | cons job rest =>
            rw [← listed]
            have own := submits job (by rw [listed]; simp)
            refine (own.ids.trans ?_).nodup recorded.ids
            exact (Lib.own_sublist thread log).filterMap mintedOf
        · rintro _ early id late rfl
          obtain ⟨old, oldListed, rfl⟩ := mem_map.mp early
          obtain ⟨job, listed, same⟩ := mem_map.mp late
          obtain ⟨submitter, submitted⟩ := mem_newJobs.mp oldListed
          have here := (submits job listed).ids.subset late
          have there := (Runs.submitted_own earlier submitted).1
          obtain rfl := recorded.owner_of_id here there
          exact Runs.not_submitted earlier (submits job listed).clean submitted
      · rw [inputs_other log thread answer (fun request same => calls ⟨request, same⟩)]
        exact ih

theorem Runs.new_ids {served : Served request.Result}
    (runs : Runs settings starts (log ++ [⟨thread, .call request, served⟩]) shared)
    (listed : job ∈ request.newJobs) {submitter : Nat}
    {old : NewJob} (submitted : Submitted log submitter old) :
    old.id ≠ job.id := by
  have distinct := runs.ids_nodup
  rw [inputs_call, newJobs_concat, map_append] at distinct
  exact (nodup_append.mp distinct).2.2 _
    (mem_map.mpr ⟨old, mem_newJobs.mpr ⟨submitter, submitted⟩, rfl⟩) _
    (mem_map.mpr ⟨job, listed, rfl⟩)

theorem submitted_concat {actor : Nat} {answer : op.Answer}
    (submitted : Submitted (log ++ [⟨actor, op, answer⟩]) thread job) :
    Submitted log thread job ∨ ∃ request, op = .call request ∧ job ∈ request.newJobs := by
  obtain ⟨request, served, member, listed⟩ := submitted
  rcases mem_append.mp member with early | last
  · exact Or.inl ⟨request, served, early, listed⟩
  · cases mem_singleton.mp last
    exact Or.inr ⟨request, rfl, listed⟩

theorem Runs.job_unique (runs : Runs settings starts log shared) {other : NewJob}
    (inLeft : Submitted log left job) (inRight : Submitted log right other)
    (same : job.id = other.id) : left = right ∧ job = other := by
  refine ⟨runs.recorded.owner_of_id (runs.submitted_own inLeft).1
    (same ▸ (runs.submitted_own inRight).1), ?_⟩
  exact inj_on_of_nodup_map runs.ids_nodup
    (mem_newJobs.mpr ⟨left, inLeft⟩) (mem_newJobs.mpr ⟨right, inRight⟩) same

/-- A reference belongs to one job of one thread. -/
theorem Runs.reference_unique (runs : Runs settings starts log shared) {other : NewJob}
    (inLeft : Submitted log left job) (inRight : Submitted log right other)
    (reads : referenceKey job.payload = some key)
    (reads' : referenceKey other.payload = some key) :
    left = right ∧ job = other := by
  obtain rfl := runs.recorded.owner_of_key ((runs.submitted_own inLeft).2 key reads)
    ((runs.submitted_own inRight).2 key reads')
  refine ⟨rfl, ?_⟩
  obtain ⟨request, served, member, listed⟩ := inLeft
  obtain ⟨request', served', member', listed'⟩ := inRight
  cases runs.submits_once member member' listed listed'
  obtain ⟨past, future, split⟩ := append_of_mem member
  have submits := runs.submits split listed
  have distinct : (putKeys (own left past)).Nodup := by
    obtain ⟨_, earlier⟩ := runs.past split
    exact ((Lib.own_sublist left past).filterMap putKey).nodup (Runs.recorded earlier).keys
  exact Lib.eq_of_filterMap_nodup (submits.keys.nodup distinct) listed listed' reads reads'

end Worklane.Facade
