import Mathlib.Data.List.Flatten
import Mathlib.Data.List.Nodup
import Worklane.Core.Spi
import Worklane.Lib.Machine

/-!
# The broker contract as calls and replies

One call of `Broker`, `BatchEnqueue`, `DeadLetterStore`, `QueueStats` or
`ScheduledStore` is an input of a broker machine, together with the clock
reading of that call and the receipt `ReservationReceipt::new` would mint.
-/

namespace Worklane

/-- The settings every broker is built with. -/
structure Config where
  lease : Nat
  retention : RetentionPolicy
  maxDeliveries : Option Nat
  deriving DecidableEq, Repr

inductive Call where
  | enqueue (job : NewJob)
  | enqueueBatch (jobs : List NewJob)
  | reserve (lane : Lane)
  | ack (receipt : ReservationReceipt)
  | retry (receipt : ReservationReceipt) (delay : Nat)
  | defer (receipt : ReservationReceipt) (delay : Nat)
  | fail (receipt : ReservationReceipt) (error : String)
  | extend (receipt : ReservationReceipt)
  | classify (id : JobId)
  | readDeadLetters (lane : Lane) (limit : Nat)
  | countDeadLetters (lane : Lane)
  | requeue (id : JobId)
  | purgeDeadLetters (lane : Lane)
  | pendingCount (lane : Lane)
  | enqueueScheduled (scheduleId : String) (occurrence : Int64) (job : NewJob)
  | removeSchedule (scheduleId : String)
  deriving DecidableEq, Repr

/-- The values of successful calls. -/
inductive Value where
  | jobId (id : JobId)
  | jobIds (ids : List JobId)
  | reserved (reservation : Option Reservation)
  | done
  | state (state : JobState)
  | deadLetters (letters : List DeadLetter)
  | count (count : Nat)
  | claimed (won : Bool)
  deriving DecidableEq, Repr

abbrev Reply := Except Error Value

structure Input where
  now : Nat
  mint : ReservationReceipt
  call : Call
  deriving DecidableEq, Repr

/-- An input with the reply it got. -/
abbrev Entry := Input × Reply

/-! ## Texts the brokers share -/

def noDeadLetterText (id : JobId) : String :=
  s!"no dead-letter record for job {id}"

def liveIdText (id : JobId) : String :=
  s!"cannot requeue job {id}: a live job with the same id already exists"

def keyHeldText (id : JobId) (key : String) : String :=
  s!"cannot requeue job {id}: unique key {strDebug key} is held by another live job"

/-- The error text of the delivery bound. -/
def overDeliveredText (max : Nat) : String :=
  s!"exceeded max deliveries ({max})"

/-! ## What a run submits and mints -/

/-- The jobs a call submits. -/
def Call.newJobs : Call → List NewJob
  | .enqueue job => [job]
  | .enqueueBatch jobs => jobs
  | .enqueueScheduled _ _ job => [job]
  | _ => []

/-- The receipt a call mints. -/
def Input.minted (input : Input) : List ReservationReceipt :=
  match input.call with
  | .reserve _ => [input.mint]
  | _ => []

def newJobs (inputs : List Input) : List NewJob :=
  inputs.flatMap fun input => input.call.newJobs

def mints (inputs : List Input) : List ReservationReceipt :=
  inputs.flatMap Input.minted

/-- Every minted receipt is fresh. -/
def FreshMints (inputs : List Input) : Prop := (mints inputs).Nodup

/-- Clock readings never decrease. -/
def ClockMonotone (inputs : List Input) : Prop :=
  inputs.Pairwise fun early late => early.now ≤ late.now

instance (inputs : List Input) : Decidable (FreshMints inputs) :=
  inferInstanceAs (Decidable (mints inputs).Nodup)

instance (inputs : List Input) : Decidable (ClockMonotone inputs) :=
  inferInstanceAs (Decidable (inputs.Pairwise _))

@[simp]
theorem mints_concat (past : List Input) (input : Input) :
    mints (past ++ [input]) = mints past ++ input.minted := by
  simp [mints]

@[simp]
theorem newJobs_concat (past : List Input) (input : Input) :
    newJobs (past ++ [input]) = newJobs past ++ input.call.newJobs := by
  simp [newJobs]

theorem freshMints_past :
    Lib.Machine.PrefixClosed FreshMints := by
  intro past input fresh
  rw [FreshMints, mints_concat] at fresh
  exact (List.nodup_append.mp fresh).1

theorem freshMints_sublist {inputs others : List Input}
    (sublist : others.Sublist inputs) (fresh : FreshMints inputs) :
    FreshMints others :=
  fresh.sublist (sublist.flatMap Input.minted)

theorem clockMonotone_past :
    Lib.Machine.PrefixClosed ClockMonotone := by
  intro past input ordered
  exact (List.pairwise_append.mp ordered).1

theorem clockMonotone_last {past : List Input} {input : Input}
    (ordered : ClockMonotone (past ++ [input])) :
    ∀ earlier ∈ past, earlier.now ≤ input.now := by
  intro earlier member
  exact (List.pairwise_append.mp ordered).2.2 earlier member input (by simp)

/-- The last clock reading of a run. -/
def lastReading (inputs : List Input) : Nat :=
  (inputs.getLast?.map Input.now).getD 0

@[simp]
theorem lastReading_concat (past : List Input) (input : Input) :
    lastReading (past ++ [input]) = input.now := by
  simp [lastReading]

theorem lastReading_le {past : List Input} {input : Input}
    (ordered : ClockMonotone (past ++ [input])) :
    lastReading past ≤ input.now := by
  unfold lastReading
  cases last : past.getLast? with
  | none => exact Nat.zero_le _
  | some earlier =>
    exact clockMonotone_last ordered earlier (List.mem_of_getLast? last)

/-! ## Renaming receipts -/

section Rename

variable (relabel : ReservationReceipt → ReservationReceipt)

def Call.rename : Call → Call
  | .ack receipt => .ack (relabel receipt)
  | .retry receipt delay => .retry (relabel receipt) delay
  | .defer receipt delay => .defer (relabel receipt) delay
  | .fail receipt error => .fail (relabel receipt) error
  | .extend receipt => .extend (relabel receipt)
  | other => other

def Input.rename (input : Input) : Input :=
  { now := input.now
    mint := relabel input.mint
    call := input.call.rename relabel }

def Error.rename : Error → Error
  | .staleReservation receipt => .staleReservation (relabel receipt)
  | other => other

def Value.rename : Value → Value
  | .reserved (some reservation) =>
    .reserved (some { reservation with receipt := relabel reservation.receipt })
  | other => other

/-- A reservation under the other name of its receipt. -/
def Reservation.rename (reservation : Reservation) : Reservation :=
  { reservation with receipt := relabel reservation.receipt }

theorem Value.rename_reserved (handed : Option Reservation) :
    (Value.reserved handed).rename relabel =
      .reserved (handed.map (Reservation.rename relabel)) := by
  cases handed <;> rfl

def Reply.rename : Reply → Reply
  | .ok value => .ok (value.rename relabel)
  | .error failure => .error (failure.rename relabel)

theorem mints_rename (inputs : List Input) : mints (inputs.map (Input.rename relabel)) =
      (mints inputs).map relabel := by
  unfold mints
  rw [List.flatMap_map, List.map_flatMap]
  congr 1
  funext input
  obtain ⟨now, mint, call⟩ := input
  cases call <;> rfl

theorem freshMints_rename {inputs : List Input}
    (injective : Function.Injective relabel) (fresh : FreshMints inputs) :
    FreshMints (inputs.map (Input.rename relabel)) := by
  rw [FreshMints, mints_rename]
  exact List.Nodup.map injective fresh

end Rename

end Worklane
