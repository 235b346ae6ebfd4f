import Worklane.Core.Broker
import Worklane.Lib.Codec
import Worklane.Lib.Threads

/-!
# What the facade asks its surroundings

The client, the worker and the fan-in watcher of the `worklane` crate are
programs over one set of operations: calls of the broker, the result store,
the payload store, fresh ids, the user's handlers, the circuit breaker and the
handler deadline.  The answer of a broker call also carries the clock reading
and the receipt of the broker machine's input, which no program looks at.
-/

namespace Worklane.Facade

open Lib (expect)
open Lib.Format (utf8)

/-! ## Errors -/

/-- `Error` as the facade returns it: the errors the brokers return and the
variants that arise in the facade and its stores. -/
inductive Failure where
  | spi (error : Error)
  | outputEncode (text : String)
  | handler (text : String)
  | unknownLane (lane : String)
  | resultStore (text : String)
  | unsupportedCapability (text : String)
  deriving DecidableEq, Repr

/-- The `Display` text of an error. -/
def Failure.text : Failure → String
  | .spi error => error.text
  | .outputEncode text => "output encode error: " ++ text
  | .handler text => "handler error: " ++ text
  | .unknownLane lane => "unknown lane: " ++ lane
  | .resultStore text => "result store error: " ++ text
  | .unsupportedCapability text => "unsupported broker capability: " ++ text

/-! ## Claim-check references -/

/-- `MAGIC`: NUL, `WLCC` and the version byte. -/
def magic : Blob := [0, 87, 76, 67, 67, 1]

def makeReference (key : String) : Blob := magic ++ utf8 key

/-- `reference_key`: a key that is not UTF-8 is no reference. -/
def referenceKey (payload : Blob) : Option String :=
  (expect magic payload).bind fun rest => String.fromUTF8? ⟨rest.toArray⟩

@[simp]
theorem referenceKey_makeReference (key : String) :
    referenceKey (makeReference key) = some key := by
  simp [referenceKey, makeReference, utf8, String.fromUTF8?, String.fromUTF8, key.isValidUTF8]

/-- What `to_payload` returns: JSON, which never starts with NUL. -/
structure Serialized where
  bytes : Blob
  inline : referenceKey bytes = none

theorem referenceKey_digit : referenceKey [49] = none := by decide

theorem referenceKey_of_head {bytes : Blob} {first : UInt8} {rest : Blob}
    (starts : bytes = first :: rest) (visible : first ≠ 0) :
    referenceKey bytes = none := by
  subst starts
  simp [referenceKey, magic, expect, visible.symm]

/-! ## Broker calls and their typed results -/

end Worklane.Facade

namespace Worklane

/-- What a successful call returns. -/
@[reducible]
def Call.Result : Call → Type
  | .enqueue _ => JobId
  | .enqueueBatch _ => List JobId
  | .reserve _ => Option Reservation
  | .classify _ => JobState
  | .readDeadLetters _ _ => List DeadLetter
  | .countDeadLetters _ => Nat
  | .purgeDeadLetters _ => Nat
  | .pendingCount _ => Nat
  | .enqueueScheduled _ _ _ => Bool
  | .ack _ => Unit
  | .retry _ _ => Unit
  | .defer _ _ => Unit
  | .fail _ _ => Unit
  | .extend _ => Unit
  | .requeue _ => Unit
  | .removeSchedule _ => Unit

/-- The result as a value of the broker machine. -/
def Call.value : (call : Call) → call.Result → Value
  | .enqueue _, id => .jobId id
  | .enqueueBatch _, ids => .jobIds ids
  | .reserve _, reservation => .reserved reservation
  | .classify _, state => .state state
  | .readDeadLetters _ _, letters => .deadLetters letters
  | .countDeadLetters _, count => .count count
  | .purgeDeadLetters _, count => .count count
  | .pendingCount _, count => .count count
  | .enqueueScheduled _ _ _, won => .claimed won
  | .ack _, _ => .done
  | .retry _ _, _ => .done
  | .defer _ _, _ => .done
  | .fail _ _, _ => .done
  | .extend _, _ => .done
  | .requeue _, _ => .done
  | .removeSchedule _, _ => .done

end Worklane

namespace Worklane.Facade

/-- A broker's answer, with the reading and the receipt of the call. -/
structure Served (α : Type) where
  now : Nat
  mint : ReservationReceipt
  reply : Except Error α

/-! ## Operations -/

inductive Op where
  | call (request : Call)
  | newId
  | storeResult (id : JobId) (result : Blob)
  | getResult (id : JobId)
  | put (payload : Blob)
  | get (key : String)
  | delete (key : String)
  /-- The user's handler of a job, on its resolved payload. -/
  | handle (envelope : JobEnvelope) (payload : Blob)
  /-- `CircuitBreaker::admit`: a delay when the job is not admitted. -/
  | admitKind (kind : String)
  /-- `CircuitBreaker::record`. -/
  | record (kind : String) (success : Bool)
  /-- Whether the handler's deadline has passed. -/
  | deadline
  /-- Whether an aborted handler still gets to its next yield point. -/
  | lags

@[reducible]
def Op.Answer : Op → Type
  | .call request => Served request.Result
  | .newId => JobId
  | .storeResult _ _ => Except Failure Unit
  | .getResult _ => Except Failure (Option Blob)
  | .put _ => Except Failure String
  | .get _ => Except Failure (Option Blob)
  | .delete _ => Except Failure Unit
  | .handle _ _ => Except Failure Blob
  | .admitKind _ => Option Nat
  | .record _ _ => Unit
  | .deadline => Bool
  | .lags => Bool

abbrev Action (α : Type) : Type := Lib.Program Op Op.Answer α

/-- A step of a program: an operation and its answer. -/
abbrev Did : Type := Lib.Program.Step Op Op.Answer

abbrev Log : Type := List (Lib.Event Op Op.Answer)

/-- One call of the broker. -/
def call (request : Call) : Action (Except Failure request.Result) := do
  let served : Served request.Result ← Lib.Program.perform (Op.call request)
  return served.reply.mapError .spi

/-- The `?` operator. -/
def andThen {ε α β : Type} (first : Action (Except ε α))
    (rest : α → Action (Except ε β)) : Action (Except ε β) := do
  match ← first with
  | .error failure => return .error failure
  | .ok value => rest value

section Rules

open Lib.Program

variable {law : List Did → Op → Prop} {past : List Did}

theorem lawful_call {request : Call} {post : Except Failure request.Result → List Did → Prop} :
    Lawful law post past (call request) ↔ law past (.call request) ∧
      ∀ served : Served request.Result, post (served.reply.mapError .spi)
          (past ++ [⟨.call request, served⟩]) := Iff.rfl

/-- What is left to show after the first half of a `?`. -/
def Continues {ε α β : Type} (law : List Did → Op → Prop) (post : Except ε β → List Did → Prop)
    (rest : α → Action (Except ε β)) :
    Except ε α → List Did → Prop
  | .error failure, history => post (.error failure) history
  | .ok value, history => Lawful law post history (rest value)

theorem lawful_andThen_iff {ε α β : Type} {first : Action (Except ε α)}
    {rest : α → Action (Except ε β)}
    {post : Except ε β → List Did → Prop} :
    Lawful law post past (andThen first rest) ↔
      Lawful law (Continues law post rest) past first := by
  refine lawful_bind.trans ?_
  constructor
  · intro lawful
    refine lawful.mono ?_
    intro outcome history held
    cases outcome <;> exact held
  · intro lawful
    refine lawful.mono ?_
    intro outcome history held
    cases outcome <;> exact held

theorem lawful_andThen {ε α β : Type} {first : Action (Except ε α)} {rest : α → Action (Except ε β)}
    {middle : Except ε α → List Did → Prop}
    {post : Except ε β → List Did → Prop}
    (lawful : Lawful law middle past first)
    (failed : ∀ failure history, middle (.error failure) history → post (.error failure) history)
    (passed : ∀ value history, middle (.ok value) history → Lawful law post history (rest value)) :
    Lawful law post past (andThen first rest) := by
  refine lawful_andThen_iff.mpr (lawful.mono ?_)
  intro outcome history held
  cases outcome with
  | error failure => exact failed failure history held
  | ok value => exact passed value history held

end Rules

end Worklane.Facade
