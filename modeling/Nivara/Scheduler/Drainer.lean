import Nivara.Scheduler.JobQueue

/-! The drainer, from `scheduler/drainer.service.ts`. Each tick claims a batch and works it one
job after the other; `ι` names the ticks, of any number of processes. A tick that throws leaves
the rest of its batch behind, as one whose process dies does. -/
namespace Nivara.Scheduler
open Transactions

def inboundEventJob : String := "inbound.event"
def outboundDeliveryJob : String := "outbound.delivery"

def hasHandler (kind : String) : Bool := kind = inboundEventJob ∨ kind = outboundDeliveryJob

def noHandlerMessage (kind : String) : String := "No handler is registered for job kind \"" ++ kind ++ "\""

inductive Phase where
  | next
  | running (since : Int)
  /-- The handler returned, or failed with a message. -/
  | settling (error : Option String)
  deriving DecidableEq, Repr

structure Drainage (ι π : Type) where
  queue : Queue ι π
  phase : ι → Phase

inductive DrainAction (ι π : Type) where
  | elapse (now : Int)
  | enqueue (tenantId : Uuid) (input : EnqueueInput π)
  | claim (i : ι) (limit : JsNumber) (picks : List Nat)
  | commit (i : ι)
  | rollback (i : ι)
  | start (i : ι)
  | reject (i : ι)
  | finish (i : ι) (error : Option String)
  | settle (i : ι) (random : ℚ)
  | crash (i : ι)

namespace Drainage
variable {ι π : Type} [DecidableEq ι]

def initial : Drainage ι π := ⟨Queue.initial, fun _ => .next⟩

def place (d : Drainage ι π) (i : ι) : Nat := d.queue.hands.findIdx (·.drainer = i)

def current (d : Drainage ι π) (i : ι) : Option (Hand ι π) := d.queue.hands[d.place i]?

def enter (d : Drainage ι π) (i : ι) (phase : Phase) : Drainage ι π :=
  { d with phase := Function.update d.phase i phase }

def onQueue (d : Drainage ι π) (a : QueueAction ι π) : Option (Drainage ι π) :=
  (d.queue.step a).map fun q => { d with queue := q }

def settlement (d : Drainage ι π) (i : ι) (random : ℚ) : Option String → QueueAction ι π
  | none => .complete (d.place i)
  | some message => .fail (d.place i) message random

def step (d : Drainage ι π) : DrainAction ι π → Option (Drainage ι π)
  | .elapse now => d.onQueue (.tick now)
  | .enqueue tenantId input => d.onQueue (.enqueue tenantId input)
  | .claim i limit picks => if (d.current i).isNone then d.onQueue (.claim i limit picks) else none
  | .commit i => (d.onQueue (.commit i)).map fun d' => d'.enter i .next
  | .rollback i => d.onQueue (.rollback i)
  | .start i => (d.current i).bind fun h =>
      if d.phase i = .next ∧ hasHandler h.job.kind then some (d.enter i (.running d.queue.clock)) else none
  | .reject i => (d.current i).bind fun h =>
      if d.phase i = .next ∧ ¬ hasHandler h.job.kind then
        some (d.enter i (.settling (some (noHandlerMessage h.job.kind))))
      else none
  | .finish i error =>
    match d.phase i with
    | .running _ => some (d.enter i (.settling error))
    | _ => none
  | .settle i random =>
    match d.phase i with
    | .settling error => (d.onQueue (d.settlement i random error)).map fun d' => d'.enter i .next
    | _ => none
  | .crash i => (d.onQueue (.crash i)).map fun d' => d'.enter i .next

end Drainage
end Nivara.Scheduler
