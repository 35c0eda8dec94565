import Nivara.Scheduler.Drainer
import Nivara.Slack.SlackClient

/-! An agent's reply on its way to the customer, from `slack/slack-delivery.service.ts`: the
handler of the `outbound.delivery` jobs, which the drainers run, and the `outbound_delivery`
table, which `outbound/outbound-dispatch.service.ts` fills. The handler's own transaction is
open from its start to its end; the claim, the record and the return to `pending` commit on
their own. -/
namespace Nivara.Slack
open Transactions Scheduler

inductive ActorKind where
  | user | contact | service | system
  deriving DecidableEq, Repr

structure Message where
  tenantId : Uuid
  authorKind : ActorKind
  body : String
  deriving DecidableEq, Repr

inductive DeliveryStatus where
  | pending | delivered | dead
  deriving DecidableEq, Repr

structure OutboundDelivery where
  tenantId : Uuid
  messageId : Uuid
  target : String
  status : DeliveryStatus
  attempts : Nat
  externalId : Option String
  deliveredAt : Option Int
  lastError : Option String
  deriving DecidableEq, Repr

namespace OutboundDelivery

def key (r : OutboundDelivery) : Uuid × String := (r.messageId, r.target)

/-- `CHECK (("status" = 'delivered') = ("delivered_at" IS NOT NULL))`. -/
def checks (r : OutboundDelivery) : Bool := decide (r.status = .delivered) = r.deliveredAt.isSome

def attempted (r : OutboundDelivery) : OutboundDelivery := { r with attempts := r.attempts + 1 }

def recorded (ts : String) (now : Int) (r : OutboundDelivery) : OutboundDelivery :=
  { r with status := .delivered, deliveredAt := some now, externalId := some ts, lastError := none }

def settled (status : DeliveryStatus) (lastError : String) (r : OutboundDelivery) : OutboundDelivery :=
  { r with status := status, lastError := some lastError }

end OutboundDelivery

def jsonChar (c : Char) : String :=
  match c.toNat with
  | 8 => "\\b"
  | 9 => "\\t"
  | 10 => "\\n"
  | 12 => "\\f"
  | 13 => "\\r"
  | 34 => "\\\""
  | 92 => "\\\\"
  | n => if n < 32 then "\\u00" ++ toString (n / 16) ++ String.singleton (n % 16).digitChar else String.singleton c

def jsonString (s : String) : String := "\"" ++ String.join (s.toList.map jsonChar) ++ "\""

def notADestination (target : String) : String :=
  "The delivery target " ++ jsonString target ++ " is not a Slack destination."

def messageDeleted : String := "The Message was deleted before it could be delivered."

def routeFor (slackChannelId slackThreadTs : Option String) : Option String :=
  match slackChannelId.filter (· ≠ ""), slackThreadTs.filter (· ≠ "") with
  | some channelId, some threadTs => some (slackTarget channelId threadTs)
  | _, _ => none

/-- The payloads in the queue. What an `inbound.event` job carries is not looked at here. -/
inductive JobPayload where
  | delivery (messageId : Uuid) (target : String)
  | event
  deriving DecidableEq, Repr

/-- What the handler does next. It has the delivery's row from `claimed` on. -/
inductive Stage where
  | claiming
  | claimed (k : Nat)
  | composed (k : Nat) (text : String)
  | posted (k : Nat) (ts : String)
  | caught (k : Nat) (error : SlackError)
  | returning
  | thrown (message : String)
  deriving DecidableEq, Repr

structure Handling where
  tenantId : Uuid
  messageId : Uuid
  target : String
  attempt : Nat
  maxAttempts : Int
  stage : Stage
  deriving DecidableEq, Repr

def Handling.key (x : Handling) : Uuid × String := (x.messageId, x.target)

/-- The drainers and the queue, the messages (a deleted one stays as `none`), the deliveries,
the handlers that run, and every pair that Slack accepted a post of. -/
structure Courier (ι : Type) where
  drainage : Drainage ι JobPayload
  messages : List (Option Message)
  deliveries : Table ι OutboundDelivery
  handlers : ι → Option Handling
  accepted : List (Uuid × String)

inductive CourierAction (ι : Type) where
  | create (message : Message)
  | delete (messageId : Uuid)
  /-- `dispatchIn`, with the two Slack columns of the message's ticket. -/
  | dispatch (messageId : Uuid) (slackChannelId slackThreadTs : Option String)
  | drain (a : DrainAction ι JobPayload)
  /-- The next statement of the handler of `i`, or the end of its transaction. -/
  | advance (i : ι)
  /-- The next statement fails. -/
  | fail (i : ι) (message : String)
  | post (i : ι) (accepts : Bool) (answer : Answer)

namespace Courier
variable {ι : Type}

def initial [DecidableEq ι] : Courier ι := ⟨Drainage.initial, [], Table.empty, fun _ => none, []⟩

/-- The message exists, and with it its deliveries: their foreign key cascades. -/
def alive (c : Courier ι) (messageId : Uuid) : Bool := c.messages[messageId]?.join.isSome

def isGone (c : Courier ι) (messageId : Uuid) : Bool := c.messages[messageId]? = some none

def textOf (c : Courier ι) (messageId : Uuid) : Option String := c.messages[messageId]?.join.map (·.body)

/-- The row to deliver, as the claim's `WHERE` finds it under the tenant's policy. -/
def isOwed (c : Courier ι) (x : Handling) (r : OutboundDelivery) : Bool :=
  r.tenantId = x.tenantId ∧ r.key = x.key ∧ r.status = .pending ∧ c.alive r.messageId

def owed (c : Courier ι) (x : Handling) : Option Nat :=
  (List.range c.deliveries.size).find? fun k => (c.deliveries.committed k).any (c.isOwed x)

def updates (c : Courier ι) (k : Nat) (f : OutboundDelivery → OutboundDelivery) : Bool :=
  (c.deliveries.committed k).any fun r => c.alive r.messageId && (f r).checks

/-- `inOwnTransaction`: an `update` that commits at once. -/
def inOwnTransaction (c : Courier ι) (k : Nat) (f : OutboundDelivery → OutboundDelivery) : Option (Courier ι) :=
  if c.updates k f ∧ (c.deliveries.pending k).isNone then some { c with deliveries := c.deliveries.amend k f } else none

variable [DecidableEq ι]

def goto (c : Courier ι) (i : ι) (x : Handling) (stage : Stage) : Courier ι :=
  { c with handlers := Function.update c.handlers i (some { x with stage := stage }) }

def inTransaction (c : Courier ι) (i : ι) (k : Nat) (f : OutboundDelivery → OutboundDelivery) : Option (Courier ι) :=
  if c.updates k f ∧ c.deliveries.free i [k] then
    some { c with deliveries := c.deliveries.write i [k] (fun _ => true) f }
  else none

def leave (c : Courier ι) (i : ι) (deliveries : Table ι OutboundDelivery) (error : Option String) :
    Option (Courier ι) :=
  (c.drainage.step (.finish i error)).map fun d =>
    { c with drainage := d, deliveries := deliveries, handlers := Function.update c.handlers i none }

def claim (c : Courier ι) (i : ι) (x : Handling) : Option (Courier ι) :=
  match c.owed x with
  | none => some (c.goto i x .returning)
  | some k => (c.inOwnTransaction k OutboundDelivery.attempted).map (·.goto i x (.claimed k))

def abandon (c : Courier ι) (i : ι) (x : Handling) (k : Nat) (error : String) : Option (Courier ι) :=
  (c.inTransaction i k (OutboundDelivery.settled .dead error)).map (·.goto i x .returning)

def advance (c : Courier ι) (i : ι) (x : Handling) : Option (Courier ι) :=
  match x.stage with
  | .claiming => c.claim i x
  | .claimed k =>
    match parseSlackTarget x.target with
    | none => c.abandon i x k (notADestination x.target)
    | some _ =>
      match c.textOf x.messageId with
      | none => c.abandon i x k messageDeleted
      | some text => some (c.goto i x (.composed k text))
  | .composed _ _ => none
  | .posted k ts =>
    (c.inOwnTransaction k (OutboundDelivery.recorded ts c.drainage.queue.clock)).map (·.goto i x .returning)
  | .caught k error =>
    if error.permanent ∨ x.maxAttempts ≤ x.attempt then c.abandon i x k error.message
    else
      (c.inOwnTransaction k (OutboundDelivery.settled .pending error.message)).map
        (·.goto i x (.thrown error.message))
  | .returning => c.leave i (c.deliveries.commit i) none
  | .thrown message => c.leave i (c.deliveries.rollback i) (some message)

/-- A failed statement. The `try` spans the post and the record; an error anywhere else leaves
the handler. -/
def failed (c : Courier ι) (i : ι) (x : Handling) (message : String) : Option (Courier ι) :=
  match x.stage with
  | .composed k _ => some (c.goto i x (.caught k ⟨false, message⟩))
  | .posted k _ => some (c.goto i x (.caught k ⟨false, message⟩))
  | .thrown _ => none
  | _ => some (c.goto i x (.thrown message))

def post (c : Courier ι) (i : ι) (x : Handling) (accepts : Bool) (answer : Answer) : Option (Courier ι) :=
  match x.stage with
  | .composed k _ =>
    if answer.agrees accepts then
      let stage := match postMessage answer with
        | .ok ts => Stage.posted k ts
        | .error error => Stage.caught k error
      some { c.goto i x stage with accepted := if accepts then c.accepted ++ [x.key] else c.accepted }
    else none
  | _ => none

/-- A delivery that is owed and its job, which commit together. The unique key swallows a
second one. -/
def schedule (c : Courier ι) (message : Message) (messageId : Uuid) (target : String) : Option (Courier ι) :=
  if (List.range c.deliveries.size).any fun k => (c.deliveries.committed k).any (·.key = (messageId, target)) then
    some c
  else
    (c.drainage.step (.enqueue message.tenantId ⟨outboundDeliveryJob, .delivery messageId target, none, none⟩)).map
      fun d => { c with
        drainage := d
        deliveries := c.deliveries.append
          ⟨message.tenantId, messageId, target, .pending, 0, none, none, none⟩ }

def dispatchIn (c : Courier ι) (messageId : Uuid) (slackChannelId slackThreadTs : Option String) : Option (Courier ι) :=
  c.messages[messageId]?.join.bind fun message =>
    if message.authorKind = .contact then some c
    else
      match routeFor slackChannelId slackThreadTs with
      | none => some c
      | some target => c.schedule message messageId target

def handling (c : Courier ι) (i : ι) : Option Handling :=
  (c.drainage.current i).bind fun h =>
    match h.job.payload with
    | .delivery messageId target =>
      if h.job.kind = outboundDeliveryJob then
        some ⟨h.job.tenantId, messageId, target, h.job.attempts, h.job.maxAttempts, .claiming⟩
      else none
    | .event => none

/-- The drainers' own steps. Jobs of this kind come from `dispatchIn` alone. -/
def drain (c : Courier ι) (a : DrainAction ι JobPayload) : Option (Courier ι) :=
  match a with
  | .enqueue _ input =>
    if input.kind = outboundDeliveryJob then none
    else (c.drainage.step a).map fun d => { c with drainage := d }
  | .start i =>
    -- the loop over the batch awaits each handler
    if (c.handlers i).isNone then
      (c.drainage.step a).map fun d =>
        { c with drainage := d, handlers := Function.update c.handlers i (c.handling i) }
    else none
  | .finish i _ =>
    if (c.handlers i).isNone then (c.drainage.step a).map fun d => { c with drainage := d } else none
  | .crash i => (c.drainage.step a).map fun d =>
      { c with
        drainage := d
        deliveries := c.deliveries.rollback i
        handlers := Function.update c.handlers i none }
  | a => (c.drainage.step a).map fun d => { c with drainage := d }

def step (c : Courier ι) : CourierAction ι → Option (Courier ι)
  | .create message => some { c with messages := c.messages ++ [some message] }
  | .delete messageId => if c.alive messageId then some { c with messages := c.messages.set messageId none } else none
  | .dispatch messageId slackChannelId slackThreadTs => c.dispatchIn messageId slackChannelId slackThreadTs
  | .drain a => c.drain a
  | .advance i => (c.handlers i).bind (c.advance i)
  | .fail i message => (c.handlers i).bind fun x => c.failed i x message
  | .post i accepts answer => (c.handlers i).bind fun x => c.post i x accepts answer

end Courier
end Nivara.Slack
