import Mathlib.Data.List.Sort
import Nivara.Slack.Delivery
import Nivara.Tickets.Desk

/-! The services that write Tickets and their threads, as scripts: `tickets/ticket.service.ts`,
`conversation/message.service.ts`, `conversation/note.service.ts`,
`outbound/outbound-dispatch.service.ts` and `conversation/contact-reply.service.ts`. The
instant that Prisma stamps rows with is an argument `at'`. -/
namespace Nivara.Tickets
open Transactions

inductive ErrorCode where
  | notFound | forbidden | conflict
  deriving DecidableEq, Repr

/-- What a service throws: an `AppException`, the error of a statement as it came, or a plain `Error`. -/
inductive Failure where
  | app (code : ErrorCode) (message : String)
  | sql (state : SqlState)
  | error (message : String)
  deriving DecidableEq, Repr

namespace AppException

def notFound (resource : String) : Failure := .app .notFound ("No such " ++ resource ++ ".")

def forbidden : Failure := .app .forbidden "This operation requires a permission your role does not hold."

end AppException

def ticketRefusals : SqlState → Option (ErrorCode × String)
  | .TK001 => some (.conflict,
      "That is not a legal transition for this Ticket in its current state. Read it again to see where it is.")
  | .TK002 => some (.conflict,
      "A closed Ticket is a finished record: neither its priority nor its assignee can be changed.")
  | .TK003 => some (.notFound, "No such Ticket is visible to this principal.")
  | .TK004 => some (.conflict,
      "A conversation’s ancestry is set when a Ticket is created and cannot be rewritten.")
  | .TK005 => some (.conflict,
      "A Ticket is reachable where its conversation started. Re-pointing a live conversation at another thread is not an edit; it is a new Ticket.")
  | _ => none

def rethrowTicketRefusal (e : SqlState) : Failure :=
  match ticketRefusals e with
  | some (code, message) => .app code message
  | none => .sql e

def rethrowChainConflict : Failure → Failure
  | .sql .uniqueViolation => .app .conflict
      "Another reply on this conversation was handled first. Read the conversation again and reply to its live Ticket."
  | e => e

def rethrowMissingTicket (e : SqlState) : Failure :=
  if e = .foreignKeyViolation then AppException.notFound "Ticket" else .sql e

inductive Permission where
  | ticketTransition | ticketClose
  deriving DecidableEq, Repr

def canTransition (_ to' : TicketState) (permissions : List Permission) : Bool :=
  if to' = .closed then permissions.contains .ticketClose else true

abbrev Tx := Script deskLanguage Failure

namespace Tx

def run (q : Stmt) (thrown : SqlState → Failure) : Tx q.Ans := Script.query (L := deskLanguage) q thrown

def findMany (picks : Uuid → Ticket → Bool) : Tx (List (Uuid × Ticket)) := run (.selectTickets picks) .sql

def findFirst (picks : Uuid → Ticket → Bool) : Tx (Option (Uuid × Ticket)) := do
  let rows ← findMany picks
  pure rows.head?

def findUnique (id : Uuid) : Tx (Option Ticket) := do
  let row ← findFirst fun k _ => k = id
  pure (row.map Prod.snd)

/-- `updateMany`: the rows that match, and match again when they are locked, get new values. -/
def updateMany (matching : Uuid → Ticket → Bool) (data : Ticket → Ticket) (thrown : SqlState → Failure) :
    Tx (List (Uuid × Ticket)) :=
  run (.updateTickets fun k r =>
    if matching k r then some fun r => if matching k r then some (data r) else none else none) thrown

end Tx

open Tx

structure CreateTicketInput where
  subject : String
  contactId : Uuid
  source : TicketSource
  spawnedFromTicketId : Option Uuid
  slackRoute : Option (String × String)
  deriving DecidableEq, Repr

def createIn (tenantId : Uuid) (input : CreateTicketInput) (at' : Int) : Tx (Uuid × Ticket) := do
  let row : Ticket := .fresh tenantId input.subject input.contactId input.source input.spawnedFromTicketId
    input.slackRoute at'
  let ticket ← run (.insertTicket row) fun e =>
    if e = .foreignKeyViolation then AppException.notFound "Contact" else rethrowTicketRefusal e
  let _ ← run (.record ticket.1 (.created ticket.2.state) at') .sql
  pure ticket

def readBack (id : Uuid) : Tx (Uuid × Ticket) := do
  match ← findUnique id with
  | none => .fail (AppException.notFound "Ticket")
  | some ticket => pure (id, ticket)

def changedState : Failure :=
  .app .conflict "The Ticket changed state while this request was in flight. Read it again and retry."

def transitionIn (permissions : List Permission) (id : Uuid) (to' : TicketState) (at' : Int) : Tx (Uuid × Ticket) := do
  match ← findUnique id with
  | none => .fail (AppException.notFound "Ticket")
  | some current =>
    if canTransition current.state to' permissions = false then .fail AppException.forbidden
    else
      let rows ← updateMany (fun k r => k = id ∧ r.state = current.state)
        (fun r => { r with state := to', updatedAt := at' }) rethrowTicketRefusal
      if rows.isEmpty then .fail changedState else readBack id

def update (id : Uuid) (data : Ticket → Ticket) (at' : Int) (thrown : SqlState → Failure) : Tx (Uuid × Ticket) := do
  let rows ← updateMany (fun k _ => k = id) (fun r => { data r with updatedAt := at' }) thrown
  if rows.isEmpty then .fail (AppException.notFound "Ticket") else readBack id

def setPriority (id : Uuid) (priority : TicketPriority) (at' : Int) : Tx (Uuid × Ticket) :=
  update id (fun r => { r with priority := priority }) at' rethrowTicketRefusal

def setAssignee (id : Uuid) (assigneeId : Option Uuid) (at' : Int) : Tx (Uuid × Ticket) :=
  update id (fun r => { r with assigneeId := assigneeId }) at' fun e =>
    if e = .foreignKeyViolation then AppException.notFound "User" else rethrowTicketRefusal e

def inChainWith (id : Uuid) (ticket : Ticket) (k : Uuid) (r : Ticket) : Bool :=
  k = ticket.chain id ∨ r.rootTicketId = some (ticket.chain id)

/-- `orderBy: [{ createdAt: 'asc' }, { id: 'asc' }]`; `rank` is the order of the identifiers. -/
def oldestFirst (rank : Uuid → Nat) (a b : Uuid × Ticket) : Bool :=
  a.2.createdAt < b.2.createdAt ∨ (a.2.createdAt = b.2.createdAt ∧ rank a.1 ≤ rank b.1)

def conversation (rank : Uuid → Nat) (id : Uuid) : Tx (List (Uuid × Ticket)) := do
  match ← findUnique id with
  | none => .fail (AppException.notFound "Ticket")
  | some anchor =>
    let rows ← findMany (inChainWith id anchor)
    pure (rows.mergeSort (oldestFirst rank))

def assertTicketVisible (id : Uuid) : Tx Unit := do
  match ← findUnique id with
  | none => .fail (AppException.notFound "Ticket")
  | some _ => pure ()

def dispatchIn (id : Uuid) (message : Entry) : Tx Unit := do
  if message.author.isContact then pure ()
  else
    let ticket ← findUnique message.ticketId
    match ticket.bind fun r => Slack.routeFor r.slackChannelId r.slackThreadTs with
    | none => pure ()
    | some target => .exec (.insertDelivery id target) fun
      | .error .uniqueViolation => pure ()
      | .error e => .fail (.sql e)
      | .ok _ => run (.enqueue id target) .sql

def postIn (ticketId : Uuid) (body : String) (at' : Int) : Tx (Uuid × Entry) := do
  assertTicketVisible ticketId
  let message ← run (.insertMessage ticketId body at') rethrowMissingTicket
  dispatchIn message.1 message.2
  pure message

def writeNote (ticketId : Uuid) (body : String) (at' : Int) : Tx (Uuid × Entry) :=
  run (.insertNote ticketId body at') rethrowMissingTicket

inductive ReplyOutcome where
  | append | reopen | spawn
  deriving DecidableEq, Repr

def replyOutcomeFor : TicketState → ReplyOutcome
  | .opened => .append
  | .onHold => .append
  | .pending => .reopen
  | .resolved => .reopen
  | .closed => .spawn

structure ContactPrincipal where
  tenantId : Uuid
  contactId : Uuid
  deriving DecidableEq, Repr

def targetForLive (id : Uuid) (ticket : Ticket) (at' : Int) : Tx (ReplyOutcome × Uuid × Ticket) :=
  match replyOutcomeFor ticket.state with
  | .append => pure (.append, id, ticket)
  | _ => do
    let reopened ← transitionIn [] id .opened at'
    pure (.reopen, reopened)

/-- `spawnOrJoinLive`. The row it joins is never closed, so what `targetFor` does with it is
`targetForLive`. -/
def spawnOrJoinLive (principal : ContactPrincipal) (id : Uuid) (parent : Ticket) (source : TicketSource) (at' : Int) :
    Tx (ReplyOutcome × Uuid × Ticket) := do
  match ← findFirst fun k r => inChainWith id parent k r ∧ r.state ≠ .closed with
  | some live => targetForLive live.1 live.2 at'
  | none =>
    let ticket ← (createIn principal.tenantId ⟨parent.subject, principal.contactId, source, some id, none⟩ at').rethrow
      rethrowChainConflict
    pure (.spawn, ticket)

def targetFor (principal : ContactPrincipal) (id : Uuid) (ticket : Ticket) (source : TicketSource) (at' : Int) :
    Tx (ReplyOutcome × Uuid × Ticket) :=
  match replyOutcomeFor ticket.state with
  | .spawn => spawnOrJoinLive principal id ticket source at'
  | _ => targetForLive id ticket at'

/-- What a reply answers: the Ticket it landed on, how, and its Message. -/
structure ContactReply where
  landing : ReplyOutcome
  ticketId : Uuid
  ticket : Ticket
  messageId : Uuid
  message : Entry
  deriving DecidableEq, Repr

def reply (principal : ContactPrincipal) (ticketId : Uuid) (body : String) (source : TicketSource) (at' : Int) :
    Tx ContactReply := do
  match ← findUnique ticketId with
  | none => .fail (AppException.notFound "Ticket")
  | some addressed =>
    let target ← targetFor principal ticketId addressed source at'
    let message ← postIn target.2.1 body at'
    pure ⟨target.1, target.2.1, target.2.2, message.1, message.2⟩

end Nivara.Tickets
