import Nivara.Pagination.BadCursor
import Nivara.Sla.DwellSweep
import Nivara.Slack.Ingestion

/-! What a principal may ask `TicketService`, `MessageService` and `ContactReplyService` for, and how it is
served: the lists with their filters from `tickets/ticket-filters.ts` and `conversation/thread.ts`, and a
transaction for every call. -/
namespace Nivara.Pagination
open Text

def Seek.runs : Seek → Bool
  | .byId _ anchorId => isUuidText anchorId
  | .past _ _ value anchorId => isUuidText anchorId && match value with
    | .date at' => at'.any inColumn
    | .scalar _ => true

end Nivara.Pagination

namespace Nivara.Tickets
open Transactions Text Pagination

structure TicketFilters where
  state : Option Str
  priority : Option Str
  source : Option Str
  assigneeId : Option Str
  contactId : Option Str
  createdAfter : Option Str
  createdBefore : Option Str
  deriving DecidableEq

/-- `TicketWhereInput`; an assignee of `some none` is `null`. -/
structure TicketWhere where
  state : Option (List TicketState)
  priority : Option (List TicketPriority)
  source : Option (List TicketSource)
  assigneeId : Option (Option Str)
  contactId : Option Str
  gte : Option Int
  lte : Option Int
  deriving DecidableEq

def states : List (Str × TicketState) :=
  [.opened, .pending, .onHold, .resolved, .closed].map fun s => (units (Sla.stateText s), s)

def priorities : List (Str × TicketPriority) :=
  [(units "low", .low), (units "normal", .normal), (units "high", .high), (units "urgent", .urgent)]

def sources : List (Str × TicketSource) := [(units "portal", .portal), (units "widget", .widget), (units "slack", .slack)]

def isBlank (c : CodeUnit) : Bool := Slack.isSpace c.toNat

def trimmed (s : Str) : Str := ((s.dropWhile isBlank).reverse.dropWhile isBlank).reverse

def notValid (raw parameter advice : Str) : Str :=
  units "'" ++ raw ++ units "' is not a valid " ++ parameter ++ units ". " ++ advice

def enumSet {α : Type} (allowed : List (Str × α)) (parameter raw : Str) : Except Str (List α) :=
  ((List.splitOn (unit ',') raw).map trimmed).mapM fun value =>
    match allowed.find? fun a => a.1 = value with
    | some a => .ok a.2
    | none => .error (notValid value parameter
        (units "Allowed values: " ++ List.intercalate (units ", ") (allowed.map Prod.fst) ++ units "."))

def uuid (parameter raw : Str) : Except Str Str :=
  if isUuidText raw then .ok raw else .error (notValid raw parameter (units "Supply a uuid."))

def timestamp (host : Host) (parameter raw : Str) : Except Str Int :=
  match dateParse host raw with
  | some t => .ok t
  | none => .error (notValid raw parameter (units "Supply an ISO-8601 timestamp."))

def unassigned : Str := units "none"

/-- `ticketWhere`, or the message of the `invalid_filter` it throws. -/
def ticketWhere (host : Host) (filters : TicketFilters) : Except Str TicketWhere := do
  let state ← filters.state.mapM (enumSet states (units "state"))
  let priority ← filters.priority.mapM (enumSet priorities (units "priority"))
  let source ← filters.source.mapM (enumSet sources (units "source"))
  let assigneeId ← filters.assigneeId.mapM fun raw =>
    if raw = unassigned then .ok none else (uuid (units "assigneeId") raw).map some
  let contactId ← filters.contactId.mapM (uuid (units "contactId"))
  let gte ← filters.createdAfter.mapM (timestamp host (units "createdAfter"))
  let lte ← filters.createdBefore.mapM (timestamp host (units "createdBefore"))
  .ok ⟨state, priority, source, assigneeId, contactId, gte, lte⟩

/-- What the services run on: the decoder of cursors and the reader of dates, and the database's order of
identifiers, with what it reads a text as. -/
structure Platform (κ : Type) where
  base64 : Base64Decoder
  host : Host
  rank : Uuid → Nat
  name : Uuid → Str
  key : Str → κ

def dateColumn (t : Int) : Option Column := if h : timeClip t = some t then some (.date ⟨t, h⟩) else none

section Lists
variable {κ : Type} (P : Platform κ)

def Platform.tickets : Resource (Uuid × Ticket) κ where
  id x := P.name x.1
  key := P.key
  column x field :=
    if field = units "createdAt" then dateColumn x.2.createdAt
    else if field = units "updatedAt" then dateColumn x.2.updatedAt else none

def threadSortable : SortableFields := [(units "createdAt", .date)]

def Platform.messages : Resource (Uuid × Entry) κ where
  id x := P.name x.1
  key := P.key
  column x field := if field = units "createdAt" then dateColumn x.2.createdAt else none

structure ListTicketsInput where
  filters : TicketFilters
  limit : ℕ
  cursor : Option Str
  sort : Option Str
  deriving DecidableEq

structure ListThreadInput where
  limit : ℕ
  cursor : Option Str
  sort : Option Str
  deriving DecidableEq

/-- What a call throws: a page that cannot be, an `invalid_filter`, or what its transaction fails with. -/
inductive Thrown where
  | page (e : Pagination.AppException)
  | filter (message : Str)
  | failure (e : Option Failure)
  deriving DecidableEq

variable [LinearOrder κ]

def TicketWhere.admits (where' : TicketWhere) (r : Ticket) : Bool :=
  where'.state.all (·.contains r.state) && where'.priority.all (·.contains r.priority) &&
    where'.source.all (·.contains r.source) &&
    (where'.assigneeId.all fun
      | none => r.assigneeId.isNone
      | some id => r.assigneeId.any fun a => P.key (P.name a) = P.key id) &&
    (where'.contactId.all fun id => P.key (P.name r.contactId) = P.key id) &&
    where'.gte.all (· ≤ r.createdAt) && where'.lte.all (r.createdAt ≤ ·)

def runs (where' : TicketWhere) (plan : KeysetPlan) : Bool :=
  where'.gte.all inColumn && where'.lte.all inColumn && plan.where'.all Seek.runs

/-- `TicketService.list`. Its page is none if the query throws, or the cursor of the next page. -/
def listTickets (input : ListTicketsInput) : Except Thrown (Tx (Option (Page (Uuid × Ticket)))) := do
  let sort ← (parseSort input.sort (sortableFieldNames ticketSortable)).mapError .page
  let plan ← (keysetPlan P.base64 P.host sort input.cursor ticketSortable).mapError .page
  let where' ← (ticketWhere P.host input.filters).mapError .filter
  .ok do
    let rows ← Tx.findMany fun _ r => where'.admits P r
    pure (if runs where' plan then
      buildPage P.tickets (Pagination.findMany P.tickets plan (input.limit + 1) rows) input.limit sort else none)

def listForTicket (ticketId : Uuid) (input : ListThreadInput) : Except Thrown (Tx (Option (Page (Uuid × Entry)))) := do
  let sort ← (parseSort input.sort (sortableFieldNames threadSortable)).mapError .page
  let plan ← (keysetPlan P.base64 P.host sort input.cursor threadSortable).mapError .page
  .ok do
    assertTicketVisible ticketId
    let rows ← Tx.run (.selectMessages fun _ m => m.ticketId = ticketId) .sql
    pure (if plan.where'.all Seek.runs then
      buildPage P.messages (Pagination.findMany P.messages plan (input.limit + 1) rows) input.limit sort else none)

end Lists

def findOne (id : Uuid) : Tx (Uuid × Ticket) := do
  match ← Tx.findUnique id with
  | none => .fail (AppException.notFound "Ticket")
  | some ticket => pure (id, ticket)

/-- Whom a transaction is armed for, and what its credential permits. -/
structure Principal where
  tenantId : Uuid
  actor : Actor
  permissions : List Permission
  deriving DecidableEq, Repr

/-- The operations of the services, with their arguments. -/
inductive Invocation where
  | create (principal : Principal) (input : CreateTicketInput)
  | findOne (principal : Principal) (id : Uuid)
  | list (principal : Principal) (input : ListTicketsInput)
  | transition (principal : Principal) (id : Uuid) (to' : TicketState)
  | setPriority (principal : Principal) (id : Uuid) (priority : TicketPriority)
  | setAssignee (principal : Principal) (id : Uuid) (assigneeId : Option Uuid)
  | conversation (principal : Principal) (id : Uuid)
  | post (principal : Principal) (ticketId : Uuid) (body : String)
  | listForTicket (principal : Principal) (ticketId : Uuid) (input : ListThreadInput)
  | reply (principal : ContactPrincipal) (ticketId : Uuid) (body : String) (source : TicketSource)
  deriving DecidableEq

namespace Invocation

def tenantId : Invocation → Uuid
  | .create p _ => p.tenantId
  | .findOne p _ => p.tenantId
  | .list p _ => p.tenantId
  | .transition p _ _ => p.tenantId
  | .setPriority p _ _ => p.tenantId
  | .setAssignee p _ _ => p.tenantId
  | .conversation p _ => p.tenantId
  | .post p _ _ => p.tenantId
  | .listForTicket p _ _ => p.tenantId
  | .reply p _ _ _ => p.tenantId

def actor : Invocation → Actor
  | .create p _ => p.actor
  | .findOne p _ => p.actor
  | .list p _ => p.actor
  | .transition p _ _ => p.actor
  | .setPriority p _ _ => p.actor
  | .setAssignee p _ _ => p.actor
  | .conversation p _ => p.actor
  | .post p _ _ => p.actor
  | .listForTicket p _ _ => p.actor
  | .reply p _ _ _ => .contact p.contactId

end Invocation

inductive Outcome where
  | ticket (id : Uuid) (row : Ticket)
  | tickets (rows : List (Uuid × Ticket))
  | ticketPage (page : Option (Page (Uuid × Ticket)))
  | message (id : Uuid) (row : Entry)
  | messagePage (page : Option (Page (Uuid × Entry)))
  | replied (reply : ContactReply)

def Outcome.ticketsIn : Outcome → List (Uuid × Ticket)
  | .ticket id row => [(id, row)]
  | .tickets rows => rows
  | .ticketPage page => page.elim [] Page.data
  | .replied reply => [(reply.ticketId, reply.ticket)]
  | _ => []

def Outcome.messagesIn : Outcome → List (Uuid × Entry)
  | .message id row => [(id, row)]
  | .messagePage page => page.elim [] Page.data
  | .replied reply => [(reply.messageId, reply.message)]
  | _ => []

/-- A call, with the `now()` of its transaction and the instant that Prisma stamps rows with. -/
structure Asked where
  invocation : Invocation
  now : Int
  at' : Int
  deriving DecidableEq

def Asked.context (a : Asked) : TenantContext := ⟨a.invocation.tenantId, a.invocation.actor, a.now⟩

section Serving
variable {κ : Type} [LinearOrder κ] (P : Platform κ)

/-- What runs in the transaction of a call, or what is thrown before it begins. The filters are looked at
in it, but before its first statement. -/
def Invocation.script (at' : Int) : Invocation → Except Thrown (Tx Outcome)
  | .create p input => .ok do
    let ticket ← createIn p.tenantId input at'
    pure (.ticket ticket.1 ticket.2)
  | .findOne _ id => .ok do
    let ticket ← Tickets.findOne id
    pure (.ticket ticket.1 ticket.2)
  | .list _ input => do
    let tx ← listTickets P input
    .ok do
      let page ← tx
      pure (.ticketPage page)
  | .transition p id to' => .ok do
    let ticket ← transitionIn p.permissions id to' at'
    pure (.ticket ticket.1 ticket.2)
  | .setPriority _ id priority => .ok do
    let ticket ← Tickets.setPriority id priority at'
    pure (.ticket ticket.1 ticket.2)
  | .setAssignee _ id assigneeId => .ok do
    let ticket ← Tickets.setAssignee id assigneeId at'
    pure (.ticket ticket.1 ticket.2)
  | .conversation _ id => .ok do
    let rows ← Tickets.conversation P.rank id
    pure (.tickets rows)
  | .post _ ticketId body => .ok do
    let message ← postIn ticketId body at'
    pure (.message message.1 message.2)
  | .listForTicket _ ticketId input => do
    let tx ← Tickets.listForTicket P ticketId input
    .ok do
      let page ← tx
      pure (.messagePage page)
  | .reply p ticketId body source => .ok do
    let reply ← Tickets.reply p ticketId body source at'
    pure (.replied reply)

variable {ι : Type} [DecidableEq ι] (i : ι) (n : ℕ)

def Platform.serve (a : Asked) (d : Desk ι) : Option (Desk ι × Except Thrown Outcome) :=
  match a.invocation.script P a.at' with
  | .error e => some (d, .error e)
  | .ok tx => (tx.alone (deskEngine ι) i a.context n d).map fun x => (x.1, x.2.mapError .failure)

/-- One call after the other: what the database is at the end, and what each has answered. -/
def Platform.serveAll : List Asked → Desk ι → Option (Desk ι × List (Except Thrown Outcome))
  | [], d => some (d, [])
  | a :: rest, d =>
    match P.serve i n a d with
    | none => none
    | some (d₁, answer) => (Platform.serveAll rest d₁).map fun x => (x.1, answer :: x.2)

end Serving
end Nivara.Tickets
