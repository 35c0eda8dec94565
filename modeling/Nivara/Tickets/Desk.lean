import Nivara.Tickets.StateMachine
import Nivara.Transactions.Outline
import Nivara.Transactions.Table

/-! The database the desk works on: the tables `ticket`, `message`, `note`, `audit_log`,
`contact`, `outbound_delivery` and `job`, as far as Tickets are concerned, with their
policies, triggers and unique indexes. A statement works under the context its transaction
is armed with. The primary key of a row is its place in its table. -/
namespace Nivara.Tickets
open Transactions

inductive Actor where
  | user (id : Uuid)
  | contact (id : Uuid)
  | service (id : Uuid)
  | system
  deriving DecidableEq, Repr

/-- The settings a transaction is armed with; `now` is its `now()`, the instant it began. -/
structure TenantContext where
  tenantId : Uuid
  actor : Actor
  now : Int
  deriving DecidableEq, Repr

/-- A row of `message` or of `note`; the author is stamped from the context. -/
structure Entry where
  tenantId : Uuid
  ticketId : Uuid
  body : String
  author : Actor
  createdAt : Int
  deriving DecidableEq, Repr

structure Contact where
  tenantId : Uuid
  slackUserId : Option String
  deriving DecidableEq, Repr

/-- A new row of `outbound_delivery`, or the payload of its job. -/
structure Dispatch where
  tenantId : Uuid
  messageId : Uuid
  target : String
  deriving DecidableEq, Repr

/-- The entries the services record about a Ticket themselves. The other actions of the log
are written by the trigger alone. -/
inductive Recorded where
  | created (state : TicketState)
  | breached (timer : SlaTimer)
  deriving DecidableEq, Repr

def Recorded.entry (ticketId : Uuid) (createdAt : Int) : Recorded → AuditEntry
  | .created state => ⟨.ticketCreated, ticketId, none, some (.state state), none, createdAt⟩
  | .breached timer => ⟨.slaBreached, ticketId, none, none, some timer, createdAt⟩

/-- The contact axis of the policies: a Contact reaches only what is its own. -/
def Actor.reaches : Actor → Uuid → Bool
  | .contact id, contactId => contactId = id
  | _, _ => true

def Actor.isContact : Actor → Bool
  | .contact _ => true
  | _ => false

/-- `tenant_isolation ON ticket`, which is both its `USING` and its `WITH CHECK`. -/
def Ticket.visibleTo (r : Ticket) (ctx : TenantContext) : Bool :=
  r.tenantId = ctx.tenantId ∧ ctx.actor.reaches r.contactId

/-- `ticket_linkage_is_whole` and `ticket_slack_route_is_whole`. -/
def Ticket.isWhole (r : Ticket) : Bool :=
  r.spawnedFromTicketId.isNone = r.rootTicketId.isNone ∧ r.slackChannelId.isNone = r.slackThreadTs.isNone

/-- `COALESCE(root_ticket_id, id)`. -/
def Ticket.chain (r : Ticket) (id : Uuid) : Uuid := r.rootTicketId.getD id

def Ticket.isLive (r : Ticket) : Bool := r.state ≠ .closed

/-- The two rows may not both be in `ticket_one_live_per_chain`. -/
def sharesChain (k : Uuid) (r : Ticket) (k' : Uuid) (r' : Ticket) : Bool :=
  r.isLive ∧ r'.isLive ∧ r.tenantId = r'.tenantId ∧ r.chain k = r'.chain k'

/-- The two rows may not both be in `ticket_one_live_per_slack_thread`. -/
def sharesThread (r r' : Ticket) : Bool :=
  r.isLive ∧ r'.isLive ∧ r.tenantId = r'.tenantId ∧ r.slackThreadTs.isSome ∧
    r.slackChannelId = r'.slackChannelId ∧ r.slackThreadTs = r'.slackThreadTs

def conflicts (k : Uuid) (r : Ticket) (k' : Uuid) (r' : Ticket) : Bool := sharesChain k r k' r' || sharesThread r r'

/-- `ticket_enforce_linkage` on an `UPDATE`: ancestry and route are immutable. -/
def enforceLinkageOnUpdate (old new : Ticket) : Except SqlState Unit :=
  if new.spawnedFromTicketId ≠ old.spawnedFromTicketId ∨ new.rootTicketId ≠ old.rootTicketId then .error .TK004
  else if new.slackChannelId ≠ old.slackChannelId ∨ new.slackThreadTs ≠ old.slackThreadTs then .error .TK005
  else .ok ()

/-- `ticket_enforce_linkage` on an `INSERT`: the root and the route of a spawn are its parent's,
whatever the statement says; `parent` is the row the context can see. -/
def enforceLinkageOnInsert (parent : Uuid → Option Ticket) (new : Ticket) : Except SqlState Ticket :=
  match new.spawnedFromTicketId with
  | none => .ok { new with rootTicketId := none }
  | some p =>
    match parent p with
    | none => .error .TK003
    | some r => .ok { new with
        rootTicketId := some (r.rootTicketId.getD p)
        slackChannelId := r.slackChannelId
        slackThreadTs := r.slackThreadTs }

def observeMessage (message : Entry) (r : Ticket) : Ticket :=
  { r with
    lastActivityAt := message.createdAt
    firstResponseAt :=
      match r.firstResponseAt, message.author with
      | none, .user _ => some message.createdAt
      | none, .service _ => some message.createdAt
      | at', _ => at' }

def observeNote (note : Entry) (r : Ticket) : Ticket := { r with lastActivityAt := note.createdAt }

/-- `users` lists the staff, by tenant and id. -/
structure Desk (ι : Type) where
  clock : Int
  users : List (Uuid × Uuid)
  tickets : Table ι Ticket
  messages : Table ι Entry
  notes : Table ι Entry
  audit : Table ι AuditEntry
  contacts : Table ι Contact
  deliveries : Table ι Dispatch
  jobs : Table ι Dispatch

/-- The statements. An `UPDATE` is given by what it makes of a row of its snapshot: `none` if the
row does not match, else the new values as a function of the row's newest version, which is
`none` if the row does not match any more. -/
inductive Stmt where
  | selectTickets (picks : Uuid → Ticket → Bool)
  | selectMessages (picks : Uuid → Entry → Bool)
  | updateTickets (plan : Uuid → Ticket → Option (Ticket → Option Ticket))
  | insertTicket (row : Ticket)
  | insertMessage (ticketId : Uuid) (body : String) (createdAt : Int)
  | insertNote (ticketId : Uuid) (body : String) (createdAt : Int)
  | record (ticketId : Uuid) (entry : Recorded) (createdAt : Int)
  | insertContact
  | upsertContact (slackUserId : String)
  | insertDelivery (messageId : Uuid) (target : String)
  | enqueue (messageId : Uuid) (target : String)

def Stmt.Ans : Stmt → Type
  | .selectTickets _ => List (Uuid × Ticket)
  | .selectMessages _ => List (Uuid × Entry)
  | .updateTickets _ => List (Uuid × Ticket)
  | .insertTicket _ => Uuid × Ticket
  | .insertMessage _ _ _ => Uuid × Entry
  | .insertNote _ _ _ => Uuid × Entry
  | .record _ _ _ => Unit
  | .insertContact => Uuid
  | .upsertContact _ => Uuid
  | .insertDelivery _ _ => Unit
  | .enqueue _ _ => Unit

abbrev deskLanguage : Language := ⟨Stmt, Stmt.Ans, SqlState⟩

/-- The rows an `UPDATE` has still to visit, and those it has written. -/
abbrev Cursor := List (Uuid × (Ticket → Option Ticket)) × List (Uuid × Ticket)

namespace Desk
variable {ι : Type}

def empty : Desk ι := ⟨0, [], .empty, .empty, .empty, .empty, .empty, .empty, .empty⟩

variable [DecidableEq ι] (d : Desk ι) (i : ι) (ctx : TenantContext)

def sees (k : Uuid) : Option Ticket := (d.tickets.visible i k).filter (·.visibleTo ctx)

/-- The foreign key of a row about the Ticket `k`, which is checked with the policy bypassed. -/
def hasTicket (k : Uuid) : Bool := (d.tickets.visible i k).any fun r => r.tenantId = ctx.tenantId

def hasContact (tenantId contactId : Uuid) : Bool :=
  (d.contacts.visible i contactId).any fun c => c.tenantId = tenantId

def hasAssignee (r : Ticket) : Bool := r.assigneeId.all fun id => d.users.contains (r.tenantId, id)

def rows : List (Uuid × Ticket) := (List.range d.tickets.size).filterMap fun k => (d.sees i ctx k).map (k, ·)

/-- `tenant_isolation ON message`: a Contact sees the Messages on its own Tickets. -/
def showsMessage (m : Entry) : Bool :=
  m.tenantId = ctx.tenantId ∧ (ctx.actor.isContact = false ∨
    (d.tickets.visible i m.ticketId).any fun r => r.tenantId = m.tenantId ∧ ctx.actor.reaches r.contactId)

def messageRows : List (Uuid × Entry) :=
  (List.range d.messages.size).filterMap fun k => ((d.messages.visible i k).filter (d.showsMessage i ctx)).map (k, ·)

/-- The new version of Ticket `k` goes through the `BEFORE UPDATE` triggers, in the order of
their names, the policy and the constraints, and is stored with its audit rows. Neither unique
index is looked at: what it indexes is immutable, and no transition enters a row into it. -/
def storeTicket (k : Uuid) (old new : Ticket) : Except SqlState (Desk ι × Ticket) := do
  enforceLinkageOnUpdate old new
  let (r, entries) ← ticketEnforceTransition k ctx.now old new
  if r.visibleTo ctx = false then throw .insufficientPrivilege
  if r.isWhole = false then throw .checkViolation
  if r.assigneeId ≠ old.assigneeId ∧ d.hasAssignee r = false then throw .foreignKeyViolation
  return ({ d with
    tickets := d.tickets.write i [k] (fun _ => true) fun _ => r
    audit := entries.foldl (·.insert i) d.audit }, r)

def picked (plan : Uuid → Ticket → Option (Ticket → Option Ticket)) : List (Uuid × (Ticket → Option Ticket)) :=
  (d.rows i ctx).filterMap fun p => (plan p.1 p.2).map (p.1, ·)

/-- The next row of an `UPDATE`: it waits for the row's lock, tests the newest version again,
and stores what it makes of it. -/
def resumeUpdate {p : Uuid → Ticket → Option (Ticket → Option Ticket)} :
    Cursor → Turn deskLanguage (Desk ι) Cursor (.updateTickets p)
  | ([], written) => .answer d written
  | ((k, set) :: rest, written) =>
    if d.tickets.free i [k] = false then .wait
    else match (d.sees i ctx k).bind fun old => (set old).map (old, ·) with
      | none => .more d (rest, written)
      | some (old, new) =>
        match d.storeTicket i ctx k old new with
        | .error e => .refuse e
        | .ok (d', r) => .more d' (rest, written ++ [(k, r)])

/-- Another transaction holds Ticket `k`, and a version of it is in an index that `row` would enter. -/
def blocks (row : Ticket) (k : Uuid) : Bool :=
  (d.tickets.pending k).any fun p => p.1 ≠ i ∧
    (conflicts d.tickets.size row k p.2 ∨ (d.tickets.committed k).any (conflicts d.tickets.size row k ·))

def collides (row : Ticket) (k : Uuid) : Bool :=
  (d.tickets.visible i k).any (conflicts d.tickets.size row k ·)

def resumeInsertTicket {q : Ticket} (row : Ticket) : Turn deskLanguage (Desk ι) Cursor (.insertTicket q) :=
  if row.state ≠ .opened then .refuse .TK001
  else match enforceLinkageOnInsert (fun p => (d.sees i ctx p).filter (·.tenantId = row.tenantId)) row with
    | .error e => .refuse e
    | .ok r =>
      if r.visibleTo ctx = false then .refuse .insufficientPrivilege
      else if r.isWhole = false then .refuse .checkViolation
      else if (List.range d.tickets.size).any (d.blocks i r) then .wait
      else if (List.range d.tickets.size).any (d.collides i r) then .refuse .uniqueViolation
      else if d.hasContact i r.tenantId r.contactId = false ∨ d.hasAssignee r = false then .refuse .foreignKeyViolation
      else .answer { d with tickets := d.tickets.insert i r } (d.tickets.size, r)

/-- The `AFTER INSERT` trigger of a Message or a Note updates the Ticket; `none` while the row is
locked by another transaction. -/
def observe (k : Uuid) (see : Ticket → Ticket) : Option (Except SqlState (Desk ι)) :=
  if d.tickets.free i [k] = false then none
  else match d.sees i ctx k with
    | none => some (.ok d)
    | some old => some ((d.storeTicket i ctx k old (see old)).map Prod.fst)

/-- The policies of `message` and `audit_log`: a Contact writes about its own Tickets. -/
def mayWriteAbout (k : Uuid) : Bool := !ctx.actor.isContact || (d.sees i ctx k).isSome

def resumeInsertMessage {q : Uuid} {b : String} {t : Int} (message : Entry) :
    Turn deskLanguage (Desk ι) Cursor (.insertMessage q b t) :=
  if d.mayWriteAbout i ctx message.ticketId = false then .refuse .insufficientPrivilege
  else if d.hasTicket i ctx message.ticketId = false then .refuse .foreignKeyViolation
  else match d.observe i ctx message.ticketId (observeMessage message) with
    | none => .wait
    | some (.error e) => .refuse e
    | some (.ok d') => .answer { d' with messages := d'.messages.insert i message } (d'.messages.size, message)

def resumeInsertNote {q : Uuid} {b : String} {t : Int} (note : Entry) :
    Turn deskLanguage (Desk ι) Cursor (.insertNote q b t) :=
  if ctx.actor.isContact then .refuse .insufficientPrivilege
  else if d.hasTicket i ctx note.ticketId = false then .refuse .foreignKeyViolation
  else match d.observe i ctx note.ticketId (observeNote note) with
    | none => .wait
    | some (.error e) => .refuse e
    | some (.ok d') => .answer { d' with notes := d'.notes.insert i note } (d'.notes.size, note)

def resumeRecord {q : Uuid} {b : Recorded} {t : Int} (entry : AuditEntry) :
    Turn deskLanguage (Desk ι) Cursor (.record q b t) :=
  if d.mayWriteAbout i ctx entry.ticketId = false then .refuse .insufficientPrivilege
  else if d.hasTicket i ctx entry.ticketId = false then .refuse .foreignKeyViolation
  else .answer { d with audit := d.audit.insert i entry } ()

/-- `INSERT … ON CONFLICT (tenant_id, slack_user_id) DO NOTHING` with the id of the row. No
Contact is in a position to write another. -/
def resumeUpsertContact {q : String} (slackUserId : String) : Turn deskLanguage (Desk ι) Cursor (.upsertContact q) :=
  let row : Contact := ⟨ctx.tenantId, some slackUserId⟩
  if ctx.actor.isContact then .refuse .insufficientPrivilege
  else match (List.range d.contacts.size).find? fun k => d.contacts.visible i k = some row with
    | some k => .answer d k
    | none =>
      if (List.range d.contacts.size).any fun k => (d.contacts.pending k).any (·.2 = row) then .wait
      else .answer { d with contacts := d.contacts.insert i row } d.contacts.size

def resumeInsertDelivery {q : Uuid} {t : String} (row : Dispatch) :
    Turn deskLanguage (Desk ι) Cursor (.insertDelivery q t) :=
  if ctx.actor.isContact then .refuse .insufficientPrivilege
  else if (d.messages.visible i row.messageId).any (·.tenantId = row.tenantId) = false then .refuse .foreignKeyViolation
  else if (List.range d.deliveries.size).any fun k => (d.deliveries.pending k).any fun p => p.1 ≠ i ∧ p.2 = row then .wait
  else if (List.range d.deliveries.size).any fun k => d.deliveries.visible i k = some row then .refuse .uniqueViolation
  else .answer { d with deliveries := d.deliveries.insert i row } ()

def start : Stmt → Cursor
  | .updateTickets plan => (d.picked i ctx plan, [])
  | _ => ([], [])

/-- The next turn of a statement of `i`. Tenant and author of a new row come from the context. -/
def resume : (q : Stmt) → Cursor → Turn deskLanguage (Desk ι) Cursor q
  | .selectTickets picks, _ => .answer d ((d.rows i ctx).filter fun p => picks p.1 p.2)
  | .selectMessages picks, _ => .answer d ((d.messageRows i ctx).filter fun p => picks p.1 p.2)
  | .updateTickets _, c => d.resumeUpdate i ctx c
  | .insertTicket row, _ => d.resumeInsertTicket i ctx row
  | .insertMessage k body t, _ => d.resumeInsertMessage i ctx ⟨ctx.tenantId, k, body, ctx.actor, t⟩
  | .insertNote k body t, _ => d.resumeInsertNote i ctx ⟨ctx.tenantId, k, body, ctx.actor, t⟩
  | .record k entry t, _ => d.resumeRecord i ctx (entry.entry k t)
  | .insertContact, _ =>
    if ctx.actor.isContact then .refuse .insufficientPrivilege
    else .answer { d with contacts := d.contacts.insert i ⟨ctx.tenantId, none⟩ } d.contacts.size
  | .upsertContact slackUserId, _ => d.resumeUpsertContact i ctx slackUserId
  | .insertDelivery m target, _ => d.resumeInsertDelivery i ctx ⟨ctx.tenantId, m, target⟩
  | .enqueue m target, _ =>
    if ctx.actor.isContact then .refuse .insufficientPrivilege
    else .answer { d with jobs := d.jobs.insert i ⟨ctx.tenantId, m, target⟩ } ()

def commit : Desk ι :=
  { d with
    tickets := d.tickets.commit i
    messages := d.messages.commit i
    notes := d.notes.commit i
    audit := d.audit.commit i
    contacts := d.contacts.commit i
    deliveries := d.deliveries.commit i
    jobs := d.jobs.commit i }

def rollback : Desk ι :=
  { d with
    tickets := d.tickets.rollback i
    messages := d.messages.rollback i
    notes := d.notes.rollback i
    audit := d.audit.rollback i
    contacts := d.contacts.rollback i
    deliveries := d.deliveries.rollback i
    jobs := d.jobs.rollback i }

end Desk

/-- What happens outside the transactions: the clock goes on, and a User joins a tenant. -/
inductive Event where
  | tick (now : Int)
  | join (tenantId userId : Uuid)
  deriving DecidableEq, Repr

def Desk.world {ι : Type} (d : Desk ι) : Event → Option (Desk ι)
  | .tick now => if d.clock ≤ now then some { d with clock := now } else none
  | .join tenantId userId => some { d with users := (tenantId, userId) :: d.users }

def deskEngine (ι : Type) [DecidableEq ι] : Engine deskLanguage ι TenantContext (Desk ι) where
  Cursor := Cursor
  start := Desk.start
  resume := Desk.resume
  commit := Desk.commit
  rollback := Desk.rollback
  aborted := .inFailedTransaction

/-- Any transaction at all: whom it is armed as, and what it runs. -/
structure Work (ε α : Type) where
  tenantId : Uuid
  actor : Actor
  script : Script deskLanguage ε α

/-- `now()` is the instant a transaction begins. -/
def workService (ι ε α : Type) : Service deskLanguage ε α TenantContext (Desk ι) (Work ε α) where
  context d work := ⟨work.tenantId, work.actor, d.clock⟩
  script := Work.script

end Nivara.Tickets
