import Nivara.Basic

/-! The Ticket row and the `BEFORE UPDATE` trigger that guards it, from the migrations
`ticket_state_machine` and `sla_and_dwell`: the transition table, the closed lock, the
set-once latches, the pause accumulator and the audit rows. -/
namespace Nivara.Tickets

/-- `ticket_state`; the state `open` is spelled `opened` here. -/
inductive TicketState where
  | opened | pending | onHold | resolved | closed
  deriving DecidableEq, Repr

inductive TicketPriority where
  | low | normal | high | urgent
  deriving DecidableEq, Repr

inductive TicketSource where
  | portal | widget | slack
  deriving DecidableEq, Repr

/-- A row of `ticket`, less its primary key. Instants and durations are in milliseconds. -/
structure Ticket where
  tenantId : Uuid
  subject : String
  contactId : Uuid
  assigneeId : Option Uuid
  state : TicketState
  priority : TicketPriority
  source : TicketSource
  spawnedFromTicketId : Option Uuid
  rootTicketId : Option Uuid
  slackChannelId : Option String
  slackThreadTs : Option String
  firstResponseAt : Option Int
  slaPausedMs : Int
  slaPauseStartedAt : Option Int
  firstResponseBreachedAt : Option Int
  resolutionBreachedAt : Option Int
  lastActivityAt : Int
  createdAt : Int
  updatedAt : Int
  deriving DecidableEq, Repr

/-- A new row with the columns' defaults: `open`, `normal`, unassigned, its clock at zero. -/
def Ticket.fresh (tenantId : Uuid) (subject : String) (contactId : Uuid) (source : TicketSource)
    (spawnedFromTicketId : Option Uuid) (slackRoute : Option (String × String)) (createdAt : Int) : Ticket where
  tenantId := tenantId
  subject := subject
  contactId := contactId
  assigneeId := none
  state := .opened
  priority := .normal
  source := source
  spawnedFromTicketId := spawnedFromTicketId
  rootTicketId := none
  slackChannelId := slackRoute.map Prod.fst
  slackThreadTs := slackRoute.map Prod.snd
  firstResponseAt := none
  slaPausedMs := 0
  slaPauseStartedAt := none
  firstResponseBreachedAt := none
  resolutionBreachedAt := none
  lastActivityAt := createdAt
  createdAt := createdAt
  updatedAt := createdAt

def ticketTransitionIsLegal : TicketState → TicketState → Bool
  | .opened, .pending => true
  | .opened, .onHold => true
  | .pending, .opened => true
  | .pending, .onHold => true
  | .onHold, .opened => true
  | .onHold, .pending => true
  | .opened, .resolved => true
  | .pending, .resolved => true
  | .onHold, .resolved => true
  | .resolved, .opened => true
  | .resolved, .closed => true
  | _, _ => false

def TicketState.stopsClock : TicketState → Bool
  | .pending => true
  | .resolved => true
  | .closed => true
  | _ => false

def ticketSlaWallElapsedMs (createdAt at' : Int) : Int := max 0 (at' - createdAt)

def ticketSlaActiveElapsedMs (createdAt pausedMs : Int) (pauseStartedAt : Option Int) (at' : Int) : Int :=
  max 0 (at' - createdAt - pausedMs - pauseStartedAt.elim 0 fun started => at' - started)

inductive AuditAction where
  | ticketCreated | ticketTransitioned | ticketAssigned | ticketPriorityChanged | slaBreached
  deriving DecidableEq, Repr

inductive SlaTimer where
  | firstResponse | resolution
  deriving DecidableEq, Repr

/-- A `::text` of one of the audited columns. The casts are injective, and the action of the
row says which of them a value is. -/
inductive AuditValue where
  | state (s : TicketState)
  | priority (p : TicketPriority)
  | user (id : Uuid)
  deriving DecidableEq, Repr

/-- A row of `audit_log` about a Ticket. `kind` is the one key of its `metadata`. -/
structure AuditEntry where
  action : AuditAction
  ticketId : Uuid
  fromValue : Option AuditValue
  toValue : Option AuditValue
  kind : Option SlaTimer
  createdAt : Int
  deriving DecidableEq, Repr

/-- Why a statement fails: the triggers' own codes, or a constraint of the table. -/
inductive SqlState where
  | TK001 | TK002 | TK003 | TK004 | TK005
  | uniqueViolation | foreignKeyViolation | checkViolation | insufficientPrivilege | inFailedTransaction
  deriving DecidableEq, Repr

/-- A set-once column keeps the value it has. -/
def setOnce (old new : Option Int) : Option Int := old.or new

/-- The pause accumulator on a transition at `now`: the open interval is closed and added, and
a new one is opened if the destination stops the clock. -/
def pauseFor (now : Int) (old new : Ticket) : Ticket :=
  let closed := match old.slaPauseStartedAt with
    | none => new
    | some started => { new with
        slaPausedMs := old.slaPausedMs + max 0 (now - started)
        slaPauseStartedAt := none }
  if new.state.stopsClock then { closed with slaPauseStartedAt := some now } else closed

def auditOf (action : AuditAction) (ticketId : Uuid) (now : Int) (fromValue toValue : Option AuditValue) :
    List AuditEntry :=
  if fromValue = toValue then [] else [⟨action, ticketId, fromValue, toValue, none, now⟩]

def auditTrail (ticketId : Uuid) (now : Int) (old new : Ticket) : List AuditEntry :=
  auditOf .ticketTransitioned ticketId now (some (.state old.state)) (some (.state new.state)) ++
  auditOf .ticketAssigned ticketId now (old.assigneeId.map .user) (new.assigneeId.map .user) ++
  auditOf .ticketPriorityChanged ticketId now (some (.priority old.priority)) (some (.priority new.priority))

/-- The latches of `NEW`, coerced back to the values of `OLD` that are set. -/
def coerceLatches (old new : Ticket) : Ticket :=
  { new with
    firstResponseAt := setOnce old.firstResponseAt new.firstResponseAt
    firstResponseBreachedAt := setOnce old.firstResponseBreachedAt new.firstResponseBreachedAt
    resolutionBreachedAt := setOnce old.resolutionBreachedAt new.resolutionBreachedAt }

/-- A state, assignee or priority edit, which is what counts as activity here. -/
def isEdit (old new : Ticket) : Bool :=
  new.state ≠ old.state ∨ new.assigneeId ≠ old.assigneeId ∨ new.priority ≠ old.priority

/-- `ticket_enforce_transition`, on the row as it was and as the statement would have it: the
row to store and the audit rows, or a refusal. -/
def ticketEnforceTransition (ticketId : Uuid) (now : Int) (old new : Ticket) :
    Except SqlState (Ticket × List AuditEntry) :=
  let new := coerceLatches old new
  if old.state = .closed ∧ (new.priority ≠ old.priority ∨ new.assigneeId ≠ old.assigneeId) then .error .TK002
  else if new.state ≠ old.state ∧ ticketTransitionIsLegal old.state new.state = false then .error .TK001
  else
    let paused := if new.state = old.state then new else pauseFor now old new
    let touched := if isEdit old new then { paused with lastActivityAt := now } else paused
    .ok (touched, auditTrail ticketId now old new)

/-- What an accepted update does to the row, guards included. -/
structure Enforced (ticketId : Uuid) (now : Int) (old new r : Ticket) (entries : List AuditEntry) : Prop where
  state : r.state = new.state
  assignee : r.assigneeId = new.assigneeId
  priority : r.priority = new.priority
  audit : entries = auditTrail ticketId now old r
  legal : r.state = old.state ∨ ticketTransitionIsLegal old.state r.state = true
  locked : old.state = .closed → r.priority = old.priority ∧ r.assigneeId = old.assigneeId
  firstResponse : r.firstResponseAt = setOnce old.firstResponseAt new.firstResponseAt
  firstResponseBreached : r.firstResponseBreachedAt = setOnce old.firstResponseBreachedAt new.firstResponseBreachedAt
  resolutionBreached : r.resolutionBreachedAt = setOnce old.resolutionBreachedAt new.resolutionBreachedAt
  paused : r.slaPausedMs =
    if new.state = old.state then new.slaPausedMs
    else old.slaPauseStartedAt.elim new.slaPausedMs fun started => old.slaPausedMs + max 0 (now - started)
  pauseStarted : r.slaPauseStartedAt =
    if new.state = old.state then new.slaPauseStartedAt
    else if new.state.stopsClock then some now
    else if old.slaPauseStartedAt.isSome then none else new.slaPauseStartedAt
  lastActivity : r.lastActivityAt = if isEdit old new then now else new.lastActivityAt
  /-- The trigger leaves the other columns as the statement has them. -/
  rest : r = { new with
    firstResponseAt := r.firstResponseAt
    firstResponseBreachedAt := r.firstResponseBreachedAt
    resolutionBreachedAt := r.resolutionBreachedAt
    slaPausedMs := r.slaPausedMs
    slaPauseStartedAt := r.slaPauseStartedAt
    lastActivityAt := r.lastActivityAt }

/-- The two steps of the accumulator as one assignment to its two columns. -/
private theorem pauseFor_eq (now : Int) (old new : Ticket) : pauseFor now old new =
    { new with
      slaPausedMs := old.slaPauseStartedAt.elim new.slaPausedMs fun started => old.slaPausedMs + max 0 (now - started)
      slaPauseStartedAt :=
        if new.state.stopsClock then some now
        else if old.slaPauseStartedAt.isSome then none else new.slaPauseStartedAt } := by
  unfold pauseFor
  cases old.slaPauseStartedAt <;> cases new.state.stopsClock <;> rfl

private theorem stored_eq (now : Int) (old new : Ticket) (edit : Bool) :
    (let paused := if new.state = old.state then new else pauseFor now old new
      if edit then { paused with lastActivityAt := now } else paused) =
    { new with
      slaPausedMs :=
        if new.state = old.state then new.slaPausedMs
        else old.slaPauseStartedAt.elim new.slaPausedMs fun started => old.slaPausedMs + max 0 (now - started)
      slaPauseStartedAt :=
        if new.state = old.state then new.slaPauseStartedAt
        else if new.state.stopsClock then some now
        else if old.slaPauseStartedAt.isSome then none else new.slaPauseStartedAt
      lastActivityAt := if edit then now else new.lastActivityAt } := by
  by_cases hs : new.state = old.state
  · cases edit <;> simp only [if_pos hs, Bool.false_eq_true, if_false, if_true]
  · cases edit <;> simp only [if_neg hs, pauseFor_eq, Bool.false_eq_true, if_false, if_true]

theorem enforced_of_ok {ticketId : Uuid} {now : Int} {old new r : Ticket} {entries : List AuditEntry}
    (h : ticketEnforceTransition ticketId now old new = .ok (r, entries)) :
    Enforced ticketId now old new r entries := by
  simp only [ticketEnforceTransition] at h
  split at h
  · cases h
  · rename_i hlock
    split at h
    · cases h
    · rename_i hlegal
      rw [stored_eq] at h
      cases h
      refine ⟨rfl,rfl,rfl,rfl,?_,?_,rfl,rfl,rfl,rfl,rfl,rfl,rfl⟩
      · by_cases hs : new.state = old.state
        · exact .inl hs
        · right
          simpa [hs, coerceLatches] using hlegal
      · intro hclosed
        simpa [hclosed, coerceLatches, and_comm] using hlock

end Nivara.Tickets
