import Nivara.Tickets.TicketService

/-! Missed deadlines, from `sla/sla-breach.sweep.ts` and `sla/latched-timers.ts`: one transaction
of the sweep for each tenant latches the timers that have run out, records them and returns what
is to be announced after its commit. -/
namespace Nivara.Sla
open Transactions Tickets Tickets.Tx

structure SlaTarget where
  firstResponseMs : Int
  resolutionMs : Int
  deriving DecidableEq, Repr

/-- The targets of a tenant, by priority, as the statement reads them. -/
abbrev Targets := TicketPriority → Option SlaTarget

def firstResponseDue (target : SlaTarget) (now : Int) (r : Ticket) : Bool :=
  r.firstResponseAt = none ∧ r.firstResponseBreachedAt = none ∧
    target.firstResponseMs < ticketSlaWallElapsedMs r.createdAt now

def resolutionDue (target : SlaTarget) (now : Int) (r : Ticket) : Bool :=
  r.resolutionBreachedAt = none ∧ r.state ≠ .resolved ∧ r.state ≠ .closed ∧
    target.resolutionMs < ticketSlaActiveElapsedMs r.createdAt r.slaPausedMs r.slaPauseStartedAt now

/-- The `SET` of the statement. -/
def latch (now : Int) (firstResponse resolution : Bool) (r : Ticket) : Ticket :=
  { r with
    firstResponseBreachedAt := if firstResponse then some now else r.firstResponseBreachedAt
    resolutionBreachedAt := if resolution then some now else r.resolutionBreachedAt }

/-- What is due is read in the snapshot of the statement, the columns that are not are kept from
the newest version of the row. -/
def due (targets : Targets) (now : Int) (_ : Uuid) (r : Ticket) : Option (Ticket → Option Ticket) := do
  let target ← targets r.priority
  let firstResponse := firstResponseDue target now r
  let resolution := resolutionDue target now r
  if firstResponse || resolution then some fun newest => some (latch now firstResponse resolution newest) else none

/-- Which of the two timers a row that the statement returns has been latched for at `at'`. -/
def latchedTimers (row : Ticket) (at' : Int) : List SlaTimer :=
  (if row.firstResponseBreachedAt = some at' then [.firstResponse] else []) ++
    if row.resolutionBreachedAt = some at' then [.resolution] else []

structure Breach where
  tenantId : Uuid
  ticketId : Uuid
  timer : SlaTimer
  breachedAt : Int
  deriving DecidableEq, Repr

def recordBreaches (at' : Int) : List Breach → Tx Unit
  | [] => pure ()
  | b :: rest => do
    let _ ← run (.record b.ticketId (.breached b.timer) at') .sql
    recordBreaches at' rest

/-- `SlaBreachSweep.latchTenant`; `at'` is the instant that Prisma stamps the audit rows with. -/
def latchTenant (tenantId : Uuid) (targets : Targets) (now at' : Int) : Tx (List Breach) := do
  let rows ← run (.updateTickets (due targets now)) .sql
  let breaches := rows.flatMap fun row => (latchedTimers row.2 now).map fun timer => ⟨tenantId, row.1, timer, now⟩
  recordBreaches at' breaches
  pure breaches

end Nivara.Sla
