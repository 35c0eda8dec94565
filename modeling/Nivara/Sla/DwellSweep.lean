import Nivara.Tickets.TicketService

/-! Abandoned work settling itself, from `sla/dwell.sweep.ts`: one transaction for each tenant takes
the two timers one after the other. -/
namespace Nivara.Sla
open Transactions Tickets Tickets.Tx

def schedulerPermissions : List Permission := [.ticketTransition, .ticketClose]

/-- A state that settles into another after seven days of silence. -/
structure DwellTimer where
  from' : TicketState
  to' : TicketState
  deriving DecidableEq, Repr

def timers : List DwellTimer := [⟨.pending, .resolved⟩, ⟨.resolved, .closed⟩]

def ticketDwellWindow : Int := 7 * 24 * 60 * 60 * 1000

def stateText : TicketState → String
  | .opened => "open"
  | .pending => "pending"
  | .onHold => "on_hold"
  | .resolved => "resolved"
  | .closed => "closed"

/-- The `WHERE` of the statement. -/
def dwells (timer : DwellTimer) (now : Int) (r : Ticket) : Bool :=
  r.state = timer.from' ∧ r.lastActivityAt < now - ticketDwellWindow

/-- `DwellSweep.settle`. The statement leaves `updated_at` alone. -/
def settle (timer : DwellTimer) (now : Int) : Tx (List (Uuid × Ticket)) :=
  if canTransition timer.from' timer.to' schedulerPermissions = false then
    .fail (.error ("dwell sweep: the scheduler may not move a Ticket to " ++ stateText timer.to'))
  else do
    let rows ← updateMany (fun _ r => dwells timer now r) (fun r => { r with state := timer.to' }) .sql
    if rows.isEmpty then pure [] else findMany fun k _ => k ∈ rows.map Prod.fst

def settleAll (now : Int) : List DwellTimer → Tx (List (Uuid × Ticket))
  | [] => pure []
  | timer :: rest => do
    let moved ← settle timer now
    let later ← settleAll now rest
    pure (moved ++ later)

def settleTenant (now : Int) : Tx (List (Uuid × Ticket)) := settleAll now timers

end Nivara.Sla
