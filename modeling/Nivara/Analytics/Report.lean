import Mathlib.Data.Rat.Floor
import Nivara.Collections.Grouping
import Nivara.Text.Calendar
import Nivara.Tickets.Desk

/-! The report of `AnalyticsService`: two aggregates over the Tickets created in a window, one of the
whole cohort and one by groups. Each is a statement of its own, with a snapshot of its own. -/
namespace Nivara.Analytics
open Transactions Tickets Text

inductive GroupBy where
  | priority | source | assignee | day
  deriving DecidableEq, Repr

structure AnalyticsPlan where
  from' : Int
  to' : Int
  groupBy : Option GroupBy

structure CohortRow where
  priority : TicketPriority
  source : TicketSource
  assigneeId : Option Uuid
  createdAt : Int
  resolved : Bool
  deflected : Bool
  frBreached : Bool
  resBreached : Bool
  frMs : Option Int
  resMs : Option Int
  deriving DecidableEq, Repr

/-- A row of an aggregate; its percentiles are exact here. -/
structure AggregateRow where
  groupKey : Option String
  cohortSize : Nat
  deflected : Nat
  resolved : Nat
  firstResponseBreached : Nat
  resolutionBreached : Nat
  firstResponseP50 : Option ℚ
  firstResponseP90 : Option ℚ
  resolutionP50 : Option ℚ
  resolutionP90 : Option ℚ

def isTerminal (s : TicketState) : Bool := s = .resolved ∨ s = .closed

def byUser : Actor → Bool
  | .user _ => true
  | _ => false

section Cohort
variable {ι : Type} (d : Desk ι) (ctx : TenantContext)

/-- A User has written on the Ticket. The report's transaction writes nothing, so what it sees is
what is committed; a Contact sees no Notes. -/
def touched (k : Uuid) : Bool :=
  ((List.range d.messages.size).any fun n => (d.messages.committed n).any fun m =>
    m.tenantId = ctx.tenantId ∧ m.ticketId = k ∧ byUser m.author) ||
  ((List.range d.notes.size).any fun n => (d.notes.committed n).any fun m =>
    m.tenantId = ctx.tenantId ∧ ctx.actor.isContact = false ∧ m.ticketId = k ∧ byUser m.author)

def cohortRow (plan : AnalyticsPlan) (k : Uuid) : Option CohortRow :=
  ((d.tickets.committed k).filter fun t => t.visibleTo ctx ∧ plan.from' ≤ t.createdAt ∧ t.createdAt < plan.to').map fun t =>
    { priority := t.priority
      source := t.source
      assigneeId := t.assigneeId
      createdAt := t.createdAt
      resolved := isTerminal t.state
      deflected := isTerminal t.state && !touched d ctx k
      frBreached := t.firstResponseBreachedAt.isSome
      resBreached := t.resolutionBreachedAt.isSome
      frMs := t.firstResponseAt.map (ticketSlaWallElapsedMs t.createdAt)
      resMs :=
        if isTerminal t.state then
          t.slaPauseStartedAt.map (ticketSlaActiveElapsedMs t.createdAt t.slaPausedMs t.slaPauseStartedAt)
        else none }

def cohort (plan : AnalyticsPlan) : List CohortRow := (List.range d.tickets.size).filterMap (cohortRow d ctx plan)

end Cohort

/-- `percentile_cont(p) WITHIN GROUP (ORDER BY …)`: the row at the fraction `p` of the way, or the
point between the two next to it. -/
def percentileCont (p : ℚ) (values : List (Option Int)) : Option ℚ :=
  let sorted := (values.filterMap id).mergeSort
  let row := p * (sorted.length - 1)
  sorted[⌊row⌋.toNat]?.bind fun lo => sorted[⌈row⌉.toNat]?.map fun hi => lo + (row - ⌊row⌋) * (hi - lo)

def aggregateOf (groupKey : Option String) (rows : List CohortRow) : AggregateRow where
  groupKey := groupKey
  cohortSize := rows.length
  deflected := rows.countP (·.deflected)
  resolved := rows.countP (·.resolved)
  firstResponseBreached := rows.countP (·.frBreached)
  resolutionBreached := rows.countP (·.resBreached)
  firstResponseP50 := percentileCont (1/2) (rows.map (·.frMs))
  firstResponseP90 := percentileCont (9/10) (rows.map (·.frMs))
  resolutionP50 := percentileCont (1/2) (rows.map (·.resMs))
  resolutionP90 := percentileCont (9/10) (rows.map (·.resMs))

/-- Nobody's work is in a Ticket that is deflected or has no assignee. -/
def agentTouched (r : CohortRow) : Bool := r.assigneeId.isSome && !r.deflected

def priorityText : TicketPriority → String
  | .low => "low"
  | .normal => "normal"
  | .high => "high"
  | .urgent => "urgent"

def sourceText : TicketSource → String
  | .portal => "portal"
  | .widget => "widget"
  | .slack => "slack"

def zeroPadded (w n : Nat) : String := String.ofList (List.replicate (w - (toString n).length) '0') ++ toString n

/-- `to_char(date, 'YYYY-MM-DD')`; the years before the first are counted backwards from it. -/
def dayText (createdAt : Int) : String :=
  let c := civilFromDays (createdAt / msPerDay)
  zeroPadded 4 (if c.year ≤ 0 then 1 - c.year else c.year).toNat ++ "-" ++ zeroPadded 2 c.month.toNat ++ "-" ++
    zeroPadded 2 c.day.toNat

/-- What the database makes of text: how an id is written, and the order of its collation. -/
structure Locale where
  uuidText : Uuid → String
  collate : String → String → Bool

variable (L : Locale)

def groupExpr (r : CohortRow) : GroupBy → Option String
  | .priority => some (priorityText r.priority)
  | .source => some (sourceText r.source)
  | .assignee => r.assigneeId.map L.uuidText
  | .day => some (dayText r.createdAt)

def keyOrder : Option String → Option String → Bool
  | _, none => true
  | none, some _ => false
  | some a, some b => L.collate a b

/-- Only the assignee cut narrows the cohort. -/
def cut : GroupBy → List CohortRow → List CohortRow
  | .assignee, rows => rows.filter agentTouched
  | _, rows => rows

def aggregate (rows : List CohortRow) : Option GroupBy → List AggregateRow
  | none => [aggregateOf none rows]
  | some g =>
    (Collections.groupBy (groupExpr L · g) (keyOrder L) (cut g rows)).map fun group => aggregateOf group.1 group.2

structure Rate where
  count : Nat
  rate : Option ℚ

structure Duration where
  p50 : ℚ
  p90 : ℚ

structure Metrics where
  cohortSize : Nat
  deflection : Rate
  resolution : Rate
  firstResponseBreach : Rate
  resolutionBreach : Rate
  firstResponseMs : Option Duration
  resolutionMs : Option Duration

def rate (count size : Nat) : Rate := ⟨count, if size = 0 then none else some (count / size)⟩

def duration (p50 p90 : Option ℚ) : Option Duration := p50.bind fun p50 => p90.map fun p90 => ⟨p50, p90⟩

def toMetrics (row : AggregateRow) : Metrics where
  cohortSize := row.cohortSize
  deflection := rate row.deflected row.cohortSize
  resolution := rate row.resolved row.cohortSize
  firstResponseBreach := rate row.firstResponseBreached row.cohortSize
  resolutionBreach := rate row.resolutionBreached row.cohortSize
  firstResponseMs := duration row.firstResponseP50 row.firstResponseP90
  resolutionMs := duration row.resolutionP50 row.resolutionP90

def emptyRow : AggregateRow := ⟨none, 0, 0, 0, 0, 0, none, none, none, none⟩

structure AnalyticsReport where
  from' : Str
  to' : Str
  groupBy : Option GroupBy
  overall : Metrics
  groups : Option (List (String × Metrics))

def report (plan : AnalyticsPlan) (overall : List AggregateRow) (groups : Option (List AggregateRow)) : AnalyticsReport where
  from' := toISOString plan.from'
  to' := toISOString plan.to'
  groupBy := plan.groupBy
  overall := toMetrics (overall.head?.getD emptyRow)
  groups := groups.map fun rows => rows.map fun row => (row.groupKey.getD "", toMetrics row)

/-- How far a report is, with the database as its statements have seen it. -/
inductive Reading (ι : Type) where
  | begun
  | halfway (first : Desk ι) (overall : List AggregateRow)
  | answered (first second : Desk ι) (report : AnalyticsReport)

structure Office (ε α ι : Type) where
  server : Server deskLanguage ε α ι TenantContext (Desk ι) Cursor (Work ε α)
  reading : Reading ι

inductive OfficeMove (ε α ι : Type) where
  | desk (m : Move ι (Work ε α) Event)
  | next

variable {ε α ι : Type} [DecidableEq ι]

def Office.initial : Office ε α ι := ⟨Server.initial Desk.empty, .begun⟩

/-- Under READ COMMITTED each statement of the report sees what is committed when it starts. -/
def Office.step (ctx : TenantContext) (plan : AnalyticsPlan) (w : Office ε α ι) : OfficeMove ε α ι → Option (Office ε α ι)
  | .desk m => (w.server.step (deskEngine ι) (workService ι ε α) Desk.world m).map fun server => { w with server := server }
  | .next =>
    let d := w.server.db
    match w.reading with
    | .begun => some { w with reading := .halfway d (aggregate L (cohort d ctx plan) none) }
    | .halfway first overall => some { w with
        reading := .answered first d
          (report plan overall (plan.groupBy.map fun g => aggregate L (cohort d ctx plan) (some g))) }
    | .answered _ _ _ => none

end Nivara.Analytics
