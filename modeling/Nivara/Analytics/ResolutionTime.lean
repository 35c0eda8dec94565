import Nivara.Analytics.Report
import Nivara.Sla.Chronicle

/-! The resolution time of a report. It is read where the pause began last, which is not where the Ticket was resolved
once it has been closed; the accumulator has taken in what lies between. -/
namespace Nivara.Analytics
open Transactions Tickets

def lastResolvedAt (log : List (Int × TicketState)) : Option Int :=
  (log.filter fun e => e.2 = .resolved).getLast?.map Prod.fst

/-- What may come after, short of a reopening: updates that the trigger accepts, none of which assigns the columns of the
clock, at instants that never decrease. -/
inductive Rests (ticketId : Uuid) (last : Int) (r : Ticket) : Int → Ticket → Prop
  | refl : Rests ticketId last r last r
  | update {before now : Int} {old new r' : Ticket} {entries : List AuditEntry} (rests : Rests ticketId last r before old)
      (later : before ≤ now) (paused : new.slaPausedMs = old.slaPausedMs)
      (pauseStarted : new.slaPauseStartedAt = old.slaPauseStartedAt) (created : new.createdAt = old.createdAt)
      (accepted : ticketEnforceTransition ticketId now old new = .ok (r', entries)) (shut : r'.state ≠ .opened) :
      Rests ticketId last r now r'

/-- Every report that may see the Ticket and was asked for the time of its creation has it in its cohort, and whatever row a
report has of it, of whatever window and whenever it is run, has the figure. -/
structure Reports (ticketId : Uuid) (r : Ticket) (figure : Int) : Prop where
  counted : ∀ (ι : Type) (d : Desk ι) (ctx : TenantContext) (plan : AnalyticsPlan), d.tickets.committed ticketId = some r →
    r.visibleTo ctx = true → plan.from' ≤ r.createdAt → r.createdAt < plan.to' →
    ∃ row ∈ cohort d ctx plan, cohortRow d ctx plan ticketId = some row ∧ row.resMs = some figure
  exact' : ∀ (ι : Type) (d : Desk ι) (ctx : TenantContext) (plan : AnalyticsPlan) (row : CohortRow),
    d.tickets.committed ticketId = some r → cohortRow d ctx plan ticketId = some row → row.resMs = some figure

variable {ticketId : Uuid} {log : List (Int × TicketState)} {last last' now : Int} {old new r r' : Ticket} {entries : List AuditEntry}

private theorem resolved_of_closed (h : ticketEnforceTransition ticketId now old new = .ok (r, entries)) (hmoved : r.state ≠ old.state)
    (hclosed : r.state = .closed) : old.state = .resolved := by
  have hlegal := (enforced_of_ok h).legal.resolve_left hmoved
  rw [hclosed] at hlegal
  cases ho : old.state with
  | resolved => rfl
  | _ =>
    rw [ho] at hlegal
    cases hlegal

/-- A Ticket that is resolved or closed, and is not reopened, stays so. -/
private theorem terminal_of_shut (h : ticketEnforceTransition ticketId now old new = .ok (r, entries))
    (hold : isTerminal old.state = true) (hshut : r.state ≠ .opened) : r.state = old.state ∨ r.state = .closed := by
  rcases (enforced_of_ok h).legal with hsame | hlegal
  · exact .inl hsame
  · rcases of_decide_eq_true hold with ho | ho
    · rw [ho] at hlegal
      cases hr : r.state with
      | opened => exact absurd hr hshut
      | closed => exact .inr rfl
      | _ =>
        rw [hr] at hlegal
        cases hlegal
    · rw [ho] at hlegal
      cases hlegal

private theorem stopsClock_of_isTerminal {s : TicketState} (h : isTerminal s = true) : s.stopsClock = true := by
  cases s <;> first | rfl | cases h

private theorem lastResolvedAt_resolved : lastResolvedAt (log ++ [(now, .resolved)]) = some now := by
  simp [lastResolvedAt]

private theorem lastResolvedAt_other {s : TicketState} (h : s ≠ .resolved) : lastResolvedAt (log ++ [(now, s)]) = lastResolvedAt log := by
  simp [lastResolvedAt, h]

/-- From the last resolution on, a Ticket that is resolved or closed has been nothing else. -/
private theorem terminal_since_resolved (h : History ticketId log last r) (hs : isTerminal r.state = true) :
    ∃ at', lastResolvedAt log = some at' ∧ ∀ t, at' ≤ t → isTerminal (stateAt log t) = true := by
  induction h with
  | born hopened _ _ =>
    rw [hopened] at hs
    cases hs
  | @update log last now old new r entries _ _ _ _ _ hacc ih =>
    split
    · rename_i hsame
      exact ih (hsame ▸ hs)
    · rename_i hmoved
      rcases of_decide_eq_true hs with hresolved | hclosed
      · rw [hresolved]
        exact ⟨now,lastResolvedAt_resolved,fun t ht => by rw [stateAt_append_of_le ht]; rfl⟩
      · have hold := resolved_of_closed hacc hmoved hclosed
        obtain ⟨at',hat,hsince⟩ := ih (by rw [hold]; rfl)
        rw [hclosed]
        refine ⟨at',(lastResolvedAt_other (by decide)).trans hat,fun t ht => ?_⟩
        by_cases hnow : now ≤ t
        · rw [stateAt_append_of_le hnow]
          rfl
        · rw [stateAt_append_of_lt (Int.not_le.mp hnow)]
          exact hsince t ht

private theorem Rests.le (hr : Rests ticketId last r last' r') : last ≤ last' := by
  induction hr with
  | refl => exact Int.le_refl _
  | update _ hl _ _ _ _ _ ih => exact Int.le_trans ih hl

private theorem mem_of_lastResolvedAt {at' : Int} (h : lastResolvedAt log = some at') : (at', .resolved) ∈ log := by
  obtain ⟨⟨t,s⟩,he,rfl⟩ := Option.map_eq_some_iff.mp h
  obtain ⟨hm,hs⟩ := List.mem_filter.mp (List.mem_of_getLast? he)
  cases of_decide_eq_true hs
  exact hm

private theorem row_of_visible {ι : Type} {d : Desk ι} {ctx : TenantContext} {plan : AnalyticsPlan}
    (hr : d.tickets.committed ticketId = some r) (hv : r.visibleTo ctx = true) (hfrom : plan.from' ≤ r.createdAt)
    (hto : r.createdAt < plan.to') : ∃ row ∈ cohort d ctx plan, cohortRow d ctx plan ticketId = some row := by
  have hrow : (cohortRow d ctx plan ticketId).isSome = true := by simp [cohortRow, hr, hv, hfrom, hto]
  obtain ⟨row,hrow⟩ := Option.isSome_iff_exists.mp hrow
  exact ⟨row,List.mem_filterMap.mpr ⟨ticketId,List.mem_range.mpr (Table.lt_size_of_committed _ _ hr),hrow⟩,hrow⟩

/-- The report reads the time that the Ticket was running up to its last resolution. -/
private theorem resMs_of_history {at' : Int} (h : History ticketId log last r) (hs : isTerminal r.state = true)
    (hat : lastResolvedAt log = some at') {ι : Type} {d : Desk ι} {ctx : TenantContext} {plan : AnalyticsPlan} {row : CohortRow}
    (hr : d.tickets.committed ticketId = some r) (hrow : cohortRow d ctx plan ticketId = some row) :
    row.resMs = some (runningMs r.createdAt log at') := by
  obtain ⟨at'',hat',hsince⟩ := terminal_since_resolved h hs
  cases hat.symm.trans hat'
  obtain ⟨started,hstarted⟩ := Option.isSome_iff_exists.mp (h.paused.trans (stopsClock_of_isTerminal hs))
  have hlast : at' ≤ last := h.bounds.2 _ (mem_of_lastResolvedAt hat)
  obtain ⟨t,ht,rfl⟩ := Option.map_eq_some_iff.mp hrow
  cases hr.symm.trans (Option.filter_eq_some_iff.mp ht).1
  have hfigure : r.activeElapsedMs started = runningMs r.createdAt log at' := by
    calc
      r.activeElapsedMs started = r.activeElapsedMs last := Ticket.activeElapsedMs_stopped hstarted _ _
      _ = runningMs r.createdAt log last := h.elapsed h.bounds.2
      _ = runningMs r.createdAt log at' := runningMs_stopped hlast fun t ht => stopsClock_of_isTerminal (hsince t ht)
  simp only [hs, if_true, hstarted, Option.map_some, ← hfigure]
  rw [Ticket.activeElapsedMs, hstarted]

private theorem reports_of_history {at' : Int} (h : History ticketId log last r) (hs : isTerminal r.state = true)
    (hat : lastResolvedAt log = some at') : Reports ticketId r (runningMs r.createdAt log at') where
  counted _ _ _ _ hr hv hfrom hto := by
    obtain ⟨row,hin,hrow⟩ := row_of_visible hr hv hfrom hto
    exact ⟨row,hin,hrow,resMs_of_history h hs hat hr hrow⟩
  exact' _ _ _ _ _ hr hrow := resMs_of_history h hs hat hr hrow

/-- What comes after a resolution, short of a reopening, adds nothing but the closing to the history. -/
private theorem Rests.history (hr : Rests ticketId last r last' r') (h : History ticketId log last r)
    (hs : isTerminal r.state = true) : ∃ log', History ticketId log' last' r' ∧ isTerminal r'.state = true ∧
      r'.createdAt = r.createdAt ∧ lastResolvedAt log' = lastResolvedAt log ∧
      ∀ at' ≤ last, runningMs r.createdAt log' at' = runningMs r.createdAt log at' := by
  induction hr with
  | refl => exact ⟨log,h,hs,rfl,rfl,fun _ _ => rfl⟩
  | @update before now old new r' entries hr hl hp hn hc hacc hshut ih =>
    obtain ⟨log',hold,hterminal,hcreated,hresolved,hrunning⟩ := ih
    have hnext := History.update hold hl hp hn hc hacc
    have hcreated' : r'.createdAt = r.createdAt := ((congrArg Ticket.createdAt (enforced_of_ok hacc).rest).trans hc).trans hcreated
    by_cases hsame : r'.state = old.state
    · rw [if_pos hsame] at hnext
      exact ⟨log',hnext,hsame ▸ hterminal,hcreated',hresolved,hrunning⟩
    · have hclosed := (terminal_of_shut hacc hterminal hshut).resolve_left hsame
      rw [if_neg hsame] at hnext
      refine ⟨_,hnext,by rw [hclosed]; rfl,hcreated',?_,fun at' hat => ?_⟩
      · rw [lastResolvedAt_other (by rw [hclosed]; decide)]
        exact hresolved
      · rw [runningMs_append (Int.le_trans hat (Int.le_trans hr.le hl))]
        exact hrunning at' hat

/-- The resolution time is the time that the Ticket was `open` or `on_hold` up to its last resolution, whatever is done to
it afterwards short of a reopening, and whenever the report is run. -/
theorem reports_of_resolved (h : History ticketId log last r) (hs : isTerminal r.state = true) :
    ∃ at', lastResolvedAt log = some at' ∧
      ∀ last' r', Rests ticketId last r last' r' → Reports ticketId r' (runningMs r.createdAt log at') := by
  obtain ⟨at',hat,_⟩ := terminal_since_resolved h hs
  refine ⟨at',hat,fun last' r' hr => ?_⟩
  obtain ⟨log',h',hs',hcreated,hresolved,hrunning⟩ := hr.history h hs
  rw [← hrunning at' (h.bounds.2 _ (mem_of_lastResolvedAt hat)), ← hcreated]
  exact reports_of_history h' hs' (hresolved.trans hat)

private theorem rests_of_history (_ : History 0 log last r) : Rests 0 last r last r := .refl

private theorem rests_edit {r'' : Ticket} (now : Int) (edit : Ticket → Ticket) (hr : Rests 0 last r last' r') (hl : last' ≤ now)
    (hp : (edit r').slaPausedMs = r'.slaPausedMs) (hn : (edit r').slaPauseStartedAt = r'.slaPauseStartedAt)
    (hc : (edit r').createdAt = r'.createdAt) (hacc : ticketEnforceTransition 0 now r' (edit r') = .ok (r'', entries))
    (hs : r''.state ≠ .opened) : Rests 0 last r now r'' :=
  .update hr hl hp hn hc hacc hs

/-- A wait on the customer, a resolution, a reopening and another resolution; then an edit of the priority and the closing,
from which the figure is read. -/
theorem reports_of_closed : ∃ (d : Desk Unit) (r : Ticket) (row : CohortRow), d.tickets.committed 0 = some r ∧
    r.state = .closed ∧ r.priority = .urgent ∧ r.slaPauseStartedAt = some 60 ∧ Reports 0 r 17 ∧
    cohortRow d ⟨0, .user 7, 70⟩ ⟨0, 1, none⟩ 0 = some row ∧ row.resMs = some 17 := by
  have hborn := @History.born 0 (Ticket.fresh 0 "printer" 1 .portal none none 0) rfl rfl rfl
  have hpending := history_move 10 .pending hborn (by decide) rfl (by decide)
  have hresolved := history_move 20 .resolved hpending (by decide) rfl (by decide)
  have hreopened := history_move 40 .opened hresolved (by decide) rfl (by decide)
  have hagain := history_move 47 .resolved hreopened (by decide) rfl (by decide)
  obtain ⟨at',hat,hreports⟩ := reports_of_resolved hagain rfl
  cases hat
  have hurgent := rests_edit 50 (fun r => { r with priority := .urgent }) (rests_of_history hagain) (by decide) rfl rfl rfl rfl (by decide)
  have hclosed := rests_edit 60 (fun r => { r with state := .closed }) hurgent (by decide) rfl rfl rfl rfl (by decide)
  have hclosed := hreports _ _ hclosed
  obtain ⟨row,_,hrow,hfigure⟩ := hclosed.counted Unit { Desk.empty with tickets := Table.ofList [_] } ⟨0, .user 7, 70⟩ ⟨0, 1, none⟩
    rfl rfl (by decide) (by decide)
  exact ⟨_,_,row,rfl,rfl,rfl,rfl,hclosed,hrow,hfigure⟩

/-- In every run of the desk, its deeds and its sweeps: the timeline is the one of the log. -/
theorem reports_of_run {acts : List Sla.Act} {s : Sla.Chronicle} {k : Uuid}
    (hr : Run Sla.Chronicle.step Always Sla.Chronicle.initial acts s) (hk : s.desk.tickets.committed k = some r)
    (hs : isTerminal r.state = true) :
    ∃ at', lastResolvedAt (Sla.movesOf k (s.desk.audit.scan fun _ => false)) = some at' ∧
      Reports k r (runningMs r.createdAt (Sla.movesOf k (s.desk.audit.scan fun _ => false)) at') := by
  obtain ⟨last,_,h⟩ := ((Sla.Chronicle.sound_of_run hr).underway.accounted fun _ => false).history k r (by simpa using hk)
  obtain ⟨at',hat,_⟩ := terminal_since_resolved h hs
  exact ⟨at',hat,reports_of_history h hs hat⟩

end Nivara.Analytics
