import Nivara.Tickets.Register

/-! The audit log tells the whole story of a Ticket: its rows, replayed over the values the Ticket
was born with, give the values it has, in every view of the database and whoever writes. -/
namespace Nivara.Tickets
open Transactions

structure Standing where
  state : TicketState
  assigneeId : Option Uuid
  priority : TicketPriority
  deriving DecidableEq, Repr

def Ticket.standing (r : Ticket) : Standing := ⟨r.state, r.assigneeId, r.priority⟩

def Standing.replay (s : Standing) (e : AuditEntry) : Standing :=
  match e.action, e.toValue with
  | .ticketTransitioned, some (.state x) => { s with state := x }
  | .ticketAssigned, none => { s with assigneeId := none }
  | .ticketAssigned, some (.user id) => { s with assigneeId := some id }
  | .ticketPriorityChanged, some (.priority p) => { s with priority := p }
  | _, _ => s

inductive Column where
  | state | assignee | priority
  deriving DecidableEq, Repr

def Column.action : Column → AuditAction
  | .state => .ticketTransitioned
  | .assignee => .ticketAssigned
  | .priority => .ticketPriorityChanged

def Ticket.audited (r : Ticket) : Column → Option AuditValue
  | .state => some (.state r.state)
  | .assignee => r.assigneeId.map .user
  | .priority => some (.priority r.priority)

def trailOf (k : Uuid) (log : List AuditEntry) : List AuditEntry := log.filter (·.ticketId = k)

def rowsOf (column : Column) (log : List AuditEntry) : List AuditEntry := log.filter (·.action = column.action)

/-- The rows lead from the value `v` to the value `w`, each from where the one before it got. -/
def Leads : Option AuditValue → List AuditEntry → Option AuditValue → Prop
  | v, [], w => v = w
  | v, e :: rows, w => e.fromValue = v ∧ Leads e.toValue rows w

def AuditEntry.LegalMove (e : AuditEntry) : Prop :=
  ∃ s s', e.fromValue = some (.state s) ∧ e.toValue = some (.state s') ∧ ticketTransitionIsLegal s s' = true

/-- The log tells how Ticket `k` came from the row it was born with to the row `r`. -/
structure Tells (k : Uuid) (birth r : Ticket) (log : List AuditEntry) : Prop where
  replayed : (trailOf k log).foldl Standing.replay birth.standing = r.standing
  chained : ∀ column, Leads (birth.audited column) (rowsOf column (trailOf k log)) (r.audited column)
  legal : ∀ e ∈ rowsOf .state (trailOf k log), e.LegalMove

theorem Leads.append {v w x : Option AuditValue} {rows rows' : List AuditEntry} (h : Leads v rows w)
    (h' : Leads w rows' x) : Leads v (rows ++ rows') x := by
  induction rows generalizing v with
  | nil =>
    cases h
    exact h'
  | cons e rows ih => exact ⟨h.1,ih h.2⟩

/-- Only `resolved` goes to `closed`. -/
theorem AuditEntry.LegalMove.resolved_of_closed {e : AuditEntry} (h : e.LegalMove)
    (hc : e.toValue = some (.state .closed)) : e.fromValue = some (.state .resolved) := by
  obtain ⟨s,s',hfrom,hto,hl⟩ := h
  cases hto.symm.trans hc
  cases s <;> simp [ticketTransitionIsLegal] at hl
  exact hfrom

section Trigger
variable {k : Uuid} {now : Int} {old r : Ticket} {action : AuditAction}

private theorem mem_auditOf {fromValue toValue : Option AuditValue} {e : AuditEntry}
    (h : e ∈ auditOf action k now fromValue toValue) :
    e = ⟨action, k, fromValue, toValue, none, now⟩ ∧ fromValue ≠ toValue := by
  unfold auditOf at h
  split at h
  · cases h
  · exact ⟨List.mem_singleton.mp h,‹_›⟩

theorem ticketId_of_auditTrail {e : AuditEntry} (h : e ∈ auditTrail k now old r) : e.ticketId = k := by
  simp only [auditTrail, List.mem_append] at h
  rcases h with (h | h) | h
  all_goals exact (mem_auditOf h).1 ▸ rfl

private theorem rowsOf_auditOf_self {column : Column} {v w : Option AuditValue} :
    rowsOf column (auditOf column.action k now v w) = auditOf column.action k now v w := by
  refine List.filter_eq_self.mpr fun e he => ?_
  simp [(mem_auditOf he).1]

private theorem rowsOf_auditOf_other {column : Column} {v w : Option AuditValue} (action : AuditAction)
    (h : action ≠ column.action) :
    rowsOf column (auditOf action k now v w) = [] := by
  refine List.filter_eq_nil_iff.mpr fun e he => ?_
  simp [(mem_auditOf he).1, h]

private theorem leads_auditOf {v w : Option AuditValue} : Leads v (auditOf action k now v w) w := by
  unfold auditOf
  split
  · assumption
  · exact ⟨rfl,rfl⟩

/-- The trigger's rows of one column are the change of that column. -/
private theorem rowsOf_auditTrail (column : Column) : rowsOf column (auditTrail k now old r) =
    auditOf column.action k now (old.audited column) (r.audited column) := by
  have hsplit : ∀ l l' : List AuditEntry, rowsOf column (l ++ l') = rowsOf column l ++ rowsOf column l' :=
    fun l l' => List.filter_append ..
  rw [auditTrail, hsplit, hsplit]
  cases column with
  | state =>
    rw [rowsOf_auditOf_other .ticketAssigned (by decide), rowsOf_auditOf_other .ticketPriorityChanged (by decide),
      List.append_nil, List.append_nil]
    exact rowsOf_auditOf_self
  | assignee =>
    rw [rowsOf_auditOf_other .ticketTransitioned (by decide), rowsOf_auditOf_other .ticketPriorityChanged (by decide),
      List.append_nil, List.nil_append]
    exact rowsOf_auditOf_self
  | priority =>
    rw [rowsOf_auditOf_other .ticketTransitioned (by decide), rowsOf_auditOf_other .ticketAssigned (by decide),
      List.nil_append, List.nil_append]
    exact rowsOf_auditOf_self

private theorem replay_state : (auditOf .ticketTransitioned k now (some (.state old.state)) (some (.state r.state))).foldl
    Standing.replay old.standing = { old.standing with state := r.state } := by
  unfold auditOf
  split
  · rename_i h
    cases old
    simp_all [Ticket.standing]
  · rfl

private theorem replay_assignee (old r : Ticket) (s : Standing) (hs : s.assigneeId = old.assigneeId) :
    (auditOf .ticketAssigned k now (old.assigneeId.map .user) (r.assigneeId.map .user)).foldl Standing.replay s =
      { s with assigneeId := r.assigneeId } := by
  unfold auditOf
  split
  · rename_i h
    have heq : old.assigneeId = r.assigneeId := Option.map_injective (fun _ _ h => by cases h; rfl) h
    cases s
    simp_all
  · cases hr : r.assigneeId <;> simp [Standing.replay]

private theorem replay_priority (old r : Ticket) (s : Standing) (hs : s.priority = old.priority) :
    (auditOf .ticketPriorityChanged k now (some (.priority old.priority)) (some (.priority r.priority))).foldl
      Standing.replay s = { s with priority := r.priority } := by
  unfold auditOf
  split
  · rename_i h
    cases s
    simp_all
  · rfl

/-- Replaying what the trigger wrote about an update gives what the update made of the row. -/
private theorem replay_auditTrail : (auditTrail k now old r).foldl Standing.replay old.standing = r.standing := by
  rw [auditTrail, List.foldl_append, List.foldl_append, replay_state, replay_assignee old r _ rfl,
    replay_priority old r _ rfl]
  rfl

end Trigger

section Trail
variable {k : Uuid} {birth old r : Ticket} {log : List AuditEntry}

theorem tells_birth (h : ∀ e ∈ log, e.ticketId ≠ k) : Tells k birth birth log := by
  have hnone : trailOf k log = [] := List.filter_eq_nil_iff.mpr fun e he => by simpa using h e he
  refine ⟨?_,fun column => ?_,fun e he => ?_⟩
  · rw [hnone]
    rfl
  · rw [hnone]
    rfl
  · rw [hnone] at he
    cases he

/-- Rows about another Ticket, and rows the services record, are in no audited column of it. -/
theorem rowsOf_trailOf_other {rows : List AuditEntry} (column : Column)
    (hrows : ∀ e ∈ rows, e.ticketId ≠ k ∨ e.action = .ticketCreated ∨ e.action = .slaBreached) :
    rowsOf column (trailOf k (log ++ rows)) = rowsOf column (trailOf k log) := by
  have hnil : rowsOf column (trailOf k rows) = [] := by
    refine List.filter_eq_nil_iff.mpr fun e he => ?_
    obtain ⟨hmem,hk⟩ := List.mem_filter.mp he
    rcases (hrows e hmem).resolve_left (by simpa using hk) with hc | hc <;> cases column <;> simp [hc, Column.action]
  rw [trailOf, List.filter_append, rowsOf, List.filter_append]
  exact (congrArg _ hnil).trans (List.append_nil _)

/-- The rows the trigger writes about an update of the Ticket come last in each column. -/
theorem rowsOf_trailOf_update {now : Int} (column : Column) :
    rowsOf column (trailOf k (log ++ auditTrail k now old r)) =
      rowsOf column (trailOf k log) ++ auditOf column.action k now (old.audited column) (r.audited column) := by
  have hall : trailOf k (auditTrail k now old r) = auditTrail k now old r :=
    List.filter_eq_self.mpr fun e he => by simpa using ticketId_of_auditTrail he
  rw [← rowsOf_auditTrail, rowsOf, trailOf, List.filter_append, List.filter_append]
  exact congrArg (_ ++ List.filter _ ·) hall

theorem Tells.append_other {rows : List AuditEntry} (h : Tells k birth r log)
    (hrows : ∀ e ∈ rows, e.ticketId ≠ k ∨ e.action = .ticketCreated ∨ e.action = .slaBreached) :
    Tells k birth r (log ++ rows) := by
  have hsplit : trailOf k (log ++ rows) = trailOf k log ++ trailOf k rows := List.filter_append ..
  have hkind : ∀ e ∈ trailOf k rows, e.action = .ticketCreated ∨ e.action = .slaBreached := by
    intro e he
    obtain ⟨hmem,hk⟩ := List.mem_filter.mp he
    exact (hrows e hmem).resolve_left (by simpa using hk)
  have hreplay : ∀ (es : List AuditEntry) s, (∀ e ∈ es, e.action = .ticketCreated ∨ e.action = .slaBreached) →
      es.foldl Standing.replay s = s := by
    intro es
    induction es with
    | nil => exact fun _ _ => rfl
    | cons e es ih =>
      intro s hes
      have he : s.replay e = s := by rcases hes e (by simp) with he | he <;> simp [Standing.replay, he]
      rw [List.foldl_cons, he]
      exact ih s fun e' he' => hes e' (by simp [he'])
  refine ⟨?_,fun column => ?_,?_⟩
  · rw [hsplit, List.foldl_append, hreplay _ _ hkind]
    exact h.replayed
  · rw [rowsOf_trailOf_other column hrows]
    exact h.chained column
  · rw [rowsOf_trailOf_other .state hrows]
    exact h.legal

/-- An accepted update of the Ticket, with the rows the trigger wrote about it. -/
theorem Tells.append_update {now : Int} (h : Tells k birth old log)
    (hlegal : r.state = old.state ∨ ticketTransitionIsLegal old.state r.state = true) :
    Tells k birth r (log ++ auditTrail k now old r) := by
  have hall : trailOf k (auditTrail k now old r) = auditTrail k now old r :=
    List.filter_eq_self.mpr fun e he => by simpa using ticketId_of_auditTrail he
  have hsplit : trailOf k (log ++ auditTrail k now old r) = trailOf k log ++ auditTrail k now old r := by
    rw [trailOf, List.filter_append]
    exact congrArg _ hall
  refine ⟨?_,fun column => ?_,fun e he => ?_⟩
  · rw [hsplit, List.foldl_append, h.replayed]
    exact replay_auditTrail
  · rw [rowsOf_trailOf_update]
    exact (h.chained column).append leads_auditOf
  · rw [rowsOf_trailOf_update, List.mem_append] at he
    rcases he with he | he
    · exact h.legal e he
    · obtain ⟨rfl,hne⟩ := mem_auditOf he
      refine ⟨old.state,r.state,rfl,rfl,hlegal.resolve_left fun hs => hne ?_⟩
      simp [Ticket.audited, hs]

end Trail

def Register.Logged (b : Register) : Prop := ∀ e ∈ b.audit, (b.tickets e.ticketId).isSome

theorem Register.Logged.apply {b : Register} {n : Uuid} {change : Change} (h : b.Logged) (hlaw : b.Lawful n change) :
    (b.apply change).Logged := by
  have hkeep : ∀ k' (r' : Ticket) e, e ∈ b.audit → (Function.update b.tickets k' (some r') e.ticketId).isSome := by
    intro k' r' e he
    by_cases hk : e.ticketId = k'
    · simp [hk]
    · rw [Function.update_of_ne hk]
      exact h e he
  intro e he
  cases hlaw with
  | @stored k now old new r entries hfound _ henf _ =>
    rcases List.mem_append.mp he with he | he
    · exact hkeep k r e he
    · rw [(enforced_of_ok henf).audit] at he
      simp [Register.apply, ticketId_of_auditTrail he]
  | opened _ _ _ _ => exact hkeep _ _ e he
  | @recorded k entry t hfound =>
    rcases List.mem_append.mp he with he | he
    · exact h e he
    · rw [List.mem_singleton.mp he]
      cases entry <;> exact hfound

/-- One lawful change keeps the story of a Ticket that is there already. -/
private theorem tells_apply {k : Uuid} {birth : Ticket} {b : Register} {n : Uuid} {change : Change} (hn : k < n)
    (hlaw : b.Lawful n change) (h : ∀ r, b.tickets k = some r → Tells k birth r b.audit) :
    ∀ r, (b.apply change).tickets k = some r → Tells k birth r (b.apply change).audit := by
  intro r hr
  cases hlaw with
  | @stored k' now old new r' entries hfound _ henf _ =>
    have henf := enforced_of_ok henf
    simp only [Register.apply, henf.audit] at hr ⊢
    by_cases hk : k = k'
    · subst hk
      rw [Function.update_self] at hr
      cases hr
      exact (h old hfound).append_update henf.legal
    · rw [Function.update_of_ne hk] at hr
      exact (h r hr).append_other fun e he => .inl (by rw [ticketId_of_auditTrail he]; exact Ne.symm hk)
  | opened _ _ _ _ =>
    simp only [Register.apply] at hr ⊢
    rw [Function.update_of_ne (Nat.ne_of_lt hn)] at hr
    exact h r hr
  | @recorded k' entry t _ =>
    refine (h r hr).append_other fun e he => .inr ?_
    rw [List.mem_singleton.mp he]
    cases entry
    · exact .inl rfl
    · exact .inr rfl

section Runs
variable {ι ε α Req : Type} [DecidableEq ι] {srv : Service deskLanguage ε α TenantContext (Desk ι) Req}
  {ok : Server deskLanguage ε α ι TenantContext (Desk ι) Cursor Req → Move ι Req Event → Prop}
  {u v t : Server deskLanguage ε α ι TenantContext (Desk ι) Cursor Req} {acts acts' : List (Move ι Req Event)}
  {m : Move ι Req Event} {i : ι} {birth : Ticket}

private theorem logged_of_run (hu : Run (Server.step (deskEngine ι) srv Desk.world) ok (Server.initial Desk.empty) acts u) :
    u.db.Coherent ∧ ∀ S, (u.db.register S).Logged := by
  refine register_invariant (I := Register.Logged) hu coherent_empty ?_ fun b n change _ h hlaw => h.apply hlaw
  intro S e he
  cases he

/-- The step that inserts a Ticket gives it to the views of its transaction, and writes no row of
the log. -/
private theorem opened_of_birth (hd : u.db.Coherent) (hm : u.step (deskEngine ι) srv Desk.world m = some v)
    (hbirth : v.db.tickets.own i u.db.tickets.size = some birth) :
    v.db.Coherent ∧ u.db.tickets.size < v.db.tickets.size ∧ birth.state = .opened ∧
      ∀ S r, (v.db.register S).tickets u.db.tickets.size = some r →
        r = birth ∧ (v.db.register S).audit = (u.db.register S).audit := by
  have hsize := Table.lt_size_of_own _ _ _ hbirth
  have hnone : ∀ S, (u.db.register S).tickets u.db.tickets.size = none := fun S => Table.view_fresh _ _ _ (Nat.le_refl _)
  have hview : (v.db.register fun j => j = i).tickets u.db.tickets.size = some birth := by
    rw [Desk.register, ← Table.visible_eq_view]
    exact Table.visible_of_own _ _ _ hbirth
  have hc : v.db = u.db ∨ Changes (deskEngine ι) Desk.world (fun _ _ _ _ _ => True) u.db v.db :=
    changes_of_step hm fun _ _ _ _ _ _ _ _ _ _ => trivial
  rcases hc with heq | hc
  · rw [heq] at hsize
    exact absurd hsize (Nat.lt_irrefl _)
  · obtain ⟨⟨hv,_⟩,⟨f,hf⟩ | ⟨j,ctx,q,c,change,_,_,hmk⟩⟩ := registers_of_change hd hc
    · rw [hf, hnone] at hview
      cases hview
    · have hj : (decide (j = i)) = true := by
        by_contra hj
        rw [hmk.outside _ (by simpa using hj), hnone] at hview
        cases hview
      have hlaw := hmk.lawful (fun j => decide (j = i)) hj
      rw [hmk.inside _ hj] at hview
      refine ⟨hv,hsize,?_⟩
      cases hlaw with
      | @stored k now old new r entries hfound _ _ _ =>
        have hne : u.db.tickets.size ≠ k := by
          intro hk
          rw [← hk, hnone] at hfound
          cases hfound
        simp only [Register.apply] at hview
        rw [Function.update_of_ne hne, hnone] at hview
        cases hview
      | @recorded k entry t' _ =>
        rw [Register.apply, hnone] at hview
        cases hview
      | @opened r _ hborn _ _ =>
        simp only [Register.apply, Function.update_self, Option.some.injEq] at hview
        subst hview
        refine ⟨hborn,fun S r' hr' => ?_⟩
        cases hS : S j with
        | true =>
          rw [hmk.inside S hS] at hr' ⊢
          simp only [Register.apply, Function.update_self, Option.some.injEq] at hr'
          exact ⟨hr'.symm,rfl⟩
        | false =>
          rw [hmk.outside S hS, hnone] at hr'
          cases hr'

/-- What the log and the row of Ticket `k`, which was born as `birth`, keep to at `t` and after. -/
structure Faithful (srv : Service deskLanguage ε α TenantContext (Desk ι) Req)
    (ok : Server deskLanguage ε α ι TenantContext (Desk ι) Cursor Req → Move ι Req Event → Prop) (k : Uuid) (birth : Ticket)
    (t : Server deskLanguage ε α ι TenantContext (Desk ι) Cursor Req) : Prop where
  born : birth.state = .opened
  /-- In the committed state, and in each state that the open transactions may come to commit. -/
  told : ∀ S r, (t.db.register S).tickets k = some r → Tells k birth r (t.db.register S).audit
  closedFrom : ∀ S r, (t.db.register S).tickets k = some r → ∀ e ∈ rowsOf .state (trailOf k (t.db.register S).audit),
    e.toValue = some (.state .closed) → e.fromValue = some (.state .resolved)
  /-- A refused statement takes back what its transaction wrote, and changes nothing else. -/
  refused : ∀ j x q next c e, t.sessions j = some x → x.script = .exec q next → x.aborted = false → x.cursor = some c →
    (deskEngine ι).resume t.db j x.ctx q c = .refuse e →
      ∃ t', t.step (deskEngine ι) srv Desk.world (.advance j) = some t' ∧
        ∀ S, t'.db.register S = t.db.register fun i => i ≠ j && S i
  kept : ∀ acts w r, Run (Server.step (deskEngine ι) srv Desk.world) ok t acts w → t.db.tickets.committed k = some r →
    ∃ r', w.db.tickets.committed k = some r' ∧ Evolves r r'

/-- From the step at which a Ticket is inserted on, whatever transactions run beside one another. -/
theorem faithful_of_run (hu : Run (Server.step (deskEngine ι) srv Desk.world) ok (Server.initial Desk.empty) acts u)
    (hm : u.step (deskEngine ι) srv Desk.world m = some v) (hbirth : v.db.tickets.own i u.db.tickets.size = some birth)
    (ht : Run (Server.step (deskEngine ι) srv Desk.world) ok v acts' t) :
    Faithful srv ok u.db.tickets.size birth t := by
  obtain ⟨hd,hlog⟩ := logged_of_run hu
  obtain ⟨hv,hsize,hborn,hopen⟩ := opened_of_birth hd hm hbirth
  have hstart : ∀ S r, (v.db.register S).tickets u.db.tickets.size = some r →
      Tells u.db.tickets.size birth r (v.db.register S).audit := by
    intro S r hr
    obtain ⟨rfl,haudit⟩ := hopen S r hr
    rw [haudit]
    refine tells_birth fun e he hek => ?_
    have hsome := hlog S e he
    rw [hek, Desk.register_tickets, Table.view_fresh _ _ _ (Nat.le_refl _)] at hsome
    cases hsome
  obtain ⟨htc,htold⟩ := register_invariant
    (I := fun b => ∀ r, b.tickets u.db.tickets.size = some r → Tells u.db.tickets.size birth r b.audit) ht hv hstart
    fun b n change hn hb hlaw => tells_apply (Nat.lt_of_lt_of_le hsize hn) hlaw hb
  refine ⟨hborn,htold,?_,?_,fun acts w r hw hr => evolves_of_run hw htc hr⟩
  · intro S r hr e he hc
    exact ((htold S r hr).legal e he).resolved_of_closed hc
  · intro j x q next c e hx hscript hl hc hturn
    refine ⟨_,Server.step_of_refuse hx hscript hl hc hturn,fun S => ?_⟩
    exact t.db.register_rollback j S

end Runs

private def opening : Work SqlState Unit :=
  ⟨1, .system, .exec .insertContact fun
    | .error e => .fail e
    | .ok c => .exec (.insertTicket (.fresh 1 "printer" c .portal none none 0)) fun _ => .done ()⟩

private def resolving : Work SqlState Unit :=
  ⟨1, .system, .exec (.updateTickets fun _ _ => some fun r => some { r with state := .resolved, priority := .urgent })
    fun _ => .done ()⟩

theorem faithful_of_resolvedTicket :
    ∃ (t : Server deskLanguage SqlState Unit Bool TenantContext (Desk Bool) Cursor (Work SqlState Unit)) (r : Ticket),
      t.db.tickets.committed 0 = some r ∧ r.state = .resolved ∧ (t.db.register fun _ => false).audit.length = 2 ∧
      Faithful (workService Bool SqlState Unit) Always 0 (.fresh 1 "printer" 0 .portal none none 0) t := by
  have hrun : (exec (Server.step (deskEngine Bool) (workService Bool SqlState Unit) Desk.world) Always
      (Server.initial Desk.empty) [.begin true opening, .advance true, .advance true, .advance true]).any (fun u =>
        (u.step (deskEngine Bool) (workService Bool SqlState Unit) Desk.world (.advance true)).any fun v =>
          u.db.tickets.size = 0 ∧ v.db.tickets.own true 0 = some (.fresh 1 "printer" 0 .portal none none 0) ∧
          (exec (Server.step (deskEngine Bool) (workService Bool SqlState Unit) Desk.world) Always v
            [.advance true, .begin false resolving, .advance false, .advance false, .advance false, .advance false]).any
              fun t => (t.db.tickets.committed 0).any (·.state = .resolved) ∧
                (t.db.register fun _ => false).audit.length = 2) = true := by
    decide +kernel
  obtain ⟨u,hu,hp⟩ := exec_any hrun
  obtain ⟨v,hm,hp⟩ := (Option.any_eq_true _ _).mp hp
  simp only [Bool.decide_and, Bool.and_eq_true, decide_eq_true_eq] at hp
  obtain ⟨hsize,hbirth,ht⟩ := hp
  obtain ⟨t,ht,hlast⟩ := exec_any ht
  simp only [Bool.and_eq_true, decide_eq_true_eq] at hlast
  obtain ⟨r,hr,hstate⟩ := (Option.any_eq_true _ _).mp hlast.1
  rw [← hsize] at hbirth
  have hfaithful := faithful_of_run hu hm hbirth ht
  rw [hsize] at hfaithful
  exact ⟨t,r,hr,by simpa using hstate,hlast.2,hfaithful⟩

end Nivara.Tickets
