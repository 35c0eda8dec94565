import Nivara.Sla.Chronicle
import Nivara.Tickets.Serial

/-! What a sweep latches is what is due. The sweep reads six columns of a Ticket; what is due is said
here of its history, that is of the Messages on it and of the transitions in the log. -/
namespace Nivara.Sla
open Transactions Tickets

def auditLog (d : Desk Unit) : List AuditEntry := d.audit.scan fun _ => false

def conversation (d : Desk Unit) : List Entry := d.messages.scan fun _ => false

/-- The deadline of a Ticket that has no latch for it is over at the present instant. The clock of the first
response is the wall's, that of the resolution runs while the Ticket is `open` or `on_hold`. -/
def Missed (targets : Targets) (tenantId : Uuid) (d : Desk Unit) (k : Uuid) (r : Ticket) : SlaTimer → Prop
  | .firstResponse => r.tenantId = tenantId ∧ r.firstResponseBreachedAt = none ∧ responsesTo k (conversation d) = [] ∧
      ∃ target, targets r.priority = some target ∧ target.firstResponseMs < d.clock - r.createdAt
  | .resolution => r.tenantId = tenantId ∧ r.resolutionBreachedAt = none ∧
      (r.state = .opened ∨ r.state = .pending ∨ r.state = .onHold) ∧
      ∃ target, targets r.priority = some target ∧ target.resolutionMs < runningMs r.createdAt (movesOf k (auditLog d)) d.clock

/-- A sweep takes the database from `d` to `d'` and announces `breaches`: the latches of what has been missed
are set to its instant, each with one row in the log and one announcement, and all else stays. -/
structure ExactlyDue (targets : Targets) (tenantId : Uuid) (d d' : Desk Unit) (breaches : List Breach) : Prop where
  latches : ∀ k r, d.tickets.committed k = some r → ∃ r', d'.tickets.committed k = some r' ∧
    r' = { r with
      firstResponseBreachedAt := r'.firstResponseBreachedAt
      resolutionBreachedAt := r'.resolutionBreachedAt } ∧
    ∀ timer, (Missed targets tenantId d k r timer → latchOf r' timer = some d.clock) ∧
      (¬ Missed targets tenantId d k r timer → latchOf r' timer = latchOf r timer)
  nothingNew : ∀ k, d.tickets.committed k = none → d'.tickets.committed k = none
  announced : ∀ b, b ∈ breaches ↔ b.tenantId = tenantId ∧ b.breachedAt = d.clock ∧
    ∃ r, d.tickets.committed b.ticketId = some r ∧ Missed targets tenantId d b.ticketId r b.timer
  once : breaches.Nodup
  audited : auditLog d' = auditLog d ++ breaches.map fun b => (Recorded.breached b.timer).entry b.ticketId d.clock
  messages : d'.messages.committed = d.messages.committed
  notes : d'.notes.committed = d.notes.committed
  contacts : d'.contacts.committed = d.contacts.committed
  deliveries : d'.deliveries.committed = d.deliveries.committed
  jobs : d'.jobs.committed = d.jobs.committed

section Rows
variable {targets : Targets} {now : Int} {k : Uuid} {r : Ticket}

def isDue (targets : Targets) (now : Int) (r : Ticket) : SlaTimer → Bool
  | .firstResponse => (targets r.priority).any (firstResponseDue · now r)
  | .resolution => (targets r.priority).any (resolutionDue · now r)

def latched (targets : Targets) (now : Int) (r : Ticket) : Ticket :=
  latch now (isDue targets now r .firstResponse) (isDue targets now r .resolution) r

theorem latchOf_latched (timer : SlaTimer) :
    latchOf (latched targets now r) timer = if isDue targets now r timer then some now else latchOf r timer := by
  cases timer <;> rfl

/-- The statement picks the rows for which one of the timers is due. -/
private theorem due_isSome : (due targets now k r).isSome = true ↔ ∃ timer, isDue targets now r timer = true := by
  have htimer : (∃ timer, isDue targets now r timer = true) ↔
      (isDue targets now r .firstResponse || isDue targets now r .resolution) = true := by
    rw [Bool.or_eq_true]
    constructor
    · rintro ⟨timer,h⟩
      cases timer with
      | firstResponse => exact .inl h
      | resolution => exact .inr h
    · rintro (h | h)
      · exact ⟨_,h⟩
      · exact ⟨_,h⟩
  rw [htimer]
  cases ht : targets r.priority with
  | none => simp [due, isDue, ht]
  | some target => simp [due, isDue, ht]

private theorem set_of_due {set : Ticket → Option Ticket} (h : due targets now k r = some set) :
    set r = some (latched targets now r) := by
  obtain ⟨target,ht,hdue⟩ := Option.bind_eq_some_iff.mp h
  obtain ⟨_,hset⟩ := Option.ite_none_right_eq_some.mp hdue
  cases hset
  simp [latched, isDue, ht]

/-- What is due has no latch yet. -/
theorem latchOf_of_isDue {timer : SlaTimer} (h : isDue targets now r timer = true) : latchOf r timer = none := by
  cases timer with
  | firstResponse =>
    obtain ⟨target,_,hdue⟩ := (Option.any_eq_true _ _).mp h
    simp only [firstResponseDue, decide_eq_true_eq] at hdue
    exact hdue.2.1
  | resolution =>
    obtain ⟨target,_,hdue⟩ := (Option.any_eq_true _ _).mp h
    simp only [resolutionDue, decide_eq_true_eq] at hdue
    exact hdue.1

private theorem storedAsIs_latched {ctx : TenantContext} (hv : r.visibleTo ctx = true) (hw : r.isWhole = true) :
    StoredAsIs () ctx k r (latched targets now r) := by
  have hkeep : ∀ timer, setOnce (latchOf r timer) (latchOf (latched targets now r) timer) = latchOf (latched targets now r) timer := by
    intro timer
    rw [latchOf_latched]
    cases hdue : isDue targets now r timer with
    | true => simp [latchOf_of_isDue hdue, setOnce]
    | false => cases latchOf r timer <;> simp [setOnce]
  have hcoerce : coerceLatches r (latched targets now r) = latched targets now r := by
    have hfirst := hkeep .firstResponse
    have hres := hkeep .resolution
    simp only [latchOf] at hfirst hres
    have hresp : setOnce r.firstResponseAt (latched targets now r).firstResponseAt = (latched targets now r).firstResponseAt := by
      simp only [latched, latch, setOnce]
      cases r.firstResponseAt <;> rfl
    simp only [coerceLatches, hfirst, hres, hresp]
  have henf : ticketEnforceTransition k ctx.now r (latched targets now r) = .ok (latched targets now r, []) := by
    simp only [ticketEnforceTransition, hcoerce]
    simp [latched, latch, isEdit, auditTrail, auditOf]
  intro d
  have hlink : enforceLinkageOnUpdate r (latched targets now r) = .ok () := by
    simp [enforceLinkageOnUpdate, latched, latch]
  have hv' : (latched targets now r).visibleTo ctx = true := hv
  have hw' : (latched targets now r).isWhole = true := hw
  have ha : (latched targets now r).assigneeId = r.assigneeId := rfl
  simp [Desk.storeTicket, hlink, henf, hv', hw', ha, bind, Except.bind, pure, Except.pure]

end Rows

section Sweep
variable {s : Chronicle} {targets : Targets} {tenantId k : Uuid} {now at' : Int} {r : Ticket} {d : Desk Unit} {ctx : TenantContext}

theorem committed_of_settled (h : Settled d) : d.tickets.visible () = d.tickets.committed := Table.visible_of_settled h.tickets ()

theorem scan_of_settled {R : Type} {t : Table Unit R} (h : ∀ k, t.pending k = none) (S S' : Unit → Bool) : t.scan S = t.scan S' := by
  have hview : ∀ S, t.view S = t.committed := fun S => funext fun k => Table.view_of_unlocked t S k (h k)
  simp only [Table.scan, hview]

private theorem isDue_iff (h : s.Sound) (hr : s.desk.tickets.committed k = some r) (hten : r.tenantId = tenantId) (timer : SlaTimer) :
    isDue targets s.desk.clock r timer = true ↔ Missed targets tenantId s.desk k r timer := by
  have hbooks := h.underway.accounted fun _ => false
  have hrow : (s.desk.register fun _ => false).tickets k = some r := by simpa using hr
  obtain ⟨last,hlast,hhist⟩ := hbooks.history k r hrow
  have hborn : r.createdAt ≤ s.desk.clock := Int.le_trans hhist.bounds.1 hlast
  cases timer with
  | firstResponse =>
    have hanswered : r.firstResponseAt = none ↔ responsesTo k (conversation s.desk) = [] := by
      rw [hbooks.answered k r hrow, Option.map_eq_none_iff, List.head?_eq_none_iff]
      rfl
    have hwall : ticketSlaWallElapsedMs r.createdAt s.desk.clock = s.desk.clock - r.createdAt := max_eq_right (by omega)
    simp only [isDue, Missed, Option.any_eq_true, firstResponseDue, decide_eq_true_eq, hanswered, hwall]
    constructor
    · rintro ⟨target,ht,hnone,hlatch,hover⟩
      exact ⟨hten,hlatch,hnone,target,ht,hover⟩
    · rintro ⟨_,hlatch,hnone,target,ht,hover⟩
      exact ⟨target,ht,hnone,hlatch,hover⟩
  | resolution =>
    have hactive : ticketSlaActiveElapsedMs r.createdAt r.slaPausedMs r.slaPauseStartedAt s.desk.clock =
        runningMs r.createdAt (movesOf k (auditLog s.desk)) s.desk.clock :=
      (exactClock_of_history hhist).elapsed s.desk.clock fun e he => Int.le_trans (hhist.bounds.2 e he) hlast
    have hstate : (r.state ≠ .resolved ∧ r.state ≠ .closed) ↔ (r.state = .opened ∨ r.state = .pending ∨ r.state = .onHold) := by
      cases r.state <;> simp
    simp only [isDue, Missed, Option.any_eq_true, resolutionDue, decide_eq_true_eq, hactive]
    constructor
    · rintro ⟨target,ht,hlatch,hres,hclosed,hover⟩
      exact ⟨hten,hlatch,hstate.mp ⟨hres,hclosed⟩,target,ht,hover⟩
    · rintro ⟨_,hlatch,hopen,target,ht,hover⟩
      exact ⟨target,ht,hlatch,(hstate.mpr hopen).1,(hstate.mpr hopen).2,hover⟩

private theorem alone_recordBreaches {n : Nat} {α : Type} {f : Unit → Tx α} (breaches : List Breach)
    (hs : ∀ b ∈ breaches, ∃ r, d.sees () ctx b.ticketId = some r) :
    ((recordBreaches at' breaches).bind f).alone (deskEngine Unit) () ctx (n + 1) d =
      (f ()).alone (deskEngine Unit) () ctx (n + 1)
        { d with audit := (breaches.map fun b => (Recorded.breached b.timer).entry b.ticketId at').foldl (·.insert ()) d.audit } := by
  induction breaches generalizing d with
  | nil => rfl
  | cons b rest ih =>
    obtain ⟨r,hr⟩ := hs b (by simp)
    refine (Script.alone_of_answer (ask_record hr)).trans ?_
    exact ih fun b' hb' => hs b' (by simp [hb'])

private def returned (targets : Targets) (now : Int) (rows : List (Uuid × Ticket)) : List (Uuid × Ticket) :=
  rows.filterMap fun p => (due targets now p.1 p.2).map fun _ => (p.1, latched targets now p.2)

private theorem mem_returned {rows : List (Uuid × Ticket)} {x : Uuid × Ticket} : x ∈ returned targets now rows ↔
    ∃ r, (x.1, r) ∈ rows ∧ (∃ timer, isDue targets now r timer = true) ∧ x.2 = latched targets now r := by
  simp only [returned, List.mem_filterMap, Option.map_eq_some_iff]
  constructor
  · rintro ⟨p,hp,set,hdue,rfl⟩
    exact ⟨p.2,hp,due_isSome.mp (by rw [hdue]; rfl),rfl⟩
  · rintro ⟨r,hp,htimer,hx⟩
    obtain ⟨set,hset⟩ := Option.isSome_iff_exists.mp (due_isSome.mpr htimer)
    exact ⟨(x.1, r),hp,set,hset,Prod.ext rfl hx.symm⟩

private def breachesOf (tenantId : Uuid) (now : Int) (rows : List (Uuid × Ticket)) : List Breach :=
  rows.flatMap fun row => (latchedTimers row.2 now).map fun timer => ⟨tenantId, row.1, timer, now⟩

private theorem breachesOf_nodup {rows : List (Uuid × Ticket)} (h : (rows.map Prod.fst).Nodup) :
    (breachesOf tenantId now rows).Nodup := by
  refine List.Nodup.of_map Breach.about ?_
  rw [breachesOf, about_breaches]
  exact nodup_latched h

private theorem returned_nodup {rows : List (Uuid × Ticket)} (h : (rows.map Prod.fst).Nodup) :
    ((returned targets now rows).map Prod.fst).Nodup := by
  rw [List.Nodup, List.pairwise_map] at h ⊢
  refine List.pairwise_filterMap.mpr (h.imp fun {p p'} hne x hx x' hx' => ?_)
  obtain ⟨_,_,rfl⟩ := Option.map_eq_some_iff.mp hx
  obtain ⟨_,_,rfl⟩ := Option.map_eq_some_iff.mp hx'
  exact hne

private structure SweptRows (targets : Targets) (ctx : TenantContext) (d d' : Desk Unit) (breaches : List Breach) : Prop where
  seen : ∀ k r, d.sees () ctx k = some r → d'.tickets.committed k = some (latched targets ctx.now r)
  unseen : ∀ k, d.sees () ctx k = none → d'.tickets.committed k = d.tickets.committed k
  audited : auditLog d' = auditLog d ++ breaches.map fun b => (Recorded.breached b.timer).entry b.ticketId ctx.now
  messages : d'.messages = d.messages.commit ()
  notes : d'.notes = d.notes.commit ()
  contacts : d'.contacts = d.contacts.commit ()
  deliveries : d'.deliveries = d.deliveries.commit ()
  jobs : d'.jobs = d.jobs.commit ()

private theorem alone_latchTenant (tenantId : Uuid) (targets : Targets) (ctx : TenantContext) (hset : Settled d) (hwhole : ∀ k r, d.tickets.committed k = some r → r.isWhole = true) :
    ∃ d' n, (latchTenant tenantId targets ctx.now ctx.now).alone (deskEngine Unit) () ctx n d =
        some (d', .ok (breachesOf tenantId ctx.now (returned targets ctx.now (d.rows () ctx)))) ∧
      SweptRows targets ctx d d' (breachesOf tenantId ctx.now (returned targets ctx.now (d.rows () ctx))) := by
  have hvis := committed_of_settled hset
  have hsolo : d.Solo () := fun _ _ _ => rfl
  have hrows : ∀ p ∈ d.rows () ctx, d.sees () ctx p.1 = some p.2 := fun p hp => Desk.mem_rows.mp hp
  obtain ⟨tickets,hask,hwritten,hleft⟩ := ask_visits (due targets ctx.now) (latched targets ctx.now)
    (n := (d.rows () ctx).length + 1) [] hsolo Desk.rows_nodup hrows (fun k r set => set_of_due)
    (fun p hp _ => storedAsIs_latched (Desk.sees_some.mp (hrows p hp)).2
      (hwhole p.1 p.2 (hvis ▸ (Desk.sees_some.mp (hrows p hp)).1))) (Nat.lt_succ_self _)
  have hsame : ∀ r, isDue targets ctx.now r .firstResponse = false → isDue targets ctx.now r .resolution = false → latched targets ctx.now r = r := by
    intro r h₁ h₂
    simp [latched, h₁, h₂, latch]
  have hsees : ∀ k r, d.sees () ctx k = some r → tickets.visible () k = some (latched targets ctx.now r) := by
    intro k r hr
    have hmem := Desk.mem_rows.mpr hr
    cases hdue : (due targets ctx.now k r).isSome with
    | true => exact hwritten (k, r) hmem hdue
    | false =>
      have hnone : ∀ timer, isDue targets ctx.now r timer = false := fun timer => by
        cases ht : isDue targets ctx.now r timer with
        | false => rfl
        | true => exact absurd (due_isSome.mpr ⟨timer,ht⟩) (by rw [hdue]; decide)
      rw [hleft k fun p hp hk => ?_, hsame r (hnone .firstResponse) (hnone .resolution)]
      · exact (Desk.sees_some.mp hr).1
      · subst hk
        cases (hrows p hp).symm.trans hr
        exact Option.not_isSome_iff_eq_none.mp (by rw [hdue]; decide)
  refine ⟨Desk.commit { d with
    tickets := tickets
    audit := ((breachesOf tenantId ctx.now (returned targets ctx.now (d.rows () ctx))).map fun b =>
      (Recorded.breached b.timer).entry b.ticketId ctx.now).foldl (·.insert ()) d.audit } (),(d.rows () ctx).length + 1,?_,?_,?_,?_,
    rfl,rfl,rfl,rfl,rfl⟩
  · have hrecord : ∀ b ∈ breachesOf tenantId ctx.now (returned targets ctx.now (d.rows () ctx)), ∃ r,
        Desk.sees { d with tickets := tickets } () ctx b.ticketId = some r := by
      intro b hb
      obtain ⟨row,hrow,hb⟩ := List.mem_flatMap.mp hb
      obtain ⟨timer,_,rfl⟩ := List.mem_map.mp hb
      obtain ⟨r,hr,_,_⟩ := mem_returned.mp hrow
      have hs := Desk.mem_rows.mp hr
      exact ⟨latched targets ctx.now r,Desk.sees_some.mpr ⟨hsees _ _ hs,(Desk.sees_some.mp hs).2⟩⟩
    refine (Script.alone_of_answer hask).trans ?_
    exact alone_recordBreaches (f := fun _ => pure _) _ hrecord
  · exact hsees
  · intro k hk
    refine (hleft k fun p hp heq => ?_).trans (by rw [hvis])
    subst heq
    rw [hrows p hp] at hk
    cases hk
  · simp only [auditLog, Desk.commit]
    rw [Table.scan_commit, Table.scan_inserts, if_pos (by rfl), scan_of_settled hset.audit]

private theorem sees_iff (hset : Settled d) : d.sees () ⟨tenantId, .system, now⟩ k = some r ↔
    d.tickets.committed k = some r ∧ r.tenantId = tenantId := by
  rw [Desk.sees_some, committed_of_settled hset]
  simp [Ticket.visibleTo, Actor.reaches]

/-- A visit stores the rows of its tenant as `latched` makes them, and leaves the others. -/
theorem committed_of_visit {turns : Nat} {p : Desk Unit × Except (Option Failure) (List Breach)} (hset : Settled d)
    (hwhole : ∀ k r, d.tickets.committed k = some r → r.isWhole = true)
    (hv : Chronicle.sweepNow d tenantId targets turns = some p) (k : Uuid) : p.1.tickets.committed k =
      (d.tickets.committed k).map fun r => if r.tenantId = tenantId then latched targets d.clock r else r := by
  obtain ⟨d',n,halone,hswept⟩ := alone_latchTenant tenantId targets ⟨tenantId, .system, d.clock⟩ hset hwhole
  cases Script.alone_unique hv halone
  by_cases hmine : ∃ r, d.tickets.committed k = some r ∧ r.tenantId = tenantId
  · obtain ⟨r,hr,hten⟩ := hmine
    rw [hr, Option.map_some, if_pos hten]
    exact hswept.seen k r ((sees_iff hset).mpr ⟨hr,hten⟩)
  · rw [hswept.unseen k (Option.eq_none_iff_forall_ne_some.mpr fun r hr => hmine ⟨r,(sees_iff hset).mp hr⟩)]
    cases hr : d.tickets.committed k with
    | none => rfl
    | some r => rw [Option.map_some, if_neg fun hten => hmine ⟨r,hr,hten⟩]

/-- In a sound chronicle whose last sweep of the tenant lies behind, no latch holds the present instant. -/
private theorem latchOf_ne_now (h : s.Sound) (hlater : ∀ u, s.swept tenantId = some u → u < s.desk.clock)
    (hr : s.desk.tickets.committed k = some r) (hten : r.tenantId = tenantId) (timer : SlaTimer) :
    latchOf r timer ≠ some s.desk.clock := by
  intro hlatch
  obtain ⟨u,hu,hle⟩ := h.underway.latched (fun _ => false) k r timer s.desk.clock (by simpa using hr) hlatch
  have hlt := hlater u (hten ▸ hu)
  omega

/-- After the sweep the latch holds its instant just if the deadline was over. -/
private theorem latched_now_iff (h : s.Sound) (hlater : ∀ u, s.swept tenantId = some u → u < s.desk.clock)
    (hr : s.desk.tickets.committed k = some r) (hten : r.tenantId = tenantId) (timer : SlaTimer) :
    latchOf (latched targets s.desk.clock r) timer = some s.desk.clock ↔ Missed targets tenantId s.desk k r timer := by
  rw [latchOf_latched, ← isDue_iff h hr hten]
  cases isDue targets s.desk.clock r timer with
  | true => simp
  | false => simpa using latchOf_ne_now h hlater hr hten timer

private theorem missed_tenant {timer : SlaTimer} (h : Missed targets tenantId d k r timer) : r.tenantId = tenantId := by
  cases timer <;> exact h.1

private theorem exactlyDue_of_swept {d' : Desk Unit} (h : s.Sound) (hlater : ∀ u, s.swept tenantId = some u → u < s.desk.clock)
    (hd : SweptRows targets ⟨tenantId, .system, s.desk.clock⟩ s.desk d'
      (breachesOf tenantId s.desk.clock (returned targets s.desk.clock (s.desk.rows () ⟨tenantId, .system, s.desk.clock⟩)))) :
    ExactlyDue targets tenantId s.desk d'
      (breachesOf tenantId s.desk.clock (returned targets s.desk.clock (s.desk.rows () ⟨tenantId, .system, s.desk.clock⟩))) := by
  refine ⟨fun k r hr => ?_,fun k hk => ?_,fun b => ?_,breachesOf_nodup (returned_nodup Desk.rows_nodup),hd.audited,?_,?_,?_,?_,?_⟩
  · by_cases hten : r.tenantId = tenantId
    · refine ⟨_,hd.seen k r ((sees_iff h.settled).mpr ⟨hr,hten⟩),rfl,fun timer => ⟨fun hm => ?_,fun hm => ?_⟩⟩
      · exact (latched_now_iff h hlater hr hten timer).mpr hm
      · rw [← isDue_iff h hr hten, Bool.not_eq_true] at hm
        rw [latchOf_latched, hm]
        rfl
    · refine ⟨r,?_,rfl,fun timer => ⟨fun hm => absurd (missed_tenant hm) hten,fun _ => rfl⟩⟩
      rw [hd.unseen k ?_, hr]
      exact Option.eq_none_iff_forall_ne_some.mpr fun r' hr' => by
        obtain ⟨hr',hten'⟩ := (sees_iff h.settled).mp hr'
        cases hr.symm.trans hr'
        exact hten hten'
  · rw [hd.unseen k ?_, hk]
    exact Option.eq_none_iff_forall_ne_some.mpr fun r' hr' => by
      rw [((sees_iff h.settled).mp hr').1] at hk
      cases hk
  · simp only [breachesOf, List.mem_flatMap, List.mem_map]
    constructor
    · rintro ⟨row,hrow,timer,htimer,rfl⟩
      obtain ⟨r,hr,_,hrow⟩ := mem_returned.mp hrow
      obtain ⟨hr,hten⟩ := (sees_iff h.settled).mp (Desk.mem_rows.mp hr)
      rw [mem_latchedTimers, hrow, latched_now_iff h hlater hr hten] at htimer
      exact ⟨rfl,rfl,r,hr,htimer⟩
    · rintro ⟨hten,hnow,r,hr,hm⟩
      have hmine := missed_tenant hm
      have hrow : (b.ticketId, r) ∈ s.desk.rows () ⟨tenantId, .system, s.desk.clock⟩ :=
        Desk.mem_rows.mpr ((sees_iff h.settled).mpr ⟨hr,hmine⟩)
      refine ⟨(b.ticketId, latched targets s.desk.clock r),?_,b.timer,?_,?_⟩
      · exact mem_returned.mpr ⟨r,hrow,⟨b.timer,(isDue_iff h hr hmine b.timer).mpr hm⟩,rfl⟩
      · exact mem_latchedTimers.mpr ((latched_now_iff h hlater hr hmine b.timer).mpr hm)
      · obtain ⟨bt,bk,btimer,bat⟩ := b
        cases hten
        cases hnow
        rfl
  · rw [hd.messages, Table.commit_of_settled h.settled.messages]
  · rw [hd.notes, Table.commit_of_settled h.settled.notes]
  · rw [hd.contacts, Table.commit_of_settled h.settled.contacts]
  · rw [hd.deliveries, Table.commit_of_settled h.settled.deliveries]
  · rw [hd.jobs, Table.commit_of_settled h.settled.jobs]

/-- In every run, a sweep later than the tenant's last one comes to an end, and there is one end it may come to:
it latches what is due, and that only. -/
theorem exactlyDue_of_run {acts : List Act} (hr : Run Chronicle.step Always Chronicle.initial acts s)
    (hlater : ∀ u, s.swept tenantId = some u → u < s.desk.clock) (targets : Targets) :
    ∃ d' breaches, (∃ turns, Chronicle.sweepNow s.desk tenantId targets turns = some (d', .ok breaches)) ∧
      (∀ turns p, Chronicle.sweepNow s.desk tenantId targets turns = some p → p = (d', .ok breaches)) ∧
      ExactlyDue targets tenantId s.desk d' breaches := by
  have hsound := Chronicle.sound_of_run hr
  have hwhole : ∀ k r, s.desk.tickets.committed k = some r → r.isWhole = true := fun k r hr =>
    (hsound.underway.accounted fun _ => false).whole k r (by simpa using hr)
  obtain ⟨d',n,halone,hswept⟩ :=
    alone_latchTenant tenantId targets ⟨tenantId, .system, s.desk.clock⟩ hsound.settled hwhole
  refine ⟨d',_,⟨n,halone⟩,fun turns p hp => ?_,exactlyDue_of_swept hsound hlater hswept⟩
  exact Script.alone_unique hp halone

/-- A Ticket that is put off with a Note after five milliseconds, and that nobody answers. -/
private def silence : List Act :=
  [.deed 1 .system .contact 9, .deed 1 (.user 4) (.create ⟨"printer", 0, .portal, none, none⟩) 9, .event (.tick 5),
    .deed 1 (.user 4) (.note 0 "who has the spare toner?") 9, .deed 1 (.user 4) (.transition [.ticketTransition] 0 .pending) 9,
    .event (.tick 20)]

theorem exactlyDue_of_silence : ∃ (s : Chronicle) (d' : Desk Unit), s.desk.clock = 20 ∧ ExactlyDue (fun _ => some ⟨10, 4⟩) 1 s.desk d'
    [⟨1, 0, .firstResponse, 20⟩, ⟨1, 0, .resolution, 20⟩] := by
  have hrun : (exec Chronicle.step Always Chronicle.initial silence).any (fun s =>
      s.desk.clock = 20 ∧ s.swept 1 = none ∧
      (Chronicle.sweepNow s.desk 1 (fun _ => some ⟨10, 4⟩) 9).any fun p =>
        p.2.toOption = some [⟨1, 0, .firstResponse, 20⟩, ⟨1, 0, .resolution, 20⟩]) = true := by decide +kernel
  obtain ⟨s,hr,hs⟩ := exec_any hrun
  simp only [decide_eq_true_eq] at hs
  obtain ⟨hclock,hswept,hnow⟩ := hs
  obtain ⟨p,hp,hbreaches⟩ := (Option.any_eq_true _ _).mp hnow
  obtain ⟨d',breaches,_,hunique,hdue⟩ := @exactlyDue_of_run s 1 _ hr (fun u hu => by simp [hswept] at hu) fun _ => some ⟨10, 4⟩
  cases hunique 9 p hp
  simp only [Except.toOption, Option.some.injEq, decide_eq_true_eq] at hbreaches
  subst hbreaches
  exact ⟨s,d',hclock,hdue⟩

end Sweep

end Nivara.Sla
