import Nivara.Sla.DwellSweep
import Nivara.Tickets.Activity
import Nivara.Tickets.Conversation
import Nivara.Tickets.Services
import Nivara.Transactions.Triples

/-! Dwell settles only silence. A sweep holds each Ticket that it moves from the moment it has seen that
nothing has happened on it for seven days, and its own move is an activity: the Ticket is not silent to
the other timer, nor to another sweep. -/
namespace Nivara.Sla
open Transactions Tickets

/-- The transactions that run beside one another: sweeps at any instants, and any transactions that
leave `last_activity_at` to the triggers. -/
inductive DwellRequest where
  | sweep (tenantId : Uuid) (now : Int)
  | other (work : Work Failure (List (Uuid × Ticket))) (leaves : work.script.Only Stmt.LeavesActivity)

/-- How long Prisma leaves a transaction open before it rolls it back. -/
def transactionTimeout : Int := 5000

section Requests
variable {ι : Type}

def DwellRequest.context (d : Desk ι) : DwellRequest → TenantContext
  | .sweep tenantId _ => ⟨tenantId, .system, d.clock⟩
  | .other work _ => (workService ι _ _).context d work

def DwellRequest.script : DwellRequest → Tx (List (Uuid × Ticket))
  | .sweep _ now => settleTenant now
  | .other work _ => work.script

def dwellService (ι : Type) : Service deskLanguage Failure (List (Uuid × Ticket)) TenantContext (Desk ι) DwellRequest where
  context := DwellRequest.context
  script := DwellRequest.script

variable [DecidableEq ι]

/-- The instant of a sweep is not ahead of the clock of the database, a transaction commits before it times
out, and the activities on a Ticket commit in the order of their stamps. -/
def dwellTerms (ι : Type) [DecidableEq ι] : Terms (deskEngine ι) (List (Uuid × Ticket)) DwellRequest where
  begin d req :=
    match req with
    | .sweep _ now => now ≤ d.clock
    | .other _ _ => true
  resume _ _ _ _ _ _ := true
  commit d i _ ctx _ := d.clock - ctx.now ≤ transactionTimeout ∧ d.inOrder i

end Requests

def moveEntry (timer : DwellTimer) (k : Uuid) (at' : Int) : AuditEntry :=
  ⟨.ticketTransitioned, k, some (.state timer.from'), some (.state timer.to'), none, at'⟩

variable {ι : Type} [DecidableEq ι] {d d' : Desk ι} {i j : ι} {ctx : TenantContext} {k : Uuid} {now : Int} {timer : DwellTimer}

/-- What the other transactions leave to transaction `i`. No Ticket comes to be silent by what they commit. -/
structure LeavesTo (i : ι) (d d' : Desk ι) : Prop where
  clock : d.clock ≤ d'.clock
  tickets : ∀ k, d'.tickets.own i k = d.tickets.own i k
  audit : ∀ n, d'.audit.own i n = d.audit.own i n
  held : ∀ k r, d.tickets.own i k = some r → d'.tickets.committed k = d.tickets.committed k
  fades : ∀ now k r' timer, now ≤ d.clock → timer ∈ timers → d'.tickets.committed k = some r' → dwells timer now r' = true →
    ∃ r, d.tickets.committed k = some r ∧ dwells timer now r = true ∧ r.tenantId = r'.tenantId

def StampedWith (i : ι) (ctx : TenantContext) (d : Desk ι) : Prop :=
  ∀ n e, d.audit.own i n = some e → recordsEdit e = true → e.createdAt = ctx.now

theorem dwells_iff {r : Ticket} : dwells timer now r = true ↔
    r.state = timer.from' ∧ r.lastActivityAt < now - ticketDwellWindow := by
  simp [dwells]

private theorem from_ne_opened (h : timer ∈ timers) : timer.from' ≠ .opened := by
  simp only [timers, List.mem_cons, List.not_mem_nil, or_false] at h
  rcases h with rfl | rfl <;> decide

private theorem fades_commit (h : Watched d) (hstamped : StampedWith i ctx d) (htime : d.clock - ctx.now ≤ transactionTimeout)
    (hord : d.inOrder i = true) {r' : Ticket} (hnow : now ≤ d.clock) (htimer : timer ∈ timers)
    (hr' : (d.commit i).tickets.committed k = some r') (hdwells : dwells timer now r' = true) :
    ∃ r, d.tickets.committed k = some r ∧ dwells timer now r = true ∧ r.tenantId = r'.tenantId := by
  rcases Table.visible_cases _ _ _ (show d.tickets.visible i k = some r' from hr') with ho | ⟨_,hc⟩
  · obtain ⟨hstate,hlast⟩ := dwells_iff.mp hdwells
    have hst := h.stands i k r' ho
    rcases hst.state with ⟨n,e,he,hedit,hk⟩ | hkept
    · -- an edit is younger than the window
      have hle := edit_of_inOrder h hord ho he hedit hk
      rw [hstamped n e he hedit] at hle
      simp only [transactionTimeout, ticketDwellWindow] at htime hlast
      omega
    · cases hc : d.tickets.committed k with
      | none =>
        rw [hc, hstate] at hkept
        exact absurd hkept (from_ne_opened htimer)
      | some r =>
        rw [hc, hstate] at hkept
        have hle := later_of_inOrder h hord ho hc
        refine ⟨r,rfl,dwells_iff.mpr ⟨hkept.symm,by omega⟩,(hst.tenant r hc).symm⟩
  · exact ⟨r',hc,hdwells,rfl⟩

/-- What a sweep has made of the silent Ticket `r` in moving it to `r'`. -/
structure MovedTo (d : Desk ι) (i : ι) (ctx : TenantContext) (now : Int) (k : Uuid) (timer : DwellTimer) (r r' : Ticket) : Prop where
  committed : d.tickets.committed k = some r
  tenant : r.tenantId = ctx.tenantId
  silent : dwells timer now r = true
  row : r' = { r with
    state := timer.to'
    slaPausedMs := r'.slaPausedMs
    slaPauseStartedAt := r'.slaPauseStartedAt
    lastActivityAt := ctx.now }
  logged : ∃ n, d.audit.own i n = some (moveEntry timer k ctx.now) ∧ ∀ m e, d.audit.own i m = some e → e.ticketId = k → m = n

structure Settling (d : Desk ι) (i : ι) (ctx : TenantContext) (now : Int) : Prop where
  instant : now ≤ ctx.now
  clock : ctx.now ≤ d.clock
  moved : ∀ k r', d.tickets.own i k = some r' → ∃ timer ∈ timers, ∃ r, MovedTo d i ctx now k timer r r'
  edits : ∀ n e, d.audit.own i n = some e → recordsEdit e = true

/-- The timer has found all the Tickets there are for it, but those that are still to be visited. -/
def Swept (todo : List Uuid) (d : Desk ι) (i : ι) (ctx : TenantContext) (now : Int) (timer : DwellTimer) : Prop :=
  ∀ k r, d.tickets.committed k = some r → r.tenantId = ctx.tenantId → dwells timer now r = true →
    k ∈ todo ∨ ∃ r', d.tickets.own i k = some r'

/-- What is to hold when a sweep commits: it has moved silent Tickets, and all there are. -/
def SweepEnds (i : ι) (req : DwellRequest) (ctx : TenantContext) (d : Desk ι) : Prop :=
  match req with
  | .sweep tenantId now => ctx.tenantId = tenantId ∧ Settling d i ctx now ∧ ∀ timer ∈ timers, Swept [] d i ctx now timer
  | .other _ _ => True

private theorem leavesTo_of_effect {q : Stmt} {c : Cursor} (he : Effect d i ctx q c d') (hclock : d'.clock = d.clock) (hj : j ≠ i) :
    LeavesTo j d d' := by
  have hcom := (committed_of_effect he).1
  refine ⟨Int.le_of_eq hclock.symm,(own_of_effect he hj).1,(own_logs_of_effect he hj).2,fun k _ _ => by rw [hcom],?_⟩
  intro now k r' timer _ _ hr' hd
  exact ⟨r',hcom ▸ hr',hd,rfl⟩

theorem clock_of_effect {q : Stmt} {c : Cursor} (he : Effect d i ctx q c d') : d'.clock = d.clock := by
  cases he with
  | aside hclock _ _ _ _ => exact hclock
  | updated _ _ _ hst => exact (Desk.stored_frame hst).2.2.2
  | inserted _ => rfl
  | posted _ _ hst => exact (Desk.stored_frame hst).2.2.2
  | noted _ _ hst => exact (Desk.stored_frame hst).2.2.2
  | recorded _ => rfl

/-- The log about Tickets that a turn of `i` adds is stamped with the beginning of `i`. -/
private theorem stamped_of_effect {q : Stmt} {c : Cursor} (h : StampedWith i ctx d) (he : Effect d i ctx q c d') :
    StampedWith i ctx d' := by
  have hstored : ∀ {k old new r d₁}, Stored d i ctx k old new d₁ r → StampedWith i ctx d₁ := by
    intro k old new r d₁ hst n e ho hedit
    obtain ⟨entries,henf,rfl⟩ := hst.enforced
    rcases Table.own_inserts_cases ho with ⟨_,hin⟩ | ho
    · rw [(enforced_of_ok henf).audit] at hin
      simp only [auditTrail, auditOf, List.mem_append] at hin
      rcases hin with (hin | hin) | hin
      all_goals
        split at hin
        · cases hin
        · rw [List.mem_singleton.mp hin]
    · exact h n e ho hedit
  cases he with
  | aside _ _ _ _ ha => exact fun n e ho hedit => h n e (by rwa [ha] at ho) hedit
  | updated _ _ _ hst => exact hstored hst
  | inserted _ => exact h
  | posted _ _ hst => exact (hstored hst :)
  | noted _ _ hst => exact (hstored hst :)
  | @recorded k entry t c _ =>
    intro n e ho hedit
    rcases Table.own_insert_cases _ _ _ _ ho with ⟨_,_,rfl⟩ | ho
    · cases entry <;> simp [recordsEdit, Recorded.entry] at hedit
    · exact h n e ho hedit

def dwellRegime : Regime (deskEngine ι) (List (Uuid × Ticket)) DwellRequest Event Desk.world where
  terms := dwellTerms ι
  inv := Watched
  rely := LeavesTo
  idle i d := (∀ k, d.tickets.own i k = none) ∧ ∀ n, d.audit.own i n = none
  post i req ctx _ d := SweepEnds i req ctx d
  mine := StampedWith
  inv_rollback d i h := watched_rollback h i
  inv_world d w d' h hw := watched_world h hw
  idle_commit d i := ⟨fun _ => Table.own_commit_self _ _ _,fun _ => Table.own_commit_self _ _ _⟩
  idle_rollback d i := ⟨fun _ => Table.own_rollback_self _ _ _,fun _ => Table.own_rollback_self _ _ _⟩
  idle_stable i d d' hr h := ⟨fun k => (hr.tickets k).trans (h.1 k),fun n => (hr.audit n).trans (h.2 n)⟩
  rely_refl i d := ⟨Int.le_refl _,fun _ => rfl,fun _ => rfl,fun _ _ _ => rfl,fun _ _ r' _ _ _ hr' hd => ⟨r',hr',hd,rfl⟩⟩
  rely_commit d i j req ctx a hj h hstamped hterm := by
    simp only [dwellTerms, decide_eq_true_eq] at hterm
    refine ⟨Int.le_refl _,fun _ => Table.own_commit_other _ _ _ _ hj,fun _ => Table.own_commit_other _ _ _ _ hj,fun k r hr => ?_,?_⟩
    · exact Table.visible_of_no_own _ _ _ (Table.own_exclusive _ _ _ _ hr (Ne.symm hj))
    · intro now k r' timer hnow htimer hr' hd
      exact fades_commit h hstamped hterm.1 hterm.2 hnow htimer hr' hd
  rely_rollback d i j hj _ := ⟨Int.le_refl _,fun _ => Table.own_rollback_other _ _ _ _ hj,fun _ => Table.own_rollback_other _ _ _ _ hj,
    fun _ _ _ => rfl,fun _ _ r' _ _ _ hr' hd => ⟨r',hr',hd,rfl⟩⟩
  rely_more d i j ctx q c d' c' hj _ ht := leavesTo_of_effect (effect_of_more ht) (clock_of_effect (effect_of_more ht)) hj
  rely_answer d i j ctx q c d' a hj _ ht := leavesTo_of_effect (effect_of_answer ht) (clock_of_effect (effect_of_answer ht)) hj
  rely_world j d w d' _ hw := by
    have hle := Desk.clock_of_world hw
    obtain ⟨clock,users,rfl⟩ := Desk.of_world hw
    exact ⟨hle,fun _ => rfl,fun _ => rfl,fun _ _ _ => rfl,fun _ _ r' _ _ _ hr' hd => ⟨r',hr',hd,rfl⟩⟩
  mine_idle d i ctx h n e he := by
    rw [h.2] at he
    cases he
  mine_stable i ctx d d' hr h n e he hedit := h n e ((hr.audit n).symm.trans he) hedit
  mine_more d i ctx q c d' c' _ h ht := stamped_of_effect h (effect_of_more ht)
  mine_answer d i ctx q c d' a _ h ht := stamped_of_effect h (effect_of_answer ht)

section Outline

private theorem MovedTo.leaves {r r' : Ticket} (h : MovedTo d i ctx now k timer r r') (ho : d.tickets.own i k = some r')
    (hr : LeavesTo i d d') : MovedTo d' i ctx now k timer r r' := by
  obtain ⟨n,hn,hone⟩ := h.logged
  refine ⟨(hr.held k r' ho).trans h.committed,h.tenant,h.silent,h.row,n,(hr.audit n).trans hn,fun m e he hk => ?_⟩
  exact hone m e ((hr.audit m).symm.trans he) hk

private theorem Settling.leaves (h : Settling d i ctx now) (hr : LeavesTo i d d') : Settling d' i ctx now := by
  refine ⟨h.instant,Int.le_trans h.clock hr.clock,fun k r' ho => ?_,fun n e he => h.edits n e ((hr.audit n).symm.trans he)⟩
  have ho := (hr.tickets k).symm.trans ho
  obtain ⟨timer,ht,r,hm⟩ := h.moved k r' ho
  exact ⟨timer,ht,r,hm.leaves ho hr⟩

private theorem Swept.leaves {todo : List Uuid} (h : Swept todo d i ctx now timer) (htimer : timer ∈ timers) (hnow : now ≤ d.clock)
    (hr : LeavesTo i d d') : Swept todo d' i ctx now timer := by
  intro k r' hr' htenant hdwells
  obtain ⟨r,hc,hd,ht⟩ := hr.fades now k r' timer hnow htimer hr' hdwells
  refine (h k r hc (ht.trans htenant) hd).imp_right fun ⟨r₁,ho⟩ => ?_
  exact ⟨r₁,(hr.tickets k).trans ho⟩

structure Sweeping (done : List DwellTimer) (d : Desk ι) (i : ι) (ctx : TenantContext) (now : Int) : Prop where
  settling : Settling d i ctx now
  swept : ∀ timer ∈ done, timer ∈ timers ∧ Swept [] d i ctx now timer

variable {done : List DwellTimer}

private theorem stable_sweeping : (dwellRegime (ι := ι)).Stable i fun d => Sweeping done d i ctx now := by
  intro d d' _ _ hr h
  refine ⟨h.settling.leaves hr,fun timer ht => ?_⟩
  obtain ⟨htimer,hswept⟩ := h.swept timer ht
  exact ⟨htimer,hswept.leaves htimer (Int.le_trans h.settling.instant h.settling.clock) hr⟩

private theorem from_ne_to (h : timer ∈ timers) : timer.from' ≠ timer.to' := by
  simp only [timers, List.mem_cons, List.not_mem_nil, or_false] at h
  rcases h with rfl | rfl <;> decide

private theorem move_of_enforced {old r : Ticket} {entries : List AuditEntry} (htimer : timer ∈ timers) (hstate : old.state = timer.from')
    (h : Enforced k ctx.now old { old with state := timer.to' } r entries) :
    entries = [moveEntry timer k ctx.now] ∧ r = { old with
      state := timer.to'
      slaPausedMs := r.slaPausedMs
      slaPauseStartedAt := r.slaPauseStartedAt
      lastActivityAt := ctx.now } := by
  have hne : ¬ old.state = timer.to' := by
    rw [hstate]
    exact from_ne_to htimer
  have hor : ∀ x : Option Int, setOnce x x = x := fun x => by cases x <;> rfl
  have hedit : isEdit old { old with state := timer.to' } = true := by simp [isEdit, Ne.symm hne]
  have hlast : r.lastActivityAt = ctx.now := by rw [h.lastActivity, if_pos hedit]
  have hrow : r = { old with
      state := timer.to'
      slaPausedMs := r.slaPausedMs
      slaPauseStartedAt := r.slaPauseStartedAt
      lastActivityAt := ctx.now } := by
    have hrest := h.rest
    rw [h.firstResponse, h.firstResponseBreached, h.resolutionBreached, hlast] at hrest
    simpa only [hor] using hrest
  refine ⟨?_,hrow⟩
  rw [h.audit, auditTrail, h.state, h.assignee, h.priority]
  simp [auditOf, from_ne_to htimer, moveEntry, hstate]

private theorem fresh_of_moved {timer' : DwellTimer} {r r' : Ticket} (h : Settling d i ctx now)
    (hm : MovedTo d i ctx now k timer' r r') : dwells timer now r' = false := by
  have hinstant := h.instant
  have hlast : r'.lastActivityAt = ctx.now := congrArg Ticket.lastActivityAt hm.row
  simp only [dwells, ticketDwellWindow, decide_eq_false_iff_not, not_and, hlast]
  omega

private theorem settling_stored {old r : Ticket} (hd : Watched d) (h : Settling d i ctx now) (htimer : timer ∈ timers)
    (hs : d.sees i ctx k = some old) (hdwells : dwells timer now old = true)
    (hst : Stored d i ctx k old { old with state := timer.to' } d' r) : Settling d' i ctx now := by
  obtain ⟨hvis,hreach⟩ := Desk.sees_some.mp hs
  have hno : d.tickets.own i k = none := by
    refine Option.eq_none_iff_forall_ne_some.mpr fun r₁ hr₁ => ?_
    cases (Table.visible_of_own _ _ _ hr₁).symm.trans hvis
    obtain ⟨timer',_,r₀,hm⟩ := h.moved k old hr₁
    rw [fresh_of_moved h hm] at hdwells
    cases hdwells
  have hcom : d.tickets.committed k = some old := (Table.visible_of_no_own _ _ _ hno).symm.trans hvis
  have hown := own_stored hs hst
  obtain ⟨entries,henf,rfl⟩ := hst.enforced
  obtain ⟨rfl,hrow⟩ := move_of_enforced htimer (dwells_iff.mp hdwells).1 (enforced_of_ok henf)
  -- nobody has written about a Ticket that he does not hold
  have hnew : ∀ m e, d.audit.own i m = some e → e.ticketId ≠ k := by
    rintro m e he rfl
    obtain ⟨r₁,hr₁⟩ := hd.audit.holds i m e he (h.edits m e he)
    rw [hno] at hr₁
    cases hr₁
  refine ⟨h.instant,h.clock,fun k' r' ho => ?_,fun n e he => ?_⟩
  · by_cases hk : k' = k
    · subst hk
      cases hown.symm.trans ho
      refine ⟨timer,htimer,old,hcom,(of_decide_eq_true hreach).1,hdwells,hrow,d.audit.size,Table.own_insert_self _ _ _,?_⟩
      intro m e he hek
      rcases Table.own_insert_cases _ _ _ _ he with ⟨hm,_,_⟩ | he
      · exact hm
      · exact absurd hek (hnew m e he)
    · have ho : d.tickets.own i k' = some r' := by
        simpa [Table.own_write_self, hk] using ho
      obtain ⟨timer',ht',r₀,hm⟩ := h.moved k' r' ho
      obtain ⟨n,hn,hone⟩ := hm.logged
      refine ⟨timer',ht',r₀,hm.committed,hm.tenant,hm.silent,hm.row,n,Table.own_insert_of_own _ _ _ _ hn,fun m e he hek => ?_⟩
      rcases Table.own_insert_cases _ _ _ _ he with ⟨_,_,rfl⟩ | he
      · exact absurd hek.symm hk
      · exact hone m e he hek
  · rcases Table.own_insert_cases _ _ _ _ he with ⟨_,_,rfl⟩ | he
    · rfl
    · exact h.edits n e he

/-- What is swept stays swept when a Ticket is stored, and the Ticket needs no visit any more. -/
private theorem swept_stored {old new r : Ticket} {todo : List Uuid} (hs : d.sees i ctx k = some old)
    (hst : Stored d i ctx k old new d' r) (h : Swept (k :: todo) d i ctx now timer) : Swept todo d' i ctx now timer := by
  have hown := own_stored hs hst
  obtain ⟨entries,_,rfl⟩ := hst.enforced
  intro k' r' hr' htenant hdwells
  rcases h k' r' hr' htenant hdwells with hin | ⟨r₁,ho⟩
  · rcases List.mem_cons.mp hin with rfl | hin
    · exact .inr ⟨r,hown⟩
    · exact .inl hin
  · exact .inr (Table.own_write_some ho)

private theorem Swept.mono {todo todo' : List Uuid} (h : Swept todo d i ctx now timer) (hsub : todo ⊆ todo') :
    Swept todo' d i ctx now timer :=
  fun k r hr htenant hdwells => (h k r hr htenant hdwells).imp_left (hsub ·)

section Update
variable {q : Stmt} {c : Cursor}

/-- The sweep is on the way through the Tickets that the statement has found for a timer. -/
structure Visiting (done : List DwellTimer) (timer : DwellTimer) (q : Stmt) (c : Cursor) (d : Desk ι) (i : ι) (ctx : TenantContext)
    (now : Int) : Prop where
  reached : (deskEngine ι).Reaches i ctx q c
  sweeping : Sweeping done d i ctx now
  swept : Swept (c.1.map Prod.fst) d i ctx now timer

private theorem stable_visiting (htimer : timer ∈ timers) :
    (dwellRegime (ι := ι)).Stable i fun d => Visiting done timer q c d i ctx now := by
  intro d d' hd hd' hr h
  have hclock := Int.le_trans h.sweeping.settling.instant h.sweeping.settling.clock
  exact ⟨h.reached,stable_sweeping d d' hd hd' hr h.sweeping,h.swept.leaves htimer hclock hr⟩

private def moving (timer : DwellTimer) (now : Int) (r : Ticket) : Option Ticket :=
  if dwells timer now r then some { r with state := timer.to' } else none

private def settling (timer : DwellTimer) (now : Int) : Stmt :=
  .updateTickets fun _ r => if dwells timer now r then some (moving timer now) else none

private theorem leavesActivity_settling : (settling timer now).LeavesActivity := by
  intro k r set old new hplan hset
  obtain ⟨_,hplan⟩ := Option.ite_none_right_eq_some.mp hplan
  cases hplan
  obtain ⟨_,hset⟩ := Option.ite_none_right_eq_some.mp hset
  cases hset
  exact ⟨rfl,rfl⟩

/-- The statement finds every silent Ticket that the sweep has not moved. -/
private theorem swept_start (hactor : ctx.actor = .system) :
    Swept ((Prod.fst (α := List _) ((deskEngine ι).start d i ctx (settling timer now))).map Prod.fst) d i ctx now timer := by
  intro k r hr htenant hdwells
  cases ho : d.tickets.own i k with
  | some r' => exact .inr ⟨r',rfl⟩
  | none =>
    left
    have hsees : d.sees i ctx k = some r := by
      refine Desk.sees_some.mpr ⟨(Table.visible_of_no_own _ _ _ ho).trans hr,?_⟩
      simp [Ticket.visibleTo, htenant, hactor, Actor.reaches]
    refine List.mem_map.mpr ⟨(k, moving timer now),List.mem_filterMap.mpr ⟨(k, r),Desk.mem_rows.mpr hsees,?_⟩,rfl⟩
    exact Option.map_eq_some_iff.mpr ⟨_,if_pos hdwells,rfl⟩

private theorem visiting_more {c' : Cursor} (hactor : ctx.actor = .system) (htimer : timer ∈ timers) (hd : Watched d)
    (h : Visiting done timer (settling timer now) c d i ctx now)
    (ht : (deskEngine ι).resume d i ctx (settling timer now) c = .more d' c') :
    Visiting done timer (settling timer now) c' d' i ctx now := by
  obtain ⟨k,set,rest,written,rfl,hf,hturn⟩ := Desk.updated_of_more ht
  obtain ⟨r₀,hplan⟩ := planned_of_reaches h.reached (k, set) (by simp)
  obtain ⟨_,hplan⟩ := Option.ite_none_right_eq_some.mp hplan
  cases hplan
  have hreached := h.reached.more ht
  rcases hturn with ⟨rfl,rfl⟩ | ⟨old,new,r,hs,hset,hst,rfl⟩
  · -- a Ticket that is passed over is not silent, or has been moved
    refine ⟨hreached,h.sweeping,fun k' r' hr' htenant hdwells => ?_⟩
    rcases h.swept k' r' hr' htenant hdwells with hin | hown
    · rcases List.mem_cons.mp hin with rfl | hin
      · cases ho : d'.tickets.own i k' with
        | some r₁ => exact .inr ⟨r₁,rfl⟩
        | none =>
          have hsees : d'.sees i ctx k' = some r' := by
            refine Desk.sees_some.mpr ⟨(Table.visible_of_no_own _ _ _ ho).trans hr',?_⟩
            simp [Ticket.visibleTo, htenant, hactor, Actor.reaches]
          obtain ⟨r,_,heq⟩ := Desk.stored_of_more ht hsees (if_pos hdwells)
          simp at heq
      · exact .inl hin
    · exact .inr hown
  · obtain ⟨hdwells,hset⟩ := Option.ite_none_right_eq_some.mp hset
    cases hset
    refine ⟨hreached,⟨settling_stored hd h.sweeping.settling htimer hs hdwells hst,fun timer' ht' => ?_⟩,swept_stored hs hst h.swept⟩
    obtain ⟨hin,hswept⟩ := h.sweeping.swept timer' ht'
    exact ⟨hin,swept_stored hs hst (hswept.mono (List.nil_subset _))⟩

private theorem leads_settling {req : DwellRequest} (hactor : ctx.actor = .system) (htimer : timer ∈ timers) :
    (dwellRegime (ι := ι)).Leads i req ctx (Tx.run (settling timer now) .sql) (fun d => Sweeping done d i ctx now)
      fun _ d => Sweeping (done ++ [timer]) d i ctx now := by
  refine Regime.leads_guarded (A := fun c d => Visiting done timer (settling timer now) c d i ctx now)
    (fun _ => stable_visiting htimer) (fun _ => stable_sweeping) ?_ ?_ ?_
  · intro d _ h
    exact ⟨.start d,h,swept_start hactor⟩
  · intro d c d' c' hd h _ ht
    exact ⟨watched_of_effect hd leavesActivity_settling h.reached (effect_of_more ht),visiting_more hactor htimer hd h ht⟩
  · intro d c d' rows hd h _ ht
    obtain ⟨rfl,rfl⟩ := Desk.updated_of_answer ht
    refine ⟨hd,h.sweeping.settling,fun timer' ht' => ?_⟩
    rcases List.mem_append.mp ht' with ht' | ht'
    · exact h.sweeping.swept timer' ht'
    · rw [List.mem_singleton.mp ht']
      exact ⟨htimer,h.swept⟩

end Update

private theorem leads_settle {req : DwellRequest} (hactor : ctx.actor = .system) (htimer : timer ∈ timers) :
    (dwellRegime (ι := ι)).Leads i req ctx (settle timer now) (fun d => Sweeping done d i ctx now)
      fun _ d => Sweeping (done ++ [timer]) d i ctx now := by
  unfold settle
  split
  · exact Regime.leads_fail
  · refine Regime.leads_bind (leads_settling hactor htimer) fun rows => ?_
    split
    · exact Regime.leads_done fun _ _ h => h
    · exact leads_findMany stable_sweeping (fun _ => stable_sweeping) fun _ _ h => h

private theorem leads_settleAll {req : DwellRequest} (hactor : ctx.actor = .system) (rest : List DwellTimer) (hrest : rest ⊆ timers) :
    (dwellRegime (ι := ι)).Leads i req ctx (settleAll now rest) (fun d => Sweeping done d i ctx now)
      fun _ d => Sweeping (done ++ rest) d i ctx now := by
  induction rest generalizing done with
  | nil =>
    refine Regime.leads_done fun d _ h => ?_
    rw [List.append_nil]
    exact h
  | cons timer rest ih =>
    obtain ⟨htimer,hrest⟩ := List.cons_subset.mp hrest
    have hlater : (dwellRegime (ι := ι)).Leads i req ctx (settleAll now rest) (fun d => Sweeping (done ++ [timer]) d i ctx now)
        fun _ d => Sweeping (done ++ [timer] ++ rest) d i ctx now := ih hrest
    rw [List.append_assoc] at hlater
    refine Regime.leads_bind (leads_settle hactor htimer) fun moved => ?_
    exact Regime.leads_bind hlater fun later => Regime.leads_done fun _ _ h => h

/-- The outline of every request, from the database it begins on. -/
private theorem begins_dwell : (dwellRegime (ι := ι)).Begins (dwellService ι) := by
  intro i d req hidle hterm
  cases req with
  | sweep tenantId now =>
    have hnow : now ≤ d.clock := of_decide_eq_true hterm
    refine ⟨fun d' => Sweeping [] d' i ⟨tenantId, .system, d.clock⟩ now,stable_sweeping,?_,?_⟩
    · refine ⟨⟨hnow,Int.le_refl _,fun k r' ho => ?_,fun n e he => ?_⟩,fun _ ht => (by cases ht)⟩
      · rw [hidle.1] at ho
        cases ho
      · rw [hidle.2] at he
        cases he
    · refine (leads_settleAll rfl timers (List.Subset.refl _)).safe fun moved d' hd' h hterm => ?_
      simp only [dwellRegime, dwellTerms, decide_eq_true_eq] at hterm
      exact ⟨watched_commit hd' hterm.2,rfl,h.settling,fun timer ht => (h.swept timer ht).2⟩
  | other work leaves =>
    refine ⟨fun _ => True,Regime.stable_const _,trivial,Regime.safe_of_only (Regime.stable_const _) ?_ ?_ ?_ leaves⟩
    · intro q d c d' c' hq hreach hd _ ht
      exact ⟨watched_of_effect hd hq hreach (effect_of_more ht),trivial⟩
    · intro q d c d' a hq hreach hd _ ht
      exact ⟨watched_of_effect hd hq hreach (effect_of_answer ht),trivial⟩
    · intro a d hd _ hterm
      simp only [dwellRegime, dwellTerms, decide_eq_true_eq] at hterm
      exact ⟨watched_commit hd hterm.2,trivial⟩

end Outline

def NewRow (d d' : Desk ι) (k : Uuid) (n : Nat) (e : AuditEntry) : Prop :=
  d.audit.committed n = none ∧ d'.audit.committed n = some e ∧ e.ticketId = k

def Rests (d d' : Desk ι) (k : Uuid) : Prop :=
  d'.tickets.committed k = d.tickets.committed k ∧ ∀ n e, ¬ NewRow d d' k n e

/-- Ticket `k` has gone one step of the timers, and one row of the log tells of it; all that had been committed
about the Ticket was more than seven days old at `now`. -/
def MovesOnce (now : Int) (d d' : Desk ι) (k : Uuid) : Prop :=
  ∃ timer ∈ timers, ∃ r r', d.tickets.committed k = some r ∧ d'.tickets.committed k = some r' ∧ r.state = timer.from' ∧
    (r' = { r with
      state := timer.to'
      slaPausedMs := r'.slaPausedMs
      slaPauseStartedAt := r'.slaPauseStartedAt
      lastActivityAt := r'.lastActivityAt }) ∧
    (∀ t ∈ d.committedStamps k, t < now - ticketDwellWindow) ∧
    ∃ n, NewRow d d' k n (moveEntry timer k r'.lastActivityAt) ∧ ∀ m e, NewRow d d' k m e → m = n

abbrev DwellServer (ι : Type) [DecidableEq ι] :=
  Server deskLanguage Failure (List (Uuid × Ticket)) ι TenantContext (Desk ι) (deskEngine ι).Cursor DwellRequest

abbrev dwellStep (ι : Type) [DecidableEq ι] : DwellServer ι → Move ι DwellRequest Event → Option (DwellServer ι) :=
  Server.step (deskEngine ι) (dwellService ι) Desk.world

abbrev dwellOk (ι : Type) [DecidableEq ι] (s : DwellServer ι) (m : Move ι DwellRequest Event) : Prop :=
  (dwellTerms ι).admits s m = true

section Runs
variable {s s' t : DwellServer ι} {m : Move ι DwellRequest Event} {acts : List (Move ι DwellRequest Event)} {tenantId : Uuid}

private theorem clock_of_step (hs : dwellStep ι s m = some s') : s.db.clock ≤ s'.db.clock := by
  rcases commit_of_step (U := fun d d' => d.clock ≤ d'.clock) (fun _ => Int.le_refl _) (fun _ _ => Int.le_refl _)
    (fun _ _ _ _ _ _ _ ht => Int.le_of_eq (clock_of_effect (effect_of_more ht)).symm)
    (fun _ _ _ _ _ _ _ ht => Int.le_of_eq (clock_of_effect (effect_of_answer ht)).symm) (fun _ _ _ => Desk.clock_of_world) hs
    with ⟨_,hle⟩ | ⟨_,_,_,_,_,_,_,hdb,_⟩
  · exact hle
  · rw [hdb]
    exact Int.le_refl _

private theorem covered_of_steps (h : (dwellRegime (ι := ι)).Covered s)
    (hr : Run (dwellStep ι) (dwellOk ι) s acts t) : (dwellRegime (ι := ι)).Covered t :=
  hr.invariant h fun _ _ _ ht hok hs => Regime.covered_begun begins_dwell ht hok hs

private theorem covered_initial : (dwellRegime (ι := ι)).Covered (Server.initial Desk.empty : DwellServer ι) :=
  ⟨watched_empty,fun _ _ => ⟨fun _ => rfl,fun _ => rfl⟩,fun _ _ hx => (by cases hx)⟩

def NothingLeft (tenantId : Uuid) (now : Int) (d : Desk ι) : Prop :=
  now ≤ d.clock ∧ ∀ timer ∈ timers, ∀ k r, d.tickets.committed k = some r → r.tenantId = tenantId → dwells timer now r = false

/-- A Ticket that a sweep has not moved rests when the sweep commits. -/
private theorem rests_commit (hd : Watched d) (h : Settling d i ctx now) (ho : d.tickets.own i k = none) : Rests d (d.commit i) k := by
  refine ⟨Table.visible_of_no_own _ _ _ ho,?_⟩
  rintro n e ⟨hnone,hsome,rfl⟩
  rcases Table.visible_cases _ _ _ (show d.audit.visible i n = some e from hsome) with he | ⟨_,hc⟩
  · obtain ⟨r,hr⟩ := hd.audit.holds i n e he (h.edits n e he)
    rw [ho] at hr
    cases hr
  · rw [hnone] at hc
    cases hc

private theorem movesOnce_commit {r' : Ticket} (hd : Watched d) (h : Settling d i ctx now) (ho : d.tickets.own i k = some r') :
    MovesOnce now d (d.commit i) k := by
  obtain ⟨timer,htimer,r,hm⟩ := h.moved k r' ho
  obtain ⟨hstate,hlast⟩ := dwells_iff.mp hm.silent
  have hat : r'.lastActivityAt = ctx.now := congrArg Ticket.lastActivityAt hm.row
  obtain ⟨n,hn,hone⟩ := hm.logged
  refine ⟨timer,htimer,r,r',hm.committed,Table.visible_of_own _ _ _ ho,hstate,?_,fun t ht => ?_,n,?_,?_⟩
  · rw [hat]
    exact hm.row
  · exact Int.lt_of_le_of_lt (hd.latest k r t hm.committed ht) hlast
  · rw [hat]
    exact ⟨hd.audit.insertOnly n _ ((Table.own_eq_some_iff _ _ _).mp hn),Table.visible_of_own _ _ _ hn,rfl⟩
  · rintro m e ⟨hnone,hsome,hk⟩
    rcases Table.visible_cases _ _ _ (show d.audit.visible i m = some e from hsome) with he | ⟨_,hc⟩
    · exact hone m e he hk
    · rw [hnone] at hc
      cases hc

private theorem nothingLeft_commit (h : Settling d i ctx now) (hswept : ∀ timer ∈ timers, Swept [] d i ctx now timer) :
    NothingLeft ctx.tenantId now (d.commit i) := by
  refine ⟨Int.le_trans h.instant h.clock,fun timer htimer k r hr htenant => ?_⟩
  by_contra hdwells
  rw [Bool.not_eq_false] at hdwells
  rcases Table.visible_cases _ _ _ (show d.tickets.visible i k = some r from hr) with ho | ⟨ho,hc⟩
  · obtain ⟨_,_,_,hm⟩ := h.moved k r ho
    rw [fresh_of_moved h hm] at hdwells
    cases hdwells
  · rcases hswept timer htimer k r hc htenant hdwells with hin | ⟨_,ho'⟩
    · cases hin
    · rw [ho] at ho'
      cases ho'

private theorem nothingLeft_step (hcovered : (dwellRegime (ι := ι)).Covered s) (h : NothingLeft tenantId now s.db)
    (hok : dwellOk ι s m) (hs : dwellStep ι s m = some s') : NothingLeft tenantId now s'.db := by
  refine ⟨Int.le_trans h.1 (clock_of_step hs),fun timer htimer k r' hr' htenant => ?_⟩
  rcases committed_of_step hs with ⟨_,hsame⟩ | ⟨i,x,a,rfl,hx,hscript,hl,hdb,_⟩
  · exact h.2 timer htimer k r' (hsame.tickets ▸ hr') htenant
  · by_contra hdwells
    rw [Bool.not_eq_false] at hdwells
    rw [hdb] at hr'
    have hterm := Terms.commit_of_admits hok hx hscript hl
    simp only [dwellTerms, decide_eq_true_eq] at hterm
    obtain ⟨r,hr,hd,ht⟩ := fades_commit hcovered.1 (hcovered.2.2 i x hx).2.2 hterm.1 hterm.2 h.1 htimer hr' hdwells
    rw [h.2 timer htimer k r hr (ht.trans htenant)] at hd
    cases hd

/-- A sweep of the tenant at `now`, which is transaction `i`, takes the step from `s` to `s'`. -/
structure SweepTakes (s : DwellServer ι) (i : ι) (tenantId : Uuid) (now : Int) (s' : DwellServer ι) : Prop where
  sweeps : ∃ x, s.sessions i = some x ∧ x.req = .sweep tenantId now
  admitted : dwellOk ι s (.advance i)
  taken : dwellStep ι s (.advance i) = some s'

/-- A step of a sweep leaves a Ticket alone or moves it once, and when it has committed nothing is left. -/
private theorem sweep_step (hcovered : (dwellRegime (ι := ι)).Covered s) (h : SweepTakes s i tenantId now s') :
    (s'.answers = s.answers ∧ ∀ k, Rests s.db s'.db k) ∨
      NothingLeft tenantId now s'.db ∧ (∀ k, Rests s.db s'.db k ∨ MovesOnce now s.db s'.db k) ∧
        (NothingLeft tenantId now s.db → ∀ k, Rests s.db s'.db k) := by
  obtain ⟨⟨x,hx,hreq⟩,hok,hs⟩ := h
  rcases committed_of_step hs with ⟨hans,hsame⟩ | ⟨_,y,a,hm,hy,hscript,hl,hdb,_⟩
  · refine .inl ⟨hans,fun k => ⟨by rw [hsame.tickets],?_⟩⟩
    rintro n e ⟨hnone,hsome,_⟩
    rw [hsame.audit, hnone] at hsome
    cases hsome
  · cases hm
    cases hx.symm.trans hy
    have hpost : SweepEnds i x.req x.ctx s.db := Regime.post_of_commit hcovered hok hx hscript hl
    rw [hreq] at hpost
    obtain ⟨rfl,hsettling,hswept⟩ := hpost
    rw [hdb]
    refine .inr ⟨nothingLeft_commit hsettling hswept,fun k => ?_,fun hleft k => ?_⟩
    · cases ho : s.db.tickets.own i k with
      | none => exact .inl (rests_commit hcovered.1 hsettling ho)
      | some r' => exact .inr (movesOnce_commit hcovered.1 hsettling ho)
    · refine rests_commit hcovered.1 hsettling (Option.eq_none_iff_forall_ne_some.mpr fun r' ho => ?_)
      obtain ⟨timer,htimer,r,hm⟩ := hsettling.moved k r' ho
      have hsilent := hm.silent
      rw [hleft.2 timer htimer k r hm.committed hm.tenant] at hsilent
      cases hsilent

/-- In every run, a step of a sweep leaves a Ticket alone or moves it once, out of silence; and once the sweep
has committed, no sweep of the same instant moves anything. -/
theorem settlesSilence_of_run (hr : Run (dwellStep ι) (dwellOk ι) (Server.initial Desk.empty) acts s)
    (hsweep : SweepTakes s i tenantId now s') :
    (∀ k, Rests s.db s'.db k ∨ MovesOnce now s.db s'.db k) ∧
      (s'.answers ≠ s.answers → ∀ acts' t t' j, Run (dwellStep ι) (dwellOk ι) s' acts' t → SweepTakes t j tenantId now t' →
        ∀ k, Rests t.db t'.db k) := by
  have hcovered := covered_of_steps covered_initial hr
  rcases sweep_step hcovered hsweep with ⟨hans,hrests⟩ | ⟨hleft,hmoves,_⟩
  · exact ⟨fun k => .inl (hrests k),fun hne => absurd hans hne⟩
  · refine ⟨hmoves,fun _ acts' t t' j hr' hsecond => ?_⟩
    have hcovered' := Regime.covered_begun begins_dwell hcovered hsweep.admitted hsweep.taken
    obtain ⟨ht,hleft'⟩ := hr'.invariant (I := fun u => (dwellRegime (ι := ι)).Covered u ∧ NothingLeft tenantId now u.db)
      ⟨hcovered',hleft⟩ fun u m v hu hok hs => by
      exact ⟨Regime.covered_begun begins_dwell hu.1 hok hs,nothingLeft_step hu.1 hu.2 hok hs⟩
    rcases sweep_step ht hsecond with ⟨_,hrests⟩ | ⟨_,_,hrests⟩
    · exact hrests
    · exact hrests hleft'

end Runs

/-- What the services do leaves `last_activity_at` to the triggers. -/
theorem leavesActivity_of_plain {at' : Int} {q : Stmt} (h : q.Plain at') : q.LeavesActivity := by
  cases q with
  | updateTickets plan =>
    intro k r set old new hplan hset
    rw [h k r set old new hplan hset]
    exact ⟨rfl,rfl⟩
  | insertTicket row =>
    obtain ⟨_,_,_,_,_,_,rfl⟩ := h
    rfl
  | _ => trivial

private def waiting : DwellRequest :=
  .other ⟨1, .system, do
    let c ← Tx.run .insertContact .sql
    let ticket ← createIn 1 ⟨"printer", c, .portal, none, none⟩ 0
    let moved ← transitionIn [.ticketTransition] ticket.1 .pending 0
    pure [moved]⟩ (Script.Only.mono
      ((Script.only_query trivial).bind fun _ => plain_repertoire.createIn.bind fun _ => plain_repertoire.transitionIn.bind fun _ => trivial)
      fun q (h : q.Plain 0) => leavesActivity_of_plain h)

private def later : Int := 691200000

private def sweeping : List (Move Bool DwellRequest Event) :=
  Move.begin true waiting :: List.replicate 14 (Move.advance true) ++ Move.world (.tick later) :: .begin true (.sweep 1 later) ::
    List.replicate 7 (Move.advance true)

private def isSweep (x : Session deskLanguage Failure (List (Uuid × Ticket)) TenantContext Cursor DwellRequest) : Bool :=
  match x.req with
  | .sweep tenantId now => tenantId = 1 ∧ now = later
  | .other _ _ => false

private theorem req_of_isSweep {x : Session deskLanguage Failure (List (Uuid × Ticket)) TenantContext Cursor DwellRequest}
    (h : isSweep x = true) : x.req = .sweep 1 later := by
  unfold isSweep at h
  split at h
  · rename_i tenantId now hreq
    obtain ⟨rfl,rfl⟩ := of_decide_eq_true h
    exact hreq
  · cases h

theorem settlesSilence_of_waiting : ∃ s s' : DwellServer Bool, s'.answers ≠ s.answers ∧
    (s'.db.tickets.committed 0).map Ticket.state = some .resolved ∧ MovesOnce later s.db s'.db 0 ∧
    ∀ acts t t' j, Run (dwellStep Bool) (dwellOk Bool) s' acts t → SweepTakes t j 1 later t' → ∀ k, Rests t.db t'.db k := by
  have hrun : (exec (dwellStep Bool) (dwellOk Bool) (Server.initial Desk.empty) sweeping).any (fun s =>
      (s.sessions true).any isSweep ∧ dwellOk Bool s (.advance true) ∧
        (s.db.tickets.committed 0).map Ticket.state = some .pending ∧ s.answers.length = 1 ∧
        (dwellStep Bool s (.advance true)).any fun s' =>
          s'.answers.length = 2 ∧ (s'.db.tickets.committed 0).map Ticket.state = some .resolved) = true := by
    decide +kernel
  obtain ⟨s,hs,hp⟩ := exec_any hrun
  obtain ⟨hx,hok,hbefore,hone,hp⟩ := of_decide_eq_true hp
  obtain ⟨s',hstep,hp⟩ := (Option.any_eq_true _ _).mp hp
  obtain ⟨htwo,hafter⟩ := of_decide_eq_true hp
  obtain ⟨x,hx,hreq⟩ := (Option.any_eq_true _ _).mp hx
  have hsweep : SweepTakes s true 1 later s' := ⟨⟨x,hx,req_of_isSweep hreq⟩,hok,hstep⟩
  obtain ⟨hmoves,hsecond⟩ := settlesSilence_of_run hs hsweep
  have hans : s'.answers ≠ s.answers := by
    intro heq
    rw [heq, hone] at htwo
    cases htwo
  refine ⟨s,s',hans,hafter,(hmoves 0).resolve_left fun hrests => ?_,hsecond hans⟩
  rw [hrests.1, hbefore] at hafter
  cases hafter

end Nivara.Sla
