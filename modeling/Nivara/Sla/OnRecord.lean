import Nivara.Sla.ExactlyDue
import Nivara.Tickets.ReopenOnly

/-! Deadlines that are missed and not recorded. The sweep judges a Ticket as it finds it, so that an
answer or a resolution that comes too late takes the missed deadline out of its sight. -/
namespace Nivara.Sla
open Transactions Tickets

/-- The table `sla_target` with its constraint. Nobody has the privilege to write to it. -/
structure SlaMatrix where
  targets : Uuid → Targets
  positive : ∀ tenantId priority target, targets tenantId priority = some target →
    0 < target.firstResponseMs ∧ 0 < target.resolutionMs

/-- What happens in a serial history. A visit is what a sweep for breaches does in one tenant. -/
inductive Happening where
  | event (w : Tickets.Event)
  | deed (tenantId : Uuid) (actor : Actor) (deed : Deed) (turns : Nat)
  | visit (tenantId : Uuid) (turns : Nat)

def happen (matrix : SlaMatrix) (d : Desk Unit) : Happening → Option (Desk Unit)
  | .event w => d.world w
  | .deed tenantId actor deed turns =>
    ((deed.script tenantId d.clock).alone (deskEngine Unit) () ⟨tenantId, deed.armed actor, d.clock⟩ turns d).map Prod.fst
  | .visit tenantId turns => (Chronicle.sweepNow d tenantId (matrix.targets tenantId) turns).map Prod.fst

/-- The deed ends what the timer of Ticket `k` measures: it answers the customer, or resolves the Ticket. -/
def Deed.ends (ctx : TenantContext) (k : Uuid) (r : Ticket) : Deed → SlaTimer → Bool
  | .post id body, .firstResponse => id = k ∧ r.visibleTo ctx ∧ isResponse ⟨ctx.tenantId, id, body, ctx.actor, ctx.now⟩
  | .transition _ id to', .resolution => id = k ∧ r.visibleTo ctx ∧ to' = .resolved
  | .settle, .resolution => r.visibleTo ctx ∧ dwells ⟨.pending, .resolved⟩ ctx.now r
  | _, _ => false

/-- No deed ends what a timer of Ticket `k` measures when the deadline is over and not latched. -/
def inTime (matrix : SlaMatrix) (k : Uuid) (d : Desk Unit) : Happening → Bool
  | .deed tenantId actor deed _ => (d.tickets.committed k).all fun r => [SlaTimer.firstResponse, .resolution].all fun timer =>
      !(deed.ends ⟨tenantId, deed.armed actor, d.clock⟩ k r timer && isDue (matrix.targets r.tenantId) d.clock r timer)
  | _ => true

/-- The states that a Ticket is in at the instant `t`: the one it comes with, and those it is moved to. -/
def statesAt (log : List (Int × TicketState)) (t : Int) : List TicketState :=
  stateAt log (t - 1) :: (log.filter (·.1 = t)).map Prod.snd

/-- The first answer came after the target, or there is none and the target is over. -/
def LateResponse (target : SlaTarget) (d : Desk Unit) (k : Uuid) (r : Ticket) : Prop :=
  target.firstResponseMs < ((responsesTo k (conversation d)).head?.map Entry.createdAt).getD d.clock - r.createdAt

instance (target : SlaTarget) (d : Desk Unit) (k : Uuid) (r : Ticket) : Decidable (LateResponse target d k r) :=
  inferInstanceAs (Decidable (_ < _))

/-- At some instant the Ticket was unresolved and had been running for more than the target. -/
def LateResolution (target : SlaTarget) (d : Desk Unit) (k : Uuid) (r : Ticket) : Prop :=
  ∃ t, r.createdAt ≤ t ∧ t ≤ d.clock ∧ (∃ s ∈ statesAt (movesOf k (auditLog d)) t, s ≠ .resolved ∧ s ≠ .closed) ∧
    target.resolutionMs < runningMs r.createdAt (movesOf k (auditLog d)) t

/-- The missed deadlines of Ticket `k` are recorded. -/
structure OnRecord (target : SlaTarget) (d : Desk Unit) (k : Uuid) (r : Ticket) : Prop where
  firstResponse : LateResponse target d k r → r.firstResponseBreachedAt.isSome = true
  resolution : LateResolution target d k r → r.resolutionBreachedAt.isSome = true

def SamePriority (k : Uuid) (log : List AuditEntry) : Prop :=
  ∀ e ∈ log, e.ticketId = k → e.action ≠ .ticketPriorityChanged

/-- What the columns of a Ticket keep to as long as its deadlines are not passed unseen. -/
structure Punctual (matrix : SlaMatrix) (now : Int) (r : Ticket) : Prop where
  priority : r.priority = .normal
  answered : ∀ t target, r.firstResponseAt = some t → r.firstResponseBreachedAt = none →
    matrix.targets r.tenantId r.priority = some target → t - r.createdAt ≤ target.firstResponseMs
  resolved : ∀ target, r.state = .resolved ∨ r.state = .closed → r.resolutionBreachedAt = none →
    matrix.targets r.tenantId r.priority = some target → r.activeElapsedMs now ≤ target.resolutionMs

/-- What a transaction of the instant `now` may have made of a Ticket that it found as `r₀`. -/
structure Came (now : Int) (r₀ r : Ticket) : Prop where
  evolves : Evolves r₀ r
  contactId : r.contactId = r₀.contactId
  createdAt : r.createdAt = r₀.createdAt
  active : r.activeElapsedMs now = r₀.activeElapsedMs now
  rested : r.lastActivityAt = now ∨ (r.state = r₀.state ∧ r.lastActivityAt = r₀.lastActivityAt)

section Rows
variable {matrix : SlaMatrix} {now : Int} {k : Uuid} {r₀ old new r : Ticket} {entries log : List AuditEntry} {target : SlaTarget}

theorem Came.refl (now : Int) (r : Ticket) : Came now r r := ⟨.refl r,rfl,rfl,rfl,.inr ⟨rfl,rfl⟩⟩

private structure Given (now : Int) (old new : Ticket) : Prop where
  contactId : new.contactId = old.contactId
  createdAt : new.createdAt = old.createdAt
  activity : new.lastActivityAt = old.lastActivityAt ∨ new.lastActivityAt = now

private theorem Came.step (h : Came now r₀ old) (hg : Given now old new) (he : Enforced k now old new r entries)
    (hev : Evolves old r) (hactive : r.activeElapsedMs now = old.activeElapsedMs now) : Came now r₀ r where
  evolves := h.evolves.trans _ _ _ hev
  contactId := ((congrArg Ticket.contactId he.rest).trans hg.contactId).trans h.contactId
  createdAt := ((congrArg Ticket.createdAt he.rest).trans hg.createdAt).trans h.createdAt
  active := hactive.trans h.active
  rested := by
    rw [he.lastActivity]
    split
    · exact .inl rfl
    · rename_i hedit
      simp only [isEdit, decide_eq_true_eq, not_or, ne_eq, not_not] at hedit
      rw [he.state, hedit.1]
      rcases hg.activity with hact | hact
      · rw [hact]
        exact h.rested
      · exact .inl hact

private theorem priority_of_samePriority (h : SamePriority k (log ++ auditTrail k now old r)) : r.priority = old.priority := by
  by_contra hne
  refine h ⟨.ticketPriorityChanged, k, some (.priority old.priority), some (.priority r.priority), none, now⟩ ?_ rfl rfl
  have hdiff : ¬ old.priority = r.priority := fun heq => hne heq.symm
  simp [auditTrail, auditOf, hdiff]

private theorem SamePriority.of_append {rows : List AuditEntry} (h : SamePriority k (log ++ rows)) : SamePriority k log :=
  fun e he => h e (List.mem_append_left _ he)

private theorem none_of_setOnce {a b : Option Int} (h : setOnce a b = none) : a = none ∧ b = none := by
  cases a with
  | none => exact ⟨rfl,h⟩
  | some _ => cases h

/-- A stored version of Ticket `k`: what is to be shown is that a first answer and a resolution are in time. -/
private theorem Punctual.step (h : Punctual matrix now old) (hcreated : new.createdAt = old.createdAt)
    (he : Enforced k now old new r entries) (hten : r.tenantId = old.tenantId) (hprio : r.priority = old.priority)
    (hactive : r.activeElapsedMs now = old.activeElapsedMs now)
    (hanswer : ∀ t target, old.firstResponseAt = none → old.firstResponseBreachedAt = none → new.firstResponseAt = some t →
      matrix.targets old.tenantId old.priority = some target → t - old.createdAt ≤ target.firstResponseMs)
    (hresolve : ∀ target, new.state = .resolved → old.state ≠ .resolved → old.resolutionBreachedAt = none →
      matrix.targets old.tenantId old.priority = some target → old.activeElapsedMs now ≤ target.resolutionMs) :
    Punctual matrix now r where
  priority := hprio.trans h.priority
  answered t target hfirst hlatch htarget := by
    rw [hten, hprio] at htarget
    rw [he.firstResponseBreached] at hlatch
    rw [he.firstResponse] at hfirst
    have hborn : r.createdAt = old.createdAt := (congrArg Ticket.createdAt he.rest).trans hcreated
    rw [hborn]
    cases hold : old.firstResponseAt with
    | some u =>
      rw [hold] at hfirst
      exact h.answered t target (hold.trans hfirst) (none_of_setOnce hlatch).1 htarget
    | none =>
      rw [hold] at hfirst
      exact hanswer t target hold (none_of_setOnce hlatch).1 hfirst htarget
  resolved target hstate hlatch htarget := by
    rw [hten, hprio] at htarget
    rw [he.resolutionBreached] at hlatch
    rw [hactive]
    by_cases hdone : old.state = .resolved ∨ old.state = .closed
    · exact h.resolved target hdone (none_of_setOnce hlatch).1 htarget
    · have hne : r.state ≠ old.state := fun heq => hdone (heq ▸ hstate)
      have hlegal := he.legal.resolve_left hne
      -- only a resolved Ticket is closed
      have hres : r.state = .resolved := by
        rcases hstate with hs | hs
        · exact hs
        · rw [hs] at hlegal
          cases hold : old.state <;> simp [hold, ticketTransitionIsLegal] at hlegal
          exact absurd (.inl hold) hdone
      exact hresolve target (he.state ▸ hres) (fun heq => hdone (.inl heq)) (none_of_setOnce hlatch).1 htarget

private theorem punctual_fresh (hprio : r.priority = .normal) (hstate : r.state = .opened) (hfirst : r.firstResponseAt = none) :
    Punctual matrix now r where
  priority := hprio
  answered t target h := by rw [hfirst] at h; cases h
  resolved target h := by rw [hstate] at h; rcases h with h | h <;> cases h

private theorem Punctual.later {later last : Int} {moves : List (Int × TicketState)} (h : Punctual matrix now r)
    (hh : History k moves last r) : Punctual matrix later r where
  priority := h.priority
  answered := h.answered
  resolved target hstate hlatch htarget := by
    have hstop : r.slaPauseStartedAt.isSome = true := by
      rw [hh.paused]
      rcases hstate with hs | hs <;> rw [hs] <;> rfl
    obtain ⟨started,hstarted⟩ := Option.isSome_iff_exists.mp hstop
    rw [Ticket.activeElapsedMs_stopped hstarted later now]
    exact h.resolved target hstate hlatch htarget

end Rows

/-- A statement of a transaction that began on `b₀`: it ends nothing about Ticket `k` that is overdue. -/
structure Prompt (matrix : SlaMatrix) (k : Uuid) (ctx : TenantContext) (b₀ : Register) (q : Stmt) : Prop where
  timely : Timely True ctx.now q
  answers : ∀ body t r₀, q = .insertMessage k body t → isResponse ⟨ctx.tenantId, k, body, ctx.actor, t⟩ = true →
    b₀.tickets k = some r₀ → r₀.visibleTo ctx = true → isDue (matrix.targets r₀.tenantId) ctx.now r₀ .firstResponse = false
  resolves : ∀ plan r set old new r₀, q = .updateTickets plan → plan k r = some set → set old = some new →
    new.state = .resolved → old.state ≠ .resolved → b₀.tickets k = some r₀ → r₀.visibleTo ctx = true → Came ctx.now r₀ old →
    isDue (matrix.targets r₀.tenantId) ctx.now r₀ .resolution = false

private structure Midway (matrix : SlaMatrix) (k : Uuid) (now : Int) (b₀ : Register) (d : Desk Unit) : Prop where
  underway : Underway (fun _ => some now) now d
  start : d.register (fun _ => false) = b₀
  log : ∃ rows, (d.register fun _ => true).audit = b₀.audit ++ rows
  came : ∀ r₀ r, b₀.tickets k = some r₀ → (d.register fun _ => true).tickets k = some r → Came now r₀ r
  fresh : ∀ r, b₀.tickets k = none → (d.register fun _ => true).tickets k = some r →
    r.createdAt = now ∧ r.activeElapsedMs now = 0
  punctual : ∀ r, (d.register fun _ => true).tickets k = some r → SamePriority k (d.register fun _ => true).audit →
    Punctual matrix now r

section Statements
variable {matrix : SlaMatrix} {now : Int} {k k' : Uuid} {b₀ b : Register} {r₀ old new r : Ticket} {entries : List AuditEntry}
  {target : SlaTarget} {messages : List Entry} {d d' : Desk Unit} {ctx : TenantContext} {q : Stmt} {c : Cursor}

private theorem active_of_accounted (h : Accounted now b messages) (hr : b.tickets k = some r) :
    r.activeElapsedMs now = runningMs r.createdAt (movesOf k b.audit) now := by
  obtain ⟨last,hlast,hhist⟩ := h.history k r hr
  exact hhist.elapsed fun e he => Int.le_trans (hhist.bounds.2 e he) hlast

private theorem Midway.samePriority (h : Midway matrix k now b₀ d) (hs : SamePriority k (d.register fun _ => true).audit) :
    SamePriority k b₀.audit := by
  obtain ⟨rows,hrows⟩ := h.log
  rw [hrows] at hs
  exact hs.of_append

private theorem Came.visibleTo (h : Came now r₀ r) : r₀.visibleTo ctx = r.visibleTo ctx := by
  simp [Ticket.visibleTo, h.evolves.tenantId, h.contactId]

/-- A latch or a first answer that is not there now was not there at the beginning. -/
private theorem Came.unlatched (h : Came now r₀ r) :
    (r.firstResponseAt = none → r₀.firstResponseAt = none) ∧
      ∀ timer, latchOf r timer = none → latchOf r₀ timer = none := by
  constructor
  · intro hr
    cases h₀ : r₀.firstResponseAt with
    | none => rfl
    | some t =>
      have hsame := h.evolves.firstResponse (by simp [h₀])
      rw [hr, h₀] at hsame
      cases hsame
  · intro timer hr
    cases h₀ : latchOf r₀ timer with
    | none => rfl
    | some t =>
      have hsome := latchOf_evolves h.evolves (t := timer) (by simp [h₀])
      rw [hr] at hsome
      cases hsome

private theorem Midway.answer (h : Midway matrix k now b₀ d)
    (hstart : ∀ r₀, b₀.tickets k = some r₀ → SamePriority k b₀.audit → Punctual matrix now r₀)
    (hold : (d.register fun _ => true).tickets k = some old) (hs : SamePriority k (d.register fun _ => true).audit)
    (hdue : ∀ r₀, b₀.tickets k = some r₀ → Came now r₀ old → isDue (matrix.targets r₀.tenantId) now r₀ .firstResponse = false)
    (hfirst : old.firstResponseAt = none) (hlatch : old.firstResponseBreachedAt = none)
    (ht : matrix.targets old.tenantId old.priority = some target) : now - old.createdAt ≤ target.firstResponseMs := by
  cases hb : b₀.tickets k with
  | none =>
    have hborn := (h.fresh old hb hold).1
    have hpos := (matrix.positive _ _ _ ht).1
    omega
  | some r₀ =>
    have hcame := h.came r₀ old hb hold
    have hprio : r₀.priority = old.priority :=
      (hstart r₀ hb (h.samePriority hs)).priority.trans (h.punctual old hold hs).priority.symm
    have hnot := hdue r₀ hb hcame
    rw [← hcame.evolves.tenantId] at hnot
    simp only [isDue, hprio, ht, Option.any_some, firstResponseDue, decide_eq_false_iff_not, not_and, not_lt] at hnot
    have hwall := hnot (hcame.unlatched.1 hfirst) (hcame.unlatched.2 .firstResponse hlatch)
    rw [← hcame.createdAt] at hwall
    exact Int.le_trans (Int.le_max_right 0 _) hwall

private theorem Midway.resolution (h : Midway matrix k now b₀ d)
    (hstart : ∀ r₀, b₀.tickets k = some r₀ → SamePriority k b₀.audit → Punctual matrix now r₀)
    (hold : (d.register fun _ => true).tickets k = some old) (hs : SamePriority k (d.register fun _ => true).audit)
    (hdue : ∀ r₀, b₀.tickets k = some r₀ → Came now r₀ old → isDue (matrix.targets r₀.tenantId) now r₀ .resolution = false)
    (hlatch : old.resolutionBreachedAt = none) (ht : matrix.targets old.tenantId old.priority = some target) :
    old.activeElapsedMs now ≤ target.resolutionMs := by
  cases hb : b₀.tickets k with
  | none =>
    rw [(h.fresh old hb hold).2]
    exact Int.le_of_lt (matrix.positive _ _ _ ht).2
  | some r₀ =>
    have hcame := h.came r₀ old hb hold
    have hpunctual := hstart r₀ hb (h.samePriority hs)
    have hprio : r₀.priority = old.priority := hpunctual.priority.trans (h.punctual old hold hs).priority.symm
    have hlatch₀ : r₀.resolutionBreachedAt = none := hcame.unlatched.2 .resolution hlatch
    have hnot := hdue r₀ hb hcame
    rw [hcame.evolves.tenantId, ← hprio] at ht
    rw [hcame.active]
    by_cases hdone : r₀.state = .resolved ∨ r₀.state = .closed
    · exact hpunctual.resolved target hdone hlatch₀ ht
    · rw [not_or] at hdone
      simp only [isDue, ht, Option.any_some, resolutionDue, decide_eq_false_iff_not, not_and, not_lt] at hnot
      exact hnot hlatch₀ hdone.1 hdone.2

/-- What an `UPDATE` of the services or of a sweep leaves to the triggers. -/
private theorem given_of_timely {plan : Uuid → Ticket → Option (Ticket → Option Ticket)} {set : Ticket → Option Ticket}
    (h : Timely True now (.updateTickets plan)) (hplan : plan k r₀ = some set) (hset : set old = some new) :
    Given now old new ∧ new.firstResponseAt = old.firstResponseAt := by
  rcases h with hplain | hrec | ⟨_,targets,heq⟩
  · have hnew := hplain k r₀ set old new hplan hset
    rw [hnew]
    exact ⟨⟨rfl,rfl,.inl rfl⟩,rfl⟩
  · cases hrec
  · cases heq
    obtain ⟨_,_,hdue⟩ := Option.bind_eq_some_iff.mp hplan
    obtain ⟨_,hlatch⟩ := Option.ite_none_right_eq_some.mp hdue
    cases hlatch
    cases hset
    exact ⟨⟨rfl,rfl,.inl rfl⟩,rfl⟩

private theorem priority_of_admitted {row : Ticket} {at' : Int} (hplain : Stmt.Plain at' (.insertTicket row))
    (h : Admitted d () ctx row r) : r.priority = .normal := by
  obtain ⟨_,_,_,_,_,_,rfl⟩ := hplain
  have hl := h.linkage
  unfold enforceLinkageOnInsert at hl
  split at hl
  · cases hl
    rfl
  · split at hl
    · cases hl
    · cases hl
      rfl

private theorem Midway.elsewhere (h : Midway matrix k now b₀ d) (hu : Underway (fun _ => some now) now d')
    (hstart : d'.register (fun _ => false) = d.register fun _ => false)
    (hrow : (d'.register fun _ => true).tickets k = (d.register fun _ => true).tickets k)
    (hlog : ∃ rows, (d'.register fun _ => true).audit = (d.register fun _ => true).audit ++ rows) : Midway matrix k now b₀ d' := by
  obtain ⟨rows,hrows⟩ := hlog
  obtain ⟨before,hbefore⟩ := h.log
  refine ⟨hu,hstart.trans h.start,⟨before ++ rows,by rw [hrows, hbefore, List.append_assoc]⟩,?_,?_,?_⟩
  · rw [hrow]
    exact h.came
  · rw [hrow]
    exact h.fresh
  · rw [hrow, hrows]
    exact fun r hr hs => h.punctual r hr hs.of_append

private theorem Midway.other (h : Midway matrix k now b₀ d) (hu : Underway (fun _ => some now) now d')
    (hm : Makes d () (.stored k' now old new r entries) d') (hk : k' ≠ k) : Midway matrix k now b₀ d' := by
  have htrue := hm.inside (fun _ => true) rfl
  refine h.elsewhere hu (hm.outside (fun _ => false) rfl) ?_ ⟨entries,by rw [htrue, Register.apply]⟩
  rw [htrue]
  exact Function.update_of_ne (Ne.symm hk) _ _

private theorem Midway.stored (h : Midway matrix k now b₀ d) (hu : Underway (fun _ => some now) now d')
    (hm : Makes d () (.stored k now old new r entries) d') (hg : Given now old new)
    (hanswer : SamePriority k (d.register fun _ => true).audit → ∀ t target, old.firstResponseAt = none →
      old.firstResponseBreachedAt = none → new.firstResponseAt = some t →
      matrix.targets old.tenantId old.priority = some target → t - old.createdAt ≤ target.firstResponseMs)
    (hresolve : SamePriority k (d.register fun _ => true).audit → ∀ target, new.state = .resolved → old.state ≠ .resolved →
      old.resolutionBreachedAt = none → matrix.targets old.tenantId old.priority = some target →
      old.activeElapsedMs now ≤ target.resolutionMs) : Midway matrix k now b₀ d' := by
  have htrue := hm.inside (fun _ => true) rfl
  cases hm.lawful (fun _ => true) rfl with
  | stored hfound hlink henf hten =>
    have he := enforced_of_ok henf
    have hev := evolves_of_enforced hlink henf hten
    have hrow : (d'.register fun _ => true).tickets k = some r := by rw [htrue]; simp [Register.apply]
    have haudit : (d'.register fun _ => true).audit = (d.register fun _ => true).audit ++ auditTrail k now old r := by
      rw [htrue, Register.apply, he.audit]
    have hcreated : r.createdAt = old.createdAt := (congrArg Ticket.createdAt he.rest).trans hg.createdAt
    -- a transition at the present instant moves nothing of what has been counted up to it
    have hactive : r.activeElapsedMs now = old.activeElapsedMs now := by
      rw [active_of_accounted (hu.accounted fun _ => true) hrow, active_of_accounted (h.underway.accounted fun _ => true) hfound,
        haudit, movesOf_update, hcreated]
      split
      · rfl
      · exact runningMs_append (Int.le_refl _)
    obtain ⟨before,hbefore⟩ := h.log
    refine ⟨hu,(hm.outside (fun _ => false) rfl).trans h.start,
      ⟨before ++ auditTrail k now old r,by rw [haudit, hbefore, List.append_assoc]⟩,fun r₀ r' hr₀ hr' => ?_,fun r' hr₀ hr' => ?_,
      fun r' hr' hs => ?_⟩
    · cases hrow.symm.trans hr'
      exact (h.came r₀ old hr₀ hfound).step hg he hev hactive
    · cases hrow.symm.trans hr'
      rw [hcreated, hactive]
      exact h.fresh old hr₀ hfound
    · cases hrow.symm.trans hr'
      rw [haudit] at hs
      exact (h.punctual old hfound hs.of_append).step hg.createdAt he hten (priority_of_samePriority hs) hactive
        (hanswer hs.of_append) (hresolve hs.of_append)

private theorem midway_of_effect (h : Midway matrix k now b₀ d) (hctx : ctx.now = now)
    (hstart : ∀ r₀, b₀.tickets k = some r₀ → SamePriority k b₀.audit → Punctual matrix now r₀)
    (hq : Prompt matrix k ctx b₀ q) (hreach : (deskEngine Unit).Reaches () ctx q c) (he : Effect d () ctx q c d') :
    Midway matrix k now b₀ d' := by
  subst hctx
  have htimely : Timely ((fun _ : Uuid => some ctx.now) ctx.tenantId = some ctx.now) ctx.now q := by
    rcases hq.timely with hplain | hrec | ⟨_,hsweep⟩
    · exact .inl hplain
    · exact .inr (.inl hrec)
    · exact .inr (.inr ⟨rfl,hsweep⟩)
  have hu := underway_of_effect h.underway rfl htimely hreach he
  rcases makes_of_effect h.underway.coherent he with hsame | ⟨change,hissues,hm⟩
  · exact h.elsewhere hu (hsame _) (by rw [hsame]) ⟨[],by rw [hsame, List.append_nil]⟩
  · have htrue := hm.inside (fun _ => true) rfl
    have hfalse := hm.outside (fun _ => false) rfl
    have hvis : ∀ {j old}, d.tickets.free () [j] = true → d.sees () ctx j = some old →
        (d.register fun _ => true).tickets j = some old := fun hf hs =>
      (Table.view_of_free d.tickets (fun _ => true) _ hf rfl).trans (Desk.sees_some.mp hs).1
    cases hissues with
    | @update plan j set rest written old new r entries hf hs hset =>
      by_cases hj : j = k
      · subst hj
        obtain ⟨r₁,hplan⟩ := planned_of_reaches hreach (j, set) List.mem_cons_self
        obtain ⟨hg,hfirst⟩ := given_of_timely hq.timely hplan hset
        refine h.stored hu hm hg (fun _ t target hnone _ ht _ => ?_) fun hsame target hres hne hlatch ht => ?_
        · rw [hfirst, hnone] at ht
          cases ht
        · refine h.resolution hstart (hvis hf hs) hsame (fun r₀ hr₀ hcame => ?_) hlatch ht
          exact hq.resolves plan r₁ set old new r₀ rfl hplan hset hres hne hr₀
            (hcame.visibleTo.trans (Desk.sees_some.mp hs).2) hcame
      · exact h.other hu hm hj
    | @message j body t c old r entries hf hs =>
      by_cases hj : j = k
      · subst hj
        have ht : t = ctx.now := by
          rcases hq.timely with hplain | hrec | ⟨_,_,heq⟩
          · exact hplain
          · cases hrec
          · cases heq
        subst ht
        refine h.stored hu hm ⟨rfl,rfl,.inr rfl⟩ (fun hsame t target hnone hlatch ht htarget => ?_) fun _ target hres hne => absurd hres hne
        simp only [observeMessage, hnone] at ht
        have hstaff : isResponse ⟨ctx.tenantId, j, body, ctx.actor, ctx.now⟩ = true ∧ t = ctx.now := by
          cases ha : ctx.actor <;> simp [ha, isResponse] at ht ⊢ <;> exact ht.symm
        rw [hstaff.2]
        refine h.answer hstart (hvis hf hs) hsame (fun r₀ hr₀ hcame => ?_) hnone hlatch htarget
        exact hq.answers body _ r₀ rfl hstaff.1 hr₀ (hcame.visibleTo.trans (Desk.sees_some.mp hs).2)
      · exact h.other hu hm hj
    | @note j body t c old r entries hf hs =>
      by_cases hj : j = k
      · subst hj
        have ht : t = ctx.now := by
          rcases hq.timely with hplain | hrec | ⟨_,_,heq⟩
          · exact hplain
          · cases hrec
          · cases heq
        subst ht
        refine h.stored hu hm ⟨rfl,rfl,.inr rfl⟩ (fun _ t target hnone _ ht _ => ?_) fun _ target hres hne => absurd hres hne
        rw [show (observeNote ⟨ctx.tenantId, j, body, ctx.actor, ctx.now⟩ old).firstResponseAt = old.firstResponseAt from rfl, hnone] at ht
        cases ht
      · exact h.other hu hm hj
    | @ticket row r c hadm =>
      by_cases hj : d.tickets.size = k
      · subst hj
        have hplain : Stmt.Plain ctx.now (.insertTicket row) := by
          rcases hq.timely with hplain | hrec | ⟨_,_,heq⟩
          · exact hplain
          · cases hrec
          · cases heq
        obtain ⟨hcreated,hpaused,hstarted,hfirst,_⟩ := fresh_of_admitted hplain hadm
        have hrow : (d'.register fun _ => true).tickets d.tickets.size = some r := by rw [htrue]; simp [Register.apply]
        have hnew : b₀.tickets d.tickets.size = none := by
          rw [← h.start, Desk.register_tickets]
          exact Table.view_fresh _ _ _ (Nat.le_refl _)
        refine ⟨hu,hfalse.trans h.start,?_,fun r₀ _ hr₀ => (by rw [hnew] at hr₀; cases hr₀),fun r' _ hr' => ?_,fun r' hr' _ => ?_⟩
        · rw [htrue]
          exact h.log
        · cases hrow.symm.trans hr'
          refine ⟨hcreated,?_⟩
          simp [Ticket.activeElapsedMs, ticketSlaActiveElapsedMs, hcreated, hpaused, hstarted]
        · cases hrow.symm.trans hr'
          cases hm.lawful (fun _ => true) rfl with
          | opened _ hborn _ _ => exact punctual_fresh (priority_of_admitted hplain hadm) hborn hfirst
      · refine h.elsewhere hu hfalse ?_ ⟨[],by rw [htrue, Register.apply, List.append_nil]⟩
        rw [htrue]
        exact Function.update_of_ne (Ne.symm hj) _ _
    | record =>
      exact h.elsewhere hu hfalse (by rw [htrue, Register.apply]) ⟨_,by rw [htrue, Register.apply]⟩

end Statements

/-- Between the transactions: they are over, the books are right, and no deadline of Ticket `k` was passed unseen. -/
private structure Kept (matrix : SlaMatrix) (k : Uuid) (d : Desk Unit) : Prop where
  settled : Settled d
  underway : Underway (fun _ => some d.clock) d.clock d
  punctual : ∀ r, (d.register fun _ => false).tickets k = some r → SamePriority k (d.register fun _ => false).audit →
    Punctual matrix d.clock r

section Transactions
variable {matrix : SlaMatrix} {k : Uuid} {d d' : Desk Unit} {ctx : TenantContext} {turns : Nat}

private theorem register_of_settled (h : Settled d) (S S' : Unit → Bool) : d.register S = d.register S' := by
  have hview : ∀ S, d.tickets.view S = d.tickets.committed := fun S => funext fun j => Table.view_of_unlocked _ S j (h.tickets j)
  simp only [Desk.register, hview, scan_of_settled h.audit S S']

private theorem kept_of_underway (hset : Settled d') (hu : Underway (fun _ => some d.clock) d.clock d')
    (hpunctual : ∀ r, (d'.register fun _ => false).tickets k = some r → SamePriority k (d'.register fun _ => false).audit →
      Punctual matrix d.clock r) : Kept matrix k d' ∧ d'.clock = d.clock := by
  have hclock := hu.clock
  refine ⟨⟨hset,?_,?_⟩,hclock⟩
  · rw [hclock]
    exact hu
  · rw [hclock]
    exact hpunctual

/-- A transaction that ends nothing about Ticket `k` that is overdue. -/
private theorem kept_of_alone {α : Type} {p : Tx α} {x : Desk Unit × Except (Option Failure) α} (h : Kept matrix k d)
    (hctx : ctx.now = d.clock) (hp : p.Only (Prompt matrix k ctx (d.register fun _ => false)))
    (ha : p.alone (deskEngine Unit) () ctx turns d = some x) : Kept matrix k x.1 ∧ x.1.clock = d.clock := by
  have hsame := register_of_settled h.settled
  have hbegin : Midway matrix k d.clock (d.register fun _ => false) d := by
    refine ⟨h.underway,rfl,⟨[],by rw [hsame (fun _ => true) fun _ => false, List.append_nil]⟩,fun r₀ r hr₀ hr => ?_,fun r hr₀ hr => ?_,?_⟩
    · rw [hsame (fun _ => true) fun _ => false, hr₀] at hr
      cases hr
      exact .refl _ _
    · rw [hsame (fun _ => true) fun _ => false, hr₀] at hr
      cases hr
    · rw [hsame (fun _ => true) fun _ => false]
      exact h.punctual
  refine Script.alone_invariant (P := Midway matrix k d.clock (d.register fun _ => false)) (Q := fun d' => Kept matrix k d' ∧ d'.clock = d.clock)
    (fun _ _ _ _ _ hq hreach hd ht => midway_of_effect hd hctx h.punctual hq hreach (effect_of_more ht))
    (fun _ _ _ _ _ hq hreach hd ht => midway_of_effect hd hctx h.punctual hq hreach (effect_of_answer ht))
    (fun d₁ hd => ?_) (fun d₁ hd => ?_) hp hbegin ha
  · refine kept_of_underway (settled_commit d₁) hd.underway.commit ?_
    have hreg : (Desk.commit d₁ ()).register (fun _ => false) = d₁.register fun _ => true := by
      simp [Desk.register_commit]
    rw [show (deskEngine Unit).commit d₁ () = d₁.commit () from rfl, hreg]
    exact hd.punctual
  · refine kept_of_underway (settled_rollback d₁) hd.underway.rollback ?_
    have hreg : (Desk.rollback d₁ ()).register (fun _ => false) = d₁.register fun _ => false := by
      simp [Desk.register_rollback]
    rw [show (deskEngine Unit).rollback d₁ () = d₁.rollback () from rfl, hreg, hd.start]
    exact h.punctual

end Transactions

section Deeds
variable {matrix : SlaMatrix} {k j : Uuid} {ctx : TenantContext} {b₀ : Register} {q : Stmt}

private theorem Prompt.of_opens (hplain : q.Plain ctx.now) (hopens : q.Opens)
    (hpost : ∀ body t, q = .insertMessage k body t → isResponse ⟨ctx.tenantId, k, body, ctx.actor, t⟩ = false) :
    Prompt matrix k ctx b₀ q where
  timely := .inl hplain
  answers body t r₀ hq hstaff := by
    rw [hpost body t hq] at hstaff
    cases hstaff
  resolves plan r set old new r₀ hq hplan hset hres := by
    subst hq
    rw [hopens k r set old new hplan hset] at hres
    cases hres

private theorem prompt_reads {picks : Uuid → Ticket → Bool} : (Tx.findMany picks).Only (Prompt matrix k ctx b₀) :=
  Script.only_query (.of_opens trivial trivial fun _ _ => nofun)

private theorem prompt_findUnique : (Tx.findUnique j).Only (Prompt matrix k ctx b₀) := by
  have hfirst : (Tx.findFirst fun k _ => k = j).Only (Prompt matrix k ctx b₀) := prompt_reads.bind fun _ => trivial
  exact hfirst.bind fun _ => trivial

private theorem prompt_updateMany {matching : Uuid → Ticket → Bool} {data : Ticket → Ticket} {thrown : SqlState → Failure}
    (hdata : ∀ r, data r = { r with
      state := (data r).state, priority := (data r).priority, assigneeId := (data r).assigneeId, updatedAt := (data r).updatedAt })
    (hresolves : ∀ old r₀, matching k old = true → (data old).state = .resolved → old.state ≠ .resolved → b₀.tickets k = some r₀ →
      r₀.visibleTo ctx = true → Came ctx.now r₀ old → isDue (matrix.targets r₀.tenantId) ctx.now r₀ .resolution = false) :
    (Tx.updateMany matching data thrown).Only (Prompt matrix k ctx b₀) := by
  refine Script.only_query ⟨.inl (setsPlainly_updateMany hdata),fun _ _ _ => nofun,fun plan r set old new r₀ hq hplan hset => ?_⟩
  cases hq
  obtain ⟨_,heq⟩ := Option.ite_none_right_eq_some.mp hplan
  cases heq
  obtain ⟨hmatch,heq⟩ := Option.ite_none_right_eq_some.mp hset
  cases heq
  exact hresolves old r₀ hmatch

private theorem prompt_edited {rows : List (Uuid × Ticket)} {e : Failure} :
    (if rows.isEmpty then .fail e else readBack j : Tx (Uuid × Ticket)).Only (Prompt matrix k ctx b₀) := by
  split
  · trivial
  · refine prompt_findUnique.bind fun row => ?_
    cases row with
    | none => trivial
    | some r => trivial

private theorem prompt_update {data : Ticket → Ticket} {thrown : SqlState → Failure}
    (hdata : ∀ r, data r = { r with priority := (data r).priority, assigneeId := (data r).assigneeId }) :
    (update j data ctx.now thrown).Only (Prompt matrix k ctx b₀) := by
  have hmany : (Tx.updateMany (fun k _ => decide (k = j)) (fun r => { data r with updatedAt := ctx.now }) thrown).Only
      (Prompt matrix k ctx b₀) := by
    refine prompt_updateMany (fun r => ?_) fun old r₀ _ hres hne => absurd ?_ hne
    · rw [hdata]
    · rw [hdata] at hres
      exact hres
  exact hmany.bind fun _ => prompt_edited

private theorem prompt_transitionIn {permissions : List Permission} {to' : TicketState}
    (hdue : ∀ r₀, k = j → to' = .resolved → b₀.tickets k = some r₀ → r₀.visibleTo ctx = true →
      isDue (matrix.targets r₀.tenantId) ctx.now r₀ .resolution = false) :
    (transitionIn permissions j to' ctx.now).Only (Prompt matrix k ctx b₀) := by
  refine prompt_findUnique.bind fun row => ?_
  cases row with
  | none => trivial
  | some current =>
    simp only
    split
    · trivial
    · refine (prompt_updateMany (fun _ => rfl) fun old r₀ hmatch hres _ hr₀ hvis _ => ?_).bind fun _ => prompt_edited
      exact hdue r₀ (of_decide_eq_true hmatch).1 hres hr₀ hvis

private theorem prompt_postIn {body : String}
    (hdue : ∀ r₀, isResponse ⟨ctx.tenantId, j, body, ctx.actor, ctx.now⟩ = true → k = j → b₀.tickets k = some r₀ →
      r₀.visibleTo ctx = true → isDue (matrix.targets r₀.tenantId) ctx.now r₀ .firstResponse = false) :
    (postIn j body ctx.now).Only (Prompt matrix k ctx b₀) := by
  have hinsert : (Tx.run (.insertMessage j body ctx.now) rethrowMissingTicket).Only (Prompt matrix k ctx b₀) := by
    refine Script.only_query ⟨.inl rfl,fun body' t r₀ hq hstaff hr₀ hvis => ?_,fun _ _ _ _ _ _ => nofun⟩
    cases hq
    exact hdue r₀ hstaff rfl hr₀ hvis
  refine Script.Only.bind (prompt_findUnique.bind fun row => ?_) fun _ => hinsert.bind fun m => Script.Only.bind ?_ fun _ => trivial
  · cases row with
    | none => trivial
    | some r => trivial
  · unfold dispatchIn
    split
    · trivial
    · refine prompt_findUnique.bind fun row => ?_
      split
      · trivial
      · refine ⟨.of_opens trivial trivial fun _ _ => nofun,fun r => ?_⟩
        cases r with
        | error e => cases e <;> trivial
        | ok a => exact Script.only_query (.of_opens trivial trivial fun _ _ => nofun)

/-- A Ticket that has rested for the window is as the transaction found it. -/
private theorem prompt_settleAll (list : List DwellTimer) (hlist : ∀ timer ∈ list, timer.to' = .resolved → timer = ⟨.pending, .resolved⟩)
    (hdue : ∀ r₀, b₀.tickets k = some r₀ → r₀.visibleTo ctx = true → dwells ⟨.pending, .resolved⟩ ctx.now r₀ = true →
      isDue (matrix.targets r₀.tenantId) ctx.now r₀ .resolution = false) :
    (settleAll ctx.now list).Only (Prompt matrix k ctx b₀) := by
  induction list with
  | nil => trivial
  | cons timer rest ih =>
    refine Script.Only.bind ?_ fun _ => (ih fun t ht => hlist t (.tail _ ht)).bind fun _ => trivial
    unfold settle
    split
    · trivial
    · refine (prompt_updateMany (fun _ => rfl) fun old r₀ hmatch hres _ hr₀ hvis hcame => ?_).bind fun rows => ?_
      · have htimer := hlist timer (by simp) hres
        subst htimer
        refine hdue r₀ hr₀ hvis ?_
        simp only [dwells, decide_eq_true_eq] at hmatch ⊢
        rcases hcame.rested with hnow | ⟨hstate,hact⟩
        · have hwindow : 0 < ticketDwellWindow := by decide
          omega
        · rw [← hstate, ← hact]
          exact hmatch
      · split
        · trivial
        · exact prompt_reads

private theorem prompt_deed {tenantId : Uuid} {actor : Actor} {now : Int} (deed : Deed)
    (hin : ∀ r₀ timer, b₀.tickets k = some r₀ → deed.ends ⟨tenantId, deed.armed actor, now⟩ k r₀ timer = true →
      isDue (matrix.targets r₀.tenantId) now r₀ timer = false) :
    (deed.script tenantId now).Only (Prompt matrix k ⟨tenantId, deed.armed actor, now⟩ b₀) := by
  have hquiet : ∀ {p : Tx Unit} {contactId : Uuid}, p.Only (Stmt.Plain now) → p.Only Stmt.Opens →
      p.Only (Prompt matrix k ⟨tenantId, .contact contactId, now⟩ b₀) := fun hplain hopens =>
    (hplain.and hopens).mono fun q hq => .of_opens hq.1 hq.2 fun _ _ _ => rfl
  cases deed with
  | contact => exact (Script.only_query (.of_opens trivial trivial fun _ _ => nofun)).bind fun _ => trivial
  | create input =>
    have hcreate : (createIn tenantId input now).Only (Prompt matrix k ⟨tenantId, actor, now⟩ b₀) :=
      (Script.only_query (.of_opens ⟨_,_,_,_,_,_,rfl⟩ trivial fun _ _ => nofun)).bind fun _ =>
        (Script.only_query (.of_opens ⟨⟨_,rfl⟩,rfl⟩ trivial fun _ _ => nofun)).bind fun _ => trivial
    exact hcreate.bind fun _ => trivial
  | transition permissions id to' =>
    refine Script.Only.bind (prompt_transitionIn fun r₀ hk hres hr₀ hvis => ?_) fun _ => trivial
    exact hin r₀ .resolution hr₀ (decide_eq_true ⟨hk.symm,hvis,hres⟩)
  | setPriority id priority => exact Script.Only.bind (prompt_update fun _ => rfl) fun _ => trivial
  | setAssignee id assigneeId => exact Script.Only.bind (prompt_update fun _ => rfl) fun _ => trivial
  | post id body =>
    refine Script.Only.bind (prompt_postIn fun r₀ hstaff hk hr₀ hvis => ?_) fun _ => trivial
    exact hin r₀ .firstResponse hr₀ (decide_eq_true ⟨hk.symm,hvis,hstaff⟩)
  | note id body => exact (Script.only_query (.of_opens rfl trivial fun _ _ => nofun)).bind fun _ => trivial
  | reply contactId id body source =>
    exact hquiet (plain_deed (.reply contactId id body source)) (opens_reply.bind fun _ => trivial)
  | openThread contactId message =>
    refine hquiet (plain_deed (.openThread contactId message)) (Script.Only.bind ?_ fun _ => trivial)
    exact opens_createIn.bind fun _ => opens_postIn.bind fun _ => trivial
  | settle =>
    refine Script.Only.bind (prompt_settleAll timers (by decide) fun r₀ hr₀ hvis hdwells => ?_) fun _ => trivial
    exact hin r₀ .resolution hr₀ (decide_eq_true ⟨hvis,hdwells⟩)

end Deeds

section Runs
variable {matrix : SlaMatrix} {k : Uuid} {d d' : Desk Unit} {r : Ticket} {target : SlaTarget}

private theorem prompt_latchTenant (ctx : TenantContext) {tenantId : Uuid} {targets : Targets} {b₀ : Register} :
    (latchTenant tenantId targets ctx.now ctx.now).Only (Prompt matrix k ctx b₀) := by
  have hrecord (breaches : List Breach) : (recordBreaches ctx.now breaches).Only (Prompt matrix k ctx b₀) := by
    induction breaches with
    | nil => trivial
    | cons b rest ih =>
      exact (Script.only_query ⟨.inr (.inl rfl),fun _ _ _ => nofun,fun _ _ _ _ _ _ => nofun⟩).bind fun _ => ih
  refine (Script.only_query ⟨.inr (.inr ⟨trivial,targets,rfl⟩),fun _ _ _ => nofun,
    fun plan r set old new r₀ hq hplan hset hres hne => absurd ?_ hne⟩).bind fun _ => (hrecord _).bind fun _ => trivial
  cases hq
  obtain ⟨_,_,hdue⟩ := Option.bind_eq_some_iff.mp hplan
  obtain ⟨_,hlatch⟩ := Option.ite_none_right_eq_some.mp hdue
  cases hlatch
  cases hset
  exact hres

private theorem kept_empty : Kept matrix k Desk.empty := ⟨settled_empty,underway_empty,fun _ h => (by cases h)⟩

private theorem Kept.event {w : Tickets.Event} (h : Kept matrix k d) (hs : d.world w = some d') : Kept matrix k d' := by
  have hle := Desk.clock_of_world hs
  have hu := h.underway.event hs
  obtain ⟨clock,users,rfl⟩ := Desk.of_world hs
  have hset := h.settled
  refine ⟨⟨hset.tickets,hset.messages,hset.notes,hset.audit,hset.contacts,hset.deliveries,hset.jobs⟩,
    ⟨hu.clock,hu.coherent,hu.accounted,fun S j r timer t hr ht => ?_⟩,fun r hr hsame => ?_⟩
  · obtain ⟨u,hu,htu⟩ := h.underway.latched S j r timer t hr ht
    cases hu
    exact ⟨clock,rfl,Int.le_trans htu hle⟩
  · obtain ⟨_,_,hhist⟩ := (h.underway.accounted fun _ => false).history k r hr
    exact (h.punctual r hr hsame).later hhist

private theorem Kept.visit {tenantId : Uuid} {turns : Nat} (h : Kept matrix k d)
    (hs : happen matrix d (.visit tenantId turns) = some d') : Kept matrix k d' ∧ d'.clock = d.clock := by
  obtain ⟨x,hx,rfl⟩ := Option.map_eq_some_iff.mp hs
  exact kept_of_alone h rfl (prompt_latchTenant ⟨tenantId,.system,d.clock⟩) hx

private theorem Kept.step {a : Happening} (h : Kept matrix k d) (hin : inTime matrix k d a = true)
    (hs : happen matrix d a = some d') : Kept matrix k d' := by
  cases a with
  | visit tenantId turns => exact (h.visit hs).1
  | deed tenantId actor deed turns =>
    obtain ⟨x,hx,rfl⟩ := Option.map_eq_some_iff.mp hs
    refine (kept_of_alone h rfl (prompt_deed deed fun r₀ timer hr₀ hends => ?_) hx).1
    rw [Desk.register_tickets, Table.view_none] at hr₀
    simp only [inTime, hr₀, Option.all_some, List.all_eq_true, Bool.not_eq_true', Bool.and_eq_false_iff] at hin
    have htimer := hin timer (by cases timer <;> simp)
    exact htimer.resolve_left (by rw [hends]; decide)
  | event w => exact h.event hs

private theorem kept_of_run {acts : List Happening} (hr : Run (happen matrix) (fun d a => inTime matrix k d a = true) Desk.empty acts d) :
    Kept matrix k d :=
  hr.invariant kept_empty fun _ _ _ h hin hs => h.step hin hs

private def Clean (matrix : SlaMatrix) (d : Desk Unit) (r : Ticket) : Prop :=
  ∀ timer, isDue (matrix.targets r.tenantId) d.clock r timer = false

private theorem isDue_latched (targets : Targets) (now : Int) (r : Ticket) (timer : SlaTimer) :
    isDue targets now (latched targets now r) timer = false := by
  by_contra hdue
  rw [Bool.not_eq_false] at hdue
  have hnone := latchOf_of_isDue hdue
  rw [latchOf_latched] at hnone
  split at hnone
  · cases hnone
  · rename_i hnot
    -- what is not latched now was not due, and the latches are all that has changed
    cases timer with
    | firstResponse =>
      refine hnot ((Option.any_eq_true _ _).mpr ?_)
      obtain ⟨target,ht,hover⟩ := (Option.any_eq_true _ _).mp hdue
      refine ⟨target,ht,?_⟩
      simp only [firstResponseDue, decide_eq_true_eq] at hover ⊢
      exact ⟨hover.1,hnone,hover.2.2⟩
    | resolution =>
      refine hnot ((Option.any_eq_true _ _).mpr ?_)
      obtain ⟨target,ht,hover⟩ := (Option.any_eq_true _ _).mp hdue
      refine ⟨target,ht,?_⟩
      simp only [resolutionDue, decide_eq_true_eq] at hover ⊢
      exact ⟨hnone,hover.2⟩

/-- After the visits of a sweep no Ticket of the tenants that were visited is left to latch. -/
private theorem clean_of_visits {acts : List Happening} (h : Kept matrix k d) (hs : Run (happen matrix) Always d acts d')
    (hvisits : ∀ a ∈ acts, ∃ tenantId turns, a = .visit tenantId turns) :
    Kept matrix k d' ∧ ∀ r turns, d'.tickets.committed k = some r → .visit r.tenantId turns ∈ acts → Clean matrix d' r := by
  induction hs with
  | nil => exact ⟨h,fun _ _ _ hmem => (by cases hmem)⟩
  | @snoc acts a u d' _ _ hstep ih =>
    obtain ⟨hu,hclean⟩ := ih fun a ha => hvisits a (List.mem_append_left _ ha)
    obtain ⟨tenantId,turns,rfl⟩ := hvisits a (by simp)
    obtain ⟨x,hx,rfl⟩ := Option.map_eq_some_iff.mp hstep
    have hwhole : ∀ j r, u.tickets.committed j = some r → r.isWhole = true := fun j r hr =>
      (hu.underway.accounted fun _ => false).whole j r (by simpa using hr)
    obtain ⟨hkept,hclock⟩ := hu.visit hstep
    refine ⟨hkept,fun r' turns' hr' hmem => ?_⟩
    rw [committed_of_visit hu.settled hwhole hx, Option.map_eq_some_iff] at hr'
    obtain ⟨r,hr,rfl⟩ := hr'
    intro timer
    rw [hclock]
    by_cases hten : r.tenantId = tenantId
    · subst hten
      rw [if_pos rfl]
      exact isDue_latched _ _ r timer
    · rw [if_neg hten] at hmem ⊢
      refine hclean r turns' hr ?_ timer
      rcases List.mem_append.mp hmem with hmem | hmem
      · exact hmem
      · cases List.mem_singleton.mp hmem
        exact absurd rfl hten

private theorem runningMs_mono {createdAt t t' : Int} {log : List (Int × TicketState)} (h : t ≤ t') :
    runningMs createdAt log t ≤ runningMs createdAt log t' := by
  unfold runningMs
  refine Int.ofNat_le.mpr (Finset.card_le_card (Finset.filter_subset_filter _ ?_))
  exact Finset.range_subset_range.mpr (Int.toNat_le_toNat (by omega))

/-- In every serial history in which nothing that is overdue is answered or resolved before a sweep has seen it,
each missed deadline of a Ticket of constant priority is on record after a sweep. -/
theorem onRecord_of_run {acts : List Happening} {visits : List (Uuid × Nat)}
    (hr : Run (happen matrix) (fun d a => inTime matrix k d a = true) Desk.empty acts d)
    (hs : Run (happen matrix) Always d (visits.map fun v => .visit v.1 v.2) d') (hk : d'.tickets.committed k = some r)
    (hten : r.tenantId ∈ visits.map Prod.fst) (hprio : SamePriority k (auditLog d'))
    (htarget : matrix.targets r.tenantId r.priority = some target) : OnRecord target d' k r := by
  obtain ⟨hkept,hclean⟩ := clean_of_visits (kept_of_run hr) hs fun a ha => by
    obtain ⟨v,_,rfl⟩ := List.mem_map.mp ha
    exact ⟨_,_,rfl⟩
  obtain ⟨v,hv,heq⟩ := List.mem_map.mp hten
  have hclean := hclean r v.2 hk (List.mem_map.mpr ⟨v,hv,by rw [heq]⟩)
  have hrow : (d'.register fun _ => false).tickets k = some r := by simpa using hk
  have hpunctual := hkept.punctual r hrow hprio
  have hbooks := hkept.underway.accounted fun _ => false
  refine ⟨fun hlate => ?_,fun ⟨t,_,ht,_,hlate⟩ => ?_⟩
  · cases hlatch : r.firstResponseBreachedAt with
    | some u => rfl
    | none =>
      have hanswered := hbooks.answered k r hrow
      have hdue := hclean .firstResponse
      rw [LateResponse, conversation, ← hanswered] at hlate
      cases hfirst : r.firstResponseAt with
      | some t =>
        have hle := hpunctual.answered t target hfirst hlatch htarget
        rw [hfirst, Option.getD_some] at hlate
        omega
      | none =>
        rw [hfirst, Option.getD_none] at hlate
        have hwall : target.firstResponseMs < ticketSlaWallElapsedMs r.createdAt d'.clock := Int.lt_of_lt_of_le hlate (Int.le_max_right _ _)
        simp [isDue, htarget, firstResponseDue, hfirst, hlatch, hwall] at hdue
  · cases hlatch : r.resolutionBreachedAt with
    | some u => rfl
    | none =>
      have hactive := active_of_accounted hbooks hrow
      have hover : target.resolutionMs < r.activeElapsedMs d'.clock := by
        rw [hactive]
        exact Int.lt_of_lt_of_le hlate (runningMs_mono ht)
      have hdue := hclean .resolution
      by_cases hdone : r.state = .resolved ∨ r.state = .closed
      · have hle := hpunctual.resolved target hdone hlatch htarget
        omega
      · rw [not_or] at hdone
        rw [Ticket.activeElapsedMs] at hover
        simp [isDue, htarget, resolutionDue, hlatch, hdone, hover] at hdue

end Runs

private def tenMs : SlaMatrix := ⟨fun _ _ => some ⟨10, 10⟩,fun _ _ target h => by cases h; decide⟩

private def neglected : List Happening :=
  [Happening.deed 1 .system .contact 9, .deed 1 (.user 4) (.create ⟨"printer", 0, .portal, none, none⟩) 9, .event (.tick 20)]

private def attended : List Happening :=
  [Happening.deed 1 (.user 4) (.post 0 "have you tried turning it off?") 9,
    .deed 1 (.user 4) (.transition [.ticketTransition] 0 .resolved) 9, .event (.tick 25)]

/-- With a sweep before the answer both deadlines are on record after it. -/
theorem onRecord_of_sweptBefore : ∃ (d : Desk Unit) (r : Ticket), d.clock = 25 ∧ r.firstResponseBreachedAt = some 20 ∧
    r.resolutionBreachedAt = some 20 ∧ r.state = .resolved ∧ LateResponse ⟨10, 10⟩ d 0 r ∧ OnRecord ⟨10, 10⟩ d 0 r := by
  have hrun : (exec (happen tenMs) (fun d a => inTime tenMs 0 d a = true) Desk.empty
      (neglected ++ [Happening.visit 1 9] ++ attended)).any (fun d =>
        (exec (happen tenMs) Always d ([((1 : Uuid), 9)].map fun v => Happening.visit v.1 v.2)).any fun d' =>
          (d'.tickets.committed 0).any fun r => d'.clock = 25 ∧ r.firstResponseBreachedAt = some 20 ∧
            r.resolutionBreachedAt = some 20 ∧ r.state = .resolved ∧ r.tenantId = 1 ∧ LateResponse ⟨10, 10⟩ d' 0 r ∧
            (auditLog d').all fun e => e.action ≠ .ticketPriorityChanged) = true := by decide +kernel
  obtain ⟨d,hr,hlast⟩ := exec_any hrun
  obtain ⟨d',hs,hrow⟩ := exec_any hlast
  obtain ⟨r,hk,hfacts⟩ := (Option.any_eq_true _ _).mp hrow
  obtain ⟨hclock,hfirst,hres,hstate,hten,hlate,hprio⟩ := of_decide_eq_true hfacts
  refine ⟨d',r,hclock,hfirst,hres,hstate,hlate,onRecord_of_run hr hs hk (by simp [hten]) (fun e he _ => ?_) rfl⟩
  simpa using List.all_eq_true.mp hprio e he

/-- Without one the Ticket is past both deadlines, and no sweep will ever say so. -/
theorem lateReply_offRecord : ¬ ∀ (matrix : SlaMatrix) (k : Uuid) (acts : List Happening) (visits : List (Uuid × Nat))
    (d d' : Desk Unit) (r : Ticket) (target : SlaTarget), Run (happen matrix) Always Desk.empty acts d →
    Run (happen matrix) Always d (visits.map fun v => .visit v.1 v.2) d' → d'.tickets.committed k = some r →
    r.tenantId ∈ visits.map Prod.fst → SamePriority k (auditLog d') → matrix.targets r.tenantId r.priority = some target →
    OnRecord target d' k r := by
  intro h
  have hrun : (exec (happen tenMs) Always Desk.empty (neglected ++ attended)).any (fun d =>
        (exec (happen tenMs) Always d ([((1 : Uuid), 9)].map fun v => Happening.visit v.1 v.2)).any fun d' =>
          (d'.tickets.committed 0).any fun r => r.firstResponseBreachedAt = none ∧ r.resolutionBreachedAt = none ∧
            r.tenantId = 1 ∧ LateResponse ⟨10, 10⟩ d' 0 r ∧
            (auditLog d').all fun e => e.action ≠ .ticketPriorityChanged) = true := by decide +kernel
  obtain ⟨d,hr,hlast⟩ := exec_any hrun
  obtain ⟨d',hs,hrow⟩ := exec_any hlast
  obtain ⟨r,hk,hfacts⟩ := (Option.any_eq_true _ _).mp hrow
  obtain ⟨hfirst,_,hten,hlate,hprio⟩ := of_decide_eq_true hfacts
  have hrecord := h tenMs 0 _ [(1, 9)] d d' r ⟨10, 10⟩ hr hs hk (by simp [hten])
    (fun e he _ => by simpa using List.all_eq_true.mp hprio e he) rfl
  have hsome := hrecord.firstResponse hlate
  rw [hfirst] at hsome
  cases hsome

end Nivara.Sla
