import Mathlib.Algebra.Ring.Int.Defs
import Nivara.Tickets.AuditTrail
import Nivara.Tickets.Locks

/-! The pause accumulator under concurrent writers. The trigger stamps both ends of a pause with
`now()`, which is when a transaction began, while rows are updated in the order of their locks.
A transition whose transaction began before an earlier pause was over opens a pause that reaches
back into it. -/
namespace Nivara.Tickets
open Transactions

/-- The pauses that have been added to the accumulator, and the start of the one that runs. -/
structure Pauses where
  counted : List (Int × Int)
  running : Option Int
  deriving DecidableEq, Repr

namespace Pauses

def none : Pauses := ⟨[], .none⟩

/-- The running pause is over at `now`; one that would end before it starts adds nothing. -/
def countedAt (p : Pauses) (now : Int) : List (Int × Int) :=
  match p.running with
  | .none => p.counted
  | some started => if started < now then p.counted ++ [(started, now)] else p.counted

def next (p : Pauses) (e : AuditEntry) : Pauses :=
  match e.toValue with
  | some (.state s) => ⟨p.countedAt e.createdAt, if s.stopsClock then some e.createdAt else .none⟩
  | _ => p

def total (p : Pauses) : Int := (p.counted.map fun a => a.2 - a.1).sum

end Pauses

def pausesOf (k : Uuid) (log : List AuditEntry) : Pauses := (rowsOf .state (trailOf k log)).foldl Pauses.next .none

/-- The accumulator holds each pause once. An instant `at'` is asked about that is not before the
Ticket's creation nor before the start of any transaction that has moved it. -/
structure CountsOnce (k : Uuid) (r : Ticket) (log : List AuditEntry) : Prop where
  counted : r.slaPausedMs = (pausesOf k log).total
  running : r.slaPauseStartedAt = (pausesOf k log).running
  bounded : ∀ at', r.createdAt ≤ at' → (∀ e ∈ rowsOf .state (trailOf k log), e.createdAt ≤ at') →
    r.slaPausedMs + r.slaPauseStartedAt.elim 0 (at' - ·) ≤ at' - r.createdAt
  once : (pausesOf k log).counted.Pairwise fun a b => ∀ t, a.1 ≤ t → t < a.2 → ¬ (b.1 ≤ t ∧ t < b.2)
  notAgain : ∀ started, r.slaPauseStartedAt = some started → ∀ a ∈ (pausesOf k log).counted, ∀ t, t < a.2 → t < started

namespace Pauses

/-- Each pause starts after the ones before it are over, and none before `created`. -/
structure Ordered (created : Int) (p : Pauses) : Prop where
  apart : p.counted.Pairwise fun a b => a.2 ≤ b.1
  proper : ∀ a ∈ p.counted, created ≤ a.1 ∧ a.1 < a.2
  latest : ∀ started, p.running = some started → created ≤ started ∧ ∀ a ∈ p.counted, a.2 ≤ started

theorem mem_countedAt {p : Pauses} {now : Int} {a : Int × Int} (h : a ∈ p.countedAt now) :
    a ∈ p.counted ∨ (p.running = some a.1 ∧ a.2 = now ∧ a.1 < now) := by
  unfold countedAt at h
  split at h
  · exact .inl h
  · rename_i started hr
    split at h
    · rename_i hlt
      rcases List.mem_append.mp h with h | h
      · exact .inl h
      · rw [List.mem_singleton.mp h]
        exact .inr ⟨hr,rfl,hlt⟩
    · exact .inl h

theorem Ordered.next {created : Int} {p : Pauses} {e : AuditEntry} (h : p.Ordered created)
    (he : ∀ s, e.toValue = some (.state s) → s.stopsClock = true →
      created ≤ e.createdAt ∧ ∀ a ∈ p.counted, a.2 ≤ e.createdAt) : (p.next e).Ordered created := by
  unfold Pauses.next
  split
  · rename_i s hs
    refine ⟨?_,fun a ha => ?_,fun started hrun => ?_⟩
    · simp only [countedAt]
      split
      · exact h.apart
      · rename_i started hr
        split
        · refine List.pairwise_append.mpr ⟨h.apart,List.pairwise_singleton .. ,fun a ha b hb => ?_⟩
          rw [List.mem_singleton.mp hb]
          exact (h.latest started hr).2 a ha
        · exact h.apart
    · rcases mem_countedAt ha with ha | ⟨hr,hend,hlt⟩
      · exact h.proper a ha
      · exact ⟨(h.latest a.1 hr).1,by omega⟩
    · simp only at hrun
      split at hrun
      · rename_i hstops
        cases hrun
        obtain ⟨hc,hall⟩ := he s hs hstops
        refine ⟨hc,fun a ha => ?_⟩
        rcases mem_countedAt ha with ha | ⟨_,hend,_⟩
        · exact hall a ha
        · exact Int.le_of_eq hend
      · cases hrun
  · exact h

/-- Pauses that come one after the other, up to `x`, last no longer than from `c` to `x`. -/
theorem total_le {c x : Int} {l : List (Int × Int)} (hapart : l.Pairwise fun a b => a.2 ≤ b.1)
    (hproper : ∀ a ∈ l, c ≤ a.1 ∧ a.1 < a.2) (hcx : c ≤ x) (hx : ∀ a ∈ l, a.2 ≤ x) :
    (l.map fun a => a.2 - a.1).sum ≤ x - c := by
  induction l generalizing c with
  | nil =>
    simp only [List.map_nil, List.sum_nil]
    omega
  | cons a l ih =>
    obtain ⟨hfirst,hrest⟩ := List.pairwise_cons.mp hapart
    have hsum := ih (c := a.2) hrest (fun b hb => ⟨hfirst b hb,(hproper b (by simp [hb])).2⟩) (hx a (by simp))
      fun b hb => hx b (by simp [hb])
    have ha := hproper a (by simp)
    rw [List.map_cons, List.sum_cons]
    omega

/-- No pause is stamped with more than its rows are. -/
theorem stamps_le {x : Int} (rows : List AuditEntry) (hrows : ∀ e ∈ rows, e.createdAt ≤ x) (p : Pauses)
    (hc : ∀ a ∈ p.counted, a.2 ≤ x) (hr : ∀ started, p.running = some started → started ≤ x) :
    (∀ a ∈ (rows.foldl next p).counted, a.2 ≤ x) ∧
      ∀ started, (rows.foldl next p).running = some started → started ≤ x := by
  induction rows generalizing p with
  | nil => exact ⟨hc,hr⟩
  | cons e rows ih =>
    have he := hrows e (by simp)
    refine ih (fun e' he' => hrows e' (by simp [he'])) (p.next e) (fun a ha => ?_) fun started hs => ?_
    · unfold next at ha
      split at ha
      · rcases mem_countedAt ha with ha | ⟨_,hend,_⟩
        · exact hc a ha
        · omega
      · exact hc a ha
    · unfold next at hs
      split at hs
      · simp only at hs
        split at hs
        · cases hs
          exact he
        · cases hs
      · exact hr started hs

end Pauses

/-- The row agrees with the pauses in the log, and these are in order. -/
structure Timed (k : Uuid) (r : Ticket) (log : List AuditEntry) : Prop where
  counted : r.slaPausedMs = (pausesOf k log).total
  running : r.slaPauseStartedAt = (pausesOf k log).running
  ordered : (pausesOf k log).Ordered r.createdAt

theorem countsOnce_of_timed {k : Uuid} {r : Ticket} {log : List AuditEntry} (h : Timed k r log) : CountsOnce k r log := by
  refine ⟨h.counted,h.running,fun at' hc hrows => ?_,?_,fun started hs a ha t ht => ?_⟩
  · obtain ⟨hends,hstart⟩ := Pauses.stamps_le _ hrows .none (fun _ ha => by cases ha) fun _ hs => by cases hs
    rw [h.running, h.counted]
    cases hr : (pausesOf k log).running with
    | none =>
      have hle := Pauses.total_le h.ordered.apart h.ordered.proper hc hends
      simpa [Pauses.total] using hle
    | some started =>
      obtain ⟨hcs,hall⟩ := h.ordered.latest started hr
      have hle := Pauses.total_le h.ordered.apart h.ordered.proper hcs hall
      have hsx := hstart started hr
      simp only [Pauses.total, Option.elim_some]
      omega
  · refine h.ordered.apart.imp fun {a b} hab t _ hta htb => ?_
    omega
  · rw [h.running] at hs
    have := (h.ordered.latest started hs).2 a ha
    omega

/-- Nothing but the trigger assigns the columns of the accumulator, and no row is given another
instant of creation. -/
def Stmt.KeepsClock : Stmt → Prop
  | .updateTickets plan => ∀ k r set old new, plan k r = some set → set old = some new →
      new.slaPausedMs = old.slaPausedMs ∧ new.slaPauseStartedAt = old.slaPauseStartedAt ∧ new.createdAt = old.createdAt
  | .insertTicket row => row.slaPausedMs = 0 ∧ row.slaPauseStartedAt = none
  | _ => True

def SteadyWork (ε α : Type) : Type := { w : Work ε α // w.script.Only Stmt.KeepsClock }

def steadyService (ι ε α : Type) : Service deskLanguage ε α TenantContext (Desk ι) (SteadyWork ε α) where
  context d w := (workService ι ε α).context d w.1
  script w := w.1.script

variable {ι : Type} [DecidableEq ι]

/-- The move of Ticket `k` from `old` to `new` by a transaction of `i` that began at `now` opens a
pause that starts no earlier than the Ticket and than the ends of the pauses counted so far. -/
def opensInOrder (d : Desk ι) (i : ι) (now : Int) (k : Uuid) (old new : Ticket) : Bool :=
  new.state = old.state ∨ new.state.stopsClock = false ∨
    (old.createdAt ≤ now ∧ (pausesOf k (d.audit.scan fun j => j = i)).counted.all (·.2 ≤ now))

def orderlyTerms (ι ε α : Type) [DecidableEq ι] : Terms (deskEngine ι) α (SteadyWork ε α) where
  begin _ _ := true
  resume d i _ ctx q c :=
    match q, c with
    | .updateTickets _, ((k, set) :: _, _) =>
      (d.sees i ctx k).all fun old => (set old).all fun new => opensInOrder d i ctx.now k old new
    | _, _ => true
  commit _ _ _ _ _ := true

section Steps
variable {k : Uuid} {now : Int} {old new r : Ticket} {log entries : List AuditEntry}

theorem Timed.append_other {rows : List AuditEntry} (h : Timed k r log)
    (hrows : ∀ e ∈ rows, e.ticketId ≠ k ∨ e.action = .ticketCreated ∨ e.action = .slaBreached) :
    Timed k r (log ++ rows) := by
  have heq : pausesOf k (log ++ rows) = pausesOf k log := by rw [pausesOf, rowsOf_trailOf_other .state hrows, pausesOf]
  exact ⟨heq ▸ h.counted,heq ▸ h.running,heq ▸ h.ordered⟩

private theorem total_countedAt (p : Pauses) (now : Int) : ((p.countedAt now).map fun a => a.2 - a.1).sum =
    p.running.elim p.total fun started => p.total + max 0 (now - started) := by
  unfold Pauses.countedAt
  split
  · rename_i hr
    rw [hr]
    rfl
  · rename_i started hr
    rw [hr, Option.elim_some]
    split
    · rw [List.map_append, List.sum_append, List.map_singleton, List.sum_singleton]
      simp only [Pauses.total]
      omega
    · simp only [Pauses.total]
      omega

theorem Timed.append_update (h : Timed k old log) (henf : Enforced k now old new r entries)
    (hkeep : new.slaPausedMs = old.slaPausedMs ∧ new.slaPauseStartedAt = old.slaPauseStartedAt ∧
      new.createdAt = old.createdAt)
    (horder : new.state ≠ old.state → new.state.stopsClock = true →
      old.createdAt ≤ now ∧ ∀ a ∈ (pausesOf k log).counted, a.2 ≤ now) : Timed k r (log ++ entries) := by
  have hcreated : r.createdAt = old.createdAt := by
    rw [henf.rest]
    exact hkeep.2.2
  have hrows : rowsOf .state (trailOf k (log ++ auditTrail k now old r)) = rowsOf .state (trailOf k log) ++
      auditOf .ticketTransitioned k now (some (.state old.state)) (some (.state r.state)) := rowsOf_trailOf_update .state
  by_cases hs : new.state = old.state
  · -- no transition, no row of it, and the columns stay
    have hsame : pausesOf k (log ++ entries) = pausesOf k log := by
      rw [henf.audit, pausesOf, hrows]
      simp [auditOf, henf.state, hs, pausesOf]
    refine ⟨?_,?_,?_⟩
    · rw [hsame, henf.paused, if_pos hs, hkeep.1]
      exact h.counted
    · rw [hsame, henf.pauseStarted, if_pos hs, hkeep.2.1]
      exact h.running
    · rw [hsame, hcreated]
      exact h.ordered
  · have hne : some (AuditValue.state old.state) ≠ some (.state r.state) := by
      simpa [henf.state, eq_comm] using hs
    have hnext : pausesOf k (log ++ entries) = (pausesOf k log).next
        ⟨.ticketTransitioned, k, some (.state old.state), some (.state r.state), none, now⟩ := by
      rw [henf.audit, pausesOf, hrows, auditOf, if_neg hne, List.foldl_append]
      rfl
    refine ⟨?_,?_,?_⟩
    · rw [hnext, henf.paused, if_neg hs, hkeep.1]
      refine Eq.trans ?_ (total_countedAt (pausesOf k log) now).symm
      rw [← h.running, ← h.counted]
    · rw [hnext, henf.pauseStarted, if_neg hs, hkeep.2.1]
      simp only [Pauses.next, henf.state]
      split
      · rfl
      · cases old.slaPauseStartedAt <;> rfl
    · rw [hnext, hcreated]
      refine h.ordered.next fun s hs' hstop => ?_
      cases hs'
      rw [henf.state] at hstop
      exact horder hs hstop

theorem timed_birth (hlog : ∀ e ∈ log, e.ticketId ≠ k) (hp : r.slaPausedMs = 0) (hs : r.slaPauseStartedAt = none) :
    Timed k r log := by
  have hnone : pausesOf k log = .none := by
    have hnil : trailOf k log = [] := List.filter_eq_nil_iff.mpr fun e he => by simpa using hlog e he
    rw [pausesOf, hnil]
    rfl
  refine ⟨?_,?_,?_⟩
  · rw [hnone, hp]
    rfl
  · rw [hnone, hs]
    rfl
  · rw [hnone]
    exact ⟨.nil,fun _ ha => (by cases ha),fun _ hr => (by cases hr)⟩

end Steps

private structure Steady (d : Desk ι) : Prop where
  coherent : d.Coherent
  locked : d.Locked fun e => e.action = .ticketTransitioned
  logged : ∀ S, (d.register S).Logged
  timed : ∀ S k r, (d.register S).tickets k = some r → Timed k r (d.register S).audit

private theorem steady_empty : Steady (Desk.empty : Desk ι) :=
  ⟨coherent_empty,locked_empty,fun _ _ he => (by cases he),fun _ _ _ hr => (by cases hr)⟩

/-- The transitions of a Ticket are the same in each view that has the transaction which moves it. -/
private theorem pausesOf_view {d : Desk ι} {i : ι} {k : Uuid} {S : ι → Bool} (h : Steady d)
    (hf : d.tickets.free i [k] = true) (hi : S i = true) :
    pausesOf k (d.register S).audit = pausesOf k (d.audit.scan fun j => j = i) := by
  have hrows := h.locked.trail hf S (fun j => j = i) (by simpa using hi)
    (fun e => decide (e.action = .ticketTransitioned) && decide (e.ticketId = k)) (by simp)
  rw [pausesOf, pausesOf, rowsOf, rowsOf, trailOf, trailOf, List.filter_filter, List.filter_filter]
  exact congrArg _ hrows

/-- A row that is stored keeps every view's accounts, if it opens its pause in order. -/
private theorem timed_stored {b : Register} {n k : Uuid} {now : Int} {old new r : Ticket} {entries : List AuditEntry}
    (h : ∀ k r, b.tickets k = some r → Timed k r b.audit) (hlaw : b.Lawful n (.stored k now old new r entries))
    (hkeep : new.slaPausedMs = old.slaPausedMs ∧ new.slaPauseStartedAt = old.slaPauseStartedAt ∧
      new.createdAt = old.createdAt)
    (horder : new.state ≠ old.state → new.state.stopsClock = true →
      old.createdAt ≤ now ∧ ∀ a ∈ (pausesOf k b.audit).counted, a.2 ≤ now) :
    ∀ k' r', (b.apply (.stored k now old new r entries)).tickets k' = some r' →
      Timed k' r' (b.apply (.stored k now old new r entries)).audit := by
  intro k' r' hr'
  cases hlaw with
  | stored hfound _ henf _ =>
    have henf := enforced_of_ok henf
    by_cases hk : k' = k
    · subst hk
      have heq : r = r' := by simpa [Register.apply] using hr'
      subst heq
      exact (h k' old hfound).append_update henf hkeep horder
    · have hr' : b.tickets k' = some r' := (Function.update_of_ne hk ..).symm.trans hr'
      refine (h k' r' hr').append_other fun e he => .inl ?_
      rw [henf.audit] at he
      rw [ticketId_of_auditTrail he]
      exact Ne.symm hk

private theorem timed_opened {b : Register} {n : Uuid} {r : Ticket} (hlog : b.Logged)
    (h : ∀ k r, b.tickets k = some r → Timed k r b.audit) (hlaw : b.Lawful n (.opened n r))
    (hp : r.slaPausedMs = 0) (hs : r.slaPauseStartedAt = none) :
    ∀ k' r', (b.apply (.opened n r)).tickets k' = some r' → Timed k' r' (b.apply (.opened n r)).audit := by
  intro k' r' hr'
  cases hlaw with
  | opened hfresh _ _ _ =>
    by_cases hk : k' = n
    · subst hk
      have heq : r = r' := by simpa [Register.apply] using hr'
      subst heq
      refine timed_birth (fun e he hek => ?_) hp hs
      obtain ⟨s,hs⟩ := Option.isSome_iff_exists.mp (hlog e he)
      exact absurd hek (Nat.ne_of_lt (hfresh e.ticketId s hs))
    · exact h k' r' ((Function.update_of_ne hk ..).symm.trans hr')

/-- The row of a new Ticket has the columns of the accumulator as the statement gave them. -/
private theorem clock_of_admitted {d : Desk ι} {i : ι} {ctx : TenantContext} {row r : Ticket} (h : Admitted d i ctx row r) :
    r.slaPausedMs = row.slaPausedMs ∧ r.slaPauseStartedAt = row.slaPauseStartedAt := by
  have hl := h.linkage
  unfold enforceLinkageOnInsert at hl
  split at hl
  · cases hl
    exact ⟨rfl,rfl⟩
  · split at hl
    · cases hl
    · cases hl
      exact ⟨rfl,rfl⟩

private theorem steady_step {ε α : Type} {d d' : Desk ι} (h : Steady d)
    (hc : Changes (deskEngine ι) Desk.world ((orderlyTerms ι ε α).Knows Stmt.KeepsClock) d d') : Steady d' := by
  obtain ⟨⟨hcoh,_⟩,hmove⟩ := registers_of_change h.coherent hc
  have hlocked := locked_of_change h.locked hc fun i ctx k entry t c _ hp => by cases entry <;> cases hp
  rcases hmove with ⟨f,hf⟩ | ⟨i,ctx,q,c,change,⟨hkeeps,hreach,req,hterm⟩,hissues,hmakes⟩
  · refine ⟨hcoh,hlocked,fun S => ?_,fun S => ?_⟩
    · rw [hf]
      exact h.logged _
    · rw [hf]
      exact h.timed _
  · -- a view without `i` is as it was; in one with `i` the change is looked at
    have hviews : ∀ S, S i = true → ∀ k r, ((d.register S).apply change).tickets k = some r →
        Timed k r ((d.register S).apply change).audit := by
      intro S hi
      have hlaw := hmakes.lawful S hi
      cases hissues with
      | @update plan k set rest written old new r entries hfree hsees hset =>
        obtain ⟨r₀,hplan⟩ := planned_of_reaches hreach (k, set) (by simp)
        refine timed_stored (h.timed S) hlaw (hkeeps k r₀ set old new hplan hset) fun hne hstop => ?_
        rw [pausesOf_view h hfree hi]
        simpa [orderlyTerms, hsees, hset, opensInOrder, hne, hstop] using hterm
      | message hfree hsees =>
        exact timed_stored (h.timed S) hlaw ⟨rfl,rfl,rfl⟩ fun hne => absurd rfl hne
      | note hfree hsees =>
        exact timed_stored (h.timed S) hlaw ⟨rfl,rfl,rfl⟩ fun hne => absurd rfl hne
      | ticket hadm =>
        obtain ⟨hp,hs⟩ := clock_of_admitted hadm
        exact timed_opened (h.logged S) (h.timed S) hlaw (hp.trans hkeeps.1) (hs.trans hkeeps.2)
      | @record k entry t c =>
        intro k' r' hr'
        refine (h.timed S k' r' hr').append_other fun e he => .inr ?_
        rw [List.mem_singleton.mp he]
        cases entry
        · exact .inl rfl
        · exact .inr rfl
    refine ⟨hcoh,hlocked,fun S => ?_,fun S => ?_⟩
    · cases hi : S i with
      | true =>
        rw [hmakes.inside S hi]
        exact (h.logged S).apply (hmakes.lawful S hi)
      | false =>
        rw [hmakes.outside S hi]
        exact h.logged S
    · cases hi : S i with
      | true =>
        rw [hmakes.inside S hi]
        exact hviews S hi
      | false =>
        rw [hmakes.outside S hi]
        exact h.timed S

/-- In every run whose transitions open their pauses in order, paused time is counted once. -/
theorem countsOnce_of_opensInOrder {ε α : Type} {acts : List (Move ι (SteadyWork ε α) Event)}
    {s : Server deskLanguage ε α ι TenantContext (Desk ι) Cursor (SteadyWork ε α)}
    (hr : Run (Server.step (deskEngine ι) (steadyService ι ε α) Desk.world)
      (fun s m => (orderlyTerms ι ε α).admits s m = true) (Server.initial Desk.empty) acts s) {k : Uuid} {r : Ticket}
    (hk : s.db.tickets.committed k = some r) : CountsOnce k r (s.db.audit.scan fun _ => false) := by
  have hsteady : Steady s.db := db_invariant (fun w => w.2) (disciplined_initial _) hr steady_empty fun d d' => steady_step
  refine countsOnce_of_timed (hsteady.timed (fun _ => false) k r ?_)
  rw [Desk.register_tickets, Table.view_none]
  exact hk

private def firstTicket : SteadyWork SqlState Unit :=
  ⟨⟨1, .system, .exec .insertContact fun
    | .error e => .fail e
    | .ok c => .exec (.insertTicket (.fresh 1 "printer" c .portal none none 0)) fun _ => .done ()⟩,
    trivial,fun r => by cases r <;> [trivial; exact ⟨⟨rfl,rfl⟩,fun _ => trivial⟩]⟩

private def moveAll (state : TicketState) : SteadyWork SqlState Unit :=
  ⟨⟨1, .user 1, .exec (.updateTickets fun _ _ => some fun r => some { r with state := state }) fun _ => .done ()⟩,
    fun _ _ _ _ _ hplan hset => by cases hplan; cases hset; exact ⟨rfl,rfl,rfl⟩,fun _ => trivial⟩

private def through (i : Nat) (n : Nat) (w : SteadyWork SqlState Unit) : List (Move Nat (SteadyWork SqlState Unit) Event) :=
  .begin i w :: List.replicate n (.advance i)

private def onePause : List (Move Nat (SteadyWork SqlState Unit) Event) :=
  [Move.world (.tick 10)] ++ through 0 4 (moveAll .pending) ++ [Move.world (.tick 20)] ++ through 0 4 (moveAll .opened)

theorem countsOnce_of_onePause :
    ∃ (s : Server deskLanguage SqlState Unit Nat TenantContext (Desk Nat) Cursor (SteadyWork SqlState Unit)) (r : Ticket),
      s.db.tickets.committed 0 = some r ∧ r.slaPausedMs = 10 ∧ CountsOnce 0 r (s.db.audit.scan fun _ => false) := by
  have hrun : (exec (Server.step (deskEngine Nat) (steadyService Nat SqlState Unit) Desk.world)
      (fun s m => (orderlyTerms Nat SqlState Unit).admits s m = true) (Server.initial Desk.empty)
      (through 0 5 firstTicket ++ onePause)).any (fun s => (s.db.tickets.committed 0).any (·.slaPausedMs = 10)) = true := by
    decide +kernel
  obtain ⟨s,hs,hany⟩ := exec_any hrun
  obtain ⟨r,hr,hms⟩ := (Option.any_eq_true _ _).mp hany
  exact ⟨s,r,hr,by simpa using hms,countsOnce_of_opensInOrder hs hr⟩

/-- Transaction 1 begins at 5 and pauses the Ticket only after the pause from 10 to 20 was counted;
when the Ticket is reopened at 30, 35 of its 30 milliseconds have been counted as paused. -/
theorem latePause_countedTwice :
    ¬ ∀ (acts : List (Move Nat (SteadyWork SqlState Unit) Event))
      (s : Server deskLanguage SqlState Unit Nat TenantContext (Desk Nat) Cursor (SteadyWork SqlState Unit)),
      Run (Server.step (deskEngine Nat) (steadyService Nat SqlState Unit) Desk.world) Always (Server.initial Desk.empty) acts s →
        ∀ k r, s.db.tickets.committed k = some r → CountsOnce k r (s.db.audit.scan fun _ => false) := by
  intro h
  have hrun : (exec (Server.step (deskEngine Nat) (steadyService Nat SqlState Unit) Desk.world) Always
      (Server.initial Desk.empty) (through 0 5 firstTicket ++ [.world (.tick 5), .begin 1 (moveAll .pending)] ++ onePause ++
        List.replicate 4 (.advance 1) ++ [.world (.tick 30)] ++ through 0 4 (moveAll .opened))).any (fun s =>
        (s.db.tickets.committed 0).any (fun r => r.slaPausedMs = 35 ∧ r.slaPauseStartedAt = none ∧ r.createdAt = 0) ∧
        (rowsOf .state (trailOf 0 (s.db.audit.scan fun _ => false))).all (·.createdAt ≤ 30)) = true := by
    decide +kernel
  obtain ⟨s,hs,hany⟩ := exec_any hrun
  simp only [decide_eq_true_eq] at hany
  obtain ⟨r,hr,hrow⟩ := (Option.any_eq_true _ _).mp hany.1
  simp only [decide_eq_true_eq] at hrow
  have hle := (h _ s hs 0 r hr).bounded 30 (by omega) (by simpa using hany.2)
  rw [hrow.2.1] at hle
  simp only [Option.elim_none] at hle
  omega

end Nivara.Tickets
