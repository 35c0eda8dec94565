import Nivara.Sla.DwellSweep
import Nivara.Sla.FireOnce
import Nivara.Tickets.AuditTrail
import Nivara.Tickets.PauseClock
import Nivara.Tickets.Services

/-! What happens to Tickets one transaction at a time, under one clock, and what the columns that the
sweep reads say of it: the pause accumulator tells the time that the Ticket has been running, and the
first response is the first Message of staff. -/
namespace Nivara.Sla
open Transactions Tickets Tickets.Tx

/-- What is done in one transaction, apart from a sweep for breaches. -/
inductive Deed where
  | contact
  | create (input : CreateTicketInput)
  | transition (permissions : List Permission) (id : Uuid) (to' : TicketState)
  | setPriority (id : Uuid) (priority : TicketPriority)
  | setAssignee (id : Uuid) (assigneeId : Option Uuid)
  | post (id : Uuid) (body : String)
  | note (id : Uuid) (body : String)
  | reply (contactId id : Uuid) (body : String) (source : TicketSource)
  | openThread (contactId : Uuid) (message : Slack.SlackUtterance)
  | settle

def Deed.script (tenantId : Uuid) (at' : Int) : Deed → Tx Unit
  | .contact => do let _ ← run .insertContact .sql
  | .create input => do let _ ← createIn tenantId input at'
  | .transition permissions id to' => do let _ ← transitionIn permissions id to' at'
  | .setPriority id priority => do let _ ← Tickets.setPriority id priority at'
  | .setAssignee id assigneeId => do let _ ← Tickets.setAssignee id assigneeId at'
  | .post id body => do let _ ← postIn id body at'
  | .note id body => do let _ ← writeNote id body at'
  | .reply contactId id body source => do let _ ← Tickets.reply ⟨tenantId, contactId⟩ id body source at'
  | .openThread contactId message => do let _ ← Slack.openThread ⟨tenantId, contactId⟩ message at'
  | .settle => do let _ ← settleTenant at'

def Deed.armed (actor : Actor) : Deed → Actor
  | .reply contactId _ _ _ => .contact contactId
  | .openThread contactId _ => .contact contactId
  | .settle => .system
  | _ => actor

/-- The database between transactions, and the instant at which each tenant was last swept for breaches. -/
structure Chronicle where
  desk : Desk Unit
  swept : Uuid → Option Int

/-- The clock goes on, or a transaction is run to its end; no statement of it takes more than `turns`
turns. -/
inductive Act where
  | event (w : Tickets.Event)
  | deed (tenantId : Uuid) (actor : Actor) (deed : Deed) (turns : Nat)
  | sweep (tenantId : Uuid) (targets : Targets) (turns : Nat)

namespace Chronicle

def initial : Chronicle := ⟨Desk.empty, fun _ => none⟩

def sweepNow (d : Desk Unit) (tenantId : Uuid) (targets : Targets) (turns : Nat) :
    Option (Desk Unit × Except (Option Failure) (List Breach)) :=
  (latchTenant tenantId targets d.clock d.clock).alone (deskEngine Unit) () ⟨tenantId, .system, d.clock⟩ turns d

def step (s : Chronicle) : Act → Option Chronicle
  | .event w => (s.desk.world w).map fun d => { s with desk := d }
  | .deed tenantId actor deed turns =>
    ((deed.script tenantId s.desk.clock).alone (deskEngine Unit) () ⟨tenantId, deed.armed actor, s.desk.clock⟩ turns s.desk).map
      fun p => { s with desk := p.1 }
  | .sweep tenantId targets turns =>
    if (s.swept tenantId).all (· < s.desk.clock) then
      (sweepNow s.desk tenantId targets turns).map fun p => ⟨p.1, Function.update s.swept tenantId (some s.desk.clock)⟩
    else none

end Chronicle

def isResponse (m : Entry) : Bool :=
  match m.author with
  | .user _ => true
  | .service _ => true
  | _ => false

def responsesTo (k : Uuid) (messages : List Entry) : List Entry := messages.filter fun m => m.ticketId = k && isResponse m

def moveOf (e : AuditEntry) : Option (Int × TicketState) :=
  match e.toValue with
  | some (.state s) => some (e.createdAt, s)
  | _ => none

def movesOf (k : Uuid) (log : List AuditEntry) : List (Int × TicketState) := (rowsOf .state (trailOf k log)).filterMap moveOf

/-- What the columns of the Tickets say of the log and the Messages, at an instant `now`. -/
structure Accounted (now : Int) (b : Register) (messages : List Entry) : Prop where
  whole : ∀ k r, b.tickets k = some r → r.isWhole = true
  history : ∀ k r, b.tickets k = some r → ∃ last, last ≤ now ∧ History k (movesOf k b.audit) last r
  answered : ∀ k r, b.tickets k = some r → r.firstResponseAt = (responsesTo k messages).head?.map Entry.createdAt
  addressed : ∀ m ∈ messages, (b.tickets m.ticketId).isSome
  logged : b.Logged

section Accounts
variable {now : Int} {b : Register} {messages : List Entry} {k n : Uuid} {old new r : Ticket} {entries : List AuditEntry}

theorem movesOf_update {log : List AuditEntry} : movesOf k (log ++ auditTrail k now old r) =
    if r.state = old.state then movesOf k log else movesOf k log ++ [(now, r.state)] := by
  rw [movesOf, rowsOf_trailOf_update, List.filterMap_append]
  by_cases hs : r.state = old.state
  · simp [Ticket.audited, hs, auditOf, movesOf]
  · have hne : ¬ old.state = r.state := fun h => hs h.symm
    simp [Ticket.audited, hs, hne, auditOf, movesOf, moveOf]

theorem movesOf_other {log rows : List AuditEntry}
    (hrows : ∀ e ∈ rows, e.ticketId ≠ k ∨ e.action = .ticketCreated ∨ e.action = .slaBreached) :
    movesOf k (log ++ rows) = movesOf k log := by
  rw [movesOf, rowsOf_trailOf_other .state hrows]
  rfl

theorem movesOf_unlogged {log : List AuditEntry} (h : ∀ e ∈ log, e.ticketId ≠ k) : movesOf k log = [] := by
  have hnone : trailOf k log = [] := List.filter_eq_nil_iff.mpr fun e he => by simpa using h e he
  rw [movesOf, hnone]
  rfl

/-- A later instant will do. -/
theorem Accounted.mono {later : Int} (h : Accounted now b messages) (hl : now ≤ later) : Accounted later b messages :=
  ⟨h.whole,fun k r hr => (h.history k r hr).imp fun _ hh => ⟨Int.le_trans hh.1 hl,hh.2⟩,h.answered,h.addressed,h.logged⟩

/-- A new version of Ticket `k` is stored, and the Messages there are become `messages'`. -/
theorem Accounted.store {messages' : List Entry} (h : Accounted now b messages)
    (hlaw : b.Lawful n (.stored k now old new r entries)) (hwhole : r.isWhole = true)
    (hpaused : new.slaPausedMs = old.slaPausedMs) (hstarted : new.slaPauseStartedAt = old.slaPauseStartedAt)
    (hcreated : new.createdAt = old.createdAt)
    (hanswered : ∀ j r', (b.apply (.stored k now old new r entries)).tickets j = some r' →
      r'.firstResponseAt = (responsesTo j messages').head?.map Entry.createdAt)
    (haddressed : ∀ m ∈ messages', m ∈ messages ∨ m.ticketId = k) :
    Accounted now (b.apply (.stored k now old new r entries)) messages' := by
  have hlogged := h.logged.apply hlaw
  cases hlaw with
  | stored hfound _ henf _ =>
    have hok := enforced_of_ok henf
    refine ⟨fun j r' hr' => ?_,fun j r' hr' => ?_,hanswered,fun m hm => ?_,hlogged⟩
    · simp only [Register.apply] at hr'
      by_cases hj : j = k
      · subst hj
        rw [Function.update_self] at hr'
        cases hr'
        exact hwhole
      · rw [Function.update_of_ne hj] at hr'
        exact h.whole j r' hr'
    · simp only [Register.apply, hok.audit] at hr' ⊢
      by_cases hj : j = k
      · subst hj
        rw [Function.update_self] at hr'
        cases hr'
        obtain ⟨last,hlast,hhist⟩ := h.history j old hfound
        rw [movesOf_update]
        exact ⟨now,Int.le_refl _,.update hhist hlast hpaused hstarted hcreated henf⟩
      · rw [Function.update_of_ne hj] at hr'
        rw [movesOf_other fun e he => .inl (by rw [ticketId_of_auditTrail he]; exact Ne.symm hj)]
        exact h.history j r' hr'
    · simp only [Register.apply]
      by_cases hj : m.ticketId = k
      · rw [hj, Function.update_self]
        rfl
      · rw [Function.update_of_ne hj]
        exact h.addressed m ((haddressed m hm).resolve_right hj)

/-- An edit that leaves the columns of the clocks alone. -/
theorem Accounted.edit (h : Accounted now b messages) (hlaw : b.Lawful n (.stored k now old new r entries))
    (hwhole : r.isWhole = true) (hpaused : new.slaPausedMs = old.slaPausedMs)
    (hstarted : new.slaPauseStartedAt = old.slaPauseStartedAt) (hcreated : new.createdAt = old.createdAt)
    (hfirst : new.firstResponseAt = old.firstResponseAt) :
    Accounted now (b.apply (.stored k now old new r entries)) messages := by
  refine h.store hlaw hwhole hpaused hstarted hcreated (fun j r' hr' => ?_) fun m hm => .inl hm
  cases hlaw with
  | stored hfound _ henf _ =>
    simp only [Register.apply] at hr'
    by_cases hj : j = k
    · subst hj
      rw [Function.update_self] at hr'
      cases hr'
      rw [(enforced_of_ok henf).firstResponse, hfirst, ← h.answered j old hfound]
      cases old.firstResponseAt <;> rfl
    · rw [Function.update_of_ne hj] at hr'
      exact h.answered j r' hr'

/-- A Message, which its Ticket observes. -/
theorem Accounted.post {m : Entry} (h : Accounted now b messages) (hk : m.ticketId = k)
    (hlaw : b.Lawful n (.stored k now old (observeMessage m old) r entries)) (hwhole : r.isWhole = true) :
    Accounted now (b.apply (.stored k now old (observeMessage m old) r entries)) (messages ++ [m]) := by
  refine h.store hlaw hwhole rfl rfl rfl (fun j r' hr' => ?_) fun x hx => ?_
  · have hsplit : responsesTo j (messages ++ [m]) = responsesTo j messages ++ if k = j ∧ isResponse m then [m] else [] := by
      rw [responsesTo, List.filter_append, ← hk]
      by_cases hj : m.ticketId = j ∧ isResponse m = true
      · simp [responsesTo, hj]
      · rw [if_neg hj]
        congr 1
        exact List.filter_eq_nil_iff.mpr fun x hx => by
          rw [List.mem_singleton.mp hx]
          simpa using hj
    rw [hsplit]
    cases hlaw with
    | stored hfound _ henf _ =>
      simp only [Register.apply] at hr'
      by_cases hj : j = k
      · subst hj
        rw [Function.update_self] at hr'
        cases hr'
        have hold := h.answered j old hfound
        rw [(enforced_of_ok henf).firstResponse]
        cases hresp : responsesTo j messages with
        | cons x rest =>
          rw [hresp] at hold
          simp only [List.head?_cons, Option.map_some] at hold
          rw [hold]
          rfl
        | nil =>
          rw [hresp] at hold
          simp only [List.head?_nil, Option.map_none] at hold
          simp only [observeMessage, hold, setOnce, Option.none_or]
          cases ha : m.author <;> simp [isResponse, ha]
      · rw [Function.update_of_ne hj] at hr'
        have hne : ¬ (k = j ∧ isResponse m = true) := fun hc => hj hc.1.symm
        rw [if_neg hne, List.append_nil]
        exact h.answered j r' hr'
  · rcases List.mem_append.mp hx with hx | hx
    · exact .inl hx
    · rw [List.mem_singleton.mp hx]
      exact .inr hk

/-- A Ticket is born. -/
theorem Accounted.opened (h : Accounted now b messages) (hlaw : b.Lawful n (.opened n r)) (hwhole : r.isWhole = true)
    (hcreated : r.createdAt = now) (hpaused : r.slaPausedMs = 0) (hstarted : r.slaPauseStartedAt = none)
    (hfirst : r.firstResponseAt = none) : Accounted now (b.apply (.opened n r)) messages := by
  have hlogged := h.logged.apply hlaw
  cases hlaw with
  | opened hfresh hborn _ _ =>
    have hnew : b.tickets n = none := by
      cases hn : b.tickets n with
      | none => rfl
      | some r' => exact absurd (hfresh n r' hn) (Nat.lt_irrefl _)
    refine ⟨fun j r' hr' => ?_,fun j r' hr' => ?_,fun j r' hr' => ?_,fun m hm => ?_,hlogged⟩
    · simp only [Register.apply] at hr'
      by_cases hj : j = n
      · subst hj
        rw [Function.update_self] at hr'
        cases hr'
        exact hwhole
      · rw [Function.update_of_ne hj] at hr'
        exact h.whole j r' hr'
    · simp only [Register.apply] at hr' ⊢
      by_cases hj : j = n
      · subst hj
        rw [Function.update_self] at hr'
        cases hr'
        have hnone : movesOf j b.audit = [] := movesOf_unlogged fun e he hk => by
          have hsome := h.logged e he
          rw [hk, hnew] at hsome
          cases hsome
        rw [hnone]
        exact ⟨r.createdAt,Int.le_of_eq hcreated,.born hborn hpaused hstarted⟩
      · rw [Function.update_of_ne hj] at hr'
        exact h.history j r' hr'
    · simp only [Register.apply] at hr'
      by_cases hj : j = n
      · subst hj
        rw [Function.update_self] at hr'
        cases hr'
        have hnone : responsesTo j messages = [] := List.filter_eq_nil_iff.mpr fun m hm hk => by
          have hsome := h.addressed m hm
          simp only [Bool.and_eq_true, decide_eq_true_eq] at hk
          rw [hk.1, hnew] at hsome
          cases hsome
        rw [hnone, hfirst]
        rfl
      · rw [Function.update_of_ne hj] at hr'
        exact h.answered j r' hr'
    · simp only [Register.apply]
      by_cases hj : m.ticketId = n
      · rw [hj, Function.update_self]
        rfl
      · rw [Function.update_of_ne hj]
        exact h.addressed m hm

theorem Accounted.record {entry : Recorded} {t : Int} (h : Accounted now b messages)
    (hlaw : b.Lawful n (.recorded k entry t)) : Accounted now (b.apply (.recorded k entry t)) messages := by
  refine ⟨h.whole,fun j r hr => ?_,h.answered,h.addressed,h.logged.apply hlaw⟩
  simp only [Register.apply]
  rw [movesOf_other fun e he => .inr (by rw [List.mem_singleton.mp he]; cases entry <;> simp [Recorded.entry])]
  exact h.history j r hr

end Accounts

/-- Every latch holds an instant at which its tenant was swept, or an earlier one. -/
def Latched (swept : Uuid → Option Int) (b : Register) : Prop :=
  ∀ k r timer t, b.tickets k = some r → latchOf r timer = some t → ∃ u, swept r.tenantId = some u ∧ t ≤ u

section Deeds
variable {swept : Uuid → Option Int} {b : Register} {n : Uuid} {now : Int} {d d' : Desk Unit} {ctx : TenantContext} {q : Stmt}
  {c : Cursor}

private theorem setOnce_cases {old new : Option Int} {t : Int} (h : setOnce old new = some t) : old = some t ∨ new = some t := by
  cases old with
  | none => exact .inr h
  | some u => exact .inl h

/-- What was there stays, with its latches, and a new latch is of a sweep. -/
theorem Latched.apply {change : Change} (h : Latched swept b) (hlaw : b.Lawful n change)
    (hstored : ∀ k now old new r entries, change = .stored k now old new r entries → ∀ timer t, latchOf new timer = some t →
      latchOf old timer = some t ∨ ∃ u, swept old.tenantId = some u ∧ t ≤ u)
    (hopened : ∀ k r, change = .opened k r → ∀ timer, latchOf r timer = none) : Latched swept (b.apply change) := by
  intro j r' timer t hr' hlatch
  cases hlaw with
  | @stored k now old new r entries hfound _ henf hten =>
    simp only [Register.apply] at hr'
    by_cases hj : j = k
    · subst hj
      rw [Function.update_self] at hr'
      cases hr'
      have hcase : latchOf old timer = some t ∨ latchOf new timer = some t := by
        cases timer with
        | firstResponse => exact setOnce_cases ((enforced_of_ok henf).firstResponseBreached ▸ hlatch)
        | resolution => exact setOnce_cases ((enforced_of_ok henf).resolutionBreached ▸ hlatch)
      rw [hten]
      rcases hcase with hold | hnew
      · exact h j old timer t hfound hold
      · rcases hstored j now old new r' entries rfl timer t hnew with hold | hu
        · exact h j old timer t hfound hold
        · exact hu
    · rw [Function.update_of_ne hj] at hr'
      exact h j r' timer t hr' hlatch
  | @opened r _ _ _ _ =>
    simp only [Register.apply] at hr'
    by_cases hj : j = n
    · subst hj
      rw [Function.update_self] at hr'
      cases hr'
      rw [hopened j r' rfl timer] at hlatch
      cases hlatch
    · rw [Function.update_of_ne hj] at hr'
      exact h j r' timer t hr' hlatch
  | recorded _ => exact h j r' timer t hr' hlatch

/-- The database in the middle of a transaction that began at `now`: what is committed, and what would
be if the transaction were. -/
structure Underway (swept : Uuid → Option Int) (now : Int) (d : Desk Unit) : Prop where
  clock : d.clock = now
  coherent : d.Coherent
  accounted : ∀ S, Accounted now (d.register S) (d.messages.scan S)
  latched : ∀ S, Latched swept (d.register S)

/-- What `enforceLinkageOnInsert` makes of a fresh row. -/
theorem fresh_of_admitted {row r : Ticket} {at' : Int} (hplain : Stmt.Plain at' (.insertTicket row))
    (h : Admitted d () ctx row r) : r.createdAt = at' ∧ r.slaPausedMs = 0 ∧ r.slaPauseStartedAt = none ∧
      r.firstResponseAt = none ∧ ∀ timer, latchOf r timer = none := by
  obtain ⟨_,_,_,_,_,_,rfl⟩ := hplain
  have hl := h.linkage
  have hlatch : ∀ r : Ticket, r.firstResponseBreachedAt = none → r.resolutionBreachedAt = none → ∀ timer, latchOf r timer = none :=
    fun r h₁ h₂ timer => by cases timer <;> assumption
  unfold enforceLinkageOnInsert at hl
  split at hl
  · cases hl
    exact ⟨rfl,rfl,rfl,rfl,hlatch _ rfl rfl⟩
  · split at hl
    · cases hl
    · cases hl
      exact ⟨rfl,rfl,rfl,rfl,hlatch _ rfl rfl⟩

private theorem underway_stored {k : Uuid} {old new r : Ticket} (messages : (Unit → Bool) → List Entry)
    (h : Underway swept now d) (hctx : ctx.now = now) (hf : d.tickets.free () [k] = true) (hs : d.sees () ctx k = some old)
    (hst : Stored d () ctx k old new d' r)
    (hlatch : ∀ timer t, latchOf new timer = some t → latchOf old timer = some t ∨ ∃ u, swept old.tenantId = some u ∧ t ≤ u)
    (hbooks : ∀ S entries, S () = true → (d.register S).Lawful d.tickets.size (.stored k now old new r entries) →
      r.isWhole = true → Accounted now ((d.register S).apply (.stored k now old new r entries)) (messages S))
    (hout : ∀ S, S () = false → messages S = d.messages.scan S) (S : Unit → Bool) :
    d'.Coherent ∧ Accounted now (d'.register S) (messages S) ∧ Latched swept (d'.register S) := by
  obtain ⟨entries,hm⟩ := makes_stored hf hs hst
  rw [hctx] at hm
  have hcoh : d'.Coherent := by
    have hev := evolves_of_stored hs hst
    obtain ⟨_,_,rfl⟩ := hst.enforced
    exact h.coherent.write Evolves.refl Evolves.trans hf (Desk.sees_some.mp hs).1 hev
  refine ⟨hcoh,?_⟩
  cases hS : S () with
  | true =>
    have hlaw := hm.lawful S hS
    rw [hm.inside S hS]
    refine ⟨hbooks S entries hS hlaw hst.whole,(h.latched S).apply hlaw ?_ fun k r heq => (by cases heq)⟩
    intro k now old new r entries heq
    cases heq
    exact hlatch
  | false =>
    rw [hm.outside S hS, hout S hS]
    exact ⟨h.accounted S,h.latched S⟩

def Timely (marked : Prop) (now : Int) (q : Stmt) : Prop :=
  q.Plain now ∨ recordsBreach q = true ∨ marked ∧ ∃ targets, q = .updateTickets (due targets now)

/-- What an `UPDATE` of the services or the sweep leaves alone in a row. -/
private theorem timely_update {plan : Uuid → Ticket → Option (Ticket → Option Ticket)} {set : Ticket → Option Ticket} {k : Uuid}
    {r₀ old new : Ticket} {marked : Prop} (h : Timely marked now (.updateTickets plan)) (hplan : plan k r₀ = some set)
    (hset : set old = some new) : new.slaPausedMs = old.slaPausedMs ∧ new.slaPauseStartedAt = old.slaPauseStartedAt ∧
      new.createdAt = old.createdAt ∧ new.firstResponseAt = old.firstResponseAt ∧
      ∀ timer t, latchOf new timer = some t → latchOf old timer = some t ∨ marked ∧ t = now := by
  rcases h with hplain | hrec | ⟨hmark,targets,heq⟩
  · have hnew := hplain k r₀ set old new hplan hset
    rw [hnew]
    exact ⟨rfl,rfl,rfl,rfl,fun timer t ht => .inl (by cases timer <;> exact ht)⟩
  · cases hrec
  · cases heq
    obtain ⟨target,_,hdue⟩ := Option.bind_eq_some_iff.mp hplan
    obtain ⟨_,hlatch⟩ := Option.ite_none_right_eq_some.mp hdue
    cases hlatch
    cases hset
    refine ⟨rfl,rfl,rfl,rfl,fun timer t ht => ?_⟩
    cases timer with
    | firstResponse =>
      simp only [latchOf, latch] at ht
      split at ht
      · exact .inr ⟨hmark,(Option.some.inj ht).symm⟩
      · exact .inl ht
    | resolution =>
      simp only [latchOf, latch] at ht
      split at ht
      · exact .inr ⟨hmark,(Option.some.inj ht).symm⟩
      · exact .inl ht

theorem underway_of_effect (h : Underway swept now d) (hctx : ctx.now = now)
    (htimely : Timely (swept ctx.tenantId = some now) now q) (hreach : (deskEngine Unit).Reaches () ctx q c)
    (he : Effect d () ctx q c d') : Underway swept now d' := by
  cases he with
  | aside hclock ht hmsg _ ha =>
    have hreg : ∀ S, d'.register S = d.register S := fun S => by simp [Desk.register, ht, ha]
    refine ⟨hclock.trans h.clock,?_,fun S => ?_,fun S => ?_⟩
    · rw [Desk.Coherent, ht]
      exact h.coherent
    · rw [hreg, hmsg]
      exact h.accounted S
    · rw [hreg]
      exact h.latched S
  | @updated plan k set rest written old new r _ hf hs hset hst =>
    obtain ⟨r₀,hplan⟩ := planned_of_reaches hreach (k, set) List.mem_cons_self
    obtain ⟨hpaused,hstarted,hcreated,hfirst,hlatch⟩ := timely_update htimely hplan hset
    have hmsg := (Desk.stored_frame hst).1
    have hall := underway_stored (fun S => d.messages.scan S) h hctx hf hs hst (fun timer t ht => ?_)
      (fun S entries hS hlaw hw => (h.accounted S).edit hlaw hw hpaused hstarted hcreated hfirst) fun S _ => rfl
    · refine ⟨(Desk.stored_frame hst).2.2.2.trans h.clock,(hall fun _ => true).1,fun S => ?_,fun S => (hall S).2.2⟩
      rw [hmsg]
      exact (hall S).2.1
    · rcases hlatch timer t ht with hold | ⟨hmark,rfl⟩
      · exact .inl hold
      · have hten := (Desk.sees_some.mp hs).2
        simp only [Ticket.visibleTo, decide_eq_true_eq] at hten
        exact .inr ⟨t,by rw [hten.1]; exact hmark,Int.le_refl _⟩
  | @inserted row r c hadm =>
    have hplain : Stmt.Plain now (.insertTicket row) := by
      rcases htimely with hplain | hrec | ⟨_,_,heq⟩
      · exact hplain
      · cases hrec
      · cases heq
    obtain ⟨hcreated,hpaused,hstarted,hfirst,hlatch⟩ := fresh_of_admitted hplain hadm
    have hm := makes_inserted h.coherent hadm
    refine ⟨h.clock,Table.Follows.insert h.coherent _ _,fun S => ?_,fun S => ?_⟩
    · cases hS : S () with
      | true =>
        rw [hm.inside S hS]
        exact (h.accounted S).opened (hm.lawful S hS) hadm.whole hcreated hpaused hstarted hfirst
      | false =>
        rw [hm.outside S hS]
        exact h.accounted S
    · cases hS : S () with
      | true =>
        rw [hm.inside S hS]
        refine (h.latched S).apply (hm.lawful S hS) (fun _ _ _ _ _ _ heq => (by cases heq)) fun k r' heq => ?_
        cases heq
        exact hlatch
      | false =>
        rw [hm.outside S hS]
        exact h.latched S
  | @posted k body t c old r d₁ hf hs hst =>
    have hmsg := (Desk.stored_frame hst).1
    have hall := underway_stored (fun S => (d.messages.insert () ⟨ctx.tenantId, k, body, ctx.actor, t⟩).scan S) h hctx hf hs hst
      (fun timer t ht => .inl (by cases timer <;> exact ht)) (fun S entries hS hlaw hw => ?_) fun S hS => ?_
    · exact ⟨(Desk.stored_frame hst).2.2.2.trans h.clock,(hall fun _ => true).1,fun S => (hall S).2.1,fun S => (hall S).2.2⟩
    · rw [Table.scan_insert, if_pos hS]
      exact (h.accounted S).post rfl hlaw hw
    · rw [Table.scan_insert, hS]
      simp
  | @noted k body t c old r d₁ hf hs hst =>
    have hmsg := (Desk.stored_frame hst).1
    have hall := underway_stored (fun S => d.messages.scan S) h hctx hf hs hst
      (fun timer t ht => .inl (by cases timer <;> exact ht)) (fun S entries hS hlaw hw => (h.accounted S).edit hlaw hw rfl rfl rfl rfl) fun S _ => rfl
    refine ⟨(Desk.stored_frame hst).2.2.2.trans h.clock,(hall fun _ => true).1,fun S => ?_,fun S => (hall S).2.2⟩
    simp only [hmsg]
    exact (hall S).2.1
  | @recorded k entry t c hhas =>
    have hm : Makes d () (.recorded k entry t) _ := makes_recorded h.coherent hhas
    refine ⟨h.clock,h.coherent,fun S => ?_,fun S => ?_⟩
    · cases hS : S () with
      | true =>
        rw [hm.inside S hS]
        exact (h.accounted S).record (hm.lawful S hS)
      | false =>
        rw [hm.outside S hS]
        exact h.accounted S
    · cases hS : S () with
      | true =>
        rw [hm.inside S hS]
        exact (h.latched S).apply (hm.lawful S hS) (fun _ _ _ _ _ _ heq => (by cases heq)) fun _ _ heq => (by cases heq)
      | false =>
        rw [hm.outside S hS]
        exact h.latched S

/-- What is committed and what would be are one: no transaction is open. -/
structure Settled (d : Desk Unit) : Prop where
  tickets : ∀ k, d.tickets.pending k = none
  messages : ∀ k, d.messages.pending k = none
  notes : ∀ k, d.notes.pending k = none
  audit : ∀ k, d.audit.pending k = none
  contacts : ∀ k, d.contacts.pending k = none
  deliveries : ∀ k, d.deliveries.pending k = none
  jobs : ∀ k, d.jobs.pending k = none

private theorem settled_table {R : Type} (t : Table Unit R) (k : Nat) : (t.commit ()).pending k = none := by
  have hown := Table.own_commit_self t () k
  cases hp : (t.commit ()).pending k with
  | none => rfl
  | some p =>
    rw [(Table.own_eq_some_iff _ _ _).mpr (show (t.commit ()).pending k = some ((), p.2) from hp)] at hown
    cases hown

theorem settled_commit (d : Desk Unit) : Settled (d.commit ()) :=
  ⟨settled_table _,settled_table _,settled_table _,settled_table _,settled_table _,settled_table _,settled_table _⟩

/-- The pending rows after a rollback are those after a commit. -/
theorem settled_rollback (d : Desk Unit) : Settled (d.rollback ()) :=
  ⟨settled_table _,settled_table _,settled_table _,settled_table _,settled_table _,settled_table _,settled_table _⟩

theorem Underway.commit (h : Underway swept now d) : Underway swept now (d.commit ()) := by
  refine ⟨h.clock,h.coherent.commit (),fun S => ?_,fun S => ?_⟩
  · rw [Desk.register_commit, Desk.commit, Table.scan_commit]
    exact h.accounted _
  · rw [Desk.register_commit]
    exact h.latched _

theorem Underway.rollback (h : Underway swept now d) : Underway swept now (d.rollback ()) := by
  refine ⟨h.clock,h.coherent.rollback (),fun S => ?_,fun S => ?_⟩
  · rw [Desk.register_rollback, Desk.rollback, Table.scan_rollback]
    exact h.accounted _
  · rw [Desk.register_rollback]
    exact h.latched _

/-- A transaction of such statements, from its beginning to its end. -/
private theorem underway_alone {α : Type} {p : Tx α} {n : Nat} {r : Except (Option Failure) α} (h : Underway swept now d)
    (hctx : ctx.now = now) (hp : p.Only (Timely (swept ctx.tenantId = some now) now))
    (ha : p.alone (deskEngine Unit) () ctx n d = some (d', r)) : Underway swept now d' ∧ Settled d' :=
  Script.alone_invariant (P := Underway swept now) (Q := fun d => Underway swept now d ∧ Settled d)
    (fun _ _ _ _ _ hq hreach hd ht => underway_of_effect hd hctx hq hreach (effect_of_more ht))
    (fun _ _ _ _ _ hq hreach hd ht => underway_of_effect hd hctx hq hreach (effect_of_answer ht))
    (fun d hd => ⟨hd.commit,settled_commit d⟩) (fun d hd => ⟨hd.rollback,settled_rollback d⟩) hp h ha

private theorem plain_settleAll (list : List DwellTimer) : (settleAll now list).Only (Stmt.Plain now) := by
  induction list with
  | nil => trivial
  | cons timer rest ih =>
    refine Script.Only.bind ?_ fun _ => ih.bind fun _ => trivial
    unfold settle
    split
    · trivial
    · refine (Script.only_query (setsPlainly_updateMany fun _ => rfl)).bind fun rows => ?_
      split
      · trivial
      · exact plain_repertoire.findMany

/-- Apart from the dwell timers, what is done is done by the services. -/
theorem only_deed {p : Stmt → Prop} {tenantId : Uuid} (h : Repertoire now p) (deed : Deed) (hne : deed ≠ .settle) :
    (deed.script tenantId now).Only p := by
  cases deed with
  | contact => exact (Script.only_query h.contacts).bind fun _ => trivial
  | create input => exact h.createIn.bind fun _ => trivial
  | transition permissions id to' => exact h.transitionIn.bind fun _ => trivial
  | setPriority id priority => exact h.setPriority.bind fun _ => trivial
  | setAssignee id assigneeId => exact h.setAssignee.bind fun _ => trivial
  | post id body => exact h.postIn.bind fun _ => trivial
  | note id body => exact h.writeNote.bind fun _ => trivial
  | reply contactId id body source => exact h.reply.bind fun _ => trivial
  | openThread contactId message => exact h.openThread.bind fun _ => trivial
  | settle => exact absurd rfl hne

theorem plain_deed {tenantId : Uuid} (deed : Deed) : (deed.script tenantId now).Only (Stmt.Plain now) := by
  by_cases hsettle : deed = .settle
  · rw [hsettle]
    exact (plain_settleAll timers).bind fun _ => trivial
  · exact only_deed plain_repertoire deed hsettle

private theorem timely_recordBreaches {marked : Prop} {at' : Int} (breaches : List Breach) :
    (recordBreaches at' breaches).Only (Timely marked now) := by
  induction breaches with
  | nil => trivial
  | cons b rest ih => exact (Script.only_query (.inr (.inl rfl))).bind fun _ => ih

theorem timely_latchTenant {marked : Prop} {tenantId : Uuid} {targets : Targets} {at' : Int} (hmark : marked) :
    (latchTenant tenantId targets now at').Only (Timely marked now) :=
  (Script.only_query (.inr (.inr ⟨hmark,targets,rfl⟩))).bind fun _ => (timely_recordBreaches _).bind fun _ => trivial

/-- Between the transactions: all of them are over, and the books are right. -/
structure Chronicle.Sound (s : Chronicle) : Prop where
  settled : Settled s.desk
  underway : Underway s.swept s.desk.clock s.desk

theorem settled_empty : Settled Desk.empty :=
  ⟨fun _ => rfl,fun _ => rfl,fun _ => rfl,fun _ => rfl,fun _ => rfl,fun _ => rfl,fun _ => rfl⟩

theorem underway_empty : Underway swept 0 Desk.empty :=
  ⟨rfl,coherent_empty,fun S => ⟨fun _ _ h => (by cases h),fun _ _ h => (by cases h),fun _ _ h => (by cases h),
    fun _ h => (by cases h),fun _ h => (by cases h)⟩,fun S k r timer t h => (by cases h)⟩

private theorem sound_initial : Chronicle.initial.Sound := ⟨settled_empty,underway_empty⟩

theorem Underway.event {w : Tickets.Event} (h : Underway swept d.clock d) (hw : d.world w = some d') :
    Underway swept d'.clock d' := by
  have hle := Desk.clock_of_world hw
  obtain ⟨clock,users,rfl⟩ := Desk.of_world hw
  exact ⟨rfl,h.coherent,fun S => (h.accounted S).mono hle,h.latched⟩

private theorem Latched.mark {tenantId : Uuid} (h : Latched swept b) (hm : ∀ u, swept tenantId = some u → u < now) :
    Latched (Function.update swept tenantId (some now)) b := by
  intro k r timer t hr ht
  obtain ⟨u,hu,hle⟩ := h k r timer t hr ht
  by_cases hten : r.tenantId = tenantId
  · rw [hten, Function.update_self]
    exact ⟨now,rfl,Int.le_trans hle (Int.le_of_lt (hm u (hten ▸ hu)))⟩
  · rw [Function.update_of_ne hten]
    exact ⟨u,hu,hle⟩

theorem Chronicle.Sound.step {s s' : Chronicle} {act : Act} (h : s.Sound) (hs : s.step act = some s') : s'.Sound := by
  cases act with
  | event w =>
    obtain ⟨d,hw,rfl⟩ := Option.map_eq_some_iff.mp hs
    refine ⟨?_,h.underway.event hw⟩
    obtain ⟨_,_,rfl⟩ := Desk.of_world hw
    exact ⟨h.settled.tickets,h.settled.messages,h.settled.notes,h.settled.audit,h.settled.contacts,h.settled.deliveries,h.settled.jobs⟩
  | deed tenantId actor deed turns =>
    obtain ⟨p,hp,rfl⟩ := Option.map_eq_some_iff.mp hs
    obtain ⟨hu,hset⟩ := underway_alone h.underway rfl ((plain_deed deed).mono fun _ => .inl) hp
    refine ⟨hset,?_⟩
    rw [hu.clock]
    exact hu
  | sweep tenantId targets turns =>
    obtain ⟨hmark,hs⟩ := Option.ite_none_right_eq_some.mp hs
    obtain ⟨p,hp,rfl⟩ := Option.map_eq_some_iff.mp hs
    have hfirst : Underway (Function.update s.swept tenantId (some s.desk.clock)) s.desk.clock s.desk := by
      refine ⟨rfl,h.underway.coherent,h.underway.accounted,fun S => (h.underway.latched S).mark fun u hu => ?_⟩
      simpa [hu] using hmark
    have hself : Function.update s.swept tenantId (some s.desk.clock) tenantId = some s.desk.clock := Function.update_self ..
    obtain ⟨hu,hset⟩ := underway_alone hfirst rfl (timely_latchTenant hself) hp
    refine ⟨hset,?_⟩
    rw [hu.clock]
    exact hu

/-- In every run the books are right. -/
theorem Chronicle.sound_of_run {ok : Chronicle → Act → Prop} {acts : List Act} {s : Chronicle}
    (hr : Run Chronicle.step ok Chronicle.initial acts s) : s.Sound :=
  hr.invariant sound_initial fun _ _ _ h _ hs => h.step hs

end Deeds

end Nivara.Sla
