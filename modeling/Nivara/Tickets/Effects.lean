import Nivara.Tickets.Desk
import Nivara.Transactions.View

/-! What the statements do to the desk, said once: a turn that is neither waiting nor refused
has one of the effects listed here. -/
namespace Nivara.Tickets
open Transactions

variable {ι : Type} [DecidableEq ι]

structure Stored (d : Desk ι) (i : ι) (ctx : TenantContext) (k : Uuid) (old new : Ticket) (d' : Desk ι) (r : Ticket) :
    Prop where
  linkage : enforceLinkageOnUpdate old new = .ok ()
  enforced : ∃ entries, ticketEnforceTransition k ctx.now old new = .ok (r, entries) ∧
    d' = { d with
      tickets := d.tickets.write i [k] (fun _ => true) fun _ => r
      audit := entries.foldl (·.insert i) d.audit }
  visible : r.visibleTo ctx = true
  whole : r.isWhole = true

/-- What lets a new Ticket in: its row `r` is what the triggers made of `row`. -/
structure Admitted (d : Desk ι) (i : ι) (ctx : TenantContext) (row r : Ticket) : Prop where
  born : row.state = .opened
  linkage : enforceLinkageOnInsert (fun p => (d.sees i ctx p).filter (·.tenantId = row.tenantId)) row = .ok r
  visible : r.visibleTo ctx = true
  whole : r.isWhole = true
  unblocked : ∀ k, k < d.tickets.size → d.blocks i r k = false
  unique : ∀ k, k < d.tickets.size → d.collides i r k = false
  contact : d.hasContact i r.tenantId r.contactId = true

/-- The effects of a turn of the statement `q` of `i`, which stands at a cursor. -/
inductive Effect (d : Desk ι) (i : ι) (ctx : TenantContext) : Stmt → Cursor → Desk ι → Prop
  /-- Tickets, Messages, Notes and the log are as they were. -/
  | aside {q : Stmt} {c : Cursor} {d' : Desk ι} (clock : d'.clock = d.clock) (tickets : d'.tickets = d.tickets)
      (messages : d'.messages = d.messages) (notes : d'.notes = d.notes) (audit : d'.audit = d.audit) : Effect d i ctx q c d'
  | updated {plan : Uuid → Ticket → Option (Ticket → Option Ticket)} {k : Uuid} {set : Ticket → Option Ticket}
      {rest : List (Uuid × (Ticket → Option Ticket))} {written : List (Uuid × Ticket)} {old new r : Ticket} {d' : Desk ι}
      (free : d.tickets.free i [k] = true) (sees : d.sees i ctx k = some old) (set' : set old = some new)
      (stored : Stored d i ctx k old new d' r) :
      Effect d i ctx (.updateTickets plan) ((k, set) :: rest, written) d'
  | inserted {row r : Ticket} {c : Cursor} (admitted : Admitted d i ctx row r) :
      Effect d i ctx (.insertTicket row) c { d with tickets := d.tickets.insert i r }
  | posted {k : Uuid} {body : String} {t : Int} {c : Cursor} {old r : Ticket} {d' : Desk ι}
      (free : d.tickets.free i [k] = true) (sees : d.sees i ctx k = some old)
      (stored : Stored d i ctx k old (observeMessage ⟨ctx.tenantId, k, body, ctx.actor, t⟩ old) d' r) :
      Effect d i ctx (.insertMessage k body t) c
        { d' with messages := d.messages.insert i ⟨ctx.tenantId, k, body, ctx.actor, t⟩ }
  | noted {k : Uuid} {body : String} {t : Int} {c : Cursor} {old r : Ticket} {d' : Desk ι}
      (free : d.tickets.free i [k] = true) (sees : d.sees i ctx k = some old)
      (stored : Stored d i ctx k old (observeNote ⟨ctx.tenantId, k, body, ctx.actor, t⟩ old) d' r) :
      Effect d i ctx (.insertNote k body t) c
        { d' with notes := d.notes.insert i ⟨ctx.tenantId, k, body, ctx.actor, t⟩ }
  | recorded {k : Uuid} {entry : Recorded} {t : Int} {c : Cursor} (has : d.hasTicket i ctx k = true) :
      Effect d i ctx (.record k entry t) c { d with audit := d.audit.insert i (entry.entry k t) }

namespace Desk
variable {d d' : Desk ι} {i : ι} {ctx : TenantContext} {k : Uuid}

omit [DecidableEq ι] in
/-- The world leaves all tables alone. -/
theorem of_world {w : Event} (h : d.world w = some d') : ∃ clock users, d' = { d with clock := clock, users := users } := by
  cases w with
  | tick now =>
    obtain ⟨_,heq⟩ := Option.ite_none_right_eq_some.mp h
    cases heq
    exact ⟨now,d.users,rfl⟩
  | join tenantId userId =>
    cases h
    exact ⟨d.clock,_,rfl⟩

omit [DecidableEq ι] in
/-- The clock does not go back. -/
theorem clock_of_world {w : Event} (h : d.world w = some d') : d.clock ≤ d'.clock := by
  cases w with
  | tick now =>
    obtain ⟨hle,heq⟩ := Option.ite_none_right_eq_some.mp h
    cases heq
    exact hle
  | join tenantId userId =>
    cases h
    exact Int.le_refl _

/-- A transaction that is over has no version of a Ticket of its own. -/
theorem own_tickets_commit (d : Desk ι) (i : ι) (k : Uuid) : (d.commit i).tickets.own i k = none := Table.own_commit_self ..

theorem own_tickets_rollback (d : Desk ι) (i : ι) (k : Uuid) : (d.rollback i).tickets.own i k = none := Table.own_rollback_self ..

theorem sees_some {r : Ticket} : d.sees i ctx k = some r ↔ d.tickets.visible i k = some r ∧ r.visibleTo ctx = true :=
  Option.filter_eq_some_iff

theorem stored_of_storeTicket {old new r : Ticket} (h : d.storeTicket i ctx k old new = .ok (d', r)) :
    Stored d i ctx k old new d' r := by
  unfold storeTicket at h
  cases hl : enforceLinkageOnUpdate old new with
  | error e =>
    rw [hl] at h
    cases h
  | ok u =>
    cases he : ticketEnforceTransition k ctx.now old new with
    | error e =>
      rw [hl, he] at h
      cases h
    | ok p =>
      rw [hl, he] at h
      simp only [bind, Except.bind] at h
      split at h
      · cases h
      · rename_i hv
        split at h
        · cases h
        · rename_i hw
          split at h
          · cases h
          · cases h
            exact ⟨hl,⟨p.2,he,rfl⟩,by simpa using hv,by simpa using hw⟩

theorem admitted_of_answer {q row : Ticket} {a : Uuid × Ticket}
    (h : d.resumeInsertTicket (q := q) i ctx row = .answer d' a) :
    ∃ r, Admitted d i ctx row r ∧ a = (d.tickets.size, r) ∧ d' = { d with tickets := d.tickets.insert i r } := by
  unfold resumeInsertTicket at h
  split at h
  · cases h
  · rename_i hborn
    split at h
    · cases h
    · rename_i r hl
      split at h
      · cases h
      · rename_i hv
        split at h
        · cases h
        · rename_i hw
          split at h
          · cases h
          · rename_i hb
            split at h
            · cases h
            · rename_i hu
              split at h
              · cases h
              · rename_i hc
                cases h
                simp only [not_or, Bool.not_eq_false] at hc
                exact ⟨r,⟨by simpa using hborn,hl,by simpa using hv,by simpa using hw,by simpa using hb,by simpa using hu,
                  hc.1⟩,rfl,rfl⟩

/-- The row behind a foreign key is one the context sees, unless the context is a Contact's. -/
theorem sees_of_mayWriteAbout (hm : d.mayWriteAbout i ctx k = true) (hh : d.hasTicket i ctx k = true) :
    ∃ r, d.sees i ctx k = some r := by
  unfold mayWriteAbout at hm
  unfold hasTicket at hh
  obtain ⟨r,hr,ht⟩ := (Option.any_eq_true _ _).mp hh
  cases hs : d.sees i ctx k with
  | some r => exact ⟨r,rfl⟩
  | none =>
    rw [hs] at hm
    have hc : ctx.actor.isContact = false := by simpa using hm
    have hv : r.visibleTo ctx = true := by
      cases ha : ctx.actor <;> simp_all [Ticket.visibleTo, Actor.reaches, Actor.isContact]
    rw [sees_some.mpr ⟨hr,hv⟩] at hs
    cases hs

theorem stored_of_observe {see : Ticket → Ticket} {r : Ticket} (hs : d.sees i ctx k = some r)
    (h : d.observe i ctx k see = some (.ok d')) :
    d.tickets.free i [k] = true ∧ ∃ r', Stored d i ctx k r (see r) d' r' := by
  unfold observe at h
  split at h
  · cases h
  · rename_i hf
    simp only [hs, Option.some.injEq] at h
    cases hst : d.storeTicket i ctx k r (see r) with
    | error e =>
      rw [hst] at h
      cases h
    | ok p =>
      rw [hst] at h
      cases h
      exact ⟨by simpa using hf,p.2,stored_of_storeTicket hst⟩

theorem stored_frame {old new r : Ticket} (h : Stored d i ctx k old new d' r) :
    d'.messages = d.messages ∧ d'.notes = d.notes ∧ d'.contacts = d.contacts ∧ d'.clock = d.clock := by
  obtain ⟨entries,_,rfl⟩ := h.enforced
  exact ⟨rfl,rfl,rfl,rfl⟩

/-- A Message that goes in has had its Ticket observe it. -/
theorem posted_of_answer {q : Uuid} {b : String} {t : Int} {m : Entry} {a : Uuid × Entry}
    (h : d.resumeInsertMessage (q := q) (b := b) (t := t) i ctx m = .answer d' a) :
    ∃ old r d₁, d.tickets.free i [m.ticketId] = true ∧ d.sees i ctx m.ticketId = some old ∧
      Stored d i ctx m.ticketId old (observeMessage m old) d₁ r ∧ a = (d.messages.size, m) ∧
      d' = { d₁ with messages := d.messages.insert i m } := by
  unfold resumeInsertMessage at h
  split at h
  · cases h
  · rename_i hm
    split at h
    · cases h
    · rename_i hh
      obtain ⟨old,hold⟩ := sees_of_mayWriteAbout (by simpa using hm) (by simpa using hh)
      split at h
      · cases h
      · cases h
      · rename_i d₁ ho
        cases h
        obtain ⟨hf,r,hr⟩ := stored_of_observe hold ho
        rw [(stored_frame hr).1]
        exact ⟨old,r,d₁,hf,hold,hr,rfl,rfl⟩

theorem noted_of_answer {q : Uuid} {b : String} {t : Int} {m : Entry} {a : Uuid × Entry}
    (h : d.resumeInsertNote (q := q) (b := b) (t := t) i ctx m = .answer d' a) :
    ∃ old r d₁, d.tickets.free i [m.ticketId] = true ∧ d.sees i ctx m.ticketId = some old ∧
      Stored d i ctx m.ticketId old (observeNote m old) d₁ r ∧ d' = { d₁ with notes := d.notes.insert i m } := by
  unfold resumeInsertNote at h
  split at h
  · cases h
  · rename_i hc
    split at h
    · cases h
    · rename_i hh
      have hm : d.mayWriteAbout i ctx m.ticketId = true := by simp [mayWriteAbout, hc]
      obtain ⟨old,hold⟩ := sees_of_mayWriteAbout hm (by simpa using hh)
      split at h
      · cases h
      · cases h
      · rename_i d₁ ho
        cases h
        obtain ⟨hf,r,hr⟩ := stored_of_observe hold ho
        rw [(stored_frame hr).2.1]
        exact ⟨old,r,d₁,hf,hold,hr,rfl⟩

/-- The turns of an `UPDATE` that has a row to visit. -/
theorem updated_of_more {plan : Uuid → Ticket → Option (Ticket → Option Ticket)} {c c' : Cursor}
    (h : d.resumeUpdate (p := plan) i ctx c = .more d' c') :
    ∃ k set rest written, c = ((k, set) :: rest, written) ∧ d.tickets.free i [k] = true ∧
      ((d' = d ∧ c' = (rest, written)) ∨ ∃ old new r, d.sees i ctx k = some old ∧ set old = some new ∧
        Stored d i ctx k old new d' r ∧ c' = (rest, written ++ [(k, r)])) := by
  obtain ⟨todo,written⟩ := c
  cases todo with
  | nil => cases h
  | cons p rest =>
    obtain ⟨k,set⟩ := p
    simp only [resumeUpdate] at h
    split at h
    · cases h
    · rename_i hf
      refine ⟨k,set,rest,written,rfl,by simpa using hf,?_⟩
      split at h
      · cases h
        exact .inl ⟨rfl,rfl⟩
      · rename_i old new hb
        obtain ⟨old',hs,hset⟩ := Option.bind_eq_some_iff.mp hb
        obtain ⟨new',hn,hp⟩ := Option.map_eq_some_iff.mp hset
        cases hp
        split at h
        · cases h
        · rename_i r hst
          cases h
          exact .inr ⟨old,new,r,hs,hn,stored_of_storeTicket hst,rfl⟩

/-- A row that still matches in its turn is stored. -/
theorem stored_of_more {plan : Uuid → Ticket → Option (Ticket → Option Ticket)} {set : Ticket → Option Ticket}
    {rest : List (Uuid × (Ticket → Option Ticket))} {written : List (Uuid × Ticket)} {c' : Cursor} {old new : Ticket}
    (h : d.resumeUpdate (p := plan) i ctx ((k, set) :: rest, written) = .more d' c') (hs : d.sees i ctx k = some old)
    (hset : set old = some new) : ∃ r, Stored d i ctx k old new d' r ∧ c' = (rest, written ++ [(k, r)]) := by
  simp only [resumeUpdate, hs, Option.bind_some, hset, Option.map_some] at h
  split at h
  · cases h
  · split at h
    · cases h
    · rename_i r hst
      cases h
      exact ⟨r,stored_of_storeTicket hst,rfl⟩

theorem updated_of_answer {plan : Uuid → Ticket → Option (Ticket → Option Ticket)} {c : Cursor}
    {a : List (Uuid × Ticket)} (h : d.resumeUpdate (p := plan) i ctx c = .answer d' a) : d' = d ∧ c = ([], a) := by
  obtain ⟨todo,written⟩ := c
  cases todo with
  | nil =>
    cases h
    exact ⟨rfl,rfl⟩
  | cons p rest =>
    obtain ⟨k,set⟩ := p
    simp only [resumeUpdate] at h
    split at h
    · cases h
    · split at h
      · cases h
      · split at h
        · cases h
        · cases h

theorem recorded_of_answer {q : Uuid} {b : Recorded} {t : Int} {e : AuditEntry} {a : Unit}
    (h : d.resumeRecord (q := q) (b := b) (t := t) i ctx e = .answer d' a) :
    d.hasTicket i ctx e.ticketId = true ∧ d' = { d with audit := d.audit.insert i e } := by
  unfold resumeRecord at h
  split at h
  · cases h
  · split at h
    · cases h
    · rename_i hh
      cases h
      exact ⟨by simpa using hh,rfl⟩

end Desk

variable {d d' : Desk ι} {i : ι} {ctx : TenantContext} {q : Stmt} {c c' : Cursor}

/-- Only an `UPDATE` takes more than one turn. -/
theorem update_of_more (h : (deskEngine ι).resume d i ctx q c = .more d' c') : ∃ plan, q = .updateTickets plan := by
  cases q with
  | updateTickets plan => exact ⟨plan,rfl⟩
  | selectTickets picks => cases h
  | selectMessages picks => cases h
  | insertTicket row =>
    replace h : d.resumeInsertTicket (q := row) i ctx row = .more d' c' := h
    unfold Desk.resumeInsertTicket at h
    split at h
    · cases h
    · split at h
      · cases h
      · repeat' split at h
        all_goals cases h
  | insertMessage k body t =>
    replace h : d.resumeInsertMessage (q := k) (b := body) (t := t) i ctx _ = .more d' c' := h
    unfold Desk.resumeInsertMessage at h
    repeat' split at h
    all_goals cases h
  | insertNote k body t =>
    replace h : d.resumeInsertNote (q := k) (b := body) (t := t) i ctx _ = .more d' c' := h
    unfold Desk.resumeInsertNote at h
    repeat' split at h
    all_goals cases h
  | record k entry t =>
    replace h : d.resumeRecord (q := k) (b := entry) (t := t) i ctx _ = .more d' c' := h
    unfold Desk.resumeRecord at h
    repeat' split at h
    all_goals cases h
  | insertContact =>
    simp only [deskEngine, Desk.resume] at h
    split at h <;> cases h
  | upsertContact slackUserId =>
    replace h : d.resumeUpsertContact (q := slackUserId) i ctx _ = .more d' c' := h
    unfold Desk.resumeUpsertContact at h
    simp only at h
    repeat' split at h
    all_goals cases h
  | insertDelivery m target =>
    replace h : d.resumeInsertDelivery (q := m) (t := target) i ctx _ = .more d' c' := h
    unfold Desk.resumeInsertDelivery at h
    repeat' split at h
    all_goals cases h
  | enqueue m target =>
    simp only [deskEngine, Desk.resume] at h
    split at h <;> cases h

theorem effect_of_more (h : (deskEngine ι).resume d i ctx q c = .more d' c') : Effect d i ctx q c d' := by
  obtain ⟨plan,rfl⟩ := update_of_more h
  obtain ⟨k,set,rest,written,rfl,hf,⟨rfl,_⟩ | ⟨old,new,r,hs,hn,hst,_⟩⟩ := Desk.updated_of_more h
  · exact .aside rfl rfl rfl rfl rfl
  · exact .updated hf hs hn hst

/-- What an `UPDATE` has still to do came from its plan. -/
theorem planned_of_reaches {plan : Uuid → Ticket → Option (Ticket → Option Ticket)} {c : (deskEngine ι).Cursor}
    (h : (deskEngine ι).Reaches i ctx (.updateTickets plan) c) : ∀ x ∈ Prod.fst (α := List _) c, ∃ r, plan x.1 r = some x.2 := by
  induction h with
  | start d =>
    intro x hx
    obtain ⟨p,_,hp⟩ := List.mem_filterMap.mp hx
    obtain ⟨set,hset,rfl⟩ := Option.map_eq_some_iff.mp hp
    exact ⟨p.2,hset⟩
  | more _ ht ih =>
    intro x hx
    obtain ⟨k,set,rest,written,rfl,_,⟨_,rfl⟩ | ⟨_,_,_,_,_,_,rfl⟩⟩ := Desk.updated_of_more ht
    · exact ih x (by simp [hx])
    · exact ih x (by simp [hx])

theorem effect_of_answer {a : deskLanguage.Ans q} (h : (deskEngine ι).resume d i ctx q c = .answer d' a) :
    Effect d i ctx q c d' := by
  cases q with
  | updateTickets plan =>
    obtain ⟨rfl,_⟩ := Desk.updated_of_answer h
    exact .aside rfl rfl rfl rfl rfl
  | selectTickets picks =>
    cases h
    exact .aside rfl rfl rfl rfl rfl
  | selectMessages picks =>
    cases h
    exact .aside rfl rfl rfl rfl rfl
  | insertTicket row =>
    obtain ⟨r,hr,_,rfl⟩ := Desk.admitted_of_answer h
    exact .inserted hr
  | insertMessage k body t =>
    obtain ⟨old,r,d₁,hf,hs,hst,_,rfl⟩ := Desk.posted_of_answer h
    exact .posted hf hs hst
  | insertNote k body t =>
    obtain ⟨old,r,d₁,hf,hs,hst,rfl⟩ := Desk.noted_of_answer h
    exact .noted hf hs hst
  | record k entry t =>
    obtain ⟨hh,rfl⟩ := Desk.recorded_of_answer h
    have hk : (entry.entry k t).ticketId = k := by cases entry <;> rfl
    rw [hk] at hh
    exact .recorded hh
  | insertContact =>
    simp only [deskEngine, Desk.resume] at h
    split at h
    · cases h
    · cases h
      exact .aside rfl rfl rfl rfl rfl
  | upsertContact slackUserId =>
    replace h : d.resumeUpsertContact (q := slackUserId) i ctx _ = .answer d' a := h
    unfold Desk.resumeUpsertContact at h
    simp only at h
    split at h
    · cases h
    · split at h
      · cases h
        exact .aside rfl rfl rfl rfl rfl
      · split at h
        · cases h
        · cases h
          exact .aside rfl rfl rfl rfl rfl
  | insertDelivery m target =>
    replace h : d.resumeInsertDelivery (q := m) (t := target) i ctx _ = .answer d' a := h
    unfold Desk.resumeInsertDelivery at h
    repeat' split at h
    all_goals cases h
    exact .aside rfl rfl rfl rfl rfl
  | enqueue m target =>
    simp only [deskEngine, Desk.resume] at h
    split at h
    · cases h
    · cases h
      exact .aside rfl rfl rfl rfl rfl

private theorem own_of_stored {k : Uuid} {j : ι} {old new r : Ticket} (hst : Stored d i ctx k old new d' r) (hf : d.tickets.free i [k] = true)
    (hj : j ≠ i) (k' : Uuid) : d'.tickets.own j k' = d.tickets.own j k' := by
  obtain ⟨entries,_,rfl⟩ := hst.enforced
  exact Table.own_write_other _ _ _ _ hj hf

/-- A turn of `i` leaves alone what the others have written. -/
theorem own_of_effect {j : ι} (he : Effect d i ctx q c d') (hj : j ≠ i) :
    (∀ k, d'.tickets.own j k = d.tickets.own j k) ∧ ∀ n, d'.messages.own j n = d.messages.own j n := by
  cases he with
  | aside _ ht hm _ _ => exact ⟨fun k => by rw [ht],fun n => by rw [hm]⟩
  | updated hf _ _ hst => exact ⟨own_of_stored hst hf hj,fun n => by rw [(Desk.stored_frame hst).1]⟩
  | inserted _ => exact ⟨fun k => Table.own_insert_other _ _ _ _ hj,fun _ => rfl⟩
  | posted hf _ hst => exact ⟨(own_of_stored hst hf hj :),fun n => Table.own_insert_other _ _ _ _ hj⟩
  | noted hf _ hst =>
    refine ⟨(own_of_stored hst hf hj :),fun n => ?_⟩
    simp only [(Desk.stored_frame hst).1]
  | recorded _ => exact ⟨fun _ => rfl,fun _ => rfl⟩

theorem own_logs_of_effect {j : ι} (he : Effect d i ctx q c d') (hj : j ≠ i) :
    (∀ n, d'.notes.own j n = d.notes.own j n) ∧ ∀ n, d'.audit.own j n = d.audit.own j n := by
  have hstored : ∀ {k old new r d₁}, Stored d i ctx k old new d₁ r → ∀ n, d₁.audit.own j n = d.audit.own j n := by
    intro k old new r d₁ hst n
    obtain ⟨entries,_,rfl⟩ := hst.enforced
    cases ho : d.audit.own j n with
    | some e => exact Table.own_inserts_of_own ho
    | none =>
      refine Option.eq_none_iff_forall_ne_some.mpr fun e he => ?_
      rcases Table.own_inserts_cases he with ⟨rfl,_⟩ | he
      · exact hj rfl
      · rw [ho] at he
        cases he
  cases he with
  | aside _ _ _ hn ha => exact ⟨fun n => by rw [hn],fun n => by rw [ha]⟩
  | updated _ _ _ hst => exact ⟨fun n => by rw [(Desk.stored_frame hst).2.1],hstored hst⟩
  | inserted _ => exact ⟨fun _ => rfl,fun _ => rfl⟩
  | posted _ _ hst =>
    refine ⟨fun n => ?_,(hstored hst :)⟩
    simp only [(Desk.stored_frame hst).2.1]
  | noted _ _ hst => exact ⟨fun n => Table.own_insert_other _ _ _ _ hj,(hstored hst :)⟩
  | recorded _ => exact ⟨fun _ => rfl,fun n => Table.own_insert_other _ _ _ _ hj⟩

/-- No turn changes what is committed. -/
theorem committed_of_effect (he : Effect d i ctx q c d') : d'.tickets.committed = d.tickets.committed ∧
    d'.messages.committed = d.messages.committed ∧ d'.notes.committed = d.notes.committed ∧
    d'.audit.committed = d.audit.committed := by
  have hstored : ∀ {k old new r d₁}, Stored d i ctx k old new d₁ r → d₁.tickets.committed = d.tickets.committed ∧
      d₁.messages.committed = d.messages.committed ∧ d₁.notes.committed = d.notes.committed ∧
      d₁.audit.committed = d.audit.committed := by
    intro k old new r d₁ hst
    obtain ⟨entries,_,rfl⟩ := hst.enforced
    exact ⟨rfl,rfl,rfl,Table.committed_inserts _ _ _⟩
  cases he with
  | aside _ ht hm hn ha => exact ⟨by rw [ht],by rw [hm],by rw [hn],by rw [ha]⟩
  | updated _ _ _ hst => exact hstored hst
  | inserted _ => exact ⟨rfl,rfl,rfl,rfl⟩
  | posted _ _ hst => exact ⟨(hstored hst).1,rfl,(hstored hst).2.2⟩
  | noted _ _ hst => exact ⟨(hstored hst).1,(hstored hst).2.1,rfl,(hstored hst).2.2.2⟩
  | recorded _ => exact ⟨rfl,rfl,rfl,rfl⟩

structure Desk.Unchanged (d d' : Desk ι) : Prop where
  tickets : d'.tickets.committed = d.tickets.committed
  messages : d'.messages.committed = d.messages.committed
  notes : d'.notes.committed = d.notes.committed
  audit : d'.audit.committed = d.audit.committed
  contacts : d'.contacts.committed = d.contacts.committed
  deliveries : d'.deliveries.committed = d.deliveries.committed
  jobs : d'.jobs.committed = d.jobs.committed

omit [DecidableEq ι] in
theorem Desk.Unchanged.refl (d : Desk ι) : d.Unchanged d := ⟨rfl,rfl,rfl,rfl,rfl,rfl,rfl⟩

private theorem unchanged_of_stored {k : Uuid} {old new r : Ticket} (h : Stored d i ctx k old new d' r) :
    d.Unchanged d' := by
  obtain ⟨entries,_,rfl⟩ := h.enforced
  exact ⟨rfl,rfl,rfl,Table.committed_inserts _ _ _,rfl,rfl,rfl⟩

/-- No turn of a statement changes what is committed. -/
theorem unchanged_of_more (h : (deskEngine ι).resume d i ctx q c = .more d' c') : d.Unchanged d' := by
  obtain ⟨plan,rfl⟩ := update_of_more h
  obtain ⟨k,set,rest,written,_,_,⟨rfl,_⟩ | ⟨_,_,_,_,_,hst,_⟩⟩ := Desk.updated_of_more h
  · exact .refl _
  · exact unchanged_of_stored hst

theorem unchanged_of_answer {a : deskLanguage.Ans q} (h : (deskEngine ι).resume d i ctx q c = .answer d' a) :
    d.Unchanged d' := by
  cases q with
  | updateTickets plan =>
    obtain ⟨rfl,_⟩ := Desk.updated_of_answer h
    exact .refl _
  | selectTickets picks =>
    cases h
    exact .refl _
  | selectMessages picks =>
    cases h
    exact .refl _
  | insertTicket row =>
    obtain ⟨r,_,_,rfl⟩ := Desk.admitted_of_answer h
    exact ⟨rfl,rfl,rfl,rfl,rfl,rfl,rfl⟩
  | insertMessage k body t =>
    obtain ⟨_,_,_,_,_,hst,_,rfl⟩ := Desk.posted_of_answer h
    have hu := unchanged_of_stored hst
    exact ⟨hu.tickets,rfl,hu.notes,hu.audit,hu.contacts,hu.deliveries,hu.jobs⟩
  | insertNote k body t =>
    obtain ⟨_,_,_,_,_,hst,rfl⟩ := Desk.noted_of_answer h
    have hu := unchanged_of_stored hst
    exact ⟨hu.tickets,hu.messages,rfl,hu.audit,hu.contacts,hu.deliveries,hu.jobs⟩
  | record k entry t =>
    obtain ⟨_,rfl⟩ := Desk.recorded_of_answer h
    exact ⟨rfl,rfl,rfl,rfl,rfl,rfl,rfl⟩
  | insertContact =>
    simp only [deskEngine, Desk.resume] at h
    split at h
    · cases h
    · cases h
      exact ⟨rfl,rfl,rfl,rfl,rfl,rfl,rfl⟩
  | upsertContact slackUserId =>
    replace h : d.resumeUpsertContact (q := slackUserId) i ctx _ = .answer d' a := h
    unfold Desk.resumeUpsertContact at h
    simp only at h
    split at h
    · cases h
    · split at h
      · cases h
        exact .refl _
      · split at h
        · cases h
        · cases h
          exact ⟨rfl,rfl,rfl,rfl,rfl,rfl,rfl⟩
  | insertDelivery m target =>
    replace h : d.resumeInsertDelivery (q := m) (t := target) i ctx _ = .answer d' a := h
    unfold Desk.resumeInsertDelivery at h
    repeat' split at h
    all_goals cases h
    exact ⟨rfl,rfl,rfl,rfl,rfl,rfl,rfl⟩
  | enqueue m target =>
    simp only [deskEngine, Desk.resume] at h
    split at h
    · cases h
    · cases h
      exact ⟨rfl,rfl,rfl,rfl,rfl,rfl,rfl⟩

/-- A step of the server changes what is committed only if it is a commit, which answers. -/
theorem committed_of_step {ε α Req : Type} {srv : Service deskLanguage ε α TenantContext (Desk ι) Req}
    {s s' : Server deskLanguage ε α ι TenantContext (Desk ι) Cursor Req} {m : Move ι Req Event}
    (h : s.step (deskEngine ι) srv Desk.world m = some s') :
    (s'.answers = s.answers ∧ s.db.Unchanged s'.db) ∨ ∃ i x a, m = .advance i ∧ s.sessions i = some x ∧
      x.script = .done a ∧ x.aborted = false ∧ s'.db = s.db.commit i ∧ s'.answers = s.answers ++ [(x.req, a)] := by
  refine commit_of_step Desk.Unchanged.refl (fun _ _ => ⟨rfl,rfl,rfl,rfl,rfl,rfl,rfl⟩) (fun _ _ _ _ _ _ _ => unchanged_of_more)
    (fun _ _ _ _ _ _ _ => unchanged_of_answer) (fun d w d' hw => ?_) h
  obtain ⟨clock,users,rfl⟩ := Desk.of_world hw
  exact ⟨rfl,rfl,rfl,rfl,rfl,rfl,rfl⟩

end Nivara.Tickets
