import Mathlib.Logic.Relation
import Nivara.Tickets.AuditTrail
import Nivara.Transactions.Lockstep
import Nivara.Transactions.Owners

/-! What the policies, the triggers and the constraints of the desk make of one transaction: its statements
read and write the rows that its context sees, and no other row makes a difference to them. -/
namespace Nivara.Tickets
open Transactions

section Tenants
variable {ι : Type} (T : Uuid) (d d' : Desk ι)

def Desk.concerns (e : AuditEntry) : Bool := (d.tickets.committed e.ticketId).any (·.tenantId = T)

structure Desk.AgreeOn : Prop where
  users : ∀ id, d.users.contains (T, id) = d'.users.contains (T, id)
  tickets : d.tickets.SameRows (·.tenantId = T) d'.tickets
  messages : d.messages.SameRows (·.tenantId = T) d'.messages
  notes : d.notes.SameRows (·.tenantId = T) d'.notes
  audit : ∀ k, (d.audit.committed k).filter (d.concerns T) = (d'.audit.committed k).filter (d'.concerns T)
  contacts : d.contacts.SameRows (·.tenantId = T) d'.contacts
  deliveries : d.deliveries.SameRows (·.tenantId = T) d'.deliveries
  jobs : d.jobs.SameRows (·.tenantId = T) d'.jobs

structure Desk.SameSupply : Prop where
  tickets : d.tickets.size = d'.tickets.size
  messages : d.messages.size = d'.messages.size
  notes : d.notes.size = d'.notes.size
  audit : d.audit.size = d'.audit.size
  contacts : d.contacts.size = d'.contacts.size
  deliveries : d.deliveries.size = d'.deliveries.size
  jobs : d.jobs.size = d'.jobs.size

/-- Every entry of the log is about a Ticket that is there, as its foreign key has it. -/
def Desk.Logged : Prop := ∀ k e, d.audit.committed k = some e → (d.tickets.committed e.ticketId).isSome = true

structure Desk.Idle : Prop where
  tickets : ∀ k, d.tickets.pending k = none
  messages : ∀ k, d.messages.pending k = none
  notes : ∀ k, d.notes.pending k = none
  audit : ∀ k, d.audit.pending k = none
  contacts : ∀ k, d.contacts.pending k = none
  deliveries : ∀ k, d.deliveries.pending k = none
  jobs : ∀ k, d.jobs.pending k = none
  logged : d.Logged

/-- The tenant has the same rows in both, and what is not committed is the same. -/
structure Desk.Alike : Prop where
  users : ∀ id, d.users.contains (T, id) = d'.users.contains (T, id)
  tickets : d.tickets.Alike (·.tenantId = T) d'.tickets
  messages : d.messages.Alike (·.tenantId = T) d'.messages
  notes : d.notes.Alike (·.tenantId = T) d'.notes
  audit : d.audit.Alike (d.concerns T) d'.audit
  contacts : d.contacts.Alike (·.tenantId = T) d'.contacts
  deliveries : d.deliveries.Alike (·.tenantId = T) d'.deliveries
  jobs : d.jobs.Alike (·.tenantId = T) d'.jobs

end Tenants

variable {ι : Type} {d d' : Desk ι} {T : Uuid}

/-- The log is told apart by the Tickets. -/
theorem Desk.concerns_eq (h : d.tickets.SameRows (·.tenantId = T) d'.tickets) : d.concerns T = d'.concerns T := by
  funext e
  exact Table.any_of_filter (h e.ticketId) fun _ hr => hr

theorem Desk.Alike.agreeOn (h : d.Alike T d') : d.AgreeOn T d' := by
  refine ⟨h.users,h.tickets.committed,h.messages.committed,h.notes.committed,fun k => ?_,h.contacts.committed,
    h.deliveries.committed,h.jobs.committed⟩
  rw [← Desk.concerns_eq h.tickets.committed]
  exact h.audit.committed k

theorem Desk.Idle.alike (hd : d.Idle) (hd' : d'.Idle) (h : d.AgreeOn T d') (hs : d.SameSupply d') : d.Alike T d' where
  users := h.users
  tickets := ⟨hs.tickets,by funext k; rw [hd.tickets k, hd'.tickets k],h.tickets⟩
  messages := ⟨hs.messages,by funext k; rw [hd.messages k, hd'.messages k],h.messages⟩
  notes := ⟨hs.notes,by funext k; rw [hd.notes k, hd'.notes k],h.notes⟩
  audit := ⟨hs.audit,by funext k; rw [hd.audit k, hd'.audit k],fun k => by
    have hk := h.audit k
    rwa [← Desk.concerns_eq h.tickets] at hk⟩
  contacts := ⟨hs.contacts,by funext k; rw [hd.contacts k, hd'.contacts k],h.contacts⟩
  deliveries := ⟨hs.deliveries,by funext k; rw [hd.deliveries k, hd'.deliveries k],h.deliveries⟩
  jobs := ⟨hs.jobs,by funext k; rw [hd.jobs k, hd'.jobs k],h.jobs⟩

theorem Desk.AgreeOn.refl (d : Desk ι) (T : Uuid) : d.AgreeOn T d :=
  ⟨fun _ => rfl,fun _ => rfl,fun _ => rfl,fun _ => rfl,fun _ => rfl,fun _ => rfl,fun _ => rfl,fun _ => rfl⟩

theorem Desk.AgreeOn.symm (h : d.AgreeOn T d') : d'.AgreeOn T d :=
  ⟨fun u => (h.users u).symm,fun k => (h.tickets k).symm,fun k => (h.messages k).symm,fun k => (h.notes k).symm,
    fun k => (h.audit k).symm,fun k => (h.contacts k).symm,fun k => (h.deliveries k).symm,fun k => (h.jobs k).symm⟩

theorem Desk.AgreeOn.trans {e : Desk ι} (h : d.AgreeOn T d') (h' : d'.AgreeOn T e) : d.AgreeOn T e :=
  ⟨fun u => (h.users u).trans (h'.users u),fun k => (h.tickets k).trans (h'.tickets k),
    fun k => (h.messages k).trans (h'.messages k),fun k => (h.notes k).trans (h'.notes k),
    fun k => (h.audit k).trans (h'.audit k),fun k => (h.contacts k).trans (h'.contacts k),
    fun k => (h.deliveries k).trans (h'.deliveries k),fun k => (h.jobs k).trans (h'.jobs k)⟩

theorem Ticket.tenantId_of_visibleTo {r : Ticket} {ctx : TenantContext} (h : r.visibleTo ctx = true) :
    r.tenantId = ctx.tenantId := by
  simp only [Ticket.visibleTo, decide_eq_true_eq] at h
  exact h.1

section Writing
variable [DecidableEq ι] {i : ι} {ctx : TenantContext} {k : Uuid}

/-- One version written by `i`: of a Ticket that its context sees, or of its tenant's, and about one it sees. -/
inductive Desk.Write (i : ι) (ctx : TenantContext) (d : Desk ι) : Desk ι → Prop
  | version {k : Uuid} {old r : Ticket} (free : d.tickets.free i [k] = true) (sees : d.sees i ctx k = some old)
      (visible : r.visibleTo ctx = true) :
      Desk.Write i ctx d { d with tickets := d.tickets.write i [k] (fun _ => true) fun _ => r }
  | ticket {r : Ticket} (visible : r.visibleTo ctx = true) : Desk.Write i ctx d { d with tickets := d.tickets.insert i r }
  | message {m : Entry} (tenant : m.tenantId = ctx.tenantId) (author : m.author = ctx.actor)
      (sees : (d.sees i ctx m.ticketId).isSome = true) :
      Desk.Write i ctx d { d with messages := d.messages.insert i m }
  | note {m : Entry} (tenant : m.tenantId = ctx.tenantId) (author : m.author = ctx.actor)
      (sees : (d.sees i ctx m.ticketId).isSome = true) :
      Desk.Write i ctx d { d with notes := d.notes.insert i m }
  | entry {e : AuditEntry} (sees : (d.sees i ctx e.ticketId).isSome = true) :
      Desk.Write i ctx d { d with audit := d.audit.insert i e }
  | contact {c : Contact} (staff : ctx.actor.isContact = false) (tenant : c.tenantId = ctx.tenantId) :
      Desk.Write i ctx d { d with contacts := d.contacts.insert i c }
  | delivery {x : Dispatch} (staff : ctx.actor.isContact = false) (tenant : x.tenantId = ctx.tenantId) :
      Desk.Write i ctx d { d with deliveries := d.deliveries.insert i x }
  | job {x : Dispatch} (staff : ctx.actor.isContact = false) (tenant : x.tenantId = ctx.tenantId) :
      Desk.Write i ctx d { d with jobs := d.jobs.insert i x }

abbrev Desk.Writes (i : ι) (ctx : TenantContext) : Desk ι → Desk ι → Prop := Relation.ReflTransGen (Desk.Write i ctx)

/-- A Ticket that is seen remains in sight. -/
theorem Desk.Write.sees (h : d.Write i ctx d') (hs : (d.sees i ctx k).isSome = true) : (d'.sees i ctx k).isSome = true := by
  obtain ⟨s,hs⟩ := Option.isSome_iff_exists.mp hs
  obtain ⟨hvis,hto⟩ := Desk.sees_some.mp hs
  refine Option.isSome_iff_exists.mpr ?_
  cases h with
  | @version k' old r _ hold hr =>
    by_cases hk : k = k'
    · subst hk
      exact ⟨r,Desk.sees_some.mpr ⟨Table.visible_of_own _ _ _ (Table.own_write_picked _ _ _ (by simp) hvis rfl),hr⟩⟩
    · refine ⟨s,Desk.sees_some.mpr ⟨?_,hto⟩⟩
      have hown : (d.tickets.write i [k'] (fun _ => true) fun _ => r).own i k = d.tickets.own i k := by
        rw [Table.own_write_self, if_neg (by simpa using hk)]
      rw [← hvis]
      simp only [Table.visible, hown]
      rfl
  | ticket hr =>
    have hne : k ≠ d.tickets.size := Nat.ne_of_lt (Table.lt_size_of_visible _ _ _ hvis)
    refine ⟨s,Desk.sees_some.mpr ⟨?_,hto⟩⟩
    rw [← hvis]
    simp only [Table.visible, Table.own_insert, if_neg hne]
    rfl
  | message _ _ _ => exact ⟨s,hs⟩
  | note _ _ _ => exact ⟨s,hs⟩
  | entry _ => exact ⟨s,hs⟩
  | contact _ _ => exact ⟨s,hs⟩
  | delivery _ _ => exact ⟨s,hs⟩
  | job _ _ => exact ⟨s,hs⟩

theorem Desk.Writes.sees (h : Desk.Writes i ctx d d') (hs : (d.sees i ctx k).isSome = true) : (d'.sees i ctx k).isSome = true := by
  induction h with
  | refl => exact hs
  | tail _ hw ih => exact hw.sees ih

private theorem writes_entries {entries : List AuditEntry} (he : ∀ e ∈ entries, (d.sees i ctx e.ticketId).isSome = true) :
    Desk.Writes i ctx d { d with audit := entries.foldl (·.insert i) d.audit } := by
  induction entries generalizing d with
  | nil => exact .refl
  | cons e rest ih =>
    exact (ih (d := { d with audit := d.audit.insert i e }) fun x hx => he x (.tail _ hx)).head (.entry (he e (by simp)))

private theorem writes_of_stored {old new r : Ticket} (hf : d.tickets.free i [k] = true) (hs : d.sees i ctx k = some old) (h : Stored d i ctx k old new d' r) :
    Desk.Writes i ctx d d' := by
  obtain ⟨entries,henf,rfl⟩ := h.enforced
  have hw : d.Write i ctx { d with tickets := d.tickets.write i [k] (fun _ => true) fun _ => r } := .version hf hs h.visible
  refine .head hw (writes_entries (d := { d with tickets := d.tickets.write i [k] (fun _ => true) fun _ => r }) fun e he => ?_)
  rw [(enforced_of_ok henf).audit] at he
  rw [ticketId_of_auditTrail he]
  exact hw.sees (by rw [hs]; rfl)

variable {q : Stmt} {c c' : Cursor}

theorem writes_of_more (h : (deskEngine ι).resume d i ctx q c = .more d' c') : Desk.Writes i ctx d d' := by
  obtain ⟨plan,rfl⟩ := update_of_more h
  obtain ⟨k,set,rest,written,_,hf,⟨rfl,_⟩ | ⟨old,new,r,hs,_,hst,_⟩⟩ := Desk.updated_of_more h
  · exact .refl
  · exact writes_of_stored hf hs hst

theorem writes_of_answer {a : deskLanguage.Ans q} (h : (deskEngine ι).resume d i ctx q c = .answer d' a) :
    Desk.Writes i ctx d d' := by
  cases q with
  | updateTickets plan =>
    obtain ⟨rfl,_⟩ := Desk.updated_of_answer h
    exact .refl
  | selectTickets picks =>
    cases h
    exact .refl
  | selectMessages picks =>
    cases h
    exact .refl
  | insertTicket row =>
    obtain ⟨r,hr,_,rfl⟩ := Desk.admitted_of_answer h
    exact .single (.ticket hr.visible)
  | insertMessage k body t =>
    obtain ⟨old,r,d₁,hf,hs,hst,_,rfl⟩ := Desk.posted_of_answer h
    have hw := writes_of_stored hf hs hst
    rw [← (Desk.stored_frame hst).1]
    exact .tail hw (.message rfl rfl (hw.sees (by rw [hs]; rfl)))
  | insertNote k body t =>
    obtain ⟨old,r,d₁,hf,hs,hst,rfl⟩ := Desk.noted_of_answer h
    have hw := writes_of_stored hf hs hst
    rw [← (Desk.stored_frame hst).2.1]
    exact .tail hw (.note rfl rfl (hw.sees (by rw [hs]; rfl)))
  | record k entry t =>
    replace h : d.resumeRecord (q := k) (b := entry) (t := t) i ctx (entry.entry k t) = .answer d' a := h
    unfold Desk.resumeRecord at h
    split at h
    · cases h
    · rename_i hm
      split at h
      · cases h
      · rename_i hh
        cases h
        obtain ⟨r,hr⟩ := Desk.sees_of_mayWriteAbout (by simpa using hm) (by simpa using hh)
        exact .single (.entry (by rw [hr]; rfl))
  | insertContact =>
    simp only [deskEngine, Desk.resume] at h
    split at h
    · cases h
    · rename_i hstaff
      cases h
      exact .single (.contact (by simpa using hstaff) rfl)
  | upsertContact slackUserId =>
    replace h : d.resumeUpsertContact (q := slackUserId) i ctx _ = .answer d' a := h
    unfold Desk.resumeUpsertContact at h
    simp only at h
    split at h
    · cases h
    · rename_i hstaff
      split at h
      · cases h
        exact .refl
      · split at h
        · cases h
        · cases h
          exact .single (.contact (by simpa using hstaff) rfl)
  | insertDelivery m target =>
    replace h : d.resumeInsertDelivery (q := m) (t := target) i ctx _ = .answer d' a := h
    unfold Desk.resumeInsertDelivery at h
    split at h
    · cases h
    · rename_i hstaff
      repeat' split at h
      all_goals cases h
      exact .single (.delivery (by simpa using hstaff) rfl)
  | enqueue m target =>
    simp only [deskEngine, Desk.resume] at h
    split at h
    · cases h
    · rename_i hstaff
      cases h
      exact .single (.job (by simpa using hstaff) rfl)

/-- Only `i` is at work, and all it has written is of its tenant, and about Tickets that its context sees. -/
structure Desk.WorkedOn (i : ι) (ctx : TenantContext) (d : Desk ι) : Prop where
  tickets : d.tickets.Within i (·.visibleTo ctx)
  messages : d.messages.Within i fun m => m.tenantId = ctx.tenantId ∧ (d.sees i ctx m.ticketId).isSome
  notes : d.notes.Within i fun m => m.tenantId = ctx.tenantId ∧ (d.sees i ctx m.ticketId).isSome
  audit : d.audit.Within i fun e => (d.sees i ctx e.ticketId).isSome
  contacts : d.contacts.Within i (·.tenantId = ctx.tenantId)
  deliveries : d.deliveries.Within i (·.tenantId = ctx.tenantId)
  jobs : d.jobs.Within i (·.tenantId = ctx.tenantId)
  logged : d.Logged

theorem Desk.Idle.workedOn (h : d.Idle) (i : ι) (ctx : TenantContext) : d.WorkedOn i ctx :=
  ⟨.of_settled h.tickets,.of_settled h.messages,.of_settled h.notes,.of_settled h.audit,.of_settled h.contacts,
    .of_settled h.deliveries,.of_settled h.jobs,h.logged⟩

private theorem workedOn_of_tickets {tickets : Table ι Ticket} (h : d.WorkedOn i ctx) (hw : d.Write i ctx { d with tickets := tickets })
    (hc : tickets.committed = d.tickets.committed) (ht : tickets.Within i (·.visibleTo ctx)) :
    Desk.WorkedOn i ctx { d with tickets := tickets } where
  tickets := ht
  messages := h.messages.mono fun m hm => by
    simp only [decide_eq_true_eq] at hm ⊢
    exact ⟨hm.1,hw.sees hm.2⟩
  notes := h.notes.mono fun m hm => by
    simp only [decide_eq_true_eq] at hm ⊢
    exact ⟨hm.1,hw.sees hm.2⟩
  audit := h.audit.mono fun e he => hw.sees he
  contacts := h.contacts
  deliveries := h.deliveries
  jobs := h.jobs
  logged := by
    intro k e he
    show (tickets.committed e.ticketId).isSome = true
    rw [hc]
    exact h.logged k e he

theorem Desk.Write.workedOn (hw : d.Write i ctx d') (h : d.WorkedOn i ctx) : d'.WorkedOn i ctx := by
  cases hw with
  | version hf hold hr =>
    obtain ⟨hvis,hto⟩ := Desk.sees_some.mp hold
    exact workedOn_of_tickets h (.version hf hold hr) rfl (h.tickets.write hvis hto hr)
  | ticket hr => exact workedOn_of_tickets h (.ticket hr) rfl (h.tickets.insert hr)
  | message hten _ hs => exact { h with messages := h.messages.insert (by simp [hten, hs]) }
  | note hten _ hs => exact { h with notes := h.notes.insert (by simp [hten, hs]) }
  | @entry e hs =>
    refine { h with audit := h.audit.insert hs, logged := ?_ }
    exact h.logged
  | contact _ hten => exact { h with contacts := h.contacts.insert (by simp [hten]) }
  | delivery _ hten => exact { h with deliveries := h.deliveries.insert (by simp [hten]) }
  | job _ hten => exact { h with jobs := h.jobs.insert (by simp [hten]) }

namespace Desk.WorkedOn

/-- A Ticket that is there belongs to the tenant after the commit if it did before. -/
private theorem concerns_commit (h : d.WorkedOn i ctx) {e : AuditEntry} (he : (d.tickets.committed e.ticketId).isSome = true) :
    (d.commit i).concerns ctx.tenantId e = d.concerns ctx.tenantId e := by
  show (d.tickets.visible i e.ticketId).any _ = (d.tickets.committed e.ticketId).any _
  cases ho : d.tickets.own i e.ticketId with
  | none => rw [Table.visible_of_no_own _ _ _ ho]
  | some r =>
    obtain ⟨s,hs⟩ := Option.isSome_iff_exists.mp he
    obtain ⟨hr,hc⟩ := h.tickets.of_own ho
    rw [hs] at hc
    rw [Table.visible_of_own _ _ _ ho, hs]
    simp [Ticket.tenantId_of_visibleTo hr, Ticket.tenantId_of_visibleTo hc]

private theorem logged_commit (h : d.WorkedOn i ctx) : (d.commit i).Logged := by
  intro k e he
  show (d.tickets.visible i e.ticketId).isSome = true
  rcases Table.visible_cases _ _ _ he with ho | ⟨_,hc⟩
  · obtain ⟨r,hr⟩ := Option.isSome_iff_exists.mp (h.audit.of_own ho).1
    rw [(Desk.sees_some.mp hr).1]
    rfl
  · obtain ⟨r,hr⟩ := Option.isSome_iff_exists.mp (h.logged k e hc)
    simp [Table.visible, hr]

theorem idle_commit (h : d.WorkedOn i ctx) : (d.commit i).Idle where
  tickets := h.tickets.settled_commit
  messages := h.messages.settled_commit
  notes := h.notes.settled_commit
  audit := h.audit.settled_commit
  contacts := h.contacts.settled_commit
  deliveries := h.deliveries.settled_commit
  jobs := h.jobs.settled_commit
  logged := h.logged_commit

theorem idle_rollback (h : d.WorkedOn i ctx) : (d.rollback i).Idle where
  tickets := h.tickets.settled_rollback
  messages := h.messages.settled_rollback
  notes := h.notes.settled_rollback
  audit := h.audit.settled_rollback
  contacts := h.contacts.settled_rollback
  deliveries := h.deliveries.settled_rollback
  jobs := h.jobs.settled_rollback
  logged := h.logged

theorem others_rollback (d : Desk ι) (i : ι) (U : Uuid) : d.AgreeOn U (d.rollback i) :=
  ⟨fun _ => rfl,fun _ => rfl,fun _ => rfl,fun _ => rfl,fun _ => rfl,fun _ => rfl,fun _ => rfl,fun _ => rfl⟩

/-- The rows of the other tenants are as they were. -/
theorem others_commit {U : Uuid} (h : d.WorkedOn i ctx) (hU : U ≠ ctx.tenantId) : d.AgreeOn U (d.commit i) := by
  have htickets : d.tickets.SameRows (·.tenantId = U) (d.commit i).tickets := by
    refine h.tickets.sameRows_commit fun r hr => ?_
    simp only [decide_eq_true_eq] at hr
    simp [Ticket.visibleTo, hr, hU]
  refine ⟨fun _ => rfl,htickets,?_,?_,fun k => ?_,?_,?_,?_⟩
  · refine h.messages.sameRows_commit fun m hm => ?_
    simp only [decide_eq_true_eq] at hm
    simp [hm, hU]
  · refine h.notes.sameRows_commit fun m hm => ?_
    simp only [decide_eq_true_eq] at hm
    simp [hm, hU]
  · rw [← Desk.concerns_eq htickets]
    refine h.audit.sameRows_commit (fun e he => ?_) k
    rw [Option.isSome_eq_false_iff, Option.isNone_iff_eq_none]
    by_contra hne
    obtain ⟨r,hr⟩ := Option.ne_none_iff_exists'.mp hne
    obtain ⟨s,hs,hsU⟩ := (Option.any_eq_true _ _).mp he
    obtain ⟨hvis,hto⟩ := Desk.sees_some.mp hr
    simp only [decide_eq_true_eq] at hsU
    rcases Table.visible_cases _ _ _ hvis with ho | ⟨_,hc⟩
    · have hall := (h.tickets.of_own ho).2
      rw [hs] at hall
      exact hU (hsU.symm.trans (Ticket.tenantId_of_visibleTo hall))
    · cases hs.symm.trans hc
      exact hU (hsU.symm.trans (Ticket.tenantId_of_visibleTo hto))
  · refine h.contacts.sameRows_commit fun c hc => ?_
    simp only [decide_eq_true_eq] at hc
    simp [hc, hU]
  · refine h.deliveries.sameRows_commit fun x hx => ?_
    simp only [decide_eq_true_eq] at hx
    simp [hx, hU]
  · refine h.jobs.sameRows_commit fun x hx => ?_
    simp only [decide_eq_true_eq] at hx
    simp [hx, hU]

end Desk.WorkedOn

structure Desk.Working (i : ι) (ctx : TenantContext) (d₀ d : Desk ι) : Prop where
  workedOn : d.WorkedOn i ctx
  unchanged : d₀.Unchanged d
  users : d.users = d₀.users

theorem Desk.Working.write {d₀ : Desk ι} (h : d₀.Working i ctx d) (hw : d.Write i ctx d') : d₀.Working i ctx d' := by
  refine ⟨hw.workedOn h.workedOn,?_,?_⟩
  · obtain ⟨ht,hm,hn,ha,hc,hx,hj⟩ := h.unchanged
    cases hw <;> exact ⟨ht,hm,hn,ha,hc,hx,hj⟩
  · cases hw <;> exact h.users

/-- Nothing is committed before the end. -/
theorem Desk.Working.agreeOn {d₀ : Desk ι} (h : d₀.Working i ctx d) (U : Uuid) : d₀.AgreeOn U d := by
  obtain ⟨ht,hm,hn,ha,hc,hx,hj⟩ := h.unchanged
  have htickets : d₀.tickets.SameRows (·.tenantId = U) d.tickets := fun k => by rw [ht]
  refine ⟨fun u => by rw [h.users],htickets,fun k => by rw [hm],fun k => by rw [hn],fun k => ?_,fun k => by rw [hc],
    fun k => by rw [hx],fun k => by rw [hj]⟩
  rw [ha, Desk.concerns_eq htickets]

/-- Two commits of the same rows. -/
theorem Desk.Alike.commit (h : d.Alike ctx.tenantId d') (hd : d.WorkedOn i ctx) (hd' : d'.WorkedOn i ctx) :
    (d.commit i).Alike ctx.tenantId (d'.commit i) where
  users := h.users
  tickets := h.tickets.commit i
  messages := h.messages.commit i
  notes := h.notes.commit i
  audit := by
    have htickets : (d.commit i).concerns ctx.tenantId = (d'.commit i).concerns ctx.tenantId :=
      Desk.concerns_eq (h.tickets.commit i).committed
    refine ⟨h.audit.size,(h.audit.commit i).pending,fun k => ?_⟩
    show (d.audit.visible i k).filter _ = (d'.audit.visible i k).filter _
    simp only [Table.visible, h.audit.own i k]
    cases d'.audit.own i k with
    | some e => rfl
    | none =>
      -- what is committed is about Tickets that were there, whose tenants do not change
      have hold : ∀ b : Desk ι, b.WorkedOn i ctx → (b.audit.committed k).filter ((b.commit i).concerns ctx.tenantId) =
          (b.audit.committed k).filter (b.concerns ctx.tenantId) := by
        intro b hb
        cases hc : b.audit.committed k with
        | none => rfl
        | some e => simp only [Option.filter, hb.concerns_commit (hb.logged k e hc)]
      simp only [Option.none_or]
      rw [hold d hd, htickets, hold d' hd', ← Desk.concerns_eq h.tickets.committed]
      exact h.audit.committed k
  contacts := h.contacts.commit i
  deliveries := h.deliveries.commit i
  jobs := h.jobs.commit i

theorem Desk.Alike.rollback (h : d.Alike T d') (i : ι) : (d.rollback i).Alike T (d'.rollback i) :=
  ⟨h.users,h.tickets.rollback i,h.messages.rollback i,h.notes.rollback i,h.audit.rollback i,h.contacts.rollback i,
    h.deliveries.rollback i,h.jobs.rollback i⟩

end Writing

end Nivara.Tickets
