import Nivara.Tickets.Confinement
import Nivara.Tickets.TicketService

/-! What a crew of principals can change, however many transactions they have open and however the statements
of these fall. -/
namespace Nivara.Tickets
open Transactions

def Ticket.Reached (crew : Uuid → Actor → Prop) (r : Ticket) : Prop :=
  ∃ actor, crew r.tenantId actor ∧ actor.reaches r.contactId = true

def Staffed (crew : Uuid → Actor → Prop) (tenantId : Uuid) : Prop := ∃ actor, crew tenantId actor ∧ actor.isContact = false

variable {ι : Type} {crew : Uuid → Actor → Prop} {d d' e : Desk ι} {k : Uuid}

def Desk.Beyond (crew : Uuid → Actor → Prop) (d : Desk ι) (k : Uuid) : Prop :=
  ∃ r, d.tickets.committed k = some r ∧ ¬ r.Reached crew

structure Desk.Untouched (crew : Uuid → Actor → Prop) (d d' : Desk ι) : Prop where
  tickets : ∀ k r, ¬ r.Reached crew → (d.tickets.committed k = some r ↔ d'.tickets.committed k = some r)
  messages : ∀ k m, d.Beyond crew m.ticketId → (d.messages.committed k = some m ↔ d'.messages.committed k = some m)
  notes : ∀ k m, d.Beyond crew m.ticketId → (d.notes.committed k = some m ↔ d'.notes.committed k = some m)
  audit : ∀ k x, d.Beyond crew x.ticketId → (d.audit.committed k = some x ↔ d'.audit.committed k = some x)
  contacts : ∀ k c, ¬ Staffed crew c.tenantId → (d.contacts.committed k = some c ↔ d'.contacts.committed k = some c)
  deliveries : ∀ k x, ¬ Staffed crew x.tenantId → (d.deliveries.committed k = some x ↔ d'.deliveries.committed k = some x)
  jobs : ∀ k x, ¬ Staffed crew x.tenantId → (d.jobs.committed k = some x ↔ d'.jobs.committed k = some x)

structure Desk.Signed (crew : Uuid → Actor → Prop) (d d' : Desk ι) : Prop where
  messages : ∀ k m, d'.messages.committed k = some m → d.messages.committed k = some m ∨
    (crew m.tenantId m.author ∧ ∃ r, d'.tickets.committed m.ticketId = some r ∧ r.Reached crew)
  notes : ∀ k m, d'.notes.committed k = some m → d.notes.committed k = some m ∨
    (crew m.tenantId m.author ∧ ∃ r, d'.tickets.committed m.ticketId = some r ∧ r.Reached crew)

namespace Desk.Untouched

theorem refl (d : Desk ι) : d.Untouched crew d :=
  ⟨fun _ _ _ => .rfl,fun _ _ _ => .rfl,fun _ _ _ => .rfl,fun _ _ _ => .rfl,fun _ _ _ => .rfl,fun _ _ _ => .rfl,fun _ _ _ => .rfl⟩

theorem beyond (h : d.Untouched crew d') (hk : d.Beyond crew k) : d'.Beyond crew k := by
  obtain ⟨r,hr,hout⟩ := hk
  exact ⟨r,(h.tickets k r hout).mp hr,hout⟩

theorem trans (h : d.Untouched crew d') (h' : d'.Untouched crew e) : d.Untouched crew e where
  tickets k r hr := (h.tickets k r hr).trans (h'.tickets k r hr)
  messages k m hm := (h.messages k m hm).trans (h'.messages k m (h.beyond hm))
  notes k m hm := (h.notes k m hm).trans (h'.notes k m (h.beyond hm))
  audit k x hx := (h.audit k x hx).trans (h'.audit k x (h.beyond hx))
  contacts k c hc := (h.contacts k c hc).trans (h'.contacts k c hc)
  deliveries k x hx := (h.deliveries k x hx).trans (h'.deliveries k x hx)
  jobs k x hx := (h.jobs k x hx).trans (h'.jobs k x hx)

end Desk.Untouched

section Crews
variable [DecidableEq ι] {i j : ι} {ctx : TenantContext}

theorem Ticket.reached_of_visibleTo {r : Ticket} (h : r.visibleTo ctx = true) (hc : crew ctx.tenantId ctx.actor) : r.Reached crew := by
  simp only [Ticket.visibleTo, decide_eq_true_eq] at h
  exact ⟨ctx.actor,by rw [h.1]; exact hc,h.2⟩

def Desk.Holds (crew : Uuid → Actor → Prop) (d : Desk ι) (i : ι) (k : Uuid) : Prop :=
  ∃ r, d.tickets.visible i k = some r ∧ r.Reached crew

structure Desk.Manned (crew : Uuid → Actor → Prop) (d : Desk ι) : Prop where
  tickets : d.tickets.Confined fun _ r => r.Reached crew
  messages : d.messages.Confined fun i m => crew m.tenantId m.author ∧ d.Holds crew i m.ticketId
  notes : d.notes.Confined fun i m => crew m.tenantId m.author ∧ d.Holds crew i m.ticketId
  audit : d.audit.Confined fun i x => d.Holds crew i x.ticketId
  contacts : d.contacts.Confined fun _ c => Staffed crew c.tenantId
  deliveries : d.deliveries.Confined fun _ x => Staffed crew x.tenantId
  jobs : d.jobs.Confined fun _ x => Staffed crew x.tenantId

theorem Desk.Idle.manned (h : d.Idle) : d.Manned crew :=
  ⟨.of_settled h.tickets,.of_settled h.messages,.of_settled h.notes,.of_settled h.audit,.of_settled h.contacts,
    .of_settled h.deliveries,.of_settled h.jobs⟩

private theorem holds_of_sees (h : (d.sees i ctx k).isSome = true) (hc : crew ctx.tenantId ctx.actor) : d.Holds crew i k := by
  obtain ⟨r,hr⟩ := Option.isSome_iff_exists.mp h
  obtain ⟨hvis,hto⟩ := Desk.sees_some.mp hr
  exact ⟨r,hvis,Ticket.reached_of_visibleTo hto hc⟩

/-- A change of the Tickets that keeps what is held keeps the rest. -/
private theorem manned_of_tickets {tickets : Table ι Ticket} (h : d.Manned crew)
    (ht : tickets.Confined fun _ r => r.Reached crew)
    (hk : ∀ j k, d.Holds crew j k → Desk.Holds crew { d with tickets := tickets } j k) :
    Desk.Manned crew { d with tickets := tickets } where
  tickets := ht
  messages := h.messages.mono fun j _ hm => ⟨hm.1,hk j _ hm.2⟩
  notes := h.notes.mono fun j _ hm => ⟨hm.1,hk j _ hm.2⟩
  audit := h.audit.mono fun j _ hx => hk j _ hx
  contacts := h.contacts
  deliveries := h.deliveries
  jobs := h.jobs

private theorem visible_write_other {t : Table ι Ticket} {r : Ticket} (hf : t.free i [k] = true) (hj : j ≠ i) (k' : Uuid) :
    (t.write i [k] (fun _ => true) fun _ => r).visible j k' = t.visible j k' := by
  simp only [Table.visible, Table.own_write_other t i j k' hj hf]
  rfl

private theorem holds_version {old r : Ticket} (hf : d.tickets.free i [k] = true) (hold : d.tickets.visible i k = some old)
    (hr : r.Reached crew) (k' : Uuid) (h : d.Holds crew j k') :
    Desk.Holds crew { d with tickets := d.tickets.write i [k] (fun _ => true) fun _ => r } j k' := by
  obtain ⟨s,hs,hsr⟩ := h
  by_cases hj : j = i
  · subst hj
    by_cases hk : k' = k
    · subst hk
      exact ⟨r,Table.visible_of_own _ _ _ (Table.own_write_picked _ _ _ (by simp) hold rfl),hr⟩
    · refine ⟨s,?_,hsr⟩
      rw [← hs]
      simp only [Table.visible, Table.own_write_self, List.mem_singleton, hk, if_false]
      rfl
  · exact ⟨s,(visible_write_other hf hj k').trans hs,hsr⟩

private theorem holds_insert {r : Ticket} (h : d.Holds crew j k) :
    Desk.Holds crew { d with tickets := d.tickets.insert i r } j k := by
  obtain ⟨s,hs,hsr⟩ := h
  refine ⟨s,?_,hsr⟩
  rw [← hs]
  simp only [Table.visible, Table.own_insert, if_neg (Nat.ne_of_lt (Table.lt_size_of_visible _ _ _ hs))]
  rfl

theorem Desk.Write.manned (hw : d.Write i ctx d') (hc : crew ctx.tenantId ctx.actor) (h : d.Manned crew) : d'.Manned crew := by
  have hstaff : ctx.actor.isContact = false → ∀ T, T = ctx.tenantId → Staffed crew T := by
    rintro hs T rfl
    exact ⟨ctx.actor,hc,hs⟩
  cases hw with
  | version hf hold hr =>
    obtain ⟨hvis,hto⟩ := Desk.sees_some.mp hold
    have hreached := Ticket.reached_of_visibleTo hr hc
    exact manned_of_tickets h (h.tickets.write hf hvis (Ticket.reached_of_visibleTo hto hc) hreached)
      fun j k' hk => holds_version hf hvis hreached k' hk
  | ticket hr => exact manned_of_tickets h (h.tickets.insert (Ticket.reached_of_visibleTo hr hc)) fun _ _ hk => holds_insert hk
  | message hten hau hs =>
    have hmay := hc
    rw [← hten, ← hau] at hmay
    exact { h with messages := h.messages.insert ⟨hmay,holds_of_sees hs hc⟩ }
  | note hten hau hs =>
    have hmay := hc
    rw [← hten, ← hau] at hmay
    exact { h with notes := h.notes.insert ⟨hmay,holds_of_sees hs hc⟩ }
  | entry hs => exact { h with audit := h.audit.insert (holds_of_sees hs hc) }
  | contact hs hten => exact { h with contacts := h.contacts.insert (hstaff hs _ hten) }
  | delivery hs hten => exact { h with deliveries := h.deliveries.insert (hstaff hs _ hten) }
  | job hs hten => exact { h with jobs := h.jobs.insert (hstaff hs _ hten) }

theorem Desk.Writes.manned (hw : Desk.Writes i ctx d d') (hc : crew ctx.tenantId ctx.actor) (h : d.Manned crew) : d'.Manned crew := by
  induction hw with
  | refl => exact h
  | tail _ hw ih => exact hw.manned hc ih

namespace Desk.Manned

private theorem holds_commit (h : d.Manned crew) (hj : j ≠ i) (hk : d.Holds crew j k) : (d.commit i).Holds crew j k := by
  obtain ⟨s,hs,hsr⟩ := hk
  have hown : (d.tickets.commit i).own j k = d.tickets.own j k := Table.own_commit_other _ _ _ _ hj
  rcases Table.visible_cases _ _ _ hs with ho | ⟨ho,hcom⟩
  · exact ⟨s,Table.visible_of_own _ _ _ (hown.trans ho),hsr⟩
  · have hvis : (d.commit i).tickets.visible j k = d.tickets.visible i k := Table.visible_of_no_own _ _ _ (hown.trans ho)
    cases hi : d.tickets.own i k with
    | some r => exact ⟨r,hvis.trans (Table.visible_of_own _ _ _ hi),(h.tickets i k r hi).1⟩
    | none => exact ⟨s,hvis.trans ((Table.visible_of_no_own _ _ _ hi).trans hcom),hsr⟩

private theorem holds_rollback (hj : j ≠ i) (hk : d.Holds crew j k) : (d.rollback i).Holds crew j k := by
  obtain ⟨s,hs,hsr⟩ := hk
  refine ⟨s,?_,hsr⟩
  rw [← hs]
  show (d.tickets.rollback i).visible j k = _
  simp only [Table.visible, Table.own_rollback_other _ _ _ _ hj]
  rfl

theorem commit (h : d.Manned crew) (i : ι) : (d.commit i).Manned crew where
  tickets := h.tickets.commit fun _ _ _ hr => hr
  messages := h.messages.commit fun _ _ hj hm => ⟨hm.1,h.holds_commit hj hm.2⟩
  notes := h.notes.commit fun _ _ hj hm => ⟨hm.1,h.holds_commit hj hm.2⟩
  audit := h.audit.commit fun _ _ hj hx => h.holds_commit hj hx
  contacts := h.contacts.commit fun _ _ _ hr => hr
  deliveries := h.deliveries.commit fun _ _ _ hr => hr
  jobs := h.jobs.commit fun _ _ _ hr => hr

theorem rollback (h : d.Manned crew) (i : ι) : (d.rollback i).Manned crew where
  tickets := h.tickets.rollback fun _ _ _ hr => hr
  messages := h.messages.rollback fun _ _ hj hm => ⟨hm.1,holds_rollback hj hm.2⟩
  notes := h.notes.rollback fun _ _ hj hm => ⟨hm.1,holds_rollback hj hm.2⟩
  audit := h.audit.rollback fun _ _ hj hx => holds_rollback hj hx
  contacts := h.contacts.rollback fun _ _ _ hr => hr
  deliveries := h.deliveries.rollback fun _ _ _ hr => hr
  jobs := h.jobs.rollback fun _ _ _ hr => hr

private theorem not_holds_of_beyond (h : d.Manned crew) (hk : d.Beyond crew k) : ¬ d.Holds crew i k := by
  obtain ⟨r,hr,hout⟩ := hk
  rintro ⟨s,hs,hsr⟩
  rcases Table.visible_cases _ _ _ hs with ho | ⟨_,hc⟩
  · exact hout ((h.tickets i k s ho).2 r hr)
  · cases hr.symm.trans hc
    exact hout hsr

theorem untouched_commit (h : d.Manned crew) (i : ι) : d.Untouched crew (d.commit i) where
  tickets _ _ hr := h.tickets.committed_iff hr
  messages _ _ hm := h.messages.committed_iff fun hc => h.not_holds_of_beyond hm hc.2
  notes _ _ hm := h.notes.committed_iff fun hc => h.not_holds_of_beyond hm hc.2
  audit _ _ hx := h.audit.committed_iff fun hc => h.not_holds_of_beyond hx hc
  contacts _ _ hr := h.contacts.committed_iff hr
  deliveries _ _ hr := h.deliveries.committed_iff hr
  jobs _ _ hr := h.jobs.committed_iff hr

theorem signed_commit (h : d.Manned crew) (i : ι) : d.Signed crew (d.commit i) where
  messages _ _ hm := h.messages.committed_cases hm
  notes _ _ hm := h.notes.committed_cases hm

/-- A Ticket that the crew reaches stays one. -/
theorem reached_commit (h : d.Manned crew) (i : ι) (hk : ∃ r, d.tickets.committed k = some r ∧ r.Reached crew) :
    ∃ r, (d.commit i).tickets.committed k = some r ∧ r.Reached crew := by
  obtain ⟨r,hr,hin⟩ := hk
  cases ho : d.tickets.own i k with
  | some s => exact ⟨s,Table.visible_of_own _ _ _ ho,(h.tickets i k s ho).1⟩
  | none => exact ⟨r,(Table.visible_of_no_own _ _ _ ho).trans hr,hin⟩

end Desk.Manned

section Runs
variable {ε α : Type} {s t u : Server deskLanguage ε α ι TenantContext (Desk ι) (deskEngine ι).Cursor (Work ε α)}
  {acts : List (Move ι (Work ε α) Event)} {m : Move ι (Work ε α) Event}

def ServesOnly (crew : Uuid → Actor → Prop) (_ : Server deskLanguage ε α ι TenantContext (Desk ι) (deskEngine ι).Cursor (Work ε α)) :
    Move ι (Work ε α) Event → Prop
  | .begin _ work => crew work.tenantId work.actor
  | _ => True

private structure Sheltered (crew : Uuid → Actor → Prop) (d d' : Desk ι) : Prop where
  manned : d'.Manned crew
  untouched : d.Untouched crew d'
  signed : d.Signed crew d'

private theorem Sheltered.of_unchanged (h : Sheltered crew d d') (hm : e.Manned crew) (hu : d'.Unchanged e) : Sheltered crew d e := by
  obtain ⟨ht,hmsg,hn,ha,hc,hx,hj⟩ := hu
  refine ⟨hm,h.untouched.trans ?_,?_,?_⟩
  · refine ⟨?_,?_,?_,?_,?_,?_,?_⟩ <;> intro k r _
    · rw [ht]
    · rw [hmsg]
    · rw [hn]
    · rw [ha]
    · rw [hc]
    · rw [hx]
    · rw [hj]
  · rw [hmsg, ht]
    exact h.signed.messages
  · rw [hn, ht]
    exact h.signed.notes

private theorem Sheltered.commit (h : Sheltered crew d d') (i : ι) : Sheltered crew d (d'.commit i) := by
  refine ⟨h.manned.commit i,h.untouched.trans (h.manned.untouched_commit i),fun k m hm => ?_,fun k m hm => ?_⟩
  · rcases (h.manned.signed_commit i).messages k m hm with hold | hnew
    · rcases h.signed.messages k m hold with hold | ⟨hau,hr⟩
      · exact .inl hold
      · exact .inr ⟨hau,h.manned.reached_commit i hr⟩
    · exact .inr hnew
  · rcases (h.manned.signed_commit i).notes k m hm with hold | hnew
    · rcases h.signed.notes k m hold with hold | ⟨hau,hr⟩
      · exact .inl hold
      · exact .inr ⟨hau,h.manned.reached_commit i hr⟩
    · exact .inr hnew

private theorem sheltered_of_change (h : Sheltered crew d d')
    (hc : Changes (deskEngine ι) Desk.world (fun _ _ ctx _ _ => crew ctx.tenantId ctx.actor) d' e) : Sheltered crew d e := by
  cases hc with
  | commit i => exact h.commit i
  | rollback i => exact h.of_unchanged (h.manned.rollback i) ⟨rfl,rfl,rfl,rfl,rfl,rfl,rfl⟩
  | more hk ht => exact h.of_unchanged ((writes_of_more ht).manned hk h.manned) (unchanged_of_more ht)
  | answer hk ht => exact h.of_unchanged ((writes_of_answer ht).manned hk h.manned) (unchanged_of_answer ht)
  | world hw =>
    obtain ⟨clock,users,rfl⟩ := Desk.of_world hw
    obtain ⟨ht,hm,hn,ha,hc,hx,hj⟩ := h.manned
    exact h.of_unchanged ⟨ht,hm,hn,ha,hc,hx,hj⟩ ⟨rfl,rfl,rfl,rfl,rfl,rfl,rfl⟩

/-- Whatever the principals of a crew have their transactions do, and however these overlap: what none of them
reaches is as it was, and what is new in a thread is signed by one of them, on a Ticket that one of them reaches. -/
theorem untouched_of_run (hd : d.Idle) (hr : Run (Server.step (deskEngine ι) (workService ι ε α) Desk.world)
    (ServesOnly crew) (Server.initial d) acts t) : d.Untouched crew t.db ∧ d.Signed crew t.db := by
  have hstart : Sheltered crew d d := ⟨hd.manned,.refl d,fun _ _ h => .inl h,fun _ _ h => .inl h⟩
  have hrun : t.ArmedBy (E := deskEngine ι) (fun ctx => crew ctx.tenantId ctx.actor) ∧ Sheltered crew d t.db := by
    refine hr.invariant (I := fun u => u.ArmedBy (E := deskEngine ι) (fun ctx => crew ctx.tenantId ctx.actor) ∧ Sheltered crew d u.db)
      ⟨?_,hstart⟩ fun u m v hu hok hs => ?_
    · intro i x hx
      cases hx
    · refine ⟨hu.1.step (fun i work hm => by subst hm; exact hok) hs,?_⟩
      have hknown : ∀ i x q next k, m = .advance i → u.sessions i = some x → x.script = .exec q next → x.aborted = false →
          x.cursor = some k → crew x.ctx.tenantId x.ctx.actor := fun i x _ _ _ _ hx _ _ _ => hu.1 i x hx
      have hchange : v.db = u.db ∨
          Changes (deskEngine ι) Desk.world (fun _ _ ctx _ _ => crew ctx.tenantId ctx.actor) u.db v.db :=
        changes_of_step hs hknown
      rcases hchange with heq | hc
      · rw [heq]
        exact hu.2
      · exact sheltered_of_change hu.2 hc
  exact ⟨hrun.2.untouched,hrun.2.signed⟩

instance [∀ T a, Decidable (crew T a)] (s : Server deskLanguage ε α ι TenantContext (Desk ι) (deskEngine ι).Cursor (Work ε α))
    (m : Move ι (Work ε α) Event) : Decidable (ServesOnly crew s m) := by
  cases m <;> unfold ServesOnly <;> infer_instance

end Runs
end Crews

section Example

private def flats : Desk Bool :=
  { (Desk.empty : Desk Bool) with
    tickets := .ofList [.fresh 1 "No heating" 0 .portal none none 0, .fresh 1 "No light" 1 .portal none none 0]
    contacts := .ofList [⟨1, none⟩, ⟨1, none⟩] }

private theorem flats_idle : flats.Idle :=
  ⟨fun _ => rfl,fun _ => rfl,fun _ => rfl,fun _ => rfl,fun _ => rfl,fun _ => rfl,fun _ => rfl,fun _ _ h => (by cases h)⟩

private def first (T : Uuid) (actor : Actor) : Prop := T = 1 ∧ actor = .contact 0

private instance (T : Uuid) (actor : Actor) : Decidable (first T actor) := inferInstanceAs (Decidable (_ ∧ _))

private def posts (k : Uuid) (body : String) : Work Failure (Uuid × Entry) := ⟨1, .contact 0, postIn k body 5⟩

private def bothAtOnce : List (Move Bool (Work Failure (Uuid × Entry)) Event) :=
  [.begin true (posts 0 "Still cold"), .begin false (posts 1 "Still dark"), .advance true, .advance false, .advance true,
    .advance false, .advance true, .advance true, .advance false, .advance true]

theorem untouched_of_flats : ∃ t : Server deskLanguage Failure (Uuid × Entry) Bool TenantContext (Desk Bool) Cursor
    (Work Failure (Uuid × Entry)),
    t.answers.length = 1 ∧ flats.Untouched first t.db ∧ flats.Signed first t.db := by
  have hrun : (exec (Server.step (deskEngine Bool) (workService Bool Failure (Uuid × Entry)) Desk.world) (ServesOnly first)
      (Server.initial flats) bothAtOnce).any (fun t => t.answers.length = 1) = true := by
    decide +kernel
  obtain ⟨t,ht,hone⟩ := exec_any hrun
  exact ⟨t,of_decide_eq_true hone,untouched_of_run flats_idle ht⟩

end Example
end Nivara.Tickets
