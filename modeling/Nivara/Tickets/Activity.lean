import Nivara.Tickets.AuditTrail
import Nivara.Tickets.Locks

/-! When a Ticket was last active. Messages, Notes and edits are its activities, each with the instant
it is stamped with, and each of them writes the Ticket's row. As long as they commit in the order of
their stamps, `last_activity_at` is the stamp of the latest of them. -/
namespace Nivara.Tickets
open Transactions

def recordsEdit (e : AuditEntry) : Bool :=
  e.action = .ticketTransitioned ∨ e.action = .ticketAssigned ∨ e.action = .ticketPriorityChanged

def stampsOn (k : Uuid) (messages notes : List Entry) (log : List AuditEntry) : List Int :=
  (messages.filter (·.ticketId = k)).map Entry.createdAt ++ (notes.filter (·.ticketId = k)).map Entry.createdAt ++
    (log.filter fun e => recordsEdit e && e.ticketId = k).map AuditEntry.createdAt

section Stamps
variable {ι : Type} {R : Type}

def rowsWith (t : Table ι R) (get : Nat → Option R) : List R := (List.range t.size).filterMap get

theorem mem_rowsWith {t : Table ι R} {get : Nat → Option R} (hget : ∀ n r, get n = some r → n < t.size) {r : R} :
    r ∈ rowsWith t get ↔ ∃ n, get n = some r := by
  simp only [rowsWith, List.mem_filterMap, List.mem_range]
  exact ⟨fun ⟨n,_,hn⟩ => ⟨n,hn⟩,fun ⟨n,hn⟩ => ⟨n,hget n r hn,hn⟩⟩

theorem mem_stampsOn {k : Uuid} {messages notes : List Entry} {log : List AuditEntry} {t : Int} :
    t ∈ stampsOn k messages notes log ↔ (∃ m ∈ messages, m.ticketId = k ∧ m.createdAt = t) ∨
      (∃ m ∈ notes, m.ticketId = k ∧ m.createdAt = t) ∨
      ∃ e ∈ log, recordsEdit e = true ∧ e.ticketId = k ∧ e.createdAt = t := by
  simp [stampsOn, and_assoc]

end Stamps

variable {ι : Type} [DecidableEq ι]

def Desk.committedStamps (d : Desk ι) (k : Uuid) : List Int :=
  (d.tickets.committed k).toList.map Ticket.createdAt ++
    stampsOn k (rowsWith d.messages d.messages.committed) (rowsWith d.notes d.notes.committed) (rowsWith d.audit d.audit.committed)

def Desk.ownStamps (d : Desk ι) (i : ι) (k : Uuid) : List Int :=
  (if (d.tickets.committed k).isNone then (d.tickets.own i k).toList.map Ticket.createdAt else []) ++
    stampsOn k (rowsWith d.messages (d.messages.own i)) (rowsWith d.notes (d.notes.own i)) (rowsWith d.audit (d.audit.own i))

/-- The stamps a transaction is about to commit come after those that are committed, and the last of them is
the latest. -/
def Desk.inOrder (d : Desk ι) (i : ι) : Bool :=
  (List.range d.tickets.size).all fun k => (d.tickets.own i k).all fun r => (d.ownStamps i k).all fun t =>
    t ≤ r.lastActivityAt ∧ (d.committedStamps k).all (· ≤ t)

def Stmt.LeavesActivity : Stmt → Prop
  | .updateTickets plan => ∀ k r set old new, plan k r = some set → set old = some new →
      new.lastActivityAt = old.lastActivityAt ∧ new.createdAt = old.createdAt
  | .insertTicket row => row.lastActivityAt = row.createdAt
  | _ => True

private def Does (k : Uuid) (message note : Nat → Option Entry) (entry : Nat → Option AuditEntry) (t : Int) : Prop :=
  (∃ n m, message n = some m ∧ m.ticketId = k ∧ m.createdAt = t) ∨ (∃ n m, note n = some m ∧ m.ticketId = k ∧ m.createdAt = t) ∨
    ∃ n e, entry n = some e ∧ recordsEdit e = true ∧ e.ticketId = k ∧ e.createdAt = t

variable {d d' : Desk ι} {i j : ι} {ctx : TenantContext} {k : Uuid} {t : Int} {old new r : Ticket}

omit [DecidableEq ι] in
private theorem mem_committedStamps : t ∈ d.committedStamps k ↔ (∃ r, d.tickets.committed k = some r ∧ r.createdAt = t) ∨
    Does k d.messages.committed d.notes.committed d.audit.committed t := by
  simp only [Desk.committedStamps, List.mem_append, mem_stampsOn, List.mem_map, Option.mem_toList, Does,
    mem_rowsWith fun n _ => Table.lt_size_of_committed _ n]
  simp only [exists_and_right, exists_comm (α := Nat)]

private theorem mem_ownStamps : t ∈ d.ownStamps i k ↔
    (d.tickets.committed k = none ∧ ∃ r, d.tickets.own i k = some r ∧ r.createdAt = t) ∨
    Does k (d.messages.own i) (d.notes.own i) (d.audit.own i) t := by
  simp only [Desk.ownStamps, List.mem_append, mem_stampsOn, Does, mem_rowsWith fun n _ => Table.lt_size_of_own _ i n]
  refine or_congr ?_ ?_
  · cases d.tickets.committed k with
    | none => simp
    | some r => simp
  · simp only [exists_and_right, exists_comm (α := Nat)]

def Edited (d : Desk ι) (i : ι) (k : Uuid) : Prop :=
  ∃ n e, d.audit.own i n = some e ∧ recordsEdit e = true ∧ e.ticketId = k

/-- What the version `r` of Ticket `k` that transaction `i` sees has to do with the committed one: its state
is another only by an edit, and its last activity is one of the transaction's own, if it has any. -/
structure Stands (d : Desk ι) (i : ι) (k : Uuid) (r : Ticket) : Prop where
  tenant : ∀ r₀, d.tickets.committed k = some r₀ → r.tenantId = r₀.tenantId
  created : ∀ r₀, d.tickets.committed k = some r₀ → r.createdAt = r₀.createdAt
  state : Edited d i k ∨ r.state = ((d.tickets.committed k).map Ticket.state).getD .opened
  stamped : r.lastActivityAt ∈ d.ownStamps i k ∨
    d.ownStamps i k = [] ∧ ∃ r₀, d.tickets.committed k = some r₀ ∧ r.lastActivityAt = r₀.lastActivityAt

/-- Whoever has been active on a Ticket holds it, and `last_activity_at` is the stamp of the latest activity. -/
structure Watched (d : Desk ι) : Prop where
  audit : d.Locked fun e => recordsEdit e = true
  messages : ∀ j n m, d.messages.own j n = some m → ∃ r, d.tickets.own j m.ticketId = some r
  notes : ∀ j n m, d.notes.own j n = some m → ∃ r, d.tickets.own j m.ticketId = some r
  messagesOnly : d.messages.InsertOnly
  notesOnly : d.notes.InsertOnly
  addressed : ∀ k t, t ∈ d.committedStamps k → (d.tickets.committed k).isSome
  stands : ∀ i k r, d.tickets.own i k = some r → Stands d i k r
  latest : ∀ k r t, d.tickets.committed k = some r → t ∈ d.committedStamps k → t ≤ r.lastActivityAt
  last : ∀ k r, d.tickets.committed k = some r → r.lastActivityAt ∈ d.committedStamps k

private theorem Watched.idle (h : Watched d) (ho : d.tickets.own i k = none) : d.ownStamps i k = [] := by
  refine List.eq_nil_iff_forall_not_mem.mpr fun t ht => ?_
  have hheld : ∀ k', k' = k → ¬ ∃ r, d.tickets.own i k' = some r := by
    rintro _ rfl ⟨r,hr⟩
    rw [ho] at hr
    cases hr
  rcases mem_ownStamps.mp ht with ⟨_,r,hr,_⟩ | ⟨n,m,hm,hk,_⟩ | ⟨n,m,hm,hk,_⟩ | ⟨n,e,he,hedit,hk,_⟩
  · exact hheld k rfl ⟨r,hr⟩
  · exact hheld _ hk (h.messages i n m hm)
  · exact hheld _ hk (h.notes i n m hm)
  · exact hheld _ hk (h.audit.holds i n e he hedit)

private theorem Watched.stands_of_visible (h : Watched d) (hv : d.tickets.visible i k = some r) : Stands d i k r := by
  rcases Table.visible_cases _ _ _ hv with ho | ⟨ho,hc⟩
  · exact h.stands i k r ho
  · refine ⟨fun r₀ hr₀ => ?_,fun r₀ hr₀ => ?_,.inr (by rw [hc]; rfl),.inr ⟨h.idle ho,r,hc,rfl⟩⟩
    · cases hc.symm.trans hr₀
      rfl
    · cases hc.symm.trans hr₀
      rfl

section Turns

private structure SameOn (d d' : Desk ι) (i : ι) (k : Uuid) : Prop where
  committed : d'.tickets.committed k = d.tickets.committed k
  ticket : d'.tickets.own i k = d.tickets.own i k
  messages : ∀ n m, m.ticketId = k → (d'.messages.own i n = some m ↔ d.messages.own i n = some m)
  notes : ∀ n m, m.ticketId = k → (d'.notes.own i n = some m ↔ d.notes.own i n = some m)
  audit : ∀ n e, e.ticketId = k → recordsEdit e = true → (d'.audit.own i n = some e ↔ d.audit.own i n = some e)

private theorem SameOn.mem (h : SameOn d d' i k) : t ∈ d'.ownStamps i k ↔ t ∈ d.ownStamps i k := by
  rw [mem_ownStamps, mem_ownStamps, h.committed, h.ticket]
  refine or_congr Iff.rfl (or_congr ?_ (or_congr ?_ ?_))
  · exact exists_congr fun n => exists_congr fun m =>
      ⟨fun ⟨hm,hk,ht⟩ => ⟨(h.messages n m hk).mp hm,hk,ht⟩,fun ⟨hm,hk,ht⟩ => ⟨(h.messages n m hk).mpr hm,hk,ht⟩⟩
  · exact exists_congr fun n => exists_congr fun m =>
      ⟨fun ⟨hm,hk,ht⟩ => ⟨(h.notes n m hk).mp hm,hk,ht⟩,fun ⟨hm,hk,ht⟩ => ⟨(h.notes n m hk).mpr hm,hk,ht⟩⟩
  · exact exists_congr fun n => exists_congr fun e =>
      ⟨fun ⟨he,hedit,hk,ht⟩ => ⟨(h.audit n e hk hedit).mp he,hedit,hk,ht⟩,
        fun ⟨he,hedit,hk,ht⟩ => ⟨(h.audit n e hk hedit).mpr he,hedit,hk,ht⟩⟩

private theorem Stands.same (h : Stands d i k r) (hsame : SameOn d d' i k) : Stands d' i k r := by
  have hnil : d.ownStamps i k = [] → d'.ownStamps i k = [] := by
    intro hnil
    refine List.eq_nil_iff_forall_not_mem.mpr fun t ht => ?_
    rw [hsame.mem, hnil] at ht
    cases ht
  refine ⟨by rw [hsame.committed]; exact h.tenant,by rw [hsame.committed]; exact h.created,?_,?_⟩
  · rw [hsame.committed]
    refine h.state.imp_left fun ⟨n,e,he,hedit,hk⟩ => ?_
    exact ⟨n,e,(hsame.audit n e hk hedit).mpr he,hedit,hk⟩
  · rw [hsame.committed, hsame.mem]
    exact h.stamped.imp_right fun ⟨hn,hr₀⟩ => ⟨hnil hn,hr₀⟩

private theorem sameOn_other {q : Stmt} {c : Cursor} (he : Effect d i ctx q c d') (hj : j ≠ i) (k : Uuid) : SameOn d d' j k := by
  obtain ⟨htickets,hmessages⟩ := own_of_effect he hj
  obtain ⟨hnotes,haudit⟩ := own_logs_of_effect he hj
  refine ⟨by rw [(committed_of_effect he).1],htickets k,fun n m _ => ?_,fun n m _ => ?_,fun n e _ _ => ?_⟩
  · rw [hmessages]
  · rw [hnotes]
  · rw [haudit]

private theorem edit_of_isEdit {now : Int} {entries : List AuditEntry} (henf : Enforced k now old new r entries)
    (h : isEdit old new = true) : ∃ e ∈ entries, recordsEdit e = true ∧ e.ticketId = k ∧ e.createdAt = now := by
  rw [henf.audit, auditTrail]
  simp only [isEdit, decide_eq_true_eq] at h
  rcases h with hs | ha | hp
  · refine ⟨⟨.ticketTransitioned, k, some (.state old.state), some (.state r.state), none, now⟩,?_,rfl,rfl,rfl⟩
    have hne : ¬ old.state = r.state := by rw [henf.state]; exact Ne.symm hs
    simp [auditOf, hne]
  · refine ⟨⟨.ticketAssigned, k, old.assigneeId.map .user, r.assigneeId.map .user, none, now⟩,?_,rfl,rfl,rfl⟩
    have hne : ¬ old.assigneeId.map AuditValue.user = r.assigneeId.map AuditValue.user := by
      rw [henf.assignee]
      intro heq
      exact ha (Option.map_injective (fun _ _ h => AuditValue.user.inj h) heq).symm
    simp [auditOf, hne]
  · refine ⟨⟨.ticketPriorityChanged, k, some (.priority old.priority), some (.priority r.priority), none, now⟩,?_,rfl,rfl,rfl⟩
    have hne : ¬ old.priority = r.priority := by rw [henf.priority]; exact Ne.symm hp
    simp [auditOf, hne]

private theorem audit_of_not_isEdit {now : Int} {entries : List AuditEntry} (henf : Enforced k now old new r entries)
    (h : isEdit old new = false) : entries = [] := by
  rw [henf.audit, auditTrail]
  simp only [isEdit, decide_eq_false_iff_not, not_or, not_not] at h
  obtain ⟨hs,ha,hp⟩ := h
  simp [auditOf, henf.state, hs, henf.assignee, ha, henf.priority, hp]

/-- A version of Ticket `k` is stored. `d'` has the Message or Note that has made it, if one has. -/
private theorem stands_stored {d₁ : Desk ι} (h : Watched d) (hs : d.sees i ctx k = some old) (hst : Stored d i ctx k old new d₁ r)
    (hcreated : new.createdAt = old.createdAt) (ht : d'.tickets = d₁.tickets) (ha : d'.audit = d₁.audit)
    (hmessages : ∀ n m, d.messages.own i n = some m → d'.messages.own i n = some m)
    (hnotes : ∀ n m, d.notes.own i n = some m → d'.notes.own i n = some m)
    (hlast : new.lastActivityAt ∈ d'.ownStamps i k ∨
      new.lastActivityAt = old.lastActivityAt ∧ d'.messages = d.messages ∧ d'.notes = d.notes) : Stands d' i k r := by
  have hvis := (Desk.sees_some.mp hs).1
  have hold := h.stands_of_visible hvis
  have hev := evolves_of_stored hs hst
  obtain ⟨entries,henf,rfl⟩ := hst.enforced
  have henf := enforced_of_ok henf
  have hown : d'.tickets.own i k = some r := by
    rw [ht]
    exact Table.own_write_picked _ _ _ (by simp) hvis rfl
  have hborn : r.createdAt = old.createdAt := (congrArg Ticket.createdAt henf.rest).trans hcreated
  have hcom : d'.tickets.committed = d.tickets.committed := by rw [ht]; rfl
  have haudit : ∀ n e, d.audit.own i n = some e → d'.audit.own i n = some e := by
    intro n e he
    rw [ha]
    exact Table.own_inserts_of_own he
  have hmono : ∀ t, t ∈ d.ownStamps i k → t ∈ d'.ownStamps i k := by
    intro t hmem
    rw [mem_ownStamps, hcom]
    rcases mem_ownStamps.mp hmem with ⟨hnone,r',hr',hc⟩ | ⟨n,m,hm,hx⟩ | ⟨n,m,hm,hx⟩ | ⟨n,e,he,hx⟩
    · cases (Table.visible_of_own _ _ _ hr').symm.trans hvis
      exact .inl ⟨hnone,r,hown,hborn.trans hc⟩
    · exact .inr (.inl ⟨n,m,hmessages n m hm,hx⟩)
    · exact .inr (.inr (.inl ⟨n,m,hnotes n m hm,hx⟩))
    · exact .inr (.inr (.inr ⟨n,e,haudit n e he,hx⟩))
  refine ⟨fun r₀ hr₀ => ?_,fun r₀ hr₀ => ?_,?_,?_⟩
  · rw [hev.tenantId]
    exact hold.tenant r₀ (hcom ▸ hr₀)
  · rw [hborn]
    exact hold.created r₀ (hcom ▸ hr₀)
  · rw [hcom]
    by_cases hstate : r.state = old.state
    · rw [hstate]
      exact hold.state.imp_left fun ⟨n,e,he,hx⟩ => ⟨n,e,haudit n e he,hx⟩
    · obtain ⟨e,he,hedit,hk,_⟩ := edit_of_isEdit henf (by simp [isEdit, ← henf.state, hstate])
      obtain ⟨n,hn⟩ := Table.own_inserts_mem (i := i) (t := d.audit) he
      exact .inl ⟨n,e,by rw [ha]; exact hn,hedit,hk⟩
  · rw [henf.lastActivity]
    cases hedit : isEdit old new with
    | true =>
      obtain ⟨e,he,hedit,hk,hnow⟩ := edit_of_isEdit henf hedit
      obtain ⟨n,hn⟩ := Table.own_inserts_mem (i := i) (t := d.audit) he
      exact .inl (mem_ownStamps.mpr (.inr (.inr (.inr ⟨n,e,by rw [ha]; exact hn,hedit,hk,hnow⟩))))
    | false =>
      simp only [Bool.false_eq_true, if_false]
      rcases hlast with hmem | ⟨hsame,hm,hn⟩
      · exact .inl hmem
      · rw [hsame, hcom]
        refine hold.stamped.imp (hmono _) fun ⟨hnil,hr₀⟩ => ⟨?_,hr₀⟩
        -- nothing has been added to what `i` has done there
        refine List.eq_nil_iff_forall_not_mem.mpr fun t hmem => ?_
        have hentries := audit_of_not_isEdit henf hedit
        subst hentries
        have hback : t ∈ d.ownStamps i k := by
          rw [mem_ownStamps] at hmem ⊢
          rw [hcom, hm, hn, ha] at hmem
          rcases hmem with ⟨hnone,r',hr',hc⟩ | hdoes
          · rw [hown] at hr'
            cases hr'
            rcases Table.visible_cases _ _ _ hvis with ho | ⟨_,hcommitted⟩
            · exact .inl ⟨hnone,old,ho,hborn.symm.trans hc⟩
            · rw [hnone] at hcommitted
              cases hcommitted
          · exact .inr hdoes
        rw [hnil] at hback
        cases hback

private theorem sameOn_stored {d₁ : Desk ι} {k' : Uuid} (hst : Stored d i ctx k old new d₁ r) (hk : k' ≠ k)
    (ht : d'.tickets = d₁.tickets) (ha : d'.audit = d₁.audit)
    (hmessages : ∀ n m, m.ticketId = k' → (d'.messages.own i n = some m ↔ d.messages.own i n = some m))
    (hnotes : ∀ n m, m.ticketId = k' → (d'.notes.own i n = some m ↔ d.notes.own i n = some m)) : SameOn d d' i k' := by
  obtain ⟨entries,henf,rfl⟩ := hst.enforced
  refine ⟨by rw [ht]; rfl,?_,hmessages,hnotes,fun n e hek _ => ?_⟩
  · rw [ht, Table.own_write_self, if_neg (by simpa using hk)]
  · rw [ha]
    refine ⟨fun he => ?_,Table.own_inserts_of_own⟩
    rcases Table.own_inserts_cases he with ⟨_,hin⟩ | he
    · rw [(enforced_of_ok henf).audit] at hin
      exact absurd (hek.symm.trans (ticketId_of_auditTrail hin)) hk
    · exact he

private theorem own_insert_elsewhere {t : Table ι Entry} {m : Entry} {k' : Uuid} (hk : k' ≠ m.ticketId) (n : Nat) (x : Entry)
    (hx : x.ticketId = k') : (t.insert i m).own i n = some x ↔ t.own i n = some x := by
  refine ⟨fun ho => ?_,Table.own_insert_of_own _ _ _ _⟩
  rcases Table.own_insert_cases _ _ _ _ ho with ⟨_,_,rfl⟩ | ho
  · exact absurd hx.symm hk
  · exact ho

/-- Whoever stores a version of a Ticket has it. -/
theorem own_stored {d₁ : Desk ι} (hs : d.sees i ctx k = some old) (hst : Stored d i ctx k old new d₁ r) :
    d₁.tickets.own i k = some r := by
  obtain ⟨_,_,rfl⟩ := hst.enforced
  exact Table.own_write_picked _ _ _ (by simp) (Desk.sees_some.mp hs).1 rfl

/-- The versions that `i` has of Tickets, after one of its turns. -/
private theorem stands_of_effect {q : Stmt} {c : Cursor} (h : Watched d) (hq : q.LeavesActivity)
    (hreach : (deskEngine ι).Reaches i ctx q c) (he : Effect d i ctx q c d') {k' : Uuid} {r' : Ticket}
    (ho : d'.tickets.own i k' = some r') : Stands d' i k' r' := by
  cases he with
  | aside _ ht hm hn ha =>
    refine (h.stands i k' r' (by rwa [ht] at ho)).same ⟨by rw [ht],by rw [ht],fun _ _ _ => by rw [hm],fun _ _ _ => by rw [hn],?_⟩
    exact fun _ _ _ _ => by rw [ha]
  | @updated plan k set rest written old new r _ hf hs hset hst =>
    obtain ⟨r₀,hplan⟩ := planned_of_reaches hreach (k, set) List.mem_cons_self
    obtain ⟨hlast,hcreated⟩ := hq k r₀ set old new hplan hset
    obtain ⟨hmsg,hnote,_⟩ := Desk.stored_frame hst
    by_cases hk : k' = k
    · subst hk
      cases (own_stored hs hst).symm.trans ho
      exact stands_stored h hs hst hcreated rfl rfl (fun _ _ hm => by rwa [hmsg]) (fun _ _ hn => by rwa [hnote]) (.inr ⟨hlast,hmsg,hnote⟩)
    · have hsame : SameOn d d' i k' := sameOn_stored hst hk rfl rfl (fun _ _ _ => by rw [hmsg]) fun _ _ _ => by rw [hnote]
      exact (h.stands i k' r' (hsame.ticket ▸ ho)).same hsame
  | @inserted row r c hadm =>
    by_cases hk : k' = d.tickets.size
    · subst hk
      rw [Table.own_insert_self] at ho
      cases ho
      have hnone : d.tickets.committed d.tickets.size = none := d.tickets.committed_fresh _ (Nat.le_refl _)
      have hl := hadm.linkage
      have hrow : r'.state = row.state ∧ r'.lastActivityAt = row.lastActivityAt ∧ r'.createdAt = row.createdAt := by
        unfold enforceLinkageOnInsert at hl
        split at hl
        · cases hl
          exact ⟨rfl,rfl,rfl⟩
        · split at hl
          · cases hl
          · cases hl
            exact ⟨rfl,rfl,rfl⟩
      refine ⟨fun r₀ hr₀ => ?_,fun r₀ hr₀ => ?_,.inr ?_,.inl (mem_ownStamps.mpr (.inl ⟨hnone,r',Table.own_insert_self _ _ _,?_⟩))⟩
      · rw [show (d.tickets.insert i r').committed d.tickets.size = none from hnone] at hr₀
        cases hr₀
      · rw [show (d.tickets.insert i r').committed d.tickets.size = none from hnone] at hr₀
        cases hr₀
      · rw [show (d.tickets.insert i r').committed d.tickets.size = none from hnone, hrow.1, hadm.born]
        rfl
      · rw [hrow.2.1, hrow.2.2]
        exact Eq.symm hq
    · rw [Table.own_insert, if_neg hk] at ho
      refine (h.stands i k' r' ho).same ⟨rfl,?_,fun _ _ _ => Iff.rfl,fun _ _ _ => Iff.rfl,fun _ _ _ _ => Iff.rfl⟩
      rw [Table.own_insert, if_neg hk]
  | @posted k body t c old r d₁ hf hs hst =>
    by_cases hk : k' = k
    · subst hk
      cases (own_stored hs hst).symm.trans ho
      refine stands_stored h hs hst rfl rfl rfl (fun n m hm => Table.own_insert_of_own _ _ _ _ hm) (fun n m hn => ?_) (.inl ?_)
      · simpa only [(Desk.stored_frame hst).2.1] using hn
      · exact mem_ownStamps.mpr (.inr (.inl ⟨_,_,Table.own_insert_self _ _ _,rfl,rfl⟩))
    · have hsame : SameOn d { d₁ with messages := d.messages.insert i ⟨ctx.tenantId, k, body, ctx.actor, t⟩ } i k' :=
        sameOn_stored hst hk rfl rfl (own_insert_elsewhere hk) fun _ _ _ => by simp only [(Desk.stored_frame hst).2.1]
      exact (h.stands i k' r' (hsame.ticket ▸ ho)).same hsame
  | @noted k body t c old r d₁ hf hs hst =>
    by_cases hk : k' = k
    · subst hk
      cases (own_stored hs hst).symm.trans ho
      refine stands_stored h hs hst rfl rfl rfl (fun n m hm => ?_) (fun n m hn => Table.own_insert_of_own _ _ _ _ hn) (.inl ?_)
      · simpa only [(Desk.stored_frame hst).1] using hm
      · exact mem_ownStamps.mpr (.inr (.inr (.inl ⟨_,_,Table.own_insert_self _ _ _,rfl,rfl⟩)))
    · have hsame : SameOn d { d₁ with notes := d.notes.insert i ⟨ctx.tenantId, k, body, ctx.actor, t⟩ } i k' :=
        sameOn_stored hst hk rfl rfl (fun _ _ _ => by simp only [(Desk.stored_frame hst).1]) (own_insert_elsewhere hk)
      exact (h.stands i k' r' (hsame.ticket ▸ ho)).same hsame
  | @recorded k entry t c _ =>
    refine (h.stands i k' r' ho).same ⟨rfl,rfl,fun _ _ _ => Iff.rfl,fun _ _ _ => Iff.rfl,fun n e _ hedit => ?_⟩
    refine ⟨fun ho => ?_,Table.own_insert_of_own _ _ _ _⟩
    rcases Table.own_insert_cases _ _ _ _ ho with ⟨_,_,rfl⟩ | ho
    · cases entry <;> simp [recordsEdit, Recorded.entry] at hedit
    · exact ho

/-- A row once held stays held until the end of the transaction. -/
private theorem held_of_effect {q : Stmt} {c : Cursor} (he : Effect d i ctx q c d') (ho : d.tickets.own j k = some r) :
    ∃ r', d'.tickets.own j k = some r' := by
  by_cases hj : j = i
  · subst hj
    have hstored : ∀ {k₀ old new s d₁}, Stored d j ctx k₀ old new d₁ s → ∃ r', d₁.tickets.own j k = some r' := by
      intro k₀ old new s d₁ hst
      obtain ⟨_,_,rfl⟩ := hst.enforced
      exact Table.own_write_some ho
    cases he with
    | aside _ ht _ _ _ => exact ⟨r,by rw [ht]; exact ho⟩
    | updated _ _ _ hst => exact hstored hst
    | inserted _ => exact ⟨r,Table.own_insert_of_own _ _ _ _ ho⟩
    | posted _ _ hst => exact (hstored hst :)
    | noted _ _ hst => exact (hstored hst :)
    | recorded _ => exact ⟨r,ho⟩
  · exact ⟨r,by rw [(own_of_effect he hj).1, ho]⟩

private theorem entries_of_effect {q : Stmt} {c : Cursor} (he : Effect d i ctx q c d') {n : Nat} {m : Entry} :
    (d'.messages.own i n = some m → d.messages.own i n = some m ∨ ∃ r, d'.tickets.own i m.ticketId = some r) ∧
    (d'.notes.own i n = some m → d.notes.own i n = some m ∨ ∃ r, d'.tickets.own i m.ticketId = some r) := by
  cases he with
  | aside _ _ hm hn _ => exact ⟨fun h => .inl (by rwa [hm] at h),fun h => .inl (by rwa [hn] at h)⟩
  | updated _ _ _ hst =>
    obtain ⟨hm,hn,_⟩ := Desk.stored_frame hst
    exact ⟨fun h => .inl (by rwa [hm] at h),fun h => .inl (by rwa [hn] at h)⟩
  | inserted _ => exact ⟨.inl,.inl⟩
  | posted _ hs hst =>
    refine ⟨fun h => ?_,fun h => .inl (by simpa only [(Desk.stored_frame hst).2.1] using h)⟩
    rcases Table.own_insert_cases _ _ _ _ h with ⟨_,_,rfl⟩ | h
    · exact .inr ⟨_,(own_stored hs hst :)⟩
    · exact .inl h
  | noted _ hs hst =>
    refine ⟨fun h => .inl (by simpa only [(Desk.stored_frame hst).1] using h),fun h => ?_⟩
    rcases Table.own_insert_cases _ _ _ _ h with ⟨_,_,rfl⟩ | h
    · exact .inr ⟨_,(own_stored hs hst :)⟩
    · exact .inl h
  | recorded _ => exact ⟨.inl,.inl⟩

private theorem insertOnly_of_effect {q : Stmt} {c : Cursor} (h : Watched d) (he : Effect d i ctx q c d') :
    d'.messages.InsertOnly ∧ d'.notes.InsertOnly := by
  cases he with
  | aside _ _ hm hn _ => exact ⟨by rw [hm]; exact h.messagesOnly,by rw [hn]; exact h.notesOnly⟩
  | updated _ _ _ hst =>
    obtain ⟨hm,hn,_⟩ := Desk.stored_frame hst
    exact ⟨by rw [hm]; exact h.messagesOnly,by rw [hn]; exact h.notesOnly⟩
  | inserted _ => exact ⟨h.messagesOnly,h.notesOnly⟩
  | posted _ _ hst =>
    refine ⟨h.messagesOnly.insert _ _,?_⟩
    simp only [(Desk.stored_frame hst).2.1]
    exact h.notesOnly
  | noted _ _ hst =>
    refine ⟨?_,h.notesOnly.insert _ _⟩
    simp only [(Desk.stored_frame hst).1]
    exact h.messagesOnly
  | recorded _ => exact ⟨h.messagesOnly,h.notesOnly⟩

theorem watched_of_effect {q : Stmt} {c : Cursor} (h : Watched d) (hq : q.LeavesActivity)
    (hreach : (deskEngine ι).Reaches i ctx q c) (he : Effect d i ctx q c d') : Watched d' := by
  obtain ⟨htickets,hmessages,hnotes,haudit⟩ := committed_of_effect he
  have hmem : ∀ k t, t ∈ d'.committedStamps k ↔ t ∈ d.committedStamps k := fun k t => by
    rw [mem_committedStamps, mem_committedStamps, htickets, hmessages, hnotes, haudit]
  obtain ⟨hmonly,hnonly⟩ := insertOnly_of_effect h he
  refine ⟨locked_of_effect h.audit he ?_,fun j n m hm => ?_,fun j n m hm => ?_,hmonly,hnonly,fun k t ht => ?_,fun j k r ho => ?_,
    fun k r t hr ht => ?_,fun k r hr => ?_⟩
  · rintro k entry t rfl hedit
    cases entry <;> simp [recordsEdit, Recorded.entry] at hedit
  · by_cases hj : j = i
    · subst hj
      rcases (entries_of_effect he).1 hm with hm | hheld
      · obtain ⟨r,hr⟩ := h.messages j n m hm
        exact held_of_effect he hr
      · exact hheld
    · rw [(own_of_effect he hj).2] at hm
      obtain ⟨r,hr⟩ := h.messages j n m hm
      exact held_of_effect he hr
  · by_cases hj : j = i
    · subst hj
      rcases (entries_of_effect he).2 hm with hm | hheld
      · obtain ⟨r,hr⟩ := h.notes j n m hm
        exact held_of_effect he hr
      · exact hheld
    · rw [(own_logs_of_effect he hj).1] at hm
      obtain ⟨r,hr⟩ := h.notes j n m hm
      exact held_of_effect he hr
  · rw [htickets]
    exact h.addressed k t ((hmem k t).mp ht)
  · by_cases hj : j = i
    · subst hj
      exact stands_of_effect h hq hreach he ho
    · have hsame := sameOn_other he hj k
      exact (h.stands j k r (hsame.ticket ▸ ho)).same hsame
  · exact h.latest k r t (htickets ▸ hr) ((hmem k t).mp ht)
  · exact (hmem k _).mpr (h.last k r (htickets ▸ hr))

end Turns

section Ends

/-- What `inOrder` tests. -/
theorem Desk.inOrder_iff : d.inOrder i = true ↔ ∀ k r, d.tickets.own i k = some r → ∀ t ∈ d.ownStamps i k,
    t ≤ r.lastActivityAt ∧ ∀ b ∈ d.committedStamps k, b ≤ t := by
  simp only [Desk.inOrder, List.all_eq_true, List.mem_range, Option.all_eq_true, decide_eq_true_eq]
  exact ⟨fun h k r hr => h k (Table.lt_size_of_own _ _ _ hr) r hr,fun h k _ r hr => h k r hr⟩

/-- What is committed after a commit was committed before, or was the transaction's own. -/
private theorem mem_commit_iff (h : Watched d) : t ∈ (d.commit i).committedStamps k ↔ t ∈ d.committedStamps k ∨ t ∈ d.ownStamps i k := by
  have hrow : ∀ {R : Type} (tbl : Table ι R) {p : R → Prop}, tbl.InsertOnly →
      ((∃ n x, (tbl.commit i).committed n = some x ∧ p x) ↔
        (∃ n x, tbl.committed n = some x ∧ p x) ∨ ∃ n x, tbl.own i n = some x ∧ p x) := by
    intro R tbl p honly
    constructor
    · rintro ⟨n,x,hx,hp⟩
      rcases Table.visible_cases _ _ _ (show tbl.visible i n = some x from hx) with ho | ⟨_,hc⟩
      · exact .inr ⟨n,x,ho,hp⟩
      · exact .inl ⟨n,x,hc,hp⟩
    · rintro (⟨n,x,hc,hp⟩ | ⟨n,x,ho,hp⟩)
      · refine ⟨n,x,?_,hp⟩
        have ho : tbl.own i n = none := by
          rw [Table.own_eq_none_iff]
          intro y hy
          rw [honly n _ hy] at hc
          cases hc
        rw [Table.commit_committed, Table.visible_of_no_own _ _ _ ho, hc]
      · exact ⟨n,x,Table.visible_of_own _ _ _ ho,hp⟩
  have hborn : (∃ r, (d.tickets.commit i).committed k = some r ∧ r.createdAt = t) ↔
      (∃ r, d.tickets.committed k = some r ∧ r.createdAt = t) ∨
        d.tickets.committed k = none ∧ ∃ r, d.tickets.own i k = some r ∧ r.createdAt = t := by
    rw [Table.commit_committed]
    cases ho : d.tickets.own i k with
    | none =>
      rw [Table.visible_of_no_own _ _ _ ho]
      simp
    | some r =>
      rw [Table.visible_of_own _ _ _ ho]
      cases hc : d.tickets.committed k with
      | none => simp
      | some r₀ =>
        have hcreated := (h.stands i k r ho).created r₀ hc
        simp [hcreated]
  rw [mem_committedStamps, mem_committedStamps, mem_ownStamps]
  refine (or_congr hborn (or_congr (hrow d.messages h.messagesOnly) (or_congr (hrow d.notes h.notesOnly)
    (hrow d.audit h.audit.insertOnly)))).trans ?_
  exact (or_congr Iff.rfl ((or_congr Iff.rfl or_or_or_comm).trans or_or_or_comm)).trans or_or_or_comm

/-- A version that is about to be committed has all activities behind it. -/
private theorem latest_of_inOrder (h : Watched d) (hord : d.inOrder i = true) (ho : d.tickets.own i k = some r)
    (ht : t ∈ d.committedStamps k ∨ t ∈ d.ownStamps i k) : t ≤ r.lastActivityAt := by
  have hord := Desk.inOrder_iff.mp hord k r ho
  rcases (h.stands i k r ho).stamped with hlast | ⟨hnil,r₀,hr₀,hlast⟩
  · rcases ht with ht | ht
    · exact (hord _ hlast).2 t ht
    · exact (hord t ht).1
  · rcases ht with ht | ht
    · rw [hlast]
      exact h.latest k r₀ t hr₀ ht
    · rw [hnil] at ht
      cases ht

theorem later_of_inOrder {r₀ : Ticket} (h : Watched d) (hord : d.inOrder i = true) (ho : d.tickets.own i k = some r)
    (hr₀ : d.tickets.committed k = some r₀) : r₀.lastActivityAt ≤ r.lastActivityAt :=
  latest_of_inOrder h hord ho (.inl (h.last k r₀ hr₀))

/-- An edit that is about to be committed is not later than the last activity. -/
theorem edit_of_inOrder {n : Nat} {e : AuditEntry} (h : Watched d) (hord : d.inOrder i = true) (ho : d.tickets.own i k = some r)
    (he : d.audit.own i n = some e) (hedit : recordsEdit e = true) (hk : e.ticketId = k) : e.createdAt ≤ r.lastActivityAt :=
  latest_of_inOrder h hord ho (.inr (mem_ownStamps.mpr (.inr (.inr (.inr ⟨n,e,he,hedit,hk,rfl⟩)))))

/-- What another transaction has is the same after a commit or a rollback of `i`. -/
private theorem sameOn_end (hcom : d'.tickets.committed k = d.tickets.committed k)
    (ht : ∀ k, d'.tickets.own j k = d.tickets.own j k) (hm : ∀ n, d'.messages.own j n = d.messages.own j n)
    (hn : ∀ n, d'.notes.own j n = d.notes.own j n) (ha : ∀ n, d'.audit.own j n = d.audit.own j n) : SameOn d d' j k :=
  ⟨hcom,ht k,fun n m _ => by rw [hm],fun n m _ => by rw [hn],fun n e _ _ => by rw [ha]⟩

/-- The transactions that are still open after the end of `i` hold what they held. -/
private theorem locked_end {own own' : ι → Nat → Option Entry} {held held' : ι → Uuid → Option Ticket}
    (h : ∀ j n m, own j n = some m → ∃ r, held j m.ticketId = some r) (hgone : ∀ n, own' i n = none)
    (hown : ∀ j n, j ≠ i → own' j n = own j n) (hheld : ∀ j k, j ≠ i → held' j k = held j k) (j : ι) (n : Nat) (m : Entry)
    (hm : own' j n = some m) : ∃ r, held' j m.ticketId = some r := by
  by_cases hj : j = i
  · subst hj
    rw [hgone] at hm
    cases hm
  · rw [hown j n hj] at hm
    obtain ⟨r,hr⟩ := h j n m hm
    exact ⟨r,(hheld j _ hj).trans hr⟩

theorem watched_commit (h : Watched d) (hord : d.inOrder i = true) : Watched (d.commit i) := by
  have hticket : ∀ {k r}, (d.commit i).tickets.committed k = some r → d.tickets.own i k = some r ∨
      d.tickets.own i k = none ∧ d.tickets.committed k = some r := fun hr => Table.visible_cases _ _ _ hr
  refine ⟨h.audit.commit i,?_,?_,h.messagesOnly.commit i,h.notesOnly.commit i,fun k t ht => ?_,fun j k r ho => ?_,fun k r t hr ht => ?_,
    fun k r hr => ?_⟩
  · exact locked_end h.messages (fun n => Table.own_commit_self _ _ _) (fun j n hj => Table.own_commit_other _ _ _ _ hj)
      fun j k hj => Table.own_commit_other _ _ _ _ hj
  · exact locked_end h.notes (fun n => Table.own_commit_self _ _ _) (fun j n hj => Table.own_commit_other _ _ _ _ hj)
      fun j k hj => Table.own_commit_other _ _ _ _ hj
  · rw [Desk.commit, Table.commit_committed]
    cases ho : d.tickets.own i k with
    | some r =>
      rw [Table.visible_of_own _ _ _ ho]
      rfl
    | none =>
      rw [Table.visible_of_no_own _ _ _ ho]
      refine h.addressed k t (((mem_commit_iff h).mp ht).resolve_right fun hown => ?_)
      rw [h.idle ho] at hown
      cases hown
  · by_cases hj : j = i
    · subst hj
      rw [Desk.commit, Table.own_commit_self] at ho
      cases ho
    · have ho' : d.tickets.own j k = some r := (Table.own_commit_other _ _ _ _ hj).symm.trans ho
      refine (h.stands j k r ho').same (sameOn_end ?_ (fun _ => Table.own_commit_other _ _ _ _ hj)
        (fun _ => Table.own_commit_other _ _ _ _ hj) (fun _ => Table.own_commit_other _ _ _ _ hj)
        fun _ => Table.own_commit_other _ _ _ _ hj)
      exact Table.visible_of_no_own _ _ _ (Table.own_exclusive _ _ _ _ ho' (Ne.symm hj))
  · rcases hticket hr with ho | ⟨ho,hc⟩
    · exact latest_of_inOrder h hord ho ((mem_commit_iff h).mp ht)
    · refine h.latest k r t hc (((mem_commit_iff h).mp ht).resolve_right fun hown => ?_)
      rw [h.idle ho] at hown
      cases hown
  · rw [mem_commit_iff h]
    rcases hticket hr with ho | ⟨_,hc⟩
    · rcases (h.stands i k r ho).stamped with hlast | ⟨_,r₀,hr₀,hlast⟩
      · exact .inr hlast
      · rw [hlast]
        exact .inl (h.last k r₀ hr₀)
    · exact .inl (h.last k r hc)

theorem watched_rollback (h : Watched d) (i : ι) : Watched (d.rollback i) := by
  have hmem : ∀ k t, t ∈ (d.rollback i).committedStamps k ↔ t ∈ d.committedStamps k := fun k t => by
    rw [mem_committedStamps, mem_committedStamps]
    rfl
  refine ⟨h.audit.rollback i,?_,?_,h.messagesOnly.rollback i,h.notesOnly.rollback i,fun k t ht => h.addressed k t ((hmem k t).mp ht),
    fun j k r ho => ?_,fun k r t hr ht => h.latest k r t hr ((hmem k t).mp ht),fun k r hr => (hmem k _).mpr (h.last k r hr)⟩
  · exact locked_end h.messages (fun n => Table.own_rollback_self _ _ _) (fun j n hj => Table.own_rollback_other _ _ _ _ hj)
      fun j k hj => Table.own_rollback_other _ _ _ _ hj
  · exact locked_end h.notes (fun n => Table.own_rollback_self _ _ _) (fun j n hj => Table.own_rollback_other _ _ _ _ hj)
      fun j k hj => Table.own_rollback_other _ _ _ _ hj
  · by_cases hj : j = i
    · subst hj
      rw [Desk.rollback, Table.own_rollback_self] at ho
      cases ho
    · have ho' : d.tickets.own j k = some r := (Table.own_rollback_other _ _ _ _ hj).symm.trans ho
      exact (h.stands j k r ho').same (sameOn_end rfl (fun _ => Table.own_rollback_other _ _ _ _ hj)
        (fun _ => Table.own_rollback_other _ _ _ _ hj) (fun _ => Table.own_rollback_other _ _ _ _ hj)
        fun _ => Table.own_rollback_other _ _ _ _ hj)

theorem watched_world {w : Event} (h : Watched d) (hw : d.world w = some d') : Watched d' := by
  have haudit := h.audit.world hw
  obtain ⟨clock,users,rfl⟩ := Desk.of_world hw
  refine ⟨haudit,h.messages,h.notes,h.messagesOnly,h.notesOnly,h.addressed,fun j k r ho => ?_,h.latest,h.last⟩
  exact (h.stands j k r ho).same ⟨rfl,rfl,fun _ _ _ => Iff.rfl,fun _ _ _ => Iff.rfl,fun _ _ _ _ => Iff.rfl⟩

theorem watched_empty : Watched (Desk.empty : Desk ι) :=
  ⟨locked_empty,fun _ _ _ h => (by cases h),fun _ _ _ h => (by cases h),fun _ _ h => (by cases h),fun _ _ h => (by cases h),
    fun _ _ h => (by cases h),fun _ _ _ h => (by cases h),fun _ _ _ h => (by cases h),fun _ _ h => (by cases h)⟩

end Ends

end Nivara.Tickets
