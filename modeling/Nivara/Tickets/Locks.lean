import Nivara.Tickets.Register

/-! Whoever has written to the log about a Ticket holds the Ticket. So a transaction that has, or
gets, the lock of a row sees all there is in the log about it. -/
namespace Nivara.Tickets
open Transactions

variable {ι : Type} [DecidableEq ι]

/-- The rows of the log with `p` that are not committed are about Tickets their writers hold. -/
structure Desk.Locked (p : AuditEntry → Prop) (d : Desk ι) : Prop where
  holds : ∀ j n e, d.audit.own j n = some e → p e → ∃ r, d.tickets.own j e.ticketId = some r
  insertOnly : d.audit.InsertOnly

variable {p : AuditEntry → Prop} {d d' : Desk ι} {i : ι} {ctx : TenantContext} {k : Uuid}

private theorem locked_stored {old new r : Ticket} (h : d.Locked p) (hf : d.tickets.free i [k] = true)
    (hs : d.sees i ctx k = some old) (hst : Stored d i ctx k old new d' r) : d'.Locked p := by
  obtain ⟨entries,he,rfl⟩ := hst.enforced
  have hvis := (Desk.sees_some.mp hs).1
  refine ⟨fun j n e ho hp => ?_,h.insertOnly.inserts i entries⟩
  rcases Table.own_inserts_cases ho with ⟨rfl,hin⟩ | ho
  · rw [(enforced_of_ok he).audit] at hin
    have hk : e.ticketId = k := by
      simp only [auditTrail, auditOf, List.mem_append] at hin
      rcases hin with (hin | hin) | hin
      all_goals
        split at hin
        · cases hin
        · rw [List.mem_singleton.mp hin]
    rw [hk]
    exact ⟨r,Table.own_write_picked d.tickets j k (by simp) hvis rfl⟩
  · obtain ⟨s,hown⟩ := h.holds j n e ho hp
    by_cases hj : j = i
    · subst hj
      exact Table.own_write_some hown
    · exact ⟨s,(Table.own_write_other d.tickets i j _ hj hf).trans hown⟩

theorem locked_of_effect {q : Stmt} {c : Cursor} (h : d.Locked p) (he : Effect d i ctx q c d')
    (hrec : ∀ k entry t, q = .record k entry t → p (entry.entry k t) → ∃ r, d.tickets.own i k = some r) :
    d'.Locked p := by
  cases he with
  | aside _ ht _ _ ha => exact ⟨by rw [ha, ht]; exact h.holds,by rw [ha]; exact h.insertOnly⟩
  | updated hf hs _ hst => exact locked_stored h hf hs hst
  | inserted _ =>
    refine ⟨fun j n e ho hp => ?_,h.insertOnly⟩
    obtain ⟨r,hr⟩ := h.holds j n e ho hp
    exact ⟨r,Table.own_insert_of_own _ _ _ _ hr⟩
  | posted hf hs hst =>
    obtain ⟨hholds,honly⟩ := locked_stored h hf hs hst
    exact ⟨hholds,honly⟩
  | noted hf hs hst =>
    obtain ⟨hholds,honly⟩ := locked_stored h hf hs hst
    exact ⟨hholds,honly⟩
  | @recorded k entry t c _ =>
    refine ⟨fun j n e ho hp => ?_,h.insertOnly.insert i _⟩
    rcases Table.own_insert_cases _ _ _ _ ho with ⟨_,rfl,rfl⟩ | ho
    · have hk : (entry.entry k t).ticketId = k := by cases entry <;> rfl
      rw [hk]
      exact hrec k entry t rfl hp
    · exact h.holds j n e ho hp

theorem Desk.Locked.commit (h : d.Locked p) (i : ι) : (d.commit i).Locked p := by
  refine ⟨fun j n e ho hp => ?_,h.insertOnly.commit i⟩
  by_cases hj : j = i
  · subst hj
    simp [Desk.commit] at ho
  · rw [Desk.commit, Table.own_commit_other _ _ _ _ hj] at ho
    obtain ⟨r,hr⟩ := h.holds j n e ho hp
    exact ⟨r,(Table.own_commit_other _ _ _ _ hj).trans hr⟩

theorem Desk.Locked.rollback (h : d.Locked p) (i : ι) : (d.rollback i).Locked p := by
  refine ⟨fun j n e ho hp => ?_,h.insertOnly.rollback i⟩
  by_cases hj : j = i
  · subst hj
    simp [Desk.rollback] at ho
  · rw [Desk.rollback, Table.own_rollback_other _ _ _ _ hj] at ho
    obtain ⟨r,hr⟩ := h.holds j n e ho hp
    exact ⟨r,(Table.own_rollback_other _ _ _ _ hj).trans hr⟩

theorem Desk.Locked.world (h : d.Locked p) {w : Event} (hw : d.world w = some d') : d'.Locked p := by
  obtain ⟨clock,users,rfl⟩ := Desk.of_world hw
  exact ⟨h.holds,h.insertOnly⟩

theorem locked_of_change {known : Desk ι → ι → TenantContext → Stmt → Cursor → Prop} (h : d.Locked p)
    (hc : Changes (deskEngine ι) Desk.world known d d')
    (hrec : ∀ i ctx k entry t c, known d i ctx (.record k entry t) c → p (entry.entry k t) →
      ∃ r, d.tickets.own i k = some r) : d'.Locked p := by
  cases hc with
  | commit i => exact h.commit i
  | rollback i => exact h.rollback i
  | more hk ht =>
    refine locked_of_effect h (effect_of_more ht) ?_
    rintro k entry t rfl
    exact hrec _ _ k entry t _ hk
  | answer hk ht =>
    refine locked_of_effect h (effect_of_answer ht) ?_
    rintro k entry t rfl
    exact hrec _ _ k entry t _ hk
  | world hw => exact h.world hw

theorem locked_empty : (Desk.empty : Desk ι).Locked p :=
  ⟨fun _ _ _ ho => (by cases ho),fun _ _ hp => (by cases hp)⟩

/-- Views that agree on `i` have the same log about a Ticket that `i` holds or could lock. -/
theorem Desk.Locked.trail (h : d.Locked p) (hf : d.tickets.free i [k] = true) (S S' : ι → Bool) (hi : S i = S' i)
    (q : AuditEntry → Bool) (hq : ∀ e, q e = true → p e ∧ e.ticketId = k) :
    (d.audit.scan S).filter q = (d.audit.scan S').filter q := by
  rw [Table.scan, Table.scan, List.filter_filterMap, List.filter_filterMap]
  refine List.filterMap_congr fun n _ => ?_
  cases hp : d.audit.pending n with
  | none => rw [Table.view_of_unlocked _ _ _ hp, Table.view_of_unlocked _ _ _ hp]
  | some x =>
    obtain ⟨j,e⟩ := x
    by_cases hj : j = i
    · subst hj
      simp only [Table.view, hp, Option.bind_some, hi]
    · -- a row of another transaction is not about a Ticket that `i` could lock
      have hout : q e = false := by
        by_contra hqe
        obtain ⟨hpe,hk⟩ := hq e (by simpa using hqe)
        obtain ⟨r,hr⟩ := h.holds j n e ((Table.own_eq_some_iff _ _ _).mpr hp) hpe
        rw [hk, Table.own_eq_some_iff] at hr
        exact hj ((Table.free_iff _ _ _).mp hf k (by simp) j r hr)
      have hgone : ∀ S : ι → Bool, (d.audit.view S n).filter q = none := by
        intro S
        cases hS : S j with
        | true => simp [Table.view_of_in _ _ _ hp hS, Option.filter, hout]
        | false => rw [Table.view_of_out _ _ _ hp hS, h.insertOnly n _ hp, Option.filter_none]
      rw [hgone S, hgone S']

end Nivara.Tickets
