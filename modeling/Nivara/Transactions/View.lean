import Nivara.Transactions.Table

/-! A table as some of the open transactions would leave it. Commits and rollbacks only pass from
one such view to another, and a write of `i` is a serial write in every view that has `i`, so
what serial writes keep holds in all views. -/
namespace Nivara.Transactions.Table

variable {ι R : Type}

/-- The table as it would stand if, of the open transactions, those in `S` committed. -/
def view (t : Table ι R) (S : ι → Bool) (k : Nat) : Option R :=
  ((t.pending k).bind fun p => if S p.1 then some p.2 else none).or (t.committed k)

def scan (t : Table ι R) (S : ι → Bool) : List R := (List.range t.size).filterMap (t.view S)

variable (t : Table ι R) (S : ι → Bool) (k : Nat)

theorem view_of_unlocked (h : t.pending k = none) : t.view S k = t.committed k := by
  simp [view, h]

theorem view_of_in {i : ι} {r : R} (h : t.pending k = some (i, r)) (hi : S i = true) : t.view S k = some r := by
  simp [view, h, hi]

theorem view_of_out {i : ι} {r : R} (h : t.pending k = some (i, r)) (hi : S i = false) :
    t.view S k = t.committed k := by
  simp [view, h, hi]

theorem view_fresh (h : t.size ≤ k) : t.view S k = none := by
  simp [view, t.pending_fresh k h, t.committed_fresh k h]

theorem lt_size_of_view {r : R} (h : t.view S k = some r) : k < t.size := by
  by_contra hk
  rw [view_fresh t S k (by omega)] at h
  cases h

@[simp] theorem view_none : t.view (fun _ => false) = t.committed := by
  funext k
  simp [view]

theorem mem_scan {r : R} : r ∈ t.scan S ↔ ∃ k, t.view S k = some r := by
  simp only [scan, List.mem_filterMap, List.mem_range]
  constructor
  · rintro ⟨k,_,hk⟩
    exact ⟨k,hk⟩
  · rintro ⟨k,hk⟩
    exact ⟨k,lt_size_of_view t S k hk,hk⟩

theorem view_insert (i : ι) (r : R) :
    (t.insert i r).view S k = if k = t.size then (if S i then some r else none) else t.view S k := by
  by_cases hk : k = t.size
  · subst hk
    cases hS : S i <;> simp [view, insert, hS, t.committed_fresh t.size (Nat.le_refl _)]
  · simp [view, insert, hk]

theorem scan_insert (i : ι) (r : R) :
    (t.insert i r).scan S = t.scan S ++ if S i then [r] else [] := by
  have hold : (List.range t.size).filterMap ((t.insert i r).view S) = t.scan S := by
    refine List.filterMap_congr fun k hk => ?_
    rw [view_insert, if_neg (Nat.ne_of_lt (List.mem_range.mp hk))]
  have hnew : (t.insert i r).view S t.size = if S i then some r else none := by rw [view_insert, if_pos rfl]
  rw [scan, show (t.insert i r).size = t.size + 1 from rfl, List.range_succ, List.filterMap_append, hold]
  cases hS : S i <;> simp [hnew, hS]

theorem scan_inserts (i : ι) (rs : List R) :
    (rs.foldl (·.insert i) t).scan S = t.scan S ++ if S i then rs else [] := by
  induction rs generalizing t with
  | nil => simp
  | cons r rs ih =>
    rw [List.foldl_cons, ih, scan_insert]
    cases S i <;> simp

variable [DecidableEq ι]

theorem visible_eq_view (i : ι) : t.visible i = t.view fun j => j = i := by
  funext k
  cases hp : t.pending k with
  | none => simp [visible, own, view, hp]
  | some p =>
    by_cases hi : p.1 = i
    · simp [visible, own, view, hp, hi]
    · simp [visible, own, view, hp, hi]

/-- A row that `i` holds or could lock stands in each view with `i` as `i` itself sees it. -/
theorem view_of_free {i : ι} (hf : t.free i [k] = true) (hi : S i = true) : t.view S k = t.visible i k := by
  cases hp : t.pending k with
  | none => simp [visible, own, view, hp]
  | some p =>
    have hpi : p.1 = i := (free_iff t i [k]).mp hf k (by simp) p.1 p.2 hp
    simp [visible, own, view, hp, hpi, hi]

/-- One row written: the views with `i` have the new version, the others are as they were. -/
theorem view_write {i : ι} {k' : Nat} {s r : R} (hf : t.free i [k'] = true) (hs : t.visible i k' = some s) :
    (t.write i [k'] (fun _ => true) fun _ => r).view S k = if k = k' ∧ S i then some r else t.view S k := by
  by_cases hk : k = k'
  · subst hk
    have hp : (t.write i [k] (fun _ => true) fun _ => r).pending k = some (i, r) := by simp [write, hs]
    have hc : (t.write i [k] (fun _ => true) fun _ => r).committed = t.committed := rfl
    cases hS : S i with
    | true => simp [view_of_in _ S k hp hS]
    | false =>
      have hold : t.view S k = t.committed k := by
        cases hq : t.pending k with
        | none => exact view_of_unlocked t S k hq
        | some p =>
          have hpi : p.1 = i := (free_iff t i [k]).mp hf k (by simp) p.1 p.2 hq
          exact view_of_out t S k hq (by rw [hpi, hS])
      simp [view_of_out _ S k hp hS, hc, hold]
  · have hp : (t.write i [k'] (fun _ => true) fun _ => r).pending k = t.pending k := by simp [write, hk]
    have hc : (t.write i [k'] (fun _ => true) fun _ => r).committed = t.committed := rfl
    simp [view, hp, hc, hk]

theorem view_commit (i : ι) : (t.commit i).view S = t.view fun j => j = i || S j := by
  funext k
  cases hp : t.pending k with
  | none => simp [view, commit, own, hp, visible]
  | some p =>
    by_cases hi : p.1 = i
    · simp [view, commit, own, hp, visible, hi]
    · simp [view, commit, own, hp, visible, hi]

theorem view_rollback (i : ι) : (t.rollback i).view S = t.view fun j => j ≠ i && S j := by
  funext k
  cases hp : t.pending k with
  | none => simp [view, rollback, own, hp]
  | some p =>
    by_cases hi : p.1 = i
    · simp [view, rollback, own, hp, hi]
    · simp [view, rollback, own, hp, hi]

theorem scan_commit (i : ι) : (t.commit i).scan S = t.scan fun j => j = i || S j := by
  rw [scan, view_commit]
  rfl

theorem scan_rollback (i : ι) : (t.rollback i).scan S = t.scan fun j => j ≠ i && S j := by
  rw [scan, view_rollback]
  rfl

def Follows (rel : R → R → Prop) (t : Table ι R) : Prop :=
  ∀ i k r r', t.committed k = some r → t.own i k = some r' → rel r r'

variable {t S k} {rel : R → R → Prop}

theorem Follows.visible (hrefl : ∀ r, rel r r) (h : t.Follows rel) {i : ι} {r r' : R} (hr : t.committed k = some r)
    (hr' : t.visible i k = some r') : rel r r' := by
  rcases visible_cases t i k hr' with ho | ⟨_,hc⟩
  · exact h i k r r' hr ho
  · cases hr.symm.trans hc
    exact hrefl r

/-- A row that `i` sees stands in each view with `i`, maybe in a later version. -/
theorem Follows.view (hrefl : ∀ r, rel r r) (h : t.Follows rel) {i : ι} {r : R} (hr : t.visible i k = some r)
    (hi : S i = true) : ∃ r', t.view S k = some r' ∧ rel r r' := by
  cases hp : t.pending k with
  | none =>
    refine ⟨r,?_,hrefl r⟩
    rw [view_of_unlocked t S k hp, ← visible_of_no_own t i k (by simp [own, hp]), hr]
  | some p =>
    obtain ⟨j,r'⟩ := p
    have hown : t.own j k = some r' := (own_eq_some_iff t j k).mpr hp
    by_cases hji : j = i
    · subst hji
      cases (visible_of_own t j k hown).symm.trans hr
      exact ⟨r,view_of_in t S k hp hi,hrefl r⟩
    · have hc : t.committed k = some r := by
        rw [← visible_of_no_own t i k (own_exclusive t j i k hown (Ne.symm hji)), hr]
      cases hS : S j with
      | true => exact ⟨r',view_of_in t S k hp hS,h j k r r' hc hown⟩
      | false => exact ⟨r,by rw [view_of_out t S k hp hS, hc],hrefl r⟩

theorem Follows.insert (h : t.Follows rel) (i : ι) (s : R) : (t.insert i s).Follows rel := by
  intro j k r r' hr hr'
  rcases own_insert_cases t i j k hr' with ⟨hk,_,_⟩ | ho
  · exact absurd (lt_size_of_committed t k hr) (by omega)
  · exact h j k r r' hr ho

theorem Follows.write (hrefl : ∀ r, rel r r) (htrans : ∀ a b c, rel a b → rel b c → rel a c) (h : t.Follows rel)
    {i : ι} {k' : Nat} {s r : R} (hf : t.free i [k'] = true) (hs : t.visible i k' = some s) (hsr : rel s r) :
    (t.write i [k'] (fun _ => true) fun _ => r).Follows rel := by
  intro j k a b ha hb
  have ha : t.committed k = some a := ha
  by_cases hji : j = i
  · subst hji
    rcases own_write_cases t j k hb with ⟨s',hk,hs',_,hbr⟩ | ho
    · rw [List.mem_singleton] at hk
      subst hk
      cases hs.symm.trans hs'
      rw [hbr]
      exact htrans a s r (h.visible hrefl ha hs) hsr
    · exact h j k a b ha ho
  · rw [own_write_other t i j k hji hf] at hb
    exact h j k a b ha hb

theorem Follows.rollback (h : t.Follows rel) (i : ι) : (t.rollback i).Follows rel := by
  intro j k r r' hr hr'
  by_cases hji : j = i
  · subst hji
    simp at hr'
  · exact h j k r r' hr ((own_rollback_other t i j k hji).symm.trans hr')

theorem Follows.commit (h : t.Follows rel) (i : ι) : (t.commit i).Follows rel := by
  intro j k r r' hr hr'
  by_cases hji : j = i
  · subst hji
    simp at hr'
  · rw [own_commit_other t i j k hji] at hr'
    have hi : t.own i k = none := own_exclusive t j i k hr' (Ne.symm hji)
    rw [commit_committed, visible_of_no_own t i k hi] at hr
    exact h j k r r' hr hr'

section Inserts
variable {i j : ι} {r : R}

theorem own_inserts_cases {rs : List R} (h : (rs.foldl (·.insert i) t).own j k = some r) :
    (j = i ∧ r ∈ rs) ∨ t.own j k = some r := by
  induction rs generalizing t with
  | nil => exact .inr h
  | cons s rs ih =>
    rcases ih h with ⟨hj,hr⟩ | ho
    · exact .inl ⟨hj,by simp [hr]⟩
    · rcases own_insert_cases t i j k ho with ⟨_,hj,rfl⟩ | ho
      · exact .inl ⟨hj,by simp⟩
      · exact .inr ho

theorem own_inserts_of_own {rs : List R} (h : t.own j k = some r) : (rs.foldl (·.insert i) t).own j k = some r := by
  induction rs generalizing t with
  | nil => exact h
  | cons s rs ih => exact ih (own_insert_of_own t i j k h)

theorem own_inserts_mem {rs : List R} (h : r ∈ rs) : ∃ k, (rs.foldl (·.insert i) t).own i k = some r := by
  induction rs generalizing t with
  | nil => cases h
  | cons s rs ih =>
    rcases List.mem_cons.mp h with rfl | h
    · exact ⟨t.size,own_inserts_of_own (t := t.insert i r) (own_insert_self t i r)⟩
    · exact ih h

omit [DecidableEq ι] in
theorem committed_inserts (t : Table ι R) (i : ι) (rs : List R) : (rs.foldl (·.insert i) t).committed = t.committed := by
  induction rs generalizing t with
  | nil => rfl
  | cons r rs ih => exact ih (t.insert i r)

/-- Rows are inserted and never written again: an uncommitted row has no committed version. -/
def InsertOnly (t : Table ι R) : Prop := ∀ k p, t.pending k = some p → t.committed k = none

omit [DecidableEq ι] in
theorem InsertOnly.insert (h : t.InsertOnly) (i : ι) (r : R) : (t.insert i r).InsertOnly := by
  intro k p hp
  by_cases hk : k = t.size
  · exact t.committed_fresh k (by omega)
  · refine h k p ?_
    simpa [Table.insert, hk] using hp

omit [DecidableEq ι] in
theorem InsertOnly.inserts (h : t.InsertOnly) (i : ι) (rs : List R) : (rs.foldl (·.insert i) t).InsertOnly := by
  induction rs generalizing t with
  | nil => exact h
  | cons r rs ih => exact ih (h.insert i r)

theorem InsertOnly.commit (h : t.InsertOnly) (i : ι) : (t.commit i).InsertOnly := by
  intro k p hp
  cases ho : t.own i k with
  | some r => simp [Table.commit, ho] at hp
  | none =>
    have hp : t.pending k = some p := by simpa [Table.commit, ho] using hp
    rw [commit_committed, visible_of_no_own t i k ho]
    exact h k p hp

theorem InsertOnly.rollback (h : t.InsertOnly) (i : ι) : (t.rollback i).InsertOnly := by
  intro k p hp
  cases ho : t.own i k with
  | some r => simp [Table.rollback, ho] at hp
  | none =>
    have hp : t.pending k = some p := by simpa [Table.rollback, ho] using hp
    exact h k p hp

/-- A version a transaction has of a row stays, maybe written over, when it writes again. -/
theorem own_write_some {s : R} {k' : Nat} (h : t.own i k = some s) :
    ∃ s', (t.write i [k'] (fun _ => true) fun _ => r).own i k = some s' := by
  rw [own_write_self]
  split
  · cases hv : t.visible i k with
    | none => simp [h]
    | some v => simp
  · exact ⟨s,h⟩

end Inserts

end Nivara.Transactions.Table
