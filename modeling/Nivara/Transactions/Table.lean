import Mathlib.Logic.Function.Basic
import Mathlib.Data.List.Basic

/-! A table under READ COMMITTED. A row has its committed version and at most one
uncommitted version, owned by the transaction that holds the row's lock. -/
namespace Nivara.Transactions

/-- Row `k` for `k < size`; nothing has been written beyond `size`. -/
structure Table (ι R : Type) where
  size : Nat
  committed : Nat → Option R
  pending : Nat → Option (ι × R)
  committed_fresh : ∀ k, size ≤ k → committed k = none
  pending_fresh : ∀ k, size ≤ k → pending k = none

namespace Table
variable {ι R : Type}

def empty : Table ι R := ⟨0, fun _ => none, fun _ => none, fun _ _ => rfl, fun _ _ => rfl⟩

def ofList (rows : List R) : Table ι R where
  size := rows.length
  committed k := rows[k]?
  pending _ := none
  committed_fresh _ hk := List.getElem?_eq_none hk
  pending_fresh _ _ := rfl

/-- The new row is invisible to others until its transaction commits. -/
def insert (t : Table ι R) (i : ι) (r : R) : Table ι R where
  size := t.size + 1
  committed := t.committed
  pending := Function.update t.pending t.size (some (i, r))
  committed_fresh k hk := t.committed_fresh k (by omega)
  pending_fresh k hk := by
    rw [Function.update_of_ne (by omega)]
    exact t.pending_fresh k (by omega)

/-- A row inserted by a transaction that does nothing else here and commits at once. -/
def append (t : Table ι R) (r : R) : Table ι R where
  size := t.size + 1
  committed := Function.update t.committed t.size (some r)
  pending := t.pending
  committed_fresh k hk := by
    rw [Function.update_of_ne (by omega)]
    exact t.committed_fresh k (by omega)
  pending_fresh k hk := t.pending_fresh k (by omega)

/-- An unlocked row updated by a transaction that does nothing else here and commits at once. -/
def amend (t : Table ι R) (k : Nat) (f : R → R) : Table ι R where
  size := t.size
  committed := Function.update t.committed k ((t.committed k).map f)
  pending := t.pending
  committed_fresh j hj := by
    by_cases hjk : j = k
    · subst hjk
      simp [t.committed_fresh j hj]
    · rw [Function.update_of_ne hjk]
      exact t.committed_fresh j hj
  pending_fresh := t.pending_fresh

@[simp] theorem append_pending (t : Table ι R) (r : R) : (t.append r).pending = t.pending := rfl
@[simp] theorem amend_pending (t : Table ι R) (k : Nat) (f : R → R) : (t.amend k f).pending = t.pending := rfl

theorem append_committed (t : Table ι R) (r : R) (k : Nat) :
    (t.append r).committed k = if k = t.size then some r else t.committed k := by
  simp [append, Function.update_apply]

theorem amend_committed (t : Table ι R) (k : Nat) (f : R → R) (j : Nat) :
    (t.amend k f).committed j = if j = k then (t.committed k).map f else t.committed j := by
  simp [amend, Function.update_apply]

theorem append_committed_of_committed (t : Table ι R) (r : R) {k : Nat} {s : R} (h : t.committed k = some s) :
    (t.append r).committed k = some s := by
  rw [append_committed, if_neg, h]
  rintro rfl
  rw [t.committed_fresh t.size (Nat.le_refl _)] at h
  cases h

theorem lt_size_of_committed (t : Table ι R) (k : Nat) {r : R} (h : t.committed k = some r) :
    k < t.size := by
  by_contra hk
  rw [t.committed_fresh k (by omega)] at h
  cases h

variable [DecidableEq ι]

/-- The version of row `k` that transaction `i` has written and not committed. -/
def own (t : Table ι R) (i : ι) (k : Nat) : Option R :=
  (t.pending k).bind fun p => if p.1 = i then some p.2 else none

/-- What a statement of `i` sees: its own writes over the committed rows. -/
def visible (t : Table ι R) (i : ι) (k : Nat) : Option R := (t.own i k).or (t.committed k)

/-- No row of `ks` is locked by another transaction. -/
def free (t : Table ι R) (i : ι) (ks : List Nat) : Bool :=
  ks.all fun k => (t.pending k).all fun p => p.1 = i

def find (t : Table ι R) (i : ι) (p : R → Bool) : Option R :=
  (List.range t.size).findSome? fun k => (t.visible i k).filter p

/-- The rows an `UPDATE` of `i` picks from the snapshot of its statement. -/
def matching (t : Table ι R) (i : ι) (p : R → Bool) : List Nat :=
  (List.range t.size).filter fun k => (t.visible i k).any p

/-- The rows of `ks` are locked. The newest version of each is tested against `p`
again, and a row that still passes gets the new version `f r`. -/
def write (t : Table ι R) (i : ι) (ks : List Nat) (p : R → Bool) (f : R → R) : Table ι R where
  size := t.size
  committed := t.committed
  pending k := if k ∈ ks then (((t.visible i k).filter p).map fun r => (i, f r)).or (t.pending k) else t.pending k
  committed_fresh := t.committed_fresh
  pending_fresh k hk := by
    have hp := t.pending_fresh k hk
    split <;> simp [visible, own, hp, t.committed_fresh k hk]

def written (t : Table ι R) (i : ι) (ks : List Nat) (p : R → Bool) : Nat :=
  ks.countP fun k => (t.visible i k).any p

def locate (t : Table ι R) (i : ι) (p : R → Bool) : Option (Nat × R) :=
  (List.range t.size).findSome? fun k => ((t.visible i k).filter p).map (k, ·)

def taken (t : Table ι R) (i : ι) (p : Nat → R → Bool) : Bool :=
  (List.range t.size).any fun k => (t.visible i k).any (p k)

/-- A unique index makes the row wait: another transaction has written one with its key. -/
def contested (t : Table ι R) (i : ι) (p : Nat → R → Bool) : Bool :=
  (List.range t.size).any fun k => (t.pending k).any fun v => v.1 ≠ i && p k v.2

/-- `UPDATE … WHERE id = k AND p`: it waits for the row's lock, tests the newest version, and
answers with the one it has written. -/
def updateById (t : Table ι R) (i : ι) (k : Nat) (p : R → Bool) (f : R → R) : Option (Option (Table ι R × R)) :=
  if t.free i [k] then some (((t.visible i k).filter p).map fun r => (t.write i [k] p f, f r)) else none

def commit (t : Table ι R) (i : ι) : Table ι R where
  size := t.size
  committed := t.visible i
  pending k := if (t.own i k).isSome then none else t.pending k
  committed_fresh k hk := by simp [visible, own, t.pending_fresh k hk, t.committed_fresh k hk]
  pending_fresh k hk := by simp [t.pending_fresh k hk]

def rollback (t : Table ι R) (i : ι) : Table ι R where
  size := t.size
  committed := t.committed
  pending k := if (t.own i k).isSome then none else t.pending k
  committed_fresh := t.committed_fresh
  pending_fresh k hk := by simp [t.pending_fresh k hk]

variable (t : Table ι R) (i j : ι) (k : Nat)

@[simp] theorem commit_committed : (t.commit i).committed = t.visible i := rfl

theorem own_eq_some_iff {r : R} : t.own i k = some r ↔ t.pending k = some (i, r) := by
  simp only [own, Option.bind_eq_some_iff]
  constructor
  · rintro ⟨⟨j,s⟩,hp,h⟩
    split at h
    · rename_i hj
      simp_all
    · cases h
  · intro h
    exact ⟨_,h,by simp⟩

theorem own_eq_none_iff : t.own i k = none ↔ ∀ r, t.pending k ≠ some (i, r) := by
  constructor
  · intro h r hr
    rw [← own_eq_some_iff, h] at hr
    cases hr
  · intro h
    cases ho : t.own i k with
    | none => rfl
    | some r => exact absurd ((own_eq_some_iff t i k).mp ho) (h r)

theorem visible_of_own {r : R} (h : t.own i k = some r) : t.visible i k = some r := by
  simp [visible, h]

theorem visible_of_no_own (h : t.own i k = none) : t.visible i k = t.committed k := by
  simp [visible, h]

/-- A row locked by `i` carries no version of any other transaction. -/
theorem own_exclusive {r : R} (h : t.own i k = some r) (hij : j ≠ i) : t.own j k = none := by
  rw [own_eq_some_iff] at h
  rw [own_eq_none_iff, h]
  intro s hs
  cases hs
  exact hij rfl

theorem visible_cases {r : R} (h : t.visible i k = some r) :
    t.own i k = some r ∨ (t.own i k = none ∧ t.committed k = some r) := by
  cases ho : t.own i k with
  | some s =>
    rw [visible_of_own t i k ho] at h
    exact .inl h
  | none =>
    rw [visible_of_no_own t i k ho] at h
    exact .inr ⟨rfl,h⟩

theorem lt_size_of_own {r : R} (h : t.own i k = some r) : k < t.size := by
  rw [own_eq_some_iff] at h
  by_contra hk
  rw [t.pending_fresh k (by omega)] at h
  cases h

theorem lt_size_of_visible {r : R} (h : t.visible i k = some r) : k < t.size := by
  rcases visible_cases t i k h with ho | ⟨_,hc⟩
  · exact lt_size_of_own t i k ho
  · exact lt_size_of_committed t k hc

/-- A row found is a visible row that passes the test. -/
theorem find_some {p : R → Bool} {r : R} (h : t.find i p = some r) :
    ∃ k, t.visible i k = some r ∧ p r = true := by
  obtain ⟨k,_,hk⟩ := List.exists_of_findSome?_eq_some h
  exact ⟨k,Option.filter_eq_some_iff.mp hk⟩

/-- A row not found is not visible, whatever its position. -/
theorem find_none {p : R → Bool} (h : t.find i p = none) {r : R} (hr : t.visible i k = some r) :
    p r = false := by
  rw [find, List.findSome?_eq_none_iff] at h
  have hk := h k (List.mem_range.mpr (lt_size_of_visible t i k hr))
  rw [hr, Option.filter_eq_none_iff] at hk
  simpa using hk r

theorem locate_some {p : R → Bool} {r : R} (h : t.locate i p = some (k, r)) : t.visible i k = some r ∧ p r = true := by
  obtain ⟨j,_,hj⟩ := List.exists_of_findSome?_eq_some h
  obtain ⟨s,hs,he⟩ := Option.map_eq_some_iff.mp hj
  cases he
  exact Option.filter_eq_some_iff.mp hs

theorem locate_none {p : R → Bool} (h : t.locate i p = none) {r : R} (hr : t.visible i k = some r) : p r = false := by
  rw [locate, List.findSome?_eq_none_iff] at h
  have hk := h k (List.mem_range.mpr (lt_size_of_visible t i k hr))
  rw [hr, Option.map_eq_none_iff, Option.filter_eq_none_iff] at hk
  simpa using hk r

theorem mem_matching {p : R → Bool} :
    k ∈ t.matching i p ↔ ∃ r, t.visible i k = some r ∧ p r = true := by
  simp only [matching, List.mem_filter, List.mem_range]
  constructor
  · rintro ⟨_,h⟩
    simpa [Option.any_eq_true] using h
  · rintro ⟨r,hr,hp⟩
    exact ⟨lt_size_of_visible t i k hr,by simp [hr, hp]⟩

theorem free_iff (ks : List Nat) :
    t.free i ks = true ↔ ∀ k ∈ ks, ∀ j r, t.pending k = some (j, r) → j = i := by
  simp only [free, List.all_eq_true]
  constructor
  · intro h k hk j r hp
    have := h k hk
    rw [hp] at this
    simpa using this
  · intro h k hk
    cases hp : t.pending k with
    | none => rfl
    | some q => simpa using h k hk q.1 q.2 hp

theorem own_insert (r : R) :
    (t.insert i r).own j k = if k = t.size then (if i = j then some r else none) else t.own j k := by
  by_cases hk : k = t.size
  · subst hk
    simp [own, insert]
  · simp [own, insert, hk]

/-- A version after an `INSERT` is the new row's or an old one. -/
theorem own_insert_cases {s r : R} (h : (t.insert i s).own j k = some r) :
    (k = t.size ∧ j = i ∧ r = s) ∨ t.own j k = some r := by
  rw [own_insert] at h
  split at h
  · split at h
    · rename_i hk hij
      exact .inl ⟨hk,hij.symm,(Option.some.inj h).symm⟩
    · cases h
  · exact .inr h

/-- No version is lost by an `INSERT`. -/
theorem own_insert_of_own {s r : R} (h : t.own j k = some r) : (t.insert i s).own j k = some r := by
  rw [own_insert, if_neg (Nat.ne_of_lt (lt_size_of_own t j k h)), h]

theorem own_insert_self (r : R) : (t.insert i r).own i t.size = some r := by
  simp [own_insert]

theorem own_insert_other {r : R} (hij : j ≠ i) : (t.insert i r).own j k = t.own j k := by
  rw [own_insert]
  split
  · rename_i hk
    have hp := t.pending_fresh k (by omega)
    simp [own, hp, hij.symm]
  · rfl

theorem own_write_self (ks : List Nat) (p : R → Bool) (f : R → R) :
    (t.write i ks p f).own i k =
      if k ∈ ks then (((t.visible i k).filter p).map f).or (t.own i k) else t.own i k := by
  by_cases hk : k ∈ ks
  · cases hv : (t.visible i k).filter p <;> simp [own, write, hk, hv]
  · simp [own, write, hk]

/-- A written row is one that was picked and still passes the test. -/
theorem own_write_cases {ks : List Nat} {p : R → Bool} {f : R → R} {r : R}
    (h : (t.write i ks p f).own i k = some r) :
    (∃ s, k ∈ ks ∧ t.visible i k = some s ∧ p s = true ∧ r = f s) ∨ t.own i k = some r := by
  rw [own_write_self] at h
  split at h
  · rename_i hk
    cases hv : (t.visible i k).filter p with
    | none =>
      rw [hv] at h
      exact .inr (by simpa using h)
    | some s =>
      rw [hv] at h
      obtain ⟨hs,hp⟩ := Option.filter_eq_some_iff.mp hv
      exact .inl ⟨s,hk,hs,hp,by simpa using h.symm⟩
  · exact .inr h

theorem own_write_picked {ks : List Nat} {p : R → Bool} {f : R → R} {s : R} (hk : k ∈ ks)
    (hs : t.visible i k = some s) (hp : p s = true) : (t.write i ks p f).own i k = some (f s) := by
  simp [own_write_self, hk, hs, hp]

/-- Locks are exclusive: a statement that got its rows leaves other transactions' versions alone. -/
theorem own_write_other {ks : List Nat} {p : R → Bool} {f : R → R} (hij : j ≠ i)
    (hf : t.free i ks = true) : (t.write i ks p f).own j k = t.own j k := by
  by_cases hk : k ∈ ks
  · have hfree := (free_iff t i ks).mp hf k hk
    have hj : t.own j k = none := by
      rw [own_eq_none_iff]
      intro r hr
      exact hij (hfree j r hr)
    rw [hj, own_eq_none_iff]
    intro r hr
    cases hv : (t.visible i k).filter p with
    | none =>
      simp only [write, hk, if_true, hv, Option.map_none, Option.none_or] at hr
      exact hij (hfree j r hr)
    | some s =>
      simp only [write, hk, if_true, hv, Option.map_some, Option.some_or, Option.some.injEq, Prod.mk.injEq] at hr
      exact hij hr.1.symm
  · simp [own, write, hk]

theorem updateById_some {p : R → Bool} {f : R → R} {t' : Table ι R} {r' : R}
    (h : t.updateById i k p f = some (some (t', r'))) :
    ∃ r, t.free i [k] = true ∧ t.visible i k = some r ∧ p r = true ∧ r' = f r ∧ t' = t.write i [k] p f := by
  unfold updateById at h
  split at h
  · rename_i hf
    obtain ⟨r,hr,he⟩ := Option.map_eq_some_iff.mp (Option.some.inj h)
    obtain ⟨hv,hp⟩ := Option.filter_eq_some_iff.mp hr
    cases he
    exact ⟨r,hf,hv,hp,rfl,rfl⟩
  · cases h

@[simp] theorem own_commit_self : (t.commit i).own i k = none := by
  rw [own_eq_none_iff]
  intro r hr
  simp only [commit] at hr
  split at hr
  · cases hr
  · rename_i ho
    rw [(own_eq_some_iff t i k).mpr hr] at ho
    exact ho rfl

@[simp] theorem own_rollback_self : (t.rollback i).own i k = none := own_commit_self t i k

theorem own_commit_other (hij : j ≠ i) : (t.commit i).own j k = t.own j k := by
  cases ho : t.own i k with
  | none =>
    have hp : (t.commit i).pending k = t.pending k := by simp [commit, ho]
    simp only [own, hp]
  | some r => rw [own_exclusive t i j k ho hij, own_eq_none_iff]; simp [commit, ho]

theorem own_rollback_other (hij : j ≠ i) : (t.rollback i).own j k = t.own j k :=
  own_commit_other t i j k hij

section Settled
variable {t} (h : ∀ k, t.pending k = none)
include h

theorem visible_of_settled (i : ι) : t.visible i = t.committed := by
  funext k
  simp [visible, own, h k]

/-- Nothing is left to commit. -/
theorem commit_of_settled (i : ι) : t.commit i = t := by
  have hvis := visible_of_settled h i
  obtain ⟨size,committed,pending,hc,hp⟩ := t
  simp only [commit, mk.injEq, true_and]
  refine ⟨hvis,funext fun k => ?_⟩
  have hk : pending k = none := h k
  simp [hk]

/-- And nothing to roll back. -/
theorem rollback_of_settled (i : ι) : t.rollback i = t := by
  obtain ⟨size,committed,pending,hc,hp⟩ := t
  simp only [rollback, mk.injEq, true_and]
  funext k
  have hk : pending k = none := h k
  simp [hk]

theorem settled_insert_commit (i : ι) (r : R) (k : Nat) : ((t.insert i r).commit i).pending k = none := by
  simp only [commit]
  split
  · rfl
  · rename_i hown
    by_cases hk : k = t.size
    · subst hk
      exact absurd (by rw [own_insert_self]; rfl) hown
    · simpa [insert, hk] using h k

end Settled

def Version (t : Table ι R) (k : Nat) (r : R) : Prop := t.committed k = some r ∨ ∃ i, t.own i k = some r

variable {t i k}

theorem Version.of_visible {r : R} (h : t.visible i k = some r) : t.Version k r := by
  rcases visible_cases t i k h with ho | ⟨_,hc⟩
  · exact .inr ⟨i,ho⟩
  · exact .inl hc

theorem Version.lt_size {r : R} (h : t.Version k r) : k < t.size := by
  rcases h with hc | ⟨i,ho⟩
  · exact lt_size_of_committed t k hc
  · exact lt_size_of_own t i k ho

theorem Version.of_insert {s r : R} (h : (t.insert i s).Version k r) :
    (k = t.size ∧ r = s) ∨ t.Version k r := by
  rcases h with hc | ⟨j,ho⟩
  · exact .inr (.inl hc)
  · rcases own_insert_cases t i j k ho with ⟨hk,_,hr⟩ | ho
    · exact .inl ⟨hk,hr⟩
    · exact .inr (.inr ⟨j,ho⟩)

theorem Version.of_write {ks : List Nat} {p : R → Bool} {f : R → R} {r : R} (hf : t.free i ks = true)
    (h : (t.write i ks p f).Version k r) :
    t.Version k r ∨ ∃ s, t.Version k s ∧ p s = true ∧ r = f s := by
  rcases h with hc | ⟨j,ho⟩
  · exact .inl (.inl hc)
  · by_cases hji : j = i
    · subst hji
      rcases own_write_cases t j k ho with ⟨s,_,hs,hp,he⟩ | ho
      · exact .inr ⟨s,.of_visible hs,hp,he⟩
      · exact .inl (.inr ⟨j,ho⟩)
    · rw [own_write_other t i j k hji hf] at ho
      exact .inl (.inr ⟨j,ho⟩)

theorem Version.of_commit {r : R} (h : (t.commit i).Version k r) : t.Version k r := by
  rcases h with hc | ⟨j,ho⟩
  · exact .of_visible hc
  · by_cases hji : j = i
    · subst hji
      simp at ho
    · rw [own_commit_other t i j k hji] at ho
      exact .inr ⟨j,ho⟩

theorem Version.of_rollback {r : R} (h : (t.rollback i).Version k r) : t.Version k r := by
  rcases h with hc | ⟨j,ho⟩
  · exact .inl hc
  · by_cases hji : j = i
    · subst hji
      simp at ho
    · rw [own_rollback_other t i j k hji] at ho
      exact .inr ⟨j,ho⟩

end Table
end Nivara.Transactions
