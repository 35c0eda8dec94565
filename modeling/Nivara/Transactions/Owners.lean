import Nivara.Transactions.Script
import Nivara.Transactions.View

/-! Tables whose rows belong to many owners: when two of them hold the same rows of one owner, and what the
transactions that write only rows of some owners leave of the others. -/
namespace Nivara.Transactions

section Contexts
variable {L : Language} {ε α ι C D Req W : Type} {E : Engine L ι C D} {S : Service L ε α C D Req} {world : D → W → Option D}

def Server.ArmedBy (p : C → Prop) (s : Server L ε α ι C D E.Cursor Req) : Prop := ∀ i x, s.sessions i = some x → p x.ctx

variable [DecidableEq ι] {p : C → Prop} {s s' : Server L ε α ι C D E.Cursor Req} {m : Move ι Req W}

theorem Server.ArmedBy.step (h : s.ArmedBy p) (hbegin : ∀ i req, m = .begin i req → p (S.context s.db req))
    (hs : s.step E S world m = some s') : s'.ArmedBy p := by
  have hput : ∀ d i x as, (∀ y, x = some y → p y.ctx) → Server.ArmedBy p { s.put d i x with answers := as } := by
    intro d i x as hx j y hy
    by_cases hji : j = i
    · subst hji
      exact hx y ((s.put_self d j x).symm.trans hy)
    · exact h j y ((s.put_other d x hji).symm.trans hy)
  cases Server.took_of_step hs with
  | began _ => exact hput _ _ _ _ fun y hy => by cases hy; exact hbegin _ _ rfl
  | committed _ _ _ => exact hput _ _ _ _ fun y hy => by cases hy
  | closed _ => exact hput _ _ _ _ fun y hy => by cases hy
  | skipped hx _ _ => exact hput _ _ _ _ fun y hy => by cases hy; exact (h _ _ hx :)
  | started hx _ _ _ => exact hput _ _ _ _ fun y hy => by cases hy; exact (h _ _ hx :)
  | refused hx _ _ _ _ => exact hput _ _ _ _ fun y hy => by cases hy; exact (h _ _ hx :)
  | went hx _ _ _ _ => exact hput _ _ _ _ fun y hy => by cases hy; exact (h _ _ hx :)
  | answered hx _ _ _ _ => exact hput _ _ _ _ fun y hy => by cases hy; exact (h _ _ hx :)
  | turned _ => exact h

end Contexts

namespace Table

variable {ι R : Type}

def SameRows (mine : R → Bool) (t t' : Table ι R) : Prop := ∀ k, (t.committed k).filter mine = (t'.committed k).filter mine

/-- Alike as far as the rows with `mine` go: what is not committed is the same, and so is the place of the
next row. -/
structure Alike (mine : R → Bool) (t t' : Table ι R) : Prop where
  size : t.size = t'.size
  pending : t.pending = t'.pending
  committed : t.SameRows mine t'

/-- Whatever is not committed is of `i`, has `mine`, and is a new row or the version of a row with `mine`. -/
def Within (i : ι) (mine : R → Bool) (t : Table ι R) : Prop :=
  ∀ k p, t.pending k = some p → p.1 = i ∧ mine p.2 = true ∧ (t.committed k).all mine = true

section Filters
variable {mine q : R → Bool} {a b : Option R}

/-- What is the same among the rows with `mine` is the same among those with `q`, which are fewer. -/
theorem filter_of_filter (h : a.filter mine = b.filter mine) (hq : ∀ r, q r = true → mine r = true) : a.filter q = b.filter q := by
  have hand : ∀ o : Option R, o.filter q = (o.filter mine).filter q := by
    intro o
    cases o with
    | none => rfl
    | some r =>
      cases hr : q r with
      | true => simp [Option.filter, hr, hq r hr]
      | false => cases hm : mine r <;> simp [Option.filter, hr, hm]
  rw [hand a, hand b, h]

theorem any_of_filter (h : a.filter mine = b.filter mine) (hq : ∀ r, q r = true → mine r = true) : a.any q = b.any q := by
  have hany : ∀ o : Option R, o.any q = (o.filter q).isSome := by
    intro o
    cases o with
    | none => rfl
    | some r => cases hr : q r <;> simp [Option.filter, hr]
  rw [hany a, hany b, filter_of_filter h hq]

theorem filter_of_iff (h : ∀ r, q r = true → (a = some r ↔ b = some r)) : a.filter q = b.filter q := by
  ext r
  rw [Option.filter_eq_some_iff, Option.filter_eq_some_iff]
  constructor
  · rintro ⟨ha,hr⟩
    exact ⟨(h r hr).mp ha,hr⟩
  · rintro ⟨hb,hr⟩
    exact ⟨(h r hr).mpr hb,hr⟩

theorem eq_some_of_filter {r : R} (h : a.filter mine = b.filter mine) (hr : mine r = true) : a = some r ↔ b = some r := by
  have hiff : ∀ o : Option R, o = some r ↔ o.filter mine = some r := by
    intro o
    rw [Option.filter_eq_some_iff]
    exact ⟨fun ho => ⟨ho,hr⟩,And.left⟩
  rw [hiff a, hiff b, h]

end Filters

namespace Alike
variable {mine q : R → Bool} {t t' : Table ι R} {i : ι} {k : Nat}

theorem insert (h : t.Alike mine t') (i : ι) (r : R) : (t.insert i r).Alike mine (t'.insert i r) where
  size := by
    show t.size + 1 = t'.size + 1
    rw [h.size]
  pending := by
    show Function.update t.pending t.size _ = Function.update t'.pending t'.size _
    rw [h.size, h.pending]
  committed := h.committed

theorem inserts (h : t.Alike mine t') (i : ι) (rs : List R) : (rs.foldl (·.insert i) t).Alike mine (rs.foldl (·.insert i) t') := by
  induction rs generalizing t t' with
  | nil => exact h
  | cons r rs ih => exact ih (h.insert i r)

variable [DecidableEq ι]

theorem own (h : t.Alike mine t') (i : ι) (k : Nat) : t.own i k = t'.own i k := by
  simp only [Table.own, h.pending]

theorem filter_visible (h : t.Alike mine t') (i : ι) (k : Nat) : (t.visible i k).filter mine = (t'.visible i k).filter mine := by
  simp only [Table.visible, h.own i k]
  cases t'.own i k with
  | some r => rfl
  | none => exact h.committed k

/-- A row that both have is written in both. -/
theorem write (h : t.Alike mine t') {s s' : R} (hs : t.visible i k = some s) (hs' : t'.visible i k = some s') (r : R) :
    (t.write i [k] (fun _ => true) fun _ => r).Alike mine (t'.write i [k] (fun _ => true) fun _ => r) where
  size := h.size
  pending := by
    funext j
    by_cases hj : j = k
    · subst hj
      simp [Table.write, hs, hs', Option.filter]
    · simp [Table.write, hj, h.pending]
  committed := h.committed

theorem commit (h : t.Alike mine t') (i : ι) : (t.commit i).Alike mine (t'.commit i) where
  size := h.size
  pending := by
    funext k
    simp only [Table.commit, h.own i k, h.pending]
  committed k := h.filter_visible i k

theorem rollback (h : t.Alike mine t') (i : ι) : (t.rollback i).Alike mine (t'.rollback i) where
  size := h.size
  pending := by
    funext k
    simp only [Table.rollback, h.own i k, h.pending]
  committed := h.committed

end Alike

section Crews
variable [DecidableEq ι]

/-- Each version that is not committed is one that its transaction may write, and so is the one it replaces. -/
def Confined (may : ι → R → Prop) (t : Table ι R) : Prop :=
  ∀ i k r, t.own i k = some r → may i r ∧ ∀ s, t.committed k = some s → may i s

namespace Confined
variable {may may' : ι → R → Prop} {t : Table ι R} {i : ι} {k : Nat} {r s : R}

theorem of_settled (h : ∀ k, t.pending k = none) : t.Confined may := by
  intro i k r ho
  rw [own_eq_some_iff, h k] at ho
  cases ho

theorem mono (h : t.Confined may) (hm : ∀ i r, may i r → may' i r) : t.Confined may' := by
  intro i k r ho
  obtain ⟨hr,hc⟩ := h i k r ho
  exact ⟨hm i r hr,fun s hs => hm i s (hc s hs)⟩

theorem insert (h : t.Confined may) (hr : may i r) : (t.insert i r).Confined may := by
  intro j k s ho
  rcases own_insert_cases t i j k ho with ⟨rfl,rfl,rfl⟩ | ho
  · refine ⟨hr,fun c hc => ?_⟩
    cases hc.symm.trans (t.committed_fresh t.size (Nat.le_refl _))
  · exact h j k s ho

theorem write (h : t.Confined may) (hf : t.free i [k] = true) (hs : t.visible i k = some s) (hms : may i s) (hr : may i r) :
    (t.write i [k] (fun _ => true) fun _ => r).Confined may := by
  intro j k' q ho
  by_cases hj : j = i
  · subst hj
    rcases own_write_cases t j k' ho with ⟨s',hk,hs',_,rfl⟩ | ho
    · cases List.mem_singleton.mp hk
      refine ⟨hr,fun c hc => ?_⟩
      rcases visible_cases t j k hs with hown | ⟨_,hcom⟩
      · exact (h j k s hown).2 c hc
      · cases hcom.symm.trans hc
        exact hms
    · exact h j k' q ho
  · rw [own_write_other t i j k' hj hf] at ho
    exact h j k' q ho

/-- The rows that the others have locked are not touched by a commit. -/
theorem commit (h : t.Confined may) (hm : ∀ j r, j ≠ i → may j r → may' j r) : (t.commit i).Confined may' := by
  intro j k r ho
  by_cases hj : j = i
  · subst hj
    rw [own_commit_self] at ho
    cases ho
  · rw [own_commit_other t i j k hj] at ho
    rw [commit_committed, visible_of_no_own t i k (own_exclusive t j i k ho (Ne.symm hj))]
    obtain ⟨hr,hc⟩ := h j k r ho
    exact ⟨hm j r hj hr,fun s hs => hm j s hj (hc s hs)⟩

theorem rollback (h : t.Confined may) (hm : ∀ j r, j ≠ i → may j r → may' j r) : (t.rollback i).Confined may' := by
  intro j k r ho
  by_cases hj : j = i
  · subst hj
    rw [own_rollback_self] at ho
    cases ho
  · rw [own_rollback_other t i j k hj] at ho
    obtain ⟨hr,hc⟩ := h j k r ho
    exact ⟨hm j r hj hr,fun s hs => hm j s hj (hc s hs)⟩

/-- A row that is new after a commit is one that `i` might write. -/
theorem committed_cases (h : t.Confined may) (hr : (t.commit i).committed k = some r) : t.committed k = some r ∨ may i r := by
  rcases visible_cases t i k hr with ho | ⟨_,hc⟩
  · exact .inr (h i k r ho).1
  · exact .inl hc

/-- A row that `i` may not write is there after its commit if and only if it was there before. -/
theorem committed_iff (h : t.Confined may) (hr : ¬ may i r) : t.committed k = some r ↔ (t.commit i).committed k = some r := by
  rw [commit_committed]
  cases ho : t.own i k with
  | none => rw [visible_of_no_own t i k ho]
  | some s =>
    rw [visible_of_own t i k ho]
    obtain ⟨hs,hc⟩ := h i k s ho
    constructor
    · intro hcom
      exact absurd (hc r hcom) hr
    · intro heq
      cases heq
      exact absurd hs hr

end Confined

end Crews

namespace Within
variable {mine q : R → Bool} {t : Table ι R} {i : ι} {k : Nat}

theorem of_settled (h : ∀ k, t.pending k = none) : t.Within i mine := by
  intro k p hp
  rw [h k] at hp
  cases hp

theorem mono (h : t.Within i mine) (hq : ∀ r, mine r = true → q r = true) : t.Within i q := by
  intro k p hp
  obtain ⟨hi,hm,hc⟩ := h k p hp
  refine ⟨hi,hq _ hm,?_⟩
  cases ho : t.committed k with
  | none => rfl
  | some r =>
    rw [ho] at hc
    exact hq r hc

theorem insert (h : t.Within i mine) {r : R} (hr : mine r = true) : (t.insert i r).Within i mine := by
  intro k p hp
  have hc : (t.insert i r).committed = t.committed := rfl
  rw [hc]
  by_cases hk : k = t.size
  · subst hk
    simp only [Table.insert, Function.update_self, Option.some.injEq] at hp
    subst hp
    exact ⟨rfl,hr,by simp [t.committed_fresh t.size (Nat.le_refl _)]⟩
  · simp only [Table.insert, ne_eq, hk, not_false_eq_true, Function.update_of_ne] at hp
    exact h k p hp

variable [DecidableEq ι]

theorem free (h : t.Within i mine) (k : Nat) : t.free i [k] = true := by
  rw [free_iff]
  intro j _ i' r hp
  exact (h j (i', r) hp).1

theorem of_own (h : t.Within i mine) {r : R} (ho : t.own i k = some r) : mine r = true ∧ (t.committed k).all mine = true :=
  (h k (i, r) ((own_eq_some_iff t i k).mp ho)).2

theorem write (h : t.Within i mine) {s r : R} (hs : t.visible i k = some s) (hsm : mine s = true) (hr : mine r = true) :
    (t.write i [k] (fun _ => true) fun _ => r).Within i mine := by
  intro j p hp
  have hc : (t.write i [k] (fun _ => true) fun _ => r).committed = t.committed := rfl
  rw [hc]
  by_cases hj : j = k
  · subst hj
    simp only [Table.write, List.mem_singleton, if_true, hs, Option.filter_some, Option.map_some, Option.some_or,
      Option.some.injEq] at hp
    subst hp
    refine ⟨rfl,hr,?_⟩
    rcases visible_cases t i j hs with ho | ⟨_,hcom⟩
    · exact (h.of_own ho).2
    · simp [hcom, hsm]
  · simp only [Table.write, List.mem_singleton, hj, if_false] at hp
    exact h j p hp

theorem settled_commit (h : t.Within i mine) (k : Nat) : (t.commit i).pending k = none := by
  cases hp : t.pending k with
  | none => simp [Table.commit, hp]
  | some p =>
    have hown : t.own i k = some p.2 := (own_eq_some_iff t i k).mpr (by rw [hp, ← (h k p hp).1])
    simp [Table.commit, hown]

theorem settled_rollback (h : t.Within i mine) (k : Nat) : (t.rollback i).pending k = none := h.settled_commit k

/-- A transaction that works alone. -/
theorem confined (h : t.Within i mine) :
    t.Confined fun _ r => mine r = true := by
  intro j k r ho
  obtain ⟨_,hr,hc⟩ := h k (j, r) ((own_eq_some_iff t j k).mp ho)
  refine ⟨hr,fun s hs => ?_⟩
  rw [hs] at hc
  exact hc

/-- The rows that are not its own are left as they were. -/
theorem sameRows_commit (h : t.Within i mine) (hq : ∀ r, q r = true → mine r = false) : t.SameRows q (t.commit i) := by
  intro k
  refine filter_of_iff fun r hr => h.confined.committed_iff ?_
  rw [hq r hr]
  exact Bool.false_ne_true

end Within
end Table
end Nivara.Transactions
