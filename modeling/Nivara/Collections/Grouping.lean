import Mathlib.Algebra.BigOperators.Group.List.Basic
import Mathlib.Algebra.GroupWithZero.Nat
import Mathlib.Data.List.Dedup
import Mathlib.Data.List.Count

/-! `GROUP BY`: the rows of a list by their keys, and what the counts of the groups add up to. -/
namespace Nivara.Collections

variable {α κ : Type} [DecidableEq κ]

def groupBy (key : α → κ) (le : κ → κ → Bool) (xs : List α) : List (κ × List α) :=
  ((xs.map key).dedup.mergeSort le).map fun k => (k, xs.filter fun x => key x = k)

/-- Over keys that are all different, a row is counted once if its key is among them. -/
private theorem sum_count_of_nodup (key : α → κ) (p : α → Bool) {ks : List κ} (hn : ks.Nodup) (xs : List α) :
    (ks.map fun k => (xs.filter fun x => key x = k).countP p).sum = xs.countP fun x => p x && decide (key x ∈ ks) := by
  induction ks with
  | nil => simp
  | cons k ks ih =>
    obtain ⟨hk,hn⟩ := List.nodup_cons.mp hn
    rw [List.map_cons, List.sum_cons, ih hn, List.countP_filter]
    clear ih
    induction xs with
    | nil => rfl
    | cons x xs ih =>
      simp only [List.countP_cons]
      have hone : (if (p x && decide (key x = k)) = true then 1 else 0) +
          (if (p x && decide (key x ∈ ks)) = true then 1 else 0) =
          if (p x && decide (key x ∈ k :: ks)) = true then 1 else 0 := by
        by_cases hx : key x = k
        · simp [hx, hk]
        · simp [hx]
      omega

/-- The counts of the groups add up to the count of the whole. -/
theorem sum_groupBy_countP (key : α → κ) (le : κ → κ → Bool) (p : α → Bool) (xs : List α) :
    ((groupBy key le xs).map fun g => g.2.countP p).sum = xs.countP p := by
  have hn : ((xs.map key).dedup.mergeSort le).Nodup :=
    (List.mergeSort_perm _ le).nodup_iff.mpr (List.nodup_dedup _)
  rw [groupBy, List.map_map, Function.comp_def, sum_count_of_nodup key p hn]
  refine List.countP_congr fun x hx => ?_
  have hmem : key x ∈ (xs.map key).dedup.mergeSort le := by
    rw [List.mem_mergeSort, List.mem_dedup]
    exact List.mem_map_of_mem hx
  simp [hmem]

/-- Two counts over the same places agree iff as many come in as go out. -/
theorem countP_eq_iff_balanced (p q : α → Bool) (xs : List α) :
    xs.countP q = xs.countP p ↔ xs.countP (fun x => q x && !p x) = xs.countP (fun x => p x && !q x) := by
  have h : xs.countP q + xs.countP (fun x => p x && !q x) = xs.countP p + xs.countP (fun x => q x && !p x) := by
    induction xs with
    | nil => rfl
    | cons x xs ih =>
      simp only [List.countP_cons]
      cases p x <;> cases q x <;> simp <;> omega
  omega

end Nivara.Collections
