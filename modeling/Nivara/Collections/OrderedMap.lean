import Mathlib.Data.List.Nodup

/-! Maps that remember the order in which their keys were set, as the collections of the source's
language do: a key that is set again keeps its place, and one that was deleted goes to the end. -/
namespace Nivara.Collections

/-- The entries in the order of their keys' first setting; no key is there twice. -/
structure OrderedMap (K V : Type) where
  entries : List (K × V)
  distinct : (entries.map Prod.fst).Nodup

namespace OrderedMap
variable {K V : Type}

def empty : OrderedMap K V := ⟨[], List.nodup_nil⟩

def size (m : OrderedMap K V) : Nat := m.entries.length

def oldest (m : OrderedMap K V) : Option (K × V) := m.entries.head?

variable [DecidableEq K]

def get (m : OrderedMap K V) (k : K) : Option V := (m.entries.find? fun p => p.1 = k).map Prod.snd

def delete (m : OrderedMap K V) (k : K) : OrderedMap K V where
  entries := m.entries.filter fun p => p.1 ≠ k
  distinct := m.distinct.sublist (List.filter_sublist.map Prod.fst)

private theorem distinct_assign (l : List (K × V)) (k : K) (v : V) :
    (l.map fun p => if p.1 = k then (k, v) else p).map Prod.fst = l.map Prod.fst := by
  rw [List.map_map]
  refine List.map_congr_left fun p _ => ?_
  by_cases hp : p.1 = k <;> simp [hp]

def set (m : OrderedMap K V) (k : K) (v : V) : OrderedMap K V where
  entries :=
    if k ∈ m.entries.map Prod.fst then m.entries.map fun p => if p.1 = k then (k, v) else p else m.entries ++ [(k, v)]
  distinct := by
    split
    · rw [distinct_assign]
      exact m.distinct
    · rename_i hk
      rw [List.map_append, List.map_singleton]
      refine List.nodup_append.mpr ⟨m.distinct,List.nodup_singleton k,fun j hj j' hj' heq => hk ?_⟩
      have hjk : j' = k := List.mem_singleton.mp hj'
      rw [← hjk, ← heq]
      exact hj

variable {m : OrderedMap K V} {k j : K} {v : V}

theorem get_eq_none_iff : m.get k = none ↔ k ∉ m.entries.map Prod.fst := by
  simp only [get, Option.map_eq_none_iff, List.find?_eq_none, List.mem_map, not_exists, not_and, decide_eq_true_eq]

@[simp] theorem get_empty : (empty : OrderedMap K V).get k = none := rfl

theorem get_delete : (m.delete k).get j = if j = k then none else m.get j := by
  split
  · rename_i hj
    rw [get_eq_none_iff]
    simp [delete, hj]
  · rename_i hj
    simp only [get, delete, List.find?_filter]
    congr 2
    funext p
    by_cases hp : p.1 = j <;> simp [hp, hj]

private theorem find?_assign_other (l : List (K × V)) (hj : j ≠ k) :
    (l.map fun p => if p.1 = k then (k, v) else p).find? (fun p => p.1 = j) = l.find? fun p => p.1 = j := by
  induction l with
  | nil => rfl
  | cons p l ih =>
    rw [List.map_cons, List.find?_cons, List.find?_cons, ih]
    by_cases hp : p.1 = k
    · simp [hp, Ne.symm hj]
    · simp [hp]

private theorem find?_assign_self (l : List (K × V)) (hk : k ∈ l.map Prod.fst) :
    (l.map fun p => if p.1 = k then (k, v) else p).find? (fun p => p.1 = k) = some (k, v) := by
  induction l with
  | nil => cases hk
  | cons p l ih =>
    rw [List.map_cons, List.find?_cons]
    by_cases hp : p.1 = k
    · simp [hp]
    · rw [if_neg hp, decide_eq_false hp]
      refine ih ?_
      simpa [Ne.symm hp] using hk

private theorem entries_set_old (hk : k ∈ m.entries.map Prod.fst) :
    (m.set k v).entries = m.entries.map fun p => if p.1 = k then (k, v) else p := if_pos hk

theorem entries_set_new (hk : k ∉ m.entries.map Prod.fst) : (m.set k v).entries = m.entries ++ [(k, v)] := if_neg hk

theorem get_set : (m.set k v).get j = if j = k then some v else m.get j := by
  by_cases hk : k ∈ m.entries.map Prod.fst
  · rw [get, entries_set_old hk]
    split
    · rename_i hj
      rw [hj, find?_assign_self _ hk]
      rfl
    · rename_i hj
      rw [find?_assign_other _ hj]
      rfl
  · rw [get, entries_set_new hk, List.find?_append]
    split
    · rename_i hj
      have hnone : m.entries.find? (fun p => p.1 = j) = none := by
        rw [hj]
        exact Option.map_eq_none_iff.mp (get_eq_none_iff.mpr hk)
      rw [hnone, Option.none_or]
      simp [hj]
    · rename_i hj
      simp [get, Ne.symm hj]

/-- A key that is there is set in its place, another one at the end. -/
theorem size_set : (m.set k v).size = if (m.get k).isSome then m.size else m.size + 1 := by
  by_cases hk : k ∈ m.entries.map Prod.fst
  · have hsome : (m.get k).isSome = true := Option.ne_none_iff_isSome.mp fun hn => get_eq_none_iff.mp hn hk
    rw [if_pos hsome, size, entries_set_old hk, List.length_map]
    rfl
  · rw [get_eq_none_iff.mpr hk, size, entries_set_new hk, List.length_append]
    rfl

theorem size_delete (h : (m.get k).isSome = true) : (m.delete k).size + 1 = m.size := by
  obtain ⟨v,hv⟩ := Option.isSome_iff_exists.mp h
  have hk : k ∈ m.entries.map Prod.fst := by
    by_contra hk
    rw [get_eq_none_iff.mpr hk] at hv
    cases hv
  have hcount : (m.entries.filter fun p => p.1 = k).length = 1 := by
    rw [← List.countP_eq_length_filter]
    have hmap : m.entries.countP (fun p => p.1 = k) = (m.entries.map Prod.fst).count k := by
      rw [List.count, List.countP_map]
      exact List.countP_congr fun p _ => by simp
    rw [hmap]
    exact List.count_eq_one_of_mem m.distinct hk
  have hsplit := List.length_eq_length_filter_add (l := m.entries) fun p => decide (p.1 = k)
  rw [hcount] at hsplit
  have hdel : (m.delete k).size = (m.entries.filter fun p => !decide (p.1 = k)).length := by
    simp only [size, delete, decide_not, ne_eq]
  rw [hdel, size, hsplit, Nat.add_comm]

private theorem find?_of_mem {l : List (K × V)} (hl : (l.map Prod.fst).Nodup) (h : (k, v) ∈ l) :
    l.find? (fun p => p.1 = k) = some (k, v) := by
  induction l with
  | nil => cases h
  | cons p l ih =>
    rw [List.map_cons, List.nodup_cons] at hl
    rcases List.mem_cons.mp h with rfl | h
    · simp
    · have hp : p.1 ≠ k := fun heq => hl.1 (heq ▸ List.mem_map_of_mem (f := Prod.fst) h)
      rw [List.find?_cons, decide_eq_false hp]
      exact ih hl.2 h

theorem mem_entries : (k, v) ∈ m.entries ↔ m.get k = some v := by
  constructor
  · intro h
    rw [get, find?_of_mem m.distinct h]
    rfl
  · intro h
    obtain ⟨p,hp,rfl⟩ := Option.map_eq_some_iff.mp h
    have hk : p.1 = k := by simpa using List.find?_some hp
    rw [← hk]
    exact List.mem_of_find?_eq_some hp

theorem get_of_oldest (h : m.oldest = some (k, v)) : m.get k = some v := by
  obtain ⟨l,hl⟩ := List.head?_eq_some_iff.mp h
  simp [get, hl]

end OrderedMap
end Nivara.Collections
