import Mathlib.Data.List.Sort
import Nivara.Collections.OrderedMap
import Nivara.Text.Json

/-! Objects as a program sees them: `JSON.parse`, the order of an object's own keys, and lookup. -/
namespace Nivara.Text
open Collections

def arrayIndex (k : Str) : Option Nat :=
  match spanDigits k with
  | (d :: ds, []) => if (d = 0 ∧ ds ≠ []) ∨ 4294967295 ≤ valueOf (d :: ds) then none else some (valueOf (d :: ds))
  | _ => none

variable {V : Type}

/-- `OrdinaryOwnPropertyKeys`: array indices come first, by number; other keys keep their order. -/
def propertyOrder (ms : List (Str × V)) : List (Str × V) :=
  (ms.filter fun m => (arrayIndex m.1).isSome).insertionSort (fun m m' => (arrayIndex m.1).getD 0 ≤ (arrayIndex m'.1).getD 0) ++
    ms.filter fun m => (arrayIndex m.1).isNone

/-- Members are defined one after the other; a name that comes again gets its last value. -/
def defineAll (ms : List (Str × V)) : OrderedMap Str V := ms.foldl (fun o m => o.set m.1 m.2) .empty

mutual
def Json.build : Json → Json
  | .array vs => .array (buildItems vs)
  | .object ms => .object (propertyOrder (defineAll (buildMembers ms)).entries)
  | v => v

def buildItems : List Json → List Json
  | [] => []
  | v :: vs => v.build :: buildItems vs

def buildMembers : List (Str × Json) → List (Str × Json)
  | [] => []
  | (k, v) :: ms => (k, v.build) :: buildMembers ms
end

/-- `JSON.parse`; `none` is a `SyntaxError`. -/
def parseJson (s : Str) : Option Json := (readText s).map Json.build

/-- An own property; no value read from a text inherits one that matters here. -/
def Json.get (v : Json) (k : Str) : Option Json :=
  match v with
  | .object ms => (ms.find? fun m => m.1 = k).map Prod.snd
  | _ => none

theorem propertyOrder_perm (ms : List (Str × V)) : (propertyOrder ms).Perm ms := by
  have hsplit := List.filter_append_perm (fun m : Str × V => (arrayIndex m.1).isSome) ms
  refine List.Perm.trans (List.Perm.append (List.perm_insertionSort _ _) (List.Perm.refl _)) ?_
  simpa using hsplit

theorem propertyOrder_of_names {ms : List (Str × V)} (h : ∀ m ∈ ms, arrayIndex m.1 = none) : propertyOrder ms = ms := by
  have hnone : ms.filter (fun m => (arrayIndex m.1).isSome) = [] := by
    rw [List.filter_eq_nil_iff]
    intro m hm
    simp [h m hm]
  have hall : ms.filter (fun m => (arrayIndex m.1).isNone) = ms := by
    rw [List.filter_eq_self]
    intro m hm
    simp [h m hm]
  rw [propertyOrder, hnone, hall]
  rfl

/-- The order depends on the names alone. -/
theorem propertyOrder_map {W : Type} (f : V → W) (ms : List (Str × V)) :
    propertyOrder (ms.map fun m => (m.1, f m.2)) = (propertyOrder ms).map fun m => (m.1, f m.2) := by
  rw [propertyOrder, propertyOrder, List.map_append, List.filter_map, List.filter_map,
    List.map_insertionSort _ (fun m m' => (arrayIndex m.1).getD 0 ≤ (arrayIndex m'.1).getD 0)]
  · rfl
  · exact fun _ _ _ _ => Iff.rfl

/-- Names that are all different define the members they name. -/
theorem entries_defineAll {ms : List (Str × V)} (h : (ms.map Prod.fst).Nodup) : (defineAll ms).entries = ms := by
  induction ms using List.reverseRecOn with
  | nil => rfl
  | append_singleton ms m ih =>
    rw [List.map_append, List.nodup_append] at h
    have hms := ih h.1
    have hnew : m.1 ∉ (defineAll ms).entries.map Prod.fst := by
      rw [hms]
      intro hm
      exact h.2.2 _ hm _ (List.mem_singleton_self _) rfl
    have hfold : defineAll (ms ++ [m]) = (defineAll ms).set m.1 m.2 := by simp [defineAll]
    rw [hfold, OrderedMap.entries_set_new hnew, hms]

mutual
def Json.Distinct : Json → Prop
  | .array vs => DistinctItems vs
  | .object ms => (ms.map Prod.fst).Nodup ∧ DistinctMembers ms
  | _ => True

def DistinctItems : List Json → Prop
  | [] => True
  | v :: vs => v.Distinct ∧ DistinctItems vs

def DistinctMembers : List (Str × Json) → Prop
  | [] => True
  | (_, v) :: ms => v.Distinct ∧ DistinctMembers ms
end

theorem distinctItems_iff {vs : List Json} : DistinctItems vs ↔ ∀ v ∈ vs, v.Distinct := by
  induction vs with
  | nil => simp [DistinctItems]
  | cons v vs ih => simp [DistinctItems, ih]

theorem distinctMembers_iff {ms : List (Str × Json)} : DistinctMembers ms ↔ ∀ m ∈ ms, m.2.Distinct := by
  induction ms with
  | nil => simp [DistinctMembers]
  | cons m ms ih => simp [DistinctMembers, ih]

theorem buildItems_eq_map (vs : List Json) : buildItems vs = vs.map Json.build := by
  induction vs with
  | nil => rfl
  | cons v vs ih => rw [buildItems, ih, List.map_cons]

theorem buildMembers_eq_map (ms : List (Str × Json)) : buildMembers ms = ms.map fun m => (m.1, m.2.build) := by
  induction ms with
  | nil => rfl
  | cons m ms ih => rw [buildMembers, ih, List.map_cons]

private theorem mem_defineAll {ms : List (Str × V)} {m : Str × V} (h : m ∈ (defineAll ms).entries) : m ∈ ms := by
  induction ms using List.reverseRecOn generalizing m with
  | nil => cases h
  | append_singleton ms m' ih =>
    have hfold : defineAll (ms ++ [m']) = (defineAll ms).set m'.1 m'.2 := by simp [defineAll]
    rw [hfold, OrderedMap.set] at h
    dsimp only at h
    split at h
    · obtain ⟨n,hn,rfl⟩ := List.mem_map.mp h
      by_cases hk : n.1 = m'.1
      · simp [hk]
      · rw [if_neg hk]
        exact List.mem_append.mpr (.inl (ih hn))
    · rcases List.mem_append.mp h with h | h
      · exact List.mem_append.mpr (.inl (ih h))
      · exact List.mem_append.mpr (.inr h)

private theorem build_distinct (v : Json) : v.build.Distinct := by
  induction v using Json.induct with
  | null => trivial
  | bool b => trivial
  | number n => trivial
  | string s => trivial
  | array vs ih =>
    rw [Json.build, Json.Distinct, buildItems_eq_map, distinctItems_iff]
    exact List.forall_mem_map.mpr ih
  | object ms ih =>
    rw [Json.build, Json.Distinct, buildMembers_eq_map, distinctMembers_iff]
    constructor
    · exact ((propertyOrder_perm _).map Prod.fst).nodup_iff.mpr (OrderedMap.distinct _)
    · intro m hm
      have hmem := mem_defineAll ((propertyOrder_perm _).mem_iff.mp hm)
      obtain ⟨n,hn,rfl⟩ := List.mem_map.mp hmem
      exact ih n hn

structure Parsed where
  value : Json
  distinct : value.Distinct

def parse (s : Str) : Option Parsed := (readText s).map fun v => ⟨v.build, build_distinct v⟩

end Nivara.Text
