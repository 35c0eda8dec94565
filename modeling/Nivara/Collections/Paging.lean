import Mathlib.Data.List.Sort

/-! Reading a collection page by page, each page from where the one before has ended. The collection
may be another one at every page. -/
namespace Nivara.Collections

variable {α β : Type} [LinearOrder β] (pos : α → β)

def beyond (rows : List α) (p : Option β) : List α :=
  (rows.filter fun r => p.all fun q => q < pos r).insertionSort fun r r' => pos r ≤ pos r'

def walk (limit : ℕ) : List (List α) → Option β → List α × Bool
  | [], _ => ([], false)
  | rows :: later, p =>
    let data := (beyond pos rows p).take limit
    match if limit < (beyond pos rows p).length then data.getLast? else none with
    | none => (data, true)
    | some a => (data ++ (walk limit later (some (pos a))).1, (walk limit later (some (pos a))).2)

variable {pos} {rows : List α} {p : Option β} {r : α} {limit : ℕ}

theorem mem_beyond : r ∈ beyond pos rows p ↔ r ∈ rows ∧ ∀ q ∈ p, q < pos r := by
  simp only [beyond, List.mem_insertionSort, List.mem_filter, Option.all_eq_true, decide_eq_true_eq, Option.mem_def]

/-- Rows at different positions are strictly in order. -/
theorem beyond_pairwise (h : (rows.map pos).Nodup) : (beyond pos rows p).Pairwise fun r r' => pos r < pos r' := by
  have htotal : Std.Total fun r r' : α => pos r ≤ pos r' := ⟨fun r r' => le_total (pos r) (pos r')⟩
  have htrans : IsTrans α fun r r' => pos r ≤ pos r' := ⟨fun _ _ _ => le_trans⟩
  have hsorted : (beyond pos rows p).Pairwise fun r r' => pos r ≤ pos r' := List.pairwise_insertionSort _ _
  have hnodup : (beyond pos rows p).Pairwise fun r r' => pos r ≠ pos r' := by
    have hperm := (List.perm_insertionSort (fun r r' : α => pos r ≤ pos r') (rows.filter fun r => p.all fun q => q < pos r)).map pos
    have hfilter : ((rows.filter fun r => p.all fun q => q < pos r).map pos).Nodup := h.sublist (List.filter_sublist.map pos)
    exact List.pairwise_map.mp (hperm.nodup_iff.mpr hfilter)
  exact (hsorted.and hnodup).imp fun hle => lt_of_le_of_ne hle.1 hle.2

/-- The page ends at its last row: what is up to there is on it, and what is beyond is not. -/
theorem split_at_anchor (h : (rows.map pos).Nodup) {a : α}
    (ha : ((beyond pos rows p).take limit).getLast? = some a) (hr : r ∈ beyond pos rows p) :
    r ∈ (beyond pos rows p).take limit ∨ pos a < pos r := by
  have hsorted := beyond_pairwise (p := p) h
  rw [← List.take_append_drop limit (beyond pos rows p)] at hr hsorted
  rcases List.mem_append.mp hr with hr | hr
  · exact .inl hr
  · exact .inr ((List.pairwise_append.mp hsorted).2.2 a (List.mem_of_getLast? ha) r hr)

theorem le_anchor (h : (rows.map pos).Nodup) {a : α} (ha : ((beyond pos rows p).take limit).getLast? = some a)
    (hr : r ∈ (beyond pos rows p).take limit) : pos r ≤ pos a := by
  have hsorted := (beyond_pairwise (p := p) h).sublist (List.take_sublist limit _)
  obtain ⟨l,hl⟩ := List.getLast?_eq_some_iff.mp ha
  rw [hl] at hr hsorted
  rcases List.mem_append.mp hr with hr | hr
  · exact ((List.pairwise_append.mp hsorted).2.2 r hr a (List.mem_singleton_self a)).le
  · rw [List.mem_singleton.mp hr]

variable (pos rows p limit) in
/-- The one step of a walk. -/
theorem walk_cons (later : List (List α)) :
    (¬ limit < (beyond pos rows p).length ∧ walk pos limit (rows :: later) p = (beyond pos rows p, true)) ∨
    ((beyond pos rows p).take limit = [] ∧ walk pos limit (rows :: later) p = ([], true)) ∨
    ∃ a, limit < (beyond pos rows p).length ∧ ((beyond pos rows p).take limit).getLast? = some a ∧
      walk pos limit (rows :: later) p =
        ((beyond pos rows p).take limit ++ (walk pos limit later (some (pos a))).1, (walk pos limit later (some (pos a))).2) := by
  by_cases hl : limit < (beyond pos rows p).length
  · cases ha : ((beyond pos rows p).take limit).getLast? with
    | none =>
      have hnil := List.getLast?_eq_none_iff.mp ha
      exact .inr (.inl ⟨hnil,by simp only [walk, if_pos hl, hnil, List.getLast?_nil]⟩)
    | some a => exact .inr (.inr ⟨a,hl,rfl,by simp only [walk, if_pos hl, ha]⟩)
  · left
    refine ⟨hl,?_⟩
    simp only [walk, if_neg hl]
    rw [List.take_of_length_le (by omega)]

variable (limit) in
/-- A walk visits only what lies beyond its start, strictly in order. -/
theorem walk_pairwise {pages : List (List α)} (h : ∀ rows ∈ pages, (rows.map pos).Nodup) (p : Option β) :
    (walk pos limit pages p).1.Pairwise (fun r r' => pos r < pos r') ∧
      ∀ r ∈ (walk pos limit pages p).1, (∃ rows ∈ pages, r ∈ rows) ∧ ∀ q ∈ p, q < pos r := by
  induction pages generalizing p with
  | nil => simp [walk]
  | cons rows later ih =>
    have hrows := h rows (by simp)
    have hpage : ∀ r ∈ beyond pos rows p, (∃ rows' ∈ rows :: later, r ∈ rows') ∧ ∀ q ∈ p, q < pos r := by
      intro r hr
      obtain ⟨hmem,hq⟩ := mem_beyond.mp hr
      exact ⟨⟨rows,by simp,hmem⟩,hq⟩
    rcases walk_cons pos rows p limit later with ⟨_,hw⟩ | ⟨_,hw⟩ | ⟨a,_,ha,hw⟩
    · rw [hw]
      exact ⟨beyond_pairwise hrows,hpage⟩
    · rw [hw]
      simp
    · obtain ⟨hsorted,hlater⟩ := ih (fun rows' h' => h rows' (by simp [h'])) (some (pos a))
      rw [hw]
      have hanchor := hpage a (List.mem_of_mem_take (List.mem_of_getLast? ha))
      refine ⟨List.pairwise_append.mpr ⟨(beyond_pairwise hrows).sublist (List.take_sublist _ _),hsorted,?_⟩,?_⟩
      · intro r hr r' hr'
        exact lt_of_le_of_lt (le_anchor hrows ha hr) ((hlater r' hr').2 _ rfl)
      · intro r hr
        rcases List.mem_append.mp hr with hr | hr
        · exact hpage r (List.mem_of_mem_take hr)
        · obtain ⟨⟨rows',hrows',hmem⟩,hq⟩ := hlater r hr
          exact ⟨⟨rows',by simp [hrows'],hmem⟩,fun q hq' => (hanchor.2 q hq').trans (hq _ rfl)⟩

/-- A walk that has come to the end has visited what was there at each of its pages. -/
theorem walk_complete (hlimit : 0 < limit) {pages : List (List α)} (h : ∀ rows ∈ pages, (rows.map pos).Nodup)
    (p : Option β) (hend : (walk pos limit pages p).2 = true) (hr : ∀ rows ∈ pages, r ∈ rows) (hp : ∀ q ∈ p, q < pos r) :
    r ∈ (walk pos limit pages p).1 := by
  induction pages generalizing p with
  | nil => cases hend
  | cons rows later ih =>
    have hrows := h rows (by simp)
    have hmem : r ∈ beyond pos rows p := mem_beyond.mpr ⟨hr rows (by simp),hp⟩
    rcases walk_cons pos rows p limit later with ⟨_,hw⟩ | ⟨hnil,hw⟩ | ⟨a,_,ha,hw⟩
    · rw [hw]
      exact hmem
    · -- A page without rows has nothing beyond it.
      have hempty : beyond pos rows p = [] := by
        rcases List.take_eq_nil_iff.mp hnil with h0 | h0
        · omega
        · exact h0
      rw [hempty] at hmem
      cases hmem
    · rw [hw] at hend ⊢
      rcases split_at_anchor hrows ha hmem with hdata | hbeyond
      · exact List.mem_append.mpr (.inl hdata)
      · refine List.mem_append.mpr (.inr (ih (fun rows' h' => h rows' (by simp [h'])) _ hend (fun rows' h' => hr rows' (by simp [h'])) ?_))
        intro q hq
        cases hq
        exact hbeyond

section Images
variable {γ : Type} (f : γ → α)

theorem beyond_map (rows : List γ) (p : Option β) : beyond pos (rows.map f) p = (beyond (pos ∘ f) rows p).map f := by
  rw [beyond, List.filter_map]
  exact (List.map_insertionSort _ _ f _ fun _ _ _ _ => Iff.rfl).symm

/-- A walk looks at nothing but the positions. -/
theorem walk_map (limit : ℕ) (pages : List (List γ)) (p : Option β) :
    walk pos limit (pages.map (List.map f)) p = ((walk (pos ∘ f) limit pages p).1.map f, (walk (pos ∘ f) limit pages p).2) := by
  induction pages generalizing p with
  | nil => rfl
  | cons rows later ih =>
    simp only [List.map_cons, walk, beyond_map, List.length_map, ← List.map_take, List.getLast?_map]
    by_cases hmore : limit < (beyond (pos ∘ f) rows p).length
    · rw [if_pos hmore, if_pos hmore]
      cases ((beyond (pos ∘ f) rows p).take limit).getLast? with
      | none => rfl
      | some a => simp only [Option.map_some, ih, List.map_append, Function.comp_apply]
    · rw [if_neg hmore, if_neg hmore]

end Images

/-- What stays at its position is visited, whatever else becomes of it. -/
theorem walk_visits (hlimit : 0 < limit) {pages : List (List α)} (h : ∀ rows ∈ pages, (rows.map pos).Nodup) (p : Option β)
    (hend : (walk pos limit pages p).2 = true) {q : β} (hq : ∀ rows ∈ pages, ∃ r ∈ rows, pos r = q) (hp : ∀ q' ∈ p, q' < q) :
    ∃ r ∈ (walk pos limit pages p).1, pos r = q := by
  have hmap : walk id limit (pages.map (List.map pos)) p = ((walk pos limit pages p).1.map pos, (walk pos limit pages p).2) :=
    walk_map pos limit pages p
  have hmem : q ∈ (walk id limit (pages.map (List.map pos)) p).1 := by
    refine walk_complete hlimit ?_ p ?_ ?_ hp
    · simpa using h
    · rw [hmap]
      exact hend
    · simpa using hq
  rw [hmap] at hmem
  exact List.mem_map.mp hmem

/-- Over a collection that stays as it is, every page leaves fewer rows to visit. -/
private theorem length_beyond_anchor (h : (rows.map pos).Nodup) {a : α}
    (ha : ((beyond pos rows p).take limit).getLast? = some a) :
    (beyond pos rows (some (pos a))).length < (beyond pos rows p).length := by
  have hmem : a ∈ beyond pos rows p := List.mem_of_mem_take (List.mem_of_getLast? ha)
  have hap := (mem_beyond.mp hmem).2
  simp only [beyond, List.length_insertionSort]
  apply lt_of_lt_of_le (b := (a :: rows.filter fun r => pos a < pos r).length)
  · simp [Option.all_some]
  · have hsub : (a :: rows.filter fun r => pos a < pos r).Subperm (rows.filter fun r => p.all fun q => q < pos r) := by
      apply List.subperm_of_subset
      · refine List.nodup_cons.mpr ⟨?_,(List.Nodup.of_map pos h).filter _⟩
        simp
      · intro r hr
        rcases List.mem_cons.mp hr with rfl | hr
        · simpa [beyond] using hmem
        · obtain ⟨hr,hlt⟩ := List.mem_filter.mp hr
          simp only [decide_eq_true_eq] at hlt
          refine List.mem_filter.mpr ⟨hr,?_⟩
          rw [Option.all_eq_true]
          intro q hq
          simpa using (hap q hq).trans hlt
    exact hsub.length_le

variable (limit) in
/-- So a walk over it comes to its end. -/
theorem walk_ends (h : (rows.map pos).Nodup) {n : ℕ} (p : Option β)
    (hn : (beyond pos rows p).length < n) : (walk pos limit (List.replicate n rows) p).2 = true := by
  induction n generalizing p with
  | zero => omega
  | succ n ih =>
    rw [List.replicate_succ]
    rcases walk_cons pos rows p limit (List.replicate n rows) with
      ⟨_,hw⟩ | ⟨_,hw⟩ | ⟨a,_,ha,hw⟩
    · rw [hw]
    · rw [hw]
    · rw [hw]
      exact ih _ (by have := length_beyond_anchor h ha; omega)

end Nivara.Collections
