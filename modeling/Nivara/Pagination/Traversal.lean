import Mathlib.Data.Prod.Lex
import Nivara.Collections.Paging
import Nivara.Pagination.Keyset

/-! Following `nextCursor` from the first page on. A page begins where the cursor says the one before
has ended, so the traversal is a walk through the rows in the order of sort field and id. -/
namespace Nivara.Pagination
open Text Collections

variable {Row κ : Type} [LinearOrder κ]

section Traversal
variable (R : Resource Row κ) (base64 : Base64Decoder) (host : Host) (fields : SortableFields) (sort : Sorting) (limit : ℕ)

/-- The rows visited and whether the end was reached; `pages` are the rows there are at each request.
`none` if a request throws. -/
def traverse : List (List Row) → Option Str → Option (List Row × Bool)
  | [], _ => some ([], false)
  | rows :: later, cursor =>
    match list R base64 host fields sort limit rows cursor with
    | .ok (some page) =>
      match page.nextCursor with
      | none => some (page.data, true)
      | some next => (traverse later (some next)).map fun p => (page.data ++ p.1, p.2)
    | _ => none

end Traversal

/-- The sort field of a resource is a date on every row. -/
structure Dated (R : Resource Row κ) (fields : SortableFields) (sort : Sorting) where
  at' : Row → Instant
  column : ∀ r, R.column r sort.field = some (.date (at' r))
  kind : kindOf fields sort.field = some .date
  field : sort.field ≠ units "id"

section Order
variable {R : Resource Row κ} {fields : SortableFields} {sort : Sorting} (D : Dated R fields sort)

def Precedes (r r' : Row) : Prop :=
  match sort.direction with
  | .asc => (D.at' r).1 < (D.at' r').1 ∨ (D.at' r).1 = (D.at' r').1 ∧ R.key (R.id r) < R.key (R.id r')
  | .desc => (D.at' r').1 < (D.at' r).1 ∨ (D.at' r').1 = (D.at' r).1 ∧ R.key (R.id r') < R.key (R.id r)

def cursorOf (r : Row) : Str := encodeCursor ⟨sort, .text (toISOString (D.at' r)), R.id r⟩

theorem admits_iff_precedes (a r : Row) :
    (seekPast sort (.date (some (D.at' a).1)) (R.id a)).admits R r = true ↔ Precedes D a r := by
  unfold seekPast Precedes
  rw [if_neg D.field]
  cases sort.direction with
  | asc =>
    have hsymm : (D.at' r).1 = (D.at' a).1 ↔ (D.at' a).1 = (D.at' r).1 := eq_comm
    simp [Seek.admits, D.column, Operator.holds, hsymm]
  | desc => simp [Seek.admits, D.column, Operator.holds]

theorem comesFirst_iff (r r' : Row) : comesFirst R (orderByFor sort) r r' = true ↔ ¬ Precedes D r' r := by
  have hdate : compareColumn R sort.field r r' = compare (D.at' r).1 (D.at' r').1 := by
    simp [compareColumn, D.field, D.column]
  have hid : compareColumn R (units "id") r r' = compare (R.key (R.id r)) (R.key (R.id r')) := if_pos rfl
  simp only [orderByFor, if_neg D.field, comesFirst, hdate, hid, Precedes]
  rcases lt_trichotomy (D.at' r).1 (D.at' r').1 with hd | hd | hd
  · cases sort.direction <;> simp [compare_lt_iff_lt.mpr hd, hd, hd.not_gt, hd.ne, hd.ne']
  · rcases lt_trichotomy (R.key (R.id r)) (R.key (R.id r')) with hk | hk | hk
    · cases sort.direction <;> simp [compare_lt_iff_lt.mpr hk, hd, hk, hk.not_gt]
    · cases sort.direction <;> simp [hd, hk]
    · cases sort.direction <;> simp [compare_gt_iff_gt.mpr hk, hd, hk, hk.not_gt]
  · cases sort.direction <;> simp [compare_gt_iff_gt.mpr hd, hd, hd.not_gt, hd.ne, hd.ne']

end Order

section Refinement
variable {R : Resource Row κ} {fields : SortableFields} {sort : Sorting} {D : Dated R fields sort} {base64 : Base64Decoder}
  {host : Host} {limit : ℕ} {β : Type} [LinearOrder β] {pos : Row → β} (hpos : ∀ r r', Precedes D r r' ↔ pos r < pos r')
include hpos

/-- The plan a request is given: from the start, or past the row the cursor names. -/
theorem findMany_eq {seek : Option Seek} {p : Option β} (n : ℕ) (rows : List Row)
    (hseek : ∀ r, seek.all (Seek.admits R r) = p.all fun q => q < pos r) :
    findMany R ⟨orderByFor sort, seek⟩ n rows = (beyond pos rows p).take n := by
  have horder : (fun r r' => comesFirst R (orderByFor sort) r r' = true) = fun r r' => pos r ≤ pos r' := by
    funext r r'
    rw [eq_iff_iff, comesFirst_iff D, hpos, not_lt]
  simp only [findMany, beyond, hseek]
  congr! 2

omit hpos [LinearOrder κ] in
theorem keysetPlan_cursorOf (a : Row) : keysetPlan base64 host sort (some (cursorOf D a)) fields =
    .ok ⟨orderByFor sort, some (seekPast sort (.date (some (D.at' a).1)) (R.id a))⟩ := by
  have hdate : newDate host (.text (toISOString (D.at' a))) = some (D.at' a).1 := dateParse_toISOString host (D.at' a).2
  have hmatch : assertCursorMatchesSort ⟨sort, .text (toISOString (D.at' a)), R.id a⟩ sort = .ok () := by
    simp [assertCursorMatchesSort]
  have hdecode : decodeCursor base64 (cursorOf D a) = .ok ⟨sort, .text (toISOString (D.at' a)), R.id a⟩ :=
    decodeCursor_encodeCursor base64 (p := ⟨sort, .text (toISOString (D.at' a)), R.id a⟩) trivial
  rw [keysetPlan, hdecode]
  dsimp only [bind, Except.bind]
  rw [hmatch]
  dsimp only
  rw [D.kind]
  dsimp only
  rw [decodeValue, hdate]

omit hpos [LinearOrder κ] in
/-- The page of the rows that were found, of which there is one more than fits. -/
theorem buildPage_take (found : List Row) :
    buildPage R (found.take (limit + 1)) limit sort = some (match if limit < found.length then (found.take limit).getLast? else none with
      | none => ⟨found.take limit, none⟩
      | some a => ⟨found.take limit, some (cursorOf D a)⟩) := by
  have hlength : limit < (found.take (limit + 1)).length ↔ limit < found.length := by
    rw [List.length_take]
    omega
  by_cases hmore : limit < found.length
  · have htake : (found.take (limit + 1)).take limit = found.take limit := by
      rw [List.take_take, Nat.min_eq_left (Nat.le_succ limit)]
    simp only [buildPage, decide_eq_true_eq, hlength, if_pos hmore, htake]
    cases (found.take limit).getLast? with
    | none => rfl
    | some a => simp only [D.column, sortValueOf, Option.map_some, cursorOf]
  · have htake : found.take (limit + 1) = found.take limit := by
      rw [List.take_of_length_le (by omega), List.take_of_length_le (by omega)]
    have hfew : decide (limit < (found.take limit).length) = false := by
      rw [List.length_take]
      exact decide_eq_false (by omega)
    simp only [buildPage, hfew, if_neg hmore, htake, Bool.false_eq_true, if_false]

/-- The traversal is the walk: a cursor stands for the position of the row it names. -/
private theorem traverse_eq_walk (pages : List (List Row)) {cursor : Option Str} {p : Option β}
    (h : (cursor = none ∧ p = none) ∨ ∃ a, cursor = some (cursorOf D a) ∧ p = some (pos a)) :
    traverse R base64 host fields sort limit pages cursor = some (walk pos limit pages p) := by
  induction pages generalizing cursor p with
  | nil => rfl
  | cons rows later ih =>
    obtain ⟨seek,hplan,hseek⟩ : ∃ seek, keysetPlan base64 host sort cursor fields = .ok ⟨orderByFor sort, seek⟩ ∧
        ∀ r, seek.all (Seek.admits R r) = p.all fun q => q < pos r := by
      rcases h with ⟨rfl,rfl⟩ | ⟨a,rfl,rfl⟩
      · exact ⟨none,rfl,fun _ => rfl⟩
      · refine ⟨_,keysetPlan_cursorOf a,fun r => ?_⟩
        rw [Option.all_some, Option.all_some, Bool.eq_iff_iff, admits_iff_precedes D, hpos, decide_eq_true_iff]
    have hlist : list R base64 host fields sort limit rows cursor =
        .ok (buildPage R ((beyond pos rows p).take (limit + 1)) limit sort) := by
      rw [list, hplan]
      dsimp only [bind, Except.bind]
      rw [findMany_eq hpos (limit + 1) rows hseek]
    rw [traverse, hlist, buildPage_take (D := D), walk]
    cases hnext : if limit < (beyond pos rows p).length then ((beyond pos rows p).take limit).getLast? else none with
    | none => rfl
    | some a =>
      dsimp only
      rw [ih (.inr ⟨a,rfl,rfl⟩), Option.map_some]

end Refinement

section Positions
variable {R : Resource Row κ} {fields : SortableFields} {sort : Sorting} (D : Dated R fields sort)

/-- There is a line on which the order of the sort is the order of positions, and on which rows with
different ids are apart. -/
theorem exists_position : ∃ (β : Type) (_ : LinearOrder β) (pos : Row → β),
    (∀ r r', Precedes D r r' ↔ pos r < pos r') ∧ ∀ r r', pos r = pos r' → R.key (R.id r) = R.key (R.id r') := by
  cases hd : sort.direction with
  | asc =>
    refine ⟨ℤ ×ₗ κ,inferInstance,fun r => toLex ((D.at' r).1, R.key (R.id r)),fun r r' => ?_,fun r r' h => ?_⟩
    · simp only [Precedes, hd, Prod.Lex.toLex_lt_toLex]
    · exact (Prod.mk.inj (toLex_inj.mp h)).2
  | desc =>
    refine ⟨(ℤ ×ₗ κ)ᵒᵈ,inferInstance,fun r => OrderDual.toDual (toLex ((D.at' r).1, R.key (R.id r))),fun r r' => ?_,
      fun r r' h => ?_⟩
    · simp only [Precedes, hd, OrderDual.toDual_lt_toDual, Prod.Lex.toLex_lt_toLex]
    · exact (Prod.mk.inj (toLex_inj.mp (OrderDual.toDual_inj.mp h))).2

/-- A traversal of rows that stay as they are ends, and visits each of them once, in order. When
they change between the requests it is still in order, and if it has ended, it has visited every row
that was there all the time. A cursor gives back the position it was made of, and an instant
survives being written into it. -/
theorem traversal_visits_each_once (base64 : Base64Decoder) (host : Host) {limit : ℕ} (hlimit : 1 ≤ limit) :
    (∀ rows : List Row, (rows.map fun r => R.key (R.id r)).Nodup →
      ∃ visited, traverse R base64 host fields sort limit (List.replicate (rows.length + 1) rows) none =
        some (visited, true) ∧ visited.Perm rows ∧ visited.Pairwise (Precedes D)) ∧
    (∀ pages : List (List Row), (∀ rows ∈ pages, (rows.map fun r => R.key (R.id r)).Nodup) →
      ∃ visited ended, traverse R base64 host fields sort limit pages none = some (visited, ended) ∧
        visited.Nodup ∧ visited.Pairwise (Precedes D) ∧
          (ended = true → ∀ r, (∀ rows ∈ pages, r ∈ rows) → r ∈ visited)) ∧
    (∀ p : CursorPosition, p.value.Finite → decodeCursor base64 (encodeCursor p) = .ok p) ∧
    ∀ t : Instant, newDate host (.text (toISOString t)) = some t.1 := by
  obtain ⟨β,_,pos,hpos,hkey⟩ := exists_position D
  have hdistinct {rows : List Row} (h : (rows.map fun r => R.key (R.id r)).Nodup) : (rows.map pos).Nodup := by
    rw [List.Nodup, List.pairwise_map] at h ⊢
    exact h.imp fun hne heq => hne (hkey _ _ heq)
  have hprecedes {visited : List Row} (h : visited.Pairwise fun r r' => pos r < pos r') : visited.Pairwise (Precedes D) :=
    h.imp fun hlt => (hpos _ _).mpr hlt
  have hnodup {visited : List Row} (h : visited.Pairwise fun r r' => pos r < pos r') : visited.Nodup :=
    h.imp fun hlt heq => hlt.ne (congrArg pos heq)
  refine ⟨fun rows hrows => ?_,fun pages hpages => ?_,fun p hp => decodeCursor_encodeCursor base64 hp,
    fun t => dateParse_toISOString host t.2⟩
  · have hall : ∀ rows' ∈ List.replicate (rows.length + 1) rows, (rows'.map pos).Nodup := by
      intro rows' h'
      rw [List.eq_of_mem_replicate h']
      exact hdistinct hrows
    have hlength : (beyond pos rows none).length < rows.length + 1 := by
      simp only [beyond, List.length_insertionSort]
      exact Nat.lt_succ_of_le (List.length_filter_le _ _)
    have hend := walk_ends limit (hdistinct hrows) none hlength
    obtain ⟨hsorted,hmem⟩ := walk_pairwise limit hall none
    refine ⟨(walk pos limit (List.replicate (rows.length + 1) rows) none).1,?_,?_,hprecedes hsorted⟩
    · rw [traverse_eq_walk hpos _ (.inl ⟨rfl,rfl⟩), ← hend]
    · rw [List.perm_ext_iff_of_nodup (hnodup hsorted) (List.Nodup.of_map _ hrows)]
      intro r
      constructor
      · intro hr
        obtain ⟨⟨rows',h',hr⟩,_⟩ := hmem r hr
        rwa [List.eq_of_mem_replicate h'] at hr
      · intro hr
        refine walk_complete hlimit hall none hend (fun rows' h' => ?_) (fun q hq => by cases hq)
        rwa [List.eq_of_mem_replicate h']
  · have hall : ∀ rows ∈ pages, (rows.map pos).Nodup := fun rows h => hdistinct (hpages rows h)
    obtain ⟨hsorted,_⟩ := walk_pairwise limit hall none
    refine ⟨(walk pos limit pages none).1,(walk pos limit pages none).2,traverse_eq_walk hpos _ (.inl ⟨rfl,rfl⟩),
      hnodup hsorted,hprecedes hsorted,fun hend r hr => ?_⟩
    exact walk_complete hlimit hall none hend hr fun q hq => by cases hq

end Positions

private def stamped : Resource (Str × Instant) (List ℕ) where
  id r := r.1
  key s := s.map fun c => c.toNat
  column r field := if field = units "createdAt" then some (.date r.2) else none

private def stampedDated : Dated stamped ticketSortable defaultSort where
  at' r := r.2
  column _ := rfl
  kind := by decide
  field := by decide

private def plainHost : Host := ⟨id, fun _ => none⟩

private def tied : List (Str × Instant) :=
  [(units "a", ⟨1784799000123, by decide⟩), (units "b", ⟨1784799000123, by decide⟩), (units "c", ⟨5, by decide⟩)]

theorem traversal_of_tied : ∃ visited,
    traverse stamped forgiving plainHost ticketSortable defaultSort 1 (List.replicate 4 tied) none = some (visited, true) ∧
      visited.Perm tied :=
  have h := (traversal_visits_each_once stampedDated forgiving plainHost (le_refl 1)).1 tied (by decide)
  ⟨h.choose,h.choose_spec.1,h.choose_spec.2.1⟩

end Nivara.Pagination
