import Nivara.Pagination.Traversal

/-! Following `nextCursor` through whatever answers the requests, each of them in a state of its own. The rows that it
reads have dates and identifiers that can be read back; others there may be. -/
namespace Nivara.Pagination
open Text Collections

section Following
variable {S Row : Type}

/-- The rows that are visited, and whether the end was reached; `none` if a request has no page for an answer. -/
def follow (answer : S → Option Str → Option (Page Row)) : List S → Option Str → Option (List Row × Bool)
  | [], _ => some ([], false)
  | s :: later, cursor =>
    match answer s cursor with
    | none => none
    | some page =>
      match page.nextCursor with
      | none => some (page.data, true)
      | some next => (follow answer later (some next)).map fun p => (page.data ++ p.1, p.2)

end Following

section Images
variable {Row Row' κ : Type} (R : Resource Row κ) (f : Row' → Row)

def Resource.comap : Resource Row' κ where
  id r := R.id (f r)
  key := R.key
  column r := R.column (f r)

def Page.map (page : Page Row') : Page Row := ⟨page.data.map f, page.nextCursor⟩

theorem buildPage_map (rows : List Row') (limit : ℕ) (sort : Sorting) :
    buildPage R (rows.map f) limit sort = (buildPage (R.comap f) rows limit sort).map (Page.map f) := by
  have hlast (rows : List Row') : (rows.map f).getLast? = rows.getLast?.map f := List.getLast?_map ..
  by_cases hmore : limit < rows.length
  · simp only [buildPage, List.length_map, decide_eq_true hmore, if_true, ← List.map_take, hlast]
    cases (rows.take limit).getLast? with
    | none => rfl
    | some anchor =>
      simp only [Option.map_some, Resource.comap, Option.map_map]
      rfl
  · simp only [buildPage, List.length_map, decide_eq_false hmore, Bool.false_eq_true, if_false, Option.map_some, Page.map]

variable [LinearOrder κ]

private theorem comesFirst_comap (orderBy : List (Str × Direction)) (r r' : Row') :
    comesFirst (R.comap f) orderBy r r' = comesFirst R orderBy (f r) (f r') := by
  induction orderBy with
  | nil => rfl
  | cons term terms ih =>
    rw [comesFirst, comesFirst, ih]
    rfl

private theorem admits_comap (r : Row') : Seek.admits (R.comap f) r = Seek.admits R (f r) := by
  funext seek
  cases seek with
  | byId _ _ => rfl
  | past _ _ _ _ => rfl

theorem findMany_map (plan : KeysetPlan) (take : ℕ) (rows : List Row') :
    findMany R plan take (rows.map f) = (findMany (R.comap f) plan take rows).map f := by
  have hsort (rows : List Row') : (rows.map f).insertionSort (fun r r' => comesFirst R plan.orderBy r r' = true) =
      (rows.insertionSort fun r r' => comesFirst (R.comap f) plan.orderBy r r' = true).map f := by
    refine (List.map_insertionSort _ _ f _ fun a _ b _ => ?_).symm
    rw [comesFirst_comap]
  have hfilter : (rows.map f).filter (fun r => plan.where'.all (Seek.admits R r)) =
      (rows.filter fun r => plan.where'.all (Seek.admits (R.comap f) r)).map f := by
    rw [List.filter_map]
    simp only [Function.comp_def, admits_comap]
  rw [findMany, hfilter, hsort, ← List.map_take]
  rfl

end Images

/-- The rows with `good` can be paged through by their date: it and the identifier are written into a cursor and read back,
and the database accepts them. -/
structure Paged {Row κ : Type} (R : Resource Row κ) (fields : SortableFields) (sort : Sorting) (accepts : Seek → Bool)
    (good : Row → Prop) where
  date : Row → Int
  column : ∀ r, good r → ∃ h : timeClip (date r) = some (date r), R.column r sort.field = some (.date ⟨date r, h⟩)
  kind : kindOf fields sort.field = some .date
  field : sort.field ≠ units "id"
  accepted : ∀ r, good r → accepts (seekPast sort (.date (some (date r))) (R.id r)) = true

section Paging
variable {Row κ : Type} {R : Resource Row κ} {fields : SortableFields} {sort : Sorting} {accepts : Seek → Bool}
  {good : Row → Prop} (G : Paged R fields sort accepts good)

def Paged.dated : Dated (R.comap (Subtype.val : {r // good r} → Row)) fields sort where
  at' r := ⟨G.date r.1, (G.column r.1 r.2).1⟩
  column r := (G.column r.1 r.2).2
  kind := G.kind
  field := G.field

variable [LinearOrder κ]

def Paged.Before (r r' : Row) : Prop :=
  match sort.direction with
  | .asc => G.date r < G.date r' ∨ G.date r = G.date r' ∧ R.key (R.id r) < R.key (R.id r')
  | .desc => G.date r' < G.date r ∨ G.date r' = G.date r ∧ R.key (R.id r') < R.key (R.id r)

/-- The requests are answered with the pages of the rows, as long as the database accepts what it is asked. -/
structure Serves {S : Type} (R : Resource Row κ) (base64 : Base64Decoder) (host : Host) (fields : SortableFields) (sort : Sorting)
    (accepts : Seek → Bool) (limit : ℕ) (rows : S → List Row) (answer : S → Option Str → Option (Page Row)) (s : S) : Prop where
  page : ∀ cursor plan, keysetPlan base64 host sort cursor fields = .ok plan → plan.where'.all accepts = true →
    answer s cursor = buildPage R (findMany R plan (limit + 1) (rows s)) limit sort
  distinct : ((rows s).map fun r => R.key (R.id r)).Nodup

section Walks
variable {S : Type} {base64 : Base64Decoder} {host : Host} {limit : ℕ} {rows : S → List Row}
  {answer : S → Option Str → Option (Page Row)} {states : List S}

open Classical in
private noncomputable def vouched (good : Row → Prop) (rows : List Row) : List {r // good r} :=
  rows.filterMap fun r => if h : good r then some ⟨r, h⟩ else none

omit [LinearOrder κ] in
private theorem map_vouched {rows : List Row} (h : ∀ r ∈ rows, good r) : (vouched good rows).map Subtype.val = rows := by
  induction rows with
  | nil => rfl
  | cons r rows ih =>
    have hr := h r (List.mem_cons_self)
    have hrest := ih fun r' hr' => h r' (List.mem_cons_of_mem _ hr')
    simp only [vouched, List.filterMap_cons, dif_pos hr, List.map_cons] at hrest ⊢
    rw [hrest]

private theorem follow_eq_walk {β : Type} [LinearOrder β] {pos : {r // good r} → β}
    (hpos : ∀ r r', Precedes G.dated r r' ↔ pos r < pos r')
    (hs : ∀ s ∈ states, Serves R base64 host fields sort accepts limit rows answer s) (hgood : ∀ s ∈ states, ∀ r ∈ rows s, good r)
    {cursor : Option Str} {p : Option β}
    (h : (cursor = none ∧ p = none) ∨ ∃ a, cursor = some (cursorOf G.dated a) ∧ p = some (pos a)) :
    follow answer states cursor = some ((walk pos limit (states.map fun s => vouched good (rows s)) p).1.map Subtype.val,
      (walk pos limit (states.map fun s => vouched good (rows s)) p).2) := by
  induction states generalizing cursor p with
  | nil => rfl
  | cons s later ih =>
    obtain ⟨seek,hplan,haccepts,hseek⟩ : ∃ seek, keysetPlan base64 host sort cursor fields = .ok ⟨orderByFor sort, seek⟩ ∧
        seek.all accepts = true ∧ ∀ r, seek.all (Seek.admits (R.comap Subtype.val) r) = p.all fun q => q < pos r := by
      rcases h with ⟨rfl,rfl⟩ | ⟨a,rfl,rfl⟩
      · exact ⟨none,rfl,rfl,fun _ => rfl⟩
      · refine ⟨_,keysetPlan_cursorOf a,G.accepted a.1 a.2,fun r => ?_⟩
        rw [Option.all_some, Option.all_some, Bool.eq_iff_iff, admits_iff_precedes G.dated, hpos, decide_eq_true_iff]
    have hpage := (hs s List.mem_cons_self).page cursor _ hplan haccepts
    rw [← map_vouched (hgood s List.mem_cons_self), findMany_map, buildPage_map, findMany_eq hpos (limit + 1) _ hseek,
      buildPage_take (D := G.dated), Option.map_some] at hpage
    rw [follow, hpage, List.map_cons, walk]
    have hlater := fun s' h' => hs s' (List.mem_cons_of_mem s h')
    have hkept := fun s' h' => hgood s' (List.mem_cons_of_mem s h')
    cases hlast : if limit < (beyond pos (vouched good (rows s)) p).length then
        ((beyond pos (vouched good (rows s)) p).take limit).getLast? else none with
    | none => rfl
    | some a =>
      dsimp only [Page.map]
      rw [ih hlater hkept (.inr ⟨a,rfl,rfl⟩), Option.map_some, List.map_append]

/-- Rows are at one position when their dates and identifiers are the same. -/
private theorem level_iff {β : Type} [LinearOrder β] {pos : {r // good r} → β} (hpos : ∀ r r', Precedes G.dated r r' ↔ pos r < pos r')
    (hkey : ∀ r r', pos r = pos r' → R.key (R.id r.1) = R.key (R.id r'.1)) (r r' : {r // good r}) :
    pos r = pos r' ↔ G.date r.1 = G.date r'.1 ∧ R.key (R.id r.1) = R.key (R.id r'.1) := by
  constructor
  · intro h
    refine ⟨?_,hkey r r' h⟩
    have hnot : ¬ G.Before r.1 r'.1 := fun hlt => ((hpos r r').mp hlt).ne h
    have hnot' : ¬ G.Before r'.1 r.1 := fun hlt => ((hpos r' r).mp hlt).ne' h
    unfold Paged.Before at hnot hnot'
    cases hd : sort.direction <;> simp only [hd, not_or] at hnot hnot' <;> omega
  · rintro ⟨hdate,hid⟩
    have hnot (a c : {r // good r}) (hd : G.date a.1 = G.date c.1) (hk : R.key (R.id a.1) = R.key (R.id c.1)) : ¬ pos a < pos c := by
      intro hlt
      have hbefore : G.Before a.1 c.1 := (hpos a c).mpr hlt
      unfold Paged.Before at hbefore
      cases hdir : sort.direction <;> simp [hdir, hd, hk] at hbefore
    exact le_antisymm (not_lt.mp (hnot r' r hdate.symm hid.symm)) (not_lt.mp (hnot r r' hdate hid))

omit [LinearOrder κ] in
private theorem nodup_vouched {rows : List Row} (hkept : ∀ r ∈ rows, good r) (h : (rows.map fun r => R.key (R.id r)).Nodup)
    {β : Type} {pos : {r // good r} → β} (hkey : ∀ r r', pos r = pos r' → R.key (R.id r.1) = R.key (R.id r'.1)) :
    ((vouched good rows).map pos).Nodup := by
  rw [← map_vouched hkept, List.map_map, List.Nodup, List.pairwise_map] at h
  rw [List.Nodup, List.pairwise_map]
  exact h.imp fun hne heq => hne (hkey _ _ heq)

omit [LinearOrder κ] in
private theorem mem_vouched {rows : List Row} (hkept : ∀ r ∈ rows, good r) {r : {r // good r}} : r ∈ vouched good rows ↔ r.1 ∈ rows := by
  have hmap := map_vouched hkept
  constructor
  · intro hr
    rw [← hmap]
    exact List.mem_map_of_mem hr
  · intro hr
    rw [← hmap] at hr
    obtain ⟨r',hr',heq⟩ := List.mem_map.mp hr
    rwa [Subtype.ext heq] at hr'

/-- What follows the cursors, over states that may be any: in order, and nothing but rows that were there. When it has come to
the end, it has visited whatever was at its date at every request. -/
theorem follow_pages (hlimit : 1 ≤ limit)
    (hs : ∀ s ∈ states, Serves R base64 host fields sort accepts limit rows answer s) (hgood : ∀ s ∈ states, ∀ r ∈ rows s, good r) :
    ∃ visited ended, follow answer states none = some (visited, ended) ∧ visited.Pairwise G.Before ∧
      (∀ r ∈ visited, ∃ s ∈ states, r ∈ rows s) ∧
      (ended = true → ∀ date key, (∀ s ∈ states, ∃ r ∈ rows s, G.date r = date ∧ R.key (R.id r) = key) →
        ∃ r ∈ visited, G.date r = date ∧ R.key (R.id r) = key) := by
  obtain ⟨β,_,pos,hpos,hkey⟩ := exists_position G.dated
  have hnodup : ∀ page ∈ states.map (fun s => vouched good (rows s)), (page.map pos).Nodup := by
    intro page hpage
    obtain ⟨s,hmem,rfl⟩ := List.mem_map.mp hpage
    exact nodup_vouched (hgood s hmem) (hs s hmem).distinct hkey
  obtain ⟨hsorted,hwhere⟩ := walk_pairwise limit hnodup none
  refine ⟨_,_,follow_eq_walk G hpos hs hgood (.inl ⟨rfl,rfl⟩),?_,?_,?_⟩
  · rw [List.pairwise_map]
    exact hsorted.imp fun hlt => (hpos _ _).mpr hlt
  · intro r hr
    obtain ⟨r',hr',rfl⟩ := List.mem_map.mp hr
    obtain ⟨⟨page,hpage,hmem⟩,_⟩ := hwhere r' hr'
    obtain ⟨s,hs',rfl⟩ := List.mem_map.mp hpage
    exact ⟨s,hs',(mem_vouched (hgood s hs')).mp hmem⟩
  · intro hend date key hstay
    have hplace {s : S} (hmem : s ∈ states) : ∃ r ∈ vouched good (rows s), G.date r.1 = date ∧ R.key (R.id r.1) = key := by
      obtain ⟨r,hr,hat⟩ := hstay s hmem
      exact ⟨⟨r,hgood s hmem r hr⟩,(mem_vouched (hgood s hmem)).mpr hr,hat⟩
    cases states with
    | nil => cases hend
    | cons s later =>
      obtain ⟨a,_,hda,hka⟩ := hplace List.mem_cons_self
      have hq : ∀ page ∈ (s :: later).map (fun s => vouched good (rows s)), ∃ r ∈ page, pos r = pos a := by
        intro page hpage
        obtain ⟨s',hs',rfl⟩ := List.mem_map.mp hpage
        obtain ⟨r,hr,hd,hk⟩ := hplace hs'
        exact ⟨r,hr,(level_iff G hpos hkey r a).mpr ⟨hd.trans hda.symm,hk.trans hka.symm⟩⟩
      obtain ⟨r,hr,hra⟩ := walk_visits hlimit hnodup none hend hq fun q hq => by cases hq
      obtain ⟨hd,hk⟩ := (level_iff G hpos hkey r a).mp hra
      exact ⟨r.1,List.mem_map_of_mem hr,hd.trans hda,hk.trans hka⟩

include G in
/-- Over rows that stay as they are, what follows the cursors comes to the end and visits each of them once. -/
theorem follow_still (hlimit : 1 ≤ limit) (hs : ∀ s ∈ states, Serves R base64 host fields sort accepts limit rows answer s)
    {still : List Row} (hstill : ∀ s ∈ states, rows s = still) (hgood : ∀ r ∈ still, good r)
    (hn : still.length < states.length) :
    ∃ visited, follow answer states none = some (visited, true) ∧ visited.Perm still := by
  obtain ⟨β,_,pos,hpos,hkey⟩ := exists_position G.dated
  have hnodup : ((vouched good still).map pos).Nodup := by
    obtain ⟨s,hmem⟩ := List.exists_mem_of_length_pos (Nat.zero_lt_of_lt hn)
    exact nodup_vouched hgood (hstill s hmem ▸ (hs s hmem).distinct) hkey
  have hpages : ∀ page ∈ List.replicate states.length (vouched good still), (page.map pos).Nodup := fun page hpage =>
    List.eq_of_mem_replicate hpage ▸ hnodup
  have hfollow := follow_eq_walk G hpos hs (fun s h' => (hstill s h').symm ▸ hgood) (.inl ⟨rfl,rfl⟩)
  have hstates : states.map (fun s => vouched good (rows s)) = List.replicate states.length (vouched good still) := by
    rw [← List.map_const']
    exact List.map_congr_left fun s h' => congrArg (vouched good) (hstill s h')
  rw [hstates] at hfollow
  have hlength : (beyond pos (vouched good still) none).length < states.length := by
    have hall : (vouched good still).length = still.length := by
      have hmap := congrArg List.length (map_vouched hgood)
      rwa [List.length_map] at hmap
    simp only [beyond, List.length_insertionSort]
    exact lt_of_le_of_lt (List.length_filter_le _ _) (hall ▸ hn)
  have hend := walk_ends limit hnodup none hlength
  obtain ⟨hsorted,hwhere⟩ := walk_pairwise limit hpages none
  have hperm : (walk pos limit (List.replicate states.length (vouched good still)) none).1.Perm (vouched good still) := by
    refine (List.perm_ext_iff_of_nodup ?_ (List.Nodup.of_map pos hnodup)).mpr fun r => ⟨fun hr => ?_,fun hr => ?_⟩
    · exact hsorted.imp fun hlt heq => hlt.ne (congrArg pos heq)
    · obtain ⟨⟨page,hpage,hmem⟩,_⟩ := hwhere r hr
      exact List.eq_of_mem_replicate hpage ▸ hmem
    · exact walk_complete hlimit hpages none hend (fun page hpage => (List.eq_of_mem_replicate hpage).symm ▸ hr) fun q hq => by cases hq
  exact ⟨_,hend ▸ hfollow,(hperm.map Subtype.val).trans (.of_eq (map_vouched hgood))⟩

end Walks
end Paging
end Nivara.Pagination
