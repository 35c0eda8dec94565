import Nivara.Pagination.Keyset

/-! What a query can fail on of a cursor that passes every check. The checks are of the payload's
shape: neither that its value is a date the column can hold nor that its id is a uuid is among them. -/
namespace Nivara.Pagination
open Text

def isHexUnit (c : CodeUnit) : Bool := (hexValue c).isSome

def isUuidText (s : Str) : Bool :=
  match List.splitOn (unit '-') s with
  | [a, b, c, d, e] =>
    a.length = 8 && b.length = 4 && c.length = 4 && d.length = 4 && e.length = 12 &&
      [a, b, c, d, e].all fun group => group.all isHexUnit
  | _ => false

/-- The instants that a `timestamptz` holds, from the 24th of November 4714 BC on. -/
def inColumn (t : Int) : Bool := -210866803200000 ≤ t && t < 9224318016000000

/-- Nothing in the plan makes its query fail: it seeks a date of the column, and a uuid. -/
def KeysetPlan.Sound (plan : KeysetPlan) : Prop :=
  ∃ field operator t anchorId, plan.where' = some (.past field operator (.date (some t)) anchorId) ∧
    inColumn t = true ∧ isUuidText anchorId = true

def BlamesClient (outcome : Except AppException KeysetPlan) : Prop :=
  (∃ e, outcome = .error e ∧ e.code = .invalidCursor) ∨ ∃ plan, outcome = .ok plan ∧ plan.Sound

def CursorPosition.Sound (host : Host) (p : CursorPosition) : Prop :=
  (∃ t, newDate host p.value = some t ∧ inColumn t = true) ∧ isUuidText p.id = true

private theorem sortable_of_parseSort {raw : Option Str} {sort : Sorting}
    (h : parseSort raw (sortableFieldNames ticketSortable) = .ok sort) :
    kindOf ticketSortable sort.field = some .date ∧ sort.field ≠ units "id" := by
  have hmem : sort.field ∈ sortableFieldNames ticketSortable := by
    cases raw with
    | none =>
      cases h
      decide
    | some raw =>
      simp only [parseSort] at h
      split at h
      · rename_i hallowed
        cases h
        exact List.contains_iff_mem.mp hallowed
      · cases h
  simp only [sortableFieldNames, ticketSortable, List.map_cons, List.map_nil, List.mem_cons, List.not_mem_nil, or_false] at hmem
  rcases hmem with hf | hf
  · rw [hf]
    decide
  · rw [hf]
    decide

private theorem code_of_decodeCursor {base64 : Base64Decoder} {cursor : Str} {e : AppException}
    (h : decodeCursor base64 cursor = .error e) : e.code = .invalidCursor := by
  unfold decodeCursor at h
  split at h
  · cases h
  · cases h
    rfl

private theorem keysetPlan_of_payload (base64 : Base64Decoder) (host : Host) {raw : Option Str} {sort : Sorting}
    (hsort : parseSort raw (sortableFieldNames ticketSortable) = .ok sort) {cursor : Str} {p : CursorPosition}
    (hdecode : decodeCursor base64 cursor = .ok p) (hmatch : p.sort = sort) :
    ∃ operator, keysetPlan base64 host sort (some cursor) ticketSortable =
      .ok ⟨orderByFor sort, some (.past sort.field operator (.date (newDate host p.value)) p.id)⟩ := by
  obtain ⟨hkind,hfield⟩ := sortable_of_parseSort hsort
  have hassert : assertCursorMatchesSort p sort = .ok () := by simp [assertCursorMatchesSort, hmatch]
  rw [keysetPlan, hdecode]
  dsimp only [bind, Except.bind]
  rw [hassert]
  dsimp only
  rw [hmatch, hkind]
  simp only [seekPast, if_neg hfield, decodeValue]
  exact ⟨_,rfl⟩

private theorem refused_of_payload (base64 : Base64Decoder) (host : Host) {sort : Sorting} {cursor : Str}
    (h : ∀ p, decodeCursor base64 cursor = .ok p → p.sort ≠ sort) :
    ∃ e, keysetPlan base64 host sort (some cursor) ticketSortable = .error e ∧ e.code = .invalidCursor := by
  rw [keysetPlan]
  cases hdecode : decodeCursor base64 cursor with
  | error e => exact ⟨e,rfl,code_of_decodeCursor hdecode⟩
  | ok p =>
    have hdiffers : p.sort.field ≠ sort.field ∨ p.sort.direction ≠ sort.direction := by
      by_contra hn
      obtain ⟨hf,hd⟩ := not_or.mp hn
      apply h p hdecode
      cases hs : p.sort
      rw [hs] at hf hd
      cases sort
      cases not_not.mp hf
      cases not_not.mp hd
      rfl
    dsimp only [bind, Except.bind]
    rw [assertCursorMatchesSort, if_pos hdiffers]
    exact ⟨_,rfl,rfl⟩

/-- Under a sort of the Ticket list, a cursor is the client's error or harmless iff the payload it
carries for that sort, if any, names a date of the column and a uuid. -/
theorem cursor_blamesClient_iff (base64 : Base64Decoder) (host : Host) (raw : Option Str) {sort : Sorting}
    (hsort : parseSort raw (sortableFieldNames ticketSortable) = .ok sort) (cursor : Str) :
    BlamesClient (keysetPlan base64 host sort (some cursor) ticketSortable) ↔
      ∀ p, decodeCursor base64 cursor = .ok p → p.sort = sort → p.Sound host := by
  constructor
  · rintro (⟨e,he,_⟩ | ⟨plan,hplan,field,operator,t,anchorId,hwhere,ht,hid⟩) p hp hmatch
    · obtain ⟨operator,hok⟩ := keysetPlan_of_payload base64 host hsort hp hmatch
      rw [hok] at he
      cases he
    · obtain ⟨operator',hok⟩ := keysetPlan_of_payload base64 host hsort hp hmatch
      rw [hok] at hplan
      cases hplan
      simp only [Option.some.injEq, Seek.past.injEq, SeekValue.date.injEq] at hwhere
      obtain ⟨_,_,hdate,rfl⟩ := hwhere
      exact ⟨⟨t,hdate,ht⟩,hid⟩
  · intro h
    by_cases hpayload : ∃ p, decodeCursor base64 cursor = .ok p ∧ p.sort = sort
    · obtain ⟨p,hp,hmatch⟩ := hpayload
      obtain ⟨operator,hok⟩ := keysetPlan_of_payload base64 host hsort hp hmatch
      obtain ⟨⟨t,hdate,ht⟩,hid⟩ := h p hp hmatch
      rw [hdate] at hok
      exact .inr ⟨_,hok,_,operator,t,_,rfl,ht,hid⟩
    · exact .inl (refused_of_payload base64 host fun p hp hmatch => hpayload ⟨p,hp,hmatch⟩)

private def forged : CursorPosition := ⟨defaultSort, .text (units "2026-07-23T09:30:00.123Z"), units "nobody"⟩

theorem forged_cursor_passes : ¬ ∀ (base64 : Base64Decoder) (host : Host) (raw : Option Str) (sort : Sorting) (cursor : Str),
    parseSort raw (sortableFieldNames ticketSortable) = .ok sort →
    BlamesClient (keysetPlan base64 host sort (some cursor) ticketSortable) := by
  intro h
  have hdecode := decodeCursor_encodeCursor forgiving (p := forged) trivial
  have hsort : parseSort none (sortableFieldNames ticketSortable) = .ok defaultSort := rfl
  obtain ⟨operator,hok⟩ := keysetPlan_of_payload forgiving ⟨id, fun _ => none⟩ hsort hdecode rfl
  rcases h forgiving ⟨id, fun _ => none⟩ none defaultSort (encodeCursor forged) hsort with
    ⟨e,he,_⟩ | ⟨plan,hplan,_,_,_,anchorId,hwhere,_,hid⟩
  · rw [hok] at he
    cases he
  · rw [hok] at hplan
    cases hplan
    simp only [Option.some.injEq, Seek.past.injEq] at hwhere
    rw [← hwhere.2.2.2] at hid
    exact absurd hid (by decide)

private def honest : CursorPosition :=
  ⟨defaultSort, .text (units "2026-07-23T09:30:00.123Z"), units "0198352c-1f00-7000-8000-00000000a001"⟩

theorem honest_cursor_harmless : BlamesClient (keysetPlan forgiving ⟨id, fun _ => none⟩ defaultSort
    (some (encodeCursor honest)) ticketSortable) := by
  have hdecode := decodeCursor_encodeCursor forgiving (p := honest) trivial
  refine (cursor_blamesClient_iff forgiving ⟨id, fun _ => none⟩ none rfl _).mpr fun p hp _ => ?_
  rw [hdecode] at hp
  cases hp
  exact ⟨⟨1784799000123,by decide,by decide⟩,by decide⟩

end Nivara.Pagination
