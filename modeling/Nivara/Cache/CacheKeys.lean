import Nivara.Idempotency.Scope
import Nivara.Text.Glob
import Nivara.Text.Json

/-! The grammar of the cache's keys, from `cache/cache-keys.ts`: the tenant stands to the left of what a caller
supplies, and no segment can pass for two. -/
namespace Nivara.Cache
open Text Idempotency

def cachePrefix : Str := units "cache"

structure InvalidCacheSegmentError where
  part : String
  value : Str
  deriving DecidableEq

def InvalidCacheSegmentError.message (e : InvalidCacheSegmentError) : Str :=
  units "Cache " ++ units e.part ++ units " " ++ quote e.value ++ units " is not usable in a key: " ++
    units "segments must be non-empty and free of \":\" and glob metacharacters."

def forbidden (c : CodeUnit) : Bool :=
  c == unit ':' || c == unit '*' || c == unit '?' || c == unit '[' || c == unit ']' || c == unit '\\'

def checkSegment (part : String) (value : Str) : Except InvalidCacheSegmentError Str :=
  if value.isEmpty || value.any forbidden then .error ⟨part, value⟩ else .ok value

def cacheKey (tenantId : Id) (ns id : Str) : Except InvalidCacheSegmentError Str := do
  let ns ← checkSegment "namespace" ns
  let id ← checkSegment "id" id
  return cachePrefix ++ units ":" ++ units tenantId.text ++ units ":" ++ ns ++ units ":" ++ id

def namespacePrefix (tenantId : Id) (ns : Str) : Except InvalidCacheSegmentError Str := do
  let ns ← checkSegment "namespace" ns
  return cachePrefix ++ units ":" ++ units tenantId.text ++ units ":" ++ ns ++ units ":"

def Segment (value : Str) : Prop := value ≠ [] ∧ ∀ c ∈ value, forbidden c = false

instance (value : Str) : Decidable (Segment value) :=
  @instDecidableAnd _ _ _ (List.decidableBAll (fun c => forbidden c = false) value)

section Segments
variable {part : String} {value k : Str} {tenantId tenantId' : Id} {ns ns' id id' : Str}

theorem checkSegment_of_segment (h : Segment value) : checkSegment part value = .ok value := by
  rw [checkSegment, if_neg]
  simp only [Bool.or_eq_true, List.isEmpty_iff, List.any_eq_true, not_or]
  refine ⟨h.1,?_⟩
  rintro ⟨c,hc,hforbidden⟩
  rw [h.2 c hc] at hforbidden
  cases hforbidden

theorem checkSegment_of_not_segment (h : ¬ Segment value) : checkSegment part value = .error ⟨part,value⟩ := by
  rw [checkSegment, if_pos]
  by_contra hfine
  simp only [Bool.or_eq_true, List.isEmpty_iff, not_or] at hfine
  apply h
  refine ⟨hfine.1,fun c hc => ?_⟩
  by_contra hc'
  exact hfine.2 (List.any_eq_true.mpr ⟨c,hc,by simpa using hc'⟩)

/-- A segment passes exactly when it is well formed, and as it is. -/
theorem checkSegment_eq_ok {out : Str} : checkSegment part value = .ok out ↔ Segment value ∧ out = value := by
  by_cases h : Segment value
  · rw [checkSegment_of_segment h]
    constructor
    · intro heq
      exact ⟨h,(Except.ok.inj heq).symm⟩
    · rintro ⟨_,rfl⟩
      rfl
  · rw [checkSegment_of_not_segment h]
    constructor
    · intro heq
      cases heq
    · intro heq
      exact absurd heq.1 h

theorem namespacePrefix_eq_ok : namespacePrefix tenantId ns = .ok k ↔
    Segment ns ∧ k = cachePrefix ++ units ":" ++ units tenantId.text ++ units ":" ++ ns ++ units ":" := by
  by_cases h : Segment ns
  · rw [namespacePrefix, checkSegment_of_segment h]
    constructor
    · intro heq
      exact ⟨h,(Except.ok.inj heq).symm⟩
    · rintro ⟨_,rfl⟩
      rfl
  · rw [namespacePrefix, checkSegment_of_not_segment h]
    constructor
    · intro heq
      cases heq
    · intro heq
      exact absurd heq.1 h

/-- A key is the prefix of its namespace and the id. -/
theorem cacheKey_eq_ok : cacheKey tenantId ns id = .ok k ↔
    ∃ p, namespacePrefix tenantId ns = .ok p ∧ Segment id ∧ k = p ++ id := by
  by_cases hns : Segment ns
  · by_cases hid : Segment id
    · rw [cacheKey, checkSegment_of_segment hns, checkSegment_of_segment hid, namespacePrefix, checkSegment_of_segment hns]
      constructor
      · intro heq
        exact ⟨_,rfl,hid,(Except.ok.inj heq).symm⟩
      · rintro ⟨p,hp,_,rfl⟩
        cases hp
        rfl
    · rw [cacheKey, checkSegment_of_segment hns, checkSegment_of_not_segment hid]
      constructor
      · intro heq
        cases heq
      · rintro ⟨_,_,h,_⟩
        exact absurd h hid
  · rw [cacheKey, checkSegment_of_not_segment hns]
    constructor
    · intro heq
      cases heq
    · rintro ⟨p,hp,_⟩
      exact absurd (namespacePrefix_eq_ok.mp hp).1 hns

end Segments

section Apart
variable {tenantId tenantId' : Id} {ns ns' id id' p p' k : Str}

private theorem Segment.no_colon {s : Str} (h : Segment s) : unit ':' ∉ s := by
  intro hc
  have := h.2 _ hc
  simp [forbidden] at this

theorem toNat_of_hexDigit {c : Char} (h : Realtime.isHexDigit c = true ∨ c = '-') : c.toNat < 128 := by
  rcases h with h | rfl
  · simp only [Realtime.isHexDigit, Bool.or_eq_true, Bool.and_eq_true, decide_eq_true_eq, Char.le_def, UInt32.le_iff_toNat_le] at h
    have hnat : c.toNat = c.val.toNat := rfl
    rw [hnat]
    rcases h with (h | h) | h <;> exact lt_of_le_of_lt h.2 (by decide)
  · decide

theorem unit_inj {c d : Char} (hc : c.toNat < 128) (hd : d.toNat < 128) (h : unit c = unit d) : c = d := by
  have hnat := congrArg UInt16.toNat h
  simp only [unit, Nat.toUInt16_eq, UInt16.toNat_ofNat'] at hnat
  rw [Nat.mod_eq_of_lt (by omega), Nat.mod_eq_of_lt (by omega)] at hnat
  exact Char.toNat_inj.mp hnat

theorem no_colon_units (tenantId : Id) : unit ':' ∉ units tenantId.text := by
  intro h
  obtain ⟨c,hc,heq⟩ := List.mem_map.mp h
  have hhex := Realtime.mem_of_isUuid tenantId.valid hc
  have hcolon := unit_inj (toNat_of_hexDigit hhex) (by decide) heq
  rw [hcolon] at hhex
  rcases hhex with h | h <;> exact absurd h (by decide)

theorem units_text_inj (h : units tenantId.text = units tenantId'.text) : tenantId = tenantId' := by
  have hread (id : Id) : (units id.text).map (fun c => Char.ofNat c.toNat) = id.text.toList := by
    rw [units, List.map_map]
    calc
      _ = id.text.toList.map (fun c => c) := by
        apply List.map_congr_left
        intro c hc
        have hsmall := toNat_of_hexDigit (Realtime.mem_of_isUuid id.valid hc)
        simp only [Function.comp, unit, Nat.toUInt16_eq, UInt16.toNat_ofNat']
        rw [Nat.mod_eq_of_lt (by omega), Char.ofNat_toNat]
      _ = _ := List.map_id' _
  have hlist := congrArg (List.map fun c : CodeUnit => Char.ofNat c.toNat) h
  rw [hread, hread, String.toList_inj] at hlist
  cases tenantId
  cases tenantId'
  cases hlist
  rfl

/-- Every key of a namespace is below `cache:`. -/
theorem cachePrefix_of_namespacePrefix (h : namespacePrefix tenantId ns = .ok p) : cachePrefix ++ units ":" <+: p := by
  obtain ⟨_,rfl⟩ := namespacePrefix_eq_ok.mp h
  simp only [List.append_assoc]
  exact (List.prefix_append_right_inj cachePrefix).mpr (List.prefix_append _ _)

/-- No key is below the prefixes of two namespaces. -/
theorem namespacePrefix_inj (h : namespacePrefix tenantId ns = .ok p) (h' : namespacePrefix tenantId' ns' = .ok p')
    (hk : p <+: k) (hk' : p' <+: k) : tenantId = tenantId' ∧ ns = ns' := by
  obtain ⟨hns,rfl⟩ := namespacePrefix_eq_ok.mp h
  obtain ⟨hns',rfl⟩ := namespacePrefix_eq_ok.mp h'
  obtain ⟨rest,hrest⟩ := hk
  obtain ⟨rest',rfl⟩ := hk'
  have hcolon : units ":" = [unit ':'] := rfl
  simp only [hcolon, List.append_assoc, List.append_cancel_left_eq, List.singleton_append] at hrest
  obtain ⟨htenant,hrest⟩ := split_left (List.cons.inj hrest).2 (no_colon_units _) (no_colon_units _)
  obtain ⟨hsame,_⟩ := split_left hrest hns.no_colon hns'.no_colon
  exact ⟨units_text_inj htenant,hsame⟩

theorem namespacePrefix_of_cacheKey (h : cacheKey tenantId ns id = .ok k) :
    ∃ p, namespacePrefix tenantId ns = .ok p ∧ p <+: k := by
  obtain ⟨p,hp,_,rfl⟩ := cacheKey_eq_ok.mp h
  exact ⟨p,hp,List.prefix_append p id⟩

theorem exists_cacheKey {tenantId : Id} {ns id : Str} (hns : checkSegment "namespace" ns = .ok ns)
    (hid : checkSegment "id" id = .ok id) : ∃ k, cacheKey tenantId ns id = .ok k := by
  obtain ⟨p,hp⟩ : ∃ p, namespacePrefix tenantId ns = .ok p := ⟨_,namespacePrefix_eq_ok.mpr ⟨(checkSegment_eq_ok.mp hns).1,rfl⟩⟩
  exact ⟨_,cacheKey_eq_ok.mpr ⟨p,hp,(checkSegment_eq_ok.mp hid).1,rfl⟩⟩

theorem cacheKey_inj (h : cacheKey tenantId ns id = .ok k) (h' : cacheKey tenantId' ns' id' = .ok k) :
    tenantId = tenantId' ∧ ns = ns' ∧ id = id' := by
  obtain ⟨p,hp,_,hk⟩ := cacheKey_eq_ok.mp h
  obtain ⟨p',hp',_,hk'⟩ := cacheKey_eq_ok.mp h'
  obtain ⟨rfl,rfl⟩ := namespacePrefix_inj hp hp' ⟨id,hk.symm⟩ ⟨id',hk'.symm⟩
  rw [hp] at hp'
  cases hp'
  rw [hk] at hk'
  exact ⟨rfl,rfl,List.append_cancel_left hk'⟩

private theorem Segment.plain {s : Str} (h : Segment s) : Plain s := by
  intro c hc
  have := h.2 c hc
  simp only [forbidden, Bool.or_eq_false_iff, beq_eq_false_iff_ne] at this
  tauto

private theorem plain_units_text (tenantId : Id) : Plain (units tenantId.text) := by
  intro u hu
  obtain ⟨c,hc,rfl⟩ := List.mem_map.mp hu
  have hhex := Realtime.mem_of_isUuid tenantId.valid hc
  have hne (d : Char) (hd : d.toNat < 128) (hno : ¬ (Realtime.isHexDigit d = true ∨ d = '-')) : unit c ≠ unit d := by
    intro heq
    rw [unit_inj (toNat_of_hexDigit hhex) hd heq] at hhex
    exact hno hhex
  exact ⟨hne _ (by decide) (by decide),hne _ (by decide) (by decide),hne _ (by decide) (by decide),hne _ (by decide) (by decide)⟩

/-- The only wildcard of the pattern is the one at its end. -/
theorem plain_namespacePrefix (h : namespacePrefix tenantId ns = .ok p) : Plain p := by
  obtain ⟨hns,rfl⟩ := namespacePrefix_eq_ok.mp h
  have hstart : Plain cachePrefix := plain_of_all (by decide)
  have hcolon : Plain (units ":") := plain_of_all (by decide)
  intro c hc
  simp only [List.mem_append] at hc
  rcases hc with ((((hc | hc) | hc) | hc) | hc) | hc
  · exact hstart c hc
  · exact hcolon c hc
  · exact plain_units_text tenantId c hc
  · exact hcolon c hc
  · exact hns.plain c hc
  · exact hcolon c hc

end Apart
end Nivara.Cache
