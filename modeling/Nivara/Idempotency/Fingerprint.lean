import Mathlib.Order.Lex
import Nivara.Text.Bytes
import Nivara.Text.Objects

/-! The fingerprint of a request body, from `idempotency/request-fingerprint.ts`. The body is rebuilt
with its keys in order, by assignment, and what is no own property after that is not serialised. -/
namespace Nivara.Idempotency
open Text Collections

section Model
variable {V : Type}

/-- The order of `sort()`: by code units. -/
def keyLe (m m' : Str × V) : Bool := m.1.map UInt16.toNat ≤ m'.1.map UInt16.toNat

def protoKey : Str := units "__proto__"

/-- `sorted[key] = value`. The name `__proto__` is an accessor that every object inherits: assigning
to it sets the prototype, or does nothing. -/
def assign (o : OrderedMap Str V) (m : Str × V) : OrderedMap Str V := if m.1 = protoKey then o else o.set m.1 m.2

def rebuild (ms : List (Str × V)) : List (Str × V) :=
  propertyOrder ((ms.insertionSort fun m m' => keyLe m m' = true).foldl assign .empty).entries

mutual
def sortKeys : Json → Json
  | .array vs => .array (sortItems vs)
  | .object ms => .object (rebuild (sortMembers ms))
  | v => v

def sortItems : List Json → List Json
  | [] => []
  | v :: vs => sortKeys v :: sortItems vs

def sortMembers : List (Str × Json) → List (Str × Json)
  | [] => []
  | (k, v) :: ms => (k, sortKeys v) :: sortMembers ms
end

def canonicalise : Option Parsed → Str
  | none => 0 :: units "no-body"
  | some body => (sortKeys body.value).stringify

def requestFingerprint (sha256 : List UInt8 → String) (body : Option Parsed) : String :=
  sha256 (encodeUtf8 (canonicalise body))

end Model

/-- Equal as JSON values up to the order of keys. -/
inductive Same : Json → Json → Prop
  | null : Same .null .null
  | bool (b : Bool) : Same (.bool b) (.bool b)
  | number (n : Number) : Same (.number n) (.number n)
  | string (s : Str) : Same (.string s) (.string s)
  | array {vs ws : List Json} (length : vs.length = ws.length)
      (items : ∀ (i : Nat) (v w : Json), vs[i]? = some v → ws[i]? = some w → Same v w) : Same (.array vs) (.array ws)
  | object {ms ns : List (Str × Json)} (keys : ∀ k, k ∈ ms.map Prod.fst ↔ k ∈ ns.map Prod.fst)
      (values : ∀ k v w, (k, v) ∈ ms → (k, w) ∈ ns → Same v w) : Same (.object ms) (.object ns)

def SameBody : Option Json → Option Json → Prop
  | none, none => True
  | some v, some w => Same v w
  | _, _ => False

mutual
/-- What a body is to its fingerprint: without members named `__proto__`, and with `null` for a
number that is too large. -/
def strip : Json → Json
  | .number (.infinity _) => .null
  | .array vs => .array (stripItems vs)
  | .object ms => .object (stripMembers ms)
  | v => v

def stripItems : List Json → List Json
  | [] => []
  | v :: vs => strip v :: stripItems vs

def stripMembers : List (Str × Json) → List (Str × Json)
  | [] => []
  | (k, v) :: ms => if k = protoKey then stripMembers ms else (k, strip v) :: stripMembers ms
end

section Rebuilding
variable {V W : Type}

/-- Where the names are different, the properties that are assigned are the members assigned. -/
private theorem rebuild_eq {ms : List (Str × V)} (h : (ms.map Prod.fst).Nodup) :
    rebuild ms = propertyOrder ((ms.insertionSort fun m m' => keyLe m m' = true).filter fun m => m.1 ≠ protoKey) := by
  have hfold (l : List (Str × V)) : ∀ o, l.foldl assign o =
      (l.filter fun m => m.1 ≠ protoKey).foldl (fun o m => o.set m.1 m.2) o := by
    induction l with
    | nil => exact fun _ => rfl
    | cons m l ih =>
      intro o
      by_cases hk : m.1 = protoKey
      · simp [assign, hk, ih]
      · simp [assign, hk, ih]
  have hnodup : (((ms.insertionSort fun m m' => keyLe m m' = true).filter fun m => m.1 ≠ protoKey).map Prod.fst).Nodup :=
    (((List.perm_insertionSort _ ms).map Prod.fst).nodup_iff.mpr h).sublist (List.filter_sublist.map Prod.fst)
  rw [rebuild, hfold, ← defineAll, entries_defineAll hnodup]

private theorem mem_rebuild {ms : List (Str × V)} (h : (ms.map Prod.fst).Nodup) {m : Str × V} :
    m ∈ rebuild ms ↔ m ∈ ms ∧ m.1 ≠ protoKey := by
  rw [rebuild_eq h, (propertyOrder_perm _).mem_iff, List.mem_filter, List.mem_insertionSort]
  simp

private theorem rebuild_map (f : V → W) {ms : List (Str × V)} (h : (ms.map Prod.fst).Nodup) :
    rebuild (ms.map fun m => (m.1, f m.2)) = (rebuild ms).map fun m => (m.1, f m.2) := by
  have hnames : ((ms.map fun m => (m.1, f m.2)).map Prod.fst).Nodup := by
    rw [List.map_map]
    exact h
  rw [rebuild_eq h, rebuild_eq hnames, ← propertyOrder_map, ← List.map_insertionSort (fun m m' => keyLe m m' = true) _ _ _
    (fun _ _ _ _ => Iff.rfl), List.filter_map]
  rfl

private theorem eq_of_name {ms : List (Str × V)} (h : (ms.map Prod.fst).Nodup) {m m' : Str × V} (hm : m ∈ ms)
    (hm' : m' ∈ ms) (hk : m.1 = m'.1) : m = m' :=
  List.inj_on_of_nodup_map h hm hm' hk

/-- Objects with the same members, leaving out what cannot be assigned, are rebuilt to the same object. -/
private theorem rebuild_congr {ms ns : List (Str × V)} (hms : (ms.map Prod.fst).Nodup) (hns : (ns.map Prod.fst).Nodup)
    (h : ∀ m : Str × V, m.1 ≠ protoKey → (m ∈ ms ↔ m ∈ ns)) : rebuild ms = rebuild ns := by
  have htotal : Std.Total fun m m' : Str × V => keyLe m m' = true := by
    constructor
    intro m m'
    simp only [keyLe, decide_eq_true_eq]
    exact le_total _ _
  have htrans : IsTrans (Str × V) fun m m' => keyLe m m' = true := by
    constructor
    intro m m' m''
    simp only [keyLe, decide_eq_true_eq]
    exact le_trans
  have hnodup {l : List (Str × V)} (hl : (l.map Prod.fst).Nodup) :
      ((l.insertionSort fun m m' => keyLe m m' = true).filter fun m => m.1 ≠ protoKey).Nodup :=
    (((List.perm_insertionSort _ l).nodup_iff).mpr hl.of_map).filter _
  have hperm : ((ms.insertionSort fun m m' => keyLe m m' = true).filter fun m => m.1 ≠ protoKey).Perm
      ((ns.insertionSort fun m m' => keyLe m m' = true).filter fun m => m.1 ≠ protoKey) := by
    rw [List.perm_ext_iff_of_nodup (hnodup hms) (hnodup hns)]
    intro m
    simp only [List.mem_filter, List.mem_insertionSort, decide_eq_true_eq]
    exact and_congr_left (h m)
  -- Both are in the order of their keys, which are all different.
  have hsort := hperm.eq_of_pairwise (fun m m' hm hm' hle hge => ?_) ((List.pairwise_insertionSort _ ms).filter _)
    ((List.pairwise_insertionSort _ ns).filter _)
  · rw [rebuild_eq hms, rebuild_eq hns, hsort]
  · simp only [keyLe, decide_eq_true_eq] at hle hge
    have hk : m.1 = m'.1 := List.map_injective_iff.mpr (fun _ _ he => UInt16.toNat_inj.mp he) (le_antisymm hle hge)
    have hin := (List.mem_insertionSort _).mp (List.mem_filter.mp hm).1
    have hin' := (List.mem_insertionSort _).mp (List.mem_filter.mp (hperm.mem_iff.mpr hm')).1
    exact eq_of_name hms hin hin' hk

end Rebuilding

private theorem sortItems_eq_map (vs : List Json) : sortItems vs = vs.map sortKeys := by
  induction vs with
  | nil => rfl
  | cons v vs ih => rw [sortItems, ih, List.map_cons]

private theorem sortMembers_eq_map (ms : List (Str × Json)) : sortMembers ms = ms.map fun m => (m.1, sortKeys m.2) := by
  induction ms with
  | nil => rfl
  | cons m ms ih => rw [sortMembers, ih, List.map_cons]

private theorem stripItems_eq_map (vs : List Json) : stripItems vs = vs.map strip := by
  induction vs with
  | nil => rfl
  | cons v vs ih => rw [stripItems, ih, List.map_cons]

private theorem mem_stripMembers {ms : List (Str × Json)} {k : Str} {v : Json} :
    (k, v) ∈ stripMembers ms ↔ k ≠ protoKey ∧ ∃ w, (k, w) ∈ ms ∧ v = strip w := by
  induction ms with
  | nil => simp [stripMembers]
  | cons m ms ih =>
    obtain ⟨k',w'⟩ := m
    rw [stripMembers]
    by_cases hk : k' = protoKey
    · rw [if_pos hk, ih]
      constructor
      · rintro ⟨hne,w,hw,rfl⟩
        exact ⟨hne,w,by simp [hw],rfl⟩
      · rintro ⟨hne,w,hw,rfl⟩
        rcases List.mem_cons.mp hw with he | hw
        · cases he
          exact absurd hk hne
        · exact ⟨hne,w,hw,rfl⟩
    · rw [if_neg hk, List.mem_cons, ih]
      constructor
      · rintro (he | ⟨hne,w,hw,rfl⟩)
        · cases he
          exact ⟨hk,w',by simp,rfl⟩
        · exact ⟨hne,w,by simp [hw],rfl⟩
      · rintro ⟨hne,w,hw,rfl⟩
        rcases List.mem_cons.mp hw with he | hw
        · cases he
          exact .inl rfl
        · exact .inr ⟨hne,w,hw,rfl⟩

private def normal (v : Json) : Json := (sortKeys v).finitize

private theorem normal_array (vs : List Json) : normal (.array vs) = .array (vs.map normal) := by
  rw [normal, sortKeys, Json.finitize, sortItems_eq_map, finitizeItems_eq_map, List.map_map]
  rfl

private theorem normal_object {ms : List (Str × Json)} (h : (ms.map Prod.fst).Nodup) :
    normal (.object ms) = .object (rebuild (ms.map fun m => (m.1, normal m.2))) := by
  have hnames : ((ms.map fun m => (m.1, sortKeys m.2)).map Prod.fst).Nodup := by
    rw [List.map_map]
    exact h
  rw [normal, sortKeys, Json.finitize, sortMembers_eq_map, finitizeMembers_eq_map, ← rebuild_map Json.finitize hnames,
    List.map_map]
  rfl

private theorem mem_written {ms : List (Str × Json)} (h : (ms.map Prod.fst).Nodup) {k : Str} {x : Json} :
    (k, x) ∈ rebuild (ms.map fun m => (m.1, normal m.2)) ↔ k ≠ protoKey ∧ ∃ v, (k, v) ∈ ms ∧ x = normal v := by
  have hnames : ((ms.map fun m => (m.1, normal m.2)).map Prod.fst).Nodup := by
    rw [List.map_map]
    exact h
  rw [mem_rebuild hnames, List.mem_map]
  constructor
  · rintro ⟨⟨m,hm,he⟩,hk⟩
    cases he
    exact ⟨hk,m.2,hm,rfl⟩
  · rintro ⟨hk,v,hv,rfl⟩
    exact ⟨⟨(k, v),hv,rfl⟩,hk⟩

private def isLeaf : Json → Bool
  | .array _ => false
  | .object _ => false
  | _ => true

private theorem normal_leaf {v : Json} (h : isLeaf v = true) : normal v = strip v ∧ isLeaf (strip v) = true := by
  cases v with
  | array vs => cases h
  | object ms => cases h
  | number n => cases n <;> exact ⟨rfl,rfl⟩
  | _ => exact ⟨rfl,rfl⟩

private theorem normal_branch {v : Json} (h : isLeaf v = false) :
    isLeaf (normal v) = false ∧ isLeaf (strip v) = false := by
  cases v with
  | array vs => exact ⟨rfl,rfl⟩
  | object ms => exact ⟨rfl,rfl⟩
  | _ => cases h

private theorem same_leaf {v w : Json} (h : isLeaf v = true ∨ isLeaf w = true) : Same v w ↔ v = w := by
  constructor
  · intro hs
    cases hs with
    | array _ _ => rcases h with h | h <;> cases h
    | object _ _ => rcases h with h | h <;> cases h
    | _ => rfl
  · rintro rfl
    cases v with
    | array _ => rcases h with h | h <;> cases h
    | object _ => rcases h with h | h <;> cases h
    | null => exact .null
    | bool b => exact .bool b
    | number n => exact .number n
    | string s => exact .string s

private theorem normal_eq_iff_of_leaf {v w : Json} (h : isLeaf v = true ∨ isLeaf w = true) :
    normal v = normal w ↔ Same (strip v) (strip w) := by
  have hiff : Same (strip v) (strip w) ↔ strip v = strip w := by
    apply same_leaf
    rcases h with h | h
    · exact .inl (normal_leaf h).2
    · exact .inr (normal_leaf h).2
  rw [hiff]
  -- A leaf and a branch differ on either side.
  cases hv : isLeaf v <;> cases hw : isLeaf w
  · rcases h with h | h
    · rw [h] at hv
      cases hv
    · rw [h] at hw
      cases hw
  · constructor
    · intro he
      have hb := (normal_branch hv).1
      rw [he, (normal_leaf hw).1, (normal_leaf hw).2] at hb
      cases hb
    · intro he
      have hb := (normal_branch hv).2
      rw [he, (normal_leaf hw).2] at hb
      cases hb
  · constructor
    · intro he
      have hb := (normal_branch hw).1
      rw [← he, (normal_leaf hv).1, (normal_leaf hv).2] at hb
      cases hb
    · intro he
      have hb := (normal_branch hw).2
      rw [← he, (normal_leaf hv).2] at hb
      cases hb
  · rw [(normal_leaf hv).1, (normal_leaf hw).1]

private theorem normal_eq_iff_array {vs ws : List Json}
    (ih : ∀ v ∈ vs, ∀ w ∈ ws, (normal v = normal w ↔ Same (strip v) (strip w))) :
    normal (.array vs) = normal (.array ws) ↔ Same (strip (.array vs)) (strip (.array ws)) := by
  rw [normal_array, normal_array, strip, strip, stripItems_eq_map, stripItems_eq_map, Json.array.injEq]
  constructor
  · intro he
    have hlength : vs.length = ws.length := by simpa using congrArg List.length he
    refine .array (by simpa using hlength) fun i v' w' hv' hw' => ?_
    rw [List.getElem?_map] at hv' hw'
    obtain ⟨v,hv,rfl⟩ := Option.map_eq_some_iff.mp hv'
    obtain ⟨w,hw,rfl⟩ := Option.map_eq_some_iff.mp hw'
    have hi := congrArg (fun l => l[i]?) he
    simp only [List.getElem?_map, hv, hw, Option.map_some, Option.some.injEq] at hi
    exact (ih v (List.mem_of_getElem? hv) w (List.mem_of_getElem? hw)).mp hi
  · rintro (_ | _ | _ | _ | ⟨hlength,hitems⟩)
    simp only [List.length_map] at hlength
    apply List.ext_getElem?
    intro i
    rw [List.getElem?_map, List.getElem?_map]
    cases hv : vs[i]? with
    | none =>
      have hw : ws[i]? = none := by
        rw [List.getElem?_eq_none_iff] at hv ⊢
        omega
      rw [hw]
    | some v =>
      obtain ⟨w,hw⟩ : ∃ w, ws[i]? = some w := by
        obtain ⟨hi,_⟩ := List.getElem?_eq_some_iff.mp hv
        exact ⟨_,List.getElem?_eq_getElem (by omega)⟩
      rw [hw]
      have hsame := hitems i (strip v) (strip w) (by rw [List.getElem?_map, hv]; rfl) (by rw [List.getElem?_map, hw]; rfl)
      exact congrArg some ((ih v (List.mem_of_getElem? hv) w (List.mem_of_getElem? hw)).mpr hsame)

private theorem mem_stripped_keys {ms : List (Str × Json)} {k : Str} :
    k ∈ (stripMembers ms).map Prod.fst ↔ k ≠ protoKey ∧ k ∈ ms.map Prod.fst := by
  constructor
  · intro h
    obtain ⟨⟨_,v⟩,hm,rfl⟩ := List.mem_map.mp h
    obtain ⟨hk,w,hw,_⟩ := mem_stripMembers.mp hm
    exact ⟨hk,List.mem_map.mpr ⟨_,hw,rfl⟩⟩
  · rintro ⟨hk,h⟩
    obtain ⟨⟨_,v⟩,hm,rfl⟩ := List.mem_map.mp h
    exact List.mem_map.mpr ⟨_,mem_stripMembers.mpr ⟨hk,v,hm,rfl⟩,rfl⟩

private theorem normal_eq_iff_object {ms ns : List (Str × Json)} (hms : (ms.map Prod.fst).Nodup)
    (hns : (ns.map Prod.fst).Nodup)
    (ih : ∀ m ∈ ms, ∀ n ∈ ns, (normal m.2 = normal n.2 ↔ Same (strip m.2) (strip n.2))) :
    normal (.object ms) = normal (.object ns) ↔ Same (strip (.object ms)) (strip (.object ns)) := by
  rw [normal_object hms, normal_object hns, strip, strip, Json.object.injEq]
  constructor
  · intro he
    have hmem (k : Str) : (k ≠ protoKey ∧ k ∈ ms.map Prod.fst) ↔ k ≠ protoKey ∧ k ∈ ns.map Prod.fst := by
      have hwritten (l : List (Str × Json)) (hl : (l.map Prod.fst).Nodup) : (k ≠ protoKey ∧ k ∈ l.map Prod.fst) ↔
          ∃ x, (k, x) ∈ rebuild (l.map fun m => (m.1, normal m.2)) := by
        simp only [mem_written hl, List.mem_map]
        constructor
        · rintro ⟨hk,⟨_,v⟩,hm,rfl⟩
          exact ⟨_,hk,v,hm,rfl⟩
        · rintro ⟨x,hk,v,hm,_⟩
          exact ⟨hk,_,hm,rfl⟩
      rw [hwritten ms hms, hwritten ns hns, he]
    refine .object (fun k => by rw [mem_stripped_keys, mem_stripped_keys, hmem k]) fun k v' w' hv' hw' => ?_
    obtain ⟨hk,v,hv,rfl⟩ := mem_stripMembers.mp hv'
    obtain ⟨_,w,hw,rfl⟩ := mem_stripMembers.mp hw'
    have hx : (k, normal v) ∈ rebuild (ns.map fun m => (m.1, normal m.2)) := he ▸ (mem_written hms).mpr ⟨hk,v,hv,rfl⟩
    obtain ⟨_,u,hu,heq⟩ := (mem_written hns).mp hx
    obtain rfl : u = w := congrArg Prod.snd (eq_of_name hns hu hw rfl)
    exact (ih _ hv _ hu).mp heq
  · rintro (_ | _ | _ | _ | _ | ⟨hkeys,hvalues⟩)
    have hnames {l : List (Str × Json)} (hl : (l.map Prod.fst).Nodup) :
        ((l.map fun m => (m.1, normal m.2)).map Prod.fst).Nodup := by
      rw [List.map_map]
      exact hl
    have hvalue {k : Str} {v w : Json} (hk : k ≠ protoKey) (hv : (k, v) ∈ ms) (hw : (k, w) ∈ ns) : normal v = normal w :=
      (ih _ hv _ hw).mpr (hvalues k _ _ (mem_stripMembers.mpr ⟨hk,v,hv,rfl⟩) (mem_stripMembers.mpr ⟨hk,w,hw,rfl⟩))
    refine rebuild_congr (hnames hms) (hnames hns) fun ⟨k,x⟩ hk => ?_
    have hkey := hkeys k
    rw [mem_stripped_keys, mem_stripped_keys] at hkey
    simp only [List.mem_map]
    constructor
    · rintro ⟨⟨_,v⟩,hv,he⟩
      cases he
      obtain ⟨⟨_,w⟩,hw,rfl⟩ := List.mem_map.mp (hkey.mp ⟨hk,List.mem_map.mpr ⟨_,hv,rfl⟩⟩).2
      exact ⟨_,hw,by rw [hvalue hk hv hw]⟩
    · rintro ⟨⟨_,w⟩,hw,he⟩
      cases he
      obtain ⟨⟨_,v⟩,hv,rfl⟩ := List.mem_map.mp (hkey.mpr ⟨hk,List.mem_map.mpr ⟨_,hw,rfl⟩⟩).2
      exact ⟨_,hv,by rw [hvalue hk hv hw]⟩

/-- What is written of two bodies is the same exactly when they are stripped to the same. -/
private theorem normal_eq_iff {v : Json} :
    ∀ {w : Json}, v.Distinct → w.Distinct → (normal v = normal w ↔ Same (strip v) (strip w)) := by
  induction v using Json.induct with
  | array vs ih =>
    intro w hv hw
    cases w with
    | array ws =>
      rw [Json.Distinct, distinctItems_iff] at hv hw
      exact normal_eq_iff_array fun v hvs w hws => ih v hvs (hv v hvs) (hw w hws)
    | object ns =>
      constructor
      · intro he
        rw [normal_array, normal_object hw.1] at he
        cases he
      · intro hs
        rw [strip, strip] at hs
        cases hs
    | _ => exact normal_eq_iff_of_leaf (.inr rfl)
  | object ms ih =>
    intro w hv hw
    cases w with
    | array ws =>
      constructor
      · intro he
        rw [normal_array, normal_object hv.1] at he
        cases he
      · intro hs
        rw [strip, strip] at hs
        cases hs
    | object ns =>
      rw [Json.Distinct, distinctMembers_iff] at hv hw
      exact normal_eq_iff_object hv.1 hw.1 fun m hm n hn => ih m hm (hv.2 m hm) (hw.2 n hn)
    | _ => exact normal_eq_iff_of_leaf (.inr rfl)
  | _ => exact fun _ _ => normal_eq_iff_of_leaf (.inl rfl)

/-- Stripping takes bodies that are the same to bodies that are. -/
private theorem Same.strip {v w : Json} (h : Same v w) : Same (strip v) (strip w) := by
  induction h with
  | null => exact .null
  | bool b => exact .bool b
  | string s => exact .string s
  | number n =>
    cases n with
    | finite x => exact .number _
    | infinity b => exact .null
  | array length items ih =>
    rw [Idempotency.strip, Idempotency.strip, stripItems_eq_map, stripItems_eq_map]
    refine .array (by simpa using length) fun i v' w' hv' hw' => ?_
    rw [List.getElem?_map] at hv' hw'
    obtain ⟨v,hv,rfl⟩ := Option.map_eq_some_iff.mp hv'
    obtain ⟨w,hw,rfl⟩ := Option.map_eq_some_iff.mp hw'
    exact ih i v w hv hw
  | object keys values ih =>
    rw [Idempotency.strip, Idempotency.strip]
    refine .object (fun k => by rw [mem_stripped_keys, mem_stripped_keys, keys k]) fun k v' w' hv' hw' => ?_
    obtain ⟨_,v,hv,rfl⟩ := mem_stripMembers.mp hv'
    obtain ⟨_,w,hw,rfl⟩ := mem_stripMembers.mp hw'
    exact ih k v w hv hw

section Bodies
variable {a b : Option Parsed}

private theorem stringify_ne_absent (v : Json) : v.stringify ≠ canonicalise none := by
  obtain ⟨c,t,hv,_,_,hc⟩ := stringify_head v
  intro he
  rw [hv, canonicalise] at he
  exact hc (List.cons.inj he).1

theorem canonicalise_eq_iff : canonicalise a = canonicalise b ↔
    SameBody (a.map fun body => strip body.value) (b.map fun body => strip body.value) := by
  cases a with
  | none =>
    cases b with
    | none => exact iff_of_true rfl trivial
    | some b => exact iff_of_false (stringify_ne_absent _).symm id
  | some a =>
    cases b with
    | none => exact iff_of_false (stringify_ne_absent _) id
    | some b => exact stringify_eq_iff.trans (normal_eq_iff a.distinct b.distinct)

private theorem isWellFormed_canonicalise (a : Option Parsed) : isWellFormed (canonicalise a) = true := by
  cases a with
  | none => decide
  | some body => exact isWellFormed_stringify _

private theorem encodeUtf8_canonicalise_eq_iff :
    encodeUtf8 (canonicalise a) = encodeUtf8 (canonicalise b) ↔ canonicalise a = canonicalise b := by
  constructor
  · intro he
    rw [← decode_encodeUtf8 (isWellFormed_canonicalise a), he, decode_encodeUtf8 (isWellFormed_canonicalise b)]
  · exact congrArg encodeUtf8

private theorem requestFingerprint_eq_iff {sha256 : List UInt8 → String}
    (hfree : sha256 (encodeUtf8 (canonicalise a)) = sha256 (encodeUtf8 (canonicalise b)) →
      encodeUtf8 (canonicalise a) = encodeUtf8 (canonicalise b)) :
    requestFingerprint sha256 a = requestFingerprint sha256 b ↔ canonicalise a = canonicalise b := by
  constructor
  · exact fun he => encodeUtf8_canonicalise_eq_iff.mp (hfree he)
  · intro he
    rw [requestFingerprint, requestFingerprint, he]

private theorem SameBody.strip (h : SameBody (a.map Parsed.value) (b.map Parsed.value)) :
    SameBody (a.map fun body => strip body.value) (b.map fun body => strip body.value) := by
  cases a with
  | none =>
    cases b with
    | none => trivial
    | some b => cases h
  | some a =>
    cases b with
    | none => cases h
    | some b => exact Same.strip h

end Bodies

/-- Two bodies are told apart exactly by their content, before and after hashing. -/
def ToldApart (sha256 : List UInt8 → String) (a b : Option Parsed) : Prop :=
  (canonicalise a = canonicalise b ↔ SameBody (a.map Parsed.value) (b.map Parsed.value)) ∧
  (requestFingerprint sha256 a = requestFingerprint sha256 b ↔ SameBody (a.map Parsed.value) (b.map Parsed.value))

/-- The fingerprint is exact for two bodies unless they differ only in members named `__proto__` and
in numbers too large for a double. -/
theorem toldApart_iff (sha256 : List UInt8 → String) (a b : Option Parsed)
    (hfree : sha256 (encodeUtf8 (canonicalise a)) = sha256 (encodeUtf8 (canonicalise b)) →
      encodeUtf8 (canonicalise a) = encodeUtf8 (canonicalise b)) :
    ToldApart sha256 a b ↔ SameBody (a.map Parsed.value) (b.map Parsed.value) ∨
      ¬ SameBody (a.map fun body => strip body.value) (b.map fun body => strip body.value) := by
  rw [ToldApart, requestFingerprint_eq_iff hfree, canonicalise_eq_iff, and_self]
  constructor
  · intro hexact
    by_cases hstripped : SameBody (a.map fun body => strip body.value) (b.map fun body => strip body.value)
    · exact .inl (hexact.mp hstripped)
    · exact .inr hstripped
  · rintro (hsame | hdiffer)
    · exact iff_of_true hsame.strip hsame
    · exact iff_of_false hdiffer fun hsame => hdiffer hsame.strip

private theorem parse_of_written {s : Str} {v : Json} (hs : s = v.stringify) (hfinite : v.Finite) (hbuild : v.build = v)
    (hdistinct : v.Distinct) : parse s = some ⟨v,hdistinct⟩ := by
  simp only [hs, parse, readText_stringify hfinite, Option.map_some, hbuild]

private def plain (bytes : List UInt8) : String := String.ofList (bytes.map fun c => Char.ofNat c.toNat)

/-- Members in another order are the same body; a member more is another. -/
theorem bodies_toldApart :
    ToldApart plain (parse (units "\x7b\"a\":true,\"b\":null\x7d")) (parse (units "\x7b\"b\":null,\"a\":true\x7d")) ∧
    ToldApart plain (parse (units "\x7b\"a\":true\x7d")) (parse (units "\x7b\x7d")) := by
  have hab := parse_of_written (s := units "\x7b\"a\":true,\"b\":null\x7d")
    (v := .object [(units "a", .bool true), (units "b", .null)]) (by decide) ⟨trivial,trivial,trivial⟩ rfl
    ⟨by decide,trivial,trivial,trivial⟩
  have hba := parse_of_written (s := units "\x7b\"b\":null,\"a\":true\x7d")
    (v := .object [(units "b", .null), (units "a", .bool true)]) (by decide) ⟨trivial,trivial,trivial⟩ rfl
    ⟨by decide,trivial,trivial,trivial⟩
  have ha := parse_of_written (s := units "\x7b\"a\":true\x7d") (v := .object [(units "a", .bool true)]) (by decide)
    ⟨trivial,trivial⟩ rfl ⟨by decide,trivial,trivial⟩
  have hempty := parse_of_written (s := units "\x7b\x7d") (v := .object []) (by decide) trivial rfl ⟨by decide,trivial⟩
  rw [hab, hba, ha, hempty]
  constructor
  · refine (toldApart_iff _ _ _ fun _ => by decide).mpr (.inl ?_)
    refine Same.object (fun k => by simp [or_comm]) fun k v w hv hw => ?_
    simp only [List.mem_cons, Prod.mk.injEq, List.not_mem_nil, or_false] at hv hw
    rcases hv with ⟨rfl,rfl⟩ | ⟨rfl,rfl⟩
    · rcases hw with ⟨he,_⟩ | ⟨_,rfl⟩
      · exact absurd he (by decide)
      · exact .bool true
    · rcases hw with ⟨_,rfl⟩ | ⟨he,_⟩
      · exact .null
      · exact absurd he (by decide)
  · refine (toldApart_iff _ _ _ fun he => absurd he (by decide)).mpr (.inr fun hsame => ?_)
    rcases hsame with _ | _ | _ | _ | _ | ⟨hkeys,_⟩
    exact absurd ((hkeys (units "a")).mp (by decide)) (by decide)

/-- A member named `__proto__` does not reach the fingerprint. -/
theorem proto_member_unseen : ∃ a b : Parsed, parse (units "\x7b\"__proto__\":true\x7d") = some a ∧
    parse (units "\x7b\x7d") = some b ∧ canonicalise (some a) = canonicalise (some b) ∧
    ¬ SameBody (some a.value) (some b.value) := by
  refine ⟨⟨.object [(protoKey, .bool true)],⟨by decide,trivial,trivial⟩⟩,⟨.object [],⟨by decide,trivial⟩⟩,?_,?_,by decide,?_⟩
  · exact parse_of_written (v := .object [(protoKey, .bool true)]) (by decide) ⟨trivial,trivial⟩ rfl _
  · exact parse_of_written (v := .object []) (by decide) trivial rfl _
  · rintro (_ | _ | _ | _ | _ | ⟨hkeys,_⟩)
    exact absurd ((hkeys protoKey).mp (by decide)) (by decide)

end Nivara.Idempotency
