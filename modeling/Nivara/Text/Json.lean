import Nivara.Text.Numeral

/-! JSON texts: what `JSON.stringify` writes and how a text is read. The members of an object are
in the order of the text here. -/
namespace Nivara.Text

inductive Json where
  | null
  | bool (b : Bool)
  | number (n : Number)
  | string (s : Str)
  | array (items : List Json)
  | object (members : List (Str × Json))

/-- Induction over a value and all that is in it. -/
@[elab_as_elim] theorem Json.induct {P : Json → Prop} (null : P .null) (bool : ∀ b, P (.bool b))
    (number : ∀ n, P (.number n)) (string : ∀ s, P (.string s)) (array : ∀ vs, (∀ v ∈ vs, P v) → P (.array vs))
    (object : ∀ ms, (∀ m ∈ ms, P m.2) → P (.object ms)) (v : Json) : P v := by
  refine @Json.rec P (fun vs => ∀ v ∈ vs, P v) (fun ms => ∀ m ∈ ms, P m.2) (fun m => P m.2)
    null bool number string array object ?_ ?_ ?_ ?_ ?_ v
  · exact fun v hv => by cases hv
  · intro v vs hv hvs
    exact List.forall_mem_cons.mpr ⟨hv,hvs⟩
  · exact fun m hm => by cases hm
  · intro m ms hm hms
    exact List.forall_mem_cons.mpr ⟨hm,hms⟩
  · exact fun _ _ h => h

section Strings

def isLead (c : CodeUnit) : Bool := 0xD800 ≤ c.toNat && c.toNat ≤ 0xDBFF

def isTrail (c : CodeUnit) : Bool := 0xDC00 ≤ c.toNat && c.toNat ≤ 0xDFFF

def hexDigit (n : Nat) : CodeUnit := if n % 16 < 10 then (48 + n % 16).toUInt16 else (87 + n % 16).toUInt16

def hexValue (c : CodeUnit) : Option Nat :=
  if 48 ≤ c.toNat ∧ c.toNat ≤ 57 then some (c.toNat - 48)
  else if 97 ≤ c.toNat ∧ c.toNat ≤ 102 then some (c.toNat - 87)
  else if 65 ≤ c.toNat ∧ c.toNat ≤ 70 then some (c.toNat - 55)
  else none

def unicodeEscape (c : CodeUnit) : Str :=
  [unit '\\', unit 'u', hexDigit (c.toNat / 4096), hexDigit (c.toNat / 256), hexDigit (c.toNat / 16), hexDigit c.toNat]

def escapeLetter (c : CodeUnit) : Option CodeUnit :=
  if c = 8 then some (unit 'b')
  else if c = 9 then some (unit 't')
  else if c = 10 then some (unit 'n')
  else if c = 12 then some (unit 'f')
  else if c = 13 then some (unit 'r')
  else if c = unit '"' then some (unit '"')
  else if c = unit '\\' then some (unit '\\')
  else none

def escapeUnit (c : CodeUnit) : Str :=
  match escapeLetter c with
  | some e => [unit '\\', e]
  | none => if c.toNat < 32 || isLead c || isTrail c then unicodeEscape c else [c]

/-- The units between the quotes; a surrogate stands for itself only in a pair. -/
def escape : Str → Str
  | [] => []
  | [c] => escapeUnit c
  | c :: d :: s => if isLead c && isTrail d then c :: d :: escape s else escapeUnit c ++ escape (d :: s)

def quote (s : Str) : Str := unit '"' :: (escape s ++ [unit '"'])

def unescape (e : CodeUnit) : Option CodeUnit :=
  if e = unit 'b' then some 8
  else if e = unit 't' then some 9
  else if e = unit 'n' then some 10
  else if e = unit 'f' then some 12
  else if e = unit 'r' then some 13
  else if e = unit '"' then some (unit '"')
  else if e = unit '\\' then some (unit '\\')
  else if e = unit '/' then some (unit '/')
  else none

/-- Where the reader of a string is: between units, behind a backslash, or among hexadecimal
digits, with the number of those to come and the value of those before. -/
inductive Within where
  | plain
  | escaped
  | hex (left value : Nat)

def readString : Within → Str → Option (Str × Str)
  | _, [] => none
  | .plain, c :: s =>
    if c = unit '"' then some ([], s)
    else if c = unit '\\' then readString .escaped s
    else if c.toNat < 32 then none
    else (readString .plain s).map fun p => (c :: p.1, p.2)
  | .escaped, c :: s =>
    if c = unit 'u' then readString (.hex 3 0) s
    else (unescape c).bind fun d => (readString .plain s).map fun p => (d :: p.1, p.2)
  | .hex left value, c :: s =>
    (hexValue c).bind fun h =>
      match left with
      | 0 => (readString .plain s).map fun p => ((16 * value + h).toUInt16 :: p.1, p.2)
      | left + 1 => readString (.hex left (16 * value + h)) s

theorem hexValue_hexDigit (n : Nat) : hexValue (hexDigit n) = some (n % 16) := by
  have h : ∀ k < 16, hexValue (if k < 10 then (48 + k).toUInt16 else (87 + k).toUInt16) = some k := by decide
  exact h _ (Nat.mod_lt n (by decide))

private theorem readString_unicodeEscape (c : CodeUnit) (s : Str) :
    readString .plain (unicodeEscape c ++ s) = (readString .plain s).map fun p => (c :: p.1, p.2) := by
  have hc : (16 * (16 * (16 * (16 * 0 + c.toNat / 4096 % 16) + c.toNat / 256 % 16) + c.toNat / 16 % 16) +
      c.toNat % 16).toUInt16 = c := by
    have hlt := c.toNat_lt
    have hval : 16 * (16 * (16 * (16 * 0 + c.toNat / 4096 % 16) + c.toNat / 256 % 16) + c.toNat / 16 % 16) +
        c.toNat % 16 = c.toNat := by omega
    rw [hval]
    simp
  simp only [unicodeEscape, List.cons_append, List.nil_append]
  rw [readString, if_neg (by decide), if_pos rfl, readString, if_pos rfl]
  simp only [readString, hexValue_hexDigit, Option.bind_some, hc]

private theorem unescape_escapeLetter {c e : CodeUnit} (h : escapeLetter c = some e) :
    unescape e = some c ∧ e ≠ unit 'u' := by
  unfold escapeLetter at h
  repeat' split at h
  all_goals first
    | cases h; subst_vars; exact ⟨by decide,by decide⟩
    | cases h

private theorem escapeLetter_none {c : CodeUnit} (h : escapeLetter c = none) : c ≠ unit '"' ∧ c ≠ unit '\\' := by
  constructor
  · rintro rfl
    revert h
    decide
  · rintro rfl
    revert h
    decide

private theorem readString_plain {c : CodeUnit} (hq : c ≠ unit '"') (hb : c ≠ unit '\\') (h32 : ¬ c.toNat < 32) (s : Str) :
    readString .plain (c :: s) = (readString .plain s).map fun p => (c :: p.1, p.2) := by
  rw [readString, if_neg hq, if_neg hb, if_neg h32]

private theorem readString_escapeUnit (c : CodeUnit) (s : Str) :
    readString .plain (escapeUnit c ++ s) = (readString .plain s).map fun p => (c :: p.1, p.2) := by
  unfold escapeUnit
  split
  · rename_i e he
    obtain ⟨hun,hu⟩ := unescape_escapeLetter he
    simp only [List.cons_append, List.nil_append]
    rw [readString, if_neg (by decide), if_pos rfl, readString, if_neg hu, hun, Option.bind_some]
  · rename_i he
    obtain ⟨hq,hb⟩ := escapeLetter_none he
    split
    · exact readString_unicodeEscape c s
    · rename_i h
      have h32 : ¬ c.toNat < 32 := fun h' => h (by simp [h'])
      exact readString_plain hq hb h32 s

/-- A quoted string reads back. -/
theorem readString_escape (s t : Str) : readString .plain (escape s ++ unit '"' :: t) = some (s, t) := by
  have hend : readString .plain (unit '"' :: t) = some ([], t) := by rw [readString, if_pos rfl]
  induction s using escape.induct with
  | case1 => exact hend
  | case2 c => rw [escape, readString_escapeUnit, hend, Option.map_some]
  | case3 c d s h ih =>
    rw [escape, if_pos h]
    simp only [Bool.and_eq_true, isLead, isTrail, decide_eq_true_eq] at h
    have hne {x : CodeUnit} (hx : 0xD800 ≤ x.toNat) : x ≠ unit '"' ∧ x ≠ unit '\\' ∧ ¬ x.toNat < 32 := by
      refine ⟨?_,?_,by omega⟩
      · rintro rfl
        revert hx
        decide
      · rintro rfl
        revert hx
        decide
    obtain ⟨hc₁,hc₂,hc₃⟩ := hne h.1.1
    obtain ⟨hd₁,hd₂,hd₃⟩ := hne (x := d) (by omega)
    rw [List.cons_append, List.cons_append, readString_plain hc₁ hc₂ hc₃, readString_plain hd₁ hd₂ hd₃, ih]
    rfl
  | case4 c d s h ih =>
    rw [escape, if_neg h, List.append_assoc, readString_escapeUnit, ih, Option.map_some]

end Strings

section Values

mutual
/-- `SerializeJSONProperty` without a gap; what is no finite number is `null`. -/
def Json.stringify : Json → Str
  | .null => units "null"
  | .bool true => units "true"
  | .bool false => units "false"
  | .number (.finite x) => x.toString
  | .number (.infinity _) => units "null"
  | .string s => quote s
  | .array [] => units "[]"
  | .array (v :: vs) => unit '[' :: (v.stringify ++ stringifyItems vs)
  | .object [] => units "{}"
  | .object ((k, v) :: ms) => unit '{' :: (quote k ++ unit ':' :: (v.stringify ++ stringifyMembers ms))

def stringifyItems : List Json → Str
  | [] => [unit ']']
  | v :: vs => unit ',' :: (v.stringify ++ stringifyItems vs)

def stringifyMembers : List (Str × Json) → Str
  | [] => [unit '}']
  | (k, v) :: ms => unit ',' :: (quote k ++ unit ':' :: (v.stringify ++ stringifyMembers ms))
end

def isSpace (c : CodeUnit) : Bool := c = 9 || c = 10 || c = 13 || c = 32

def skipSpace : Str → Str
  | [] => []
  | c :: s => if isSpace c then skipSpace s else c :: s

def expect : Str → Str → Option Str
  | [], s => some s
  | c :: p, s => (after c s).bind (expect p)

mutual
/-- A value, and what follows it. The fuel bounds the depth of the calls. -/
def readValue : Nat → Str → Option (Json × Str)
  | 0, _ => none
  | fuel + 1, s =>
    match skipSpace s with
    | [] => none
    | c :: t =>
      if c = unit '"' then (readString .plain t).map fun p => (.string p.1, p.2)
      else if c = unit '[' then
        match after (unit ']') (skipSpace t) with
        | some r => some (.array [], r)
        | none => (readItems fuel t).map fun p => (.array p.1, p.2)
      else if c = unit '{' then
        match after (unit '}') (skipSpace t) with
        | some r => some (.object [], r)
        | none => (readMembers fuel t).map fun p => (.object p.1, p.2)
      else if c = unit 'n' then (expect (units "ull") t).map fun r => (.null, r)
      else if c = unit 't' then (expect (units "rue") t).map fun r => (.bool true, r)
      else if c = unit 'f' then (expect (units "alse") t).map fun r => (.bool false, r)
      else (readLiteral (c :: t)).map fun p => (.number (toNumber p.1), p.2)

def readItems : Nat → Str → Option (List Json × Str)
  | 0, _ => none
  | fuel + 1, s => (readValue fuel s).bind fun (v, s) =>
    match skipSpace s with
    | [] => none
    | c :: t =>
      if c = unit ',' then (readItems fuel t).map fun p => (v :: p.1, p.2)
      else if c = unit ']' then some ([v], t)
      else none

def readMembers : Nat → Str → Option (List (Str × Json) × Str)
  | 0, _ => none
  | fuel + 1, s => (after (unit '"') (skipSpace s)).bind fun s => (readString .plain s).bind fun (k, s) =>
    (after (unit ':') (skipSpace s)).bind fun s => (readValue fuel s).bind fun (v, s) =>
    match skipSpace s with
    | [] => none
    | c :: t =>
      if c = unit ',' then (readMembers fuel t).map fun p => ((k, v) :: p.1, p.2)
      else if c = unit '}' then some ([(k, v)], t)
      else none
end

def readText (s : Str) : Option Json :=
  (readValue (s.length + 1) s).bind fun p => if skipSpace p.2 = [] then some p.1 else none

mutual
def Json.Finite : Json → Prop
  | .number (.infinity _) => False
  | .array vs => FiniteItems vs
  | .object ms => FiniteMembers ms
  | _ => True

def FiniteItems : List Json → Prop
  | [] => True
  | v :: vs => v.Finite ∧ FiniteItems vs

def FiniteMembers : List (Str × Json) → Prop
  | [] => True
  | (_, v) :: ms => v.Finite ∧ FiniteMembers ms
end

/-- What a value may begin with: no space, no bracket that closes, and no control character. -/
theorem stringify_head (v : Json) : ∃ c t, v.stringify = c :: t ∧ isSpace c = false ∧ c ≠ unit ']' ∧ c ≠ 0 := by
  cases v with
  | null => exact ⟨_,_,rfl,by decide⟩
  | bool b => cases b <;> exact ⟨_,_,rfl,by decide⟩
  | string s => exact ⟨_,_,rfl,by decide⟩
  | array vs => cases vs <;> exact ⟨_,_,rfl,by decide⟩
  | object ms => cases ms <;> exact ⟨_,_,rfl,by decide⟩
  | number n =>
    cases n with
    | infinity b => exact ⟨_,_,rfl,by decide⟩
    | finite x =>
      obtain ⟨c,t,h,hc⟩ := toString_head x
      refine ⟨c,t,h,?_⟩
      rcases hc with rfl | ⟨d,rfl⟩
      · decide
      · have hdigit : ∀ k < 10, isSpace (48 + k).toUInt16 = false ∧ (48 + k).toUInt16 ≠ unit ']' ∧ (48 + k).toUInt16 ≠ 0 := by
          decide
        exact hdigit _ (Nat.mod_lt d (by decide))

private theorem skipSpace_stringify (v : Json) (r : Str) : skipSpace (v.stringify ++ r) = v.stringify ++ r := by
  obtain ⟨c,t,h,hc,_⟩ := stringify_head v
  simp [h, skipSpace, hc]

private theorem skipSpace_unit {c : CodeUnit} (h : isSpace c = false) (r : Str) : skipSpace (c :: r) = c :: r := by
  simp [skipSpace, h]

private theorem ends_cons {c : CodeUnit} (h : digitOf c = none ∧ c ≠ unit '.' ∧ c ≠ unit 'e' ∧ c ≠ unit 'E') (r : Str) :
    Ends (c :: r) := by
  intro d rest hd
  cases hd
  exact h

theorem ends_nil : Ends [] := by
  intro c rest h
  cases h

private theorem ends_items (vs : List Json) (r : Str) : Ends (stringifyItems vs ++ r) := by
  cases vs <;> exact ends_cons (by decide) _

private theorem ends_members (ms : List (Str × Json)) (r : Str) : Ends (stringifyMembers ms ++ r) := by
  cases ms with
  | nil => exact ends_cons (by decide) _
  | cons m ms => exact ends_cons (by decide) _

private theorem length_stringify_pos (v : Json) : 0 < v.stringify.length := by
  obtain ⟨c,t,h,_⟩ := stringify_head v
  simp [h]

private theorem length_items_pos (vs : List Json) : 0 < (stringifyItems vs).length := by
  cases vs <;> simp [stringifyItems]

private theorem length_members_pos (ms : List (Str × Json)) : 0 < (stringifyMembers ms).length := by
  cases ms with
  | nil => simp [stringifyMembers]
  | cons m ms => simp [stringifyMembers]

def ReadsBack (v : Json) : Prop :=
  ∀ n r, v.stringify.length ≤ n → Ends r → readValue n (v.stringify ++ r) = some (v, r)

private theorem readsBack_number (x : Double) : ReadsBack (.number (.finite x)) := by
  intro n r hn hr
  obtain ⟨q,hq,hx⟩ := readLiteral_toString x hr
  obtain ⟨c,t,hc,hhead⟩ := toString_head x
  obtain ⟨m,rfl⟩ : ∃ m, n = m + 1 := ⟨_,(Nat.succ_pred (by have := length_stringify_pos (.number (.finite x)); omega)).symm⟩
  have hne (k : Char) (hd : digitOf (unit k) = none) (hs : unit '-' ≠ unit k) : c ≠ unit k := by
    rcases hhead with rfl | ⟨d,rfl⟩
    · exact hs
    · exact digit_ne_unit hd d
  rw [hc, List.cons_append] at hq
  rw [readValue, skipSpace_stringify, Json.stringify, hc, List.cons_append]
  dsimp only
  rw [if_neg (hne '"' (by decide) (by decide)), if_neg (hne '[' (by decide) (by decide)),
    if_neg (hne '{' (by decide) (by decide)), if_neg (hne 'n' (by decide) (by decide)),
    if_neg (hne 't' (by decide) (by decide)), if_neg (hne 'f' (by decide) (by decide)), hq, Option.map_some, hx]

private theorem readsBack_string (s : Str) : ReadsBack (.string s) := by
  intro n r hn _
  obtain ⟨m,rfl⟩ : ∃ m, n = m + 1 := ⟨_,(Nat.succ_pred (by have := length_stringify_pos (.string s); omega)).symm⟩
  rw [readValue, skipSpace_stringify]
  simp only [Json.stringify, quote, List.cons_append, List.append_assoc, List.nil_append, if_true]
  rw [readString_escape, Option.map_some]

private def ItemsReadBack (vs : List Json) : Prop :=
  ∀ v, ReadsBack v → ∀ n r, (v.stringify ++ stringifyItems vs).length ≤ n →
    readItems n (v.stringify ++ stringifyItems vs ++ r) = some (v :: vs, r)

private theorem itemsReadBack_nil : ItemsReadBack [] := by
  intro v hv n r hn
  simp only [stringifyItems, List.length_append, List.length_singleton] at hn
  obtain ⟨m,rfl⟩ : ∃ m, n = m + 1 := ⟨n - 1,by omega⟩
  rw [readItems, List.append_assoc, hv m _ (by omega) (ends_items [] r)]
  rfl

private theorem itemsReadBack_cons {w : Json} {vs : List Json} (hw : ReadsBack w) (h : ItemsReadBack vs) :
    ItemsReadBack (w :: vs) := by
  intro v hv n r hn
  have hpos := length_stringify_pos v
  simp only [stringifyItems, List.length_append, List.length_cons] at hn
  obtain ⟨m,rfl⟩ : ∃ m, n = m + 1 := ⟨n - 1,by omega⟩
  rw [readItems, List.append_assoc, hv m _ (by omega) (ends_items (w :: vs) r), Option.bind_some]
  simp only [stringifyItems, List.cons_append]
  rw [skipSpace_unit (by decide)]
  dsimp only
  rw [if_pos rfl, h w hw m r (by simp only [List.length_append]; omega), Option.map_some]

private theorem readsBack_array {v : Json} {vs : List Json} (hv : ReadsBack v) (h : ItemsReadBack vs) :
    ReadsBack (.array (v :: vs)) := by
  intro n r hn _
  have hpos := length_items_pos vs
  simp only [Json.stringify, List.length_append, List.length_cons] at hn
  obtain ⟨m,rfl⟩ : ∃ m, n = m + 1 := ⟨n - 1,by omega⟩
  have hclose : after (unit ']') (skipSpace (v.stringify ++ stringifyItems vs ++ r)) = none := by
    obtain ⟨c,t,hc,hspace,hne,_⟩ := stringify_head v
    rw [hc, List.cons_append, List.cons_append, skipSpace_unit hspace]
    exact after_of_ne hne
  rw [readValue, skipSpace_stringify]
  simp only [Json.stringify, List.cons_append]
  rw [if_neg (by decide), if_pos trivial, hclose]
  dsimp only
  rw [h v hv m r (by simp only [List.length_append]; omega), Option.map_some]

private def MembersReadBack (ms : List (Str × Json)) : Prop :=
  ∀ k v, ReadsBack v → ∀ n r, (quote k ++ unit ':' :: (v.stringify ++ stringifyMembers ms)).length ≤ n →
    readMembers n (quote k ++ unit ':' :: (v.stringify ++ stringifyMembers ms) ++ r) = some ((k, v) :: ms, r)

private theorem readMembers_first {m : Nat} {k : Str} {v : Json} (hv : ReadsBack v) {t : Str} (hm : v.stringify.length ≤ m)
    (ht : Ends t) : readMembers (m + 1) (quote k ++ unit ':' :: (v.stringify ++ t)) =
      match skipSpace t with
      | [] => none
      | c :: t =>
        if c = unit ',' then (readMembers m t).map fun p => ((k, v) :: p.1, p.2)
        else if c = unit '}' then some ([(k, v)], t)
        else none := by
  rw [readMembers]
  simp only [quote, List.cons_append, List.append_assoc, List.nil_append]
  rw [skipSpace_unit (by decide), after_cons_self, Option.bind_some, readString_escape, Option.bind_some]
  dsimp only
  rw [skipSpace_unit (by decide), after_cons_self, Option.bind_some, hv m t hm ht]
  rfl

private theorem membersReadBack_nil : MembersReadBack [] := by
  intro k v hv n r hn
  simp only [stringifyMembers, List.length_append, List.length_cons, List.length_nil] at hn
  obtain ⟨m,rfl⟩ : ∃ m, n = m + 1 := ⟨n - 1,by omega⟩
  rw [List.append_assoc, List.cons_append, List.append_assoc, readMembers_first hv (by omega) (ends_members [] r)]
  rfl

private theorem membersReadBack_cons {k' : Str} {w : Json} {ms : List (Str × Json)} (hw : ReadsBack w)
    (h : MembersReadBack ms) : MembersReadBack ((k', w) :: ms) := by
  intro k v hv n r hn
  have hpos := length_stringify_pos v
  simp only [stringifyMembers, List.length_append, List.length_cons] at hn
  obtain ⟨m,rfl⟩ : ∃ m, n = m + 1 := ⟨n - 1,by omega⟩
  rw [List.append_assoc, List.cons_append, List.append_assoc,
    readMembers_first hv (by omega) (ends_members ((k', w) :: ms) r)]
  simp only [stringifyMembers, List.cons_append]
  rw [skipSpace_unit (by decide)]
  dsimp only
  rw [if_pos rfl, h k' w hw m r (by simp only [List.length_append, List.length_cons]; omega), Option.map_some]

private theorem readsBack_object {k : Str} {v : Json} {ms : List (Str × Json)} (hv : ReadsBack v)
    (h : MembersReadBack ms) : ReadsBack (.object ((k, v) :: ms)) := by
  intro n r hn _
  simp only [Json.stringify, List.length_cons] at hn
  obtain ⟨m,rfl⟩ : ∃ m, n = m + 1 := ⟨n - 1,by omega⟩
  have hclose (t : Str) : after (unit '}') (skipSpace (quote k ++ t)) = none := by
    rw [quote, List.cons_append, skipSpace_unit (by decide)]
    exact after_of_ne (by decide)
  rw [readValue, skipSpace_stringify]
  simp only [Json.stringify, List.cons_append]
  rw [if_neg (by decide), if_neg (by decide), if_pos trivial, List.append_assoc, hclose]
  dsimp only
  rw [← List.append_assoc, h k v hv m r (by omega), Option.map_some]

private theorem readsBack_fixed {v : Json} (h : ∀ n r, readValue (n + 1) (v.stringify ++ r) = some (v, r)) : ReadsBack v := by
  intro n r hn _
  have hpos := length_stringify_pos v
  obtain ⟨m,rfl⟩ : ∃ m, n = m + 1 := ⟨n - 1,by omega⟩
  exact h m r

mutual
theorem readsBack : ∀ v : Json, v.Finite → ReadsBack v
  | .null, _ => readsBack_fixed fun _ _ => rfl
  | .bool true, _ => readsBack_fixed fun _ _ => rfl
  | .bool false, _ => readsBack_fixed fun _ _ => rfl
  | .number (.finite x), _ => readsBack_number x
  | .number (.infinity _), h => absurd h (by simp [Json.Finite])
  | .string s, _ => readsBack_string s
  | .array [], _ => readsBack_fixed fun _ _ => rfl
  | .array (v :: vs), h => readsBack_array (readsBack v h.1) (itemsReadBack vs h.2)
  | .object [], _ => readsBack_fixed fun _ _ => rfl
  | .object ((_, v) :: ms), h => readsBack_object (readsBack v h.1) (membersReadBack ms h.2)

theorem itemsReadBack : ∀ vs : List Json, FiniteItems vs → ItemsReadBack vs
  | [], _ => itemsReadBack_nil
  | v :: vs, h => itemsReadBack_cons (readsBack v h.1) (itemsReadBack vs h.2)

theorem membersReadBack : ∀ ms : List (Str × Json), FiniteMembers ms → MembersReadBack ms
  | [], _ => membersReadBack_nil
  | (_, v) :: ms, h => membersReadBack_cons (readsBack v h.1) (membersReadBack ms h.2)
end

/-- What is written is read back. -/
theorem readText_stringify {v : Json} (h : v.Finite) : readText v.stringify = some v := by
  have hread := readsBack v h (v.stringify.length + 1) [] (by omega) ends_nil
  rw [List.append_nil] at hread
  rw [readText, hread]
  rfl

theorem stringify_injective {v w : Json} (hv : v.Finite) (hw : w.Finite) (h : v.stringify = w.stringify) : v = w := by
  have hr := readText_stringify hv
  rw [h, readText_stringify hw] at hr
  exact (Option.some.inj hr).symm

mutual
def Json.finitize : Json → Json
  | .number (.infinity _) => .null
  | .array vs => .array (finitizeItems vs)
  | .object ms => .object (finitizeMembers ms)
  | v => v

def finitizeItems : List Json → List Json
  | [] => []
  | v :: vs => v.finitize :: finitizeItems vs

def finitizeMembers : List (Str × Json) → List (Str × Json)
  | [] => []
  | (k, v) :: ms => (k, v.finitize) :: finitizeMembers ms
end

theorem finitizeItems_eq_map (vs : List Json) : finitizeItems vs = vs.map Json.finitize := by
  induction vs with
  | nil => rfl
  | cons v vs ih => rw [finitizeItems, ih, List.map_cons]

theorem finitizeMembers_eq_map (ms : List (Str × Json)) : finitizeMembers ms = ms.map fun m => (m.1, m.2.finitize) := by
  induction ms with
  | nil => rfl
  | cons m ms ih => rw [finitizeMembers, ih, List.map_cons]

mutual
private theorem finite_finitize : ∀ v : Json, v.finitize.Finite
  | .null => trivial
  | .bool _ => trivial
  | .number (.finite _) => trivial
  | .number (.infinity _) => trivial
  | .string _ => trivial
  | .array vs => finite_finitizeItems vs
  | .object ms => finite_finitizeMembers ms

private theorem finite_finitizeItems : ∀ vs : List Json, FiniteItems (finitizeItems vs)
  | [] => trivial
  | v :: vs => ⟨finite_finitize v,finite_finitizeItems vs⟩

private theorem finite_finitizeMembers : ∀ ms : List (Str × Json), FiniteMembers (finitizeMembers ms)
  | [] => trivial
  | (_, v) :: ms => ⟨finite_finitize v,finite_finitizeMembers ms⟩
end

mutual
private theorem stringify_finitize : ∀ v : Json, v.finitize.stringify = v.stringify
  | .null => rfl
  | .bool _ => rfl
  | .number (.finite _) => rfl
  | .number (.infinity _) => rfl
  | .string _ => rfl
  | .array [] => rfl
  | .array (v :: vs) => by
    rw [Json.finitize, finitizeItems, Json.stringify, Json.stringify, stringify_finitize v, stringify_finitizeItems vs]
  | .object [] => rfl
  | .object ((k, v) :: ms) => by
    rw [Json.finitize, finitizeMembers, Json.stringify, Json.stringify, stringify_finitize v, stringify_finitizeMembers ms]

private theorem stringify_finitizeItems : ∀ vs : List Json, stringifyItems (finitizeItems vs) = stringifyItems vs
  | [] => rfl
  | v :: vs => by
    rw [finitizeItems, stringifyItems, stringifyItems, stringify_finitize v, stringify_finitizeItems vs]

private theorem stringify_finitizeMembers :
    ∀ ms : List (Str × Json), stringifyMembers (finitizeMembers ms) = stringifyMembers ms
  | [] => rfl
  | (k, v) :: ms => by
    rw [finitizeMembers, stringifyMembers, stringifyMembers, stringify_finitize v, stringify_finitizeMembers ms]
end

/-- Two values have one text iff they are the same as far as they are written. -/
theorem stringify_eq_iff {v w : Json} : v.stringify = w.stringify ↔ v.finitize = w.finitize := by
  constructor
  · intro h
    rw [← stringify_finitize v, ← stringify_finitize w] at h
    exact stringify_injective (finite_finitize v) (finite_finitize w) h
  · intro h
    rw [← stringify_finitize v, ← stringify_finitize w, h]

end Values

end Nivara.Text
