import Mathlib.Data.List.TakeWhile
import Nivara.Text.Json

/-! Strings as bytes: UTF-8 with replacement of what is malformed, and base64url. -/
namespace Nivara.Text

section Utf8

def byte (n : Nat) : UInt8 := n.toUInt8

theorem byte_toNat {n : Nat} (h : n < 256) : (byte n).toNat = n := by
  simp only [byte, Nat.toUInt8_eq, UInt8.toNat_ofNat']
  omega

def replacement : Nat := 0xFFFD

def encodeScalar (n : Nat) : List UInt8 :=
  if n < 0x80 then [byte n]
  else if n < 0x800 then [byte (0xC0 + n / 64), byte (0x80 + n % 64)]
  else if n < 0x10000 then [byte (0xE0 + n / 4096), byte (0x80 + n / 64 % 64), byte (0x80 + n % 64)]
  else [byte (0xF0 + n / 262144), byte (0x80 + n / 4096 % 64), byte (0x80 + n / 64 % 64), byte (0x80 + n % 64)]

def isSurrogate (c : CodeUnit) : Bool := isLead c || isTrail c

def pairValue (c d : CodeUnit) : Nat := 0x10000 + (c.toNat - 0xD800) * 0x400 + (d.toNat - 0xDC00)

/-- `Buffer.from(string)`. A surrogate without its other half is replaced. -/
def encodeUtf8 : Str → List UInt8
  | [] => []
  | [c] => encodeScalar (if isSurrogate c then replacement else c.toNat)
  | c :: d :: s =>
    if isLead c && isTrail d then encodeScalar (pairValue c d) ++ encodeUtf8 s
    else encodeScalar (if isSurrogate c then replacement else c.toNat) ++ encodeUtf8 (d :: s)

def toUnits (n : Nat) : Str :=
  if n < 0x10000 then [n.toUInt16]
  else [(0xD800 + (n - 0x10000) / 0x400).toUInt16, (0xDC00 + (n - 0x10000) % 0x400).toUInt16]

def utf16 (s : String) : Str := s.toList.flatMap fun c => toUnits c.toNat

def wellFormed : Str → String
  | [] => ""
  | [c] => singleton c
  | c :: d :: s =>
    if isLead c && isTrail d then String.singleton (Char.ofNat (pairValue c d)) ++ wellFormed s
    else singleton c ++ wellFormed (d :: s)
where
  singleton (c : CodeUnit) : String := String.singleton (Char.ofNat (if isSurrogate c then replacement else c.toNat))

/-- Where a decoder is: between scalar values, or inside one, with the number of bytes to come, the
bounds of the next one, and the value so far. -/
inductive Decoding where
  | idle
  | need (left lower upper value : Nat)

def startScalar (b : Nat) : Str × Decoding :=
  if b ≤ 0x7F then (toUnits b, .idle)
  else if 0xC2 ≤ b ∧ b ≤ 0xDF then ([], .need 0 0x80 0xBF (b - 0xC0))
  else if 0xE0 ≤ b ∧ b ≤ 0xEF then
    ([], .need 1 (if b = 0xE0 then 0xA0 else 0x80) (if b = 0xED then 0x9F else 0xBF) (b - 0xE0))
  else if 0xF0 ≤ b ∧ b ≤ 0xF4 then
    ([], .need 2 (if b = 0xF0 then 0x90 else 0x80) (if b = 0xF4 then 0x8F else 0xBF) (b - 0xF0))
  else (toUnits replacement, .idle)

/-- A byte out of bounds ends what was begun with a replacement, and is taken as a first byte. -/
def decodeByte : Decoding → Nat → Str × Decoding
  | .idle, b => startScalar b
  | .need left lower upper value, b =>
    if lower ≤ b ∧ b ≤ upper then
      match left with
      | 0 => (toUnits (64 * value + (b - 0x80)), .idle)
      | left + 1 => ([], .need left 0x80 0xBF (64 * value + (b - 0x80)))
    else (toUnits replacement ++ (startScalar b).1, (startScalar b).2)

def decodeUtf8 : Decoding → List UInt8 → Str
  | .idle, [] => []
  | .need _ _ _ _, [] => toUnits replacement
  | st, b :: bs => (decodeByte st b.toNat).1 ++ decodeUtf8 (decodeByte st b.toNat).2 bs

def isWellFormed : Str → Bool
  | [] => true
  | [c] => !isSurrogate c
  | c :: d :: s => if isLead c && isTrail d then isWellFormed s else !isSurrogate c && isWellFormed (d :: s)

private theorem decode_next {left lower upper value b : Nat} (h : lower ≤ b ∧ b ≤ upper) (hb : b < 256) (bs : List UInt8) :
    decodeUtf8 (.need (left + 1) lower upper value) (byte b :: bs) =
      decodeUtf8 (.need left 0x80 0xBF (64 * value + (b - 0x80))) bs := by
  rw [decodeUtf8, byte_toNat hb, decodeByte, if_pos h]
  rfl

private theorem decode_last {lower upper value b : Nat} (h : lower ≤ b ∧ b ≤ upper) (hb : b < 256) (bs : List UInt8) :
    decodeUtf8 (.need 0 lower upper value) (byte b :: bs) = toUnits (64 * value + (b - 0x80)) ++ decodeUtf8 .idle bs := by
  rw [decodeUtf8, byte_toNat hb, decodeByte, if_pos h]

private theorem decode_start {b : Nat} (hb : b < 256) (bs : List UInt8) :
    decodeUtf8 .idle (byte b :: bs) = (startScalar b).1 ++ decodeUtf8 (startScalar b).2 bs := by
  rw [decodeUtf8, byte_toNat hb, decodeByte]

/-- A scalar value that is no surrogate is decoded from its bytes. -/
theorem decode_encodeScalar {n : Nat} (h : n < 0xD800 ∨ 0xDFFF < n ∧ n < 0x110000) (bs : List UInt8) :
    decodeUtf8 .idle (encodeScalar n ++ bs) = toUnits n ++ decodeUtf8 .idle bs := by
  unfold encodeScalar
  split
  · rw [List.singleton_append, decode_start (by omega), startScalar, if_pos (by omega)]
  · split
    · simp only [List.cons_append, List.nil_append]
      rw [decode_start (by omega), startScalar, if_neg (by omega), if_pos (by omega)]
      dsimp only
      have hval : 64 * (0xC0 + n / 64 - 0xC0) + (0x80 + n % 64 - 0x80) = n := by omega
      rw [List.nil_append, decode_last (by omega) (by omega), hval]
    · split
      · simp only [List.cons_append, List.nil_append]
        rw [decode_start (by omega), startScalar, if_neg (by omega), if_neg (by omega), if_pos (by omega)]
        dsimp only
        have hval : 64 * (64 * (0xE0 + n / 4096 - 0xE0) + (0x80 + n / 64 % 64 - 0x80)) + (0x80 + n % 64 - 0x80) = n := by
          omega
        rw [List.nil_append, decode_next (by split <;> split <;> omega) (by omega), decode_last (by omega) (by omega), hval]
      · simp only [List.cons_append, List.nil_append]
        rw [decode_start (by omega), startScalar, if_neg (by omega), if_neg (by omega), if_neg (by omega),
          if_pos (by omega)]
        dsimp only
        have hval : 64 * (64 * (64 * (0xF0 + n / 262144 - 0xF0) + (0x80 + n / 4096 % 64 - 0x80)) +
            (0x80 + n / 64 % 64 - 0x80)) + (0x80 + n % 64 - 0x80) = n := by omega
        rw [List.nil_append, decode_next (by split <;> split <;> omega) (by omega), decode_next (by omega) (by omega),
          decode_last (by omega) (by omega), hval]

private theorem toUnits_unit (c : CodeUnit) : toUnits c.toNat = [c] := by
  have hlt := c.toNat_lt
  rw [toUnits, if_pos (by omega)]
  simp

private theorem toUnits_pairValue {c d : CodeUnit} (h : (isLead c && isTrail d) = true) : toUnits (pairValue c d) = [c, d] := by
  simp only [Bool.and_eq_true, isLead, isTrail, decide_eq_true_eq] at h
  have hbig : ¬ pairValue c d < 0x10000 := by
    unfold pairValue
    omega
  have hc : 0xD800 + (pairValue c d - 0x10000) / 0x400 = c.toNat := by
    unfold pairValue
    omega
  have hd : 0xDC00 + (pairValue c d - 0x10000) % 0x400 = d.toNat := by
    unfold pairValue
    omega
  rw [toUnits, if_neg hbig, hc, hd]
  simp

private theorem decode_unit {c : CodeUnit} (h : isSurrogate c = false) (bs : List UInt8) :
    decodeUtf8 .idle (encodeScalar (if isSurrogate c then replacement else c.toNat) ++ bs) = c :: decodeUtf8 .idle bs := by
  have hlt := c.toNat_lt
  simp only [isSurrogate, isLead, isTrail, Bool.or_eq_false_iff, Bool.and_eq_false_iff, decide_eq_false_iff_not] at h
  rw [if_neg (by simp [isSurrogate, isLead, isTrail]; omega), decode_encodeScalar (by omega), toUnits_unit]
  rfl

/-- A well-formed string survives its bytes. -/
theorem decode_encodeUtf8 {s : Str} (h : isWellFormed s = true) : decodeUtf8 .idle (encodeUtf8 s) = s := by
  induction s using encodeUtf8.induct with
  | case1 => rfl
  | case2 c =>
    have hc : isSurrogate c = false := by simpa [isWellFormed] using h
    rw [encodeUtf8, ← List.append_nil (encodeScalar _), decode_unit hc]
    rfl
  | case3 c d s hp ih =>
    rw [isWellFormed, if_pos hp] at h
    have hrange := hp
    simp only [Bool.and_eq_true, isLead, isTrail, decide_eq_true_eq] at hrange
    have hscalar : pairValue c d < 0xD800 ∨ 0xDFFF < pairValue c d ∧ pairValue c d < 0x110000 := by
      unfold pairValue
      omega
    rw [encodeUtf8, if_pos hp, decode_encodeScalar hscalar, toUnits_pairValue hp, ih h]
    rfl
  | case4 c d s hp ih =>
    rw [isWellFormed, if_neg hp, Bool.and_eq_true] at h
    rw [encodeUtf8, if_neg hp, decode_unit (by simpa using h.1), ih h.2]

theorem isWellFormed_append {s t : Str} (hs : isWellFormed s = true) (ht : isWellFormed t = true) :
    isWellFormed (s ++ t) = true := by
  have hcons {c : CodeUnit} (hc : isSurrogate c = false) {u : Str} (hu : isWellFormed u = true) :
      isWellFormed (c :: u) = true := by
    have hlead : isLead c = false := (Bool.or_eq_false_iff.mp hc).1
    cases u with
    | nil => simp [isWellFormed, hc]
    | cons d u => simp [isWellFormed, hc, hlead, hu]
  induction s using isWellFormed.induct with
  | case1 => exact ht
  | case2 c => exact hcons (by simpa [isWellFormed] using hs) ht
  | case3 c d s hp ih =>
    rw [isWellFormed, if_pos hp] at hs
    rw [List.cons_append, List.cons_append, isWellFormed, if_pos hp]
    exact ih hs
  | case4 c d s hp ih =>
    rw [isWellFormed, if_neg hp, Bool.and_eq_true] at hs
    exact hcons (by simpa using hs.1) (ih hs.2)

theorem isWellFormed_of_all {s : Str} (h : ∀ c ∈ s, isSurrogate c = false) : isWellFormed s = true := by
  induction s with
  | nil => rfl
  | cons c s ih =>
    exact isWellFormed_append (s := [c]) (by simp [isWellFormed, h c (by simp)]) (ih fun d hd => h d (by simp [hd]))

private theorem lt_of_encodeScalar {n : Nat} (h : ∀ b ∈ encodeScalar n, b.toNat < 0x80) : n < 0x80 := by
  by_contra hn
  have hlast : byte (0x80 + n % 64) ∈ encodeScalar n := by
    unfold encodeScalar
    rw [if_neg hn]
    split
    · simp
    · split <;> simp
  have hlt := h _ hlast
  rw [byte_toNat (by omega)] at hlt
  omega

private theorem ascii_encodeScalar {n : Nat} (hn : n < 0x80) : ∀ b ∈ encodeScalar n, b.toNat < 0x80 := by
  intro b hb
  rw [encodeScalar, if_pos hn, List.mem_singleton] at hb
  rw [hb, byte_toNat (by omega)]
  exact hn

private theorem not_isSurrogate {c : CodeUnit} (h : c.toNat < 0x80) : isSurrogate c = false := by
  simp only [isSurrogate, isLead, isTrail, Bool.or_eq_false_iff, Bool.and_eq_false_iff, decide_eq_false_iff_not]
  omega

private theorem lt_of_unit {c : CodeUnit} (h : ∀ b ∈ encodeScalar (if isSurrogate c then replacement else c.toNat), b.toNat < 0x80) :
    c.toNat < 0x80 := by
  have hlt := lt_of_encodeScalar h
  split at hlt
  · exact absurd hlt (by decide)
  · exact hlt

private theorem ascii_of_encodeUtf8 {s : Str} (h : ∀ b ∈ encodeUtf8 s, b.toNat < 0x80) : ∀ c ∈ s, c.toNat < 0x80 := by
  induction s using encodeUtf8.induct with
  | case1 => exact fun c hc => by cases hc
  | case2 c =>
    rw [encodeUtf8] at h
    simpa using lt_of_unit h
  | case3 c d s hp ih =>
    rw [encodeUtf8, if_pos hp] at h
    -- a pair is beyond ASCII
    have hlt := lt_of_encodeScalar fun b hb => h b (List.mem_append_left _ hb)
    unfold pairValue at hlt
    omega
  | case4 c d s hp ih =>
    rw [encodeUtf8, if_neg hp] at h
    rw [List.forall_mem_cons]
    exact ⟨lt_of_unit fun b hb => h b (List.mem_append_left _ hb),ih fun b hb => h b (List.mem_append_right _ hb)⟩

private theorem ascii_encodeUtf8 {s : Str} (h : ∀ c ∈ s, c.toNat < 0x80) : ∀ b ∈ encodeUtf8 s, b.toNat < 0x80 := by
  have hunit : ∀ c : CodeUnit, c.toNat < 0x80 → (if isSurrogate c then replacement else c.toNat) < 0x80 := by
    intro c hc
    rw [if_neg (by simp [not_isSurrogate hc])]
    exact hc
  induction s using encodeUtf8.induct with
  | case1 => exact fun b hb => by cases hb
  | case2 c => exact ascii_encodeScalar (hunit c (h c (by simp)))
  | case3 c d s hp ih =>
    have hlead := (Bool.or_eq_false_iff.mp (not_isSurrogate (h c (by simp)))).1
    rw [hlead] at hp
    cases hp
  | case4 c d s hp ih =>
    rw [List.forall_mem_cons] at h
    intro b hb
    rw [encodeUtf8, if_neg hp] at hb
    rcases List.mem_append.mp hb with hb | hb
    · exact ascii_encodeScalar (hunit c h.1) b hb
    · exact ih h.2 b hb

/-- No other string has the bytes of one in ASCII, malformed or not. -/
theorem eq_of_encodeUtf8_ascii {s t : Str} (ht : ∀ c ∈ t, c.toNat < 0x80) (h : encodeUtf8 s = encodeUtf8 t) : s = t := by
  have hs : ∀ c ∈ s, c.toNat < 0x80 := ascii_of_encodeUtf8 (h ▸ ascii_encodeUtf8 ht)
  have hdecode := congrArg (decodeUtf8 .idle) h
  rwa [decode_encodeUtf8 (isWellFormed_of_all fun c hc => not_isSurrogate (hs c hc)),
    decode_encodeUtf8 (isWellFormed_of_all fun c hc => not_isSurrogate (ht c hc))] at hdecode

private theorem digit_plain (n : Nat) : isSurrogate (digit n) = false := by
  have h : ∀ k < 10, isSurrogate (48 + k).toUInt16 = false := by decide
  exact h _ (Nat.mod_lt n (by decide))

private theorem hexDigit_plain (n : Nat) : isSurrogate (hexDigit n) = false := by
  have h : ∀ k < 16, isSurrogate (if k < 10 then (48 + k).toUInt16 else (87 + k).toUInt16) = false := by decide
  exact h _ (Nat.mod_lt n (by decide))

private theorem digits_plain (ds : List Nat) : ∀ c ∈ ds.map digit, isSurrogate c = false := by
  intro c hc
  obtain ⟨d,_,rfl⟩ := List.mem_map.mp hc
  exact digit_plain d

private theorem numeral_plain (m : Nat) (e : ℤ) : ∀ c ∈ numeral m e, isSurrogate c = false := by
  have hpoint : isSurrogate (unit '.') = false := by decide
  have hexp : isSurrogate (unit 'e') = false := by decide
  have hsign (b : Prop) [Decidable b] : isSurrogate (unit (if b then '-' else '+')) = false := by split <;> decide
  intro c hc
  unfold numeral at hc
  dsimp only at hc
  split at hc
  · exact digits_plain _ c hc
  · split at hc
    · rcases List.mem_append.mp hc with hc | hc
      · exact digits_plain _ c hc
      · rcases List.mem_cons.mp hc with rfl | hc
        · exact hpoint
        · exact digits_plain _ c hc
    · split at hc
      · rcases List.mem_cons.mp hc with rfl | hc
        · exact digit_plain 0
        · rcases List.mem_cons.mp hc with rfl | hc
          · exact hpoint
          · exact digits_plain _ c hc
      · rcases List.mem_append.mp hc with hc | hc
        · exact digits_plain _ c hc
        · rcases List.mem_append.mp hc with hc | hc
          · split at hc
            · cases hc
            · rcases List.mem_cons.mp hc with rfl | hc
              · exact hpoint
              · exact digits_plain _ c hc
          · rcases List.mem_cons.mp hc with rfl | hc
            · exact hexp
            · rcases List.mem_cons.mp hc with rfl | hc
              · exact hsign _
              · exact digits_plain _ c hc

private theorem isWellFormed_toString (x : Double) : isWellFormed x.toString = true := by
  unfold Double.toString
  split
  · decide
  · split
    · exact isWellFormed_append (s := [unit '-']) (by decide) (isWellFormed_of_all (numeral_plain _ _))
    · exact isWellFormed_of_all (numeral_plain _ _)

private theorem isWellFormed_escapeUnit (c : CodeUnit) : isWellFormed (escapeUnit c) = true := by
  unfold escapeUnit
  split
  · rename_i e he
    apply isWellFormed_of_all
    intro d hd
    unfold escapeLetter at he
    simp only [List.mem_cons, List.not_mem_nil, or_false] at hd
    rcases hd with rfl | rfl
    · decide
    · repeat' split at he
      all_goals first
        | cases he; decide
        | cases he
  · split
    · apply isWellFormed_of_all
      intro d hd
      simp only [unicodeEscape, List.mem_cons, List.not_mem_nil, or_false] at hd
      rcases hd with rfl | rfl | rfl | rfl | rfl | rfl
      · decide
      · decide
      · exact hexDigit_plain _
      · exact hexDigit_plain _
      · exact hexDigit_plain _
      · exact hexDigit_plain _
    · rename_i h
      have hc : isSurrogate c = false := by
        simp only [Bool.or_eq_true, not_or] at h
        simp [isSurrogate, h.1.2, h.2]
      simp [isWellFormed, hc]

private theorem isWellFormed_escape (s : Str) : isWellFormed (escape s) = true := by
  induction s using escape.induct with
  | case1 => rfl
  | case2 c => exact isWellFormed_escapeUnit c
  | case3 c d s hp ih => rw [escape, if_pos hp, isWellFormed, if_pos hp, ih]
  | case4 c d s hp ih =>
    rw [escape, if_neg hp]
    exact isWellFormed_append (isWellFormed_escapeUnit c) ih

private theorem isWellFormed_cons {c : CodeUnit} (hc : isSurrogate c = false) {s : Str} (h : isWellFormed s = true) :
    isWellFormed (c :: s) = true :=
  isWellFormed_append (s := [c]) (by simp [isWellFormed, hc]) h

private theorem isWellFormed_quote (s : Str) : isWellFormed (quote s) = true :=
  isWellFormed_cons (by decide) (isWellFormed_append (isWellFormed_escape s) (by decide))

mutual
/-- No JSON text has half a pair in it. -/
theorem isWellFormed_stringify : ∀ v : Json, isWellFormed v.stringify = true
  | .null => by decide
  | .bool true => by decide
  | .bool false => by decide
  | .number (.finite x) => isWellFormed_toString x
  | .number (.infinity _) => by
    rw [Json.stringify]
    decide
  | .string s => isWellFormed_quote s
  | .array [] => by decide
  | .array (v :: vs) =>
    isWellFormed_cons (by decide) (isWellFormed_append (isWellFormed_stringify v) (isWellFormed_items vs))
  | .object [] => by decide
  | .object ((k, v) :: ms) => isWellFormed_cons (by decide) (isWellFormed_append (isWellFormed_quote k)
      (isWellFormed_cons (by decide) (isWellFormed_append (isWellFormed_stringify v) (isWellFormed_members ms))))

theorem isWellFormed_items : ∀ vs : List Json, isWellFormed (stringifyItems vs) = true
  | [] => by decide
  | v :: vs => isWellFormed_cons (by decide) (isWellFormed_append (isWellFormed_stringify v) (isWellFormed_items vs))

theorem isWellFormed_members : ∀ ms : List (Str × Json), isWellFormed (stringifyMembers ms) = true
  | [] => by decide
  | (k, v) :: ms => isWellFormed_cons (by decide) (isWellFormed_append (isWellFormed_quote k)
      (isWellFormed_cons (by decide) (isWellFormed_append (isWellFormed_stringify v) (isWellFormed_members ms))))
end

end Utf8

section Base64

def letter (n : Nat) : CodeUnit :=
  if n < 26 then (65 + n).toUInt16
  else if n < 52 then (71 + n).toUInt16
  else if n < 62 then (n - 4).toUInt16
  else if n = 62 then unit '-' else unit '_'

/-- `buffer.toString('base64url')`, which is not padded. -/
def encodeBase64 : List UInt8 → Str
  | [] => []
  | [a] => [letter (a.toNat / 4), letter (a.toNat % 4 * 16)]
  | [a, b] => [letter (a.toNat / 4), letter (a.toNat % 4 * 16 + b.toNat / 16), letter (b.toNat % 16 * 4)]
  | a :: b :: c :: bs =>
    letter (a.toNat / 4) :: letter (a.toNat % 4 * 16 + b.toNat / 16) :: letter (b.toNat % 16 * 4 + c.toNat / 64) ::
      letter (c.toNat % 64) :: encodeBase64 bs

/-- `Buffer.from(string, 'base64url')`: what a host makes of any string at all, as long as it
undoes the encoding. -/
structure Base64Decoder where
  decode : Str → List UInt8
  decode_encode : ∀ bs, decode (encodeBase64 bs) = bs

def sextet (c : CodeUnit) : Option Nat :=
  if 65 ≤ c.toNat ∧ c.toNat ≤ 90 then some (c.toNat - 65)
  else if 97 ≤ c.toNat ∧ c.toNat ≤ 122 then some (c.toNat - 71)
  else if 48 ≤ c.toNat ∧ c.toNat ≤ 57 then some (c.toNat + 4)
  else if c = unit '-' ∨ c = unit '+' then some 62
  else if c = unit '_' ∨ c = unit '/' then some 63
  else none

def fromSextets : List Nat → List UInt8
  | w :: x :: y :: z :: ns => byte (w * 4 + x / 16) :: byte (x % 16 * 16 + y / 4) :: byte (y % 4 * 64 + z) :: fromSextets ns
  | [w, x, y] => [byte (w * 4 + x / 16), byte (x % 16 * 16 + y / 4)]
  | [w, x] => [byte (w * 4 + x / 16)]
  | _ => []

private theorem sextet_letter {n : Nat} (h : n < 64) : sextet (letter n) = some n := by
  have hall : ∀ k < 64, sextet (letter k) = some k := by decide
  exact hall n h

private theorem byte_eq (b : UInt8) {n : Nat} (h : n = b.toNat) : byte n = b := by
  subst h
  simp [byte]

private theorem fromSextets_encode (bs : List UInt8) : fromSextets ((encodeBase64 bs).filterMap sextet) = bs := by
  induction bs using encodeBase64.induct with
  | case1 => rfl
  | case2 a =>
    have ha := a.toNat_lt
    simp only [encodeBase64, List.filterMap_cons, List.filterMap_nil]
    rw [sextet_letter (by omega), sextet_letter (by omega)]
    simp only [fromSextets]
    rw [byte_eq a (by omega)]
  | case3 a b =>
    have ha := a.toNat_lt
    have hb := b.toNat_lt
    simp only [encodeBase64, List.filterMap_cons, List.filterMap_nil]
    rw [sextet_letter (by omega), sextet_letter (by omega), sextet_letter (by omega)]
    simp only [fromSextets]
    rw [byte_eq a (by omega), byte_eq b (by omega)]
  | case4 a b c bs ih =>
    have ha := a.toNat_lt
    have hb := b.toNat_lt
    have hc := c.toNat_lt
    simp only [encodeBase64, List.filterMap_cons]
    rw [sextet_letter (by omega), sextet_letter (by omega), sextet_letter (by omega), sextet_letter (by omega)]
    simp only [fromSextets]
    rw [byte_eq a (by omega), byte_eq b (by omega), byte_eq c (by omega), ih]

theorem letters_encode (bs : List UInt8) : ∀ c ∈ encodeBase64 bs, ∃ n < 64, c = letter n := by
  induction bs using encodeBase64.induct with
  | case1 => simp [encodeBase64]
  | case2 a =>
    have ha := a.toNat_lt
    simp only [encodeBase64, List.forall_mem_cons]
    exact ⟨⟨_,by omega,rfl⟩,⟨_,by omega,rfl⟩,by simp⟩
  | case3 a b =>
    have ha := a.toNat_lt
    have hb := b.toNat_lt
    simp only [encodeBase64, List.forall_mem_cons]
    exact ⟨⟨_,by omega,rfl⟩,⟨_,by omega,rfl⟩,⟨_,by omega,rfl⟩,by simp⟩
  | case4 a b c bs ih =>
    have ha := a.toNat_lt
    have hb := b.toNat_lt
    have hc := c.toNat_lt
    simp only [encodeBase64, List.forall_mem_cons]
    exact ⟨⟨_,by omega,rfl⟩,⟨_,by omega,rfl⟩,⟨_,by omega,rfl⟩,⟨_,by omega,rfl⟩,ih⟩

def forgiving : Base64Decoder where
  decode s := fromSextets ((s.takeWhile (· ≠ unit '=')).filterMap sextet)
  decode_encode bs := by
    have hpad : ∀ k < 64, letter k ≠ unit '=' := by decide
    have hall : (encodeBase64 bs).takeWhile (· ≠ unit '=') = encodeBase64 bs := by
      rw [List.takeWhile_eq_self_iff]
      intro c hc
      obtain ⟨n,hn,rfl⟩ := letters_encode bs c hc
      simpa using hpad n hn
    rw [hall]
    exact fromSextets_encode bs

end Base64

end Nivara.Text
