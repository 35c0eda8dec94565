import Nivara.Limiter.ClientIp
import Nivara.Text.Json
import Nivara.Text.Rounding

/-! `Number(text)`, and how far an instant is from a number of seconds, as `integrations/signature-scheme.ts` computes it:
in doubles. -/
namespace Nivara.Integrations
open Text
open Limiter (isBlank trim)

def radixOf (c : CodeUnit) : Option ℕ :=
  if c = unit 'x' ∨ c = unit 'X' then some 16
  else if c = unit 'o' ∨ c = unit 'O' then some 8
  else if c = unit 'b' ∨ c = unit 'B' then some 2
  else none

def radixLiteral : Str → Option ℕ
  | z :: c :: d :: ds =>
    if z = digit 0 then (radixOf c).bind fun radix =>
      if (d :: ds).all (fun d => (hexValue d).any (· < radix)) then
        some ((d :: ds).foldl (fun n d => radix * n + (hexValue d).getD 0) 0)
      else none
    else none
  | _ => none

def unsignedLiteral (s : Str) : Option ℚ :=
  let whole := (spanDigits s).1
  let fraction := ((after (unit '.') (spanDigits s).2).map spanDigits).getD ([], (spanDigits s).2)
  if whole = [] ∧ fraction.1 = [] then none
  else (readExponent fraction.2).bind fun power =>
    if power.2 = [] then some (valueOf (whole ++ fraction.1) * 10 ^ (power.1 - fraction.1.length)) else none

def infinityText : Str := units "Infinity"

def decimalLiteral (s : Str) : Option Number :=
  match after (unit '-') s with
  | some t => if t = infinityText then some (.infinity true) else (unsignedLiteral t).map fun q => toNumber (-q)
  | none =>
    let t := (after (unit '+') s).getD s
    if t = infinityText then some (.infinity false) else (unsignedLiteral t).map toNumber

/-- `Number(text)`; `none` is `NaN`. -/
def stringToNumber (s : Str) : Option Number :=
  let t := trim s
  if t = [] then some (toNumber 0) else ((radixLiteral t).map fun n => toNumber n).or (decimalLiteral t)

def decimal (n : ℕ) : Str := if n = 0 then [digit 0] else (digitsOf n).map digit

/-- `Math.abs(now.getTime() / 1000 - sentAt)`. Neither operation is out of the range of doubles. -/
def skewSeconds (now : Instant) (sentAt : Double) : ℚ := |roundSigned (roundSigned (now.1 / 1000) - sentAt.val)|

section Colons
variable {s t : Str}

private theorem colon_ne_digit {c : CodeUnit} (h : (digitOf c).isSome) : unit ':' ≠ c := by
  rintro rfl
  revert h
  decide

private theorem colon_span (h : unit ':' ∈ s) : unit ':' ∈ (spanDigits s).2 := by
  induction s with
  | nil => cases h
  | cons c s ih =>
    cases hc : digitOf c with
    | none => simpa [spanDigits, hc] using h
    | some d =>
      have hne : unit ':' ≠ c := colon_ne_digit (by rw [hc]; rfl)
      simpa [spanDigits, hc] using ih ((List.mem_cons.mp h).resolve_left hne)

private theorem colon_after {c : CodeUnit} (hne : unit ':' ≠ c) (h : after c s = some t) (hs : unit ':' ∈ s) : unit ':' ∈ t := by
  cases s with
  | nil => cases h
  | cons d s =>
    obtain ⟨rfl,hst⟩ := Option.ite_none_right_eq_some.mp h
    exact Option.some.inj hst ▸ (List.mem_cons.mp hs).resolve_left hne

private theorem colon_power {p : ℕ × Str} (h : readPower s = some p) (hs : unit ':' ∈ s) : unit ':' ∈ p.2 := by
  have hrest := colon_span hs
  unfold readPower at h
  split at h
  · cases h
  · rename_i ds r hspan
    cases h
    rwa [hspan] at hrest

private theorem colon_exponent {p : ℤ × Str} (h : readExponent s = some p) (hs : unit ':' ∈ s) : unit ':' ∈ p.2 := by
  unfold readExponent at h
  split at h
  · cases h
    exact hs
  · rename_i r hr
    have hrest : unit ':' ∈ r := by
      rcases Option.or_eq_some_iff.mp hr with he | ⟨_,he⟩
      · exact colon_after (by decide) he hs
      · exact colon_after (by decide) he hs
    split at h
    · rename_i u hu
      obtain ⟨q,hq,rfl⟩ := Option.map_eq_some_iff.mp h
      exact colon_power hq (colon_after (by decide) hu hrest)
    · obtain ⟨q,hq,rfl⟩ := Option.map_eq_some_iff.mp h
      refine colon_power hq ?_
      cases hu : after (unit '+') r with
      | none => exact hrest
      | some u => exact colon_after (by decide) hu hrest

private theorem unsignedLiteral_colon (hs : unit ':' ∈ s) : unsignedLiteral s = none := by
  have hspan := colon_span hs
  have hfraction : unit ':' ∈ (((after (unit '.') (spanDigits s).2).map spanDigits).getD ([], (spanDigits s).2)).2 := by
    cases hu : after (unit '.') (spanDigits s).2 with
    | none => exact hspan
    | some u => exact colon_span (colon_after (by decide) hu hspan)
  unfold unsignedLiteral
  dsimp only
  split
  · rfl
  · rw [Option.bind_eq_none_iff]
    intro p hp
    have hp2 := colon_exponent hp hfraction
    exact if_neg (List.ne_nil_of_mem hp2)

private theorem decimalLiteral_colon (hs : unit ':' ∈ s) : decimalLiteral s = none := by
  have hinfinity {t : Str} (h : unit ':' ∈ t) : t ≠ infinityText := by
    rintro rfl
    revert h
    decide
  unfold decimalLiteral
  split
  · rename_i t ht
    have hmem := colon_after (by decide) ht hs
    rw [if_neg (hinfinity hmem), unsignedLiteral_colon hmem]
    rfl
  · have hmem : unit ':' ∈ (after (unit '+') s).getD s := by
      cases hu : after (unit '+') s with
      | none => exact hs
      | some u => exact colon_after (by decide) hu hs
    dsimp only
    rw [if_neg (hinfinity hmem), unsignedLiteral_colon hmem]
    rfl

private theorem radixLiteral_colon (hs : unit ':' ∈ s) : radixLiteral s = none := by
  unfold radixLiteral
  split
  · rename_i z c d ds
    split
    · rename_i hz
      rw [Option.bind_eq_none_iff]
      intro radix hradix
      refine if_neg fun hall => ?_
      have hmem : unit ':' ∈ d :: ds := by
        have hz' : unit ':' ≠ z := hz ▸ (digit_ne_unit (c := ':') (by decide) 0).symm
        have hc' : unit ':' ≠ c := by
          rintro rfl
          cases (show radixOf (unit ':') = none by decide).symm.trans hradix
        exact (List.mem_cons.mp ((List.mem_cons.mp hs).resolve_left hz')).resolve_left hc'
      have hcolon := List.all_eq_true.mp hall _ hmem
      revert hcolon
      simp [show hexValue (unit ':') = none by decide]
    · rfl
  · rfl

private theorem colon_trim (hs : unit ':' ∈ s) : unit ':' ∈ trim s := by
  have hfront : unit ':' ∈ s.dropWhile isBlank := by
    rw [← List.takeWhile_append_dropWhile (p := isBlank) (l := s)] at hs
    refine (List.mem_append.mp hs).resolve_left fun h => ?_
    exact absurd (List.mem_takeWhile_imp h) (by decide)
  unfold trim
  rw [← List.rdropWhile_append_rtakeWhile (p := isBlank) (l := s.dropWhile isBlank)] at hfront
  refine (List.mem_append.mp hfront).resolve_right fun h => ?_
  exact absurd (List.mem_rtakeWhile_imp h) (by decide)

/-- What is read as a number has no colon in it. -/
theorem colon_not_mem (h : (stringToNumber s).isSome) : unit ':' ∉ s := by
  intro hs
  have hmem := colon_trim hs
  rw [stringToNumber, if_neg (List.ne_nil_of_mem hmem), radixLiteral_colon hmem, decimalLiteral_colon hmem] at h
  cases h

end Colons

section Seconds
variable {n window : ℕ}

/-- The numbers of seconds that an instant may be away from the epoch. -/
def lastSecond : ℕ := 8640000000000

private theorem nearestDouble_natCast (h : n ≤ lastSecond) : nearestDouble (n : ℚ) = some (n : ℚ) := by
  have hbound : (n : ℚ) ≤ lastSecond := by exact_mod_cast h
  have hsmall : |(n : ℤ)| ≤ 2 ^ 53 := by
    simp only [lastSecond] at h
    rw [abs_of_nonneg (by positivity)]
    omega
  have hdouble : IsDouble ((n : ℤ) : ℚ) := isDouble_intCast hsmall
  have hlarge : (lastSecond : ℚ) < tooLarge := by
    have hpow : (2 : ℚ) ^ 43 ≤ 2 ^ 1024 := pow_le_pow_right₀ (by norm_num) (by norm_num)
    unfold tooLarge lastSecond
    refine lt_of_lt_of_le ?_ hpow
    norm_num
  have hrange : -tooLarge < (n : ℚ) ∧ (n : ℚ) < tooLarge := by
    have h0 : (0 : ℚ) ≤ n := by positivity
    constructor <;> linarith
  have hround : roundSigned (n : ℚ) = n := hdouble
  rw [nearestDouble, hround, if_pos hrange]

def seconds (n : ℕ) (h : n ≤ lastSecond) : Double := ⟨n, nearestDouble_natCast h⟩

private theorem isBlank_digit (d : ℕ) : isBlank (digit d) = false := by
  have hlt := Nat.mod_lt d (by decide : 0 < 10)
  simp only [isBlank, digit_toNat]
  grind

private theorem decimal_eq (n : ℕ) : ∃ d ds, (∀ e ∈ d :: ds, e < 10) ∧ (d ≠ 0 ∨ ds = []) ∧ decimal n = (d :: ds).map digit ∧
    valueOf (d :: ds) = n := by
  by_cases h : n = 0
  · subst h
    exact ⟨0,[],by decide,.inr rfl,rfl,rfl⟩
  · obtain ⟨d,ds,hds,hd⟩ := digitsOf_cons h
    refine ⟨d,ds,hds ▸ digitsOf_lt n,.inl hd,?_,by rw [← hds, valueOf_digitsOf]⟩
    rw [decimal, if_neg h, hds]

private theorem unsignedLiteral_digits {ds : List ℕ} (hd : ∀ d ∈ ds, d < 10) (hne : ds ≠ []) :
    unsignedLiteral (ds.map digit) = some (valueOf ds : ℚ) := by
  have hspan : spanDigits (ds.map digit) = (ds, []) := by
    simpa using spanDigits_map hd (s := []) (fun _ _ h => by cases h)
  have hexp : readExponent [] = some (0, []) := rfl
  simp [unsignedLiteral, hspan, hne, hexp, after]

/-- A decimal is read as the number it is of. -/
theorem stringToNumber_decimal (h : n ≤ lastSecond) : stringToNumber (decimal n) = some (.finite (seconds n h)) := by
  obtain ⟨d,ds,hlt,hfirst,htext,hvalue⟩ := decimal_eq n
  have htrim : trim (decimal n) = decimal n := by
    refine Limiter.trim_eq_self fun c hc => ?_
    rw [htext] at hc
    obtain ⟨e,_,rfl⟩ := List.mem_map.mp hc
    exact isBlank_digit e
  have hradix : radixLiteral (decimal n) = none := by
    rw [htext]
    cases ds with
    | nil => rfl
    | cons e es =>
      cases es with
      | nil => rfl
      | cons _ _ =>
        have hd : d ≠ 0 := hfirst.resolve_right (by simp)
        have hz : digit d ≠ digit 0 := by
          intro hz
          have hmod := congrArg digitOf hz
          rw [digitOf_digit, digitOf_digit, Nat.mod_eq_of_lt (hlt d (by simp))] at hmod
          exact hd (Option.some.inj hmod)
        exact if_neg hz
  have hminus : after (unit '-') (decimal n) = none := by
    rw [htext]
    exact after_of_ne (digit_ne_unit (by decide) d)
  have hplus : after (unit '+') (decimal n) = none := by
    rw [htext]
    exact after_of_ne (digit_ne_unit (by decide) d)
  have hinfinity : decimal n ≠ infinityText := by
    rw [htext]
    intro he
    exact digit_ne_unit (c := 'I') (by decide) d (List.cons.inj he).1
  have hliteral : decimalLiteral (decimal n) = some (.finite (seconds n h)) := by
    rw [decimalLiteral, hminus]
    dsimp only
    rw [hplus, Option.getD_none, if_neg hinfinity, htext, unsignedLiteral_digits hlt (by simp), hvalue]
    exact congrArg some (toNumber_of_nearest (x := seconds n h) (nearestDouble_natCast h))
  have hne : decimal n ≠ [] := by
    rw [htext]
    simp
  rw [stringToNumber, htrim, if_neg hne, hradix, hliteral]
  rfl

private theorem abs_second_le (t : Instant) : |(t.1 : ℚ) / 1000| ≤ lastSecond := by
  obtain ⟨hrange,_⟩ := Option.ite_none_right_eq_some.mp t.2
  have hlow : (-8640000000000000 : ℚ) ≤ t.1 := by exact_mod_cast hrange.1
  have hhigh : (t.1 : ℚ) ≤ 8640000000000000 := by exact_mod_cast hrange.2
  rw [abs_le, lastSecond]
  constructor <;> norm_num <;> linarith

private theorem tiny_le : (2 : ℚ) ^ (-1000 : ℤ) ≤ 1 / 1000000 := by
  have hpow : (2 : ℚ) ^ (-1000 : ℤ) ≤ 2 ^ (-20 : ℤ) := zpow_le_zpow_right₀ (by norm_num) (by norm_num)
  refine hpow.trans ?_
  norm_num

private theorem clock_error (t : Instant) : |roundSigned ((t.1 : ℚ) / 1000) - t.1 / 1000| ≤ 96 / 100000 := by
  by_cases h0 : t.1 = 0
  · have hzero : roundSigned ((0 : ℤ) : ℚ) = ((0 : ℤ) : ℚ) := isDouble_intCast (by decide)
    rw [h0]
    norm_num at hzero ⊢
    rw [hzero]
    norm_num
  · have hone : (1 : ℚ) ≤ |(t.1 : ℚ)| := by exact_mod_cast Int.one_le_abs h0
    have hbig : (2 : ℚ) ^ (-1000 : ℤ) ≤ |(t.1 : ℚ) / 1000| := by
      refine tiny_le.trans ?_
      rw [abs_div, abs_of_pos (by norm_num : (0 : ℚ) < 1000)]
      linarith
    have herror := abs_roundSigned_sub_le hbig
    have hsize := abs_second_le t
    rw [lastSecond] at hsize
    norm_num at herror hsize ⊢
    linarith

/-- A difference that is rounded into the window was hardly out of it. -/
private theorem abs_le_of_rounded {q : ℚ} (hw : window ≤ 100000000) (h : |roundSigned q| ≤ window) : |q| ≤ window + 1 / 100000 := by
  have hw' : (window : ℚ) ≤ 100000000 := by exact_mod_cast hw
  have hw0 : (0 : ℚ) ≤ window := by positivity
  rcases lt_or_ge |q| ((2 : ℚ) ^ (-1000 : ℤ)) with hq | hq
  · have htiny := hq.le.trans tiny_le
    linarith
  · have herror := abs_roundSigned_sub_le hq
    have htriangle : |q| ≤ |roundSigned q| + |roundSigned q - q| := by
      have := abs_sub_abs_le_abs_sub q (roundSigned q)
      rw [abs_sub_comm] at this
      linarith
    norm_num at herror ⊢
    linarith

/-- Rounding to a double does not move anything across a whole number of seconds. -/
theorem skewSeconds_le_iff (now : Instant) (h : n ≤ lastSecond) (hw : window ≤ 100000000) :
    skewSeconds now (seconds n h) ≤ window ↔ |now.1 - 1000 * n| ≤ 1000 * window := by
  have hdouble (m : ℤ) (hm : |m| ≤ 2 ^ 53) : IsDouble (m : ℚ) := isDouble_intCast hm
  have hn : (n : ℤ) ≤ 8640000000000 := by exact_mod_cast h
  have hw' : (window : ℤ) ≤ 100000000 := by exact_mod_cast hw
  rw [skewSeconds, seconds]
  dsimp only
  constructor
  · intro hle
    have hsize : |roundSigned ((now.1 : ℚ) / 1000) - n| ≤ window + 1 / 100000 := abs_le_of_rounded hw hle
    have hoff := clock_error now
    have hnear : |(now.1 : ℚ) / 1000 - n| ≤ window + 97 / 100000 := by
      have htriangle := abs_sub_le ((now.1 : ℚ) / 1000) (roundSigned ((now.1 : ℚ) / 1000)) n
      rw [abs_sub_comm] at hoff
      linarith
    obtain ⟨hlow,hhigh⟩ := abs_le.mp hnear
    have hlow' : (-(1000 * window + 1) : ℤ) < now.1 - 1000 * n := by
      have hq : (-(1000 * window + 1) : ℚ) < now.1 - 1000 * n := by linarith
      exact_mod_cast hq
    have hhigh' : (now.1 - 1000 * n : ℤ) < 1000 * window + 1 := by
      have hq : (now.1 - 1000 * n : ℚ) < 1000 * window + 1 := by linarith
      exact_mod_cast hq
    rw [abs_le]
    omega
  · intro hle
    obtain ⟨hlow,hhigh⟩ := abs_le.mp hle
    have hupper : roundSigned ((now.1 : ℚ) / 1000) ≤ ((n + window : ℤ) : ℚ) := by
      refine roundSigned_le ?_ (hdouble _ (by rw [abs_le]; omega))
      have hq : (now.1 : ℚ) - 1000 * n ≤ 1000 * window := by exact_mod_cast hhigh
      push_cast
      linarith
    have hlower : ((n - window : ℤ) : ℚ) ≤ roundSigned ((now.1 : ℚ) / 1000) := by
      refine le_roundSigned ?_ (hdouble _ (by rw [abs_le]; omega))
      have hq : -(1000 * (window : ℚ)) ≤ (now.1 : ℚ) - 1000 * n := by exact_mod_cast hlow
      push_cast
      linarith
    push_cast at hupper hlower
    rw [abs_le]
    constructor
    · have hmin : ((-window : ℤ) : ℚ) ≤ _ := le_roundSigned (q := roundSigned ((now.1 : ℚ) / 1000) - n) (by push_cast; linarith)
        (hdouble _ (by rw [abs_le]; omega))
      simpa using hmin
    · have hmax : _ ≤ ((window : ℤ) : ℚ) := roundSigned_le (q := roundSigned ((now.1 : ℚ) / 1000) - n) (by push_cast; linarith)
        (hdouble _ (by rw [abs_le]; omega))
      simpa using hmax

end Seconds
end Nivara.Integrations
