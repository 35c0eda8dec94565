import Mathlib.Data.Int.Log
import Mathlib.Data.Rat.Floor
import Mathlib.Tactic.FieldSimp
import Mathlib.Tactic.Linarith
import Mathlib.Tactic.Positivity
import Nivara.Text.Units

/-! Double-precision numbers by their values: the double a decimal literal is read as, and the
shortest literal that is read as a given double. Negative zero is zero here, which is what it is
written as. -/
namespace Nivara.Text

def roundHalfEven (q : ℚ) : ℤ :=
  if q - ⌊q⌋ < 1 / 2 then ⌊q⌋
  else if 1 / 2 < q - ⌊q⌋ then ⌊q⌋ + 1
  else if ⌊q⌋ % 2 = 0 then ⌊q⌋ else ⌊q⌋ + 1

@[simp] theorem roundHalfEven_intCast (n : ℤ) : roundHalfEven n = n := by
  simp [roundHalfEven]

theorem roundHalfEven_le {q : ℚ} {n : ℤ} (h : q < n) : roundHalfEven q ≤ n := by
  have hfloor : ⌊q⌋ < n := Int.floor_lt.mpr h
  unfold roundHalfEven
  split
  · omega
  · split
    · omega
    · split <;> omega

theorem roundHalfEven_nonneg {q : ℚ} (h : 0 ≤ q) : 0 ≤ roundHalfEven q := by
  have hfloor : 0 ≤ ⌊q⌋ := Int.floor_nonneg.mpr h
  unfold roundHalfEven
  split
  · omega
  · split
    · omega
    · split <;> omega

@[irreducible] def places : ℕ := 1074

@[irreducible] def tooLarge : ℚ := 2 ^ 1024

def lastPlace (q : ℚ) : ℤ := max (-places) (Int.log 2 q - 52)

def roundPositive (q : ℚ) : ℚ := roundHalfEven (q / 2 ^ lastPlace q) * 2 ^ lastPlace q

def roundSigned (q : ℚ) : ℚ := if 0 ≤ q then roundPositive q else -roundPositive (-q)

/-- The nearest double; `none` if that is beyond the largest one. -/
def nearestDouble (q : ℚ) : Option ℚ :=
  if -tooLarge < roundSigned q ∧ roundSigned q < tooLarge then some (roundSigned q) else none

theorem nearestDouble_eq_some {q v : ℚ} (h : nearestDouble q = some v) : v = roundSigned q ∧ -tooLarge < v ∧ v < tooLarge := by
  unfold nearestDouble at h
  split at h
  · rename_i hrange
    cases h
    exact ⟨rfl,hrange⟩
  · cases h

theorem roundPositive_nonneg {q : ℚ} (h : 0 ≤ q) : 0 ≤ roundPositive q := by
  have hround := roundHalfEven_nonneg (div_nonneg h (zpow_nonneg (by norm_num : (0 : ℚ) ≤ 2) (lastPlace q)))
  have : (0 : ℚ) ≤ roundHalfEven (q / 2 ^ lastPlace q) := by exact_mod_cast hround
  exact mul_nonneg this (zpow_nonneg (by norm_num) _)

/-- A double has at most 53 binary digits, and carries to the next power of two at most. -/
theorem significand_le (q : ℚ) : roundHalfEven (q / 2 ^ lastPlace q) ≤ 2 ^ 53 := by
  apply roundHalfEven_le
  have hpos : (0 : ℚ) < 2 ^ lastPlace q := zpow_pos (by norm_num) _
  rw [div_lt_iff₀ hpos]
  have hlog : q < 2 ^ (Int.log 2 q + 1) := by
    have := Int.lt_zpow_succ_log_self (b := 2) (by decide) q
    exact_mod_cast this
  have hplace : Int.log 2 q + 1 ≤ 53 + lastPlace q := by
    simp only [lastPlace]
    omega
  calc
    q < 2 ^ (Int.log 2 q + 1) := hlog
    _ ≤ 2 ^ (53 + lastPlace q) := zpow_le_zpow_right₀ (by norm_num) hplace
    _ = _ := by
      rw [zpow_add₀ (by norm_num)]
      norm_cast

/-- What has been rounded is at a place that rounding keeps. -/
theorem roundPositive_of_scaled {q : ℚ} {n : ℤ} (h : q = n * 2 ^ lastPlace q) : roundPositive q = q := by
  have hpos : (2 : ℚ) ^ lastPlace q ≠ 0 := zpow_ne_zero _ (by norm_num)
  have hdiv : q / 2 ^ lastPlace q = n := by
    rw [div_eq_iff hpos]
    exact h
  rw [roundPositive, hdiv, roundHalfEven_intCast]
  exact h.symm

theorem roundPositive_zero : roundPositive 0 = 0 := roundPositive_of_scaled (n := 0) (by simp)

/-- A number of at most 53 binary digits, at a place a double has, is a double. -/
theorem scaled_of_significand {v : ℚ} {m e : ℤ} (hv : v = m * 2 ^ e) (h0 : 0 ≤ m) (hle : m ≤ 2 ^ 53)
    (he : -places ≤ e) : ∃ n : ℤ, v = n * 2 ^ lastPlace v := by
  rcases h0.eq_or_lt with rfl | hpos
  · exact ⟨0,by simp [hv]⟩
  by_cases hplace : lastPlace v ≤ e
  · refine ⟨m * 2 ^ (e - lastPlace v).toNat,?_⟩
    have hpow : (2 : ℚ) ^ e = 2 ^ (e - lastPlace v).toNat * 2 ^ lastPlace v := by
      rw [← zpow_natCast, ← zpow_add₀ (by norm_num), Int.toNat_of_nonneg (by omega)]
      congr 1
      omega
    push_cast
    rw [mul_assoc, ← hpow]
    exact hv
  · -- The significand has carried to the next power of two.
    have hmpos : (0 : ℚ) < m := by exact_mod_cast hpos
    have hvpos : 0 < v := by
      rw [hv]
      exact mul_pos hmpos (zpow_pos (by norm_num) _)
    have hlog : (2 : ℚ) ^ Int.log 2 v ≤ v := by
      have := Int.zpow_log_le_self (b := 2) (by decide) hvpos
      exact_mod_cast this
    have hmle : (m : ℚ) ≤ 2 ^ 53 := by exact_mod_cast hle
    have hupper : v ≤ 2 ^ (53 + e) := by
      rw [hv, zpow_add₀ (by norm_num)]
      exact mul_le_mul_of_nonneg_right (by exact_mod_cast hmle) (zpow_nonneg (by norm_num) _)
    have hexp : Int.log 2 v ≤ 53 + e := (zpow_le_zpow_iff_right₀ (by norm_num : (1 : ℚ) < 2)).mp (hlog.trans hupper)
    have hlast : lastPlace v = e + 1 ∧ Int.log 2 v = 53 + e := by
      simp only [lastPlace] at hplace ⊢
      omega
    rw [hlast.2] at hlog
    refine ⟨2 ^ 52,?_⟩
    rw [hlast.1, le_antisymm hupper hlog, show 53 + e = 52 + (e + 1) by omega, zpow_add₀ (by norm_num)]
    norm_cast

theorem roundPositive_idem {q : ℚ} (h : 0 ≤ q) : roundPositive (roundPositive q) = roundPositive q := by
  have h0 := roundHalfEven_nonneg (div_nonneg h (zpow_nonneg (by norm_num : (0 : ℚ) ≤ 2) (lastPlace q)))
  obtain ⟨n,hn⟩ := scaled_of_significand (rfl : roundPositive q = _) h0 (significand_le q) (le_max_left _ _)
  exact roundPositive_of_scaled hn

theorem roundSigned_idem (q : ℚ) : roundSigned (roundSigned q) = roundSigned q := by
  by_cases hq : 0 ≤ q
  · have hv : roundSigned q = roundPositive q := if_pos hq
    rw [hv, roundSigned, if_pos (roundPositive_nonneg hq), roundPositive_idem hq]
  · have hnq : 0 ≤ -q := by linarith
    have hv : roundSigned q = -roundPositive (-q) := if_neg hq
    rw [hv, roundSigned, neg_neg, roundPositive_idem hnq]
    split
    · -- Only zero is on both sides.
      rename_i hn
      have hz : roundPositive (-q) = 0 := by linarith [roundPositive_nonneg hnq]
      rw [hz, neg_zero, roundPositive_zero]
    · rfl

/-- Rounding a double changes nothing. -/
theorem nearestDouble_idem {q v : ℚ} (h : nearestDouble q = some v) : nearestDouble v = some v := by
  obtain ⟨rfl,hrange⟩ := nearestDouble_eq_some h
  rw [nearestDouble, roundSigned_idem, if_pos hrange]

structure Double where
  val : ℚ
  exact : nearestDouble val = some val
  deriving DecidableEq

@[ext] theorem Double.ext {x y : Double} (h : x.val = y.val) : x = y := by
  cases x
  cases y
  cases h
  rfl

inductive Number where
  | finite (x : Double)
  | infinity (negative : Bool)
  deriving DecidableEq

def toNumber (q : ℚ) : Number :=
  match h : nearestDouble q with
  | some v => .finite ⟨v, nearestDouble_idem h⟩
  | none => .infinity (q < 0)

theorem toNumber_of_nearest {q : ℚ} {x : Double} (h : nearestDouble q = some x.val) : toNumber q = .finite x := by
  unfold toNumber
  split
  · rename_i v hv
    rw [h] at hv
    exact congrArg _ (Double.ext (Option.some.inj hv).symm)
  · rename_i hn
    rw [h] at hn
    cases hn

/-- A double is a decimal fraction with as many places. -/
theorem Double.decimal_places (x : Double) : ∃ n : ℤ, x.val * 10 ^ places = n := by
  have hpositive (q : ℚ) : ∃ n : ℤ, roundPositive q * 10 ^ places = n := by
    have hplace : -places ≤ lastPlace q := le_max_left _ _
    refine ⟨roundHalfEven (q / 2 ^ lastPlace q) * (2 ^ (lastPlace q + places).toNat * 5 ^ places),?_⟩
    have hpow : (2 : ℚ) ^ lastPlace q * 2 ^ places = 2 ^ (lastPlace q + places).toNat := by
      rw [← zpow_natCast, ← zpow_natCast, ← zpow_add₀ (by norm_num), Int.toNat_of_nonneg (by omega)]
    have hten : (10 : ℚ) ^ places = 2 ^ places * 5 ^ places := by
      rw [← mul_pow]
      norm_num
    push_cast
    rw [roundPositive, hten, ← hpow]
    ring
  rw [(nearestDouble_eq_some x.exact).1, roundSigned]
  split
  · exact hpositive _
  · obtain ⟨n,hn⟩ := hpositive (-x.val)
    refine ⟨-n,?_⟩
    rw [neg_mul, hn]
    push_cast
    rfl

end Nivara.Text
