import Nivara.Text.Number

/-! What rounding to a double does to the order of numbers: it never passes a double, and it is off by
at most half a unit in the last place. -/
namespace Nivara.Text

theorem roundHalfEven_mono {q : ℚ} {n : ℤ} (h : (n : ℚ) ≤ q) : n ≤ roundHalfEven q := by
  have hfloor : n ≤ ⌊q⌋ := Int.le_floor.mpr h
  unfold roundHalfEven
  split
  · exact hfloor
  · split
    · omega
    · split <;> omega

theorem abs_roundHalfEven_sub_le (q : ℚ) : |(roundHalfEven q : ℚ) - q| ≤ 1 / 2 := by
  have hlow := Int.floor_le q
  have hhigh := Int.lt_floor_add_one q
  rw [abs_le]
  unfold roundHalfEven
  split
  · constructor <;> linarith
  · split
    · push_cast
      constructor <;> linarith
    · split
      · constructor <;> linarith
      · push_cast
        constructor <;> linarith

def IsDouble (v : ℚ) : Prop := roundSigned v = v

private theorem roundSigned_neg (q : ℚ) : roundSigned (-q) = -roundSigned q := by
  rcases lt_trichotomy q 0 with h | rfl | h
  · rw [roundSigned, if_pos (by linarith), roundSigned, if_neg (by linarith), neg_neg]
  · simp [roundSigned, roundPositive_zero]
  · rw [roundSigned, if_neg (by linarith), roundSigned, if_pos (by linarith), neg_neg]

theorem IsDouble.neg {v : ℚ} (h : IsDouble v) : IsDouble (-v) := by
  rw [IsDouble, roundSigned_neg, h]

theorem isDouble_zero : IsDouble 0 := by simp [IsDouble, roundSigned, roundPositive_zero]

private theorem isDouble_of_nonneg {m e : ℤ} (h0 : 0 ≤ m) (hm : m ≤ 2 ^ 53) (he : -places ≤ e) :
    IsDouble ((m : ℚ) * 2 ^ e) := by
  obtain ⟨n,hn⟩ := scaled_of_significand (rfl : (m : ℚ) * 2 ^ e = _) h0 hm he
  have hpos : (0 : ℚ) ≤ m * 2 ^ e := mul_nonneg (by exact_mod_cast h0) (zpow_nonneg (by norm_num) _)
  rw [IsDouble, roundSigned, if_pos hpos, roundPositive_of_scaled hn]

/-- A number of at most 53 binary digits is a double. -/
theorem isDouble_dyadic {m e : ℤ} (hm : |m| ≤ 2 ^ 53) (he : -places ≤ e) : IsDouble ((m : ℚ) * 2 ^ e) := by
  obtain ⟨hlow,hhigh⟩ := abs_le.mp hm
  rcases le_total 0 m with h | h
  · exact isDouble_of_nonneg h hhigh he
  · have hneg := (isDouble_of_nonneg (m := -m) (by omega) (by omega) he).neg
    push_cast at hneg
    rwa [neg_mul, neg_neg] at hneg

theorem isDouble_intCast {m : ℤ} (hm : |m| ≤ 2 ^ 53) : IsDouble (m : ℚ) := by
  have h := isDouble_dyadic (e := 0) hm (by omega)
  rwa [zpow_zero, mul_one] at h

private theorem lastPlace_mono {q v : ℚ} (hq : 0 < q) (h : q ≤ v) : lastPlace q ≤ lastPlace v := by
  have hlog : Int.log 2 q ≤ Int.log 2 v := Int.log_mono_right hq h
  simp only [lastPlace]
  omega

private theorem scaled_of_isDouble {v : ℚ} (hv : 0 ≤ v) (h : IsDouble v) : ∃ n : ℤ, v = n * 2 ^ lastPlace v := by
  rw [IsDouble, roundSigned, if_pos hv, roundPositive] at h
  exact ⟨_,h.symm⟩

private theorem roundPositive_le {q v : ℚ} (hq : 0 < q) (h : q ≤ v) (hv : IsDouble v) : roundPositive q ≤ v := by
  obtain ⟨n,hn⟩ := scaled_of_isDouble (hq.le.trans h) hv
  have hplace := lastPlace_mono hq h
  have hpos : (0 : ℚ) < 2 ^ lastPlace q := zpow_pos (by norm_num) _
  -- the bound is a whole number of the finer units too
  have hfine : v = (n * 2 ^ (lastPlace v - lastPlace q).toNat : ℤ) * 2 ^ lastPlace q := by
    have hpow : (2 : ℚ) ^ lastPlace v = 2 ^ (lastPlace v - lastPlace q).toNat * 2 ^ lastPlace q := by
      rw [← zpow_natCast, ← zpow_add₀ (by norm_num), Int.toNat_of_nonneg (by omega)]
      congr 1
      omega
    push_cast
    rw [mul_assoc, ← hpow]
    exact hn
  have hdiv : q / 2 ^ lastPlace q ≤ (n * 2 ^ (lastPlace v - lastPlace q).toNat : ℤ) := by
    rw [div_le_iff₀ hpos, ← hfine]
    exact h
  have hround : roundHalfEven (q / 2 ^ lastPlace q) ≤ n * 2 ^ (lastPlace v - lastPlace q).toNat := by
    rcases hdiv.eq_or_lt with heq | hlt
    · rw [heq, roundHalfEven_intCast]
    · exact roundHalfEven_le hlt
  rw [roundPositive]
  calc
    _ ≤ ((n * 2 ^ (lastPlace v - lastPlace q).toNat : ℤ) : ℚ) * 2 ^ lastPlace q :=
      mul_le_mul_of_nonneg_right (by exact_mod_cast hround) hpos.le
    _ = v := hfine.symm

private theorem le_roundPositive {q v : ℚ} (hv0 : 0 < v) (h : v ≤ q) (hv : IsDouble v) : v ≤ roundPositive q := by
  obtain ⟨n,hn⟩ := scaled_of_isDouble hv0.le hv
  have hplace := lastPlace_mono hv0 h
  have hpos : (0 : ℚ) < 2 ^ lastPlace q := zpow_pos (by norm_num) _
  rcases hplace.eq_or_lt with heq | hlt
  · rw [heq] at hn
    have hround : n ≤ roundHalfEven (q / 2 ^ lastPlace q) := by
      apply roundHalfEven_mono
      rw [le_div_iff₀ hpos, ← hn]
      exact h
    rw [hn, roundPositive]
    exact mul_le_mul_of_nonneg_right (by exact_mod_cast hround) hpos.le
  · -- there is a power of two between the two
    have hlog : lastPlace q = Int.log 2 q - 52 ∧ Int.log 2 v + 1 ≤ Int.log 2 q := by
      simp only [lastPlace] at hlt ⊢
      omega
    have hvlt : v < 2 ^ (Int.log 2 v + 1) := by
      have := Int.lt_zpow_succ_log_self (b := 2) (by decide) v
      exact_mod_cast this
    have hqlog : (2 : ℚ) ^ Int.log 2 q ≤ q := by
      have := Int.zpow_log_le_self (b := 2) (by decide) (hv0.trans_le h)
      exact_mod_cast this
    have hpow : (2 : ℚ) ^ Int.log 2 q = (2 ^ 52 : ℤ) * 2 ^ lastPlace q := by
      rw [hlog.1, show Int.log 2 q = 52 + (Int.log 2 q - 52) by omega, zpow_add₀ (by norm_num)]
      norm_num
    have hround : 2 ^ 52 ≤ roundHalfEven (q / 2 ^ lastPlace q) := by
      apply roundHalfEven_mono
      rw [le_div_iff₀ hpos, ← hpow]
      exact hqlog
    calc
      v ≤ 2 ^ (Int.log 2 v + 1) := hvlt.le
      _ ≤ 2 ^ Int.log 2 q := zpow_le_zpow_right₀ (by norm_num) hlog.2
      _ = (2 ^ 52 : ℤ) * 2 ^ lastPlace q := hpow
      _ ≤ roundPositive q := mul_le_mul_of_nonneg_right (by exact_mod_cast hround) hpos.le

/-- Rounding does not go past a double above. -/
theorem roundSigned_le {q v : ℚ} (h : q ≤ v) (hv : IsDouble v) : roundSigned q ≤ v := by
  rcases lt_trichotomy q 0 with hq | rfl | hq
  · rw [roundSigned, if_neg (by linarith)]
    rcases le_or_gt 0 v with hv0 | hv0
    · linarith [roundPositive_nonneg (q := -q) (by linarith)]
    · linarith [le_roundPositive (q := -q) (v := -v) (by linarith) (by linarith) hv.neg]
  · rw [isDouble_zero]
    exact h
  · rw [roundSigned, if_pos hq.le]
    exact roundPositive_le hq h hv

theorem le_roundSigned {q v : ℚ} (h : v ≤ q) (hv : IsDouble v) : v ≤ roundSigned q := by
  have hneg := roundSigned_le (q := -q) (v := -v) (by linarith) hv.neg
  rw [roundSigned_neg] at hneg
  linarith

private theorem abs_roundPositive_sub_le {q : ℚ} (h : (2 : ℚ) ^ (-1000 : ℤ) ≤ q) : |roundPositive q - q| ≤ q / 2 ^ 53 := by
  have hq : 0 < q := lt_of_lt_of_le (zpow_pos (by norm_num) _) h
  have hlog : -1000 ≤ Int.log 2 q := by
    have := Int.log_mono_right (b := 2) (zpow_pos (by norm_num : (0 : ℚ) < 2) (-1000)) h
    have hpow := Int.log_zpow (R := ℚ) (b := 2) (by decide) (-1000)
    rw [← hpow]
    exact_mod_cast this
  have hplace : lastPlace q = Int.log 2 q - 52 := by
    simp only [lastPlace, places]
    omega
  have hpos : (0 : ℚ) < 2 ^ lastPlace q := zpow_pos (by norm_num) _
  have hqlog : (2 : ℚ) ^ Int.log 2 q ≤ q := by
    have := Int.zpow_log_le_self (b := 2) (by decide) hq
    exact_mod_cast this
  have herror : |roundPositive q - q| = |(roundHalfEven (q / 2 ^ lastPlace q) : ℚ) - q / 2 ^ lastPlace q| * 2 ^ lastPlace q := by
    rw [roundPositive, ← abs_of_pos hpos, ← abs_mul, abs_of_pos hpos, sub_mul, div_mul_cancel₀ _ hpos.ne']
  have hpow : (2 : ℚ) ^ Int.log 2 q = 2 ^ 52 * 2 ^ lastPlace q := by
    rw [hplace, show Int.log 2 q = 52 + (Int.log 2 q - 52) by omega, zpow_add₀ (by norm_num)]
    norm_num
  calc
    |roundPositive q - q| ≤ 1 / 2 * (2 : ℚ) ^ lastPlace q := by
      rw [herror]
      exact mul_le_mul_of_nonneg_right (abs_roundHalfEven_sub_le _) hpos.le
    _ = (2 : ℚ) ^ Int.log 2 q / 2 ^ 53 := by
      rw [hpow]
      ring
    _ ≤ q / 2 ^ 53 := by
      exact div_le_div_of_nonneg_right hqlog (by norm_num)

/-- A number that is not tiny is rounded by at most half a unit in the last place. -/
theorem abs_roundSigned_sub_le {q : ℚ} (h : (2 : ℚ) ^ (-1000 : ℤ) ≤ |q|) : |roundSigned q - q| ≤ |q| / 2 ^ 53 := by
  rcases le_total 0 q with hq | hq
  · rw [abs_of_nonneg hq] at h ⊢
    rw [roundSigned, if_pos hq]
    exact abs_roundPositive_sub_le h
  · have hneg : roundSigned q = -roundSigned (-q) := by rw [roundSigned_neg, neg_neg]
    rw [abs_of_nonpos hq] at h ⊢
    have hb := abs_roundPositive_sub_le h
    rw [hneg, roundSigned, if_pos (by linarith)]
    rwa [show -roundPositive (-q) - q = -(roundPositive (-q) - -q) by ring, abs_neg]

end Nivara.Text
