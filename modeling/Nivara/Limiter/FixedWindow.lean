import Nivara.Text.Calendar
import Nivara.Text.Rounding

/-! The arithmetic of the fixed-window limiter, from `rate-limit/fixed-window.ts`. Every operation rounds
to a double, and for the instants that a `Date` can hold none of this shows. -/
namespace Nivara.Limiter
open Text

/-- A ceiling and the span it is measured over; no span is longer than the dates there are. -/
structure RateLimit where
  limit : ℕ
  windowSeconds : ℕ
  positive : 0 < windowSeconds
  bounded : windowSeconds ≤ 8640000000000

def overAMinute (limit : ℕ) : RateLimit := ⟨limit, 60, by decide, by decide⟩

inductive RateLimitDecision where
  | allowed
  | denied (limit : ℕ) (retryAfterSeconds : ℤ)
  deriving DecidableEq, Repr

def windowBucket (nowMs : Instant) (windowSeconds : ℕ) : ℚ :=
  roundSigned (⌊roundSigned (roundSigned (nowMs.1 / 1000) / windowSeconds)⌋ * windowSeconds)

/-- `decide`; a count of `none` means that the store had no answer. -/
def RateLimit.decide (l : RateLimit) (count : Option ℕ) (nowMs : Instant) : RateLimitDecision :=
  match count with
  | none => .allowed
  | some count =>
    if count ≤ l.limit then .allowed
    else
      let resetAtEpochSeconds := roundSigned (windowBucket nowMs l.windowSeconds + l.windowSeconds)
      .denied l.limit (max 1 ⌈roundSigned (resetAtEpochSeconds - roundSigned (nowMs.1 / 1000))⌉)

section Seconds
variable {n m : ℤ}

private def seconds (n : ℤ) : ℚ := roundSigned ((n : ℚ) / 1000)

/-- The nearest numbers to a whole second that the limiter can tell from it. -/
private theorem isDouble_beside (hm : |m| < 2 ^ 43) :
    IsDouble ((m : ℚ) - 1 / 1024) ∧ IsDouble ((m : ℚ) + 1 / 1024) := by
  obtain ⟨hlow,hhigh⟩ := abs_lt.mp hm
  have hplaces : -(places : ℤ) ≤ -10 := by
    simp only [places]
    omega
  constructor
  · have h := isDouble_dyadic (m := 1024 * m - 1) (e := -10) (abs_le.mpr ⟨by omega,by omega⟩) hplaces
    have heq : ((1024 * m - 1 : ℤ) : ℚ) * 2 ^ (-10 : ℤ) = m - 1 / 1024 := by
      push_cast
      norm_num
      ring
    rwa [heq] at h
  · have h := isDouble_dyadic (m := 1024 * m + 1) (e := -10) (abs_le.mpr ⟨by omega,by omega⟩) hplaces
    have heq : ((1024 * m + 1 : ℤ) : ℚ) * 2 ^ (-10 : ℤ) = m + 1 / 1024 := by
      push_cast
      norm_num
      ring
    rwa [heq] at h

private theorem le_seconds (hm : |m| ≤ 2 ^ 53) (h : 1000 * m ≤ n) : (m : ℚ) ≤ seconds n := by
  refine le_roundSigned ?_ (isDouble_intCast hm)
  rw [le_div_iff₀ (by norm_num)]
  exact_mod_cast (by linarith : m * 1000 ≤ n)

private theorem seconds_le (hm : |m| ≤ 2 ^ 53) (h : n ≤ 1000 * m) : seconds n ≤ m := by
  refine roundSigned_le ?_ (isDouble_intCast hm)
  rw [div_le_iff₀ (by norm_num)]
  exact_mod_cast (by linarith : n ≤ m * 1000)

private theorem add_le_seconds (hm : |m| < 2 ^ 43) (h : 1000 * m < n) : (m : ℚ) + 1 / 1024 ≤ seconds n := by
  refine le_roundSigned ?_ (isDouble_beside hm).2
  have hq : (1000 * m + 1 : ℚ) ≤ n := by exact_mod_cast h
  rw [le_div_iff₀ (by norm_num)]
  linarith

private theorem seconds_le_sub (hm : |m| < 2 ^ 43) (h : n < 1000 * m) : seconds n ≤ m - 1 / 1024 := by
  refine roundSigned_le ?_ (isDouble_beside hm).1
  have hq : (n + 1 : ℚ) ≤ 1000 * m := by exact_mod_cast h
  rw [div_le_iff₀ (by norm_num)]
  linarith

end Seconds

section Exact
variable {n : ℤ} {w : ℕ} (hn : -8640000000000000 ≤ n ∧ n ≤ 8640000000000000) (hw : 0 < w) (hbound : w ≤ 8640000000000)
include hn hw hbound

private theorem bucket_bounds : -17280000000000 ≤ n / (1000 * w) * w ∧ n / (1000 * w) * w ≤ 8640000000000 ∧
    1000 * (n / (1000 * w) * w) ≤ n ∧ n < 1000 * (n / (1000 * w) * w + w) := by
  have hpos : (0 : ℤ) < 1000 * w := by omega
  have hlow := Int.mul_ediv_self_le (x := n) (k := 1000 * w) hpos.ne'
  have hhigh := Int.lt_mul_ediv_self_add (x := n) hpos
  have heq : 1000 * (w : ℤ) * (n / (1000 * w)) = 1000 * (n / (1000 * w) * w) := by ring
  rw [heq] at hlow hhigh
  refine ⟨?_,?_,hlow,?_⟩ <;> omega

omit hw hbound in
private theorem abs_seconds_le : |seconds n| ≤ 8640000000000 := by
  rw [abs_le]
  constructor
  · exact_mod_cast le_seconds (m := -8640000000000) (by norm_num) (by omega)
  · exact_mod_cast seconds_le (m := 8640000000000) (by norm_num) (by omega)

private theorem seconds_le_end : seconds n ≤ (n / (1000 * w) * w + w : ℤ) - 1 / 1024 := by
  obtain ⟨hlow,hhigh,_,hend⟩ := bucket_bounds hn hw hbound
  by_cases hm : n / (1000 * w) * w + w < 2 ^ 43
  · exact seconds_le_sub (abs_lt.mpr ⟨by omega,hm⟩) hend
  · have hx := (abs_le.mp (abs_seconds_le hn)).2
    have hq : (8796093022208 : ℚ) ≤ (n / (1000 * w) * w + w : ℤ) := by
      exact_mod_cast (not_lt.mp hm)
    linarith

private theorem floor_quotient : ⌊roundSigned (seconds n / w)⌋ = n / (1000 * w) := by
  obtain ⟨hlow,hhigh,hstart,hend⟩ := bucket_bounds hn hw hbound
  have hwq : (0 : ℚ) < w := by exact_mod_cast hw
  have hx := abs_seconds_le hn
  have hk : |n / (1000 * w)| ≤ 2 ^ 53 := by
    have h0 : (1 : ℤ) ≤ w := by exact_mod_cast hw
    rw [abs_le]
    constructor <;> nlinarith
  rw [Int.floor_eq_iff]
  constructor
  · refine le_roundSigned ?_ (isDouble_intCast hk)
    rw [le_div_iff₀ hwq]
    exact_mod_cast le_seconds (m := n / (1000 * w) * w) (abs_le.mpr ⟨by omega,by omega⟩) hstart
  · have hq : seconds n / w ≤ (n / (1000 * w) : ℤ) + 1 - 1 / 1024 / w := by
      rw [div_le_iff₀ hwq]
      have h := seconds_le_end hn hw hbound
      push_cast at h
      have hcancel : ((n / (1000 * w) : ℤ) + 1 - 1 / 1024 / w : ℚ) * w = (n / (1000 * w) : ℤ) * w + w - 1 / 1024 := by
        field_simp
      rw [hcancel]
      exact h
    by_cases htiny : (2 : ℚ) ^ (-1000 : ℤ) ≤ |seconds n / w|
    · have herror := (abs_le.mp (abs_roundSigned_sub_le htiny)).2
      have hsmall : |seconds n / w| / 2 ^ 53 < 1 / 1024 / w := by
        rw [abs_div, abs_of_pos hwq, div_div, mul_comm, ← div_div]
        apply div_lt_div_of_pos_right _ hwq
        rw [div_lt_iff₀ (by norm_num)]
        linarith
      linarith
    · -- a quotient this small belongs to the window that begins at zero, or to an earlier one
      have hlow : -(2 : ℚ) ^ (-1000 : ℤ) < seconds n / w := (abs_lt.mp (not_le.mp htiny)).1
      have hhigh : seconds n / w < (2 : ℚ) ^ (-1000 : ℤ) := (abs_lt.mp (not_le.mp htiny)).2
      have hpow : (2 : ℚ) ^ (-1000 : ℤ) ≤ 1 / 2 ^ 60 := by
        have h : (2 : ℚ) ^ (-1000 : ℤ) ≤ 2 ^ (-60 : ℤ) := zpow_le_zpow_right₀ (by norm_num) (by norm_num)
        rwa [zpow_neg 2 60, ← one_div, show (60 : ℤ) = (60 : ℕ) from rfl, zpow_natCast] at h
      have hgap : (1 : ℚ) / 2 ^ 60 < 1 / 1024 / w := by
        have hle : (w : ℚ) ≤ 8640000000000 := by exact_mod_cast hbound
        rw [div_div, div_lt_div_iff₀ (by norm_num) (by positivity)]
        linarith
      have hnext : (0 : ℚ) < (n / (1000 * w) : ℤ) + 1 := by linarith
      have hone : (1 : ℚ) ≤ (n / (1000 * w) : ℤ) + 1 := by exact_mod_cast hnext
      have hhalf : IsDouble (1 / 2) := by
        have h := isDouble_dyadic (m := 1) (e := -1) (by norm_num) (by simp only [places]; omega)
        norm_num at h
        exact h
      linarith [roundSigned_le (q := seconds n / w) (v := 1 / 2) (by linarith) hhalf]

end Exact

section Results
variable (nowMs : Instant) (l : RateLimit)

theorem Instant.bounds (t : Instant) : -8640000000000000 ≤ t.1 ∧ t.1 ≤ 8640000000000000 :=
  (Option.ite_none_right_eq_some.mp t.2).1

/-- The bucket is the second its window began at. -/
theorem windowBucket_eq : windowBucket nowMs l.windowSeconds = (nowMs.1 / (1000 * l.windowSeconds) * l.windowSeconds : ℤ) := by
  have hn := Instant.bounds nowMs
  obtain ⟨hlow,hhigh,_,_⟩ := bucket_bounds hn l.positive l.bounded
  have hfloor := floor_quotient hn l.positive l.bounded
  rw [seconds] at hfloor
  rw [windowBucket, hfloor]
  have hdouble := isDouble_intCast (m := nowMs.1 / (1000 * l.windowSeconds) * l.windowSeconds) (abs_le.mpr ⟨by omega,by omega⟩)
  push_cast at hdouble ⊢
  exact hdouble

/-- The whole seconds to the end of the window: the time left, rounded up. -/
theorem retryAfter_eq : ⌈roundSigned (roundSigned (windowBucket nowMs l.windowSeconds + l.windowSeconds) -
      roundSigned (nowMs.1 / 1000))⌉ =
    nowMs.1 / (1000 * l.windowSeconds) * l.windowSeconds + l.windowSeconds - nowMs.1 / 1000 := by
  have hn := Instant.bounds nowMs
  obtain ⟨hlow,hhigh,hstart,hend⟩ := bucket_bounds hn l.positive l.bounded
  have hbound : (l.windowSeconds : ℤ) ≤ 8640000000000 := by exact_mod_cast l.bounded
  generalize hm : nowMs.1 / (1000 * l.windowSeconds) * l.windowSeconds + l.windowSeconds = m at hend ⊢
  have hreset : roundSigned (windowBucket nowMs l.windowSeconds + l.windowSeconds) = m := by
    rw [windowBucket_eq, ← hm]
    have hdouble := isDouble_intCast (m := nowMs.1 / (1000 * l.windowSeconds) * l.windowSeconds + l.windowSeconds)
      (abs_le.mpr ⟨by omega,by omega⟩)
    push_cast at hdouble ⊢
    exact hdouble
  have hs : |nowMs.1 / 1000| < 2 ^ 43 ∧ |nowMs.1 / 1000 + 1| < 2 ^ 43 := by
    constructor <;> rw [abs_lt] <;> constructor <;> omega
  have hleft : |m - nowMs.1 / 1000| < 2 ^ 43 ∧ |m - nowMs.1 / 1000 - 1| < 2 ^ 43 := by
    constructor <;> rw [abs_lt] <;> constructor <;> omega
  rw [hreset, Int.ceil_eq_iff]
  change _ < roundSigned (m - seconds nowMs.1) ∧ roundSigned (m - seconds nowMs.1) ≤ _
  by_cases hwhole : 1000 * (nowMs.1 / 1000) = nowMs.1
  · -- a whole second is what it is
    have hx : seconds nowMs.1 = (nowMs.1 / 1000 : ℤ) :=
      le_antisymm (seconds_le (hs.1.le.trans (by norm_num)) hwhole.ge) (le_seconds (hs.1.le.trans (by norm_num)) hwhole.le)
    have hdouble := isDouble_intCast (m := m - nowMs.1 / 1000) (hleft.1.le.trans (by norm_num))
    push_cast at hdouble ⊢
    rw [hx, hdouble]
    constructor <;> linarith
  · have hlo := add_le_seconds hs.1 (n := nowMs.1) (by omega)
    have hhi := seconds_le_sub hs.2 (n := nowMs.1) (by omega)
    have hup := roundSigned_le (q := m - seconds nowMs.1) (v := (m - nowMs.1 / 1000 : ℤ) - 1 / 1024)
      (by push_cast; linarith) (isDouble_beside hleft.1).1
    have hdown := le_roundSigned (q := m - seconds nowMs.1) (v := (m - nowMs.1 / 1000 - 1 : ℤ) + 1 / 1024)
      (by push_cast at hhi ⊢; linarith) (isDouble_beside hleft.2).2
    push_cast at hup hdown ⊢
    constructor <;> linarith

end Results
end Nivara.Limiter
