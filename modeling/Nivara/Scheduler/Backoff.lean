import Mathlib.Data.Nat.Log
import Nivara.Text.Calendar
import Nivara.Text.Rounding

/-! The retry schedule, from `scheduler/backoff.ts`. Instants and delays are milliseconds, and what is computed of them
is rounded to doubles. -/
namespace Nivara.Scheduler
open Text

def baseBackoffMs : Nat := 5000
def maxBackoffMs : Nat := 15 * 60000
def jitterRatio : ℚ := roundSigned (1 / 5)

/-- `Math.ceil(Math.log2(MAX_BACKOFF_MS / BASE_BACKOFF_MS)) + 1`. -/
def saturationAttempt : Nat := Nat.clog 2 (maxBackoffMs / baseBackoffMs) + 1

/-- The delay after `attempts` failed attempts; `random` is drawn from `[0, 1)`. -/
def backoffMs (attempts : Nat) (random : ℚ) : ℚ :=
  let exponent := min (max attempts 1 - 1) saturationAttempt
  let nominal := min (baseBackoffMs * 2 ^ exponent) maxBackoffMs
  roundSigned (nominal * roundSigned (1 + roundSigned (jitterRatio * roundSigned (roundSigned (2 * random) - 1))))

def trunc (q : ℚ) : Int := if 0 ≤ q then ⌊q⌋ else ⌈q⌉

/-- `new Date(now + backoff)` drops the fraction of a millisecond; `none` is an invalid `Date`. -/
def nextRunAfter (attempts : Nat) (now : Int) (random : ℚ) : Option Int :=
  timeClip (trunc (roundSigned (now + backoffMs attempts random)))

/-- The jitter takes off a quarter of the nominal delay at most. -/
theorem backoffMs_nonneg (attempts : Nat) {random : ℚ} (h : 0 ≤ random) : 0 ≤ backoffMs attempts random := by
  have hquarter : IsDouble (1 / 4) := by
    have hdyadic := isDouble_dyadic (m := 1) (e := -2) (by norm_num) (by norm_num [places])
    norm_num at hdyadic
    exact hdyadic
  have hone : IsDouble (-1) := by simpa using isDouble_intCast (m := -1) (by norm_num)
  have hthree : IsDouble (3 / 4) := by
    have hdyadic := isDouble_dyadic (m := 3) (e := -2) (by norm_num) (by norm_num [places])
    norm_num at hdyadic
    exact hdyadic
  have hratio : 0 ≤ jitterRatio := le_roundSigned (by norm_num) isDouble_zero
  have hratio' : jitterRatio ≤ 1 / 4 := roundSigned_le (by norm_num) hquarter
  have hdraw : 0 ≤ roundSigned (2 * random) := le_roundSigned (by linarith) isDouble_zero
  have hcentred : -1 ≤ roundSigned (roundSigned (2 * random) - 1) := le_roundSigned (by linarith) hone
  have hjitter : -(1 / 4) ≤ roundSigned (jitterRatio * roundSigned (roundSigned (2 * random) - 1)) := by
    refine le_roundSigned ?_ hquarter.neg
    nlinarith
  have hfactor : 3 / 4 ≤ roundSigned (1 + roundSigned (jitterRatio * roundSigned (roundSigned (2 * random) - 1))) :=
    le_roundSigned (by linarith) hthree
  refine le_roundSigned (mul_nonneg (Nat.cast_nonneg _) ?_) isDouble_zero
  linarith

private theorem le_trunc {n : Int} {q : ℚ} (h : (n : ℚ) ≤ q) : n ≤ trunc q := by
  unfold trunc
  split
  · exact Int.le_floor.mpr h
  · have hup : (n : ℚ) ≤ ⌈q⌉ := h.trans (Int.le_ceil q)
    exact_mod_cast hup

/-- A retry is not due before the job has failed. -/
theorem le_nextRunAfter {attempts : Nat} {now runAfter : Int} {random : ℚ} (h : 0 ≤ random)
    (hnext : nextRunAfter attempts now random = some runAfter) : now ≤ runAfter := by
  have hback := backoffMs_nonneg attempts h
  simp only [nextRunAfter, timeClip] at hnext
  obtain ⟨⟨hlow,hhigh⟩,hrun⟩ := Option.ite_none_right_eq_some.mp hnext
  cases hrun
  by_cases hnow : |now| ≤ 2 ^ 53
  · exact le_trunc (le_roundSigned (by linarith) (isDouble_intCast hnow))
  · -- such a clock is no `Date`, and neither is what comes of it
    rcases le_total 0 now with hpos | hneg
    · have hlarge : (2 ^ 53 : Int) ≤ now := by
        rw [abs_of_nonneg hpos] at hnow
        omega
      have hround : ((2 ^ 53 : Int) : ℚ) ≤ roundSigned (now + backoffMs attempts random) := by
        refine le_roundSigned ?_ (isDouble_intCast (by norm_num))
        have hcast : ((2 ^ 53 : Int) : ℚ) ≤ now := by exact_mod_cast hlarge
        linarith
      have := le_trunc hround
      omega
    · rw [abs_of_nonpos hneg] at hnow
      omega

end Nivara.Scheduler
