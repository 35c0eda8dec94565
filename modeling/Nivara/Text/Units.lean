import Mathlib.Data.Nat.Digits.Lemmas

/-! Strings as sequences of UTF-16 code units, and decimal numerals in them. -/
namespace Nivara.Text

abbrev CodeUnit := UInt16

abbrev Str := List CodeUnit

def unit (c : Char) : CodeUnit := c.toNat.toUInt16

def units (s : String) : Str := s.toList.map unit

def after (c : CodeUnit) : Str → Option Str
  | [] => none
  | d :: s => if d = c then some s else none

@[simp] theorem after_cons_self (c : CodeUnit) (s : Str) : after c (c :: s) = some s := if_pos rfl

def digit (n : Nat) : CodeUnit := (48 + n % 10).toUInt16

def digitOf (c : CodeUnit) : Option Nat := if 48 ≤ c.toNat ∧ c.toNat ≤ 57 then some (c.toNat - 48) else none

theorem digit_toNat (n : Nat) : (digit n).toNat = 48 + n % 10 := by
  have := Nat.mod_lt n (by decide : 0 < 10)
  simp only [digit, Nat.toUInt16_eq, UInt16.toNat_ofNat']
  omega

@[simp] theorem digitOf_digit (n : Nat) : digitOf (digit n) = some (n % 10) := by
  have := Nat.mod_lt n (by decide : 0 < 10)
  rw [digitOf, digit_toNat, if_pos (by omega)]
  congr 1
  omega

theorem digit_ne_unit {c : Char} (h : digitOf (unit c) = none) (n : Nat) : digit n ≠ unit c := by
  intro he
  rw [← he, digitOf_digit] at h
  cases h

def padded : Nat → Nat → Str
  | 0, _ => []
  | w + 1, n => padded w (n / 10) ++ [digit n]

def digitsOf (n : Nat) : List Nat := (Nat.digits 10 n).reverse

def spanDigits : Str → List Nat × Str
  | [] => ([], [])
  | c :: s =>
    match digitOf c with
    | none => ([], c :: s)
    | some d => (d :: (spanDigits s).1, (spanDigits s).2)

def takeDigits : Nat → Str → Option (List Nat × Str)
  | 0, s => some ([], s)
  | _ + 1, [] => none
  | w + 1, c :: s => (digitOf c).bind fun d => (takeDigits w s).map fun p => (d :: p.1, p.2)

def valueOf (ds : List Nat) : Nat := ds.foldl (fun n d => 10 * n + d) 0

theorem valueOf_append (ds es : List Nat) : valueOf (ds ++ es) = valueOf ds * 10 ^ es.length + valueOf es := by
  induction es using List.reverseRecOn with
  | nil => simp [valueOf]
  | append_singleton es e ih =>
    have hstep (l : List Nat) : valueOf (l ++ [e]) = 10 * valueOf l + e := by simp [valueOf]
    rw [← List.append_assoc, hstep, hstep, ih, List.length_append, List.length_singleton, pow_succ]
    ring

theorem valueOf_eq_ofDigits (ds : List Nat) : valueOf ds = Nat.ofDigits 10 ds.reverse := by
  induction ds using List.reverseRecOn with
  | nil => rfl
  | append_singleton ds d ih =>
    simp only [valueOf, List.foldl_append, List.foldl_cons, List.foldl_nil] at ih ⊢
    rw [ih, List.reverse_append]
    simp [Nat.ofDigits_cons, Nat.add_comm]

def lastDigits : Nat → Nat → List Nat
  | 0, _ => []
  | w + 1, n => lastDigits w (n / 10) ++ [n % 10]

theorem length_lastDigits (w n : Nat) : (lastDigits w n).length = w := by
  induction w generalizing n with
  | zero => rfl
  | succ w ih => simp [lastDigits, ih]

theorem valueOf_lastDigits (w n : Nat) : valueOf (lastDigits w n) = n % 10 ^ w := by
  induction w generalizing n with
  | zero => simp [lastDigits, valueOf, Nat.mod_one]
  | succ w ih =>
    have hw : valueOf [n % 10] = n % 10 := by simp [valueOf]
    rw [lastDigits, valueOf_append, ih, hw, List.length_singleton, pow_one, pow_succ, Nat.mul_comm (10 ^ w),
      Nat.mod_mul, Nat.mul_comm]
    omega

theorem padded_eq_map (w n : Nat) : padded w n = (lastDigits w n).map digit := by
  induction w generalizing n with
  | zero => rfl
  | succ w ih =>
    have h : digit n = digit (n % 10) := by simp [digit]
    simp [padded, lastDigits, ih, ← h]

theorem takeDigits_map (ds : List Nat) (hd : ∀ d ∈ ds, d < 10) (s : Str) :
    takeDigits ds.length (ds.map digit ++ s) = some (ds, s) := by
  induction ds with
  | nil => rfl
  | cons d ds ih =>
    have hlt : d % 10 = d := Nat.mod_eq_of_lt (hd d (by simp))
    simp [takeDigits, hlt, ih fun e he => hd e (by simp [he])]

theorem lastDigits_lt (w n : Nat) : ∀ d ∈ lastDigits w n, d < 10 := by
  induction w generalizing n with
  | zero => simp [lastDigits]
  | succ w ih =>
    intro d hd
    rcases List.mem_append.mp hd with h | h
    · exact ih _ d h
    · rw [List.mem_singleton.mp h]
      exact Nat.mod_lt _ (by decide)

/-- A numeral of fixed width reads back. -/
theorem takeDigits_padded (w n : Nat) (s : Str) : takeDigits w (padded w n ++ s) = some (lastDigits w n, s) := by
  have h := takeDigits_map (lastDigits w n) (lastDigits_lt w n) s
  rwa [length_lastDigits, ← padded_eq_map] at h

theorem digitsOf_lt (n : Nat) : ∀ d ∈ digitsOf n, d < 10 := by
  intro d hd
  exact Nat.digits_lt_base (by decide) (List.mem_reverse.mp hd)

@[simp] theorem valueOf_digitsOf (n : Nat) : valueOf (digitsOf n) = n := by
  rw [valueOf_eq_ofDigits, digitsOf, List.reverse_reverse, Nat.ofDigits_digits]

theorem digitsOf_cons {n : Nat} (h : n ≠ 0) : ∃ d ds, digitsOf n = d :: ds ∧ d ≠ 0 := by
  have hne := Nat.digits_ne_nil_iff_ne_zero (b := 10) |>.mpr h
  cases hd : digitsOf n with
  | nil => exact absurd (List.reverse_eq_nil_iff.mp hd) hne
  | cons d ds =>
    refine ⟨d,ds,rfl,?_⟩
    have hlast := Nat.getLast_digit_ne_zero 10 h
    have hhead : (Nat.digits 10 n).getLast hne = d := by
      rw [← List.head_reverse (by simpa using hne)]
      simp only [digitsOf] at hd
      simp [hd]
    rwa [hhead] at hlast

def NoDigit (s : Str) : Prop := ∀ c rest, s = c :: rest → digitOf c = none

/-- All the digits in front of something else are read. -/
theorem spanDigits_map {ds : List Nat} (hd : ∀ d ∈ ds, d < 10) {s : Str} (hs : NoDigit s) :
    spanDigits (ds.map digit ++ s) = (ds, s) := by
  induction ds with
  | nil =>
    cases s with
    | nil => rfl
    | cons c s => simp [spanDigits, hs c s rfl]
  | cons d ds ih =>
    have hlt : d % 10 = d := Nat.mod_eq_of_lt (hd d (by simp))
    simp [spanDigits, hlt, ih fun e he => hd e (by simp [he])]

end Nivara.Text
