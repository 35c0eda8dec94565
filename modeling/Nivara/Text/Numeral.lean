import Nivara.Text.Number

/-! Number literals: what `Number.prototype.toString` writes and how JSON reads a literal. -/
namespace Nivara.Text

def neighbours (y : ℚ) : List ℕ :=
  let lo := ⌊y⌋.toNat
  let hi := ⌈y⌉.toNat
  if y - lo < hi - y then [lo, hi]
  else if hi - y < y - lo then [hi, lo]
  else if lo % 2 = 0 then [lo, hi] else [hi, lo]

def decimalAt (x : ℚ) (e : ℤ) : Option (ℕ × ℤ) :=
  ((neighbours (x / 10 ^ e)).find? fun s : ℕ => nearestDouble (s * 10 ^ e) = some x).map (·, e)

/-- The decimal of the fewest digits that is read as a positive double. No double needs more than
seventeen of them. -/
def shortest (x : ℚ) : ℕ × ℤ :=
  ((List.range 17).findSome? fun k : ℕ => decimalAt x (Int.log 10 x - k)).getD ((x * 10 ^ places).num.toNat, -places)

def strip : ℕ → ℕ × ℤ → ℕ × ℤ
  | 0, p => p
  | fuel + 1, (s, e) => if s % 10 = 0 then strip fuel (s / 10, e + 1) else (s, e)

/-- The numeral of `s * 10 ^ e`, which has no exponent between a millionth and a sextillion. -/
def numeral (s : ℕ) (e : ℤ) : Str :=
  let ds := digitsOf s
  let n := ds.length + e
  if 0 ≤ e ∧ n ≤ 21 then (ds ++ List.replicate e.toNat 0).map digit
  else if 0 < n ∧ n ≤ 21 then (ds.take n.toNat).map digit ++ unit '.' :: (ds.drop n.toNat).map digit
  else if -6 < n ∧ n ≤ 0 then digit 0 :: unit '.' :: (List.replicate (-n).toNat 0 ++ ds).map digit
  else (ds.take 1).map digit ++ ((if ds.length = 1 then [] else unit '.' :: (ds.drop 1).map digit) ++
    unit 'e' :: unit (if n - 1 < 0 then '-' else '+') :: (digitsOf (n - 1).natAbs).map digit)

def positiveToString (x : ℚ) : Str := numeral (strip 18 (shortest x)).1 (strip 18 (shortest x)).2

def Double.toString (x : Double) : Str :=
  if x.val = 0 then [digit 0]
  else if x.val < 0 then unit '-' :: positiveToString (-x.val) else positiveToString x.val

def readInteger (s : Str) : Option (List ℕ × Str) :=
  match spanDigits s with
  | ([], _) => none
  | (0 :: _ :: _, _) => none
  | p => some p

def readFraction (s : Str) : Option (List ℕ × Str) :=
  match after (unit '.') s with
  | none => some ([], s)
  | some s =>
    match spanDigits s with
    | ([], _) => none
    | p => some p

def readPower (s : Str) : Option (ℕ × Str) :=
  match spanDigits s with
  | ([], _) => none
  | (ds, s) => some (valueOf ds, s)

def readExponent (s : Str) : Option (ℤ × Str) :=
  match (after (unit 'e') s).or (after (unit 'E') s) with
  | none => some (0, s)
  | some s =>
    match after (unit '-') s with
    | some s => (readPower s).map fun p => (-p.1, p.2)
    | none => (readPower ((after (unit '+') s).getD s)).map fun p => (p.1, p.2)

def readUnsigned (s : Str) : Option (ℚ × Str) :=
  (readInteger s).bind fun (whole, s) => (readFraction s).bind fun (fraction, s) => (readExponent s).map fun (e, s) =>
    (valueOf (whole ++ fraction) * 10 ^ (e - fraction.length), s)

def readLiteral (s : Str) : Option (ℚ × Str) :=
  match after (unit '-') s with
  | some s => (readUnsigned s).map fun p => (-p.1, p.2)
  | none => readUnsigned s

def Ends (s : Str) : Prop :=
  ∀ c rest, s = c :: rest → digitOf c = none ∧ c ≠ unit '.' ∧ c ≠ unit 'e' ∧ c ≠ unit 'E'

theorem Ends.noDigit {s : Str} (h : Ends s) : NoDigit s := fun c rest hs => (h c rest hs).1

theorem after_of_ne {c d : CodeUnit} {s : Str} (h : d ≠ c) : after c (d :: s) = none := if_neg h

theorem Ends.readFraction {s : Str} (h : Ends s) : readFraction s = some ([], s) := by
  cases s with
  | nil => rfl
  | cons c s =>
    rw [Text.readFraction, after_of_ne (h c s rfl).2.1]

theorem Ends.readExponent {s : Str} (h : Ends s) : readExponent s = some (0, s) := by
  cases s with
  | nil => rfl
  | cons c s =>
    rw [Text.readExponent, after_of_ne (h c s rfl).2.2.1, after_of_ne (h c s rfl).2.2.2, Option.or_none]

private theorem noDigit_cons {c : CodeUnit} (h : digitOf c = none) (s : Str) : NoDigit (c :: s) := by
  intro d rest hd
  cases hd
  exact h

private theorem readInteger_map {d : ℕ} {ds : List ℕ} (hd : ∀ e ∈ d :: ds, e < 10) (h0 : d ≠ 0 ∨ ds = []) {s : Str}
    (hs : NoDigit s) : readInteger ((d :: ds).map digit ++ s) = some (d :: ds, s) := by
  rw [readInteger, spanDigits_map hd hs]
  rcases h0 with h0 | rfl
  · cases d with
    | zero => exact absurd rfl h0
    | succ d => rfl
  · cases d <;> rfl

private theorem readFraction_map {ds : List ℕ} (hd : ∀ e ∈ ds, e < 10) (hne : ds ≠ []) {s : Str} (hs : NoDigit s) :
    readFraction (unit '.' :: (ds.map digit ++ s)) = some (ds, s) := by
  rw [readFraction, after_cons_self]
  dsimp only
  rw [spanDigits_map hd hs]
  cases ds with
  | nil => exact absurd rfl hne
  | cons d ds => rfl

private theorem readPower_digitsOf {n : ℕ} (h : n ≠ 0) {s : Str} (hs : NoDigit s) :
    readPower ((digitsOf n).map digit ++ s) = some (n, s) := by
  rw [readPower, spanDigits_map (digitsOf_lt n) hs]
  obtain ⟨d,ds,hd,_⟩ := digitsOf_cons h
  have hv := valueOf_digitsOf n
  rw [hd] at hv ⊢
  dsimp only
  rw [hv]

private theorem readExponent_numeral {n : ℤ} (h : n ≠ 0) {s : Str} (hs : NoDigit s) :
    readExponent (unit 'e' :: unit (if n < 0 then '-' else '+') :: ((digitsOf n.natAbs).map digit ++ s)) =
      some (n, s) := by
  have hne : n.natAbs ≠ 0 := by omega
  rw [readExponent, after_cons_self, Option.some_or]
  dsimp only
  by_cases hneg : n < 0
  · rw [if_pos hneg, after_cons_self]
    dsimp only
    rw [readPower_digitsOf hne hs]
    simp [abs_of_neg hneg]
  · rw [if_neg hneg, after_of_ne (by decide), after_cons_self, Option.getD_some]
    dsimp only
    rw [readPower_digitsOf hne hs]
    simp [abs_of_nonneg (not_lt.mp hneg)]

private theorem valueOf_zeros (n : ℕ) : valueOf (List.replicate n 0) = 0 := by
  induction n with
  | zero => rfl
  | succ n ih =>
    rw [List.replicate_succ', valueOf_append, ih]
    rfl

private theorem readUnsigned_parts (w : ℕ) (ws : List ℕ) {fs : List ℕ} (hw : ∀ x ∈ w :: ws, x < 10) (h0 : w ≠ 0 ∨ ws = [])
    {s t u : Str} {e : ℤ} (hs : NoDigit s) (hf : readFraction s = some (fs, t)) (he : readExponent t = some (e, u)) :
    readUnsigned ((w :: ws).map digit ++ s) = some ((valueOf (w :: ws ++ fs) : ℚ) * 10 ^ (e - fs.length), u) := by
  rw [readUnsigned, readInteger_map hw h0 hs, Option.bind_some]
  dsimp only
  rw [hf, Option.bind_some]
  dsimp only
  rw [he, Option.map_some]

/-- A numeral is read as the decimal it was written for. -/
theorem readUnsigned_numeral {m : ℕ} (hm : m ≠ 0) (e : ℤ) {s : Str} (hs : Ends s) :
    readUnsigned (numeral m e ++ s) = some ((m : ℚ) * 10 ^ e, s) := by
  obtain ⟨d,ds,hds,hd0⟩ := digitsOf_cons hm
  have hlt := digitsOf_lt m
  have hval := valueOf_digitsOf m
  rw [hds] at hlt hval
  have hpoint (t : Str) : NoDigit (unit '.' :: t) := noDigit_cons (by decide) t
  have hexp (t : Str) : NoDigit (unit 'e' :: t) := noDigit_cons (by decide) t
  unfold numeral
  rw [hds]
  dsimp only
  split
  · -- An integer.
    rename_i h
    have hlt' : ∀ x ∈ d :: (ds ++ List.replicate e.toNat 0), x < 10 := by
      intro x hx
      rw [← List.cons_append] at hx
      rcases List.mem_append.mp hx with hx | hx
      · exact hlt x hx
      · rw [List.eq_of_mem_replicate hx]
        decide
    have hv : valueOf (d :: (ds ++ List.replicate e.toNat 0)) = m * 10 ^ e.toNat := by
      rw [← List.cons_append, valueOf_append, hval, valueOf_zeros, List.length_replicate, Nat.add_zero]
    rw [List.cons_append, readUnsigned_parts _ _ hlt' (.inl hd0) hs.noDigit hs.readFraction hs.readExponent, List.append_nil,
      hv]
    simp only [List.length_nil, Nat.cast_zero, sub_zero, zpow_zero, mul_one]
    push_cast
    rw [← zpow_natCast, Int.toNat_of_nonneg h.1]
  · rename_i hint
    split
    · -- A point among the digits.
      rename_i h
      obtain ⟨k,hk⟩ : ∃ k : ℕ, (↑(d :: ds).length + e).toNat = k + 1 := ⟨_,(Nat.succ_pred (by omega)).symm⟩
      have hkl : k < ds.length := by
        simp only [List.length_cons] at hk hint h
        omega
      have hlt' : ∀ x ∈ d :: ds.take k, x < 10 := fun x hx => hlt x (List.take_subset (k + 1) (d :: ds) hx)
      have hdrop : ∀ x ∈ ds.drop k, x < 10 := fun x hx => hlt x (List.mem_cons_of_mem _ (List.mem_of_mem_drop hx))
      have hne : ds.drop k ≠ [] := by
        intro hnil
        have := List.drop_eq_nil_iff.mp hnil
        omega
      rw [hk, List.take_succ_cons, List.drop_succ_cons, List.append_assoc, List.cons_append,
        readUnsigned_parts _ _ hlt' (.inl hd0) (hpoint _) (readFraction_map hdrop hne hs.noDigit) hs.readExponent,
        List.cons_append, List.take_append_drop, hval]
      congr 4
      simp only [List.length_drop, List.length_cons] at hk ⊢
      omega
    · rename_i hpt
      split
      · -- Zeros behind the point.
        rename_i h
        have hlt' : ∀ x ∈ List.replicate (-(↑(d :: ds).length + e)).toNat 0 ++ d :: ds, x < 10 := by
          intro x hx
          rcases List.mem_append.mp hx with hx | hx
          · rw [List.eq_of_mem_replicate hx]
            decide
          · exact hlt x hx
        have hread := readUnsigned_parts 0 [] (by simp) (.inr rfl) (hpoint _)
          (readFraction_map hlt' (by simp) hs.noDigit) hs.readExponent
        rw [List.cons_append, List.cons_append]
        refine hread.trans ?_
        have hv : valueOf ([0] ++ (List.replicate (-(↑(d :: ds).length + e)).toNat 0 ++ d :: ds)) = m := by
          rw [← List.append_assoc, valueOf_append, hval, ← List.replicate_one, List.replicate_append_replicate,
            valueOf_zeros, Nat.zero_mul, Nat.zero_add]
        rw [hv]
        congr 4
        simp only [List.length_append, List.length_replicate, List.length_cons] at h ⊢
        omega
      · -- An exponent.
        rename_i hfar
        have hn : (↑(d :: ds).length + e) - 1 ≠ 0 := by omega
        have hlt' : ∀ x ∈ [d], x < 10 := fun x hx => hlt x (List.mem_cons.mpr (.inl (List.mem_singleton.mp hx)))
        have hend := readExponent_numeral hn hs.noDigit
        rw [List.take_succ_cons, List.take_zero, List.drop_succ_cons, List.drop_zero]
        cases ds with
        | nil =>
          have hfrac (t : Str) : readFraction (unit 'e' :: t) = some ([], unit 'e' :: t) := by
            rw [readFraction, after_of_ne (by decide)]
          have hread := readUnsigned_parts _ _ hlt' (.inr rfl) (hexp _) (hfrac _) hend
          rw [if_pos (List.length_singleton), List.nil_append, List.append_assoc, List.cons_append, List.cons_append]
          refine hread.trans ?_
          rw [List.append_nil, hval]
          simp
        | cons d' ds =>
          have hdrop : ∀ x ∈ d' :: ds, x < 10 := fun x hx => hlt x (List.mem_cons_of_mem _ hx)
          have hread := readUnsigned_parts _ _ hlt' (.inr rfl) (hpoint _) (readFraction_map hdrop (by simp) (hexp _)) hend
          rw [if_neg (by simp), List.append_assoc, List.append_assoc, List.cons_append, List.cons_append, List.cons_append]
          refine hread.trans ?_
          rw [List.singleton_append, hval]
          congr 4
          simp only [List.length_cons]
          push_cast
          ring

private theorem strip_spec (fuel : ℕ) (p : ℕ × ℤ) (h : p.1 ≠ 0) :
    (strip fuel p).1 ≠ 0 ∧ ((strip fuel p).1 : ℚ) * 10 ^ (strip fuel p).2 = p.1 * 10 ^ p.2 := by
  induction fuel generalizing p with
  | zero => exact ⟨h,rfl⟩
  | succ fuel ih =>
    obtain ⟨s,e⟩ := p
    simp only [strip]
    split
    · rename_i hs
      obtain ⟨k,rfl⟩ := Nat.dvd_of_mod_eq_zero hs
      dsimp only at h
      rw [Nat.mul_div_cancel_left k (by decide)]
      obtain ⟨hne,hval⟩ := ih (k, e + 1) (by dsimp only; omega)
      refine ⟨hne,hval.trans ?_⟩
      dsimp only
      rw [zpow_add₀ (by norm_num)]
      push_cast
      ring
    · exact ⟨h,rfl⟩

private theorem nearest_shortest {x : Double} (hpos : 0 < x.val) :
    (shortest x.val).1 ≠ 0 ∧ nearestDouble ((shortest x.val).1 * 10 ^ (shortest x.val).2) = some x.val := by
  have hread : nearestDouble ((shortest x.val).1 * 10 ^ (shortest x.val).2) = some x.val := by
    unfold shortest
    cases hf : (List.range 17).findSome? fun k : ℕ => decimalAt x.val (Int.log 10 x.val - k) with
    | some p =>
      obtain ⟨k,_,hk⟩ := List.exists_of_findSome?_eq_some hf
      obtain ⟨m,hm,rfl⟩ := Option.map_eq_some_iff.mp hk
      have hp := List.find?_some hm
      exact of_decide_eq_true hp
    | none =>
      -- The double itself has a finite decimal expansion.
      obtain ⟨n,hn⟩ := x.decimal_places
      have hn0 : 0 ≤ n := by
        have : (0 : ℚ) ≤ n := hn ▸ mul_nonneg hpos.le (by positivity)
        exact_mod_cast this
      have hcast : ((n.toNat : ℕ) : ℚ) = n := by exact_mod_cast congrArg (Int.cast (R := ℚ)) (Int.toNat_of_nonneg hn0)
      rw [Option.getD_none, hn, Rat.num_intCast, hcast, ← hn, zpow_neg, zpow_natCast,
        mul_inv_cancel_right₀ (pow_ne_zero _ (by norm_num))]
      exact x.exact
  refine ⟨fun h0 => ?_,hread⟩
  rw [h0, Nat.cast_zero, zero_mul] at hread
  have hzero : roundSigned 0 = 0 := by
    rw [roundSigned, if_pos le_rfl, roundPositive_zero]
  rw [(nearestDouble_eq_some hread).1, hzero] at hpos
  exact lt_irrefl _ hpos

theorem nearestDouble_neg {q v : ℚ} (h : nearestDouble q = some v) : nearestDouble (-q) = some (-v) := by
  obtain ⟨rfl,hlo,hhi⟩ := nearestDouble_eq_some h
  have hneg : roundSigned (-q) = -roundSigned q := by
    unfold roundSigned
    rcases lt_trichotomy q 0 with hq | rfl | hq
    · rw [if_pos (by linarith), if_neg (not_le.mpr hq), neg_neg]
    · simp [roundPositive_zero]
    · rw [if_neg (by linarith), if_pos hq.le, neg_neg]
  rw [nearestDouble, hneg, if_pos ⟨by linarith,by linarith⟩]

private theorem readUnsigned_positive {x : Double} (hpos : 0 < x.val) {s : Str} (hs : Ends s) :
    ∃ q, readUnsigned (positiveToString x.val ++ s) = some (q, s) ∧ nearestDouble q = some x.val := by
  obtain ⟨h0,hread⟩ := nearest_shortest hpos
  obtain ⟨hne,hval⟩ := strip_spec 18 _ h0
  exact ⟨_,readUnsigned_numeral hne _ hs,hval ▸ hread⟩

private theorem numeral_head {m : ℕ} (hm : m ≠ 0) (e : ℤ) : ∃ d t, numeral m e = digit d :: t := by
  obtain ⟨d,ds,hds,_⟩ := digitsOf_cons hm
  unfold numeral
  rw [hds]
  dsimp only
  split
  · exact ⟨_,_,rfl⟩
  · split
    · rename_i h
      obtain ⟨k,hk⟩ : ∃ k : ℕ, (↑(d :: ds).length + e).toNat = k + 1 := ⟨_,(Nat.succ_pred (by omega)).symm⟩
      rw [hk, List.take_succ_cons]
      exact ⟨_,_,rfl⟩
    · split
      · exact ⟨_,_,rfl⟩
      · exact ⟨_,_,rfl⟩

private theorem positiveToString_head {x : Double} (hpos : 0 < x.val) : ∃ d t, positiveToString x.val = digit d :: t :=
  numeral_head (strip_spec 18 _ (nearest_shortest hpos).1).1 _

/-- A number begins with a digit, or with the sign. -/
theorem toString_head (x : Double) : ∃ c t, x.toString = c :: t ∧ (c = unit '-' ∨ ∃ d, c = digit d) := by
  unfold Double.toString
  split
  · exact ⟨_,_,rfl,.inr ⟨0,rfl⟩⟩
  · rename_i h0
    split
    · exact ⟨_,_,rfl,.inl rfl⟩
    · rename_i hneg
      obtain ⟨d,t,h⟩ := positiveToString_head (lt_of_le_of_ne (not_lt.mp hneg) (Ne.symm h0))
      exact ⟨_,t,h,.inr ⟨d,rfl⟩⟩

/-- A number reads back. -/
theorem readLiteral_toString (x : Double) {s : Str} (hs : Ends s) :
    ∃ q, readLiteral (x.toString ++ s) = some (q, s) ∧ toNumber q = .finite x := by
  have hsign (y : Double) (hy : 0 < y.val) : after (unit '-') (positiveToString y.val ++ s) = none := by
    obtain ⟨d,t,h⟩ := positiveToString_head hy
    rw [h]
    exact after_of_ne (digit_ne_unit (by decide) d)
  unfold Double.toString
  split
  · rename_i h0
    refine ⟨0,?_,toNumber_of_nearest (h0 ▸ x.exact)⟩
    have hread := readUnsigned_parts 0 [] (by simp) (.inr rfl) hs.noDigit hs.readFraction hs.readExponent
    have hval : (valueOf [0] : ℚ) = 0 := by norm_num [valueOf]
    have hdigit : after (unit '-') (digit 0 :: s) = none := after_of_ne (by decide)
    rw [List.append_nil, hval, zero_mul] at hread
    rw [List.singleton_append, readLiteral, hdigit]
    exact hread
  · rename_i h0
    split
    · rename_i hneg
      obtain ⟨q,hq,hnear⟩ := readUnsigned_positive (x := ⟨-x.val,nearestDouble_neg x.exact⟩) (neg_pos.mpr hneg) hs
      refine ⟨-q,?_,toNumber_of_nearest ?_⟩
      · rw [List.cons_append, readLiteral, after_cons_self]
        dsimp only
        rw [hq, Option.map_some]
      · simpa using nearestDouble_neg hnear
    · rename_i hneg
      have hpos : 0 < x.val := lt_of_le_of_ne (not_lt.mp hneg) (Ne.symm h0)
      obtain ⟨q,hq,hnear⟩ := readUnsigned_positive hpos hs
      refine ⟨q,?_,toNumber_of_nearest hnear⟩
      rw [readLiteral, hsign x hpos]
      exact hq

end Nivara.Text
