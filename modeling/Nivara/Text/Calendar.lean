import Mathlib.Tactic.Ring
import Nivara.Text.Units

/-! The proleptic Gregorian calendar in UTC, and the interchange format of instants: what
`Date.prototype.toISOString` writes and what `Date.parse` makes of a string. -/
namespace Nivara.Text

structure Civil where
  year : Int
  month : Int
  day : Int
  deriving DecidableEq, Repr

/-- The year of a day of an era of 400 years, and the day of that year. Both begin in March, so
that the leap day is the last day of its year. -/
def yearOfEra (doe : Int) : Int × Int :=
  let century := min (doe / 36524) 3
  let doc := doe - 36524 * century
  let olympiad := doc / 1461
  let doo := doc - 1461 * olympiad
  let year := min (doo / 365) 3
  (100 * century + 4 * olympiad + year, doo - 365 * year)

def civilFromDays (n : Int) : Civil :=
  let p := yearOfEra ((n + 719468) % 146097)
  let mp := (5 * p.2 + 2) / 153
  let day := p.2 - (153 * mp + 2) / 5 + 1
  let year := 400 * ((n + 719468) / 146097) + p.1
  if mp < 10 then ⟨year, mp + 3, day⟩ else ⟨year + 1, mp - 9, day⟩

/-- The day of a date. A day beyond the end of its month counts on into the next. -/
def daysFromCivil (c : Civil) : Int :=
  let y := if c.month ≤ 2 then c.year - 1 else c.year
  let mp := if c.month ≤ 2 then c.month + 9 else c.month - 3
  146097 * (y / 400) + (365 * (y % 400) + y % 400 / 4 - y % 400 / 100 + ((153 * mp + 2) / 5 + c.day - 1)) - 719468

structure OfEra (doe yoe doy : Int) : Prop where
  year : 0 ≤ yoe ∧ yoe < 400
  day : 0 ≤ doy ∧ doy < 366
  sum : 365 * yoe + yoe / 4 - yoe / 100 + doy = doe

theorem ofEra_yearOfEra {doe : Int} (h0 : 0 ≤ doe) (h1 : doe < 146097) :
    OfEra doe (yearOfEra doe).1 (yearOfEra doe).2 := by
  simp only [yearOfEra]
  generalize hc : min (doe / 36524) 3 = c
  generalize hd : doe - 36524 * c = doc
  generalize hq : doc / 1461 = q
  generalize ho : doc - 1461 * q = doo
  generalize hy : min (doo / 365) 3 = y
  have hcentury : 0 ≤ c ∧ c ≤ 3 ∧ 0 ≤ doc ∧ doc ≤ 36524 := by omega
  have holympiad : 0 ≤ q ∧ q ≤ 24 ∧ 0 ≤ doo ∧ doo ≤ 1460 := by omega
  have hyear : 0 ≤ y ∧ y ≤ 3 ∧ 0 ≤ doo - 365 * y ∧ doo - 365 * y ≤ 365 := by omega
  have hleaps : (100 * c + 4 * q + y) / 4 = 25 * c + q ∧ (100 * c + 4 * q + y) / 100 = c := by omega
  constructor
  · omega
  · omega
  · rw [hleaps.1, hleaps.2]
    omega

theorem ofEra_of_days (n : Int) : OfEra ((n + 719468) % 146097) (yearOfEra ((n + 719468) % 146097)).1
    (yearOfEra ((n + 719468) % 146097)).2 :=
  ofEra_yearOfEra (by omega) (by omega)

theorem month_day_bounds (n : Int) : 1 ≤ (civilFromDays n).month ∧ (civilFromDays n).month ≤ 12 ∧
    1 ≤ (civilFromDays n).day ∧ (civilFromDays n).day ≤ 31 := by
  have hday := (ofEra_of_days n).day
  simp only [civilFromDays]
  generalize (yearOfEra ((n + 719468) % 146097)).2 = doy at hday ⊢
  split <;> dsimp only <;> omega

theorem daysFromCivil_civilFromDays (n : Int) : daysFromCivil (civilFromDays n) = n := by
  obtain ⟨hyear,hday,hsum⟩ := ofEra_of_days n
  simp only [civilFromDays]
  generalize (yearOfEra ((n + 719468) % 146097)).1 = yoe at hyear hsum ⊢
  generalize (yearOfEra ((n + 719468) % 146097)).2 = doy at hday hsum ⊢
  generalize hera : (n + 719468) / 146097 = era
  have hdiv : (400 * era + yoe) / 400 = era := by omega
  have hmod : (400 * era + yoe) % 400 = yoe := by omega
  -- The year is entered through March, so the two branches undo the two of `civilFromDays`.
  split
  · simp only [daysFromCivil]
    rw [if_neg (by omega), if_neg (by omega), hdiv, hmod]
    omega
  · simp only [daysFromCivil]
    rw [if_pos (by omega), if_pos (by omega), Int.add_sub_cancel, hdiv, hmod]
    omega

theorem year_bounds {n : Int} (h : -100000000 ≤ n ∧ n ≤ 100000000) :
    -999999 ≤ (civilFromDays n).year ∧ (civilFromDays n).year ≤ 999999 := by
  have hyear := (ofEra_of_days n).year
  simp only [civilFromDays]
  generalize (yearOfEra ((n + 719468) % 146097)).1 = yoe at hyear ⊢
  split <;> dsimp only <;> omega

def msPerDay : Int := 86400000

def timeClip (t : Int) : Option Int := if -8640000000000000 ≤ t ∧ t ≤ 8640000000000000 then some t else none

abbrev Instant := {t : Int // timeClip t = some t}

def yearText (y : Int) : Str :=
  if 0 ≤ y ∧ y ≤ 9999 then padded 4 y.toNat else unit (if y < 0 then '-' else '+') :: padded 6 y.natAbs

def toISOString (t : Int) : Str :=
  let c := civilFromDays (t / msPerDay)
  let r := (t % msPerDay).toNat
  yearText c.year ++ unit '-' :: (padded 2 c.month.toNat ++ unit '-' :: (padded 2 c.day.toNat ++
    unit 'T' :: (padded 2 (r / 3600000) ++ unit ':' :: (padded 2 (r / 60000 % 60) ++ unit ':' ::
    (padded 2 (r / 1000 % 60) ++ unit '.' :: (padded 3 (r % 1000) ++ [unit 'Z']))))))

def readNumber (w lo hi : Nat) (s : Str) : Option (Nat × Str) :=
  (takeDigits w s).bind fun p => if lo ≤ valueOf p.1 ∧ valueOf p.1 ≤ hi then some (valueOf p.1, p.2) else none

theorem readNumber_padded {w lo hi n : Nat} (hlo : lo ≤ n) (hhi : n ≤ hi) (hw : hi < 10 ^ w) (s : Str) :
    readNumber w lo hi (padded w n ++ s) = some (n, s) := by
  have hn : valueOf (lastDigits w n) = n := by
    rw [valueOf_lastDigits]
    exact Nat.mod_eq_of_lt (by omega)
  rw [readNumber, takeDigits_padded, Option.bind_some, hn, if_pos ⟨hlo,hhi⟩]

def readYear (s : Str) : Option (Int × Str) :=
  match after (unit '+') s, after (unit '-') s with
  | some s, _ => (readNumber 6 0 999999 s).map fun p => (p.1, p.2)
  | none, some s => (readNumber 6 1 999999 s).map fun p => (-p.1, p.2)
  | none, none => (readNumber 4 0 9999 s).map fun p => (p.1, p.2)

def readDate (s : Str) : Option (Civil × Str) :=
  (readYear s).bind fun (y, s) =>
  match after (unit '-') s with
  | none => some (⟨y, 1, 1⟩, s)
  | some s => (readNumber 2 1 12 s).bind fun (m, s) =>
    match after (unit '-') s with
    | none => some (⟨y, m, 1⟩, s)
    | some s => (readNumber 2 1 31 s).map fun (d, s) => (⟨y, m, d⟩, s)

def readTime (s : Str) : Option (Nat × Str) :=
  (readNumber 2 0 24 s).bind fun (h, s) => (after (unit ':') s).bind fun s =>
  (readNumber 2 0 59 s).bind fun (m, s) =>
  (match after (unit ':') s with
    | none => some (0, s)
    | some s => (readNumber 2 0 59 s).bind fun (sec, s) =>
      match after (unit '.') s with
      | none => some (1000 * sec, s)
      | some s => (readNumber 3 0 999 s).map fun (ms, s) => (1000 * sec + ms, s)).bind fun (ms, s) =>
  if 3600000 * h + 60000 * m + ms ≤ 86400000 then some (3600000 * h + 60000 * m + ms, s) else none

/-- What the host makes of local time, and of the strings the format leaves to it. -/
structure Host where
  utc : Int → Int
  fallback : Str → Option Int

def readOffset (host : Host) (local' : Int) (s : Str) : Option Int :=
  if s = [] then some (host.utc local')
  else if s = [unit 'Z'] then some local'
  else match after (unit '+') s, after (unit '-') s with
    | some s, _ => offset s fun ms => local' - ms
    | none, some s => offset s fun ms => local' + ms
    | none, none => none
where
  offset (s : Str) (shift : Int → Int) : Option Int :=
    (readNumber 2 0 23 s).bind fun (h, s) => (after (unit ':') s).bind fun s =>
    (readNumber 2 0 59 s).bind fun (m, s) => if s = [] then some (shift (3600000 * h + 60000 * m)) else none

/-- The interchange format. A date alone is in UTC. -/
def readInstant (host : Host) (s : Str) : Option Int :=
  (readDate s).bind fun (c, s) =>
  if s = [] then some (msPerDay * daysFromCivil c)
  else (after (unit 'T') s).bind fun s => (readTime s).bind fun (ms, s) =>
    readOffset host (msPerDay * daysFromCivil c + ms) s

/-- `Date.parse`, `none` for `NaN`. -/
def dateParse (host : Host) (s : Str) : Option Int := ((readInstant host s).or (host.fallback s)).bind timeClip

private theorem after_padded {c : Char} (h : digitOf (unit c) = none) (w n : Nat) (s : Str) :
    after (unit c) (padded (w + 1) n ++ s) = none := by
  induction w generalizing n s with
  | zero => simp [padded, after, digit_ne_unit h]
  | succ w ih =>
    rw [padded, List.append_assoc]
    exact ih _ _

private theorem readYear_yearText {y : Int} (h : -999999 ≤ y ∧ y ≤ 999999) (s : Str) :
    readYear (yearText y ++ s) = some (y, s) := by
  unfold yearText
  split
  · rename_i hy
    rw [readYear, after_padded (by decide), after_padded (by decide),
      readNumber_padded (Nat.zero_le _) (by omega) (by decide)]
    simp [Int.toNat_of_nonneg hy.1]
  · rename_i hy
    split
    · rename_i hneg
      have hplus : after (unit '+') (unit '-' :: (padded 6 y.natAbs ++ s)) = none := rfl
      rw [List.cons_append, readYear, hplus, after_cons_self]
      dsimp only
      rw [readNumber_padded (by omega) (by omega) (by decide)]
      simp [Int.ofNat_natAbs_of_nonpos (by omega : y ≤ 0)]
    · rw [List.cons_append, readYear, after_cons_self]
      dsimp only
      rw [readNumber_padded (by omega) (by omega) (by decide)]
      simp [Int.natAbs_of_nonneg (by omega : 0 ≤ y)]

private theorem readDate_text {n : Int} (h : -100000000 ≤ n ∧ n ≤ 100000000) (s : Str) :
    readDate (yearText (civilFromDays n).year ++ unit '-' :: (padded 2 (civilFromDays n).month.toNat ++ unit '-' ::
      (padded 2 (civilFromDays n).day.toNat ++ s))) = some (civilFromDays n, s) := by
  obtain ⟨hm0,hm1,hd0,hd1⟩ := month_day_bounds n
  rw [readDate, readYear_yearText (year_bounds h), Option.bind_some]
  dsimp only
  rw [after_cons_self]
  dsimp only
  rw [readNumber_padded (by omega) (by omega) (by decide), Option.bind_some]
  dsimp only
  rw [after_cons_self]
  dsimp only
  rw [readNumber_padded (by omega) (by omega) (by decide), Option.map_some]
  simp only [Int.toNat_of_nonneg (by omega : 0 ≤ (civilFromDays n).month),
    Int.toNat_of_nonneg (by omega : 0 ≤ (civilFromDays n).day)]

private theorem readTime_text {r : Nat} (h : r < 86400000) (s : Str) :
    readTime (padded 2 (r / 3600000) ++ unit ':' :: (padded 2 (r / 60000 % 60) ++ unit ':' ::
      (padded 2 (r / 1000 % 60) ++ unit '.' :: (padded 3 (r % 1000) ++ s)))) = some (r, s) := by
  rw [readTime, readNumber_padded (by omega) (by omega) (by decide), Option.bind_some]
  dsimp only
  rw [after_cons_self, Option.bind_some, readNumber_padded (by omega) (by omega) (by decide), Option.bind_some]
  dsimp only
  rw [after_cons_self]
  dsimp only
  rw [readNumber_padded (by omega) (by omega) (by decide), Option.bind_some]
  dsimp only
  rw [after_cons_self]
  dsimp only
  rw [readNumber_padded (by omega) (by omega) (by decide), Option.map_some, Option.bind_some]
  dsimp only
  have hsum : 3600000 * (r / 3600000) + 60000 * (r / 60000 % 60) + (1000 * (r / 1000 % 60) + r % 1000) = r := by omega
  rw [hsum, if_pos (by omega)]

/-- What `toISOString` writes, `Date.parse` reads back, whatever the host. -/
theorem dateParse_toISOString (host : Host) {t : Int} (h : timeClip t = some t) :
    dateParse host (toISOString t) = some t := by
  have hclip : -8640000000000000 ≤ t ∧ t ≤ 8640000000000000 := by
    by_contra hn
    rw [timeClip, if_neg hn] at h
    cases h
  have hday : -100000000 ≤ t / msPerDay ∧ t / msPerDay ≤ 100000000 := by
    simp only [msPerDay]
    omega
  have hms : (t % msPerDay).toNat < 86400000 ∧ msPerDay * (t / msPerDay) + (t % msPerDay).toNat = t := by
    simp only [msPerDay]
    omega
  have hread : readInstant host (toISOString t) = some t := by
    rw [readInstant, toISOString, readDate_text hday, Option.bind_some]
    dsimp only
    rw [if_neg (List.cons_ne_nil _ _), after_cons_self, Option.bind_some, readTime_text hms.1, Option.bind_some]
    dsimp only
    rw [readOffset, if_neg (List.cons_ne_nil _ _), if_pos rfl, daysFromCivil_civilFromDays, hms.2]
  rw [dateParse, hread, Option.some_or, Option.bind_some, h]

end Nivara.Text
