import DevRepro.Python.JsonDump

/-!
# Time stamps

The part of `datetime` that the server uses: aware times in UTC, their order,
whole days added to them, and `isoformat`.

The database compares the texts and not the times.  `isoformat_lt_iff` says that
this is the same: every field has a fixed width, and a time without
microseconds, whose text goes on with the offset and not with a fraction, is
the first one of its second.
-/

namespace DevRepro.Python

/-! ## Times -/

/-- `calendar.isleap`. -/
def isLeap (year : Nat) : Bool := year % 4 == 0 && (year % 100 != 0 || year % 400 == 0)

/-- The number of days of a month. -/
def daysInMonth (year month : Nat) : Nat :=
  if month = 2 then if isLeap year then 29 else 28
  else if month ∈ [4, 6, 9, 11] then 30 else 31

/-- A date that `datetime.date` can hold. -/
structure Date where
  year : Nat
  month : Nat
  day : Nat
  year_pos : 1 ≤ year
  year_le : year ≤ 9999
  month_le : month ≤ 12
  day_le : day ≤ 31
  deriving DecidableEq

/-- An aware `datetime` in UTC. -/
structure DateTime where
  date : Date
  hour : Nat
  minute : Nat
  second : Nat
  microsecond : Nat
  hour_lt : hour < 24
  minute_lt : minute < 60
  second_lt : second < 60
  microsecond_lt : microsecond < 1000000
  deriving DecidableEq

/-- The fields by which times are compared, the most significant first. -/
def DateTime.fields (t : DateTime) : List Nat :=
  [t.date.year, t.date.month, t.date.day, t.hour, t.minute, t.second, t.microsecond]

/-- `t < u`. -/
def DateTime.Before (t u : DateTime) : Prop := t.fields < u.fields

instance (t u : DateTime) : Decidable (t.Before u) :=
  inferInstanceAs (Decidable (t.fields < u.fields))

/-- The day after a date. -/
def Date.next? (d : Date) : Option Date :=
  if h : d.day + 1 ≤ daysInMonth d.year d.month ∧ d.day + 1 ≤ 31 then
    some { d with day := d.day + 1, day_le := h.2 }
  else if h : d.month + 1 ≤ 12 then
    some { d with month := d.month + 1, day := 1, month_le := h, day_le := by decide }
  else if h : d.year + 1 ≤ 9999 then
    some { d with year := d.year + 1, month := 1, day := 1, year_pos := by omega, year_le := h,
                  month_le := by decide, day_le := by decide }
  else none

theorem daysInMonth_le (year month : Nat) : daysInMonth year month ≤ 31 := by
  rw [daysInMonth]
  split_ifs <;> decide

/-- The day before a date. -/
def Date.previous? (d : Date) : Option Date :=
  if 2 ≤ d.day then some { d with day := d.day - 1, day_le := by have := d.day_le; omega }
  else if 2 ≤ d.month then
    some { d with month := d.month - 1, day := daysInMonth d.year (d.month - 1),
                  month_le := by have := d.month_le; omega, day_le := daysInMonth_le _ _ }
  else if h : 2 ≤ d.year then
    some { d with year := d.year - 1, month := 12, day := 31, year_pos := by omega,
                  year_le := by have := d.year_le; omega, month_le := by decide,
                  day_le := by decide }
  else none

/-- Some steps, one day each. -/
def Date.steps (step : Date → Option Date) : Nat → Date → Option Date
  | 0, d => some d
  | n + 1, d => (step d).bind (Date.steps step n)

def overflowError : Exc := ⟨.overflowError, "date value out of range"⟩

/-- `t + timedelta(days=days)`. -/
def DateTime.addDays (t : DateTime) (days : Int) : Except Exc DateTime :=
  if days.natAbs > 999999999 then .error overflowError
  else
    match Date.steps (if 0 ≤ days then Date.next? else Date.previous?) days.natAbs t.date with
    | some date => .ok { t with date := date }
    | none => .error overflowError

/-! ## `isoformat` -/

/-- A number with a fixed count of digits. -/
def fixedDigits : Nat → Nat → Str
  | 0, _ => []
  | width + 1, n => digit (n / 10 ^ width % 10) :: fixedDigits width (n % 10 ^ width)

/-- The fraction of a second, which is left out when it is zero, and the offset. -/
def isoTail (microsecond : Nat) : Str :=
  (if microsecond = 0 then [] else codePoint '.' :: fixedDigits 6 microsecond) ++ lit "+00:00"

/-- `t.isoformat()`. -/
def DateTime.isoformat (t : DateTime) : Str :=
  fixedDigits 4 t.date.year ++ codePoint '-' :: (fixedDigits 2 t.date.month ++
    codePoint '-' :: (fixedDigits 2 t.date.day ++ codePoint 'T' :: (fixedDigits 2 t.hour ++
      codePoint ':' :: (fixedDigits 2 t.minute ++ codePoint ':' :: (fixedDigits 2 t.second ++
        isoTail t.microsecond)))))

example : (DateTime.mk ⟨2026, 1, 31, by decide, by decide, by decide, by decide⟩ 9 5 0 250
    (by decide) (by decide) (by decide) (by decide)).isoformat =
      lit "2026-01-31T09:05:00.000250+00:00" := by decide

/-! ## The order of the texts -/

/-- `s < t` for texts. -/
def strLt (s t : Str) : Bool := !strLe t s

theorem strLt_cons {c d : CodePoint} {s t : Str} :
    strLt (c :: s) (d :: t) = true ↔ c < d ∨ c = d ∧ strLt s t = true := by
  simp only [strLt, strLe, Bool.not_eq_true', Bool.or_eq_false_iff, decide_eq_false_iff_not,
    Bool.and_eq_false_iff, not_lt]
  constructor
  · intro ⟨hle, hrest⟩
    rcases lt_or_eq_of_le hle with hlt | heq
    · exact Or.inl hlt
    · rcases hrest with hne | hrest
      · exact absurd heq.symm hne
      · exact Or.inr ⟨heq, hrest⟩
  · intro h
    rcases h with hlt | ⟨heq, hrest⟩
    · exact ⟨hlt.le, Or.inl hlt.ne'⟩
    · exact ⟨heq.le, Or.inr hrest⟩

theorem digit_lt_iff {m n : Nat} (hm : m < 10) (hn : n < 10) : digit m < digit n ↔ m < n := by
  have hall : ∀ a : Fin 10, ∀ b : Fin 10, digit a.val < digit b.val ↔ a.val < b.val := by decide
  exact hall ⟨m, hm⟩ ⟨n, hn⟩

theorem digit_eq_iff {m n : Nat} (hm : m < 10) (hn : n < 10) : digit m = digit n ↔ m = n := by
  have hall : ∀ a : Fin 10, ∀ b : Fin 10, digit a.val = digit b.val ↔ a.val = b.val := by decide
  exact hall ⟨m, hm⟩ ⟨n, hn⟩

/-- Texts that begin with numbers of one width are ordered by the numbers first. -/
theorem strLt_fixedDigits {width m n : Nat} (hm : m < 10 ^ width) (hn : n < 10 ^ width)
    (s t : Str) :
    strLt (fixedDigits width m ++ s) (fixedDigits width n ++ t) = true ↔
      m < n ∨ m = n ∧ strLt s t = true := by
  induction width generalizing m n with
  | zero =>
    have hm0 : m = 0 := by simpa using hm
    have hn0 : n = 0 := by simpa using hn
    simp [fixedDigits, hm0, hn0]
  | succ width ih =>
    have hpos : 0 < 10 ^ width := Nat.pow_pos (by decide)
    have hm' : m / 10 ^ width < 10 := Nat.div_lt_of_lt_mul (by rwa [pow_succ] at hm)
    have hn' : n / 10 ^ width < 10 := Nat.div_lt_of_lt_mul (by rwa [pow_succ] at hn)
    rw [fixedDigits, fixedDigits, List.cons_append, List.cons_append, strLt_cons,
      Nat.mod_eq_of_lt hm', Nat.mod_eq_of_lt hn', digit_lt_iff hm' hn', digit_eq_iff hm' hn',
      ih (Nat.mod_lt m hpos) (Nat.mod_lt n hpos)]
    have hmdiv := Nat.div_add_mod m (10 ^ width)
    have hndiv := Nat.div_add_mod n (10 ^ width)
    constructor
    · intro h
      rcases h with hlt | ⟨heq, hrest⟩
      · exact Or.inl (Nat.lt_of_div_lt_div hlt)
      · rcases hrest with hlt | ⟨hmod, hst⟩
        · rw [heq] at hmdiv
          omega
        · rw [heq, hmod] at hmdiv
          exact Or.inr ⟨hmdiv.symm.trans hndiv, hst⟩
    · intro h
      rcases h with hlt | ⟨heq, hst⟩
      · rcases lt_or_eq_of_le (Nat.div_le_div_right hlt.le : m / 10 ^ width ≤ n / 10 ^ width) with
          hdiv | hdiv
        · exact Or.inl hdiv
        · rw [hdiv] at hmdiv
          exact Or.inr ⟨hdiv, Or.inl (by omega)⟩
      · exact Or.inr ⟨by rw [heq], Or.inr ⟨by rw [heq], hst⟩⟩

theorem strLt_same (c : CodePoint) (s t : Str) :
    strLt (c :: s) (c :: t) = true ↔ strLt s t = true := by
  simp [strLt_cons]

theorem strLt_irrefl (s : Str) : strLt s s = false := by
  induction s with
  | nil => rfl
  | cons c s ih =>
    have h := strLt_same c s s
    rw [ih] at h
    simpa using h

theorem strLt_isoTail {m n : Nat} (hm : m < 1000000) (hn : n < 1000000) :
    strLt (isoTail m) (isoTail n) = true ↔ m < n := by
  have hplus : codePoint '+' < codePoint '.' := by decide
  rw [isoTail, isoTail]
  by_cases hm0 : m = 0
  · by_cases hn0 : n = 0
    · simp [hm0, hn0, strLt_irrefl]
    · rw [if_pos hm0, if_neg hn0]
      refine iff_of_true ?_ (by omega)
      exact strLt_cons.mpr (Or.inl hplus)
  · by_cases hn0 : n = 0
    · rw [if_neg hm0, if_pos hn0]
      refine iff_of_false ?_ (by omega)
      intro h
      rcases strLt_cons.mp h with hlt | ⟨heq, _⟩
      · exact absurd hlt hplus.asymm
      · exact absurd heq.symm hplus.ne
    · rw [if_neg hm0, if_neg hn0, List.cons_append, List.cons_append, strLt_same,
        strLt_fixedDigits hm hn, strLt_irrefl]
      simp

/-- The order of the texts is the order of the times. -/
theorem isoformat_lt_iff (t u : DateTime) :
    strLt t.isoformat u.isoformat = true ↔ t.Before u := by
  have hfour : ∀ d : Date, d.year < 10 ^ 4 := fun d => by have := d.year_le; omega
  have hmonth : ∀ d : Date, d.month < 10 ^ 2 := fun d => by have := d.month_le; omega
  have hday : ∀ d : Date, d.day < 10 ^ 2 := fun d => by have := d.day_le; omega
  have hhour : ∀ t : DateTime, t.hour < 10 ^ 2 := fun t => by have := t.hour_lt; omega
  have hminute : ∀ t : DateTime, t.minute < 10 ^ 2 := fun t => by have := t.minute_lt; omega
  have hsecond : ∀ t : DateTime, t.second < 10 ^ 2 := fun t => by have := t.second_lt; omega
  rw [DateTime.isoformat, DateTime.isoformat, strLt_fixedDigits (hfour _) (hfour _), strLt_same,
    strLt_fixedDigits (hmonth _) (hmonth _), strLt_same, strLt_fixedDigits (hday _) (hday _),
    strLt_same, strLt_fixedDigits (hhour _) (hhour _), strLt_same,
    strLt_fixedDigits (hminute _) (hminute _), strLt_same,
    strLt_fixedDigits (hsecond _) (hsecond _), strLt_isoTail t.microsecond_lt u.microsecond_lt]
  simp [DateTime.Before, DateTime.fields, List.cons_lt_cons_iff]

/-! ## The characters of the texts -/

theorem fixedDigits_printable (width n : Nat) : PrintableText (fixedDigits width n) := by
  induction width generalizing n with
  | zero => exact printableText_nil
  | succ width ih =>
    rw [fixedDigits, printableText_cons]
    exact ⟨digit_printable (lt_trans (Nat.mod_lt _ (by decide)) (by decide)), ih _⟩

theorem isoformat_ne_nil (t : DateTime) : t.isoformat ≠ [] := by
  rw [DateTime.isoformat, fixedDigits, List.cons_append]
  exact List.cons_ne_nil _ _

theorem isoformat_printable (t : DateTime) : PrintableText t.isoformat := by
  have hdash : isPrintableAscii (codePoint '-') = true := by decide
  have hcolon : isPrintableAscii (codePoint ':') = true := by decide
  have htee : isPrintableAscii (codePoint 'T') = true := by decide
  have hdot : isPrintableAscii (codePoint '.') = true := by decide
  have hoffset : PrintableText (lit "+00:00") := by decide
  have htail : PrintableText (isoTail t.microsecond) := by
    rw [isoTail]
    split_ifs
    · exact hoffset
    · simp [hdot, hoffset, fixedDigits_printable]
  simp [DateTime.isoformat, fixedDigits_printable, hdash, hcolon, htee, htail]

/-! ## Moments for examples -/

/-- Midnight of the first day of 2026. -/
def DateTime.newYear : DateTime :=
  ⟨⟨2026, 1, 1, by decide, by decide, by decide, by decide⟩, 0, 0, 0, 0, by decide, by decide,
    by decide, by decide⟩

/-- Noon of that day. -/
def DateTime.newYearNoon : DateTime := { DateTime.newYear with hour := 12, hour_lt := by decide }

end DevRepro.Python
