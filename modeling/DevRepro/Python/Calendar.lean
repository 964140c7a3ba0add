import DevRepro.Python.Stamp

/-!
# Days of the calendar

`ordinal` counts the days since the beginning of year 1.  A step of one day adds
or takes one, so whole days added to a time move its stamp by as much
(`addDays_stamp`), and they can be added exactly when the count stays in the
range of `datetime` (`addDays_ok_iff`).  Fields are ordered as stamps are
(`before_iff_wall`).
-/

namespace DevRepro.Python

/-! ## Years and months -/

/-- The days before a year. -/
def daysBeforeYear (year : Nat) : Nat :=
  365 * (year - 1) + (year - 1) / 4 - (year - 1) / 100 + (year - 1) / 400

/-- The days of a year before a month. -/
def daysBeforeMonth (year month : Nat) : Nat := ((List.range month).tail.map (daysInMonth year)).sum

/-- The days of a year. -/
def daysInYear (year : Nat) : Nat := if isLeap year then 366 else 365

/-- `date.max.toordinal()`. -/
def maxOrdinal : Nat := 3652059

/-- `d.toordinal()`. -/
def Date.toordinal (d : Date) : Nat := ordinal d.year d.month d.day

theorem Date.toordinal_eq (d : Date) :
    d.toordinal = daysBeforeYear d.year + daysBeforeMonth d.year d.month + d.day := rfl

theorem isLeap_iff {year : Nat} :
    isLeap year = true ↔ year % 4 = 0 ∧ (year % 100 ≠ 0 ∨ year % 400 = 0) := by
  simp [isLeap]

/-- A leap year is one in four, without three in four centuries. -/
theorem leap_step (k : Nat) :
    (k + 1) / 4 + (k + 1) / 400 + k / 100 =
      k / 4 + k / 400 + (k + 1) / 100 + if isLeap (k + 1) then 1 else 0 := by
  have hfour := @Nat.succ_div k 4
  have hcentury := @Nat.succ_div k 100
  have hcycle := @Nat.succ_div k 400
  simp only [Nat.dvd_iff_mod_eq_zero] at hfour hcentury hcycle
  by_cases hleap : isLeap (k + 1) = true
  · have := isLeap_iff.mp hleap
    rw [if_pos hleap]
    omega
  · have := mt isLeap_iff.mpr hleap
    rw [if_neg hleap, hfour, hcentury, hcycle]
    split_ifs <;> omega

theorem daysBeforeYear_succ {year : Nat} (h : 1 ≤ year) :
    daysBeforeYear (year + 1) = daysBeforeYear year + daysInYear year := by
  rcases Nat.exists_eq_add_of_le' h with ⟨k, rfl⟩
  have hstep := leap_step k
  have hcentury : k / 100 ≤ k / 4 := Nat.div_le_div_left (by decide) (by decide)
  have hcentury' : (k + 1) / 100 ≤ (k + 1) / 4 := Nat.div_le_div_left (by decide) (by decide)
  have hyear : daysInYear (k + 1) = 365 + if isLeap (k + 1) then 1 else 0 := by
    rw [daysInYear]
    split_ifs
    · rfl
    · rfl
  rw [daysBeforeYear, daysBeforeYear, hyear, Nat.add_sub_cancel, Nat.add_sub_cancel, Nat.mul_succ]
  generalize (if isLeap (k + 1) then 1 else 0) = leap at hstep ⊢
  generalize 365 * k = days
  generalize k / 4 = a, (k + 1) / 4 = b, k / 100 = c, (k + 1) / 100 = d, k / 400 = e,
    (k + 1) / 400 = f at hstep hcentury hcentury' ⊢
  omega

theorem daysBeforeMonth_succ {year month : Nat} (h : 1 ≤ month) :
    daysBeforeMonth year (month + 1) = daysBeforeMonth year month + daysInMonth year month := by
  have htail : (List.range month ++ [month]).tail = (List.range month).tail ++ [month] :=
    List.tail_append_of_ne_nil (by rw [ne_eq, List.range_eq_nil]; omega)
  rw [daysBeforeMonth, daysBeforeMonth, List.range_succ, htail, List.map_append, List.sum_append]
  rfl

/-- December ends with the year. -/
theorem daysBeforeMonth_december (year : Nat) : daysBeforeMonth year 12 + 31 = daysInYear year := by
  have hmonths : daysBeforeMonth year 12 = 306 + daysInMonth year 2 := by
    simp [daysBeforeMonth, List.range_succ, daysInMonth]
    omega
  rw [hmonths, daysInYear, daysInMonth, if_pos rfl]
  split_ifs
  · rfl
  · rfl

theorem daysBeforeYear_mono {year later : Nat} (hyear : 1 ≤ year) (h : year < later) :
    daysBeforeYear year + daysInYear year ≤ daysBeforeYear later := by
  induction later, h using Nat.le_induction with
  | base => exact (daysBeforeYear_succ hyear).ge
  | succ later hle ih =>
    rw [daysBeforeYear_succ (hyear.trans (Nat.le_of_lt hle))]
    exact Nat.le_add_right_of_le ih

theorem daysBeforeMonth_mono {year month later : Nat} (hmonth : 1 ≤ month) (h : month < later) :
    daysBeforeMonth year month + daysInMonth year month ≤ daysBeforeMonth year later := by
  induction later, h using Nat.le_induction with
  | base => exact (daysBeforeMonth_succ hmonth).ge
  | succ later hle ih =>
    rw [daysBeforeMonth_succ (hmonth.trans (Nat.le_of_lt hle))]
    exact Nat.le_add_right_of_le ih

/-! ## One day -/

theorem Date.toordinal_pos {d : Date} (h : d.InCalendar) : 1 ≤ d.toordinal := by
  rw [d.toordinal_eq]
  exact Nat.le_add_left_of_le h.2.1

/-- A date lies in its year. -/
theorem Date.toordinal_le_year {d : Date} (h : d.InCalendar) :
    d.toordinal ≤ daysBeforeYear d.year + daysInYear d.year := by
  have hmonth : daysBeforeMonth d.year d.month + d.day ≤ daysInYear d.year := by
    rw [← daysBeforeMonth_december]
    rcases Nat.lt_or_eq_of_le d.month_le with hlt | heq
    · have := @daysBeforeMonth_mono d.year _ _ h.1 hlt
      have := h.2.2
      omega
    · have := d.day_le
      rw [heq]
      omega
  rw [d.toordinal_eq, Nat.add_assoc]
  exact Nat.add_le_add_left hmonth _

theorem Date.toordinal_le {d : Date} (h : d.InCalendar) : d.toordinal ≤ maxOrdinal := by
  have hlast : daysBeforeYear 9999 + daysInYear 9999 = maxOrdinal := by decide
  rw [← hlast]
  refine (Date.toordinal_le_year h).trans ?_
  rcases Nat.lt_or_eq_of_le d.year_le with hlt | heq
  · exact (daysBeforeYear_mono d.year_pos hlt).trans (Nat.le_add_right _ _)
  · rw [heq]

theorem daysInMonth_ge (year month : Nat) : 28 ≤ daysInMonth year month := by
  rw [daysInMonth]
  split_ifs <;> decide

theorem ordinal_eq (year month day : Nat) :
    ordinal year month day = daysBeforeYear year + daysBeforeMonth year month + day := rfl

theorem ordinal_day (year month day : Nat) :
    ordinal year month (day + 1) = ordinal year month day + 1 := rfl

/-- The first day of a month comes after the last one of the month before. -/
theorem ordinal_month {year month : Nat} (h : 1 ≤ month) :
    ordinal year (month + 1) 1 = ordinal year month (daysInMonth year month) + 1 := by
  rw [ordinal_eq, ordinal_eq, daysBeforeMonth_succ h]
  exact congrArg (· + 1) (Nat.add_assoc _ _ _).symm

/-- The first day of a year comes after the last one of the year before. -/
theorem ordinal_year {year : Nat} (h : 1 ≤ year) :
    ordinal (year + 1) 1 1 = ordinal year 12 31 + 1 := by
  rw [ordinal_eq, ordinal_eq, daysBeforeYear_succ h, ← daysBeforeMonth_december]
  exact congrArg (· + 1) (Nat.add_assoc _ _ _).symm

/-- The next day has the next number, and the last day has none. -/
theorem Date.next?_spec {d : Date} (h : d.InCalendar) :
    (∃ e, d.next? = some e ∧ e.InCalendar ∧ e.toordinal = d.toordinal + 1) ∨
      d.next? = none ∧ d.toordinal = maxOrdinal := by
  have hlong := daysInMonth_le d.year d.month
  rw [Date.next?, Date.toordinal]
  by_cases hday : d.day + 1 ≤ daysInMonth d.year d.month ∧ d.day + 1 ≤ 31
  · rw [dif_pos hday]
    exact Or.inl ⟨_, rfl, ⟨h.1, Nat.le_add_left _ _, hday.1⟩, ordinal_day _ _ _⟩
  · have hend : d.day = daysInMonth d.year d.month := by
      have := h.2.2
      omega
    rw [dif_neg hday]
    by_cases hmonth : d.month + 1 ≤ 12
    · have hone : 1 ≤ daysInMonth d.year (d.month + 1) :=
        le_trans (by decide) (daysInMonth_ge _ _)
      rw [dif_pos hmonth, hend]
      exact Or.inl ⟨_, rfl, ⟨Nat.le_add_left _ _, le_refl _, hone⟩, ordinal_month h.1⟩
    · have hdecember : d.month = 12 := by
        have := d.month_le
        omega
      have hlast : d.day = 31 := by
        rw [hend, hdecember]
        rfl
      rw [dif_neg hmonth, hdecember, hlast]
      by_cases hyear : d.year + 1 ≤ 9999
      · have hjanuary : 1 ≤ daysInMonth (d.year + 1) 1 := le_trans (by decide) (daysInMonth_ge _ _)
        rw [dif_pos hyear]
        exact Or.inl ⟨_, rfl, ⟨le_refl _, le_refl _, hjanuary⟩, ordinal_year d.year_pos⟩
      · have hmax : d.year = 9999 := by
          have := d.year_le
          omega
        rw [dif_neg hyear, hmax]
        exact Or.inr ⟨rfl, by decide⟩

/-- The day before has the number before, and the first day has none. -/
theorem Date.previous?_spec {d : Date} (h : d.InCalendar) :
    (∃ e, d.previous? = some e ∧ e.InCalendar ∧ d.toordinal = e.toordinal + 1) ∨
      d.previous? = none ∧ d.toordinal = 1 := by
  rw [Date.previous?, Date.toordinal]
  by_cases hday : 2 ≤ d.day
  · have hstep := ordinal_day d.year d.month (d.day - 1)
    rw [Nat.sub_add_cancel h.2.1] at hstep
    rw [if_pos hday]
    exact Or.inl ⟨_, rfl, ⟨h.1, Nat.le_sub_of_add_le hday, (Nat.sub_le _ _).trans h.2.2⟩, hstep⟩
  · have hfirst : d.day = 1 := by
      have := h.2.1
      omega
    rw [if_neg hday, hfirst]
    by_cases hmonth : 2 ≤ d.month
    · have hback : d.month - 1 + 1 = d.month := Nat.sub_add_cancel h.1
      have hone : 1 ≤ daysInMonth d.year (d.month - 1) := le_trans (by decide) (daysInMonth_ge _ _)
      have hbefore : 1 ≤ d.month - 1 := Nat.le_sub_of_add_le hmonth
      have hstep := @ordinal_month d.year _ hbefore
      rw [hback] at hstep
      rw [if_pos hmonth]
      exact Or.inl ⟨_, rfl, ⟨hbefore, hone, le_refl _⟩, hstep⟩
    · have hjanuary : d.month = 1 := by
        have := h.1
        omega
      rw [if_neg hmonth, hjanuary]
      by_cases hyear : 2 ≤ d.year
      · have hback : d.year - 1 + 1 = d.year := Nat.sub_add_cancel d.year_pos
        have hlong : 31 ≤ daysInMonth (d.year - 1) 12 := le_refl 31
        have hdecember : 1 ≤ 12 := by decide
        have hfull : 1 ≤ 31 := by decide
        have hbefore : 1 ≤ d.year - 1 := Nat.le_sub_of_add_le hyear
        have hstep := ordinal_year hbefore
        rw [hback] at hstep
        rw [dif_pos hyear]
        exact Or.inl ⟨_, rfl, ⟨hdecember, hfull, hlong⟩, hstep⟩
      · have hone : d.year = 1 := by
          have := d.year_pos
          omega
        rw [dif_neg hyear, hone]
        exact Or.inr ⟨rfl, rfl⟩

/-! ## Many days -/

/-- Days that go on from a date, as long as there are any. -/
theorem Date.steps_next {d : Date} (h : d.InCalendar) (n : Nat) :
    (d.toordinal + n ≤ maxOrdinal ∧ ∃ e, Date.steps Date.next? n d = some e ∧ e.InCalendar ∧
      e.toordinal = d.toordinal + n) ∨
      maxOrdinal < d.toordinal + n ∧ Date.steps Date.next? n d = none := by
  induction n generalizing d with
  | zero => exact Or.inl ⟨Date.toordinal_le h, d, rfl, h, rfl⟩
  | succ n ih =>
    rw [Date.steps]
    rcases Date.next?_spec h with ⟨e, he, hcal, hone⟩ | ⟨hnone, hmax⟩
    · rw [he, Option.bind_some]
      have hn := ih hcal
      rw [hone, Nat.add_right_comm] at hn
      exact hn
    · rw [hnone]
      exact Or.inr ⟨by omega, rfl⟩

/-- Days that go back from a date, as long as there are any. -/
theorem Date.steps_previous {d : Date} (h : d.InCalendar) (n : Nat) :
    (n < d.toordinal ∧ ∃ e, Date.steps Date.previous? n d = some e ∧ e.InCalendar ∧
      d.toordinal = e.toordinal + n) ∨
      d.toordinal ≤ n ∧ Date.steps Date.previous? n d = none := by
  induction n generalizing d with
  | zero => exact Or.inl ⟨Date.toordinal_pos h, d, rfl, h, rfl⟩
  | succ n ih =>
    rw [Date.steps]
    rcases Date.previous?_spec h with ⟨e, he, hcal, hone⟩ | ⟨hnone, hfirst⟩
    · rw [he, Option.bind_some]
      have hn := ih hcal
      rw [hone]
      rw [Nat.succ_lt_succ_iff, Nat.succ_le_succ_iff]
      exact hn.imp_left fun ⟨hlt, last, hlast, hin, hsum⟩ =>
        ⟨hlt, last, hlast, hin, by rw [hsum, Nat.add_assoc]⟩
    · rw [hnone]
      exact Or.inr ⟨by omega, rfl⟩

/-- Whether a count of days after a time is in the range of `datetime`. -/
def DateTime.DayInRange (t : DateTime) (days : Int) : Prop :=
  1 ≤ t.date.toordinal + days ∧ t.date.toordinal + days ≤ maxOrdinal

instance (t : DateTime) (days : Int) : Decidable (t.DayInRange days) :=
  inferInstanceAs (Decidable (_ ∧ _))

/-- The microseconds of a day. -/
def dayMicroseconds : Int := 86400000000

/-- Days are added exactly when they stay in range, and the stamp moves by as much. -/
theorem addDays_spec (t : CalendarTime) (days : Int) :
    (t.val.DayInRange days ∧ ∃ u : CalendarTime, t.val.addDays days = .ok u.val ∧
      u.val.stamp.wall = t.val.stamp.wall + days * dayMicroseconds) ∨
      ¬t.val.DayInRange days ∧ t.val.addDays days = .error overflowError := by
  have hpos := Date.toordinal_pos t.property
  have hle := Date.toordinal_le t.property
  have hwall : ∀ date : Date, (date.toordinal : Int) = t.val.date.toordinal + days →
      ({ t.val with date := date } : DateTime).stamp.wall =
        t.val.stamp.wall + days * dayMicroseconds := by
    intro date hdate
    show (date.toordinal : Int) * 86400000000 + _ =
      (t.val.date.toordinal : Int) * 86400000000 + _ + days * 86400000000
    rw [hdate, add_mul, add_right_comm]
  rw [DateTime.addDays]
  by_cases hhuge : days.natAbs > 999999999
  · rw [if_pos hhuge]
    refine Or.inr ⟨?_, rfl⟩
    rw [DateTime.DayInRange]
    rw [maxOrdinal] at hle ⊢
    omega
  · rw [if_neg hhuge]
    by_cases hsign : 0 ≤ days
    · rw [if_pos hsign]
      rcases Date.steps_next t.property days.natAbs with ⟨hin, e, he, hcal, hsum⟩ | ⟨hout, hnone⟩
      · rw [he]
        refine Or.inl ⟨⟨by omega, by omega⟩, ⟨⟨{ t.val with date := e }, hcal⟩, rfl, hwall e ?_⟩⟩
        omega
      · rw [hnone]
        refine Or.inr ⟨?_, rfl⟩
        rw [DateTime.DayInRange]
        omega
    · rw [if_neg hsign]
      rcases Date.steps_previous t.property days.natAbs with
        ⟨hin, e, he, hcal, hsum⟩ | ⟨hout, hnone⟩
      · rw [he]
        refine Or.inl ⟨⟨by omega, by omega⟩, ⟨⟨{ t.val with date := e }, hcal⟩, rfl, hwall e ?_⟩⟩
        omega
      · rw [hnone]
        refine Or.inr ⟨?_, rfl⟩
        rw [DateTime.DayInRange]
        omega

/-! ## The order of the stamps -/

/-- The fields of a date in lexicographic order. -/
theorem ordinal_lt {d e : Date} (hd : d.InCalendar) (he : e.InCalendar)
    (h : d.year < e.year ∨ d.year = e.year ∧ (d.month < e.month ∨
      d.month = e.month ∧ d.day < e.day)) : d.toordinal < e.toordinal := by
  rcases h with hyear | ⟨hyear, hmonth | ⟨hmonth, hday⟩⟩
  · have := daysBeforeYear_mono d.year_pos hyear
    have := Date.toordinal_le_year hd
    have := he.2.1
    have := e.toordinal_eq
    omega
  · have := @daysBeforeMonth_mono e.year _ _ hd.1 hmonth
    have := hd.2.2
    have := he.2.1
    have := e.toordinal_eq
    have := d.toordinal_eq
    rw [hyear] at *
    omega
  · rw [d.toordinal_eq, e.toordinal_eq, hyear, hmonth]
    omega

theorem clock_lt (t : DateTime) :
    clock t.hour t.minute t.second t.microsecond < 86400000000 := by
  have := t.hour_lt
  have := t.minute_lt
  have := t.second_lt
  have := t.microsecond_lt
  rw [clock]
  omega

theorem stamp_wall (t : DateTime) :
    t.stamp.wall = t.date.toordinal * 86400000000 + clock t.hour t.minute t.second t.microsecond :=
  rfl

/-- An earlier time of day has a smaller clock. -/
theorem clock_lt_clock {t u : DateTime}
    (h : t.hour < u.hour ∨ t.hour = u.hour ∧ (t.minute < u.minute ∨ t.minute = u.minute ∧
      (t.second < u.second ∨ t.second = u.second ∧ t.microsecond < u.microsecond))) :
    clock t.hour t.minute t.second t.microsecond < clock u.hour u.minute u.second u.microsecond := by
  have hminute := t.minute_lt
  have hsecond := t.second_lt
  have hmicro := t.microsecond_lt
  rw [clock, clock]
  omega

/-- An earlier time has a smaller stamp. -/
theorem wall_lt_of_before {t u : CalendarTime} (h : t.val.Before u.val) :
    t.val.stamp.wall < u.val.stamp.wall := by
  have hclock := clock_lt t.val
  have hdates := @ordinal_lt _ _ t.property u.property
  rw [stamp_wall, stamp_wall]
  simp only [DateTime.Before, DateTime.fields, List.cons_lt_cons_iff, List.not_lt_nil,
    and_false, or_false] at h
  rcases h with hyear | ⟨hyear, hmonth | ⟨hmonth, hday | ⟨hday, htime⟩⟩⟩
  · have := hdates (Or.inl hyear)
    omega
  · have := hdates (Or.inr ⟨hyear, Or.inl hmonth⟩)
    omega
  · have := hdates (Or.inr ⟨hyear, Or.inr ⟨hmonth, hday⟩⟩)
    omega
  · have hsame : t.val.date.toordinal = u.val.date.toordinal := by
      rw [Date.toordinal, Date.toordinal, hyear, hmonth, hday]
    have := clock_lt_clock htime
    omega

theorem fields_injective {t u : DateTime} (h : t.fields = u.fields) : t = u := by
  simp only [DateTime.fields, List.cons.injEq] at h
  rcases t with ⟨⟨⟩⟩
  rcases u with ⟨⟨⟩⟩
  rcases h with ⟨hyear, hmonth, hday, hhour, hminute, hsecond, hmicro, _⟩
  simp_all

/-- Times are ordered as their stamps are. -/
theorem before_iff_wall (t u : CalendarTime) :
    t.val.Before u.val ↔ t.val.stamp.wall < u.val.stamp.wall := by
  constructor
  · exact wall_lt_of_before
  · intro h
    rcases lt_trichotomy t.val.fields u.val.fields with hlt | heq | hgt
    · exact hlt
    · rw [fields_injective heq] at h
      exact absurd h (lt_irrefl _)
    · exact absurd (wall_lt_of_before hgt) h.asymm

/-- Times with one text are one time. -/
theorem isoformat_injective {t u : DateTime} (h : t.isoformat = u.isoformat) : t = u := by
  have htu := isoformat_lt_iff t u
  have hut := isoformat_lt_iff u t
  rw [h, strLt_irrefl] at htu hut
  rcases lt_trichotomy t.fields u.fields with hlt | heq | hgt
  · exact absurd (htu.mpr hlt) Bool.false_ne_true
  · exact fields_injective heq
  · exact absurd (hut.mpr hgt) Bool.false_ne_true

end DevRepro.Python
