import DevRepro.Python.JsonRoundTrip
import DevRepro.Python.Time

/-!
# Time stamps that are read

`datetime.fromisoformat`, the order of its results and their difference.  A text
without an offset gives a naive time, and naive and aware times have neither an
order nor a difference.

The texts that `fromisoformat` accepts differ between the versions of Python, so
`FromIsoformat` is any function that reads back what `isoformat` wrote.
-/

namespace DevRepro.Python

open Scan

/-! ## Stamps -/

/-- A time on the clock, in microseconds, and the offset of an aware time. -/
structure Stamp where
  wall : Int
  offset : Option Int
  deriving DecidableEq

def Stamp.Aware (s : Stamp) : Prop := s.offset ≠ none

instance (s : Stamp) : Decidable s.Aware := inferInstanceAs (Decidable (s.offset ≠ none))

/-- `s < t`. -/
def Stamp.lt (s t : Stamp) : Except Exc Bool :=
  match s.offset, t.offset with
  | some a, some b => .ok (decide (s.wall - a < t.wall - b))
  | none, none => .ok (decide (s.wall < t.wall))
  | _, _ => .error ⟨.typeError, "can't compare offset-naive and offset-aware datetimes"⟩

/-- `s - t`, in microseconds. -/
def Stamp.sub (s t : Stamp) : Except Exc Int :=
  match s.offset, t.offset with
  | some a, some b => .ok ((s.wall - a) - (t.wall - b))
  | none, none => .ok (s.wall - t.wall)
  | _, _ => .error ⟨.typeError, "can't subtract offset-naive and offset-aware datetimes"⟩

theorem Stamp.lt_aware {s t : Stamp} (hs : s.Aware) (ht : t.Aware) : ∃ b, s.lt t = .ok b := by
  rcases Option.ne_none_iff_exists'.mp hs with ⟨a, ha⟩
  rcases Option.ne_none_iff_exists'.mp ht with ⟨b, hb⟩
  rw [Stamp.lt, ha, hb]
  exact ⟨_, rfl⟩

theorem Stamp.sub_aware {s t : Stamp} (hs : s.Aware) (ht : t.Aware) : ∃ n, s.sub t = .ok n := by
  rcases Option.ne_none_iff_exists'.mp hs with ⟨a, ha⟩
  rcases Option.ne_none_iff_exists'.mp ht with ⟨b, hb⟩
  rw [Stamp.sub, ha, hb]
  exact ⟨_, rfl⟩

/-! ## Days -/

/-- A date of the calendar. -/
def Date.InCalendar (d : Date) : Prop :=
  1 ≤ d.month ∧ 1 ≤ d.day ∧ d.day ≤ daysInMonth d.year d.month

instance (d : Date) : Decidable d.InCalendar :=
  inferInstanceAs (Decidable (_ ∧ _ ∧ _))

/-- A time on a date of the calendar. -/
abbrev CalendarTime := { t : DateTime // t.date.InCalendar }

/-- `date(year, month, day).toordinal()`. -/
def ordinal (year month day : Nat) : Nat :=
  365 * (year - 1) + (year - 1) / 4 - (year - 1) / 100 + (year - 1) / 400 +
    ((List.range month).tail.map (daysInMonth year)).sum + day

/-- The microseconds of a time of day. -/
def clock (hour minute second microsecond : Nat) : Nat :=
  ((hour * 60 + minute) * 60 + second) * 1000000 + microsecond

/-- The stamp of an aware time in UTC. -/
def DateTime.stamp (t : DateTime) : Stamp :=
  ⟨ordinal t.date.year t.date.month t.date.day * 86400000000 +
    clock t.hour t.minute t.second t.microsecond, some 0⟩

/-- `datetime.fromisoformat`, where `none` stands for `ValueError`. -/
structure FromIsoformat where
  read : Str → Option Stamp
  /-- What `isoformat` wrote is read back. -/
  read_isoformat : ∀ t : DateTime, t.date.InCalendar → read t.isoformat = some t.stamp

/-! ## The texts that `isoformat` writes -/

/-- A number with a fixed count of digits, and the rest of the text. -/
def readDigits : Nat → Str → Option (Nat × Str)
  | 0, s => some (0, s)
  | _ + 1, [] => none
  | width + 1, c :: s => do
    let d ← asciiDigit? c
    let (n, rest) ← readDigits width s
    return (d * 10 ^ width + n, rest)

/-- The rest behind a character. -/
def readChar (c : CodePoint) : Str → Option Str
  | [] => none
  | d :: s => if d = c then some s else none

/-- The fraction of a second, if there is one. -/
def readFraction (s : Str) : Option (Nat × Str) :=
  match readChar (codePoint '.') s with
  | some rest => readDigits 6 rest
  | none => some (0, s)

/-- The end of a text: no offset, or that of UTC. -/
def readOffset (s : Str) : Option (Option Int) :=
  if s = [] then some none else if s = lit "+00:00" then some (some 0) else none

/-- The texts that `isoformat` writes for naive times and for times in UTC. -/
def readBasic (s : Str) : Option Stamp := do
  let (year, s) ← readDigits 4 s
  let s ← readChar (codePoint '-') s
  let (month, s) ← readDigits 2 s
  let s ← readChar (codePoint '-') s
  let (day, s) ← readDigits 2 s
  let s ← readChar (codePoint 'T') s
  let (hour, s) ← readDigits 2 s
  let s ← readChar (codePoint ':') s
  let (minute, s) ← readDigits 2 s
  let s ← readChar (codePoint ':') s
  let (second, s) ← readDigits 2 s
  let (microsecond, s) ← readFraction s
  let offset ← readOffset s
  if 1 ≤ year ∧ 1 ≤ month ∧ month ≤ 12 ∧ 1 ≤ day ∧ day ≤ daysInMonth year month ∧ hour < 24 ∧
      minute < 60 ∧ second < 60 then
    return ⟨ordinal year month day * 86400000000 + clock hour minute second microsecond, offset⟩
  else none

theorem readDigits_fixedDigits {width n : Nat} (hn : n < 10 ^ width) (s : Str) :
    readDigits width (fixedDigits width n ++ s) = some (n, s) := by
  induction width generalizing n with
  | zero =>
    have hzero : n = 0 := by simpa using hn
    rw [hzero]
    rfl
  | succ width ih =>
    have hpos : 0 < 10 ^ width := Nat.pow_pos (by decide)
    have hdigit : n / 10 ^ width < 10 := Nat.div_lt_of_lt_mul (by rwa [pow_succ] at hn)
    rw [fixedDigits, List.cons_append, readDigits, Nat.mod_eq_of_lt hdigit,
      asciiDigit?_digit hdigit, ih (Nat.mod_lt n hpos)]
    show some (n / 10 ^ width * 10 ^ width + n % 10 ^ width, s) = some (n, s)
    rw [Nat.div_add_mod']

theorem readChar_cons (c : CodePoint) (s : Str) : readChar c (c :: s) = some s := by
  rw [readChar, if_pos rfl]

/-- The digits of a number are read, and then the rest. -/
theorem readDigits_bind {α : Type} {width n : Nat} (hn : n < 10 ^ width) (s : Str)
    (f : Nat × Str → Option α) : (readDigits width (fixedDigits width n ++ s) >>= f) = f (n, s) := by
  rw [readDigits_fixedDigits hn, Option.bind_eq_bind, Option.bind_some]

theorem readChar_bind {α : Type} (c : CodePoint) (s : Str) (f : Str → Option α) :
    (readChar c (c :: s) >>= f) = f s := by
  rw [readChar_cons, Option.bind_eq_bind, Option.bind_some]

theorem readFraction_isoTail {n : Nat} (hn : n < 1000000) :
    readFraction (isoTail n) = some (n, lit "+00:00") := by
  rw [isoTail]
  split_ifs with hzero
  · rw [hzero]
    decide
  · rw [List.cons_append, readFraction, readChar_cons]
    exact readDigits_fixedDigits hn _

/-- What `isoformat` wrote is read back. -/
theorem readBasic_isoformat (t : DateTime) (h : t.date.InCalendar) :
    readBasic t.isoformat = some t.stamp := by
  have hyear : t.date.year < 10 ^ 4 := by have := t.date.year_le; omega
  have hmonth : t.date.month < 10 ^ 2 := by have := t.date.month_le; omega
  have hday : t.date.day < 10 ^ 2 := by have := t.date.day_le; omega
  have hhour : t.hour < 10 ^ 2 := by have := t.hour_lt; omega
  have hminute : t.minute < 10 ^ 2 := by have := t.minute_lt; omega
  have hsecond : t.second < 10 ^ 2 := by have := t.second_lt; omega
  have hoffset : readOffset (lit "+00:00") = some (some 0) := by decide
  have hrange : 1 ≤ t.date.year ∧ 1 ≤ t.date.month ∧ t.date.month ≤ 12 ∧ 1 ≤ t.date.day ∧
      t.date.day ≤ daysInMonth t.date.year t.date.month ∧ t.hour < 24 ∧ t.minute < 60 ∧
      t.second < 60 :=
    ⟨t.date.year_pos, h.1, t.date.month_le, h.2.1, h.2.2, t.hour_lt, t.minute_lt, t.second_lt⟩
  rw [readBasic, DateTime.isoformat, readDigits_bind hyear]
  dsimp only
  rw [readChar_bind, readDigits_bind hmonth]
  dsimp only
  rw [readChar_bind, readDigits_bind hday]
  dsimp only
  rw [readChar_bind, readDigits_bind hhour]
  dsimp only
  rw [readChar_bind, readDigits_bind hminute]
  dsimp only
  rw [readChar_bind, readDigits_bind hsecond]
  dsimp only
  rw [readFraction_isoTail t.microsecond_lt, Option.bind_eq_bind, Option.bind_some, hoffset]
  dsimp only
  rw [Option.bind_eq_bind, Option.bind_some, if_pos hrange]
  rfl

/-- The texts that every version reads alike. -/
def FromIsoformat.basic : FromIsoformat := ⟨readBasic, readBasic_isoformat⟩

/-! ## Texts without a letter -/

/-- The texts of `isoformat` have no `Z`. -/
theorem isoformat_no_zulu (t : DateTime) : codePoint 'Z' ∉ t.isoformat := by
  have hdigits : ∀ width n, codePoint 'Z' ∉ fixedDigits width n := by
    intro width
    induction width with
    | zero => exact fun n => List.not_mem_nil
    | succ width ih =>
      intro n
      rw [fixedDigits, List.mem_cons, not_or]
      refine ⟨?_, ih _⟩
      have hall : ∀ d : Fin 10, codePoint 'Z' ≠ digit d.val := by decide
      exact hall ⟨n / 10 ^ width % 10, Nat.mod_lt _ (by decide)⟩
  have hoffset : codePoint 'Z' ∉ lit "+00:00" := by decide
  have htail : codePoint 'Z' ∉ isoTail t.microsecond := by
    rw [isoTail]
    split_ifs
    · exact hoffset
    · rw [List.cons_append, List.mem_cons, List.mem_append, not_or, not_or]
      exact ⟨by decide, hdigits _ _, hoffset⟩
  simp only [DateTime.isoformat, List.mem_append, List.mem_cons, not_or]
  exact ⟨hdigits _ _, by decide, hdigits _ _, by decide, hdigits _ _, by decide, hdigits _ _,
    by decide, hdigits _ _, by decide, hdigits _ _, htail⟩

end DevRepro.Python
