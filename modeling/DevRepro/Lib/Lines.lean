import Mathlib.Algebra.Order.BigOperators.Group.List
import Mathlib.Algebra.Order.Group.Nat
import Mathlib.Tactic.SplitIfs
import Mathlib.Data.List.Basic

/-!
# The lines of a written text

A text is written as entries, each with a line break behind it.  An entry that
was meant for one line has more of them when a value in it holds a break, and the
lines behind its first one are the value's own.
-/

namespace DevRepro.Lib

variable {α : Type} {brk : α → Bool} {nl : α}

/-! ## Lines -/

/-- The lines of a text, for the characters that end one. -/
def linesOf (brk : α → Bool) (s : List α) : List (List α) := s.splitOnP brk

/-- The text up to the first break. -/
def firstLine (brk : α → Bool) (s : List α) : List α := s.takeWhile fun c => !brk c

/-- The lines behind the first one. -/
def behind (brk : α → Bool) (s : List α) : List (List α) := (linesOf brk s).tail

/-- A text without a break. -/
def Unbroken (brk : α → Bool) (s : List α) : Prop := ∀ c ∈ s, brk c = false

instance (s : List α) : Decidable (Unbroken brk s) := inferInstanceAs (Decidable (∀ c ∈ s, _))

@[simp] theorem linesOf_nil : linesOf brk ([] : List α) = [[]] := rfl

theorem linesOf_cons (c : α) (s : List α) :
    linesOf brk (c :: s) =
      if brk c = true then [] :: linesOf brk s else (linesOf brk s).modifyHead (c :: ·) := by
  unfold linesOf
  exact List.splitOnP_cons_eq_if_modifyHead c s

theorem linesOf_eq (s : List α) : linesOf brk s = firstLine brk s :: behind brk s := by
  unfold behind firstLine
  induction s with
  | nil => rfl
  | cons c s ih =>
    rw [linesOf_cons]
    by_cases hc : brk c = true
    · simp [hc]
    · rw [if_neg hc, ih]
      simp [hc]

theorem linesOf_append_cons (s t : List α) (hnl : brk nl = true) :
    linesOf brk (s ++ nl :: t) = linesOf brk s ++ linesOf brk t := by
  unfold linesOf
  exact List.splitOnP_append_cons s t hnl

theorem unbroken_nil : Unbroken brk ([] : List α) := by
  intro c hc
  cases hc

theorem unbroken_append {s t : List α} : Unbroken brk (s ++ t) ↔ Unbroken brk s ∧ Unbroken brk t :=
  List.forall_mem_append

theorem linesOf_append {s : List α} (hs : Unbroken brk s) (t : List α) :
    linesOf brk (s ++ t) = (s ++ firstLine brk t) :: behind brk t := by
  induction s with
  | nil => exact linesOf_eq t
  | cons c s ih =>
    have hc : ¬brk c = true := by simp [hs c List.mem_cons_self]
    rw [List.cons_append, linesOf_cons, if_neg hc,
      ih fun d hd => hs d (List.mem_cons_of_mem c hd)]
    rfl

theorem firstLine_append {s : List α} (hs : Unbroken brk s) (t : List α) :
    firstLine brk (s ++ t) = s ++ firstLine brk t := by
  have h := linesOf_append hs t
  rw [linesOf_eq, List.cons.injEq] at h
  exact h.1

theorem behind_append {s : List α} (hs : Unbroken brk s) (t : List α) :
    behind brk (s ++ t) = behind brk t := by
  have h := linesOf_append hs t
  rw [linesOf_eq, List.cons.injEq] at h
  exact h.2

theorem Unbroken.linesOf {s : List α} (hs : Unbroken brk s) : linesOf brk s = [s] := by
  have h := linesOf_append hs []
  rw [List.append_nil] at h
  rw [h]
  simp [firstLine, behind]

theorem Unbroken.firstLine {s : List α} (hs : Unbroken brk s) : firstLine brk s = s := by
  have h := hs.linesOf
  rw [linesOf_eq, List.cons.injEq] at h
  exact h.1

theorem Unbroken.behind {s : List α} (hs : Unbroken brk s) : behind brk s = [] := by
  have h := hs.linesOf
  rw [linesOf_eq, List.cons.injEq] at h
  exact h.2

/-- A text is unbroken, or it has a last break. -/
theorem unbroken_or_last (s : List α) :
    Unbroken brk s ∨ ∃ before c after, s = before ++ c :: after ∧ brk c = true ∧ Unbroken brk after := by
  induction s with
  | nil => exact Or.inl unbroken_nil
  | cons d s ih =>
    rcases ih with hs | ⟨before, c, after, rfl, hc, hafter⟩
    · by_cases hd : brk d = true
      · exact Or.inr ⟨[], d, s, rfl, hd, hs⟩
      · refine Or.inl fun c hc => ?_
        rcases List.mem_cons.mp hc with rfl | hc
        · exact eq_false_of_ne_true hd
        · exact hs c hc
    · exact Or.inr ⟨d :: before, c, after, rfl, hc, hafter⟩

/-- A text of one line. -/
theorem linesOf_eq_singleton {s line : List α} :
    linesOf brk s = [line] ↔ Unbroken brk s ∧ line = s := by
  constructor
  · intro h
    rcases @unbroken_or_last α brk s with hs | ⟨before, c, after, rfl, hc, -⟩
    · rw [hs.linesOf, List.singleton_inj] at h
      exact ⟨hs, h.symm⟩
    · rw [linesOf_append_cons _ _ hc, linesOf_eq before, linesOf_eq after] at h
      exact absurd (congrArg List.length h) (by simp)
  · rintro ⟨hs, rfl⟩
    exact hs.linesOf

/-- A value in the middle of an entry: when every line behind the first one has a
property that no line with the text after the value has, the value is unbroken. -/
theorem forall_behind_iff {P : List α → Prop} {value mid : List α} (hmid : Unbroken brk mid)
    (hP : ∀ before after, ¬P (before ++ (mid ++ after))) (t : List α) :
    (∀ line ∈ behind brk (value ++ (mid ++ t)), P line) ↔
      Unbroken brk value ∧ ∀ line ∈ behind brk t, P line := by
  constructor
  · intro h
    have hvalue : Unbroken brk value := by
      rcases @unbroken_or_last α brk value with hs | ⟨before, c, after, rfl, hc, hafter⟩
      · exact hs
      · refine absurd (h (after ++ (mid ++ firstLine brk t)) ?_) (hP _ _)
        rw [behind, List.append_assoc, List.cons_append, linesOf_append_cons _ _ hc,
          linesOf_append hafter, firstLine_append hmid, linesOf_eq before]
        exact List.mem_append_right _ List.mem_cons_self
    refine ⟨hvalue, ?_⟩
    rw [behind_append hvalue, behind_append hmid] at h
    exact h
  · rintro ⟨hvalue, h⟩
    rw [behind_append hvalue, behind_append hmid]
    exact h

theorem unbroken_of_mem_linesOf {s line : List α} (h : line ∈ linesOf brk s) :
    Unbroken brk line := by
  induction s generalizing line with
  | nil =>
    rw [linesOf_nil, List.mem_singleton] at h
    rw [h]
    exact unbroken_nil
  | cons c s ih =>
    rw [linesOf_cons] at h
    split_ifs at h with hc
    · rcases List.mem_cons.mp h with rfl | h
      · exact unbroken_nil
      · exact ih h
    · rw [linesOf_eq, List.modifyHead_cons] at h
      rcases List.mem_cons.mp h with rfl | h
      · intro d hd
        rcases List.mem_cons.mp hd with rfl | hd
        · exact eq_false_of_ne_true hc
        · exact ih (by rw [linesOf_eq]; exact List.mem_cons_self) d hd
      · exact ih (by rw [linesOf_eq]; exact List.mem_cons_of_mem _ h)

/-! ## Entries -/

/-- Entries, each with a break behind it. -/
def unlines (nl : α) (entries : List (List α)) : List α := entries.flatMap fun entry => entry ++ [nl]

theorem unlines_append (entries others : List (List α)) :
    unlines nl (entries ++ others) = unlines nl entries ++ unlines nl others :=
  List.flatMap_append

theorem linesOf_unlines (hnl : brk nl = true) (entries : List (List α)) :
    linesOf brk (unlines nl entries) = entries.flatMap (linesOf brk) ++ [[]] := by
  induction entries with
  | nil => rfl
  | cons entry entries ih =>
    have hcons : unlines nl (entry :: entries) = entry ++ nl :: unlines nl entries := by
      simp [unlines]
    rw [hcons, linesOf_append_cons _ _ hnl, ih, List.flatMap_cons, List.append_assoc]

/-- The lines of an entry make the entry, when only one character ends a line. -/
theorem unlines_linesOf (hbrk : ∀ c, brk c = true ↔ c = nl) (s : List α) :
    unlines nl (linesOf brk s) = s ++ [nl] := by
  induction s with
  | nil => rfl
  | cons c s ih =>
    rw [linesOf_cons]
    split_ifs with hc
    · rw [(hbrk c).mp hc]
      exact congrArg (nl :: ·) ih
    · rw [linesOf_eq] at ih ⊢
      exact congrArg (c :: ·) ih

/-- A text of entries is one of their lines. -/
theorem unlines_flatMap_linesOf (hbrk : ∀ c, brk c = true ↔ c = nl) (entries : List (List α)) :
    unlines nl (entries.flatMap (linesOf brk)) = unlines nl entries := by
  induction entries with
  | nil => rfl
  | cons entry entries ih =>
    rw [List.flatMap_cons, unlines_append, ih, unlines_linesOf hbrk]
    rfl

/-- The lines of a text that a reader acts on. -/
def activeLines (brk : α → Bool) (active : List α → Bool) (s : List α) : List (List α) :=
  (linesOf brk s).filter active

variable {active : List α → Bool}

theorem activeLines_unlines (hnl : brk nl = true) (hempty : active [] = false)
    (entries : List (List α)) :
    activeLines brk active (unlines nl entries) = entries.flatMap (activeLines brk active) := by
  rw [activeLines, linesOf_unlines hnl, List.filter_append, List.filter_flatMap]
  simp only [List.filter_cons, hempty, List.filter_nil, Bool.false_eq_true, if_false,
    List.append_nil]
  rfl

theorem activeLines_eq (s : List α) :
    activeLines brk active s =
      (if active (firstLine brk s) = true then [firstLine brk s] else []) ++
        (behind brk s).filter active := by
  rw [activeLines, linesOf_eq, List.filter_cons]
  split_ifs
  · rfl
  · rfl

/-- Lists of the right lengths, with more behind some of them, make up what is wanted
exactly when each is what is wanted of it and nothing is behind it. -/
theorem flatMap_append_eq_flatMap_iff {β γ : Type} {entries : List β} {start rest want : β → List γ}
    (hlength : ∀ e ∈ entries, (start e).length = (want e).length) :
    (entries.flatMap fun e => start e ++ rest e) = entries.flatMap want ↔
      ∀ e ∈ entries, rest e = [] ∧ start e = want e := by
  induction entries with
  | nil => simp
  | cons e entries ih =>
    rw [List.forall_mem_cons] at hlength
    rw [List.flatMap_cons, List.flatMap_cons, List.forall_mem_cons, ← ih hlength.2]
    constructor
    · intro h
      have hlong : (entries.flatMap want).length ≤
          (entries.flatMap fun e => start e ++ rest e).length := by
        rw [List.length_flatMap, List.length_flatMap]
        refine List.sum_le_sum fun e he => ?_
        rw [List.length_append, hlength.2 e he]
        omega
      have htotal := congrArg List.length h
      simp only [List.length_append] at htotal
      have hrest : rest e = [] := List.eq_nil_of_length_eq_zero (by omega)
      rw [hrest, List.append_nil] at h
      obtain ⟨hstart, hentries⟩ := List.append_inj h hlength.1
      exact ⟨⟨hrest, hstart⟩, hentries⟩
    · rintro ⟨⟨hrest, hstart⟩, h⟩
      rw [hrest, hstart, h, List.append_nil]

/-- Lists that start with their own part are no longer than those parts exactly
when nothing else is behind them. -/
theorem flatMap_append_eq_iff {β γ : Type} {entries : List β} {start rest : β → List γ} :
    (entries.flatMap fun e => start e ++ rest e) = entries.flatMap start ↔
      ∀ e ∈ entries, rest e = [] := by
  rw [flatMap_append_eq_flatMap_iff fun e _ => rfl]
  simp only [and_true]

/-- The active lines are one for each entry that starts with one exactly when no
entry has one behind its first line. -/
theorem activeLines_unlines_eq_iff (hnl : brk nl = true) (hempty : active [] = false)
    {entries : List (List α)} :
    activeLines brk active (unlines nl entries) =
        (entries.map (firstLine brk)).filter active ↔
      ∀ entry ∈ entries, ∀ line ∈ behind brk entry, active line = false := by
  have hstarts : (entries.map (firstLine brk)).filter active = entries.flatMap fun entry =>
      if active (firstLine brk entry) = true then [firstLine brk entry] else [] := by
    induction entries with
    | nil => rfl
    | cons entry entries ih =>
      rw [List.map_cons, List.filter_cons, List.flatMap_cons, ih]
      split_ifs
      · rfl
      · rfl
  rw [activeLines_unlines hnl hempty, hstarts, funext activeLines_eq, flatMap_append_eq_iff]
  simp only [List.filter_eq_nil_iff, Bool.not_eq_true]

end DevRepro.Lib

/-!
## Starts of lines

The places of a list behind a separator, and what holds at one of them.  What stands before a
place does not matter, so a list can be gone through piece by piece: `holdsBehind_append`.  Of a
predicate that looks at one line at a time it is enough to look at the lines: `holdsBehind_lines`.
-/

namespace DevRepro.Lib

variable {α : Type*} [DecidableEq α] (sep : α) (P : List α → Prop)

/-- What stands behind each separator of a list. -/
def startsBehind : List α → List (List α)
  | [] => []
  | a :: rest => if a = sep then rest :: startsBehind rest else startsBehind rest

/-- The predicate holds behind a separator. -/
def HoldsBehind (s : List α) : Prop := ∃ u ∈ startsBehind sep s, P u

/-- The predicate holds of a line and what is behind it for the line, or leaves it to the next one. -/
structure LineWise : Prop where
  stays : ∀ {l t : List α}, sep ∉ l → P l → P (l ++ sep :: t)
  comes : ∀ {l t : List α}, sep ∉ l → P (l ++ sep :: t) → P l ∨ P t

variable {sep P} {l s t : List α}

theorem not_holdsBehind_nil : ¬HoldsBehind sep P [] := by
  rintro ⟨u, hu, -⟩
  cases hu

theorem holdsBehind_sep : HoldsBehind sep P (sep :: s) ↔ P s ∨ HoldsBehind sep P s := by
  rw [HoldsBehind, startsBehind, if_pos rfl, List.exists_mem_cons_iff]
  rfl

theorem holdsBehind_cons {a : α} (ha : a ≠ sep) : HoldsBehind sep P (a :: s) ↔ HoldsBehind sep P s := by
  rw [HoldsBehind, startsBehind, if_neg ha]
  rfl

theorem holdsBehind_append_line (hl : sep ∉ l) : HoldsBehind sep P (l ++ s) ↔ HoldsBehind sep P s := by
  induction l with
  | nil => rfl
  | cons a l ih =>
    rw [List.mem_cons, not_or] at hl
    rw [List.cons_append, holdsBehind_cons (Ne.symm hl.1), ih hl.2]

theorem holdsBehind_append :
    HoldsBehind sep P (s ++ t) ↔ (∃ u ∈ startsBehind sep s, P (u ++ t)) ∨ HoldsBehind sep P t := by
  induction s with
  | nil => simp [startsBehind]
  | cons a s ih =>
    rw [List.cons_append]
    by_cases ha : a = sep
    · rw [ha, holdsBehind_sep, ih, startsBehind, if_pos rfl, List.exists_mem_cons_iff, or_assoc]
    · rw [holdsBehind_cons ha, ih, startsBehind, if_neg ha]

namespace LineWise

/-- One line of a text. -/
theorem holdsBehind_line (h : LineWise sep P) (hl : sep ∉ l) (ht : t = [] ∨ ∃ rest, t = sep :: rest) :
    HoldsBehind sep P (sep :: (l ++ t)) ↔ P l ∨ HoldsBehind sep P t := by
  rw [holdsBehind_sep, holdsBehind_append_line hl]
  rcases ht with rfl | ⟨rest, rfl⟩
  · rw [List.append_nil]
  · rw [holdsBehind_sep]
    constructor
    · rintro (hp | hp)
      · exact (h.comes hl hp).imp_right Or.inl
      · exact Or.inr hp
    · exact Or.imp_left (h.stays hl)

/-- A text of lines. -/
theorem holdsBehind_lines (h : LineWise sep P) {lines : List (List α)} (hlines : ∀ l ∈ lines, sep ∉ l) :
    HoldsBehind sep P (lines.flatMap fun l => sep :: l) ↔ ∃ l ∈ lines, P l := by
  induction lines with
  | nil => simpa using not_holdsBehind_nil
  | cons l lines ih =>
    rw [List.forall_mem_cons] at hlines
    rw [List.flatMap_cons, List.cons_append, h.holdsBehind_line hlines.1, ih hlines.2,
      List.exists_mem_cons_iff]
    cases lines with
    | nil => exact Or.inl rfl
    | cons next lines => exact Or.inr ⟨_, rfl⟩

end LineWise

end DevRepro.Lib

/-!
## Logs with one record a line

`readLog` reads the records of a list of lines.  It passes over blank lines and stops
at the first other line that holds no record.  A log that grows at its end is read piece by
piece: `readLog_append`.
-/

namespace DevRepro.Lib

variable {Line Rec Err Failure : Type}

/-- The records of a log, from the line with a number on. -/
def readLog (blank : Line → Bool) (parse : Line → Except Err Rec) (fail : Nat → Err → Failure) :
    Nat → List Line → Except Failure (List Rec)
  | _, [] => .ok []
  | number, line :: rest =>
    if blank line then readLog blank parse fail (number + 1) rest
    else
      match parse line with
      | .error e => .error (fail number e)
      | .ok record => do
        let records ← readLog blank parse fail (number + 1) rest
        return record :: records

variable {blank : Line → Bool} {parse : Line → Except Err Rec} {fail : Nat → Err → Failure}

theorem readLog_append (number : Nat) (a b : List Line) :
    readLog blank parse fail number (a ++ b) =
      readLog blank parse fail number a >>= fun x =>
        readLog blank parse fail (number + a.length) b >>= fun y => .ok (x ++ y) := by
  induction a generalizing number with
  | nil =>
    rw [List.nil_append, List.length_nil, Nat.add_zero, readLog]
    cases readLog blank parse fail number b <;> rfl
  | cons line a ih =>
    rw [List.cons_append, readLog, readLog, List.length_cons, ih,
      show number + (a.length + 1) = number + 1 + a.length by omega]
    split_ifs
    · rfl
    · cases parse line with
      | error e => rfl
      | ok record =>
        cases readLog blank parse fail (number + 1) a with
        | error e => rfl
        | ok x => cases readLog blank parse fail (number + 1 + a.length) b <;> rfl

theorem readLog_blank {number : Nat} {line : Line} (h : blank line = true) :
    readLog blank parse fail number [line] = .ok [] := by
  rw [readLog, if_pos h, readLog]

theorem readLog_record {number : Nat} {line : Line} {record : Rec} (h : blank line = false)
    (hparse : parse line = .ok record) : readLog blank parse fail number [line] = .ok [record] := by
  rw [readLog, h, if_neg Bool.false_ne_true, hparse]
  rfl

theorem readLog_error {number : Nat} {line : Line} {e : Err} (h : blank line = false)
    (hparse : parse line = .error e) :
    readLog blank parse fail number [line] = .error (fail number e) := by
  rw [readLog, h, if_neg Bool.false_ne_true, hparse]

/-! ## One more line -/

theorem readLog_snoc_blank {number : Nat} {lines : List Line} {line : Line} (h : blank line = true) :
    readLog blank parse fail number (lines ++ [line]) = readLog blank parse fail number lines := by
  rw [readLog_append, readLog_blank h]
  cases readLog blank parse fail number lines with
  | error e => rfl
  | ok records => exact congrArg Except.ok (List.append_nil records)

theorem readLog_snoc_record (fail : Nat → Err → Failure) (number : Nat) (lines : List Line)
    {line : Line} {record : Rec} (h : blank line = false) (hparse : parse line = .ok record) :
    readLog blank parse fail number (lines ++ [line]) =
      readLog blank parse fail number lines >>= fun records => .ok (records ++ [record]) := by
  rw [readLog_append, readLog_record h hparse]
  rfl

/-- A line that holds no record leaves nothing to be read. -/
theorem readLog_snoc_error (fail : Nat → Err → Failure) (number : Nat) (lines : List Line) {line : Line}
    {e : Err} (h : blank line = false) (hparse : parse line = .error e) :
    ∃ failure, readLog blank parse fail number (lines ++ [line]) = .error failure := by
  rw [readLog_append, readLog_error h hparse]
  cases readLog blank parse fail number lines with
  | error failure => exact ⟨failure, rfl⟩
  | ok records => exact ⟨_, rfl⟩

/-- One more line gives one more record at most. -/
theorem readLog_snoc {number : Nat} {lines : List Line} {line : Line} {records : List Rec}
    (h : readLog blank parse fail number (lines ++ [line]) = .ok records) :
    ∃ before, readLog blank parse fail number lines = .ok before ∧
      (blank line = true ∧ records = before ∨
        blank line = false ∧ ∃ record, parse line = .ok record ∧ records = before ++ [record]) := by
  cases hblank : blank line with
  | true =>
    rw [readLog_snoc_blank hblank] at h
    exact ⟨records, h, Or.inl ⟨rfl, rfl⟩⟩
  | false =>
    cases hparse : parse line with
    | error e =>
      obtain ⟨failure, hfailure⟩ := readLog_snoc_error fail number lines hblank hparse
      rw [hfailure] at h
      cases h
    | ok record =>
      rw [readLog_snoc_record _ _ _ hblank hparse] at h
      cases hbefore : readLog blank parse fail number lines with
      | error e =>
        rw [hbefore] at h
        cases h
      | ok before =>
        rw [hbefore] at h
        cases h
        exact ⟨before, rfl, Or.inr ⟨rfl, record, rfl, rfl⟩⟩

end DevRepro.Lib
