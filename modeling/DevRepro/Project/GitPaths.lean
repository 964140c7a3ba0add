import DevRepro.Python.Words

/-!
# Paths as git prints them

The two listings that `changed_files` reads: `git diff --name-only` and
`git status --porcelain`.

A path with special characters is printed in double quotes with C escapes, and the
porcelain quotes a path with a space as well.  How git escapes a character is a
parameter (`Escaping`), and `cEscape` is the escaping of C.  A printed line is of
printable ASCII (`line_printable`), so the lines of a listing can be read back
(`splitlines_listing`).
-/

namespace DevRepro.Project

open DevRepro.Python DevRepro.Lib

/-! ## Quoting -/

/-- A character that is printed as it is: printable ASCII, no quote, no backslash. -/
def isVerbatim (c : CodePoint) : Bool :=
  isPrintableAscii c && c != codePoint '"' && c != codePoint '\\'

/-- What is known of git's escapes: a character that is printed as it is stands for
itself, a backslash is doubled, and any other is printed as something in printable
ASCII. -/
structure Escaping (escape : CodePoint → Str) : Prop where
  nonempty : ∀ c, escape c ≠ []
  verbatim : ∀ c, isVerbatim c = true → escape c = [c]
  backslash : escape (codePoint '\\') = [codePoint '\\', codePoint '\\']
  printable : ∀ c, ∀ d ∈ escape c, isPrintableAscii d = true

/-- A path in double quotes. -/
def quoted (escape : CodePoint → Str) (path : Str) : Str :=
  codePoint '"' :: (path.flatMap escape ++ [codePoint '"'])

/-- A path as it is printed where spaces are quoted, or are not. -/
def shown (escape : CodePoint → Str) (spaces : Bool) (path : Str) : Str :=
  if path.all isVerbatim && !(spaces && path.contains (codePoint ' ')) then path
  else quoted escape path

/-! ## The escapes of C -/

/-- The bytes of a character in UTF-8. -/
def utf8Bytes (c : CodePoint) : List Nat :=
  let n := c.val
  if n < 0x80 then [n]
  else if n < 0x800 then [0xC0 + n / 0x40, 0x80 + n % 0x40]
  else if n < 0x10000 then [0xE0 + n / 0x1000, 0x80 + n / 0x40 % 0x40, 0x80 + n % 0x40]
  else [0xF0 + n / 0x40000, 0x80 + n / 0x1000 % 0x40, 0x80 + n / 0x40 % 0x40, 0x80 + n % 0x40]

def octalDigit (n : Nat) : CodePoint := ⟨0x30 + n % 8, by omega⟩

/-- The letter behind the backslash of a byte that has one. -/
def escapeLetter (byte : Nat) : Option Char :=
  match byte with
  | 7 => some 'a'
  | 8 => some 'b'
  | 9 => some 't'
  | 10 => some 'n'
  | 11 => some 'v'
  | 12 => some 'f'
  | 13 => some 'r'
  | 34 => some '"'
  | 92 => some '\\'
  | _ => none

/-- One byte in a C string literal. -/
def escapeByte (byte : Nat) : Str :=
  match escapeLetter byte with
  | some letter => [codePoint '\\', codePoint letter]
  | none =>
    if h : 0x20 ≤ byte ∧ byte ≤ 0x7E then [⟨byte, by omega⟩]
    else [codePoint '\\', octalDigit (byte / 64), octalDigit (byte / 8), octalDigit byte]

/-- A character in a C string literal. -/
def cEscape (c : CodePoint) : Str := (utf8Bytes c).flatMap escapeByte

theorem escapeLetter_printable {byte : Nat} {letter : Char} (h : escapeLetter byte = some letter) :
    isPrintableAscii (codePoint letter) = true := by
  unfold escapeLetter at h
  split at h <;> cases h <;> decide

theorem octalDigit_printable (n : Nat) : isPrintableAscii (octalDigit n) = true := by
  have hval : (octalDigit n).val = 0x30 + n % 8 := rfl
  simp only [isPrintableAscii, Bool.and_eq_true, decide_eq_true_eq, hval]
  omega

theorem escapeByte_printable (byte : Nat) : ∀ c ∈ escapeByte byte, isPrintableAscii c = true := by
  intro c hc
  unfold escapeByte at hc
  have hbackslash : isPrintableAscii (codePoint '\\') = true := by decide
  cases hletter : escapeLetter byte with
  | some letter =>
    rw [hletter] at hc
    rcases List.mem_cons.mp hc with rfl | hc
    · exact hbackslash
    · rw [List.mem_singleton.mp hc]
      exact escapeLetter_printable hletter
  | none =>
    rw [hletter] at hc
    dsimp only at hc
    split_ifs at hc with hplain
    · rw [List.mem_singleton.mp hc]
      simpa [isPrintableAscii] using hplain
    · simp only [List.mem_cons, List.not_mem_nil, or_false] at hc
      rcases hc with rfl | rfl | rfl | rfl
      · exact hbackslash
      · exact octalDigit_printable _
      · exact octalDigit_printable _
      · exact octalDigit_printable _

theorem escapeByte_verbatim {c : CodePoint} (h : isVerbatim c = true) :
    escapeByte c.val = [c] := by
  rw [isVerbatim, Bool.and_eq_true, Bool.and_eq_true, bne_iff_ne, bne_iff_ne] at h
  obtain ⟨⟨hprintable, hquote⟩, hback⟩ := h
  have hquote : c.val ≠ 34 := fun heq => hquote (Fin.ext heq)
  have hback : c.val ≠ 92 := fun heq => hback (Fin.ext heq)
  simp only [isPrintableAscii, Bool.and_eq_true, decide_eq_true_eq] at hprintable
  have hletter : escapeLetter c.val = none := by
    unfold escapeLetter
    split <;> first | rfl | omega
  rw [escapeByte, hletter]
  exact dif_pos hprintable

theorem escapeByte_ne_nil (byte : Nat) : escapeByte byte ≠ [] := by
  unfold escapeByte
  cases escapeLetter byte with
  | some letter => exact List.cons_ne_nil _ _
  | none =>
    dsimp only
    split_ifs
    · exact List.cons_ne_nil _ _
    · exact List.cons_ne_nil _ _

theorem cEscape_escaping : Escaping cEscape where
  nonempty c hnil := by
    have hbytes : utf8Bytes c ≠ [] := by
      unfold utf8Bytes
      dsimp only
      split_ifs <;> exact List.cons_ne_nil _ _
    obtain ⟨byte, rest, hcons⟩ := List.exists_cons_of_ne_nil hbytes
    rw [cEscape, hcons, List.flatMap_cons, List.append_eq_nil_iff] at hnil
    exact escapeByte_ne_nil byte hnil.1
  verbatim c hc := by
    have hprintable := hc
    rw [isVerbatim, Bool.and_eq_true, Bool.and_eq_true] at hprintable
    replace hprintable := hprintable.1.1
    simp only [isPrintableAscii, Bool.and_eq_true, decide_eq_true_eq] at hprintable
    have hbytes : utf8Bytes c = [c.val] := if_pos (show c.val < 0x80 by omega)
    rw [cEscape, hbytes, List.flatMap_singleton, escapeByte_verbatim hc]
  backslash := by decide
  printable c d hd := by
    obtain ⟨byte, -, hbyte⟩ := List.mem_flatMap.mp hd
    exact escapeByte_printable byte d hbyte

/-! ## Entries -/

/-- A letter of the porcelain. -/
inductive StatusLetter where
  | unmodified
  | modified
  | typeChanged
  | added
  | deleted
  | renamed
  | copied
  | unmerged
  | untracked

def StatusLetter.letter : StatusLetter → CodePoint
  | .unmodified => codePoint ' '
  | .modified => codePoint 'M'
  | .typeChanged => codePoint 'T'
  | .added => codePoint 'A'
  | .deleted => codePoint 'D'
  | .renamed => codePoint 'R'
  | .copied => codePoint 'C'
  | .unmerged => codePoint 'U'
  | .untracked => codePoint '?'

/-- A changed path, with the path it had before a rename. -/
structure Entry where
  index : StatusLetter
  worktree : StatusLetter
  path : Str
  oldPath : Option Str
  path_ne : path ≠ []
  oldPath_ne : ∀ old ∈ oldPath, old ≠ []

def arrow : Str := lit " -> "

section Printed

variable (escape : CodePoint → Str)

/-- A line of `git diff --name-only`. -/
def Entry.diffLine (e : Entry) : Str := shown escape false e.path

/-- What a line of `git status --porcelain` has behind its two letters. -/
def Entry.statusText (e : Entry) : Str :=
  match e.oldPath with
  | none => shown escape true e.path
  | some old => shown escape true old ++ arrow ++ shown escape true e.path

/-- A line of `git status --porcelain`. -/
def Entry.statusLine (e : Entry) : Str :=
  e.index.letter :: e.worktree.letter :: codePoint ' ' :: e.statusText escape

/-- A listing: with a base the names that differ, without one the status. -/
def listing (withBase : Bool) (entries : List Entry) : Str :=
  unlines (codePoint '\n')
    (entries.map fun e => if withBase then e.diffLine escape else e.statusLine escape)

end Printed

/-! ## Printed lines -/

section Lines

variable {escape : CodePoint → Str} {spaces : Bool} {path : Str}

theorem quoted_printable (hescape : Escaping escape) (path : Str) :
    ∀ c ∈ quoted escape path, isPrintableAscii c = true := by
  have hquote : isPrintableAscii (codePoint '"') = true := by decide
  intro c hc
  rcases List.mem_cons.mp hc with rfl | hc
  · exact hquote
  rcases List.mem_append.mp hc with hc | hc
  · obtain ⟨d, -, hd⟩ := List.mem_flatMap.mp hc
    exact hescape.printable d c hd
  · rw [List.mem_singleton.mp hc]
    exact hquote

/-- A path is printed as it is or quoted. -/
theorem shown_cases (escape : CodePoint → Str) (spaces : Bool) (path : Str) :
    (shown escape spaces path = path ∧ (∀ c ∈ path, isVerbatim c = true) ∧
      (spaces = true → codePoint ' ' ∉ path)) ∨ shown escape spaces path = quoted escape path := by
  unfold shown
  split_ifs with h
  · rw [Bool.and_eq_true, List.all_eq_true, Bool.not_eq_true', Bool.and_eq_false_iff] at h
    refine Or.inl ⟨rfl, h.1, fun hspaces hmem => ?_⟩
    rcases h.2 with hfalse | hspace
    · rw [hspaces] at hfalse
      cases hfalse
    · rw [List.contains_iff_mem.mpr hmem] at hspace
      cases hspace
  · exact Or.inr rfl

theorem shown_printable (hescape : Escaping escape) :
    ∀ c ∈ shown escape spaces path, isPrintableAscii c = true := by
  intro c hc
  rcases shown_cases escape spaces path with ⟨heq, hverbatim, -⟩ | heq
  · rw [heq] at hc
    have hc := hverbatim c hc
    rw [isVerbatim, Bool.and_eq_true, Bool.and_eq_true] at hc
    exact hc.1.1
  · rw [heq] at hc
    exact quoted_printable hescape path c hc

theorem letter_printable (letter : StatusLetter) : isPrintableAscii letter.letter = true := by
  cases letter <;> decide

theorem statusText_printable (hescape : Escaping escape) (e : Entry) :
    ∀ c ∈ e.statusText escape, isPrintableAscii c = true := by
  unfold Entry.statusText
  cases e.oldPath with
  | none => exact shown_printable hescape
  | some old =>
    intro c hc
    rcases List.mem_append.mp hc with hc | hc
    · rcases List.mem_append.mp hc with hc | hc
      · exact shown_printable hescape c hc
      · have harrow : arrow.all isPrintableAscii = true := by decide
        exact List.all_eq_true.mp harrow c hc
    · exact shown_printable hescape c hc

theorem line_printable (hescape : Escaping escape) (withBase : Bool) (e : Entry) :
    ∀ c ∈ (if withBase then e.diffLine escape else e.statusLine escape),
      isPrintableAscii c = true := by
  cases withBase with
  | true => exact shown_printable hescape
  | false =>
    intro c hc
    rcases List.mem_cons.mp hc with rfl | hc
    · exact letter_printable _
    rcases List.mem_cons.mp hc with rfl | hc
    · exact letter_printable _
    rcases List.mem_cons.mp hc with rfl | hc
    · decide
    · exact statusText_printable hescape e c hc

/-- The lines of a listing can be read back. -/
theorem splitlines_listing (hescape : Escaping escape) (withBase : Bool) (entries : List Entry) :
    splitlines (listing escape withBase entries) =
      entries.map fun e => if withBase then e.diffLine escape else e.statusLine escape := by
  refine splitlines_unlines fun line hline c hc => ?_
  obtain ⟨e, -, rfl⟩ := List.mem_map.mp hline
  exact isLineBreak_of_isPrintableAscii (line_printable hescape withBase e c hc)

end Lines

end DevRepro.Project
