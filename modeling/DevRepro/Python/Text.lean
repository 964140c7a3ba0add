import Mathlib

/-!
# Python text

A Python `str` is a sequence of code points, and a code point may be a lone
surrogate: `json.loads` returns one for an unpaired `\ud800` escape, and the
file system decoder returns one for a byte it cannot decode.  Lean's `Char`
has no surrogates, so a `str` is modelled as a list of code points below
`0x110000`.

The module holds the `str` operations that the rest of the development uses:
the whitespace of `str.strip`, the line boundaries of `str.splitlines`, the
strict UTF-8 codec, and the newline translation of text-mode files.
`scanLines` is the one recursion behind `splitlines`.  It keeps the complete
lines and the unterminated last line apart, because an append to a file
touches the second part only.
-/

namespace DevRepro.Python

/-- A Unicode code point, surrogates included. -/
abbrev CodePoint := Fin 0x110000

instance neZero_codePoints : NeZero 0x110000 := ⟨Nat.succ_ne_zero _⟩

instance : LawfulBEq CodePoint := inferInstance

/-- A Python `str`. -/
abbrev Str := List CodePoint

instance : LawfulBEq Str := inferInstance

/-- The code point of a character. -/
def codePoint (c : Char) : CodePoint :=
  ⟨c.toNat, by
    have h : Nat.isValidChar c.val.toNat := c.valid
    unfold Nat.isValidChar at h
    show c.val.toNat < _
    omega⟩

/-- A literal. -/
def lit (s : String) : Str := s.toList.map codePoint

instance : Coe String Str := ⟨lit⟩

/-- What the characters of a literal have in common is checked on the list of them. -/
theorem lit_all {p : CodePoint → Bool} {s : String} {chars : List Char}
    (hs : s = String.ofList chars) (h : chars.all (fun c => p (codePoint c)) = true) :
    (lit s).all p = true := by
  rw [hs, lit, String.toList_ofList, List.all_map]
  exact h

/-! ## Classes of code points -/

/-- The first half of a surrogate pair. -/
def isHighSurrogate (c : CodePoint) : Bool := 0xD800 ≤ c.val && c.val ≤ 0xDBFF

/-- The second half of a surrogate pair. -/
def isLowSurrogate (c : CodePoint) : Bool := 0xDC00 ≤ c.val && c.val ≤ 0xDFFF

theorem isHighSurrogate_iff {c : CodePoint} :
    isHighSurrogate c = true ↔ 0xD800 ≤ c.val ∧ c.val ≤ 0xDBFF := by
  simp only [isHighSurrogate, Bool.and_eq_true, decide_eq_true_eq]

theorem isLowSurrogate_iff {c : CodePoint} :
    isLowSurrogate c = true ↔ 0xDC00 ≤ c.val ∧ c.val ≤ 0xDFFF := by
  simp only [isLowSurrogate, Bool.and_eq_true, decide_eq_true_eq]

def isSurrogate (c : CodePoint) : Bool := isHighSurrogate c || isLowSurrogate c

theorem isSurrogate_eq_false_iff {c : CodePoint} :
    isSurrogate c = false ↔ c.val < 0xD800 ∨ 0xDFFF < c.val := by
  rw [isSurrogate, ← Bool.not_eq_true, Bool.or_eq_true, isHighSurrogate_iff, isLowSurrogate_iff]
  omega

/-- `str.isspace` on one character. -/
def isSpace (c : CodePoint) : Bool :=
  (9 ≤ c.val && c.val ≤ 13) || (0x1C ≤ c.val && c.val ≤ 0x20) ||
    c.val == 0x85 || c.val == 0xA0 || c.val == 0x1680 ||
    (0x2000 ≤ c.val && c.val ≤ 0x200A) || c.val == 0x2028 || c.val == 0x2029 ||
    c.val == 0x202F || c.val == 0x205F || c.val == 0x3000

/-- The characters at which `str.splitlines` ends a line. -/
def isLineBreak (c : CodePoint) : Bool :=
  (10 ≤ c.val && c.val ≤ 13) || (0x1C ≤ c.val && c.val ≤ 0x1E) ||
    c.val == 0x85 || c.val == 0x2028 || c.val == 0x2029

/-- Printable ASCII, the only characters that `json.dumps` writes. -/
def isPrintableAscii (c : CodePoint) : Bool := 0x20 ≤ c.val && c.val ≤ 0x7E

theorem isLineBreak_of_isPrintableAscii {c : CodePoint} (h : isPrintableAscii c = true) :
    isLineBreak c = false := by
  simp only [isPrintableAscii, Bool.and_eq_true, decide_eq_true_eq] at h
  simp only [isLineBreak, Bool.or_eq_false_iff, Bool.and_eq_false_iff, decide_eq_false_iff_not,
    beq_eq_false_iff_ne]
  omega

theorem isSurrogate_of_isPrintableAscii {c : CodePoint} (h : isPrintableAscii c = true) :
    isSurrogate c = false := by
  simp only [isPrintableAscii, Bool.and_eq_true, decide_eq_true_eq] at h
  rw [isSurrogate_eq_false_iff]
  omega

theorem isSpace_of_isPrintableAscii {c : CodePoint} (h : isPrintableAscii c = true)
    (hne : c ≠ codePoint ' ') : isSpace c = false := by
  have hval : c.val ≠ 0x20 := fun heq => hne (Fin.ext heq)
  simp only [isPrintableAscii, Bool.and_eq_true, decide_eq_true_eq] at h
  simp only [isSpace, Bool.or_eq_false_iff, Bool.and_eq_false_iff, decide_eq_false_iff_not,
    beq_eq_false_iff_ne]
  omega

/-! ## Stripping -/

/-- `str.strip()`. -/
def strip (s : Str) : Str := ((s.dropWhile isSpace).reverse.dropWhile isSpace).reverse

/-- `str.removeprefix`. -/
def removePrefix (s start : Str) : Str := if start.isPrefixOf s then s.drop start.length else s

/-- `str.startswith`. -/
def startsWith (s start : Str) : Bool := start.isPrefixOf s

/-- `", ".join` and the like. -/
def join (sep : Str) : List Str → Str
  | [] => []
  | [s] => s
  | s :: rest => s ++ sep ++ join sep rest

/-- A text strips to nothing when every character of it is whitespace. -/
theorem strip_eq_nil_iff (s : Str) : strip s = [] ↔ ∀ c ∈ s, isSpace c = true := by
  rw [strip, List.reverse_eq_nil_iff, List.dropWhile_eq_nil_iff]
  constructor
  · intro h c hc
    by_contra hsp
    have hne : s.dropWhile isSpace ≠ [] := by
      intro hnil
      exact hsp (List.dropWhile_eq_nil_iff.mp hnil c hc)
    have hhead := List.head_dropWhile_not isSpace hne
    have hmem := h _ (List.mem_reverse.mpr (List.head_mem hne))
    rw [hmem] at hhead
    exact absurd hhead (by decide)
  · intro h c hc
    exact h c ((List.dropWhile_suffix isSpace).subset (List.mem_reverse.mp hc))

/-! ## Lines -/

/-- The complete lines of a text, without their terminators, and the text
after the last terminator.  `\r\n` is one terminator. -/
def scanLines : Str → List Str × Str
  | [] => ([], [])
  | c :: rest =>
    let tail := scanLines rest
    if isLineBreak c then
      if c = codePoint '\r' ∧ rest.head? = some (codePoint '\n') then tail
      else ([] :: tail.1, tail.2)
    else
      match tail.1 with
      | [] => ([], c :: tail.2)
      | line :: lines => ((c :: line) :: lines, tail.2)

/-- `str.splitlines()`. -/
def splitlines (s : Str) : List Str :=
  (scanLines s).1 ++ if (scanLines s).2 = [] then [] else [(scanLines s).2]

/-- The text after the last line boundary. -/
def unterminated (s : Str) : Str := (scanLines s).2

/-- The lines of a text have no other characters than the text. -/
theorem mem_scanLines {s : Str} {c : CodePoint} :
    (∀ line ∈ (scanLines s).1, c ∈ line → c ∈ s) ∧ (c ∈ (scanLines s).2 → c ∈ s) := by
  induction s with
  | nil => simp [scanLines]
  | cons d s ih =>
    obtain ⟨ihl, iht⟩ := ih
    have hlift : ∀ line ∈ (scanLines s).1, c ∈ line → c ∈ d :: s := fun line hline hc =>
      List.mem_cons_of_mem d (ihl line hline hc)
    rw [scanLines]
    split_ifs
    · exact ⟨hlift, fun hc => List.mem_cons_of_mem d (iht hc)⟩
    · refine ⟨?_, fun hc => List.mem_cons_of_mem d (iht hc)⟩
      intro line hline hc
      rcases List.mem_cons.mp hline with rfl | hline
      · cases hc
      · exact hlift line hline hc
    · cases hl : (scanLines s).1 with
      | nil =>
        refine ⟨by simp, fun hc => ?_⟩
        rcases List.mem_cons.mp hc with rfl | hc
        · exact List.mem_cons_self
        · exact List.mem_cons_of_mem d (iht hc)
      | cons line lines =>
        rw [hl] at hlift
        refine ⟨?_, fun hc => List.mem_cons_of_mem d (iht hc)⟩
        intro line' hline' hc
        rcases List.mem_cons.mp hline' with rfl | hline'
        · rcases List.mem_cons.mp hc with rfl | hc
          · exact List.mem_cons_self
          · exact hlift line List.mem_cons_self hc
        · exact hlift line' (List.mem_cons_of_mem line hline') hc

theorem mem_of_mem_splitlines {s line : Str} {c : CodePoint} (h : line ∈ splitlines s)
    (hc : c ∈ line) : c ∈ s := by
  rw [splitlines, List.mem_append] at h
  rcases h with h | h
  · exact mem_scanLines.1 line h hc
  · split_ifs at h
    · cases h
    · rw [List.mem_singleton] at h
      exact mem_scanLines.2 (h ▸ hc)

/-- A text without a line boundary is one unterminated line. -/
theorem scanLines_of_no_break {s : Str} (h : ∀ c ∈ s, isLineBreak c = false) :
    scanLines s = ([], s) := by
  induction s with
  | nil => rfl
  | cons c s ih =>
    rw [scanLines, ih fun d hd => h d (List.mem_cons_of_mem c hd), h c (by simp)]
    rfl

/-- A line without a line boundary, before the rest of a text. -/
theorem scanLines_line {line : Str} (h : ∀ c ∈ line, isLineBreak c = false) (rest : Str) :
    scanLines (line ++ codePoint '\n' :: rest) = (line :: (scanLines rest).1, (scanLines rest).2) := by
  induction line with
  | nil =>
    rw [List.nil_append, scanLines]
    rfl
  | cons c line ih =>
    rw [List.cons_append, scanLines, ih fun d hd => h d (List.mem_cons_of_mem c hd),
      h c List.mem_cons_self]
    rfl

/-- A line and its newline, appended to a text, complete the unterminated
last line of the text and leave nothing unterminated. -/
theorem scanLines_append_line (s line : Str) (hne : line ≠ [])
    (h : ∀ c ∈ line, isLineBreak c = false) :
    scanLines (s ++ (line ++ [codePoint '\n'])) =
      ((scanLines s).1 ++ [(scanLines s).2 ++ line], []) := by
  induction s with
  | nil => simpa [scanLines] using scanLines_line h []
  | cons c s ih =>
    have hhead : (s ++ (line ++ [codePoint '\n'])).head? = some (codePoint '\n') →
        s.head? = some (codePoint '\n') := by
      cases s with
      | nil =>
        intro hh
        obtain ⟨d, l, rfl⟩ := List.exists_cons_of_ne_nil hne
        have hd : d = codePoint '\n' := by simpa using hh
        have hb := h d (by simp)
        rw [hd] at hb
        exact absurd hb (by decide)
      | cons d s => simp
    have hhead' : s.head? = some (codePoint '\n') →
        (s ++ (line ++ [codePoint '\n'])).head? = some (codePoint '\n') := by
      cases s <;> simp
    rw [List.cons_append, scanLines, scanLines, ih]
    by_cases hb : isLineBreak c = true
    · simp only [hb, ↓reduceIte]
      by_cases hc : c = codePoint '\r' ∧ s.head? = some (codePoint '\n')
      · rw [if_pos hc, if_pos ⟨hc.1, hhead' hc.2⟩]
      · rw [if_neg hc, if_neg fun hcc => hc ⟨hcc.1, hhead hcc.2⟩]
        rfl
    · simp only [hb, Bool.false_eq_true, ↓reduceIte]
      cases hl : (scanLines s).1 <;> simp

/-- Appending a line and its newline leaves the earlier lines alone.  When
the text ended inside a line, the new line is glued to that one. -/
theorem splitlines_append_line (s line : Str) (hne : line ≠ [])
    (h : ∀ c ∈ line, isLineBreak c = false) :
    splitlines (s ++ (line ++ [codePoint '\n'])) =
      (scanLines s).1 ++ [unterminated s ++ line] := by
  rw [splitlines, scanLines_append_line s line hne h]
  simp [unterminated]

/-! ## Text-mode files -/

/-- The newline translation of a file opened in text mode: `\r\n` and `\r`
are read as `\n`. -/
def universalNewlines : Str → Str
  | [] => []
  | c :: rest =>
    if c = codePoint '\r' then
      if rest.head? = some (codePoint '\n') then universalNewlines rest
      else codePoint '\n' :: universalNewlines rest
    else c :: universalNewlines rest

/-- The translation works piece by piece, unless the boundary falls inside
`\r\n`. -/
theorem universalNewlines_append (s t : Str) (h : t.head? ≠ some (codePoint '\n')) :
    universalNewlines (s ++ t) = universalNewlines s ++ universalNewlines t := by
  induction s with
  | nil => rfl
  | cons c s ih =>
    have hhead : (s ++ t).head? = some (codePoint '\n') ↔ s.head? = some (codePoint '\n') := by
      cases s with
      | nil => simpa using h
      | cons d s => simp
    rw [List.cons_append, universalNewlines, universalNewlines, ih]
    simp only [hhead]
    split_ifs <;> rfl

/-- A text without `\r` is read as it is. -/
theorem universalNewlines_eq_self {s : Str} (h : codePoint '\r' ∉ s) :
    universalNewlines s = s := by
  induction s with
  | nil => rfl
  | cons c s ih =>
    rw [List.mem_cons, not_or] at h
    rw [universalNewlines, if_neg (Ne.symm h.1), ih h.2]

/-- The translation brings in no character but the newline. -/
theorem mem_universalNewlines {s : Str} {c : CodePoint} (h : c ∈ universalNewlines s) :
    c = codePoint '\n' ∨ c ∈ s := by
  induction s with
  | nil => cases h
  | cons d s ih =>
    rw [universalNewlines] at h
    split_ifs at h
    · exact (ih h).imp_right (List.mem_cons_of_mem d)
    · rcases List.mem_cons.mp h with h | h
      · exact Or.inl h
      · exact (ih h).imp_right (List.mem_cons_of_mem d)
    · rcases List.mem_cons.mp h with rfl | h
      · exact Or.inr List.mem_cons_self
      · exact (ih h).imp_right (List.mem_cons_of_mem d)

/-! ## UTF-8 -/

/-- The strict UTF-8 decoder: `None` stands for `UnicodeDecodeError`. -/
def decodeUtf8 (bytes : ByteArray) : Option Str := (String.fromUTF8? bytes).map lit

/-- The character of a code point that is not a surrogate. -/
def toChar? (c : CodePoint) : Option Char :=
  if h : c.val.isValidChar then some (Char.ofNatAux c.val h) else none

/-- The strict UTF-8 encoder: `None` stands for `UnicodeEncodeError`, which a
surrogate raises. -/
def encodeUtf8 (s : Str) : Option ByteArray :=
  (s.mapM toChar?).map fun chars => (String.ofList chars).toByteArray

theorem codePoint_not_surrogate (c : Char) : isSurrogate (codePoint c) = false := by
  have hvalid : Nat.isValidChar (codePoint c).val := c.valid
  unfold Nat.isValidChar at hvalid
  rw [isSurrogate_eq_false_iff]
  omega

theorem codePoint_of_toChar? {c : CodePoint} {ch : Char} (h : toChar? c = some ch) :
    codePoint ch = c := by
  unfold toChar? at h
  split_ifs at h with hvalid
  cases h
  rfl

theorem toChar?_isSome {c : CodePoint} (h : isSurrogate c = false) : ∃ ch, toChar? c = some ch := by
  have hc := c.isLt
  rw [isSurrogate_eq_false_iff] at h
  have hvalid : c.val.isValidChar := by
    unfold Nat.isValidChar
    omega
  exact ⟨_, dif_pos hvalid⟩

theorem lit_of_mapM {s : Str} {chars : List Char} (h : s.mapM toChar? = some chars) :
    chars.map codePoint = s := by
  induction s generalizing chars with
  | nil =>
    cases h
    rfl
  | cons c s ih =>
    rw [List.mapM_cons] at h
    simp only [Option.bind_eq_bind, Option.bind_eq_some_iff, Option.pure_def,
      Option.some.injEq] at h
    obtain ⟨ch, hch, rest, hrest, rfl⟩ := h
    rw [List.map_cons, codePoint_of_toChar? hch, ih hrest]

/-- Decoding inverts encoding. -/
theorem decodeUtf8_encodeUtf8 {s : Str} {bytes : ByteArray} (h : encodeUtf8 s = some bytes) :
    decodeUtf8 bytes = some s := by
  obtain ⟨chars, hchars, rfl⟩ := Option.map_eq_some_iff.mp h
  rw [decodeUtf8, String.fromUTF8?, dif_pos (String.ofList chars).isValidUTF8, Option.map_some]
  congr 1
  show lit (String.ofList chars) = s
  rw [lit, String.toList_ofList, lit_of_mapM hchars]

/-- A text without surrogates has an encoding. -/
theorem encodeUtf8_isSome {s : Str} (h : ∀ c ∈ s, isSurrogate c = false) :
    ∃ bytes, encodeUtf8 s = some bytes := by
  have hmap : ∃ chars, s.mapM toChar? = some chars := by
    induction s with
    | nil => exact ⟨[], rfl⟩
    | cons c s ih =>
      rw [List.forall_mem_cons] at h
      obtain ⟨ch, hch⟩ := toChar?_isSome h.1
      obtain ⟨chars, hchars⟩ := ih h.2
      exact ⟨ch :: chars, by rw [List.mapM_cons, hch, hchars]; rfl⟩
  obtain ⟨chars, hchars⟩ := hmap
  exact ⟨_, by rw [encodeUtf8, hchars, Option.map_some]⟩

/-- Two texts with the same encoding are equal. -/
theorem encodeUtf8_inj {s t : Str} {bytes : ByteArray} (hs : encodeUtf8 s = some bytes)
    (ht : encodeUtf8 t = some bytes) : s = t := by
  have h := decodeUtf8_encodeUtf8 hs
  rw [decodeUtf8_encodeUtf8 ht] at h
  exact (Option.some.inj h).symm

/-- A decoded text has no surrogates. -/
theorem decodeUtf8_not_surrogate {bytes : ByteArray} {s : Str} (h : decodeUtf8 bytes = some s) :
    ∀ c ∈ s, isSurrogate c = false := by
  obtain ⟨text, _, rfl⟩ := Option.map_eq_some_iff.mp h
  intro c hc
  obtain ⟨ch, _, rfl⟩ := List.mem_map.mp hc
  exact codePoint_not_surrogate ch

/-- Decoding goes piece by piece at a character boundary. -/
theorem decodeUtf8_append {a b : ByteArray} {s t : Str} (ha : decodeUtf8 a = some s)
    (hb : decodeUtf8 b = some t) : decodeUtf8 (a ++ b) = some (s ++ t) := by
  obtain ⟨x, hx, rfl⟩ := Option.map_eq_some_iff.mp ha
  obtain ⟨y, hy, rfl⟩ := Option.map_eq_some_iff.mp hb
  have hbytes : ∀ (bytes : ByteArray) (z : String), String.fromUTF8? bytes = some z →
      z.toByteArray = bytes := by
    intro bytes z hz
    unfold String.fromUTF8? at hz
    split_ifs at hz
    cases hz
    rfl
  rw [← hbytes a x hx, ← hbytes b y hy, ← String.toByteArray_append, decodeUtf8,
    String.fromUTF8?, dif_pos (x ++ y).isValidUTF8, Option.map_some]
  congr 1
  show lit (x ++ y) = lit x ++ lit y
  rw [lit, String.toList_append, List.map_append]
  rfl

/-- `Path.read_text(encoding="utf-8")` on the bytes of a file. -/
def readText (bytes : ByteArray) : Option Str := (decodeUtf8 bytes).map universalNewlines

theorem readText_not_surrogate {bytes : ByteArray} {s : Str} (h : readText bytes = some s) :
    ∀ c ∈ s, isSurrogate c = false := by
  obtain ⟨text, htext, rfl⟩ := Option.map_eq_some_iff.mp h
  intro c hc
  rcases mem_universalNewlines hc with rfl | hc
  · decide
  · exact decodeUtf8_not_surrogate htext c hc

end DevRepro.Python
