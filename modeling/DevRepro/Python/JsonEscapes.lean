import DevRepro.Lib.Rewrite
import DevRepro.Python.JsonRoundTrip

/-!
# Escapes in a JSON text

`escapeStep` is an automaton over a JSON text that knows one thing, where an escape
begins and ends.  It accepts the escapes that `json.dumps` writes, and others that
the decoder refuses: an escape may be cut off by a character that spoils it.

`settled_dumpText` says that the text of the encoder is accepted.
-/

namespace DevRepro.Python

open DevRepro.Lib Scan

/-! ## Escapes -/

/-- Characters that no escape goes on with. -/
structure Spoils (spoil : CodePoint → Bool) : Prop where
  simple : ∀ c, spoil c = true → simpleEscape? c = none
  unit : spoil (codePoint 'u') = false
  hex : ∀ c, spoil c = true → hexDigit? c = none

/-- The escape after a character.  Only escapes in the spelling of `json.dumps` end. -/
def escapeStep (spoil : CodePoint → Bool) (e : Escape) (c : CodePoint) : Option Escape :=
  match e with
  | .none => some (if c = codePoint '\\' then .slash else .none)
  | .slash =>
    if spoil c then some .none
    else if c = codePoint 'u' then some (.hex 0 4)
    else
      match simpleEscape? c with
      | some d => if escapeChar d = [codePoint '\\', c] then some .none else none
      | none => none
  | .hex value left =>
    if spoil c then some .none
    else
      match hexDigit? c with
      | some d =>
        if c = hexChar d then
          if left ≤ 1 then
            if escapeChar (unitPoint (value * 16 + d)) = escapeUnit (value * 16 + d) then some .none
            else none
          else some (.hex (value * 16 + d) (left - 1))
        else none
      | none => none

/-- The last `k` hexadecimal digits of a number. -/
def hexDigits (n : Nat) : Nat → Str
  | 0 => []
  | k + 1 => hexDigits (n / 16) k ++ [hexChar (n % 16)]

/-- What has been read of an escape. -/
def pending : Escape → Str
  | .none => []
  | .slash => [codePoint '\\']
  | .hex value left => codePoint '\\' :: codePoint 'u' :: hexDigits value (4 - left)

/-- An escape with at most four digits, of which one is missing. -/
def EscapeFits : Escape → Prop
  | .hex value left => 1 ≤ left ∧ left ≤ 4 ∧ value < 16 ^ (4 - left)
  | _ => True

theorem escapeUnit_eq (n : Nat) :
    escapeUnit n = codePoint '\\' :: codePoint 'u' :: hexDigits n 4 := by
  simp only [escapeUnit, hexDigits, Nat.div_div_eq_div_mul, List.nil_append, List.cons_append]

theorem hexDigit?_lt {c : CodePoint} {d : Nat} (h : hexDigit? c = some d) : d < 16 := by
  unfold hexDigit? at h
  split_ifs at h <;> cases h <;> omega

theorem hexDigits_push {value d k : Nat} (hd : d < 16) :
    hexDigits (value * 16 + d) (k + 1) = hexDigits value k ++ [hexChar d] := by
  have hdiv : (value * 16 + d) / 16 = value := by omega
  have hmod : (value * 16 + d) % 16 = d := by omega
  rw [hexDigits, hdiv, hmod]

/-! ## The encoder -/

section Encoder

variable {spoil : CodePoint → Bool}

theorem escapeStep_hex (hspoil : Spoils spoil) {value left d : Nat} (hd : d < 16) (hl : 1 < left) :
    escapeStep spoil (.hex value left) (hexChar d) = some (.hex (value * 16 + d) (left - 1)) := by
  have hhex := hexDigit?_hexChar hd
  have hno : spoil (hexChar d) = false := by
    rw [← Bool.not_eq_true]
    intro h
    rw [hspoil.hex _ h] at hhex
    cases hhex
  simp only [escapeStep, hno, hhex, if_neg (show ¬left ≤ 1 by omega)]
  rfl

theorem escapeStep_hex_last (hspoil : Spoils spoil) {value d : Nat} (hd : d < 16)
    (h : escapeChar (unitPoint (value * 16 + d)) = escapeUnit (value * 16 + d)) :
    escapeStep spoil (.hex value 1) (hexChar d) = some .none := by
  have hhex := hexDigit?_hexChar hd
  have hno : spoil (hexChar d) = false := by
    rw [← Bool.not_eq_true]
    intro h
    rw [hspoil.hex _ h] at hhex
    cases hhex
  simp only [escapeStep, hno, hhex, h]
  rfl

/-- A unit of a character that is written as a unit is accepted. -/
theorem runAll_escapeUnit (hspoil : Spoils spoil) {n : Nat} (hn : n < 0x10000)
    (h : escapeChar (unitPoint n) = escapeUnit n) :
    runAll (escapeStep spoil) .none (escapeUnit n) = some .none := by
  have hvalue : (((0 * 16 + n / 0x1000 % 16) * 16 + n / 0x100 % 16) * 16 + n / 0x10 % 16) * 16 +
      n % 16 = n := by omega
  have hslash : escapeStep spoil .none (codePoint '\\') = some .slash := rfl
  have hu : escapeStep spoil .slash (codePoint 'u') = some (.hex 0 4) := by
    simp only [escapeStep, hspoil.unit]
    rfl
  have hmod : ∀ m, m % 16 < 16 := fun m => Nat.mod_lt m (by decide)
  have hlast := @escapeStep_hex_last spoil hspoil
    (((0 * 16 + n / 0x1000 % 16) * 16 + n / 0x100 % 16) * 16 + n / 0x10 % 16) _
    (hmod n) (by rw [hvalue]; exact h)
  rw [escapeUnit, runAll_cons, hslash, Option.bind_some, runAll_cons, hu, Option.bind_some,
    runAll_cons, escapeStep_hex hspoil (hmod _) (by decide), Option.bind_some, runAll_cons,
    escapeStep_hex hspoil (hmod _) (by decide), Option.bind_some, runAll_cons,
    escapeStep_hex hspoil (hmod _) (by decide), Option.bind_some, runAll_cons, hlast,
    Option.bind_some]
  rfl

theorem unitPoint_eq_val {n : Nat} (hn : n < 0x110000) : (unitPoint n).val = n :=
  Nat.mod_eq_of_lt hn

/-- A surrogate is written as its unit. -/
theorem escapeChar_surrogate {c : CodePoint} (h : 0xD800 ≤ c.val) (h' : c.val < 0xE000) :
    escapeChar c = escapeUnit c.val := by
  have hne : ∀ d : CodePoint, d.val < 0xD800 → c ≠ d := by
    rintro d hd rfl
    omega
  rw [escapeChar, if_neg (hne _ (by decide)), if_neg (hne _ (by decide)), if_neg, if_neg (hne _ (by decide)),
    if_neg (hne _ (by decide)), if_neg (hne _ (by decide)), if_neg (hne _ (by decide)),
    if_neg (hne _ (by decide)), if_pos (by omega)]
  simp only [isPrintableAscii, Bool.and_eq_true, decide_eq_true_eq]
  omega

/-- A plain character. -/
theorem runAll_plain {c : CodePoint} (h : c ≠ codePoint '\\') :
    runAll (escapeStep spoil) .none [c] = some .none := by
  rw [runAll_cons, escapeStep, if_neg h]
  rfl

theorem runAll_simple (hspoil : Spoils spoil) {c d : CodePoint} (hc : c ≠ codePoint 'u')
    (hd : simpleEscape? c = some d) (h : escapeChar d = [codePoint '\\', c]) :
    runAll (escapeStep spoil) .none [codePoint '\\', c] = some .none := by
  have hno : spoil c = false := by
    rw [← Bool.not_eq_true]
    intro hs
    rw [hspoil.simple c hs] at hd
    cases hd
  have hslash : escapeStep spoil .none (codePoint '\\') = some .slash := rfl
  have hend : escapeStep spoil .slash c = some .none := by
    simp only [escapeStep, hno, hd, h, if_neg hc]
    rfl
  rw [runAll_cons, hslash, Option.bind_some, runAll_cons, hend]
  rfl

/-- The text of every character is accepted. -/
theorem runAll_escapeChar (hspoil : Spoils spoil) (c : CodePoint) :
    runAll (escapeStep spoil) .none (escapeChar c) = some .none := by
  by_cases hunit : escapeChar c = escapeUnit c.val ∧ c.val < 0x10000
  · rw [hunit.1]
    refine runAll_escapeUnit hspoil hunit.2 ?_
    rw [unitPoint_val]
    exact hunit.1
  · rw [escapeChar] at hunit ⊢
    split_ifs at hunit ⊢ with h1 h2 h3 h4 h5 h6 h7 h8 h9
    · subst h1
      exact runAll_simple hspoil (by decide) rfl (by decide)
    · subst h2
      exact runAll_simple hspoil (by decide) rfl (by decide)
    · exact runAll_plain h2
    · exact runAll_simple hspoil (by decide) rfl (by decide)
    · exact runAll_simple hspoil (by decide) rfl (by decide)
    · exact runAll_simple hspoil (by decide) rfl (by decide)
    · exact runAll_simple hspoil (by decide) rfl (by decide)
    · exact runAll_simple hspoil (by decide) rfl (by decide)
    · exact absurd ⟨rfl, h9⟩ hunit
    · -- the two units of a character beyond the basic plane are surrogates
      have hlt := c.isLt
      have hunits : ∀ n, 0xD800 ≤ n → n < 0xE000 →
          runAll (escapeStep spoil) .none (escapeUnit n) = some .none := by
        intro n hlo hhi
        have hval := unitPoint_eq_val (n := n) (by omega)
        refine runAll_escapeUnit hspoil (by omega) ?_
        rw [escapeChar_surrogate (by omega) (by omega), hval]
      rw [runAll_append, hunits _ (by omega) (by omega), Option.bind_some,
        hunits _ (by omega) (by omega)]

theorem runAll_escaped (hspoil : Spoils spoil) (s : Str) :
    runAll (escapeStep spoil) .none (s.flatMap escapeChar) = some .none := by
  induction s with
  | nil => rfl
  | cons c s ih => rw [List.flatMap_cons, runAll_append, runAll_escapeChar hspoil, Option.bind_some, ih]

/-- A text in which every escape ends. -/
def Settled (spoil : CodePoint → Bool) (s : Str) : Prop :=
  runAll (escapeStep spoil) .none s = some .none

theorem Settled.append {s t : Str} (hs : Settled spoil s) (ht : Settled spoil t) :
    Settled spoil (s ++ t) :=
  runAll_append_eq_some.mpr ⟨_, hs, ht⟩

theorem settled_of_no_slash {s : Str} (h : ∀ c ∈ s, c ≠ codePoint '\\') : Settled spoil s := by
  induction s with
  | nil => rfl
  | cons c s ih =>
    rw [List.forall_mem_cons] at h
    have hhead : Settled spoil [c] := runAll_plain h.1
    exact hhead.append (ih h.2)

theorem settled_of_all {s : Str} (h : s.all (fun c => c != codePoint '\\') = true) :
    Settled spoil s :=
  settled_of_no_slash fun c hc => bne_iff_ne.mp (List.all_eq_true.mp h c hc)

theorem settled_quote (hspoil : Spoils spoil) (s : Str) : Settled spoil (quote s) := by
  have hmark : Settled spoil [codePoint '"'] := runAll_plain (by decide)
  have hbody : Settled spoil (s.flatMap escapeChar) := runAll_escaped hspoil s
  exact (hmark.append hbody).append hmark

theorem blank_no_slash {s : Str} (h : Blank s) : ∀ c ∈ s, c ≠ codePoint '\\' := by
  rintro c hc rfl
  exact absurd (h _ hc) (by decide)

theorem digit_ne_slash {d : Nat} (h : d < 16) : digit d ≠ codePoint '\\' := by
  have hall : ∀ d < 16, digit d ≠ codePoint '\\' := by decide
  exact hall d h

theorem natStr_no_slash (n : Nat) : ∀ c ∈ natStr n, c ≠ codePoint '\\' := by
  induction n using Nat.strongRecOn with
  | ind n ih =>
    intro c hc
    rcases Nat.lt_or_ge n 10 with hlt | hge
    · rw [natStr_of_lt hlt, List.mem_singleton] at hc
      rw [hc]
      exact digit_ne_slash (by omega)
    · rw [natStr_of_le hge, List.mem_append, List.mem_singleton] at hc
      rcases hc with hc | rfl
      · exact ih (n / 10) (by omega) c hc
      · exact digit_ne_slash (by omega)

section Text

variable {rt : Runtime} {style : DumpStyle}

theorem settled_newline (level : Nat) : Settled spoil (style.newline level) :=
  settled_of_no_slash (blank_no_slash (blank_newline style level))

theorem settled_colon : Settled spoil style.colon := by
  have hcolon : Settled spoil [codePoint ':'] := runAll_plain (by decide)
  exact hcolon.append (settled_of_no_slash (blank_no_slash (blank_spaces style.keyPad)))

theorem settled_separator (level : Nat) : Settled spoil (style.separator level) := by
  have hcomma : Settled spoil [codePoint ','] := runAll_plain (by decide)
  exact (hcomma.append (settled_of_no_slash (blank_no_slash (blank_spaces style.itemPad)))).append
    (settled_newline level)

theorem settled_elems {elems : List Json} {level : Nat}
    (h : ∀ v ∈ elems, Settled spoil (dumpText rt style level v)) :
    Settled spoil (dumpElems rt style level elems) := by
  induction elems with
  | nil => rfl
  | cons v rest ih =>
    rw [List.forall_mem_cons] at h
    rw [dumpElems]
    exact ((settled_separator level).append h.1).append (ih h.2)

theorem settled_items (hspoil : Spoils spoil) {fields : List (Str × Json)} {level : Nat}
    (h : ∀ item ∈ fields, Settled spoil (dumpText rt style level item.2)) :
    Settled spoil (dumpItems rt style level fields) := by
  induction fields with
  | nil => rfl
  | cons item rest ih =>
    rw [List.forall_mem_cons] at h
    rw [dumpItems]
    exact (((((settled_separator level).append (settled_quote hspoil item.1)).append
      settled_colon).append h.1)).append (ih h.2)

/-- The text of the encoder is accepted. -/
theorem settled_dumpText (hspoil : Spoils spoil)
    (hfloat : ∀ x, ∀ c ∈ rt.floatRepr x, c ≠ codePoint '\\') (v : Json) (level : Nat) :
    Settled spoil (dumpText rt style level v) := by
  induction v using Json.induct generalizing level with
  | null => exact settled_of_all (s := lit "null") (by decide)
  | bool b =>
    cases b with
    | true => exact settled_of_all (s := lit "true") (by decide)
    | false => exact settled_of_all (s := lit "false") (by decide)
  | int n =>
    show Settled spoil (intStr n)
    unfold intStr
    split_ifs
    · have hsign : Settled spoil [codePoint '-'] := runAll_plain (by decide)
      exact hsign.append (settled_of_no_slash (natStr_no_slash _))
    · exact settled_of_no_slash (natStr_no_slash _)
  | float x =>
    show Settled spoil (floatText rt x)
    unfold floatText
    split
    · exact settled_of_all (s := lit "NaN") (by decide)
    · exact settled_of_all (s := lit "Infinity") (by decide)
    · exact settled_of_all (s := lit "-Infinity") (by decide)
    · exact settled_of_no_slash (hfloat _)
  | str s => exact settled_quote hspoil s
  | arr elems ih =>
    cases elems with
    | nil => exact settled_of_all (s := lit "[]") (by decide)
    | cons v rest =>
      rw [List.forall_mem_cons] at ih
      have hopen : Settled spoil [codePoint '['] := runAll_plain (by decide)
      have hclose : Settled spoil [codePoint ']'] := runAll_plain (by decide)
      rw [dumpText]
      exact ((((hopen.append (settled_newline _)).append (ih.1 _)).append
        (settled_elems fun w hw => ih.2 w hw _)).append (settled_newline level)).append hclose
  | obj fields ih =>
    cases fields with
    | nil => exact settled_of_all (s := lit "\x7b\x7d") (by decide)
    | cons item rest =>
      rw [List.forall_mem_cons] at ih
      have hopen : Settled spoil [codePoint '\x7b'] := runAll_plain (by decide)
      have hclose : Settled spoil [codePoint '\x7d'] := runAll_plain (by decide)
      rw [dumpText]
      exact ((((((hopen.append (settled_newline _)).append (settled_quote hspoil item.1)).append
        settled_colon).append (ih.1 _)).append (settled_items hspoil fun other hother =>
          ih.2 other hother _)).append (settled_newline level)).append hclose

end Text

end Encoder

end DevRepro.Python
