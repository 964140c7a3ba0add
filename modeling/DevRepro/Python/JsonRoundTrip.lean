import DevRepro.Python.JsonDump

/-!
# What `json.dumps` writes, `json.loads` reads

`loads_dumpText` is the round trip: the text of a `Readable` value, in any
style, reads back as the value.  The proof runs the scanner over the text.
A number is the one value whose end the scanner sees only at the next
character, so the invariant is not a state but `Ended`: the state answers and
steps like one behind a complete value.

`dumpText_inj` is what the digests of the program rest on: on readable values
the text determines the value.
-/

namespace DevRepro.Python

open Scan

/-! ## Values that read back -/

/-- The values inside `level` open containers that the reader returns as they
were. -/
inductive Readable (l : Limits) : Nat → Json → Prop where
  | null (level : Nat) : Readable l level .null
  | bool (level : Nat) (b : Bool) : Readable l level (.bool b)
  | int (level : Nat) (n : Int) (fits : fitsDigits l n = true) : Readable l level (.int n)
  | str (level : Nat) (s : Str) (paired : WellPaired s) : Readable l level (.str s)
  | arr (level : Nat) (elems : List Json) (room : level < l.depth)
      (each : ∀ v ∈ elems, Readable l (level + 1) v) : Readable l level (.arr elems)
  | obj (level : Nat) (fields : List (Str × Json)) (room : level < l.depth)
      (distinct : (fields.map Prod.fst).Nodup) (paired : ∀ item ∈ fields, WellPaired item.1)
      (each : ∀ item ∈ fields, Readable l (level + 1) item.2) : Readable l level (.obj fields)

mutual
/-- A check for readable values. -/
def checkReadable (l : Limits) (level : Nat) : Json → Bool
  | .int n => fitsDigits l n
  | .str s => decide (WellPaired s)
  | .arr elems => decide (level < l.depth) && checkElems l (level + 1) elems
  | .obj fields =>
    decide (level < l.depth) && decide (fields.map Prod.fst).Nodup && checkItems l (level + 1) fields
  | .null | .bool _ => true
  | .float _ => false
def checkElems (l : Limits) (level : Nat) : List Json → Bool
  | [] => true
  | v :: rest => checkReadable l level v && checkElems l level rest
def checkItems (l : Limits) (level : Nat) : List (Str × Json) → Bool
  | [] => true
  | (key, v) :: rest =>
    decide (WellPaired key) && checkReadable l level v && checkItems l level rest
end

theorem checkElems_iff {l : Limits} {level : Nat} {elems : List Json} :
    checkElems l level elems = true ↔ ∀ v ∈ elems, checkReadable l level v = true := by
  induction elems with
  | nil => simp [checkElems]
  | cons v rest ih => rw [checkElems, Bool.and_eq_true, ih, List.forall_mem_cons]

theorem checkItems_iff {l : Limits} {level : Nat} {fields : List (Str × Json)} :
    checkItems l level fields = true ↔
      ∀ item ∈ fields, WellPaired item.1 ∧ checkReadable l level item.2 = true := by
  induction fields with
  | nil => simp [checkItems]
  | cons item rest ih =>
    rw [checkItems, Bool.and_eq_true, Bool.and_eq_true, ih, List.forall_mem_cons, decide_eq_true_iff]

/-- What passes the check is readable. -/
theorem readable_of_check {l : Limits} {v : Json} {level : Nat}
    (h : checkReadable l level v = true) : Readable l level v := by
  induction v using Json.induct generalizing level with
  | null => exact .null level
  | bool b => exact .bool level b
  | int n => exact .int level n h
  | float x => cases h
  | str s =>
    rw [checkReadable, decide_eq_true_iff] at h
    exact .str level s h
  | arr elems ih =>
    rw [checkReadable, Bool.and_eq_true, decide_eq_true_iff, checkElems_iff] at h
    exact .arr level elems h.1 fun v hv => ih v hv (h.2 v hv)
  | obj fields ih =>
    simp only [checkReadable, Bool.and_eq_true, decide_eq_true_iff, checkItems_iff] at h
    exact .obj level fields h.1.1 h.1.2 (fun item hitem => (h.2 item hitem).1) fun item hitem =>
      ih item hitem (h.2 item hitem).2

namespace Scan

variable {l : Limits}

/-! ## Strings -/

theorem hexDigit?_hexChar {d : Nat} (h : d < 16) : hexDigit? (hexChar d) = some d := by
  have hall : ∀ d < 16, hexDigit? (hexChar d) = some d := by decide
  exact hall d h

/-- A hexadecimal digit of a `\u` unit, other than the last one. -/
theorem step_hex {stack : List Frame} {t : Text} {value left d : Nat} (hd : d < 16)
    (hl : 1 < left) :
    step l ⟨stack, .text { t with escape := .hex value left }⟩ (hexChar d) =
      .ok ⟨stack, .text { t with escape := .hex (value * 16 + d) (left - 1) }⟩ := by
  simp only [step, stepText, hexDigit?_hexChar hd, if_neg (show ¬left ≤ 1 by omega)]

/-- The last hexadecimal digit of a `\u` unit. -/
theorem step_hex_last {stack : List Frame} {t : Text} {value d : Nat} (hd : d < 16) :
    step l ⟨stack, .text { t with escape := .hex value 1 }⟩ (hexChar d) =
      .ok ⟨stack, .text (t.addUnit (value * 16 + d))⟩ := by
  simp only [step, stepText, hexDigit?_hexChar hd, le_refl, if_true]
  rfl

theorem run_escapeUnit {stack : List Frame} {t : Text} (ht : t.escape = .none) {n : Nat}
    (hn : n < 0x10000) :
    run l ⟨stack, .text t⟩ (escapeUnit n) = .ok ⟨stack, .text (t.addUnit n)⟩ := by
  have hslash : step l ⟨stack, .text t⟩ (codePoint '\\') =
      .ok ⟨stack, .text { t with escape := .slash }⟩ := by
    simp only [step, stepText, ht]
    rfl
  have hu : step l ⟨stack, .text { t with escape := .slash }⟩ (codePoint 'u') =
      .ok ⟨stack, .text { t with escape := .hex 0 4 }⟩ := rfl
  have hvalue : (((0 * 16 + n / 0x1000 % 16) * 16 + n / 0x100 % 16) * 16 + n / 0x10 % 16) * 16 +
      n % 16 = n := by omega
  rw [escapeUnit, run_cons_ok hslash, run_cons_ok hu,
    run_cons_ok (step_hex (Nat.mod_lt _ (by decide)) (by decide)),
    run_cons_ok (step_hex (Nat.mod_lt _ (by decide)) (by decide)),
    run_cons_ok (step_hex (Nat.mod_lt _ (by decide)) (by decide)),
    run_cons_ok (step_hex_last (Nat.mod_lt _ (by decide))), hvalue, run_nil]

theorem unitPoint_val (c : CodePoint) : unitPoint c.val = c := Fin.ofNat_val_eq_self c

/-- The two units of a character beyond the basic plane make the character. -/
theorem joinPair_units {c : CodePoint} (h : 0x10000 ≤ c.val) :
    joinPair (unitPoint (0xD800 + (c.val - 0x10000) / 0x400))
      (unitPoint (0xDC00 + (c.val - 0x10000) % 0x400)) = c := by
  have hc := c.isLt
  apply Fin.ext
  simp only [joinPair, unitPoint, Fin.ofNat]
  omega

/-- A unit that does not pair with the character before it stands for itself. -/
theorem addUnit_alone {t : Text} {n : Nat}
    (h : ∀ d ∈ t.acc.head?, ¬(isHighSurrogate d = true ∧ isLowSurrogate (unitPoint n) = true)) :
    t.addUnit n = ⟨t.role, unitPoint n :: t.acc, true, .none⟩ := by
  obtain ⟨role, acc, unit, escape⟩ := t
  cases acc with
  | nil => rfl
  | cons d acc =>
    have hd := h d rfl
    simp only [Text.addUnit]
    rw [if_neg]
    simp only [Bool.and_eq_true]
    exact fun hh => hd ⟨hh.1.2, hh.2⟩

/-- One character of a literal, when it does not pair with the one before. -/
theorem run_escapeChar (stack : List Frame) {t : Text} (ht : t.escape = .none) {c : CodePoint}
    (h : ∀ d ∈ t.acc.head?, ¬(isHighSurrogate d = true ∧ isLowSurrogate c = true)) :
    ∃ unit, run l ⟨stack, .text t⟩ (escapeChar c) =
      .ok ⟨stack, .text ⟨t.role, c :: t.acc, unit, .none⟩⟩ := by
  obtain ⟨role, acc, unit, escape⟩ := t
  subst ht
  rw [escapeChar]
  split_ifs with h1 h2 h3 h4 h5 h6 h7 h8 h9
  · exact ⟨false, by subst h1; rfl⟩
  · exact ⟨false, by subst h2; rfl⟩
  · refine ⟨false, ?_⟩
    have hge : ¬c.val ≤ 0x1F := by
      simp only [isPrintableAscii, Bool.and_eq_true, decide_eq_true_eq] at h3
      omega
    have hstep : step l ⟨stack, .text ⟨role, acc, unit, .none⟩⟩ c =
        .ok ⟨stack, .text ⟨role, c :: acc, false, .none⟩⟩ := by
      simp only [step, stepText, if_neg h1, if_neg h2, if_neg hge]
    rw [run_cons_ok hstep, run_nil]
  · exact ⟨false, by subst h4; rfl⟩
  · exact ⟨false, by subst h5; rfl⟩
  · exact ⟨false, by subst h6; rfl⟩
  · exact ⟨false, by subst h7; rfl⟩
  · exact ⟨false, by subst h8; rfl⟩
  · refine ⟨true, ?_⟩
    rw [run_escapeUnit rfl h9, addUnit_alone (by rw [unitPoint_val]; exact h), unitPoint_val]
  · refine ⟨false, ?_⟩
    have hc := c.isLt
    have hhigh : isHighSurrogate (unitPoint (0xD800 + (c.val - 0x10000) / 0x400)) = true := by
      simp only [isHighSurrogate_iff, unitPoint, Fin.ofNat]
      omega
    have hnot : ¬isLowSurrogate (unitPoint (0xD800 + (c.val - 0x10000) / 0x400)) = true := by
      simp only [isLowSurrogate_iff, unitPoint, Fin.ofNat]
      omega
    have hlow : isLowSurrogate (unitPoint (0xDC00 + (c.val - 0x10000) % 0x400)) = true := by
      simp only [isLowSurrogate_iff, unitPoint, Fin.ofNat]
      omega
    rw [run_append_ok (run_escapeUnit rfl (by omega)),
      addUnit_alone fun d _ hd => hnot hd.2, run_escapeUnit rfl (by omega)]
    simp only [Text.addUnit, hhigh, hlow, Bool.and_self, if_true]
    rw [joinPair_units (by omega)]

/-- The characters of a literal. -/
theorem run_literal (stack : List Frame) (s : Str) (t : Text) (ht : t.escape = .none)
    (h : WellPaired (t.acc.reverse ++ s)) :
    ∃ unit, run l ⟨stack, .text t⟩ (s.flatMap escapeChar) =
      .ok ⟨stack, .text ⟨t.role, s.reverse ++ t.acc, unit, .none⟩⟩ := by
  induction s generalizing t with
  | nil => exact ⟨t.unit, by obtain ⟨role, acc, unit, escape⟩ := t; subst ht; rfl⟩
  | cons c s ih =>
    have hhead : ∀ d ∈ t.acc.head?, ¬(isHighSurrogate d = true ∧ isLowSurrogate c = true) := by
      intro d hd
      obtain ⟨acc, hacc⟩ : ∃ acc, t.acc = d :: acc := by
        cases hta : t.acc with
        | nil => rw [hta] at hd; cases hd
        | cons e acc => rw [hta] at hd; exact ⟨acc, by simpa using hd⟩
      rw [hacc, List.reverse_cons, List.append_assoc] at h
      have h2 : WellPaired (d :: c :: s) := by
        exact List.IsChain.right_of_append h
      exact (List.isChain_cons_cons.mp h2).1
    obtain ⟨unit, hrun⟩ := run_escapeChar (l := l) stack ht hhead
    obtain ⟨unit', hrun'⟩ := ih ⟨t.role, c :: t.acc, unit, .none⟩ rfl
      (by simpa using h)
    refine ⟨unit', ?_⟩
    rw [List.flatMap_cons, run_append_ok hrun, hrun']
    simp

/-- A whole literal, behind its opening quote. -/
theorem run_closed {stack : List Frame} {s : Str} (h : WellPaired s) (role : Role) :
    run l ⟨stack, .text ⟨role, [], false, .none⟩⟩ (s.flatMap escapeChar ++ [codePoint '"']) =
      .ok (closeText stack ⟨role, s.reverse, false, .none⟩) := by
  obtain ⟨unit, hrun⟩ := run_literal (l := l) stack s ⟨role, [], false, .none⟩ rfl h
  rw [run_append_ok hrun, List.append_nil]
  rfl

theorem run_quote_value {stack : List Frame} {s : Str} (h : WellPaired s) (first : Bool) :
    run l ⟨stack, .value first⟩ (quote s) = .ok ⟨stack, .after (.str s)⟩ := by
  have hopen : step l ⟨stack, .value first⟩ (codePoint '"') =
      .ok ⟨stack, .text ⟨.value, [], false, .none⟩⟩ := by cases first <;> rfl
  rw [quote, List.cons_append, run_cons_ok hopen, run_closed h, closeText, List.reverse_reverse]

theorem run_quote_key {stack : List Frame} {s : Str} (h : WellPaired s) (first : Bool)
    (done : List (Str × Json)) :
    run l ⟨stack, .key first done⟩ (quote s) = .ok ⟨stack, .colon done s⟩ := by
  have hopen : step l ⟨stack, .key first done⟩ (codePoint '"') =
      .ok ⟨stack, .text ⟨.key done, [], false, .none⟩⟩ := by cases first <;> rfl
  rw [quote, List.cons_append, run_cons_ok hopen, run_closed h, closeText, List.reverse_reverse]

/-! ## The end of a value -/

/-- The characters that the encoder writes behind a value. -/
def isDelimiter (c : CodePoint) : Bool :=
  isJsonSpace c || c == codePoint ',' || c == codePoint ']' || c == codePoint '}'

/-- A state that answers and steps like the one behind a complete value. -/
structure Ended (l : Limits) (st : State) (stack : List Frame) (v : Json) : Prop where
  finish_eq : finish l st = finishValue stack v
  step_eq : ∀ c, isDelimiter c = true → step l st c = settle stack v c

theorem ended_after (l : Limits) (stack : List Frame) (v : Json) :
    Ended l ⟨stack, .after v⟩ stack v := ⟨rfl, fun _ _ => rfl⟩

theorem ended_word (l : Limits) (stack : List Frame) (w : Word) :
    Ended l ⟨stack, .word [] w⟩ stack w.value := ⟨rfl, fun _ _ => rfl⟩

/-- A text that does not move the scanner. -/
theorem run_stay {st : State} {s : Str} (h : ∀ c ∈ s, step l st c = .ok st) :
    run l st s = .ok st := by
  induction s with
  | nil => rfl
  | cons c s ih =>
    rw [List.forall_mem_cons] at h
    rw [run_cons_ok h.1, ih h.2]

/-- A text of JSON blanks. -/
def Blank (s : Str) : Prop := ∀ c ∈ s, isJsonSpace c = true

theorem blank_nil : Blank [] := by
  intro c hc
  cases hc

theorem run_blank_value {stack : List Frame} {first : Bool} {s : Str} (h : Blank s) :
    run l ⟨stack, .value first⟩ s = .ok ⟨stack, .value first⟩ :=
  run_stay fun c hc => by simp only [step, if_pos (h c hc)]

theorem run_blank_key {stack : List Frame} {first : Bool} {done : List (Str × Json)} {s : Str}
    (h : Blank s) : run l ⟨stack, .key first done⟩ s = .ok ⟨stack, .key first done⟩ :=
  run_stay fun c hc => by simp only [step, if_pos (h c hc)]

theorem run_blank_after {stack : List Frame} {v : Json} {s : Str} (h : Blank s) :
    run l ⟨stack, .after v⟩ s = .ok ⟨stack, .after v⟩ :=
  run_stay fun c hc => by simp only [step, settle, if_pos (h c hc)]

/-- Blanks leave a value complete. -/
theorem Ended.run_blank {st : State} {stack : List Frame} {v : Json} (he : Ended l st stack v)
    {s : Str} (h : Blank s) : ∃ st', run l st s = .ok st' ∧ Ended l st' stack v := by
  cases s with
  | nil => exact ⟨st, rfl, he⟩
  | cons c s =>
    have hc : isJsonSpace c = true := h c (by simp)
    have hstep : step l st c = .ok ⟨stack, .after v⟩ := by
      rw [he.step_eq c (by simp [isDelimiter, hc]), settle, if_pos hc]
    refine ⟨⟨stack, .after v⟩, ?_, ended_after l stack v⟩
    rw [run_cons_ok hstep, run_blank_after fun d hd => h d (by simp [hd])]

/-- A comma or a closing bracket behind a complete value. -/
theorem Ended.step_punctuation {st : State} {stack : List Frame} {v : Json} {c : CodePoint}
    (he : Ended l st stack v)
    (h : c = codePoint ',' ∨ c = codePoint ']' ∨ c = codePoint '}') :
    step l st c = afterValue stack v c := by
  have hd : isDelimiter c = true ∧ isJsonSpace c = false := by
    rcases h with rfl | rfl | rfl <;> decide
  rw [he.step_eq c hd.1, settle, if_neg (by rw [hd.2]; decide)]

theorem blank_newline (style : DumpStyle) (level : Nat) : Blank (style.newline level) := by
  unfold DumpStyle.newline
  cases style.indent with
  | none => intro c hc; cases hc
  | some n =>
    intro c hc
    rcases List.mem_cons.mp hc with rfl | hc
    · decide
    · rw [List.eq_of_mem_replicate hc]
      decide

theorem blank_spaces (n : Nat) : Blank (List.replicate n (codePoint ' ')) := by
  intro c hc
  rw [List.eq_of_mem_replicate hc]
  decide

theorem Blank.append {s t : Str} (hs : Blank s) (ht : Blank t) : Blank (s ++ t) := by
  intro c hc
  rcases List.mem_append.mp hc with hc | hc
  · exact hs c hc
  · exact ht c hc

/-! ## Numbers -/

theorem asciiDigit?_digit {d : Nat} (h : d < 10) : asciiDigit? (digit d) = some d := by
  have hall : ∀ d < 10, asciiDigit? (digit d) = some d := by decide
  exact hall d h

/-- The first digit of a number that is not zero. -/
theorem step_first_digit {stack : List Frame} {first : Bool} {d : Nat} (h0 : 0 < d)
    (h : d < 10) :
    step l ⟨stack, .value first⟩ (digit d) =
      .ok ⟨stack, .number ⟨.int, false, d, 1, 0, false, 0⟩⟩ := by
  cases first <;> interval_cases d <;> rfl

/-- The first digit behind a sign. -/
theorem step_signed_digit {stack : List Frame} {d : Nat} (h0 : 0 < d) (h : d < 10) :
    step l ⟨stack, .number ⟨.minus, true, 0, 0, 0, false, 0⟩⟩ (digit d) =
      .ok ⟨stack, .number ⟨.int, true, d, 1, 0, false, 0⟩⟩ := by
  interval_cases d <;> rfl

/-- One more digit. -/
theorem step_next_digit {stack : List Frame} {negative : Bool} {n len d : Nat} (h : d < 10) :
    step l ⟨stack, .number ⟨.int, negative, n, len, 0, false, 0⟩⟩ (digit d) =
      .ok ⟨stack, .number ⟨.int, negative, n * 10 + d, len + 1, 0, false, 0⟩⟩ := by
  simp only [step, Number.next, asciiDigit?_digit h]

/-- The digits of a number, from a state that takes the first one. -/
theorem run_natStr {stack : List Frame} {st : State} {negative : Bool}
    (hst : ∀ d, 0 < d → d < 10 → step l st (digit d) =
      .ok ⟨stack, .number ⟨.int, negative, d, 1, 0, false, 0⟩⟩) (n : Nat) (hn : 0 < n) :
    run l st (natStr n) =
      .ok ⟨stack, .number ⟨.int, negative, n, (natStr n).length, 0, false, 0⟩⟩ := by
  induction n using Nat.strongRecOn with
  | ind n ih =>
    rcases Nat.lt_or_ge n 10 with hlt | hge
    · rw [natStr_of_lt hlt, run_cons_ok (hst n hn hlt)]
      rfl
    · rw [natStr_of_le hge, run_append_ok (ih (n / 10) (by omega) (by omega)),
        run_cons_ok (step_next_digit (Nat.mod_lt n (by decide))), run_nil]
      rw [List.length_append, List.length_singleton, show n / 10 * 10 + n % 10 = n by omega]

/-- No delimiter goes on with an integer. -/
theorem next_delimiter {n : Number} (hp : n.phase = .zero ∨ n.phase = .int) {c : CodePoint}
    (hc : isDelimiter c = true) : n.next c = none := by
  have hnot : asciiDigit? c = none ∧ c ≠ codePoint '.' ∧ c ≠ codePoint 'e' ∧ c ≠ codePoint 'E' := by
    simp only [isDelimiter, isJsonSpace, Bool.or_eq_true, beq_iff_eq] at hc
    rcases hc with (((((rfl | rfl) | rfl) | rfl) | rfl) | rfl) | rfl <;> decide
  obtain ⟨hd, hpoint, he, hE⟩ := hnot
  rcases hp with hp | hp <;> simp [Number.next, hp, hd, hpoint, he, hE]

/-- An integer within the digit limit has ended. -/
theorem ended_number (stack : List Frame) {n : Number} (hp : n.phase = .zero ∨ n.phase = .int)
    (hl : n.intLength ≤ l.intDigits) :
    Ended l ⟨stack, .number n⟩ stack
      (.int (if n.negative then -(n.digits : Int) else n.digits)) := by
  have hvalue : n.value l = .ok (.int (if n.negative then -(n.digits : Int) else n.digits)) := by
    rcases hp with hp | hp <;> simp [Number.value, hp, Number.toInt, show ¬l.intDigits < n.intLength by omega]
  have hleft : n.phase.leftover = false := by rcases hp with hp | hp <;> rw [hp] <;> rfl
  have hminus : n.phase ≠ .minus := by rcases hp with hp | hp <;> rw [hp] <;> decide
  constructor
  · simp only [finish, hvalue, hleft]
    rfl
  · intro c hc
    simp only [step, next_delimiter hp hc, endNumber, hvalue, hleft, hminus]
    rfl

theorem run_intStr {stack : List Frame} (n : Int) (h : fitsDigits l n = true) (first : Bool) :
    ∃ st, run l ⟨stack, .value first⟩ (intStr n) = .ok st ∧ Ended l st stack (.int n) := by
  rw [fitsDigits, decide_eq_true_eq] at h
  rcases lt_trichotomy n 0 with hneg | rfl | hpos
  · have hminus : step l ⟨stack, .value first⟩ (codePoint '-') =
        .ok ⟨stack, .number ⟨.minus, true, 0, 0, 0, false, 0⟩⟩ := by cases first <;> rfl
    refine ⟨⟨stack, .number ⟨.int, true, n.natAbs, (natStr n.natAbs).length, 0, false, 0⟩⟩,
      ?_, ?_⟩
    · rw [intStr, if_pos hneg, run_cons_ok hminus,
        run_natStr (fun d h0 hd => step_signed_digit h0 hd) n.natAbs (by omega)]
    · have hend := ended_number (l := l) stack
        (n := ⟨.int, true, n.natAbs, (natStr n.natAbs).length, 0, false, 0⟩) (Or.inr rfl) h
      rwa [if_pos rfl, show -((n.natAbs : Nat) : Int) = n by omega] at hend
  · refine ⟨⟨stack, .number ⟨.zero, false, 0, 1, 0, false, 0⟩⟩, ?_, ?_⟩
    · cases first <;> rfl
    · exact ended_number stack (Or.inl rfl) h
  · refine ⟨⟨stack, .number ⟨.int, false, n.natAbs, (natStr n.natAbs).length, 0, false, 0⟩⟩,
      ?_, ?_⟩
    · rw [intStr, if_neg (by omega),
        run_natStr (fun d h0 hd => step_first_digit h0 hd) n.natAbs (by omega)]
    · have hend := ended_number (l := l) stack
        (n := ⟨.int, false, n.natAbs, (natStr n.natAbs).length, 0, false, 0⟩) (Or.inr rfl) h
      rwa [if_neg Bool.false_ne_true, show ((n.natAbs : Nat) : Int) = n by omega] at hend

/-! ## Containers -/

/-- The text of a value reads as the value, wherever a value is due inside
`level` open containers. -/
def Reads (l : Limits) (rt : Runtime) (style : DumpStyle) (level : Nat) (v : Json) : Prop :=
  ∀ stack : List Frame, stack.length = level → ∀ first, ∃ st,
    run l ⟨stack, .value first⟩ (dumpText rt style level v) = .ok st ∧ Ended l st stack v

section Containers

variable {rt : Runtime} {style : DumpStyle} {level : Nat} {stack : List Frame}

/-- The elements behind the first one, and the closing bracket. -/
theorem run_elems (hstack : stack.length = level) {elems : List Json}
    (helems : ∀ v ∈ elems, Reads l rt style (level + 1) v) (done : List Json) (v : Json)
    (st : State) (he : Ended l st (.arr done :: stack) v) :
    run l st (dumpElems rt style (level + 1) elems ++ (style.newline level ++ [codePoint ']'])) =
      .ok ⟨stack, .after (.arr (done.reverse ++ v :: elems))⟩ := by
  induction elems generalizing done v st with
  | nil =>
    obtain ⟨st', hrun, he'⟩ := he.run_blank (blank_newline style level)
    have hclose : step l st' (codePoint ']') = .ok ⟨stack, .after (.arr (v :: done).reverse)⟩ := by
      rw [he'.step_punctuation (by simp)]
      rfl
    rw [dumpElems, List.nil_append, run_append_ok hrun, run_cons_ok hclose, run_nil,
      List.reverse_cons]
  | cons w rest ih =>
    rw [List.forall_mem_cons] at helems
    have hcomma : step l st (codePoint ',') = .ok ⟨.arr (v :: done) :: stack, .value false⟩ := by
      rw [he.step_punctuation (by simp)]
      rfl
    obtain ⟨st', hrun, he'⟩ := helems.1 (.arr (v :: done) :: stack) (by simp [hstack]) false
    have hpad := (blank_spaces style.itemPad).append (blank_newline style (level + 1))
    rw [dumpElems, DumpStyle.separator, List.cons_append]
    simp only [List.append_assoc, List.cons_append]
    rw [run_cons_ok hcomma, ← List.append_assoc (List.replicate _ _),
      run_append_ok (run_blank_value hpad), run_append_ok hrun, ih helems.2 _ _ _ he']
    simp

/-- The items behind the first one, and the closing brace. -/
theorem run_items (hstack : stack.length = level) {fields : List (Str × Json)}
    (hkeys : ∀ item ∈ fields, WellPaired item.1)
    (hfields : ∀ item ∈ fields, Reads l rt style (level + 1) item.2)
    (done : List (Str × Json)) (key : Str) (v : Json) (st : State)
    (he : Ended l st (.member done key :: stack) v) :
    run l st (dumpItems rt style (level + 1) fields ++
        (style.newline level ++ [codePoint '}'])) =
      .ok ⟨stack, .after (.obj (dictOf (done.reverse ++ (key, v) :: fields)))⟩ := by
  induction fields generalizing done key v st with
  | nil =>
    obtain ⟨st', hrun, he'⟩ := he.run_blank (blank_newline style level)
    have hclose : step l st' (codePoint '}') =
        .ok ⟨stack, .after (.obj (dictOf ((key, v) :: done).reverse))⟩ := by
      rw [he'.step_punctuation (by simp)]
      rfl
    rw [dumpItems, List.nil_append, run_append_ok hrun, run_cons_ok hclose, run_nil,
      List.reverse_cons]
  | cons item rest ih =>
    obtain ⟨k, w⟩ := item
    rw [List.forall_mem_cons] at hkeys hfields
    have hcomma : step l st (codePoint ',') = .ok ⟨stack, .key false ((key, v) :: done)⟩ := by
      rw [he.step_punctuation (by simp)]
      rfl
    have hcolon : step l ⟨stack, .colon ((key, v) :: done) k⟩ (codePoint ':') =
        .ok ⟨.member ((key, v) :: done) k :: stack, .value false⟩ := rfl
    obtain ⟨st', hrun, he'⟩ :=
      hfields.1 (.member ((key, v) :: done) k :: stack) (by simp [hstack]) false
    have hpad := (blank_spaces style.itemPad).append (blank_newline style (level + 1))
    rw [dumpItems, DumpStyle.separator, DumpStyle.colon, List.cons_append]
    simp only [List.append_assoc, List.cons_append]
    rw [run_cons_ok hcomma, ← List.append_assoc (List.replicate _ _),
      run_append_ok (run_blank_key hpad), run_append_ok (run_quote_key hkeys.1 _ _),
      run_cons_ok hcolon, run_append_ok (run_blank_value (blank_spaces _)), run_append_ok hrun,
      ih hkeys.2 hfields.2 _ _ _ _ he']
    simp

theorem reads_arr (hroom : level < l.depth) {elems : List Json}
    (helems : ∀ v ∈ elems, Reads l rt style (level + 1) v) :
    Reads l rt style level (.arr elems) := by
  intro stack hstack first
  refine ⟨⟨stack, .after (.arr elems)⟩, ?_, ended_after l stack _⟩
  have hopen : step l ⟨stack, .value first⟩ (codePoint '[') =
      .ok ⟨.arr [] :: stack, .value true⟩ := by
    have hlt : stack.length < l.depth := by omega
    cases first <;> simp only [step, openValue] <;> exact if_pos hlt
  cases elems with
  | nil =>
    rw [dumpText, show lit "[]" = [codePoint '[', codePoint ']'] from rfl, run_cons_ok hopen]
    rfl
  | cons v rest =>
    rw [List.forall_mem_cons] at helems
    obtain ⟨st, hrun, he⟩ := helems.1 (.arr [] :: stack) (by simp [hstack]) true
    rw [dumpText]
    simp only [List.append_assoc, List.cons_append]
    rw [run_cons_ok hopen, run_append_ok (run_blank_value (blank_newline _ _)), run_append_ok hrun,
      run_elems hstack helems.2 _ _ _ he]
    rfl

theorem reads_obj (hroom : level < l.depth) {fields : List (Str × Json)}
    (hdistinct : (fields.map Prod.fst).Nodup) (hkeys : ∀ item ∈ fields, WellPaired item.1)
    (hfields : ∀ item ∈ fields, Reads l rt style (level + 1) item.2) :
    Reads l rt style level (.obj fields) := by
  intro stack hstack first
  refine ⟨⟨stack, .after (.obj fields)⟩, ?_, ended_after l stack _⟩
  have hopen : step l ⟨stack, .value first⟩ (codePoint '{') = .ok ⟨stack, .key true []⟩ := by
    have hlt : stack.length < l.depth := by omega
    cases first <;> simp only [step, openValue] <;> exact if_pos hlt
  cases fields with
  | nil =>
    rw [dumpText, show lit "{}" = [codePoint '{', codePoint '}'] from rfl,
      run_cons_ok hopen]
    rfl
  | cons item rest =>
    obtain ⟨k, v⟩ := item
    rw [List.forall_mem_cons] at hkeys hfields
    have hcolon : step l ⟨stack, .colon [] k⟩ (codePoint ':') =
        .ok ⟨.member [] k :: stack, .value false⟩ := rfl
    obtain ⟨st, hrun, he⟩ := hfields.1 (.member [] k :: stack) (by simp [hstack]) false
    rw [dumpText, DumpStyle.colon]
    simp only [List.append_assoc, List.cons_append]
    rw [run_cons_ok hopen, run_append_ok (run_blank_key (blank_newline _ _)),
      run_append_ok (run_quote_key hkeys.1 _ _), run_cons_ok hcolon,
      run_append_ok (run_blank_value (blank_spaces _)), run_append_ok hrun,
      run_items hstack hkeys.2 hfields.2 _ _ _ _ he, List.reverse_nil, List.nil_append,
      dictOf_of_nodup hdistinct]

end Containers

/-- The rest of a word. -/
theorem run_word (stack : List Frame) (rest : Str) (w : Word) :
    run l ⟨stack, .word rest w⟩ rest = .ok ⟨stack, .word [] w⟩ := by
  induction rest with
  | nil => rfl
  | cons c rest ih =>
    have hstep : step l ⟨stack, .word (c :: rest) w⟩ c = .ok ⟨stack, .word rest w⟩ := by
      simp only [step, if_true]
    rw [run_cons_ok hstep, ih]

theorem reads_word {rt : Runtime} {style : DumpStyle} {level : Nat} {c : CodePoint} {rest : Str}
    {w : Word} (htext : dumpText rt style level w.value = c :: rest)
    (hopen : ∀ stack first, step l ⟨stack, .value first⟩ c = .ok ⟨stack, .word rest w⟩) :
    Reads l rt style level w.value := by
  intro stack _ first
  refine ⟨⟨stack, .word [] w⟩, ?_, ended_word l stack w⟩
  rw [htext, run_cons_ok (hopen stack first), run_word]

/-- The text of a readable value reads as the value. -/
theorem reads_of_readable (rt : Runtime) (style : DumpStyle) {level : Nat} {v : Json}
    (h : Readable l level v) : Reads l rt style level v := by
  induction h with
  | null level => exact reads_word (w := .null) rfl fun stack first => by cases first <;> rfl
  | bool level b =>
    cases b with
    | true => exact reads_word (w := .true) rfl fun stack first => by cases first <;> rfl
    | false => exact reads_word (w := .false) rfl fun stack first => by cases first <;> rfl
  | int level n fits =>
    intro stack _ first
    exact run_intStr n fits first
  | str level s paired =>
    intro stack _ first
    exact ⟨_, run_quote_value paired first, ended_after l stack _⟩
  | arr level elems room each ih => exact reads_arr room ih
  | obj level fields room distinct paired each ih => exact reads_obj room distinct paired ih

end Scan

/-! ## The round trip -/

/-- A text that the scanner runs through is no text with a byte order mark. -/
theorem loads_of_run {l : Limits} {text : Str} {st : State} {v : Json}
    (hrun : run l ⟨[], .value false⟩ text = .ok st) (hfinish : finish l st = .ok v) :
    loads l text = .ok v := by
  have hbom : text.head? ≠ some 0xFEFF := by
    intro hhead
    obtain ⟨rest, rfl⟩ := List.head?_eq_some_iff.mp hhead
    rw [run_cons] at hrun
    cases hrun
  rw [loads, if_neg hbom, hrun]
  exact hfinish

/-- Reading back what was written gives the value, also behind blanks. -/
theorem loads_blank_dumpText (rt : Runtime) (style : DumpStyle) {l : Limits} {v : Json}
    (h : Readable l 0 v) {pad : Str} (hpad : Blank pad) :
    loads l (pad ++ dumpText rt style 0 v) = .ok v := by
  obtain ⟨st, hrun, he⟩ := reads_of_readable rt style h [] rfl false
  exact loads_of_run (by rw [run_append_ok (run_blank_value hpad), hrun]) he.finish_eq

theorem loads_dumpText (rt : Runtime) (style : DumpStyle) {l : Limits} {v : Json}
    (h : Readable l 0 v) : loads l (dumpText rt style 0 v) = .ok v :=
  loads_blank_dumpText rt style h blank_nil

/-- On readable values the text determines the value. -/
theorem dumpText_inj {rt : Runtime} {style : DumpStyle} {l : Limits} {v w : Json}
    (hv : Readable l 0 v) (hw : Readable l 0 w)
    (h : dumpText rt style 0 v = dumpText rt style 0 w) : v = w := by
  have hload := loads_dumpText rt style hv
  rw [h, loads_dumpText rt style hw] at hload
  cases hload
  rfl

/-! ## Whitespace that is not a JSON blank -/

theorem opening?_of_isSpace {c : CodePoint} (h : isSpace c = true) : opening? c = none := by
  have hne : ∀ d, isSpace d = false → c ≠ d := by
    rintro d hd rfl
    rw [hd] at h
    cases h
  have hdigit : asciiDigit? c = none := by
    simp only [isSpace, Bool.or_eq_true, Bool.and_eq_true, decide_eq_true_eq, beq_iff_eq] at h
    rw [asciiDigit?, if_neg (by omega)]
  rw [opening?, if_neg (hne _ (by decide)), if_neg (hne _ (by decide)), if_neg (hne _ (by decide)),
    if_neg (hne _ (by decide)), if_neg (hne _ (by decide)), if_neg (hne _ (by decide)),
    if_neg (hne _ (by decide)), if_neg (hne _ (by decide)), if_neg (hne _ (by decide)), hdigit]

/-- Python's `strip` knows more whitespace than JSON.  In front of a document
only the JSON blanks are harmless. -/
theorem blank_of_loads {l : Limits} {pad rest : Str} {v : Json}
    (hpad : ∀ c ∈ pad, isSpace c = true) (h : loads l (pad ++ rest) = .ok v) : Blank pad := by
  have hrun : ∀ (s : Str), (∀ c ∈ s, isSpace c = true) → ∀ st,
      run l ⟨[], .value false⟩ (s ++ rest) = .ok st → Blank s := by
    intro s
    induction s with
    | nil =>
      intro _ st _ c hc
      cases hc
    | cons c s ih =>
      intro hs st hst
      rw [List.forall_mem_cons] at hs
      by_cases hc : isJsonSpace c = true
      · have hstep : step l ⟨[], .value false⟩ c = .ok ⟨[], .value false⟩ := by
          simp only [step, if_pos hc]
        rw [List.cons_append, run_cons_ok hstep] at hst
        exact List.forall_mem_cons.mpr ⟨hc, ih hs.2 st hst⟩
      · have hstep : step l ⟨[], .value false⟩ c = .error expectingValue := by
          simp [step, hc, openValue, opening?_of_isSpace hs.1]
        rw [List.cons_append, run_cons, hstep] at hst
        cases hst
  unfold loads at h
  split_ifs at h
  cases hr : run l ⟨[], .value false⟩ (pad ++ rest) with
  | error e => rw [hr] at h; cases h
  | ok st => exact hrun pad hpad st hr

end DevRepro.Python
