import DevRepro.Python.JsonBudget

/-!
# `json.dumps`

The encoder with `ensure_ascii`, in the layouts that the program asks for: a
`DumpStyle` fixes the blanks behind a comma and a colon, the indent, and
whether keys are sorted.  `dumpText` is the text and `dumpError` the
exception that the encoder meets first, so `dumps` is the one unless there is
the other.

Two facts about the text carry the rest of the development.

* It is printable ASCII (`dumpText_printable`), so a record is one line of a
  file and its UTF-8 encoding is the text itself.
* It reads back (`loads_dumpText`).  `Readable` names the values for which
  this holds: no float, no surrogate pair that the decoder would join, no
  key twice, and nothing beyond the budgets.  Two readable values with the
  same text are therefore equal.
-/

namespace DevRepro.Python

/-! ## Layout -/

/-- The keyword arguments of `json.dumps`: the blanks behind a comma and
behind a colon, the indent, and whether keys are sorted. -/
structure DumpStyle where
  itemPad : Nat
  keyPad : Nat
  indent : Option Nat
  sortKeys : Bool

namespace DumpStyle

/-- `json.dumps(value)`. -/
def plain : DumpStyle := ⟨1, 1, none, false⟩

/-- `json.dumps(value, sort_keys=True)`. -/
def sorted : DumpStyle := ⟨1, 1, none, true⟩

/-- `json.dumps(value, sort_keys=True, separators=(",", ":"))`. -/
def compact : DumpStyle := ⟨0, 0, none, true⟩

/-- `json.dumps(value, indent=n)`. -/
def indented (n : Nat) : DumpStyle := ⟨0, 1, some n, false⟩

/-- The line break before an item of a container at a depth. -/
def newline (style : DumpStyle) (level : Nat) : Str :=
  match style.indent with
  | none => []
  | some n => codePoint '\n' :: List.replicate (n * level) (codePoint ' ')

/-- What stands between two items. -/
def separator (style : DumpStyle) (level : Nat) : Str :=
  codePoint ',' :: List.replicate style.itemPad (codePoint ' ') ++ style.newline level

/-- What stands between a key and its value. -/
def colon (style : DumpStyle) : Str :=
  codePoint ':' :: List.replicate style.keyPad (codePoint ' ')

end DumpStyle

/-! ## Strings -/

/-- A lower-case hexadecimal digit. -/
def hexChar (n : Nat) : CodePoint := codePoint (Nat.digitChar n)

/-- `\uXXXX`. -/
def escapeUnit (n : Nat) : Str :=
  [codePoint '\\', codePoint 'u', hexChar (n / 0x1000 % 16), hexChar (n / 0x100 % 16),
    hexChar (n / 0x10 % 16), hexChar (n % 16)]

/-- The text of one character between the quotes. -/
def escapeChar (c : CodePoint) : Str :=
  if c = codePoint '"' then [codePoint '\\', c]
  else if c = codePoint '\\' then [codePoint '\\', c]
  else if isPrintableAscii c then [c]
  else if c = 0x08 then [codePoint '\\', codePoint 'b']
  else if c = 0x09 then [codePoint '\\', codePoint 't']
  else if c = 0x0A then [codePoint '\\', codePoint 'n']
  else if c = 0x0C then [codePoint '\\', codePoint 'f']
  else if c = 0x0D then [codePoint '\\', codePoint 'r']
  else if c.val < 0x10000 then escapeUnit c.val
  else
    escapeUnit (0xD800 + (c.val - 0x10000) / 0x400) ++
      escapeUnit (0xDC00 + (c.val - 0x10000) % 0x400)

/-- A string literal. -/
def quote (s : Str) : Str := codePoint '"' :: s.flatMap escapeChar ++ [codePoint '"']

/-! ## Keys in order -/

/-- `s <= t` on strings. -/
def strLe : Str → Str → Bool
  | [], _ => true
  | _ :: _, [] => false
  | c :: s, d :: t => decide (c < d) || (decide (c = d) && strLe s t)

/-- An item put before the first one with a greater key. -/
def insertByKey {α : Type} (item : Str × α) : List (Str × α) → List (Str × α)
  | [] => [item]
  | head :: rest =>
    if strLe item.1 head.1 then item :: head :: rest else head :: insertByKey item rest

/-- `sorted(items)` for items with distinct keys. -/
def sortByKey {α : Type} (items : List (Str × α)) : List (Str × α) := items.foldr insertByKey []

mutual
/-- The value with the keys of every object in order. -/
def Json.sortKeys : Json → Json
  | .arr elems => .arr (sortElems elems)
  | .obj fields => .obj (sortByKey (sortItems fields))
  | .null => .null
  | .bool b => .bool b
  | .int n => .int n
  | .float x => .float x
  | .str s => .str s
def sortElems : List Json → List Json
  | [] => []
  | v :: rest => v.sortKeys :: sortElems rest
def sortItems : List (Str × Json) → List (Str × Json)
  | [] => []
  | (k, v) :: rest => (k, v.sortKeys) :: sortItems rest
end

/-! ## The text -/

/-- `float.__repr__`, with the names that JSON readers know for the special
values. -/
def floatText (rt : Runtime) : PyFloat → Str
  | .nan => "NaN"
  | .inf false => "Infinity"
  | .inf true => "-Infinity"
  | .finite negative mantissa exponent => rt.floatRepr (.finite negative mantissa exponent)

section Text

variable (rt : Runtime) (style : DumpStyle)

mutual
/-- The text of a value at a depth, in the order its items have. -/
def dumpText (level : Nat) : Json → Str
  | .null => "null"
  | .bool true => "true"
  | .bool false => "false"
  | .int n => intStr n
  | .float x => floatText rt x
  | .str s => quote s
  | .arr [] => "[]"
  | .arr (v :: rest) =>
    codePoint '[' :: style.newline (level + 1) ++ dumpText (level + 1) v ++
      dumpElems (level + 1) rest ++ style.newline level ++ [codePoint ']']
  | .obj [] => "{}"
  | .obj ((k, v) :: rest) =>
    codePoint '{' :: style.newline (level + 1) ++ quote k ++ style.colon ++
      dumpText (level + 1) v ++ dumpItems (level + 1) rest ++ style.newline level ++
      [codePoint '}']
/-- The elements behind the first one. -/
def dumpElems (level : Nat) : List Json → Str
  | [] => []
  | v :: rest => style.separator level ++ dumpText level v ++ dumpElems level rest
/-- The items behind the first one. -/
def dumpItems (level : Nat) : List (Str × Json) → Str
  | [] => []
  | (k, v) :: rest =>
    style.separator level ++ quote k ++ style.colon ++ dumpText level v ++ dumpItems level rest
end

/-! ## The exceptions -/

/-- The exception of nesting beyond the budget. -/
def dumpRecursionError : Exc :=
  ⟨.recursionError, "maximum recursion depth exceeded while encoding a JSON object"⟩

mutual
/-- The exception that the encoder raises for a value inside `level` open
containers. -/
def dumpError (level : Nat) : Json → Option Exc
  | .int n => if fitsDigits rt.limits n then none else some digitsError
  | .arr elems =>
    if level < rt.dumpsDepth style.indent then dumpErrorElems (level + 1) elems
    else some dumpRecursionError
  | .obj fields =>
    if level < rt.dumpsDepth style.indent then dumpErrorItems (level + 1) fields
    else some dumpRecursionError
  | .null | .bool _ | .float _ | .str _ => none
def dumpErrorElems (level : Nat) : List Json → Option Exc
  | [] => none
  | v :: rest => (dumpError level v).or (dumpErrorElems level rest)
def dumpErrorItems (level : Nat) : List (Str × Json) → Option Exc
  | [] => none
  | (_, v) :: rest => (dumpError level v).or (dumpErrorItems level rest)
end

/-- The value with its keys in the order of the style. -/
def DumpStyle.order (value : Json) : Json := if style.sortKeys then value.sortKeys else value

/-- `json.dumps(value)` in a style. -/
def dumps (value : Json) : Except Exc Str :=
  match dumpError rt style 0 (style.order value) with
  | some e => .error e
  | none => .ok (dumpText rt style 0 (style.order value))

theorem dumps_ok {rt style} {value : Json} {text : Str} (h : dumps rt style value = .ok text) :
    dumpError rt style 0 (style.order value) = none ∧
      text = dumpText rt style 0 (style.order value) := by
  unfold dumps at h
  split at h
  · cases h
  · rename_i he
    exact ⟨he, by simpa using h.symm⟩

theorem dumps_of_no_error {rt style} {value : Json}
    (h : dumpError rt style 0 (style.order value) = none) :
    dumps rt style value = .ok (dumpText rt style 0 (style.order value)) := by
  rw [dumps, h]

end Text

/-! ## Induction on a value -/

/-- Induction on a value, with the hypothesis for every element and for the
value of every item. -/
theorem Json.induct {P : Json → Prop} (null : P .null) (bool : ∀ b, P (.bool b))
    (int : ∀ n, P (.int n)) (float : ∀ x, P (.float x)) (str : ∀ s, P (.str s))
    (arr : ∀ elems, (∀ v ∈ elems, P v) → P (.arr elems))
    (obj : ∀ fields, (∀ item ∈ fields, P item.2) → P (.obj fields)) (v : Json) : P v := by
  refine @Json.rec P (fun elems => ∀ v ∈ elems, P v) (fun fields => ∀ item ∈ fields, P item.2)
    (fun item => P item.2) null bool int float str arr obj ?_ ?_ ?_ ?_ ?_ v
  · intro v hv
    cases hv
  · intro v rest hv hrest w hw
    rcases List.mem_cons.mp hw with rfl | hw
    · exact hv
    · exact hrest w hw
  · intro item hitem
    cases hitem
  · intro item rest hitem hrest other hother
    rcases List.mem_cons.mp hother with rfl | hother
    · exact hitem
    · exact hrest other hother
  · intro k v hv
    exact hv

/-! ## Values that fit the budgets -/

/-- At most `n` containers are open at once, and every integer is as `P` says. -/
def Json.Shallow (P : Int → Prop) : Nat → Json → Prop
  | _, .int n => P n
  | 0, .arr _ | 0, .obj _ => False
  | depth + 1, .arr elems => ∀ v ∈ elems, v.Shallow P depth
  | depth + 1, .obj fields => ∀ item ∈ fields, item.2.Shallow P depth
  | _, .null | _, .bool _ | _, .float _ | _, .str _ => True

section Fits

variable {rt : Runtime} {style : DumpStyle} {level : Nat}

theorem dumpErrorElems_eq_none {elems : List Json} :
    dumpErrorElems rt style level elems = none ↔
      ∀ v ∈ elems, dumpError rt style level v = none := by
  induction elems with
  | nil => simp [dumpErrorElems]
  | cons v rest ih => rw [dumpErrorElems, Option.or_eq_none_iff, ih, List.forall_mem_cons]

theorem dumpErrorItems_eq_none {fields : List (Str × Json)} :
    dumpErrorItems rt style level fields = none ↔
      ∀ item ∈ fields, dumpError rt style level item.2 = none := by
  induction fields with
  | nil => simp [dumpErrorItems]
  | cons item rest ih => rw [dumpErrorItems, Option.or_eq_none_iff, ih, List.forall_mem_cons]

/-- An object is written when there is room for it and its values are. -/
theorem dumpError_obj_eq_none {fields : List (Str × Json)} :
    dumpError rt style level (.obj fields) = none ↔
      level < rt.dumpsDepth style.indent ∧
        ∀ item ∈ fields, dumpError rt style (level + 1) item.2 = none := by
  rw [dumpError, ← dumpErrorItems_eq_none]
  split_ifs with hroom
  · simp [hroom]
  · simp [hroom]

theorem dumpError_arr_eq_none {elems : List Json} :
    dumpError rt style level (.arr elems) = none ↔
      level < rt.dumpsDepth style.indent ∧
        ∀ v ∈ elems, dumpError rt style (level + 1) v = none := by
  rw [dumpError, ← dumpErrorElems_eq_none]
  split_ifs with hroom
  · simp [hroom]
  · simp [hroom]

theorem dumpError_int_eq_none {n : Int} :
    dumpError rt style level (.int n) = none ↔ fitsDigits rt.limits n = true := by
  simp [dumpError]

/-- A shallow value with short integers is written. -/
theorem dumpError_of_shallow {v : Json} {depth : Nat}
    (h : v.Shallow (fun n => fitsDigits rt.limits n = true) depth)
    (hroom : level + depth ≤ rt.dumpsDepth style.indent) : dumpError rt style level v = none := by
  induction v using Json.induct generalizing level depth with
  | null | bool | float | str => rfl
  | int n =>
    rw [dumpError_int_eq_none]
    cases depth with
    | zero => exact h
    | succ depth => exact h
  | arr elems ih =>
    cases depth with
    | zero => exact h.elim
    | succ depth =>
      rw [dumpError_arr_eq_none]
      exact ⟨by omega, fun v hv => ih v hv (h v hv) (by omega)⟩
  | obj fields ih =>
    cases depth with
    | zero => exact h.elim
    | succ depth =>
      rw [dumpError_obj_eq_none]
      exact ⟨by omega, fun item hitem => ih item hitem (h item hitem) (by omega)⟩

/-- A value that is written somewhere has short integers. -/
theorem shallow_of_dumpError {v : Json} {depth : Nat} (hdump : dumpError rt style level v = none)
    (h : v.Shallow (fun _ => True) depth) :
    v.Shallow (fun n => fitsDigits rt.limits n = true) depth := by
  induction v using Json.induct generalizing level depth with
  | null | bool | float | str =>
    cases depth with
    | zero => trivial
    | succ depth => trivial
  | int n =>
    rw [dumpError_int_eq_none] at hdump
    cases depth with
    | zero => exact hdump
    | succ depth => exact hdump
  | arr elems ih =>
    cases depth with
    | zero => exact h.elim
    | succ depth =>
      rw [dumpError_arr_eq_none] at hdump
      exact fun v hv => ih v hv (hdump.2 v hv) (h v hv)
  | obj fields ih =>
    cases depth with
    | zero => exact h.elim
    | succ depth =>
      rw [dumpError_obj_eq_none] at hdump
      exact fun item hitem => ih item hitem (hdump.2 item hitem) (h item hitem)

end Fits

/-! ## Digits -/

/-- A decimal digit. -/
def digit (d : Nat) : CodePoint := codePoint (Nat.digitChar d)

theorem natStr_of_lt {n : Nat} (h : n < 10) : natStr n = [digit n] := by
  rw [natStr, Nat.toDigits_of_lt_base h]
  rfl

theorem natStr_of_le {n : Nat} (h : 10 ≤ n) : natStr n = natStr (n / 10) ++ [digit (n % 10)] := by
  rw [natStr, Nat.toDigits_of_base_le (by decide) h, List.map_append]
  rfl

theorem digit_printable {d : Nat} (h : d < 16) : isPrintableAscii (digit d) = true := by
  have hall : ∀ d < 16, isPrintableAscii (digit d) = true := by decide
  exact hall d h

theorem natStr_printable (n : Nat) : ∀ c ∈ natStr n, isPrintableAscii c = true := by
  induction n using Nat.strongRecOn with
  | ind n ih =>
    intro c hc
    rcases Nat.lt_or_ge n 10 with hlt | hge
    · rw [natStr_of_lt hlt, List.mem_singleton] at hc
      rw [hc]
      exact digit_printable (by omega)
    · rw [natStr_of_le hge, List.mem_append, List.mem_singleton] at hc
      rcases hc with hc | rfl
      · exact ih (n / 10) (by omega) c hc
      · exact digit_printable (by omega)

theorem intStr_printable (n : Int) : ∀ c ∈ intStr n, isPrintableAscii c = true := by
  intro c hc
  rw [intStr] at hc
  split_ifs at hc
  · rcases List.mem_cons.mp hc with rfl | hc
    · decide
    · exact natStr_printable _ c hc
  · exact natStr_printable _ c hc

/-! ## The text is printable ASCII -/

/-- A text of printable ASCII characters. -/
def PrintableText (s : Str) : Prop := ∀ c ∈ s, isPrintableAscii c = true

instance (s : Str) : Decidable (PrintableText s) :=
  decidable_of_iff (s.all isPrintableAscii = true) List.all_eq_true

@[simp] theorem printableText_nil : PrintableText [] := by
  intro c hc
  cases hc

@[simp] theorem printableText_cons (c : CodePoint) (s : Str) :
    PrintableText (c :: s) ↔ isPrintableAscii c = true ∧ PrintableText s := by
  simp [PrintableText]

@[simp] theorem printableText_append (s t : Str) :
    PrintableText (s ++ t) ↔ PrintableText s ∧ PrintableText t := by
  simp [PrintableText, or_imp, forall_and]

theorem escapeUnit_printable (n : Nat) : PrintableText (escapeUnit n) := by
  have hhex : ∀ m, isPrintableAscii (hexChar (m % 16)) = true := fun m =>
    digit_printable (Nat.mod_lt m (by decide))
  simp only [escapeUnit, printableText_cons, hhex, printableText_nil, and_true]
  decide

theorem escapeChar_printable (c : CodePoint) : PrintableText (escapeChar c) := by
  rw [escapeChar]
  split_ifs with h1 h2 h3
  · rw [h1]
    decide
  · rw [h2]
    decide
  · simpa using h3
  all_goals first
    | exact escapeUnit_printable _
    | exact (printableText_append _ _).mpr ⟨escapeUnit_printable _, escapeUnit_printable _⟩
    | decide

theorem quote_printable (s : Str) : PrintableText (quote s) := by
  have hquote : isPrintableAscii (codePoint '"') = true := by decide
  have hbody : PrintableText (s.flatMap escapeChar) := by
    intro c hc
    obtain ⟨d, _, hd⟩ := List.mem_flatMap.mp hc
    exact escapeChar_printable d c hd
  simp [quote, hquote, hbody]

theorem floatText_printable (rt : Runtime) (x : PyFloat) : PrintableText (floatText rt x) := by
  unfold floatText
  split
  · decide
  · decide
  · decide
  · exact rt.floatRepr_printable _

section Each

variable (rt : Runtime) {style : DumpStyle}

theorem replicate_space_printable (n : Nat) :
    PrintableText (List.replicate n (codePoint ' ')) := by
  intro c hc
  rw [List.eq_of_mem_replicate hc]
  decide

theorem colon_printable : PrintableText style.colon := by
  have hcolon : isPrintableAscii (codePoint ':') = true := by decide
  simp [DumpStyle.colon, hcolon, replicate_space_printable]

/-! What holds of printable characters and of the line breaks of a style holds
of every character of a text. -/

variable {P : CodePoint → Prop} (hprint : ∀ c, isPrintableAscii c = true → P c)
  (hbreak : ∀ level, ∀ c ∈ style.newline level, P c)

include hprint hbreak

theorem separator_each (level : Nat) : ∀ c ∈ style.separator level, P c := by
  intro c hc
  rw [DumpStyle.separator, List.mem_append, List.mem_cons] at hc
  rcases hc with (rfl | hc) | hc
  · exact hprint _ (by decide)
  · exact hprint c (replicate_space_printable _ c hc)
  · exact hbreak level c hc

theorem dumpElems_each {elems : List Json} (level : Nat)
    (helems : ∀ v ∈ elems, ∀ c ∈ dumpText rt style level v, P c) :
    ∀ c ∈ dumpElems rt style level elems, P c := by
  induction elems with
  | nil => simp [dumpElems]
  | cons v rest ih =>
    rw [List.forall_mem_cons] at helems
    intro c hc
    rw [dumpElems, List.mem_append, List.mem_append] at hc
    rcases hc with (hc | hc) | hc
    · exact separator_each hprint hbreak level c hc
    · exact helems.1 c hc
    · exact ih helems.2 c hc

theorem dumpItems_each {fields : List (Str × Json)} (level : Nat)
    (hfields : ∀ item ∈ fields, ∀ c ∈ dumpText rt style level item.2, P c) :
    ∀ c ∈ dumpItems rt style level fields, P c := by
  induction fields with
  | nil => simp [dumpItems]
  | cons item rest ih =>
    rw [List.forall_mem_cons] at hfields
    intro c hc
    simp only [dumpItems, List.mem_append] at hc
    rcases hc with (((hc | hc) | hc) | hc) | hc
    · exact separator_each hprint hbreak level c hc
    · exact hprint c (quote_printable item.1 c hc)
    · exact hprint c (colon_printable c hc)
    · exact hfields.1 c hc
    · exact ih hfields.2 c hc

theorem dumpText_each (v : Json) (level : Nat) : ∀ c ∈ dumpText rt style level v, P c := by
  induction v using Json.induct generalizing level with
  | null => exact fun c hc => hprint c ((by decide : PrintableText (lit "null")) c hc)
  | bool b =>
    cases b with
    | true => exact fun c hc => hprint c ((by decide : PrintableText (lit "true")) c hc)
    | false => exact fun c hc => hprint c ((by decide : PrintableText (lit "false")) c hc)
  | int n => exact fun c hc => hprint c (intStr_printable n c hc)
  | float x => exact fun c hc => hprint c (floatText_printable rt x c hc)
  | str s => exact fun c hc => hprint c (quote_printable s c hc)
  | arr elems ih =>
    cases elems with
    | nil => exact fun c hc => hprint c ((by decide : PrintableText (lit "[]")) c hc)
    | cons v rest =>
      rw [List.forall_mem_cons] at ih
      intro c hc
      simp only [dumpText, List.mem_cons, List.mem_append, List.not_mem_nil, or_false] at hc
      rcases hc with ((((rfl | hc) | hc) | hc) | hc) | rfl
      · exact hprint _ (by decide)
      · exact hbreak (level + 1) c hc
      · exact ih.1 (level + 1) c hc
      · exact dumpElems_each rt hprint hbreak (level + 1) (fun w hw => ih.2 w hw (level + 1)) c hc
      · exact hbreak level c hc
      · exact hprint _ (by decide)
  | obj fields ih =>
    cases fields with
    | nil => exact fun c hc => hprint c ((by decide : PrintableText (lit "\x7b\x7d")) c hc)
    | cons item rest =>
      rw [List.forall_mem_cons] at ih
      intro c hc
      simp only [dumpText, List.mem_cons, List.mem_append, List.not_mem_nil, or_false] at hc
      rcases hc with ((((((rfl | hc) | hc) | hc) | hc) | hc) | hc) | rfl
      · exact hprint _ (by decide)
      · exact hbreak (level + 1) c hc
      · exact hprint c (quote_printable item.1 c hc)
      · exact hprint c (colon_printable c hc)
      · exact ih.1 (level + 1) c hc
      · exact dumpItems_each rt hprint hbreak (level + 1) (fun w hw => ih.2 w hw (level + 1)) c hc
      · exact hbreak level c hc
      · exact hprint _ (by decide)

end Each

section Printable

variable (rt : Runtime) {style : DumpStyle} (h : style.indent = none)

include h

theorem newline_printable (level : Nat) : PrintableText (style.newline level) := by
  rw [DumpStyle.newline, h]
  exact printableText_nil

/-- Without an indent the text is one line of printable ASCII. -/
theorem dumpText_printable (v : Json) (level : Nat) :
    PrintableText (dumpText rt style level v) :=
  dumpText_each rt (fun _ hc => hc) (newline_printable h) v level

theorem dumps_printable {value : Json} {text : Str} (hd : dumps rt style value = .ok text) :
    PrintableText text := by
  rw [(dumps_ok hd).2]
  exact dumpText_printable rt h _ 0

end Printable

/-- A character of a text in any style. -/
def isDumpChar (c : CodePoint) : Bool := isPrintableAscii c || c == codePoint '\n'

/-- The text in any style is ASCII. -/
theorem dumpText_isDumpChar (rt : Runtime) (style : DumpStyle) (v : Json) (level : Nat) :
    ∀ c ∈ dumpText rt style level v, isDumpChar c = true := by
  apply dumpText_each
  · intro c hc
    rw [isDumpChar, hc]
    rfl
  · intro deep c hc
    rw [DumpStyle.newline] at hc
    split at hc
    · cases hc
    · rcases List.mem_cons.mp hc with rfl | hc
      · decide
      · rw [List.eq_of_mem_replicate hc]
        decide

end DevRepro.Python
