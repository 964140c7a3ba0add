import DevRepro.Python.Text

/-!
# JSON values as Python objects

`Json` is the type of what `json.loads` returns: `None`, `bool`, `int`,
`float`, `str`, `list` and `dict`.  A `dict` is the list of its items in
insertion order, and `dictSet` is item assignment.

The module also holds the built-in operations that the program applies to such
a value: truth, `str()`, `int()`, `.get` and subscription, each with the
exception it raises.  An `Exc` is a raised exception, with its class and its
text.

What CPython leaves to its build is the structure `Runtime`: the recursion
budgets of `json.loads` and `json.dumps`, the digit limit of an integer
conversion, and `repr` of the values whose text the program never inspects.
-/

namespace DevRepro.Python

/-! ## Exceptions -/

/-- The exception classes that some handler of the program tells apart. -/
inductive ExcType where
  | jsonDecodeError
  | valueError
  | unicodeEncodeError
  | unicodeDecodeError
  | keyError
  | typeError
  | attributeError
  | overflowError
  | recursionError
  | integrityError
  | other (name : Str)
  deriving DecidableEq

/-- `type(exc).__name__`. -/
def ExcType.name : ExcType → Str
  | .jsonDecodeError => "JSONDecodeError"
  | .valueError => "ValueError"
  | .unicodeEncodeError => "UnicodeEncodeError"
  | .unicodeDecodeError => "UnicodeDecodeError"
  | .keyError => "KeyError"
  | .typeError => "TypeError"
  | .attributeError => "AttributeError"
  | .overflowError => "OverflowError"
  | .recursionError => "RecursionError"
  | .integrityError => "IntegrityError"
  | .other name => name

/-- Whether `except ValueError` catches the class. -/
def ExcType.isValueError : ExcType → Bool
  | .jsonDecodeError | .valueError | .unicodeEncodeError | .unicodeDecodeError => true
  | _ => false

/-- A raised exception.  For `JSONDecodeError` the text is `exc.msg`. -/
structure Exc where
  type : ExcType
  text : Str
  deriving DecidableEq

/-- A sequence of two calls returns when both do. -/
theorem bind_eq_ok {ε α β : Type} {x : Except ε α} {f : α → Except ε β} {b : β} :
    x >>= f = .ok b ↔ ∃ a, x = .ok a ∧ f a = .ok b := by
  cases x with
  | error e => exact ⟨fun h => (by cases h), fun ⟨a, ha, _⟩ => (by cases ha)⟩
  | ok a => exact ⟨fun h => ⟨a, rfl, h⟩, fun ⟨_, ha, hf⟩ => (by cases ha; exact hf)⟩

theorem pure_eq_ok {ε α : Type} {a b : α} : (pure a : Except ε α) = .ok b ↔ a = b :=
  ⟨fun h => (by cases h; rfl), fun h => congrArg Except.ok h⟩

/-! ## Floats -/

/-- An IEEE double.  A finite one is `mantissa * 2 ^ exponent` with a sign. -/
inductive PyFloat where
  | nan
  | inf (negative : Bool)
  | finite (negative : Bool) (mantissa : Nat) (exponent : Int)
  deriving DecidableEq

namespace PyFloat

/-- `x != 0.0`. -/
def truthy : PyFloat → Bool
  | finite _ mantissa _ => mantissa != 0
  | _ => true

/-- `int(x)`: truncation towards zero. -/
def toInt : PyFloat → Except Exc Int
  | nan => .error ⟨.valueError, "cannot convert float NaN to integer"⟩
  | inf _ => .error ⟨.overflowError, "cannot convert float infinity to integer"⟩
  | finite negative mantissa exponent =>
    let size : Nat :=
      if 0 ≤ exponent then mantissa * 2 ^ exponent.toNat else mantissa / 2 ^ (-exponent).toNat
    .ok (if negative then -(size : Int) else size)

/-- `n / d` rounded to the nearest integer, ties to even. -/
def roundHalfEven (n d : Nat) : Nat :=
  let q := n / d
  let r := n % d
  if d < 2 * r ∨ (2 * r = d ∧ q % 2 = 1) then q + 1 else q

/-- `float("<digits>e<exp10>")`: the double nearest to the decimal number. -/
def ofDecimal (negative : Bool) (digits : Nat) (exp10 : Int) : PyFloat :=
  if digits = 0 then finite negative 0 0
  else
    let num := if 0 ≤ exp10 then digits * 10 ^ exp10.toNat else digits
    let den := if 0 ≤ exp10 then 1 else 10 ^ (-exp10).toNat
    let order : Int := (num.log2 : Int) - den.log2
    -- `num / den` lies between `2 ^ (order - 1)` and `2 ^ (order + 1)`
    let below : Bool :=
      if 0 ≤ order then num < den * 2 ^ order.toNat else num * 2 ^ (-order).toNat < den
    let exponent : Int := max (order - (if below then 53 else 52)) (-1074)
    let mantissa :=
      if 0 ≤ exponent then roundHalfEven num (den * 2 ^ exponent.toNat)
      else roundHalfEven (num * 2 ^ (-exponent).toNat) den
    if 971 < exponent ∨ (exponent = 971 ∧ 2 ^ 53 ≤ mantissa) then inf negative
    else finite negative mantissa exponent

end PyFloat

/-! ## Values -/

/-- A value that `json.loads` can return. -/
inductive Json where
  | null
  | bool (b : Bool)
  | int (n : Int)
  | float (x : PyFloat)
  | str (s : Str)
  | arr (elems : List Json)
  | obj (fields : List (Str × Json))

/-- `d[key] = value`: a key that is present keeps its place. -/
def dictSet (key : Str) (value : Json) : List (Str × Json) → List (Str × Json)
  | [] => [(key, value)]
  | (k, v) :: rest => if k = key then (key, value) :: rest else (k, v) :: dictSet key value rest

/-- The `dict` of a list of items: a later item replaces an earlier one. -/
def dictOf (items : List (Str × Json)) : List (Str × Json) :=
  items.foldl (fun fields item => dictSet item.1 item.2 fields) []

/-- `d.get(key)`. -/
def dictGet? (fields : List (Str × Json)) (key : Str) : Option Json :=
  (fields.find? fun item => item.1 = key).map Prod.snd

theorem dictSet_of_not_mem {key : Str} (value : Json) {fields : List (Str × Json)}
    (h : key ∉ fields.map Prod.fst) : dictSet key value fields = fields ++ [(key, value)] := by
  induction fields with
  | nil => rfl
  | cons item rest ih =>
    obtain ⟨k, v⟩ := item
    rw [List.map_cons, List.mem_cons, not_or] at h
    rw [dictSet, if_neg (Ne.symm h.1), ih h.2, List.cons_append]

/-- Items with distinct keys are a `dict` as they stand. -/
theorem dictOf_of_nodup {items : List (Str × Json)} (h : (items.map Prod.fst).Nodup) :
    dictOf items = items := by
  have haux : ∀ (rest done : List (Str × Json)), ((done ++ rest).map Prod.fst).Nodup →
      rest.foldl (fun fields item => dictSet item.1 item.2 fields) done = done ++ rest := by
    intro rest
    induction rest with
    | nil => intro done _; simp
    | cons item rest ih =>
      intro done hnodup
      have hnot : item.1 ∉ done.map Prod.fst := by
        rw [List.map_append, List.map_cons, List.nodup_append] at hnodup
        intro hmem
        exact hnodup.2.2 _ hmem _ (by simp) rfl
      rw [List.foldl_cons, dictSet_of_not_mem _ hnot, ih (done ++ [item]) (by simpa using hnodup)]
      simp
  simpa [dictOf] using haux items [] (by simpa using h)

/-- An item of the assigned `dict` is the new one or was there before. -/
theorem mem_dictSet {key : Str} {value : Json} {fields : List (Str × Json)} {item : Str × Json}
    (h : item ∈ dictSet key value fields) : item = (key, value) ∨ item ∈ fields := by
  induction fields with
  | nil => exact Or.inl (by simpa [dictSet] using h)
  | cons head rest ih =>
    obtain ⟨k, v⟩ := head
    rw [dictSet] at h
    split_ifs at h with hk
    · rcases List.mem_cons.mp h with hitem | hitem
      · exact Or.inl hitem
      · exact Or.inr (List.mem_cons_of_mem _ hitem)
    · rcases List.mem_cons.mp h with hitem | hitem
      · exact Or.inr (hitem ▸ List.mem_cons_self)
      · exact (ih hitem).imp_right (List.mem_cons_of_mem _)

/-- Building a `dict` invents no item. -/
theorem mem_dictOf {items : List (Str × Json)} {item : Str × Json} (h : item ∈ dictOf items) :
    item ∈ items := by
  have haux : ∀ (rest done : List (Str × Json)),
      item ∈ rest.foldl (fun fields item => dictSet item.1 item.2 fields) done →
      item ∈ done ∨ item ∈ rest := by
    intro rest
    induction rest with
    | nil => intro done hmem; exact Or.inl hmem
    | cons head rest ih =>
      intro done hmem
      rcases ih _ hmem with hdone | hrest
      · rcases mem_dictSet hdone with heq | hdone
        · exact Or.inr (heq ▸ List.mem_cons_self)
        · exact Or.inl hdone
      · exact Or.inr (List.mem_cons_of_mem _ hrest)
  simpa using haux items [] h

theorem mem_of_dictGet? {fields : List (Str × Json)} {key : Str} {value : Json}
    (h : dictGet? fields key = some value) : (key, value) ∈ fields := by
  rw [dictGet?, Option.map_eq_some_iff] at h
  obtain ⟨⟨k, v⟩, hfind, hv⟩ := h
  have hk : k = key := by simpa using List.find?_some hfind
  have hmem := List.mem_of_find?_eq_some hfind
  rwa [hk, show v = value from hv] at hmem

theorem dictGet?_eq_none {fields : List (Str × Json)} {key : Str} :
    dictGet? fields key = none ↔ key ∉ fields.map Prod.fst := by
  rw [dictGet?, Option.map_eq_none_iff, List.find?_eq_none, List.mem_map]
  constructor
  · intro h ⟨item, hitem, hkey⟩
    exact h item hitem (by simpa using hkey)
  · intro h item hitem hkey
    exact h ⟨item, hitem, by simpa using hkey⟩

theorem dictGet?_dictSet_self (key : Str) (value : Json) (fields : List (Str × Json)) :
    dictGet? (dictSet key value fields) key = some value := by
  induction fields with
  | nil => simp [dictSet, dictGet?]
  | cons item rest ih =>
    rw [dictSet]
    split_ifs with hkey
    · simp [dictGet?]
    · rw [dictGet?, List.find?_cons_of_neg (by simpa using hkey)]
      exact ih

theorem dictGet?_dictSet_of_ne {key other : Str} (h : other ≠ key) (value : Json)
    (fields : List (Str × Json)) :
    dictGet? (dictSet key value fields) other = dictGet? fields other := by
  induction fields with
  | nil => simp [dictSet, dictGet?, Ne.symm h]
  | cons item rest ih =>
    rw [dictSet]
    split_ifs with hkey
    · have hitem : item.1 ≠ other := fun hother => h (hother.symm.trans hkey)
      rw [dictGet?, dictGet?, List.find?_cons_of_neg (by simpa using Ne.symm h),
        List.find?_cons_of_neg (by simpa using hitem)]
    · by_cases hother : item.1 = other
      · simp [dictGet?, hother]
      · rw [dictGet?, dictGet?, List.find?_cons_of_neg (by simpa using hother),
          List.find?_cons_of_neg (by simpa using hother)]
        exact ih

namespace Json

/-- `type(value).__name__`. -/
def typeName : Json → Str
  | null => "NoneType"
  | bool _ => "bool"
  | int _ => "int"
  | float _ => "float"
  | str _ => "str"
  | arr _ => "list"
  | obj _ => "dict"

/-- `bool(value)`. -/
def truthy : Json → Bool
  | null => false
  | bool b => b
  | int n => n != 0
  | float x => x.truthy
  | str s => s != []
  | arr elems => !elems.isEmpty
  | obj fields => !fields.isEmpty

/-- `value or default`. -/
def orElse (value default : Json) : Json := if value.truthy then value else default

/-- `value.get(key)`, which only a `dict` has; `None` when the key is absent. -/
def get? (value : Json) (key : Str) : Except Exc (Option Json) :=
  match value with
  | obj fields => .ok (dictGet? fields key)
  | _ => .error ⟨.attributeError, lit "'" ++ value.typeName ++ lit "' object has no attribute 'get'"⟩

/-- `value.get(key, default)`. -/
def getD (value : Json) (key : Str) (default : Json) : Except Exc Json :=
  (value.get? key).map fun found => found.getD default

/-- `value[key]` for a string key. -/
def getItem (value : Json) (key : Str) : Except Exc Json :=
  match value with
  | obj fields =>
    match dictGet? fields key with
    | some v => .ok v
    | none => .error ⟨.keyError, lit "'" ++ key ++ lit "'"⟩
  | arr _ => .error ⟨.typeError, "list indices must be integers or slices, not str"⟩
  | str _ => .error ⟨.typeError, "string indices must be integers, not 'str'"⟩
  | _ => .error ⟨.typeError, lit "'" ++ value.typeName ++ lit "' object is not subscriptable"⟩

end Json

/-! ## The interpreter -/

/-- The budgets of one `json.loads` call: how many containers may be open at
once before `RecursionError`, and how many digits an integer may have before
`ValueError`. -/
structure Limits where
  depth : Nat
  intDigits : Nat

/-- A string in which no high surrogate stands directly before a low one.
`json.loads` joins such a pair, and the printer never makes one. -/
def WellPaired (s : Str) : Prop :=
  s.IsChain fun c d => ¬(isHighSurrogate c = true ∧ isLowSurrogate d = true)

instance (s : Str) : Decidable (WellPaired s) :=
  inferInstanceAs (Decidable (s.IsChain fun c d => ¬(isHighSurrogate c = true ∧ isLowSurrogate d = true)))

/-- What the program takes from the interpreter it runs on. -/
structure Runtime where
  limits : Limits
  /-- At least one container can be opened. -/
  depth_pos : 0 < limits.depth
  /-- The few that the program nests on its own account can be opened as well. -/
  depth_ge : 16 ≤ limits.depth
  /-- The lowest digit limit that CPython accepts. -/
  intDigits_ge : 640 ≤ limits.intDigits
  /-- How many containers `json.dumps` may open before `RecursionError`, without
  and with an indent. -/
  dumpsDepth : Option Nat → Nat
  /-- The few that the program nests on its own account are within it. -/
  dumpsDepth_ge : ∀ indent, 16 ≤ dumpsDepth indent
  /-- `float.__repr__`. -/
  floatRepr : PyFloat → Str
  /-- `repr` of a string, as an f-string's `!r` writes it. -/
  strRepr : Str → Str
  /-- `str()` of a `list` or a `dict`; `none` stands for `RecursionError`. -/
  containerStr : Json → Option Str
  floatRepr_printable : ∀ x, ∀ c ∈ floatRepr x, isPrintableAscii c = true
  /-- `repr` escapes surrogates, so its text has no pair of them. -/
  containerStr_wellPaired : ∀ v s, containerStr v = some s → WellPaired s

/-- CPython's default budgets, for evaluation on values without floats and
containers: their `repr` is left blank. -/
def Runtime.standard : Runtime where
  limits := ⟨1000, 4300⟩
  depth_pos := by decide
  depth_ge := by decide
  intDigits_ge := by decide
  dumpsDepth := fun _ => 1000
  dumpsDepth_ge := by simp
  floatRepr := fun _ => []
  strRepr := fun s => lit "'" ++ s ++ lit "'"
  containerStr := fun _ => none
  floatRepr_printable := by simp
  containerStr_wellPaired := by simp

/-- `str(n)` for a natural number. -/
def natStr (n : Nat) : Str := (Nat.toDigits 10 n).map codePoint

/-- `str(n)` for an integer. -/
def intStr (n : Int) : Str := if n < 0 then codePoint '-' :: natStr n.natAbs else natStr n.natAbs

/-- Whether the conversion of an integer to text stays within the digit limit. -/
def fitsDigits (limits : Limits) (n : Int) : Bool := (natStr n.natAbs).length ≤ limits.intDigits

theorem fitsDigits_of_length (rt : Runtime) {n : Int} (h : (natStr n.natAbs).length ≤ 640) :
    fitsDigits rt.limits n = true :=
  decide_eq_true (Nat.le_trans h rt.intDigits_ge)

/-- The `ValueError` of an integer that has too many digits. -/
def digitsError : Exc := ⟨.valueError, "Exceeds the limit for integer string conversion"⟩

/-- `str(value)`. -/
def Json.toStr (rt : Runtime) (value : Json) : Except Exc Str :=
  match value with
  | null => .ok "None"
  | bool true => .ok "True"
  | bool false => .ok "False"
  | int n => if fitsDigits rt.limits n then .ok (intStr n) else .error digitsError
  | float x => .ok (rt.floatRepr x)
  | str s => .ok s
  | arr _ | obj _ =>
    match rt.containerStr value with
    | some s => .ok s
    | none => .error ⟨.recursionError, "maximum recursion depth exceeded"⟩

/-! ## `int()` -/

/-- The zeros of the decimal digit runs of Unicode.  Every decimal digit lies
at most nine places after one of them. -/
def decimalZeros : List Nat :=
  [0x30, 0x660, 0x6F0, 0x7C0, 0x966, 0x9E6, 0xA66, 0xAE6, 0xB66, 0xBE6, 0xC66, 0xCE6, 0xD66,
    0xDE6, 0xE50, 0xED0, 0xF20, 0x1040, 0x1090, 0x17E0, 0x1810, 0x1946, 0x19D0, 0x1A80, 0x1A90,
    0x1B50, 0x1BB0, 0x1C40, 0x1C50, 0xA620, 0xA8D0, 0xA900, 0xA9D0, 0xA9F0, 0xAA50, 0xABF0,
    0xFF10, 0x104A0, 0x10D30, 0x11066, 0x110F0, 0x11136, 0x111D0, 0x112F0, 0x11450, 0x114D0,
    0x11650, 0x116C0, 0x11730, 0x118E0, 0x11950, 0x11C50, 0x11D50, 0x11DA0, 0x16A60, 0x16AC0,
    0x16B50, 0x1D7CE, 0x1D7D8, 0x1D7E2, 0x1D7EC, 0x1D7F6, 0x1E140, 0x1E2F0, 0x1E950, 0x1FBF0]

/-- The value of a decimal digit of any script. -/
def digitValue? (c : CodePoint) : Option Nat :=
  (decimalZeros.find? fun start => start ≤ c.val && c.val ≤ start + 9).map fun start => c.val - start

/-- The digits of an integer literal.  `afterDigit` tells whether the last
character was a digit, as an underscore must stand between two digits. -/
def intLiteralDigits (afterDigit : Bool) : Str → Option (List Nat)
  | [] => if afterDigit then some [] else none
  | c :: rest =>
    match digitValue? c with
    | some d => (intLiteralDigits true rest).map (d :: ·)
    | none => if c = codePoint '_' ∧ afterDigit then intLiteralDigits false rest else none

/-- `int(s)` for a string. -/
def intOfStr (limits : Limits) (s : Str) : Except Exc Int :=
  let text := strip s
  let negative : Bool := text.head? = some (codePoint '-')
  let body :=
    if text.head? = some (codePoint '-') ∨ text.head? = some (codePoint '+') then text.tail else text
  match intLiteralDigits false body with
  | none => .error ⟨.valueError, "invalid literal for int() with base 10"⟩
  | some digits =>
    if limits.intDigits < digits.length then .error digitsError
    else
      let n : Nat := digits.foldl (fun acc d => acc * 10 + d) 0
      .ok (if negative then -(n : Int) else n)

/-- `int(value)`. -/
def Json.toInt (rt : Runtime) (value : Json) : Except Exc Int :=
  match value with
  | bool b => .ok (if b then 1 else 0)
  | int n => .ok n
  | float x => x.toInt
  | str s => intOfStr rt.limits s
  | null | arr _ | obj _ =>
    .error ⟨.typeError,
      lit "int() argument must be a string, a bytes-like object or a real number, not '" ++
        value.typeName ++ lit "'"⟩

end DevRepro.Python
