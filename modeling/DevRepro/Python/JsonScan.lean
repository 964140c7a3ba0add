import DevRepro.Python.Json

/-!
# `json.loads`

The decoder as a machine that reads one character at a time.  `State` is a
stack of open containers and the mode of the innermost one, `step` reads a
character, `finish` answers at the end of the text, and `loads` runs the two.
The errors are the messages of CPython 3.11.  A number is only known to be
complete when the next character comes, and a number that CPython's pattern
matches in part, as in `1.`, leaves its rest as the next thing to read.

Two budgets of the interpreter end a run with an exception that is not a
`JSONDecodeError`: the nesting depth, checked when a container opens, and the
number of digits of an integer, checked when it ends.
-/

namespace DevRepro.Python

namespace Scan

/-! ## States -/

/-- Where the scanner stands inside a backslash escape. -/
inductive Escape where
  | none
  | slash
  | hex (value left : Nat)

/-- What a string literal is for: a value, or the key of the next item of an
object that holds `done`, last item first. -/
inductive Role where
  | value
  | key (done : List (Str × Json))

/-- A string literal being read: its characters so far, last first, and
whether the last one came from a `\u` escape. -/
structure Text where
  role : Role
  acc : Str
  unit : Bool
  escape : Escape

/-- How much of the number pattern has been read.  The flag of the exponent
phases tells whether a fraction came before. -/
inductive Phase where
  | minus
  | zero
  | int
  | dot
  | frac
  | exp (frac : Bool)
  | expSign (frac : Bool)
  | expDigits
  deriving DecidableEq

/-- A number being read: the digits of the integer part and the fraction as
one natural number, the length of each part, and the exponent. -/
structure Number where
  phase : Phase
  negative : Bool
  digits : Nat
  intLength : Nat
  fracLength : Nat
  expNegative : Bool
  exp : Nat

/-- The words that stand for a value. -/
inductive Word where
  | null
  | true
  | false
  | nan
  | infinity (negative : Bool)

def Word.value : Word → Json
  | .null => .null
  | .true => .bool Bool.true
  | .false => .bool Bool.false
  | .nan => .float .nan
  | .infinity negative => .float (.inf negative)

/-- A container that waits for the value being read. -/
inductive Frame where
  | arr (done : List Json)
  | member (done : List (Str × Json)) (key : Str)

inductive Mode where
  /-- A value is due; `first` holds just after `[`. -/
  | value (first : Bool)
  /-- A property name is due; `first` holds just after the opening brace. -/
  | key (first : Bool) (done : List (Str × Json))
  | colon (done : List (Str × Json)) (key : Str)
  /-- A value has just ended. -/
  | after (v : Json)
  /-- Inside a word, of which `rest` is still to come. -/
  | word (rest : Str) (w : Word)
  | number (n : Number)
  | text (t : Text)

structure State where
  stack : List Frame
  mode : Mode

/-! ## Errors -/

def decodeError (msg : Str) : Exc := ⟨.jsonDecodeError, msg⟩

def expectingValue : Exc := decodeError "Expecting value"
def expectingName : Exc := decodeError "Expecting property name enclosed in double quotes"
def expectingColon : Exc := decodeError "Expecting ':' delimiter"
def unterminatedText : Exc := decodeError "Unterminated string starting at"
def invalidUnit : Exc := decodeError "Invalid \\uXXXX escape"
def extraData : Exc := decodeError "Extra data"

/-- The error for a character that cannot follow a complete value. -/
def delimiterError : List Frame → Exc
  | [] => extraData
  | _ :: _ => decodeError "Expecting ',' delimiter"

def recursionError : Exc :=
  ⟨.recursionError, "maximum recursion depth exceeded while decoding a JSON value"⟩

/-! ## Characters -/

/-- The whitespace of JSON. -/
def isJsonSpace (c : CodePoint) : Bool :=
  c == codePoint ' ' || c == codePoint '\t' || c == codePoint '\n' || c == codePoint '\r'

def asciiDigit? (c : CodePoint) : Option Nat :=
  if 0x30 ≤ c.val ∧ c.val ≤ 0x39 then some (c.val - 0x30) else none

def hexDigit? (c : CodePoint) : Option Nat :=
  if 0x30 ≤ c.val ∧ c.val ≤ 0x39 then some (c.val - 0x30)
  else if 0x61 ≤ c.val ∧ c.val ≤ 0x66 then some (c.val - 0x61 + 10)
  else if 0x41 ≤ c.val ∧ c.val ≤ 0x46 then some (c.val - 0x41 + 10)
  else none

/-- The character of a one-letter escape. -/
def simpleEscape? (c : CodePoint) : Option CodePoint :=
  if c = codePoint '"' then some c
  else if c = codePoint '\\' then some c
  else if c = codePoint '/' then some c
  else if c = codePoint 'b' then some 0x08
  else if c = codePoint 'f' then some 0x0C
  else if c = codePoint 'n' then some 0x0A
  else if c = codePoint 'r' then some 0x0D
  else if c = codePoint 't' then some 0x09
  else none

/-- The code point of a `\u` unit. -/
def unitPoint (n : Nat) : CodePoint := Fin.ofNat 0x110000 n

/-- The code point that a surrogate pair stands for. -/
def joinPair (high low : CodePoint) : CodePoint :=
  Fin.ofNat 0x110000 (0x10000 + (high.val - 0xD800) * 0x400 + (low.val - 0xDC00))

/-! ## Numbers -/

/-- The number with one more character, when the pattern goes on. -/
def Number.next (n : Number) (c : CodePoint) : Option Number :=
  let point := c = codePoint '.'
  let e := c = codePoint 'e' ∨ c = codePoint 'E'
  match n.phase, asciiDigit? c with
  | .minus, some 0 => some { n with phase := .zero, intLength := 1 }
  | .minus, some d => some { n with phase := .int, digits := d, intLength := 1 }
  | .minus, none => none
  | .zero, _ =>
    if point then some { n with phase := .dot }
    else if e then some { n with phase := .exp false }
    else none
  | .int, some d =>
    some { n with digits := n.digits * 10 + d, intLength := n.intLength + 1 }
  | .int, none =>
    if point then some { n with phase := .dot }
    else if e then some { n with phase := .exp false }
    else none
  | .dot, some d =>
    some { n with phase := .frac, digits := n.digits * 10 + d, fracLength := 1 }
  | .dot, none => none
  | .frac, some d =>
    some { n with digits := n.digits * 10 + d, fracLength := n.fracLength + 1 }
  | .frac, none => if e then some { n with phase := .exp true } else none
  | .exp _, some d => some { n with phase := .expDigits, exp := d }
  | .exp frac, none =>
    if c = codePoint '-' then some { n with phase := .expSign frac, expNegative := true }
    else if c = codePoint '+' then some { n with phase := .expSign frac }
    else none
  | .expSign _, some d => some { n with phase := .expDigits, exp := d }
  | .expSign _, none => none
  | .expDigits, some d => some { n with exp := n.exp * 10 + d }
  | .expDigits, none => none

/-- The integer read so far. -/
def Number.toInt (limits : Limits) (n : Number) : Except Exc Json :=
  if limits.intDigits < n.intLength then .error digitsError
  else .ok (.int (if n.negative then -(n.digits : Int) else n.digits))

/-- The float read so far. -/
def Number.toFloat (n : Number) : Json :=
  .float (.ofDecimal n.negative n.digits
    ((if n.expNegative then -(n.exp : Int) else n.exp) - n.fracLength))

/-- The number that the pattern has matched: a dot or an exponent mark
without digits behind it is not part of it. -/
def Number.value (limits : Limits) (n : Number) : Except Exc Json :=
  match n.phase with
  | .minus => .error expectingValue
  | .zero | .int | .dot | .exp false | .expSign false => n.toInt limits
  | .frac | .exp true | .expDigits => .ok n.toFloat
  | .expSign true => .ok { n with expNegative := false }.toFloat

/-- Whether the pattern has read characters that are not part of the number. -/
def Phase.leftover : Phase → Bool
  | .dot | .exp _ | .expSign _ => true
  | _ => false

/-! ## One character -/

/-- What the first character of a value begins. -/
inductive Opening where
  | text
  | arr
  | obj
  | word (rest : Str) (w : Word)
  | number (n : Number)

def opening? (c : CodePoint) : Option Opening :=
  if c = codePoint '"' then some .text
  else if c = codePoint '[' then some .arr
  else if c = codePoint '{' then some .obj
  else if c = codePoint 'n' then some (.word "ull" .null)
  else if c = codePoint 't' then some (.word "rue" .true)
  else if c = codePoint 'f' then some (.word "alse" .false)
  else if c = codePoint 'N' then some (.word "aN" .nan)
  else if c = codePoint 'I' then some (.word "nfinity" (.infinity false))
  else if c = codePoint '-' then some (.number ⟨.minus, true, 0, 0, 0, false, 0⟩)
  else
    match asciiDigit? c with
    | some 0 => some (.number ⟨.zero, false, 0, 1, 0, false, 0⟩)
    | some d => some (.number ⟨.int, false, d, 1, 0, false, 0⟩)
    | none => none

/-- A character of a value that has not begun. -/
def openValue (limits : Limits) (stack : List Frame) (c : CodePoint) : Except Exc State :=
  match opening? c with
  | some .text => .ok ⟨stack, .text ⟨.value, [], false, .none⟩⟩
  | some .arr =>
    if stack.length < limits.depth then .ok ⟨.arr [] :: stack, .value true⟩
    else .error recursionError
  | some .obj =>
    if stack.length < limits.depth then .ok ⟨stack, .key true []⟩ else .error recursionError
  | some (.word rest w) => .ok ⟨stack, .word rest w⟩
  | some (.number n) => .ok ⟨stack, .number n⟩
  | none => .error expectingValue

/-- A character other than a blank, behind a complete value. -/
def afterValue (stack : List Frame) (v : Json) (c : CodePoint) : Except Exc State :=
  match stack with
  | [] => .error extraData
  | .arr done :: rest =>
    if c = codePoint ',' then .ok ⟨.arr (v :: done) :: rest, .value false⟩
    else if c = codePoint ']' then .ok ⟨rest, .after (.arr (v :: done).reverse)⟩
    else .error (delimiterError stack)
  | .member done key :: rest =>
    if c = codePoint ',' then .ok ⟨rest, .key false ((key, v) :: done)⟩
    else if c = codePoint '}' then .ok ⟨rest, .after (.obj (dictOf ((key, v) :: done).reverse))⟩
    else .error (delimiterError stack)

/-- Any character behind a complete value. -/
def settle (stack : List Frame) (v : Json) (c : CodePoint) : Except Exc State :=
  if isJsonSpace c then .ok ⟨stack, .after v⟩ else afterValue stack v c

/-- A character that does not continue the number before it. -/
def endNumber (limits : Limits) (stack : List Frame) (n : Number) (c : CodePoint) :
    Except Exc State :=
  if n.phase = .minus ∧ c = codePoint 'I' then
    .ok ⟨stack, .word "nfinity" (.infinity true)⟩
  else
    match n.value limits with
    | .error e => .error e
    | .ok v => if n.phase.leftover then .error (delimiterError stack) else settle stack v c

/-- The state behind the closing quote. -/
def closeText (stack : List Frame) (t : Text) : State :=
  match t.role with
  | .value => ⟨stack, .after (.str t.acc.reverse)⟩
  | .key done => ⟨stack, .colon done t.acc.reverse⟩

/-- The text with one more `\u` unit.  A low surrogate behind a high one that
was itself a unit makes one character with it. -/
def Text.addUnit (t : Text) (n : Nat) : Text :=
  match t.acc with
  | high :: acc =>
    if t.unit && isHighSurrogate high && isLowSurrogate (unitPoint n) then
      { t with acc := joinPair high (unitPoint n) :: acc, unit := false, escape := .none }
    else { t with acc := unitPoint n :: t.acc, unit := true, escape := .none }
  | [] => { t with acc := [unitPoint n], unit := true, escape := .none }

/-- A character inside a string literal. -/
def stepText (stack : List Frame) (t : Text) (c : CodePoint) : Except Exc State :=
  match t.escape with
  | .none =>
    if c = codePoint '"' then .ok (closeText stack t)
    else if c = codePoint '\\' then .ok ⟨stack, .text { t with escape := .slash }⟩
    else if c.val ≤ 0x1F then .error (decodeError "Invalid control character at")
    else .ok ⟨stack, .text { t with acc := c :: t.acc, unit := false }⟩
  | .slash =>
    if c = codePoint 'u' then .ok ⟨stack, .text { t with escape := .hex 0 4 }⟩
    else
      match simpleEscape? c with
      | some d => .ok ⟨stack, .text { t with acc := d :: t.acc, unit := false, escape := .none }⟩
      | none => .error (decodeError "Invalid \\escape")
  | .hex value left =>
    match hexDigit? c with
    | none => .error invalidUnit
    | some d =>
      if left ≤ 1 then .ok ⟨stack, .text (t.addUnit (value * 16 + d))⟩
      else .ok ⟨stack, .text { t with escape := .hex (value * 16 + d) (left - 1) }⟩

/-- One character. -/
def step (limits : Limits) (st : State) (c : CodePoint) : Except Exc State :=
  match st.mode with
  | .value first =>
    if isJsonSpace c then .ok st
    else if first ∧ c = codePoint ']' then .ok ⟨st.stack.tail, .after (.arr [])⟩
    else openValue limits st.stack c
  | .key first done =>
    if isJsonSpace c then .ok st
    else if c = codePoint '"' then .ok ⟨st.stack, .text ⟨.key done, [], false, .none⟩⟩
    else if first ∧ c = codePoint '}' then .ok ⟨st.stack, .after (.obj [])⟩
    else .error expectingName
  | .colon done key =>
    if isJsonSpace c then .ok st
    else if c = codePoint ':' then .ok ⟨.member done key :: st.stack, .value false⟩
    else .error expectingColon
  | .after v => settle st.stack v c
  | .word [] w => settle st.stack w.value c
  | .word (d :: rest) w =>
    if c = d then .ok ⟨st.stack, .word rest w⟩ else .error expectingValue
  | .number n =>
    match n.next c with
    | some n' => .ok ⟨st.stack, .number n'⟩
    | none => endNumber limits st.stack n c
  | .text t => stepText st.stack t c

/-- The answer when a value is complete and no text is left. -/
def finishValue (stack : List Frame) (v : Json) : Except Exc Json :=
  match stack with
  | [] => .ok v
  | _ :: _ => .error (delimiterError stack)

/-- The answer at the end of the text. -/
def finish (limits : Limits) (st : State) : Except Exc Json :=
  match st.mode with
  | .value _ => .error expectingValue
  | .key _ _ => .error expectingName
  | .colon _ _ => .error expectingColon
  | .after v => finishValue st.stack v
  | .word [] w => finishValue st.stack w.value
  | .word (_ :: _) _ => .error expectingValue
  | .number n =>
    match n.value limits with
    | .error e => .error e
    | .ok v => if n.phase.leftover then .error (delimiterError st.stack) else finishValue st.stack v
  | .text t =>
    match t.escape with
    | .none => .error (if t.unit then invalidUnit else unterminatedText)
    | .slash => .error unterminatedText
    | .hex _ _ => .error invalidUnit

/-- A text read from a state on. -/
def run (limits : Limits) (st : State) (text : Str) : Except Exc State :=
  text.foldlM (step limits) st

end Scan

open Scan

/-- `json.loads(text)`. -/
def loads (limits : Limits) (text : Str) : Except Exc Json :=
  if text.head? = some 0xFEFF then
    .error (decodeError "Unexpected UTF-8 BOM (decode using utf-8-sig)")
  else
    match run limits ⟨[], .value false⟩ text with
    | .error e => .error e
    | .ok st => finish limits st

end DevRepro.Python
