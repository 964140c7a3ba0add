import DevRepro.Project.TomlReader
import DevRepro.Python.Words

/-!
# Layouts of a TOML text

A TOML document as it is written.  A `LaidValue` is a value with its quotes, spaces, newlines and
comments, and a `LaidStatement` is a statement with what stands around it; `text` is the text, and
`payload` the document that `tomllib` makes of its statements.
-/

namespace DevRepro.Project

open DevRepro.Python DevRepro.Lib

/-! ## Between the words -/

/-- Spaces within a line. -/
def Spaces := { s : Str // ∀ c ∈ s, isTomlSpace c = true }

/-- What stands behind a `#`. -/
def Comment := { s : Str // ∀ c ∈ s, isIllegal c = false }

def commentText : Option Comment → Str
  | none => []
  | some comment => codePoint '#' :: comment.val

/-- Spaces, newlines and comments. -/
inductive IsGap : Str → Prop where
  | nil : IsGap []
  | space {c : CodePoint} {s : Str} (space : isTomlSpace c = true) (rest : IsGap s) : IsGap (c :: s)
  | newline {s : Str} (rest : IsGap s) : IsGap (codePoint '\n' :: s)
  | comment (comment : Comment) {s : Str} (rest : IsGap s) :
      IsGap (codePoint '#' :: (comment.val ++ codePoint '\n' :: s))

/-- What may stand between the parts of an array. -/
def Gap := { s : Str // IsGap s }

/-! ## Words -/

def isTomlQuote (c : CodePoint) : Bool := c == codePoint '"' || c == 0x27

/-- A string on one line, with its quotes. -/
structure Quoted where
  text : Str
  content : Str
  quote : text.head?.any isTomlQuote = true
  reads : readKeyPart text = some (content, [])
  one_line : codePoint '\n' ∉ text

/-- `parse_basic_str(…, multiline=True)`, between the quotes. -/
def readMultiBasic : Nat → Str → Option Str
  | 0, _ => none
  | _ + 1, [] => some []
  | fuel + 1, c :: rest =>
    if c = codePoint '\\' then
      if startsWith (skipSpace rest) "\n" then
        readMultiBasic fuel (rest.dropWhile fun c => isTomlSpace c || isNewline c)
      else do
        let (d, rest) ← readEscape rest
        let s ← readMultiBasic fuel rest
        return d :: s
    else if startsWith (c :: rest) "\"\"\"" || (isIllegal c && !isNewline c) then none
    else (readMultiBasic fuel rest).map (c :: ·)

/-- `parse_multiline_str`, between the quotes: a newline at the start does not count. -/
def readMulti (literal : Bool) (raw : Str) : Option Str :=
  let body := if startsWith raw "\n" then raw.tail else raw
  if literal then
    if containsText body "'''" || body.any (fun c => isIllegal c && !isNewline c) then none else some body
  else readMultiBasic (body.length + 1) body

/-- A string of several lines. -/
structure Multi where
  literal : Bool
  raw : Str
  content : Str
  reads : readMulti literal raw = some content

/-- The quote of a string of several lines. -/
def Multi.mark (m : Multi) : CodePoint := if m.literal then 0x27 else codePoint '"'

def Multi.quotes (m : Multi) : Str := [m.mark, m.mark, m.mark]

def Multi.text (m : Multi) : Str := m.quotes ++ (m.raw ++ m.quotes)

/-- A boolean, a number or a date. -/
structure Scalar where
  text : Str
  value : Toml
  word : text ∈ [lit "true", lit "false", lit "inf", lit "nan"] ∨
    text.head?.any (fun c => decide (c ∈ lit "+-0123456789")) = true
  one_line : codePoint '\n' ∉ text

/-- A part of a key. -/
inductive KeyPart where
  | bare (name : Str) (isBare : BareKey name)
  | quoted (q : Quoted)

namespace KeyPart

def text : KeyPart → Str
  | bare name _ => name
  | quoted q => q.text

def name : KeyPart → Str
  | bare name _ => name
  | quoted q => q.content

end KeyPart

/-- The parts of a key, and the spaces before and behind each dot. -/
structure LaidKey where
  first : KeyPart
  rest : List (Spaces × Spaces × KeyPart)

namespace LaidKey

def restText (rest : List (Spaces × Spaces × KeyPart)) : Str :=
  rest.flatMap fun (before, behind, part) => before.val ++ codePoint '.' :: (behind.val ++ part.text)

def text (key : LaidKey) : Str := key.first.text ++ restText key.rest

def names (key : LaidKey) : List Str := key.first.name :: key.rest.map fun part => part.2.2.name

end LaidKey

/-! ## Values -/

mutual

inductive LaidValue where
  | scalar (s : Scalar)
  | quoted (q : Quoted)
  | multi (m : Multi)
  | array (items : LaidItems)
  | inline (pairs : LaidPairs)

/-- What stands behind a `[`. -/
inductive LaidItems where
  | close (gap : Gap)
  | last (before : Gap) (value : LaidValue) (behind : Gap)
  | more (before : Gap) (value : LaidValue) (behind : Gap) (rest : LaidItems)

/-- What stands behind a `{`. -/
inductive LaidPairs where
  | close (space : Spaces)
  | last (before : Spaces) (key : LaidKey) (left right : Spaces) (value : LaidValue) (behind : Spaces)
  | more (before : Spaces) (key : LaidKey) (left right : Spaces) (value : LaidValue) (behind : Spaces)
      (rest : LaidPairs)

end

mutual

def LaidValue.text : LaidValue → Str
  | .scalar s => s.text
  | .quoted q => q.text
  | .multi m => m.text
  | .array items => codePoint '[' :: items.text
  | .inline pairs => codePoint '{' :: pairs.text

def LaidItems.text : LaidItems → Str
  | .close gap => gap.val ++ [codePoint ']']
  | .last before value behind => before.val ++ (value.text ++ (behind.val ++ [codePoint ']']))
  | .more before value behind rest =>
    before.val ++ (value.text ++ (behind.val ++ codePoint ',' :: rest.text))

def LaidPairs.text : LaidPairs → Str
  | .close space => space.val ++ [codePoint '}']
  | .last before key left right value behind =>
    before.val ++ (key.text ++ (left.val ++ codePoint '=' :: (right.val ++ (value.text ++
      (behind.val ++ [codePoint '}'])))))
  | .more before key left right value behind rest =>
    before.val ++ (key.text ++ (left.val ++ codePoint '=' :: (right.val ++ (value.text ++
      (behind.val ++ codePoint ',' :: rest.text)))))

end

/-- `nest[key] = value`, for a key with dots. -/
def addAt (names : List Str) (value : Toml) (nest : Document) : Option Document :=
  names.getLast?.bind fun stem => nestAt (addNew stem value) names.dropLast nest

mutual

/-- The value that is written. -/
def LaidValue.toml : LaidValue → Option Toml
  | .scalar s => some s.value
  | .quoted q => some (.str q.content)
  | .multi m => some (.str m.content)
  | .array items => items.elems.map .arr
  | .inline pairs => (pairs.fields []).map .table

def LaidItems.elems : LaidItems → Option (List Toml)
  | .close _ => some []
  | .last _ value _ => value.toml.map fun elem => [elem]
  | .more _ value _ rest => value.toml.bind fun elem => rest.elems.map (elem :: ·)

def LaidPairs.fields : LaidPairs → Document → Option Document
  | .close _, nest => some nest
  | .last _ key _ _ value _, nest => value.toml.bind fun value => addAt key.names value nest
  | .more _ key _ _ value _ rest, nest =>
    value.toml.bind fun value => (addAt key.names value nest).bind rest.fields

end

/-! ## Documents -/

/-- A statement with its line, or with its lines where a value goes on. -/
inductive LaidStatement where
  | blank (indent : Spaces) (comment : Option Comment)
  | entry (indent : Spaces) (key : LaidKey) (left right : Spaces) (value : LaidValue) (behind : Spaces)
      (comment : Option Comment)
  | opens (indent left : Spaces) (key : LaidKey) (right behind : Spaces) (comment : Option Comment)
  | appends (indent left : Spaces) (key : LaidKey) (right behind : Spaces) (comment : Option Comment)

namespace LaidStatement

def text : LaidStatement → Str
  | blank indent comment => indent.val ++ commentText comment
  | entry indent key left right value behind comment =>
    indent.val ++ (key.text ++ (left.val ++ codePoint '=' :: (right.val ++ (value.text ++
      (behind.val ++ commentText comment)))))
  | opens indent left key right behind comment =>
    indent.val ++ codePoint '[' :: (left.val ++ (key.text ++ (right.val ++ codePoint ']' ::
      (behind.val ++ commentText comment))))
  | appends indent left key right behind comment =>
    indent.val ++ codePoint '[' :: codePoint '[' :: (left.val ++ (key.text ++ (right.val ++
      codePoint ']' :: codePoint ']' :: (behind.val ++ commentText comment))))

def statements : LaidStatement → Option (List TomlStatement)
  | blank _ _ => some []
  | entry _ key _ _ value _ _ => value.toml.map fun value => [.entry key.names value]
  | opens _ _ key _ _ _ => some [.opens key.names]
  | appends _ _ key _ _ _ => some [.appends key.names]

end LaidStatement

/-- A document, line by line. -/
abbrev LaidDocument := List LaidStatement

namespace LaidDocument

def text (doc : LaidDocument) : Str := join "\n" (doc.map LaidStatement.text)

/-- What `tomllib.loads` makes of it. -/
def payload (doc : LaidDocument) : Option Document :=
  (doc.mapM LaidStatement.statements).bind fun statements => documentOf statements.flatten

end LaidDocument

end DevRepro.Project
