import DevRepro.Lib.Escapes
import DevRepro.Lib.Markup
import DevRepro.Privacy.Gate

/-!
# XML documents

A reader of XML 1.0 documents, as far as a serializer of elements with attributes
and text writes them.  `readXml` gives the tags of a well-formed document: its
characters are XML characters, each tag is closed and has a form, each `&` starts a
reference, the elements are nested, and there is one root.

A tag is read back (`readTag_rawTag`) when its names are names and its values have
no quotation mark and no stray `&`.
-/

namespace DevRepro.Reports

open DevRepro.Python DevRepro.Lib
open DevRepro.Privacy (isLetter isAlnum)

/-! ## Characters -/

/-- `Char` of XML 1.0. -/
def isXmlChar (c : CodePoint) : Bool :=
  c.val == 0x9 || c.val == 0xA || c.val == 0xD || (0x20 ≤ c.val && c.val ≤ 0xD7FF) ||
    (0xE000 ≤ c.val && c.val ≤ 0xFFFD) || 0x10000 ≤ c.val

def isXmlSpace (c : CodePoint) : Bool :=
  c.val == 0x20 || c.val == 0x9 || c.val == 0xD || c.val == 0xA

/-- `NameStartChar`, of ASCII. -/
def isNameStart (c : CodePoint) : Bool := isLetter c || c == codePoint '_' || c == codePoint ':'

/-- `NameChar`, of ASCII. -/
def isNameChar (c : CodePoint) : Bool :=
  isNameStart c || isAlnum c || c == codePoint '-' || c == codePoint '.'

/-- `Name`, of ASCII. -/
def isName : Str → Bool
  | [] => false
  | c :: rest => isNameStart c && rest.all isNameChar

/-! ## References -/

/-- The references that a reader knows. -/
def xmlReferences : Escapes CodePoint where
  mark := codePoint '&'
  table := [(codePoint '&', "amp;"), (codePoint '<', "lt;"), (codePoint '>', "gt;"),
    (codePoint '"', "quot;"), (codePoint '\r', "#13;"), (codePoint '\n', "#10;"),
    (codePoint '\t', "#09;")]

/-- Each `&` starts a reference. -/
def referencesOk : Str → Bool
  | [] => true
  | c :: rest =>
    (c != xmlReferences.mark || (xmlReferences.next? rest).isSome) && referencesOk rest

/-- The text of an element: `]]>` does not occur in it, since `>` does not. -/
def legalText (text : Str) : Bool := referencesOk text && !text.contains (codePoint '>')

/-! ## Tags -/

inductive XmlTag where
  | declaration
  | start (name : Str) (attrs : List (Str × Str))
  | empty (name : Str) (attrs : List (Str × Str))
  | close (name : Str)

/-- `<?xml version='1.0' encoding='utf-8'?>` without its brackets. -/
def xmlDeclaration : Str := "?xml version='1.0' encoding='utf-8'?"

/-- Attributes, with the values as they are written. -/
def rawAttrs (attrs : List (Str × Str)) : Str :=
  attrs.flatMap fun a => lit " " ++ (a.1 ++ (lit "=\"" ++ (a.2 ++ lit "\"")))

/-- A tag without its brackets, with the values as they are written. -/
def rawTag : XmlTag → Str
  | .declaration => xmlDeclaration
  | .start name attrs => name ++ rawAttrs attrs
  | .empty name attrs => name ++ (rawAttrs attrs ++ lit " /")
  | .close name => lit "/" ++ name

/-- The name of an attribute, between a space and an equals sign. -/
def readKey : Str → Option Str
  | [] => none
  | c :: rest =>
    if isXmlSpace c && rest.getLast? == some (codePoint '=') && isName rest.dropLast then
      some rest.dropLast
    else none

/-- The parts of a tag between its quotation marks, behind its name: the attributes, and whether
the element is empty. -/
def readAttrs : List Str → Option (List (Str × Str) × Bool)
  | [] => none
  | [last] => if last = [] then some ([], false) else if last = lit " /" then some ([], true) else none
  | part :: value :: rest =>
    match readKey part, readAttrs rest with
    | some key, some (attrs, isEmpty) =>
      if referencesOk value then some ((key, value) :: attrs, isEmpty) else none
    | _, _ => none

def isQuote (c : CodePoint) : Bool := c == codePoint '"'

/-- A tag, read. -/
def readTag (tag : Str) : Option XmlTag :=
  if tag = xmlDeclaration then some .declaration
  else
    match tag with
    | [] => none
    | c :: rest =>
      if c = codePoint '/' then if isName rest then some (.close rest) else none
      else
        let name := (c :: rest).takeWhile fun d => !isXmlSpace d
        match readAttrs (linesOf isQuote ((c :: rest).dropWhile fun d => !isXmlSpace d)) with
        | some (attrs, isEmpty) =>
          if isName name && decide (attrs.map Prod.fst).Nodup then
            some (if isEmpty then .empty name attrs else .start name attrs)
          else none
        | none => none

/-! ## Documents -/

/-- The tags behind the start of an element, inside the elements that are open. -/
def content : List Str → List XmlTag → Bool
  | [], rest => rest.isEmpty
  | _ :: _, [] => false
  | stack@(_ :: _), .start name _ :: rest => content (name :: stack) rest
  | stack@(_ :: _), .empty _ _ :: rest => content stack rest
  | top :: stack, .close name :: rest => name == top && content stack rest
  | _ :: _, .declaration :: _ => false

/-- A declaration and one root element. -/
def wellNested : List XmlTag → Bool
  | [.declaration, .empty _ _] => true
  | .declaration :: .start name _ :: rest => content [name] rest
  | _ => false

/-- White space. -/
def isBlank (text : Str) : Bool := text.all isXmlSpace

/-- The tags of a well-formed document. -/
def readXml (doc : Str) : Option (List XmlTag) :=
  let items := readMarkup (codePoint '<') (codePoint '>') doc
  let outside := [(items.head?.map Prod.snd).getD [], (items.getLast?.map Prod.snd).getD []]
  if doc.all isXmlChar && (firstLine (fun c => decide (c = codePoint '<')) doc).isEmpty &&
      (tagParts (codePoint '<') doc).all (fun part => part.contains (codePoint '>')) &&
      items.all (fun item => legalText item.2) && outside.all isBlank then
    match (items.map Prod.fst).mapM readTag with
    | some tags => if wellNested tags then some tags else none
    | none => none
  else none

/-- The attributes of the elements with some name, in the order of the document. -/
def elements (name : Str) (tags : List XmlTag) : List (List (Str × Str)) :=
  tags.filterMap fun
    | .start n attrs => if n = name then some attrs else none
    | .empty n attrs => if n = name then some attrs else none
    | _ => none

/-- The value of an attribute, as it is written. -/
def attr? (key : Str) (attrs : List (Str × Str)) : Option Str :=
  (attrs.find? fun a => a.1 = key).map Prod.snd

/-! ## Reading a tag back -/

/-- A value that can stand between quotation marks. -/
def PlainValue (value : Str) : Prop := codePoint '"' ∉ value ∧ referencesOk value = true

/-- A name, and attributes that can be written. -/
structure PlainElement (name : Str) (attrs : List (Str × Str)) : Prop where
  name : isName name = true
  keys : ∀ a ∈ attrs, isName a.1 = true
  nodup : (attrs.map Prod.fst).Nodup
  values : ∀ a ∈ attrs, PlainValue a.2

theorem isName_no {c : CodePoint} {name : Str} (hc : isNameChar c = false) (h : isName name = true) :
    c ∉ name := by
  cases name with
  | nil => exact List.not_mem_nil
  | cons d rest =>
    rw [isName, Bool.and_eq_true] at h
    rintro hin
    rcases List.mem_cons.mp hin with rfl | hin
    · rw [isNameChar, h.1] at hc
      exact absurd hc (by simp)
    · rw [List.all_eq_true.mp h.2 c hin] at hc
      exact absurd hc (by decide)

theorem isName_no_space {name : Str} (h : isName name = true) : ∀ c ∈ name, isXmlSpace c = false := by
  intro c hc
  refine eq_false_of_ne_true fun hspace => ?_
  have hnot : isNameChar c = false := by
    simp only [isXmlSpace, Bool.or_eq_true, beq_iff_eq] at hspace
    have hcases : c = codePoint ' ' ∨ c = codePoint '\t' ∨ c = codePoint '\r' ∨ c = codePoint '\n' := by
      rcases hspace with ((hval | hval) | hval) | hval
      · exact Or.inl (Fin.ext hval)
      · exact Or.inr (Or.inl (Fin.ext hval))
      · exact Or.inr (Or.inr (Or.inl (Fin.ext hval)))
      · exact Or.inr (Or.inr (Or.inr (Fin.ext hval)))
    rcases hcases with rfl | rfl | rfl | rfl
    all_goals decide
  exact isName_no hnot h hc

theorem readKey_eq {key : Str} (h : isName key = true) :
    readKey (lit " " ++ (key ++ lit "=")) = some key := by
  have hlast : (key ++ lit "=").getLast? = some (codePoint '=') := List.getLast?_concat
  have hinit : (key ++ lit "=").dropLast = key := List.dropLast_concat
  show (if isXmlSpace (codePoint ' ') && (key ++ lit "=").getLast? == some (codePoint '=') &&
    isName (key ++ lit "=").dropLast then some (key ++ lit "=").dropLast else none) = some key
  rw [hlast, hinit, h]
  rfl

theorem unbroken_quote {s : Str} (h : codePoint '"' ∉ s) : Unbroken isQuote s := by
  intro c hc
  rw [isQuote, beq_eq_false_iff_ne]
  rintro rfl
  exact h hc

theorem rawAttrs_cons (a : Str × Str) (attrs : List (Str × Str)) (behind : Str) :
    rawAttrs (a :: attrs) ++ behind =
      (lit " " ++ (a.1 ++ lit "=")) ++ codePoint '"' :: (a.2 ++ codePoint '"' ::
        (rawAttrs attrs ++ behind)) := by
  have hquote : lit "=\"" = lit "=" ++ [codePoint '"'] := rfl
  have hend : lit "\"" = [codePoint '"'] := rfl
  rw [rawAttrs, List.flatMap_cons, ← rawAttrs, hquote, hend]
  simp

/-- The parts of some attributes are read back. -/
theorem readAttrs_raw {attrs : List (Str × Str)} (hkeys : ∀ a ∈ attrs, isName a.1 = true)
    (hvalues : ∀ a ∈ attrs, PlainValue a.2) (isEmpty : Bool) :
    readAttrs (linesOf isQuote (rawAttrs attrs ++ if isEmpty then lit " /" else [])) =
      some (attrs, isEmpty) := by
  induction attrs with
  | nil =>
    cases isEmpty
    · rfl
    · decide
  | cons a attrs ih =>
    rw [List.forall_mem_cons] at hkeys hvalues
    have hkey : Unbroken isQuote (lit " " ++ (a.1 ++ lit "=")) := by
      rw [unbroken_append, unbroken_append]
      exact ⟨by decide, unbroken_quote (isName_no (by decide) hkeys.1), by decide⟩
    have hvalue := unbroken_quote hvalues.1.1
    rw [rawAttrs_cons, linesOf_append_cons _ _ (by decide), linesOf_append_cons _ _ (by decide),
      hkey.linesOf, hvalue.linesOf, List.singleton_append, List.singleton_append]
    have hrest := ih hkeys.2 hvalues.2
    rw [linesOf_eq] at hrest ⊢
    rw [readAttrs, readKey_eq hkeys.1, hrest]
    dsimp only
    rw [if_pos hvalues.1.2]

theorem readTag_close {name : Str} (h : isName name = true) :
    readTag (rawTag (.close name)) = some (.close name) := by
  have hne : rawTag (.close name) ≠ xmlDeclaration := by
    intro heq
    have hhead : some (codePoint '/') = some (codePoint '?') := congrArg List.head? heq
    exact absurd hhead (by decide)
  unfold readTag
  rw [if_neg hne]
  show (if codePoint '/' = codePoint '/' then if isName name then some (XmlTag.close name) else none
    else _) = some (.close name)
  rw [if_pos rfl, if_pos h]

/-- The name of a tag ends at the first space. -/
theorem readTag_split {name tail : Str} (hname : isName name = true)
    (htail : ∀ c ∈ tail.head?, isXmlSpace c = true) :
    readTag (name ++ tail) =
      match readAttrs (linesOf isQuote tail) with
      | some (attrs, isEmpty) =>
        if isName name && decide (attrs.map Prod.fst).Nodup then
          some (if isEmpty then .empty name attrs else .start name attrs)
        else none
      | none => none := by
  have hspace : ∀ c ∈ name, (!isXmlSpace c) = true := by
    intro c hc
    rw [isName_no_space hname c hc]
    rfl
  have htake : (name ++ tail).takeWhile (fun d => !isXmlSpace d) = name := by
    rw [List.takeWhile_append_of_pos hspace]
    cases tail with
    | nil => simp
    | cons c tail => rw [List.takeWhile_cons_of_neg (by simp [htail c rfl]), List.append_nil]
  have hdrop : (name ++ tail).dropWhile (fun d => !isXmlSpace d) = tail := by
    rw [List.dropWhile_append_of_pos hspace]
    cases tail with
    | nil => rfl
    | cons c tail => exact List.dropWhile_cons_of_neg (by simp [htail c rfl])
  cases hcons : name with
  | nil =>
    rw [hcons] at hname
    exact absurd hname Bool.false_ne_true
  | cons c rest =>
    have hstart := hname
    rw [hcons, isName, Bool.and_eq_true] at hstart
    have hother : ∀ d, isNameStart d = false → c ≠ d := by
      rintro d hd rfl
      rw [hstart.1] at hd
      exact Bool.noConfusion hd
    have hne : (c :: rest) ++ tail ≠ xmlDeclaration := by
      intro heq
      have hhead : some c = some (codePoint '?') := congrArg List.head? heq
      exact hother (codePoint '?') (by decide) (Option.some.inj hhead)
    rw [hcons] at htake hdrop
    unfold readTag
    rw [if_neg hne, List.cons_append]
    dsimp only
    rw [if_neg (hother (codePoint '/') (by decide)), ← List.cons_append, htake, hdrop]

/-- A tag of an element is read back. -/
theorem readTag_element {name : Str} {attrs : List (Str × Str)} (h : PlainElement name attrs)
    (isEmpty : Bool) :
    readTag (name ++ (rawAttrs attrs ++ if isEmpty then lit " /" else [])) =
      some (if isEmpty then .empty name attrs else .start name attrs) := by
  have hhead : ∀ c ∈ (rawAttrs attrs ++ if isEmpty then lit " /" else []).head?,
      isXmlSpace c = true := by
    intro c hc
    cases attrs with
    | nil =>
      cases isEmpty
      · cases hc
      · rw [← Option.some.inj hc]
        decide
    | cons a attrs =>
      rw [← Option.some.inj hc]
      decide
  rw [readTag_split h.name hhead, readAttrs_raw h.keys h.values isEmpty]
  dsimp only
  rw [h.name, decide_eq_true h.nodup]
  rfl

end DevRepro.Reports
