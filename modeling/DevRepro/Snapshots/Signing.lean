import DevRepro.Core.VersionText
import DevRepro.Python.Json
import DevRepro.Python.Words
import DevRepro.Snapshots.Chain

/-!
# Signatures of snapshots

`sign_bytes` and `verify_bytes` of `snapshots/signing.py`.  A document has one
line for each field, and the label of the key stands before the signature as it
was given.  A verification reads the first line that begins like a signature
line, and compares it with `hmac.compare_digest`, which raises on a text that is
not ASCII.

So a signature verifies unless a line of the label passes for the signature
line, and a verification returns unless the text that it compares is not ASCII
(`signatures_verify_iff`).
-/

namespace DevRepro.Snapshots

open DevRepro.Python DevRepro.Lib

/-! ## The standard library -/

/-- A character of ASCII. -/
def isAsciiChar (c : CodePoint) : Bool := c.val < 0x80

/-- `s.isascii()`. -/
def isAsciiText (s : Str) : Bool := s.all isAsciiChar

/-- `c.lower()` for a character of ASCII. -/
def lowerAscii (c : CodePoint) : CodePoint :=
  if h : 0x41 ≤ c.val ∧ c.val ≤ 0x5A then ⟨c.val + 0x20, by omega⟩ else c

/-- What `str` and `hmac` do. -/
structure SigningRuntime where
  /-- `str.lower`. -/
  lower : Str → Str
  lower_ascii : ∀ s, isAsciiText s = true → lower s = s.map lowerAscii
  /-- `hmac.new(key, data, hashlib.sha256).hexdigest()`. -/
  hexdigest : List UInt8 → List UInt8 → Str
  hexdigest_length : ∀ key data, (hexdigest key data).length = 64
  hexdigest_hex : ∀ key data, (hexdigest key data).all isHexDigit = true

/-- `hmac.compare_digest` of two texts. -/
def compareDigest (a b : Str) : Except Exc Bool :=
  if isAsciiText a && isAsciiText b then .ok (decide (a = b))
  else .error ⟨.typeError, "comparing strings with non-ASCII characters is not supported"⟩

/-! ## Documents -/

variable (rt : SigningRuntime)

/-- `SIGNATURE_PREFIX`. -/
def signatureStart : Str := "devrepro-sig-v1"

/-- The line with the label of the key. -/
def keyIdLine (keyId : Str) : List Str := if keyId = [] then [] else [lit "key-id: " ++ keyId]

/-- The lines of a document. -/
def signatureLines (digest keyId : Str) : List Str :=
  signatureStart :: lit "algorithm: hmac-sha256" ::
    (keyIdLine keyId ++ [lit "signature: " ++ digest])

/-- `sign_bytes`. -/
def signBytes (data key : List UInt8) (keyId : Str) : Except Exc Str :=
  if key = [] then .error ⟨.other "SigningError", "empty signing key"⟩
  else .ok (join "\n" (signatureLines (rt.hexdigest key data) keyId) ++ lit "\n")

/-- Whether a line begins like the signature line. -/
def isSignatureLine (line : Str) : Bool := startsWith line "signature:"

/-- `line.split(":", 1)[1].strip().lower()`. -/
def signatureText (line : Str) : Str :=
  rt.lower (strip ((line.dropWhile (· ≠ codePoint ':')).drop 1))

/-- `verify_bytes`. -/
def verifyBytes (data key : List UInt8) (signatureDoc : Str) : Except Exc Bool :=
  match (splitlines signatureDoc).find? isSignatureLine with
  | none => .ok false
  | some line =>
    if signatureText rt line = [] then .ok false
    else compareDigest (rt.hexdigest key data) (signatureText rt line)

/-! ## What a document should do -/

/-- A document with the digest in one of its signature lines. -/
def CarriesDigest (digest signatureDoc : Str) : Prop :=
  ∃ line ∈ splitlines signatureDoc, isSignatureLine line = true ∧ signatureText rt line = digest

/-- The signature of data verifies. -/
def RoundTrips (data key : List UInt8) (keyId : Str) : Prop :=
  ∃ signed, signBytes rt data key keyId = .ok signed ∧ verifyBytes rt data key signed = .ok true

/-- A verification returns, and is true only when the document has the digest. -/
def Decides (data key : List UInt8) (signatureDoc : Str) : Prop :=
  ∃ verified, verifyBytes rt data key signatureDoc = .ok verified ∧
    (verified = true → CarriesDigest rt (rt.hexdigest key data) signatureDoc)

/-- What signatures are for. -/
def SignaturesVerify (data key : List UInt8) (keyId signatureDoc : Str) : Prop :=
  RoundTrips rt data key keyId ∧ Decides rt data key signatureDoc

/-- The lines of a label behind its first one do not begin with another signature. -/
def KeyIdHarmless (digest keyId : Str) : Prop :=
  ∀ line ∈ (splitlines keyId).tail.find? isSignatureLine, signatureText rt line = digest

/-- The text that is compared is ASCII. -/
def Comparable (signatureDoc : Str) : Prop :=
  ∀ line ∈ (splitlines signatureDoc).find? isSignatureLine,
    isAsciiText (signatureText rt line) = true

/-! ## Digests -/

variable {rt}

theorem isAsciiChar_of_isHexDigit {c : CodePoint} (h : isHexDigit c = true) :
    isAsciiChar c = true := by
  simp only [isHexDigit, Bool.or_eq_true, Bool.and_eq_true, decide_eq_true_eq] at h
  simp only [isAsciiChar, decide_eq_true_eq]
  omega

theorem lowerAscii_of_isHexDigit {c : CodePoint} (h : isHexDigit c = true) : lowerAscii c = c := by
  rw [lowerAscii, dif_neg]
  simp only [isHexDigit, Bool.or_eq_true, Bool.and_eq_true, decide_eq_true_eq] at h
  omega

theorem isSpace_of_isHexDigit {c : CodePoint} (h : isHexDigit c = true) : isSpace c = false := by
  apply isSpace_of_isPrintableAscii
  · simp only [isHexDigit, Bool.or_eq_true, Bool.and_eq_true, decide_eq_true_eq] at h
    simp only [isPrintableAscii, Bool.and_eq_true, decide_eq_true_eq]
    omega
  · rintro rfl
    exact absurd h (by decide)

theorem hexdigest_hex_of_mem {key data : List UInt8} {c : CodePoint}
    (h : c ∈ rt.hexdigest key data) : isHexDigit c = true :=
  List.all_eq_true.mp (rt.hexdigest_hex key data) c h

theorem hexdigest_ascii (key data : List UInt8) : isAsciiText (rt.hexdigest key data) = true :=
  List.all_eq_true.mpr fun _ hc => isAsciiChar_of_isHexDigit (hexdigest_hex_of_mem hc)

theorem hexdigest_ne_nil (key data : List UInt8) : rt.hexdigest key data ≠ [] := by
  intro hnil
  have hlength := rt.hexdigest_length key data
  rw [hnil] at hlength
  exact absurd hlength (by decide)

theorem lower_hexdigest (key data : List UInt8) :
    rt.lower (rt.hexdigest key data) = rt.hexdigest key data := by
  rw [rt.lower_ascii _ (hexdigest_ascii key data)]
  refine (List.map_congr_left fun c hc => ?_).trans (List.map_id _)
  exact lowerAscii_of_isHexDigit (hexdigest_hex_of_mem hc)

/-- The line of the digest is read as the digest. -/
theorem signatureText_digest (key data : List UInt8) :
    signatureText rt (lit "signature: " ++ rt.hexdigest key data) = rt.hexdigest key data := by
  have hrest : ((lit "signature: " ++ rt.hexdigest key data).dropWhile
      (· ≠ codePoint ':')).drop 1 = lit " " ++ rt.hexdigest key data := by
    have hfield : lit "signature: " = lit "signature" ++ lit ": " := by decide
    have hname : (lit "signature").all (· ≠ codePoint ':') = true := by decide
    rw [hfield, List.append_assoc, List.dropWhile_append_of_pos (List.all_eq_true.mp hname)]
    rfl
  have hstrip : strip (lit " " ++ rt.hexdigest key data) = rt.hexdigest key data := by
    have hspace : (lit " ").all isSpace = true := by decide
    have hpadded := strip_padded (List.all_eq_true.mp hspace) (fun _ hc => absurd hc List.not_mem_nil)
      (rt.hexdigest key data)
    rw [List.append_nil] at hpadded
    rw [hpadded]
    exact Core.strip_eq_self fun c hc => isSpace_of_isHexDigit (hexdigest_hex_of_mem hc)
  rw [signatureText, hrest, hstrip, lower_hexdigest]

/-! ## Lines of a label -/

/-- A newline behind a text ends its last line, or adds an empty one. -/
theorem scanLines_newline (s : Str) :
    scanLines (s ++ [codePoint '\n']) = ((scanLines s).1 ++ [(scanLines s).2], []) ∨
      scanLines (s ++ [codePoint '\n']) = scanLines s ∧ (scanLines s).2 = [] ∧
        (scanLines s).1 ≠ [] := by
  induction s with
  | nil => exact Or.inl (by decide)
  | cons c s ih =>
    rw [List.cons_append, scanLines, scanLines]
    by_cases hbreak : isLineBreak c = true
    · simp only [hbreak, if_true]
      cases s with
      | nil =>
        by_cases hreturn : c = codePoint '\r'
        · refine Or.inr ?_
          rw [if_pos ⟨hreturn, rfl⟩, if_neg (fun h => absurd h.2 (by decide))]
          decide
        · rw [if_neg (fun h => hreturn h.1), if_neg (fun h => hreturn h.1)]
          exact Or.inl (by decide)
      | cons d s =>
        by_cases hpair : c = codePoint '\r' ∧ (d :: s).head? = some (codePoint '\n')
        · rw [if_pos hpair, if_pos (show _ ∧ (d :: s ++ [codePoint '\n']).head? = _ from hpair)]
          exact ih
        · rw [if_neg hpair,
            if_neg (show ¬(_ ∧ (d :: s ++ [codePoint '\n']).head? = _) from hpair)]
          rcases ih with hline | ⟨hsame, hnil, _⟩
          · exact Or.inl (by rw [hline]; rfl)
          · exact Or.inr ⟨by rw [hsame], hnil, List.cons_ne_nil _ _⟩
    · simp only [Bool.not_eq_true] at hbreak
      simp only [hbreak, Bool.false_eq_true, if_false]
      rcases ih with hline | ⟨hsame, hnil, hne⟩
      · left
        rw [hline]
        cases (scanLines s).1 with
        | nil => rfl
        | cons line lines => rfl
      · right
        rw [hsame]
        cases hlines : (scanLines s).1 with
        | nil => exact absurd hlines hne
        | cons line lines => exact ⟨rfl, hnil, List.cons_ne_nil _ _⟩

/-- A character before a text belongs to its first line. -/
theorem splitlines_cons {c : CodePoint} (h : isLineBreak c = false) (s : Str) :
    ∃ first, splitlines (c :: s) = (c :: first) :: (splitlines s).tail := by
  rw [splitlines, splitlines, scanLines, h]
  simp only [Bool.false_eq_true, if_false]
  cases (scanLines s).1 with
  | nil =>
    refine ⟨(scanLines s).2, ?_⟩
    split_ifs <;> simp_all
  | cons line lines => exact ⟨line, rfl⟩

theorem splitlines_tail_append {line : Str} (h : Unbroken isLineBreak line) (s : Str) :
    (splitlines (line ++ s)).tail = (splitlines s).tail := by
  induction line with
  | nil => rfl
  | cons c line ih =>
    rcases splitlines_cons (h c List.mem_cons_self) (line ++ s) with ⟨first, hsplit⟩
    rw [List.cons_append, hsplit, List.tail_cons]
    exact ih fun d hd => h d (List.mem_cons_of_mem c hd)

/-- A newline behind a text brings in no signature line. -/
theorem find?_tail_newline (s : Str) :
    (splitlines (s ++ [codePoint '\n'])).tail.find? isSignatureLine =
      (splitlines s).tail.find? isSignatureLine := by
  have hempty : isSignatureLine [] = false := by decide
  rcases scanLines_newline s with hline | ⟨hsame, _, _⟩
  · rw [splitlines, splitlines, hline]
    cases (scanLines s).1 with
    | nil => split_ifs <;> rfl
    | cons first lines =>
      simp only [List.cons_append, List.tail_cons, if_true, List.append_nil, List.find?_append]
      split_ifs with hnil
      · rw [hnil, List.find?_cons_of_neg (by rw [hempty]; exact Bool.false_ne_true)]
      · rfl
  · rw [splitlines, splitlines, hsame]

/-- The line of a label that has no signature line in it, with the lines of the label. -/
theorem find?_keyIdLine (keyId : Str) :
    ((keyIdLine keyId).flatMap fun line => splitlines (line ++ [codePoint '\n'])).find?
        isSignatureLine = (splitlines keyId).tail.find? isSignatureLine := by
  rw [keyIdLine]
  split_ifs with hempty
  · rw [hempty]
    rfl
  · have hbreak : isLineBreak (codePoint 'k') = false := by decide
    have hrest : (lit "ey-id: ").all (fun c => !isLineBreak c) = true := by decide
    have hunbroken : Unbroken isLineBreak (lit "ey-id: ") := fun c hc => by
      simpa using List.all_eq_true.mp hrest c hc
    have hfield : lit "key-id: " ++ keyId ++ [codePoint '\n'] =
        codePoint 'k' :: (lit "ey-id: " ++ (keyId ++ [codePoint '\n'])) := rfl
    rcases splitlines_cons hbreak (lit "ey-id: " ++ (keyId ++ [codePoint '\n'])) with
      ⟨first, hsplit⟩
    have hother : isSignatureLine (codePoint 'k' :: first) = false := rfl
    rw [List.flatMap_cons, List.flatMap_nil, List.append_nil, hfield, hsplit,
      List.find?_cons_of_neg (by rw [hother]; exact Bool.false_ne_true),
      splitlines_tail_append hunbroken, find?_tail_newline]

/-- The lines of lines that are joined. -/
theorem splitlines_unlines_flatMap (lines : List Str) :
    splitlines (unlines (codePoint '\n') lines) =
      lines.flatMap fun line => splitlines (line ++ [codePoint '\n']) := by
  induction lines with
  | nil => rfl
  | cons line lines ih =>
    have hcons : unlines (codePoint '\n') (line :: lines) =
        line ++ codePoint '\n' :: unlines (codePoint '\n') lines := by simp [unlines]
    rw [hcons, splitlines_append_newline, ih, List.flatMap_cons]

/-- The first signature line of a document: one of the label, or the last line. -/
theorem find?_signed (key data : List UInt8) (keyId : Str) :
    (splitlines (join "\n" (signatureLines (rt.hexdigest key data) keyId) ++ lit "\n")).find?
        isSignatureLine =
      some (((splitlines keyId).tail.find? isSignatureLine).getD
        (lit "signature: " ++ rt.hexdigest key data)) := by
  have hline : splitlines (lit "signature: " ++ rt.hexdigest key data ++ [codePoint '\n']) =
      [lit "signature: " ++ rt.hexdigest key data] := by
    have hlines := @splitlines_unlines [lit "signature: " ++ rt.hexdigest key data]
    rw [unlines, List.flatMap_singleton] at hlines
    apply hlines
    intro line hmem
    rw [List.mem_singleton.mp hmem, unbroken_append]
    have hfield : (lit "signature: ").all (fun c => !isLineBreak c) = true := by decide
    refine ⟨fun c hc => by simpa using List.all_eq_true.mp hfield c hc, fun c hc => ?_⟩
    have hhex := hexdigest_hex_of_mem hc
    simp only [isHexDigit, Bool.or_eq_true, Bool.and_eq_true, decide_eq_true_eq] at hhex
    apply isLineBreak_of_isPrintableAscii
    simp only [isPrintableAscii, Bool.and_eq_true, decide_eq_true_eq]
    omega
  have hstart : (splitlines (signatureStart ++ [codePoint '\n'])).find? isSignatureLine = none := by
    decide
  have halgorithm : (splitlines (lit "algorithm: hmac-sha256" ++ [codePoint '\n'])).find?
      isSignatureLine = none := by decide
  have hsignature : isSignatureLine (lit "signature: " ++ rt.hexdigest key data) = true := rfl
  have hne : signatureLines (rt.hexdigest key data) keyId ≠ [] := List.cons_ne_nil _ _
  rw [join_newline hne, splitlines_unlines_flatMap, signatureLines,
    List.flatMap_cons, List.flatMap_cons, List.flatMap_append, List.find?_append, hstart,
    Option.none_or, List.find?_append, halgorithm, Option.none_or, List.find?_append,
    find?_keyIdLine, List.flatMap_singleton, hline, List.find?_cons_of_pos hsignature]
  cases (splitlines keyId).tail.find? isSignatureLine with
  | none => rfl
  | some line => rfl

/-- A text of a line that is compared with the digest. -/
theorem verifyBytes_true_iff {data key : List UInt8} {signatureDoc line : Str}
    (h : (splitlines signatureDoc).find? isSignatureLine = some line) :
    verifyBytes rt data key signatureDoc = .ok true ↔
      signatureText rt line = rt.hexdigest key data := by
  rw [verifyBytes, h]
  dsimp only
  split_ifs with hempty
  · rw [hempty]
    constructor
    · intro hfalse
      cases hfalse
    · intro heq
      exact absurd heq.symm (hexdigest_ne_nil key data)
  · rw [compareDigest, hexdigest_ascii, Bool.true_and]
    split_ifs with hascii
    · rw [Except.ok.injEq, decide_eq_true_iff]
      exact eq_comm
    · constructor
      · intro herror
        cases herror
      · intro heq
        rw [heq, hexdigest_ascii] at hascii
        exact absurd rfl hascii

/-- A signature verifies unless a line of its label passes for another one. -/
theorem signed_verifies_iff {key : List UInt8} (hkey : key ≠ []) (data : List UInt8) (keyId : Str) :
    RoundTrips rt data key keyId ↔ KeyIdHarmless rt (rt.hexdigest key data) keyId := by
  rw [RoundTrips, signBytes, if_neg hkey]
  have hverified := @verifyBytes_true_iff rt data key _ _ (@find?_signed rt key data keyId)
  constructor
  · rintro ⟨signed, hsigned, htrue⟩ line hline
    cases hsigned
    rw [Option.mem_def.mp hline, Option.getD_some] at hverified
    exact hverified.mp htrue
  · intro hharmless
    refine ⟨_, rfl, hverified.mpr ?_⟩
    cases hfound : (splitlines keyId).tail.find? isSignatureLine with
    | none => exact signatureText_digest key data
    | some line => exact hharmless line hfound

/-- A verification returns unless what it compares is not ASCII. -/
theorem decides_iff (data key : List UInt8) (signatureDoc : Str) :
    Decides rt data key signatureDoc ↔ Comparable rt signatureDoc := by
  cases hfound : (splitlines signatureDoc).find? isSignatureLine with
  | none =>
    have hfalse : verifyBytes rt data key signatureDoc = .ok false := by
      rw [verifyBytes, hfound]
    refine iff_of_true ⟨false, hfalse, fun h => absurd h Bool.false_ne_true⟩ ?_
    intro line hline
    rw [hfound] at hline
    cases hline
  | some line =>
    have hcarries : signatureText rt line = rt.hexdigest key data →
        CarriesDigest rt (rt.hexdigest key data) signatureDoc := fun heq =>
      ⟨line, List.mem_of_find?_eq_some hfound, List.find?_some hfound, heq⟩
    constructor
    · rintro ⟨verified, hverified, _⟩ other hother
      rw [hfound] at hother
      cases hother
      rw [verifyBytes, hfound] at hverified
      dsimp only at hverified
      split_ifs at hverified with hempty
      · rw [hempty]
        rfl
      · rw [compareDigest, hexdigest_ascii, Bool.true_and] at hverified
        split_ifs at hverified with hascii
        exact hascii
    · intro hcomparable
      have hascii := hcomparable line hfound
      by_cases hempty : signatureText rt line = []
      · have hfalse : verifyBytes rt data key signatureDoc = .ok false := by
          rw [verifyBytes, hfound]
          exact if_pos hempty
        exact ⟨false, hfalse, fun h => absurd h Bool.false_ne_true⟩
      · have hvalue : verifyBytes rt data key signatureDoc =
            .ok (decide (rt.hexdigest key data = signatureText rt line)) := by
          rw [verifyBytes, hfound]
          dsimp only
          rw [if_neg hempty, compareDigest, hexdigest_ascii, hascii, Bool.and_self, if_pos rfl]
        exact ⟨_, hvalue, fun h => hcarries (of_decide_eq_true h).symm⟩

/-- Signatures verify and verifications return, unless the label has a signature line in it
or the text to compare is not ASCII. -/
theorem signatures_verify_iff (rt : SigningRuntime) {key : List UInt8} (hkey : key ≠ [])
    (data : List UInt8) (keyId signatureDoc : Str) :
    SignaturesVerify rt data key keyId signatureDoc ↔
      KeyIdHarmless rt (rt.hexdigest key data) keyId ∧ Comparable rt signatureDoc :=
  and_congr (signed_verifies_iff hkey data keyId) (decides_iff data key signatureDoc)

/-! ## A signature to try -/

namespace Sample

/-- The bytes `k`. -/
def signingKey : List UInt8 := [0x6B]

/-- The bytes `x`. -/
def signedData : List UInt8 := [0x78]

/-- Their digest. -/
def signedDigest : Str := "c38edc8815c8489f64738978f44008f8596345545f0baa68ef6fcf5c53e57189"

/-- The digest of the sample, and the lower case of ASCII. -/
def signingRuntime : SigningRuntime where
  lower := List.map lowerAscii
  lower_ascii := fun _ _ => rfl
  hexdigest := fun _ _ => signedDigest
  hexdigest_length := fun _ _ => rfl
  hexdigest_hex := fun _ _ => by decide

/-- A label with a line that passes for a signature. -/
def twoLineKeyId : Str := "ci\nsignature: 00"

/-- A document with a signature that is not ASCII. -/
def accentedDoc : Str := "signature: \u00E9"

end Sample

/-- A label with a second line, and a document that is not ASCII. -/
theorem signature_not_verified :
    ¬SignaturesVerify Sample.signingRuntime Sample.signedData Sample.signingKey
        Sample.twoLineKeyId [] ∧
      ¬SignaturesVerify Sample.signingRuntime Sample.signedData Sample.signingKey []
        Sample.accentedDoc := by
  have hkey : Sample.signingKey ≠ [] := List.cons_ne_nil _ _
  constructor
  · intro ⟨hround, _⟩
    have hlabel := (signed_verifies_iff hkey _ _).mp hround (lit "signature: 00") (by decide)
    exact absurd hlabel (by decide)
  · intro ⟨_, hdecides⟩
    have hascii := (decides_iff _ _ _).mp hdecides Sample.accentedDoc (by decide)
    exact absurd hascii (by decide)

theorem signatures_verify_iff_ci :
    Sample.signingKey ≠ [] ∧
      (SignaturesVerify Sample.signingRuntime Sample.signedData Sample.signingKey "ci" [] ↔
        KeyIdHarmless Sample.signingRuntime
            (Sample.signingRuntime.hexdigest Sample.signingKey Sample.signedData) "ci" ∧
          Comparable Sample.signingRuntime []) :=
  ⟨List.cons_ne_nil _ _,
    signatures_verify_iff Sample.signingRuntime (List.cons_ne_nil _ _) Sample.signedData "ci" []⟩

end DevRepro.Snapshots
