import DevRepro.Reports.JunitReport

/-!
# JUnit reports that the redaction breaks

How a placeholder breaks a JUnit report.  In a tag it leaves the tag open
(`tag_kept`).  In a text it is one more tag (`exists_refined`), of an element that
would have to be closed (`close_of_start`).  A home path that is found in a tag
leaves a tilde (`one_slash`), with which a tag is not read (`readTag_no_tilde`,
`readTag_bad`).
-/

namespace DevRepro.Reports

open DevRepro.Python DevRepro.Lib DevRepro.Privacy DevRepro.Snapshots
open DevRepro.Mcp (Finding FindingState Evidence)

variable {normcase : Str → Str} {gate : PrivacyGate normcase}

/-! ## Open and closed elements -/

/-- An element that is open, or is opened, is closed. -/
theorem close_of_open {stack : List Str} {tags : List XmlTag} {n : Str}
    (h : content stack tags = true) (hopen : n ∈ stack ∨ ∃ attrs, XmlTag.start n attrs ∈ tags) :
    XmlTag.close n ∈ tags := by
  induction tags generalizing stack with
  | nil =>
    cases stack with
    | nil =>
      rcases hopen with hin | ⟨attrs, hin⟩
      · cases hin
      · cases hin
    | cons top stack => exact absurd h Bool.false_ne_true
  | cons tag tags ih =>
    cases stack with
    | nil => exact absurd h Bool.false_ne_true
    | cons top stack =>
      cases tag with
      | declaration => exact absurd h Bool.false_ne_true
      | start name attrs =>
        have hrest : content (name :: top :: stack) tags = true := h
        refine List.mem_cons_of_mem _ (ih hrest ?_)
        rcases hopen with hin | ⟨attrs', hin⟩
        · exact Or.inl (List.mem_cons_of_mem _ hin)
        · rcases List.mem_cons.mp hin with heq | hin
          · rw [(XmlTag.start.inj heq).1]
            exact Or.inl List.mem_cons_self
          · exact Or.inr ⟨attrs', hin⟩
      | empty name attrs =>
        have hrest : content (top :: stack) tags = true := h
        refine List.mem_cons_of_mem _ (ih hrest ?_)
        rcases hopen with hin | ⟨attrs', hin⟩
        · exact Or.inl hin
        · rcases List.mem_cons.mp hin with heq | hin
          · cases heq
          · exact Or.inr ⟨attrs', hin⟩
      | close name =>
        have hboth : (name == top && content stack tags) = true := h
        rw [Bool.and_eq_true, beq_iff_eq] at hboth
        by_cases hname : n = name
        · rw [hname]
          exact List.mem_cons_self
        · refine List.mem_cons_of_mem _ (ih hboth.2 ?_)
          rcases hopen with hin | ⟨attrs', hin⟩
          · rcases List.mem_cons.mp hin with heq | hin
            · exact absurd (heq.trans hboth.1.symm) hname
            · exact Or.inl hin
          · rcases List.mem_cons.mp hin with heq | hin
            · cases heq
            · exact Or.inr ⟨attrs', hin⟩

theorem close_of_start {tags : List XmlTag} {n : Str} (h : wellNested tags = true)
    (hopen : ∃ attrs, XmlTag.start n attrs ∈ tags) : XmlTag.close n ∈ tags := by
  obtain ⟨attrs, hin⟩ := hopen
  unfold wellNested at h
  split at h
  · simp at hin
  · rename_i name _ rest
    simp only [List.mem_cons, XmlTag.start.injEq, reduceCtorEq, false_or] at hin ⊢
    rcases hin with ⟨rfl, _⟩ | hin
    · exact close_of_open h (Or.inl List.mem_cons_self)
    · exact close_of_open h (Or.inr ⟨attrs, hin⟩)
  · cases h

/-! ## What a reader needs -/

theorem readXml_some {doc : Str} {tags : List XmlTag} (h : readXml doc = some tags) :
    (∀ part ∈ tagParts (codePoint '<') doc, codePoint '>' ∈ part) ∧
      ((readMarkup (codePoint '<') (codePoint '>') doc).map Prod.fst).mapM readTag = some tags ∧
      wellNested tags = true := by
  unfold readXml at h
  dsimp only at h
  split_ifs at h with hall
  simp only [Bool.and_eq_true] at hall
  cases hread : ((readMarkup (codePoint '<') (codePoint '>') doc).map Prod.fst).mapM readTag with
  | none =>
    rw [hread] at h
    cases h
  | some found =>
    rw [hread] at h
    dsimp only at h
    split_ifs at h with hnested
    cases h
    refine ⟨fun part hpart => ?_, rfl, hnested⟩
    have hclosed := List.all_eq_true.mp hall.1.1.2 part hpart
    rwa [List.contains_iff_mem] at hclosed

theorem mem_of_mapM_readTag {texts : List Str} {tags : List XmlTag}
    (h : texts.mapM readTag = some tags) :
    (∀ text ∈ texts, ∃ tag ∈ tags, readTag text = some tag) ∧
      ∀ tag ∈ tags, ∃ text ∈ texts, readTag text = some tag := by
  induction texts generalizing tags with
  | nil =>
    cases h
    exact ⟨fun _ htext => absurd htext List.not_mem_nil, fun _ htag => absurd htag List.not_mem_nil⟩
  | cons text texts ih =>
    rw [List.mapM_cons] at h
    cases htag : readTag text with
    | none =>
      rw [htag] at h
      cases h
    | some tag =>
      rw [htag] at h
      cases hrest : texts.mapM readTag with
      | none =>
        rw [hrest] at h
        cases h
      | some rest =>
        rw [hrest] at h
        cases h
        obtain ⟨hfound, hfrom⟩ := ih hrest
        constructor
        · rw [List.forall_mem_cons]
          refine ⟨⟨tag, List.mem_cons_self, htag⟩, fun other hother => ?_⟩
          obtain ⟨found, hin, hread⟩ := hfound other hother
          exact ⟨found, List.mem_cons_of_mem _ hin, hread⟩
        · rw [List.forall_mem_cons]
          refine ⟨⟨text, List.mem_cons_self, htag⟩, fun other hother => ?_⟩
          obtain ⟨found, hin, hread⟩ := hfrom other hother
          exact ⟨found, List.mem_cons_of_mem _ hin, hread⟩

/-! ## Placeholders -/

/-- No angle bracket. -/
def Bare (s : Str) : Prop := codePoint '<' ∉ s ∧ codePoint '>' ∉ s

theorem bare_cons {c : CodePoint} {s : Str} :
    Bare (c :: s) ↔ (c ≠ codePoint '<' ∧ c ≠ codePoint '>') ∧ Bare s := by
  rw [Bare, Bare, List.mem_cons, List.mem_cons, not_or, not_or]
  constructor
  · rintro ⟨⟨hlt, hslt⟩, hgt, hsgt⟩
    exact ⟨⟨Ne.symm hlt, Ne.symm hgt⟩, hslt, hsgt⟩
  · rintro ⟨⟨hlt, hgt⟩, hslt, hsgt⟩
    exact ⟨⟨Ne.symm hlt, hslt⟩, Ne.symm hgt, hsgt⟩

theorem bare_nil : Bare [] := ⟨List.not_mem_nil, List.not_mem_nil⟩

/-- A text between tags of one name. -/
structure Filled (name : Str → Prop) (out : Str) : Prop where
  form : ∃ start items, out = start ++ document items ∧ Bare start ∧
    ∀ item ∈ items, name item.1 ∧ Bare item.1 ∧ Bare item.2

theorem document_append (items others : Markup CodePoint) :
    document (items ++ others) = document items ++ document others := List.flatMap_append

/-- A pass puts its placeholder between bare texts. -/
theorem filled_of_subst {m : Matcher CodePoint} {tag : Str} (htag : Bare tag) {prev : Option CodePoint}
    {s out : Str} (hsub : Subst m (codePoint '<' :: (tag ++ [codePoint '>'])) prev s out)
    (hs : Bare s) : Filled (· = tag) out := by
  induction hsub with
  | nil => exact ⟨[], [], rfl, bare_nil, fun _ hitem => absurd hitem List.not_mem_nil⟩
  | @keep prev c rest out hnone hrest ih =>
    obtain ⟨hc, hrest⟩ := bare_cons.mp hs
    obtain ⟨start, items, rfl, hstart, hitems⟩ := ih hrest
    exact ⟨c :: start, items, rfl, bare_cons.mpr ⟨hc, hstart⟩, hitems⟩
  | @drop prev c seg rest out hsome hrest ih =>
    have hrest' : Bare rest :=
      ⟨fun hin => hs.1 (List.mem_append_right _ hin), fun hin => hs.2 (List.mem_append_right _ hin)⟩
    obtain ⟨start, items, rfl, hstart, hitems⟩ := ih hrest'
    refine ⟨[], (tag, start) :: items, ?_, bare_nil, ?_⟩
    · simp [document, printMarkup, printTag]
    · rw [List.forall_mem_cons]
      exact ⟨⟨rfl, htag, hstart⟩, hitems⟩

/-- The tags that the redaction puts into a text. -/
def isPlaceholderTag (tag : Str) : Prop := tag = lit "user" ∨ tag = lit "email-redacted"

/-- The second pass works between the tags of the first one. -/
theorem filled_emails {items : Markup CodePoint} {start : Str} (hstart : Bare start)
    (hitems : ∀ item ∈ items, item.1 = lit "user" ∧ Bare item.1 ∧ Bare item.2) :
    Filled isPlaceholderTag (subAll emailMatcher emailPlaceholder (start ++ document items)) := by
  have hemail : ∀ text : Str, Bare text →
      Filled (· = lit "email-redacted") (subAll emailMatcher emailPlaceholder text) := fun text htext =>
    @filled_of_subst _ (lit "email-redacted") ⟨by decide, by decide⟩ _ _ _ (subst_subAll _) htext
  have hlt : NoAddress (codePoint '<') := ⟨by decide, by decide, by decide⟩
  have hgt : NoAddress (codePoint '>') := ⟨by decide, by decide, by decide⟩
  have huserTag : Bare (lit "user") := ⟨by decide, by decide⟩
  have hword : subAll emailMatcher emailPlaceholder (lit "user") = lit "user" := by decide
  induction items generalizing start with
  | nil =>
    obtain ⟨before, tags, heq, hbefore, htags⟩ := hemail start hstart
    have hdoc : start ++ document [] = start := List.append_nil start
    rw [hdoc]
    exact ⟨before, tags, heq, hbefore, fun item hitem =>
      ⟨Or.inr (htags item hitem).1, (htags item hitem).2⟩⟩
  | cons item items ih =>
    rw [List.forall_mem_cons] at hitems
    obtain ⟨before, tags, heq, hbefore, htags⟩ := hemail start hstart
    obtain ⟨between, others, heq', hbetween, hothers⟩ := ih hitems.1.2.2 hitems.2
    have hdoc : start ++ document (item :: items) =
        start ++ codePoint '<' :: (item.1 ++ codePoint '>' :: (item.2 ++ document items)) := by
      simp [document, printMarkup, printTag]
    rw [hdoc, subAll_separator (emailMatcher_separates hlt), subAll_separator (emailMatcher_separates hgt),
      heq, heq', hitems.1.1, hword]
    refine ⟨before, tags ++ (lit "user", between) :: others, ?_, hbefore, ?_⟩
    · rw [document_append]
      simp [document, printMarkup, printTag]
    · rw [List.forall_mem_append, List.forall_mem_cons]
      exact ⟨fun other hother => ⟨Or.inr (htags other hother).1, (htags other hother).2⟩,
        ⟨Or.inl rfl, huserTag, hbetween⟩, hothers⟩

theorem bare_redactHome {s : Str} (hs : Bare s) : Bare (gate.redactHome s) :=
  ⟨not_mem_redactHome (by decide) hs.1, not_mem_redactHome (by decide) hs.2⟩

theorem redact_filled {s : Str} (hs : Bare s) : Filled isPlaceholderTag (gate.redact s) := by
  have hhome : Bare (gate.redactHome s) := bare_redactHome hs
  have huser : Filled (· = lit "user") (gate.redactUser (gate.redactHome s)) := by
    unfold PrivacyGate.redactUser
    split_ifs
    · exact @filled_of_subst _ (lit "user") ⟨by decide, by decide⟩ _ _ _ (subst_subAll _) hhome
    · exact ⟨_, [], (List.append_nil _).symm, hhome, fun _ hitem => absurd hitem List.not_mem_nil⟩
  obtain ⟨start, items, heq, hstart, hitems⟩ := huser
  rw [PrivacyGate.redact, heq]
  exact filled_emails hstart hitems

/-! ## What is written has no bracket -/

theorem bare_rawTag {report : ScanReport} {item : XmlTag × Str} (h : item ∈ writtenTags report) :
    Bare (rawTag item.1) := by
  have hnamed := junitTags_named _ _ report item h
  have hvalues : ∀ value ∈ tagValues item.1, PlainWritten value := by
    intro value hvalue
    obtain ⟨s, rfl⟩ := junit_values _ _ report item h value hvalue
    exact (plain_escapeAttrib s).1
  constructor
  · exact not_mem_rawTag hnamed (by decide) (by decide) (by decide) fun v hv => (hvalues v hv).lt
  · exact not_mem_rawTag hnamed (by decide) (by decide) (by decide) fun v hv => (hvalues v hv).gt

/-- The document as it is printed. -/
theorem printed_eq (h : PlainMachine gate) (report : ScanReport) :
    gate.redact (xmlDocument (writtenTags report)) =
      document ((writtenTags report).map fun item => (gate.redact (rawTag item.1), gate.redact item.2)) := by
  rw [xmlDocument, document, redact_printMarkup h.bracketless.lt h.bracketless.gt, List.map_map]
  rfl

/-- A placeholder in a tag leaves it open. -/
theorem tag_kept (h : PlainMachine gate) {report : ScanReport}
    (hclosed : ∀ part ∈ tagParts (codePoint '<') (gate.redact (xmlDocument (writtenTags report))),
      codePoint '>' ∈ part) {item : XmlTag × Str} (hitem : item ∈ writtenTags report) :
    codePoint '<' ∉ gate.redact (rawTag item.1) := by
  intro hin
  obtain ⟨start, items, heq, hstart, -⟩ := @redact_filled _ gate _ (bare_rawTag hitem)
  cases items with
  | nil =>
    have hsame : gate.redact (rawTag item.1) = start := heq.trans (List.append_nil start)
    rw [hsame] at hin
    exact hstart.1 hin
  | cons first items =>
    obtain ⟨before, behind, hsplit⟩ := List.append_of_mem hitem
    have hdoc : ∃ pre rest, gate.redact (xmlDocument (writtenTags report)) =
        pre ++ codePoint '<' :: (start ++ codePoint '<' :: rest) := by
      rw [printed_eq h, hsplit, List.map_append, document_append, List.map_cons]
      refine ⟨document (before.map fun item => (gate.redact (rawTag item.1), gate.redact item.2)),
        first.1 ++ codePoint '>' :: (first.2 ++ document items) ++ codePoint '>' :: (gate.redact item.2 ++
          document (behind.map fun item => (gate.redact (rawTag item.1), gate.redact item.2))), ?_⟩
      rw [heq]
      simp [document, printMarkup, printTag]
    obtain ⟨pre, rest, hdoc⟩ := hdoc
    have hpart := hclosed start (hdoc ▸ mem_tagParts hstart.1 pre rest)
    exact hstart.2 hpart

/-- The tags that are found in the printed document: those that were written, redacted, and those
of the placeholders. -/
structure Refined (gate : PrivacyGate normcase) (items : List (XmlTag × Str)) (fine : Markup CodePoint) :
    Prop where
  same : document (items.map fun item => (gate.redact (rawTag item.1), gate.redact item.2)) = document fine
  plain : ∀ found ∈ fine, PlainTag (codePoint '<') (codePoint '>') found
  old : ∀ item ∈ items, gate.redact (rawTag item.1) ∈ fine.map Prod.fst
  new : ∀ found ∈ fine, isPlaceholderTag found.1 ∨ ∃ item ∈ items, found.1 = gate.redact (rawTag item.1)
  shown : ∀ item ∈ items, codePoint '<' ∈ gate.redact item.2 → ∃ found ∈ fine, isPlaceholderTag found.1

theorem exists_refined {items : List (XmlTag × Str)}
    (htags : ∀ item ∈ items, Bare (rawTag item.1) ∧ codePoint '<' ∉ gate.redact (rawTag item.1))
    (htexts : ∀ item ∈ items, Bare item.2) : ∃ fine, Refined gate items fine := by
  induction items with
  | nil =>
    refine ⟨[], rfl, ?_, ?_, ?_, ?_⟩
    all_goals exact fun _ hin => absurd hin List.not_mem_nil
  | cons item items ih =>
    rw [List.forall_mem_cons] at htags htexts
    obtain ⟨fine, hfine⟩ := ih htags.2 htexts.2
    obtain ⟨start, added, heq, hstart, hadded⟩ := @redact_filled _ gate _ htexts.1
    have htag : codePoint '>' ∉ gate.redact (rawTag item.1) := by
      rw [redact_eq_home htags.1.2]
      exact (bare_redactHome htags.1.1).2
    refine ⟨(gate.redact (rawTag item.1), start) :: (added ++ fine), ?_, ?_, ?_, ?_, ?_⟩
    · rw [List.map_cons]
      have hcons : ∀ (first : Str × Str) rest,
          document (first :: rest) = document [first] ++ document rest :=
        fun first rest => document_append [first] rest
      rw [hcons, hfine.same, hcons _ (added ++ fine), document_append, heq]
      simp [document, printMarkup, printTag]
    · rw [List.forall_mem_cons]
      refine ⟨⟨htags.1.2, htag, hstart.1⟩, fun found hfound => ?_⟩
      rcases List.mem_append.mp hfound with hfound | hfound
      · obtain ⟨-, hbare, htext⟩ := hadded found hfound
        exact ⟨hbare.1, hbare.2, htext.1⟩
      · exact hfine.plain found hfound
    · rw [List.forall_mem_cons]
      refine ⟨List.mem_cons_self, fun other hother => ?_⟩
      rw [List.map_cons, List.map_append]
      exact List.mem_cons_of_mem _ (List.mem_append_right _ (hfine.old other hother))
    · rw [List.forall_mem_cons]
      refine ⟨Or.inr ⟨item, List.mem_cons_self, rfl⟩, fun found hfound => ?_⟩
      rcases List.mem_append.mp hfound with hfound | hfound
      · exact Or.inl (hadded found hfound).1
      · rcases hfine.new found hfound with hnew | ⟨other, hother, heq'⟩
        · exact Or.inl hnew
        · exact Or.inr ⟨other, List.mem_cons_of_mem _ hother, heq'⟩
    · rw [List.forall_mem_cons]
      constructor
      · intro hin
        cases added with
        | nil =>
          have hsame : gate.redact item.2 = start := heq.trans (List.append_nil start)
          rw [hsame] at hin
          exact absurd hin hstart.1
        | cons first added =>
          exact ⟨first, List.mem_cons_of_mem _ (List.mem_append_left _ List.mem_cons_self),
            (hadded first List.mem_cons_self).1⟩
      · intro other hother hin
        obtain ⟨found, hfound, hnew⟩ := hfine.shown other hother hin
        exact ⟨found, List.mem_cons_of_mem _ (List.mem_append_right _ hfound), hnew⟩

/-! ## Tags that are read -/

theorem readTag_close_eq {text : Str} {name : Str} (h : readTag text = some (.close name)) :
    text = lit "/" ++ name := by
  unfold readTag at h
  split_ifs at h with hdeclaration
  · cases h
  · cases text with
    | nil => cases h
    | cons c rest =>
      dsimp only at h
      split_ifs at h with hc
      · rw [hc]
        cases h
        rfl
      · split at h
        · split_ifs at h
          all_goals cases h
        · cases h

/-- A tag without quotation marks has no tilde. -/
theorem readTag_no_tilde {text : Str} {tag : XmlTag} (h : readTag text = some tag)
    (hquote : codePoint '"' ∉ text) : codePoint '~' ∉ text := by
  have hname : ∀ name, isName name = true → codePoint '~' ∉ name := fun name =>
    isName_no (by decide)
  unfold readTag at h
  split_ifs at h with hdeclaration
  · rw [hdeclaration]
    decide
  · cases text with
    | nil => exact List.not_mem_nil
    | cons c rest =>
      dsimp only at h
      split_ifs at h with hc hrest
      · rw [List.mem_cons, hc, not_or]
        exact ⟨by decide, hname rest hrest⟩
      · have hsplit := List.takeWhile_append_dropWhile (p := fun d => !isXmlSpace d) (l := c :: rest)
        generalize (c :: rest).takeWhile (fun d => !isXmlSpace d) = name at h hsplit
        generalize (c :: rest).dropWhile (fun d => !isXmlSpace d) = behind at h hsplit
        have hbehind : Unbroken isQuote behind := by
          refine unbroken_quote fun hin => hquote ?_
          rw [← hsplit]
          exact List.mem_append_right _ hin
        rw [hbehind.linesOf, readAttrs] at h
        rw [← hsplit, List.mem_append, not_or]
        split_ifs at h with hnil hend
        · by_cases hok : (isName name && decide (([] : List (Str × Str)).map Prod.fst).Nodup) = true
          · rw [Bool.and_eq_true] at hok
            rw [hnil]
            exact ⟨hname name hok.1, List.not_mem_nil⟩
          · dsimp only at h
            rw [if_neg hok] at h
            cases h
        · by_cases hok : (isName name && decide (([] : List (Str × Str)).map Prod.fst).Nodup) = true
          · rw [Bool.and_eq_true] at hok
            rw [hend]
            exact ⟨hname name hok.1, by decide⟩
          · dsimp only at h
            rw [if_neg hok] at h
            cases h

/-- Parts that end in neither of the two ways are not read. -/
theorem readAttrs_bad {attrs : List (Str × Str)} {last : Str}
    (hkeys : ∀ a ∈ attrs, isName a.1 = true) (hvalues : ∀ a ∈ attrs, codePoint '"' ∉ a.2)
    (hlast : codePoint '"' ∉ last) (hnil : last ≠ []) (hend : last ≠ lit " /") :
    readAttrs (linesOf isQuote (rawAttrs attrs ++ last)) = none := by
  induction attrs with
  | nil =>
    have hraw : rawAttrs [] ++ last = last := rfl
    rw [hraw, (unbroken_quote hlast).linesOf, readAttrs, if_neg hnil, if_neg hend]
  | cons a attrs ih =>
    rw [List.forall_mem_cons] at hkeys hvalues
    have hkey : Unbroken isQuote (lit " " ++ (a.1 ++ lit "=")) := by
      rw [unbroken_append, unbroken_append]
      exact ⟨by decide, unbroken_quote (isName_no (by decide) hkeys.1), by decide⟩
    rw [rawAttrs_cons, linesOf_append_cons _ _ (by decide), linesOf_append_cons _ _ (by decide),
      hkey.linesOf, (unbroken_quote hvalues.1).linesOf, List.singleton_append, List.singleton_append]
    have hrest := ih hkeys.2 hvalues.2
    rw [linesOf_eq] at hrest ⊢
    rw [readAttrs, hrest]
    cases readKey (lit " " ++ (a.1 ++ lit "="))
    · rfl
    · rfl

theorem readTag_bad {name : Str} {attrs : List (Str × Str)} {last : Str} (hname : isName name = true)
    (hattrs : attrs ≠ []) (hkeys : ∀ a ∈ attrs, isName a.1 = true)
    (hvalues : ∀ a ∈ attrs, codePoint '"' ∉ a.2) (hlast : codePoint '"' ∉ last) (hnil : last ≠ [])
    (hend : last ≠ lit " /") : readTag (name ++ (rawAttrs attrs ++ last)) = none := by
  have hhead : ∀ c ∈ (rawAttrs attrs ++ last).head?, isXmlSpace c = true := by
    intro c hc
    obtain ⟨a, attrs, rfl⟩ := List.exists_cons_of_ne_nil hattrs
    rw [← Option.some.inj hc]
    decide
  have hread := readAttrs_bad hkeys hvalues hlast hnil hend
  rw [readTag_split hname hhead, hread]

/-! ## The home path in a tag -/

/-- A text is replaced nowhere, or what it was taken out of is known. -/
theorem subst_text_cut {v : Str} {prev : Option CodePoint} {s out : Str}
    (h : Subst (textMatcher v) homePlaceholder prev s out) :
    out = s ∨ ∃ a b, s = a ++ (v ++ b) ∧ ∀ c ∈ out, c ∈ a ∨ c ∈ b ∨ c ∈ homePlaceholder := by
  induction h with
  | nil => exact Or.inl rfl
  | @keep prev c rest out hnone hrest ih =>
    rcases ih with rfl | ⟨a, b, rfl, hout⟩
    · exact Or.inl rfl
    · refine Or.inr ⟨c :: a, b, rfl, fun d hd => ?_⟩
      rcases List.mem_cons.mp hd with rfl | hd
      · exact Or.inl List.mem_cons_self
      · exact (hout d hd).imp_left fun hin => List.mem_cons_of_mem _ hin
  | @drop prev c seg rest out hsome hrest ih =>
    obtain ⟨hstart, hlen⟩ := find_text_eq_some hsome
    have hv : v = c :: seg := eq_of_start hstart hlen
    refine Or.inr ⟨[], rest, by rw [hv]; rfl, fun d hd => Or.inr ?_⟩
    rcases List.mem_append.mp hd with hd | hd
    · exact Or.inr hd
    · exact subst_mem hrest hd

/-- A path that is found takes the only separator with it. -/
theorem redactVariant_one_slash {s v : Str} (hback : codePoint '\\' ∉ s)
    (hslash : s.count (codePoint '/') = 1) (hv : codePoint '/' ∈ v ∨ codePoint '\\' ∈ v)
    (hne : redactVariant s v ≠ s) :
    codePoint '~' ∈ redactVariant s v ∧ codePoint '/' ∉ redactVariant s v ∧
      codePoint '\\' ∉ redactVariant s v := by
  have hsub : redactVariant s v = subAll (textMatcher v) homePlaceholder s := by
    rw [redactVariant_eq]
    split_ifs with hnil
    · rw [redactVariant_eq, if_pos hnil] at hne
      exact absurd rfl hne
    · rfl
  rw [hsub] at hne ⊢
  constructor
  · by_contra hnot
    exact hne (@subAll_eq_self_of_not_mem _ _ _ (codePoint '~') s (by decide) hnot)
  · rcases subst_text_cut (@subst_subAll _ (textMatcher v) homePlaceholder s) with heq | ⟨a, b, heq, hout⟩
    · exact absurd heq hne
    · have hv : codePoint '/' ∈ v := by
        rcases hv with hv | hv
        · exact hv
        · exact absurd (heq ▸ List.mem_append_right _ (List.mem_append_left _ hv)) hback
      rw [heq, List.count_append, List.count_append] at hslash
      have hpos := List.count_pos_iff.mpr hv
      have ha : codePoint '/' ∉ a := List.count_eq_zero.mp (by omega)
      have hb : codePoint '/' ∉ b := List.count_eq_zero.mp (by omega)
      rw [heq, List.mem_append, List.mem_append, not_or, not_or] at hback
      constructor
      · intro hin
        rcases hout _ hin with hin | hin | hin
        · exact ha hin
        · exact hb hin
        · exact absurd hin (by decide)
      · intro hin
        rcases hout _ hin with hin | hin | hin
        · exact hback.1 hin
        · exact hback.2.2 hin
        · exact absurd hin (by decide)

/-- A home path is found where the only separator of a text is, once. -/
theorem one_slash (h : PlainMachine gate) {s : Str} (hback : codePoint '\\' ∉ s)
    (hslash : s.count (codePoint '/') = 1) :
    gate.redactHome s = s ∨ codePoint '~' ∈ gate.redactHome s := by
  have hall : ∀ vs : List Str, (∀ v ∈ vs, codePoint '/' ∈ v ∨ codePoint '\\' ∈ v) →
      vs.foldl redactVariant s = s ∨ codePoint '~' ∈ vs.foldl redactVariant s := by
    intro vs
    induction vs with
    | nil => exact fun _ => Or.inl rfl
    | cons v vs ih =>
      intro hvs
      rw [List.forall_mem_cons] at hvs
      rw [List.foldl_cons]
      by_cases hsame : redactVariant s v = s
      · rw [hsame]
        exact ih hvs.2
      · obtain ⟨htilde, hslash', hback'⟩ := redactVariant_one_slash hback hslash hvs.1 hsame
        rw [foldl_redactVariant_eq hvs.2 hslash' hback']
        exact Or.inr htilde
  exact hall _ h.absolute

end DevRepro.Reports
