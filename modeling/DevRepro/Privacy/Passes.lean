import DevRepro.Privacy.Gate

/-!
# What a pass of the gate leaves

A pass replaces segments of a text that may hold escapes, and may cut an escape in two.
`Traces` says what is left all the same: the escapes that are still whole are those of
the text, and a part of the result that belongs to no placeholder was there before.
-/

namespace DevRepro.Privacy

open DevRepro.Python DevRepro.Lib Scan

/-- A character at which a placeholder starts or ends. -/
def isMark (c : CodePoint) : Bool :=
  c == codePoint '~' || c == codePoint '<' || c == codePoint '>'

def Unmarked (s : Str) : Prop := ∀ c ∈ s, ¬isMark c = true

def placeholders : List Str := [homePlaceholder, userPlaceholder, emailPlaceholder]

/-- A text that is no part of a placeholder. -/
def Foreign (w : Str) : Prop := ∀ p ∈ placeholders, ¬w <:+: p

theorem isMark_cases {c : CodePoint} (h : isMark c = true) :
    c = codePoint '~' ∨ c = codePoint '<' ∨ c = codePoint '>' := by
  unfold isMark at h
  rw [Bool.or_eq_true, Bool.or_eq_true, beq_iff_eq, beq_iff_eq, beq_iff_eq] at h
  rcases h with (h | h) | h
  · exact Or.inl h
  · exact Or.inr (Or.inl h)
  · exact Or.inr (Or.inr h)

theorem isMark_spoils : Spoils isMark where
  simple := by
    intro c h
    rcases isMark_cases h with rfl | rfl | rfl <;> decide
  unit := by decide
  hex := by
    intro c h
    rcases isMark_cases h with rfl | rfl | rfl <;> decide

/-- A text whose escapes are whole or spoilt. -/
def Accepted (s : Str) : Prop := runAll (escapeStep isMark) .none s ≠ none

/-- A text goes on with no word character, or with a spelling of the home path. -/
def Opens (variants : List Str) (s : Str) : Prop :=
  isBoundary s.head? = true ∨ ∃ v ∈ variants, v ≠ [] ∧ v <+: s

/-- A pass that replaces what a matcher takes by a placeholder. -/
structure IsPass (variants : List Str) (m : Matcher CodePoint) (new : Str) : Prop where
  placeholder : new ∈ placeholders
  /-- No match ends with a backslash. -/
  takes : ∀ seg, m.Takes seg → seg.getLast? ≠ some (codePoint '\\')
  /-- Behind a word character that is kept, a match is a spelling of the home path. -/
  opens : ∀ p c s n, isWordChar c = true → (∀ k, m.find p (c :: s) ≠ some (k + 1)) →
    m.find (some c) s = some (n + 1) → Opens variants s

theorem placeholder_fenced {new : Str} (h : new ∈ placeholders) :
    Fenced (fun c => isMark c = true) new := by
  have hhome : Fenced (fun c => isMark c = true) homePlaceholder :=
    ⟨⟨codePoint '~', by decide, by decide⟩, codePoint '~', by decide, by decide⟩
  have huser : Fenced (fun c => isMark c = true) userPlaceholder :=
    ⟨⟨codePoint '<', by decide, by decide⟩, codePoint '>', by decide, by decide⟩
  have hemail : Fenced (fun c => isMark c = true) emailPlaceholder :=
    ⟨⟨codePoint '<', by decide, by decide⟩, codePoint '>', by decide, by decide⟩
  simp only [placeholders, List.mem_cons, List.not_mem_nil, or_false] at h
  rcases h with rfl | rfl | rfl
  · exact hhome
  · exact huser
  · exact hemail

theorem placeholder_plain {new : Str} (h : new ∈ placeholders) :
    new.all (fun c => c != codePoint '\\' && isPrintableAscii c) = true := by
  have hall : ∀ p ∈ placeholders,
      p.all (fun c => c != codePoint '\\' && isPrintableAscii c) = true := by decide
  exact hall new h

/-! ## Escapes -/

theorem escapeStep_eq_slash {e : Escape} {c : CodePoint}
    (h : escapeStep isMark e c = some .slash) : c = codePoint '\\' := by
  unfold escapeStep at h
  cases e with
  | none =>
    dsimp only at h
    by_contra hc
    rw [if_neg hc] at h
    cases h
  | slash =>
    dsimp only at h
    repeat' split at h
    all_goals cases h
  | hex value left =>
    dsimp only at h
    repeat' split at h
    all_goals cases h

theorem escapeStep_hex_next {value left : Nat} {c : CodePoint} {e : Escape}
    (h : escapeStep isMark (.hex value left) c = some e) :
    c ≠ codePoint '\\' ∧ (e = .none ∨ ∃ value' left', e = .hex value' left') := by
  constructor
  · rintro rfl
    have hnone : escapeStep isMark (.hex value left) (codePoint '\\') = none := by
      have hmark : isMark (codePoint '\\') = false := by decide
      have hhex : hexDigit? (codePoint '\\') = none := by decide
      simp [escapeStep, hmark, hhex]
    rw [hnone] at h
    cases h
  · unfold escapeStep at h
    dsimp only at h
    repeat' split at h
    all_goals cases h
    · exact Or.inl rfl
    · exact Or.inl rfl
    · exact Or.inr ⟨_, _, rfl⟩

theorem escapeStep_mark {e : Escape} {c : CodePoint} (hc : isMark c = true) :
    escapeStep isMark e c = some .none := by
  have hslash : c ≠ codePoint '\\' := by
    rintro rfl
    exact absurd hc (by decide)
  cases e with
  | none => simp [escapeStep, hslash]
  | slash => simp [escapeStep, hc]
  | hex value left => simp [escapeStep, hc]

/-- A placeholder ends or spoils any escape. -/
theorem run_placeholder {new : Str} (h : new ∈ placeholders) (e : Escape) :
    runAll (escapeStep isMark) e new = some .none := by
  obtain ⟨c, hc, hmark⟩ := (placeholder_fenced h).head
  have hplain := placeholder_plain h
  cases new with
  | nil => cases hc
  | cons d rest =>
    obtain rfl : d = c := by simpa using hc
    rw [List.all_cons, Bool.and_eq_true] at hplain
    have hrest : Settled isMark rest := by
      refine settled_of_no_slash fun e he => ?_
      have := List.all_eq_true.mp hplain.2 e he
      rw [Bool.and_eq_true, bne_iff_ne] at this
      exact this.1
    rw [runAll_cons, escapeStep_mark hmark, Option.bind_some]
    exact hrest

theorem run_eq_slash {seg : Str} {e : Escape} (hne : seg ≠ [])
    (h : runAll (escapeStep isMark) e seg = some .slash) :
    seg.getLast? = some (codePoint '\\') := by
  obtain ⟨front, c, rfl⟩ := (List.eq_nil_or_concat' _).resolve_left hne
  obtain ⟨mid, -, hmid⟩ := runAll_append_eq_some.mp h
  rw [runAll_cons, Option.bind_eq_some_iff] at hmid
  obtain ⟨last, hlast, heq⟩ := hmid
  cases heq
  rw [List.getLast?_append, escapeStep_eq_slash hlast]
  rfl

/-- The escape behind a rewritten text is the same, or the text had begun one whose start
was replaced. -/
def Close (e e' : Escape) : Prop := e' = e ∨ e' = .none ∧ ∃ value left, e = .hex value left

section Pass

variable {variants : List Str} {m : Matcher CodePoint} {new : Str}

theorem IsPass.close (hpass : IsPass variants m new) {a a' : Str}
    (h : Rewritten m.Takes new a a') {e : Escape}
    (hrun : runAll (escapeStep isMark) .none a = some e) :
    ∃ e', runAll (escapeStep isMark) .none a' = some e' ∧ Close e e' := by
  refine h.run (R := Close) ?_ ?_ (Or.inl rfl) hrun
  · rintro s t c s' (rfl | ⟨rfl, value, left, rfl⟩) hstep
    · exact ⟨s', hstep, Or.inl rfl⟩
    · obtain ⟨hslash, hnext⟩ := escapeStep_hex_next hstep
      refine ⟨.none, by simp [escapeStep, hslash], ?_⟩
      rcases hnext with rfl | hnext
      · exact Or.inl rfl
      · exact Or.inr ⟨rfl, hnext⟩
  · rintro s t seg s' - hseg hstep
    refine ⟨.none, run_placeholder hpass.placeholder t, ?_⟩
    obtain ⟨_, _, hne, _⟩ := id hseg
    cases s' with
    | none => exact Or.inl rfl
    | slash => exact absurd (run_eq_slash hne hstep) (hpass.takes seg hseg)
    | hex value left => exact Or.inr ⟨rfl, value, left, rfl⟩

/-- What a kept place tells about the text, when an escape starts there. -/
theorem IsPass.settled (hpass : IsPass variants m new) {a a' w b : Str}
    (h : Rewritten m.Takes new a a') (haccepted : Accepted (a ++ (w ++ b)))
    (hsettled : Settled isMark a') (hw : w.head? = some (codePoint '\\')) : Settled isMark a := by
  cases hrun : runAll (escapeStep isMark) .none a with
  | none =>
    refine absurd ?_ haccepted
    rw [runAll_append, hrun]
    rfl
  | some e =>
    obtain ⟨e', he', hclose⟩ := hpass.close h hrun
    obtain rfl : e' = .none := Option.some.inj (he'.symm.trans hsettled)
    rcases hclose with rfl | ⟨-, value, left, rfl⟩
    · exact hrun
    · -- a backslash does not go on with an escape
      refine absurd ?_ haccepted
      cases w with
      | nil => cases hw
      | cons c w =>
        obtain rfl : c = codePoint '\\' := by simpa using hw
        rw [runAll_append, hrun, Option.bind_some, List.cons_append, runAll_cons]
        cases hstep : escapeStep isMark (.hex value left) (codePoint '\\') with
        | none => rfl
        | some e => exact absurd rfl (escapeStep_hex_next hstep).1

end Pass

/-! ## Parts -/

theorem subst_inv {m : Matcher CodePoint} {new : Str} {prev : Option CodePoint} {s out : Str}
    (h : Subst m new prev s out) : s = [] ∧ out = [] ∨
      (∃ c rest out', s = c :: rest ∧ out = c :: out' ∧
        (∀ n, m.find prev (c :: rest) ≠ some (n + 1)) ∧ Subst m new (some c) rest out') ∨
      ∃ c seg rest out', s = c :: seg ++ rest ∧ out = new ++ out' ∧
        m.find prev (c :: seg ++ rest) = some (c :: seg).length := by
  cases h with
  | nil => exact Or.inl ⟨rfl, rfl⟩
  | keep hnone h => exact Or.inr (Or.inl ⟨_, _, _, rfl, rfl, hnone, h⟩)
  | drop hsome h => exact Or.inr (Or.inr ⟨_, _, _, _, rfl, rfl, hsome⟩)

section Pass

variable {variants : List Str} {m : Matcher CodePoint} {new : Str}

/-- A character without a mark at the start of the result was kept. -/
theorem subst_kept (hnew : new ∈ placeholders) {prev : Option CodePoint} {c : CodePoint}
    {s out : Str} (hc : ¬isMark c = true) (h : Subst m new prev (c :: s) (c :: out)) :
    (∀ n, m.find prev (c :: s) ≠ some (n + 1)) ∧ Subst m new (some c) s out := by
  rcases subst_inv h with ⟨h, -⟩ | ⟨d, rest, out', hs, hout, hnone, hrest⟩ | ⟨d, seg, rest, out', hs, hout, -⟩
  · cases h
  · cases hs
    cases hout
    exact ⟨hnone, hrest⟩
  · obtain ⟨e, he, hmark⟩ := (placeholder_fenced hnew).head
    cases new with
    | nil => cases he
    | cons f new =>
      obtain rfl : f = e := by simpa using he
      exact absurd ((List.cons.inj hout).1 ▸ hmark) hc

/-- What goes on behind a kept word character goes on so in the text. -/
theorem IsPass.opens_of_subst (hpass : IsPass variants m new)
    (hvariants : ∀ v ∈ variants, Unmarked v) {prev : Option CodePoint} {c : CodePoint}
    (hword : isWordChar c = true) (hc : ¬isMark c = true) {s out : Str}
    (h : Subst m new prev (c :: s) (c :: out)) (hopens : Opens variants out) :
    Opens variants s := by
  obtain ⟨hnone, hrest⟩ := subst_kept hpass.placeholder hc h
  rcases hopens with hhead | ⟨v, hv, hne, behind, rfl⟩
  · rcases subst_inv hrest with ⟨rfl, -⟩ | ⟨d, rest, out', rfl, rfl, -, -⟩ | ⟨d, seg, rest, out', rfl, -, hsome⟩
    · exact Or.inl rfl
    · exact Or.inl hhead
    · exact hpass.opens prev c _ _ hword hnone hsome
  · obtain ⟨b, rfl, -⟩ := hrest.start (placeholder_fenced hpass.placeholder) (hvariants v hv)
    exact Or.inr ⟨v, hv, hne, List.prefix_append _ _⟩

end Pass

/-- A result traces back to a text. -/
structure Traces (variants : List Str) (text out : Str) : Prop where
  accepted : Accepted text → Accepted out
  printable : (∀ c ∈ text, isPrintableAscii c = true) → ∀ c ∈ out, isPrintableAscii c = true
  part : ∀ w, w ≠ [] → Unmarked w → Foreign w → ∀ a' b', out = a' ++ (w ++ b') →
    ∃ a b, text = a ++ (w ++ b) ∧
      (Accepted text → Settled isMark a' → w.head? = some (codePoint '\\') → Settled isMark a) ∧
      ((∀ c ∈ w.getLast?, isWordChar c = true) → Opens variants b' → Opens variants b)

theorem Traces.refl (variants : List Str) (text : Str) : Traces variants text text where
  accepted := id
  printable := id
  part := fun _ _ _ _ a' b' h => ⟨a', b', h, fun _ h _ => h, fun _ h => h⟩

theorem Traces.trans {variants : List Str} {s t u : Str} (hst : Traces variants s t)
    (htu : Traces variants t u) : Traces variants s u where
  accepted := fun h => htu.accepted (hst.accepted h)
  printable := fun h => htu.printable (hst.printable h)
  part := by
    intro w hne hw hforeign a'' b'' hu
    obtain ⟨a', b', ht, hsettled', hopens'⟩ := htu.part w hne hw hforeign a'' b'' hu
    obtain ⟨a, b, hs, hsettled, hopens⟩ := hst.part w hne hw hforeign a' b' ht
    exact ⟨a, b, hs,
      fun hacc ha hhead => hsettled hacc (hsettled' (hst.accepted hacc) ha hhead) hhead,
      fun hlast hb => hopens hlast (hopens' hlast hb)⟩

theorem rewritten_mem {P : Str → Prop} {new a b : Str} (h : Rewritten P new a b) :
    ∀ c ∈ b, c ∈ a ∨ c ∈ new := by
  induction h with
  | nil => exact fun c hc => Or.inl hc
  | keep d h ih =>
    intro c hc
    rcases List.mem_cons.mp hc with rfl | hc
    · exact Or.inl List.mem_cons_self
    · exact (ih c hc).imp (List.mem_cons_of_mem _) id
  | drop hseg h ih =>
    intro c hc
    rcases List.mem_append.mp hc with hc | hc
    · exact Or.inr hc
    · exact (ih c hc).imp (List.mem_append_right _) id

/-- A pass traces back. -/
theorem IsPass.traces {variants : List Str} {m : Matcher CodePoint} {new : Str}
    (hpass : IsPass variants m new) (hvariants : ∀ v ∈ variants, Unmarked v) (text : Str) :
    Traces variants text (subAll m new text) where
  accepted := by
    intro h hout
    cases hrun : runAll (escapeStep isMark) .none text with
    | none => exact h hrun
    | some e =>
      obtain ⟨e', he', -⟩ := hpass.close (subst_subAll text).rewritten hrun
      rw [he'] at hout
      cases hout
  printable := by
    intro h c hc
    rcases rewritten_mem (subst_subAll text).rewritten c hc with hc | hc
    · exact h c hc
    · have hplain := List.all_eq_true.mp (placeholder_plain hpass.placeholder) c hc
      rw [Bool.and_eq_true] at hplain
      exact hplain.2
  part := by
    intro w hne hw hforeign a' b' hout
    have hfenced := placeholder_fenced hpass.placeholder
    rcases (subst_subAll text).split hfenced hw hne hout with hinside | ⟨a, b, htext, hrew, hsub, -⟩
    · obtain ⟨x, y, hnew, -, -⟩ := hinside
      exact absurd ⟨x, y, hnew.symm⟩ (hforeign new hpass.placeholder)
    · refine ⟨a, b, htext, fun hacc ha hhead => ?_, fun hlast hopens => ?_⟩
      · rw [htext] at hacc
        exact hpass.settled hrew hacc ha hhead
      · -- the last character of the part is kept
        obtain ⟨front, c, rfl⟩ := (List.eq_nil_or_concat' _).resolve_left hne
        have hc : isWordChar c = true := hlast c (by simp)
        have hmark : ¬isMark c = true := hw c (by simp)
        rw [List.append_assoc, List.append_assoc] at hsub
        obtain ⟨b₀, hb, hsub'⟩ := hsub.start hfenced fun d hd => hw d (List.mem_append_left _ hd)
        obtain rfl : [c] ++ b = b₀ := List.append_cancel_left hb
        exact hpass.opens_of_subst hvariants hc hmark hsub' hopens

/-! ## The passes of the gate -/

theorem find_text_eq_some {v s : Str} {p : Option CodePoint} {n : Nat}
    (h : (textMatcher v).find p s = some n) : v <+: s ∧ v.length = n := by
  change (if v.isPrefixOf s then some v.length else none) = some n at h
  split_ifs at h with hstart
  exact ⟨List.isPrefixOf_iff_prefix.mp hstart, Option.some.inj h⟩

theorem find_user_eq_some {name s : Str} {p : Option CodePoint} {n : Nat}
    (h : (userMatcher name).find p s = some n) :
    isBoundary p = true ∧ name <+: s ∧ isBoundary (s.drop name.length).head? = true ∧
      name.length = n := by
  change (if isBoundary p && name.isPrefixOf s && isBoundary (s.drop name.length).head? then
    some name.length else none) = some n at h
  split_ifs at h with hmatch
  rw [Bool.and_eq_true, Bool.and_eq_true] at hmatch
  exact ⟨hmatch.1.1, List.isPrefixOf_iff_prefix.mp hmatch.1.2, hmatch.2, Option.some.inj h⟩

/-- A match of the length of a start of the text is that start. -/
theorem eq_of_start {v seg rest : Str} (h : v <+: seg ++ rest) (hlen : v.length = seg.length) :
    v = seg := by
  obtain ⟨t, ht⟩ := h
  exact (List.append_inj ht hlen).1

theorem homePass {variants : List Str} {v : Str} (hv : v ∈ variants)
    (hlast : v.getLast? ≠ some (codePoint '\\')) :
    IsPass variants (textMatcher v) homePlaceholder where
  placeholder := by simp [placeholders]
  takes := by
    rintro seg ⟨p, rest, -, hfind⟩
    obtain ⟨hstart, hlen⟩ := find_text_eq_some hfind
    rw [← eq_of_start hstart hlen]
    exact hlast
  opens := by
    intro p c s n _ _ hfind
    obtain ⟨hstart, hlen⟩ := find_text_eq_some hfind
    refine Or.inr ⟨v, hv, ?_, hstart⟩
    rintro rfl
    cases hlen

theorem userPass (variants : List Str) {name : Str}
    (hlast : name.getLast? ≠ some (codePoint '\\')) :
    IsPass variants (userMatcher name) userPlaceholder where
  placeholder := by simp [placeholders]
  takes := by
    rintro seg ⟨p, rest, -, hfind⟩
    obtain ⟨-, hstart, -, hlen⟩ := find_user_eq_some hfind
    rw [← eq_of_start hstart hlen]
    exact hlast
  opens := by
    intro p c s n hc _ hfind
    obtain ⟨hbound, -⟩ := find_user_eq_some hfind
    simp [isBoundary, hc] at hbound

theorem isLetter_ne_slash {c : CodePoint} (h : isLetter c = true) : c ≠ codePoint '\\' := by
  rintro rfl
  exact absurd h (by decide)

theorem isWordChar_local {c : CodePoint} (h : isWordChar c = true) : isLocalChar c = true := by
  simp [isLocalChar, h]

/-- What is behind an address starts with no letter. -/
theorem find_email_eq_some {seg rest : Str} {p : Option CodePoint}
    (h : emailMatcher.find p (seg ++ rest) = some seg.length) :
    (∃ c ∈ seg.getLast?, isLetter c = true) ∧ ∀ c ∈ rest.head?, isLetter c = false := by
  obtain ⟨seg', rest', heq, hlen, hlast, hrest⟩ := emailMatch_spec h
  obtain ⟨rfl, rfl⟩ := List.append_inj heq hlen.symm
  exact ⟨hlast, hrest⟩

theorem emailPass (variants : List Str) : IsPass variants emailMatcher emailPlaceholder where
  placeholder := by simp [placeholders]
  takes := by
    rintro seg ⟨p, rest, -, hfind⟩ hlast
    obtain ⟨c, hc, hletter⟩ := (find_email_eq_some hfind).1
    rw [hlast, Option.mem_def, Option.some.injEq] at hc
    exact isLetter_ne_slash hletter hc.symm
  opens := by
    intro p c s n hc hnone hfind
    exact absurd (emailMatch_cons (isWordChar_local hc) hfind) (hnone (n + 1))

section Gate

variable {normcase : Str → Str} {gate : PrivacyGate normcase}

/-- A gate whose paths and name have no character of a placeholder, and end with no
backslash. -/
structure PrivacyGate.Ordinary (gate : PrivacyGate normcase) : Prop where
  variants_unmarked : ∀ v ∈ gate.homeVariants, Unmarked v
  variants_end : ∀ v ∈ gate.homeVariants, v.getLast? ≠ some (codePoint '\\')
  /-- The home path is absolute. -/
  home_path : codePoint '/' ∈ gate.home ∨ codePoint '\\' ∈ gate.home
  username_nonempty : gate.username ≠ []
  username_unmarked : Unmarked gate.username
  username_end : gate.username.getLast? ≠ some (codePoint '\\')

theorem PrivacyGate.Ordinary.home_mem (gate : PrivacyGate normcase) :
    gate.home ∈ gate.homeVariants :=
  (gate.mem_homeVariants gate.home).mpr (Or.inl rfl)

theorem redactVariants_traces (h : gate.Ordinary) {vs : List Str}
    (hvs : ∀ v ∈ vs, v ∈ gate.homeVariants) (text : Str) :
    Traces gate.homeVariants text (vs.foldl redactVariant text) := by
  induction vs generalizing text with
  | nil => exact Traces.refl _ text
  | cons v vs ih =>
    rw [List.forall_mem_cons] at hvs
    refine Traces.trans ?_ (ih hvs.2 (redactVariant text v))
    unfold redactVariant
    split_ifs
    · exact (homePass hvs.1 (h.variants_end v hvs.1)).traces h.variants_unmarked text
    · exact Traces.refl _ text

theorem redactUser_traces (h : gate.Ordinary) (text : Str) :
    Traces gate.homeVariants text (gate.redactUser text) := by
  unfold PrivacyGate.redactUser
  split_ifs
  · exact (userPass _ h.username_end).traces h.variants_unmarked text
  · exact Traces.refl _ text

theorem redact_after_home (h : gate.Ordinary) (text : Str) :
    Traces gate.homeVariants (gate.redactHome text) (gate.redact text) :=
  (redactUser_traces h _).trans ((emailPass _).traces h.variants_unmarked _)

theorem redact_traces (h : gate.Ordinary) (text : Str) :
    Traces gate.homeVariants text (gate.redact text) :=
  (redactVariants_traces h (fun _ hv => hv) text).trans (redact_after_home h text)

/-- A pass for a path leaves no such path. -/
theorem redactVariant_absent {v : Str} (hne : v ≠ []) (hv : Unmarked v) (hforeign : Foreign v)
    (text : Str) : ¬v <:+: redactVariant text v := by
  rintro ⟨a', b', hout⟩
  unfold redactVariant at hout
  have hhome : homePlaceholder ∈ placeholders := by simp [placeholders]
  split_ifs at hout with hin
  · rw [List.append_assoc] at hout
    rcases (subst_subAll text).split (placeholder_fenced hhome) hv hne hout.symm with
      ⟨x, y, hnew, -, -⟩ | ⟨a, b, -, -, hsub, -⟩
    · exact hforeign _ hhome ⟨x, y, hnew.symm⟩
    · -- the scan would have matched where the path starts
      obtain ⟨c, rest, rfl⟩ := List.exists_cons_of_ne_nil hne
      obtain ⟨hnone, -⟩ := subst_kept hhome (hv c List.mem_cons_self) hsub
      refine hnone rest.length ?_
      have hstart : (c :: rest).isPrefixOf (c :: (rest ++ b)) = true :=
        List.isPrefixOf_iff_prefix.mpr ⟨b, rfl⟩
      change (if (c :: rest).isPrefixOf (c :: (rest ++ b)) then some (c :: rest).length else none) = _
      rw [if_pos hstart]
      rfl
  · exact hin ⟨hne, containsText_iff.mpr ⟨a', b', hout⟩⟩

/-- The home path as it is spelt is gone from the text. -/
theorem redact_home_absent (h : gate.Ordinary) (hne : gate.home ≠ []) (hforeign : Foreign gate.home)
    (text : Str) : ¬gate.home <:+: gate.redact text := by
  have hunmarked := h.variants_unmarked _ (PrivacyGate.Ordinary.home_mem gate)
  -- what is absent from a text stays absent behind a later pass
  have hlater : ∀ {s t : Str}, Traces gate.homeVariants s t → ¬gate.home <:+: s →
      ¬gate.home <:+: t := by
    rintro s t htraces habsent ⟨a', b', ht⟩
    rw [List.append_assoc] at ht
    obtain ⟨a, b, hs, -, -⟩ := htraces.part _ hne hunmarked hforeign a' b' ht.symm
    exact habsent ⟨a, b, by rw [hs, List.append_assoc]⟩
  have hfold : ∀ (vs : List Str) (s : Str), (∀ v ∈ vs, v ∈ gate.homeVariants) → gate.home ∈ vs →
      ¬gate.home <:+: vs.foldl redactVariant s := by
    intro vs
    induction vs with
    | nil => exact fun s _ hmem => absurd hmem List.not_mem_nil
    | cons v vs ih =>
      intro s hvs hmem
      rw [List.forall_mem_cons] at hvs
      by_cases hrest : gate.home ∈ vs
      · exact ih _ hvs.2 hrest
      · obtain rfl : gate.home = v := (List.mem_cons.mp hmem).resolve_right hrest
        exact hlater (redactVariants_traces h hvs.2 _)
          (redactVariant_absent hne hunmarked hforeign s)
  exact hlater (redact_after_home h text)
    (hfold _ text (fun _ hv => hv) (PrivacyGate.Ordinary.home_mem gate))

end Gate

end DevRepro.Privacy
