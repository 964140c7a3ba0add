import DevRepro.Privacy.Markup
import DevRepro.Privacy.Report

/-!
# Redacting twice

A renderer redacts a report that the final pass has redacted.  A text in which `redact` finds
nothing is `Redacted`, and `redact_redacted` says for which paths and names each result is:
those that no placeholder spells and no pass uncovers.

A pass uncovers a name by what it takes beside the name: it is blocked by a word character, and
that character goes with an address or with another name.
-/

namespace DevRepro.Privacy

open DevRepro.Python DevRepro.Lib

variable {normcase : Str → Str} {gate : PrivacyGate normcase}

/-- A text with nothing to redact. -/
structure PrivacyGate.Redacted (gate : PrivacyGate normcase) (s : Str) : Prop where
  home : ∀ v ∈ gate.homeVariants, v ≠ [] → ¬v <:+: s
  username : gate.username ≠ [] → ∀ a b, s = a ++ (gate.username ++ b) → ¬Delimited a b
  address : ∀ a b, s = a ++ b → emailMatch b = none

/-- The words that stand delimited in placeholders. -/
def placeholderWords : List Str := ["user", "email", "redacted", "email-redacted"]

/-- No placeholder spells a path or the name, and no pass uncovers the name. -/
structure PrivacyGate.Stable (gate : PrivacyGate normcase) : Prop where
  home : ∀ v ∈ gate.homeVariants, v ≠ [] → Unmarked v ∧ Foreign v
  marks : Unmarked gate.username
  name : Anchored gate.username
  word : gate.username ∉ placeholderWords

/-! ## Texts with nothing to redact -/

theorem foldl_redactVariant_eq_self {vs : List Str} {s : Str} (h : ∀ v ∈ vs, v ≠ [] → ¬v <:+: s) :
    vs.foldl redactVariant s = s := by
  induction vs with
  | nil => rfl
  | cons v vs ih =>
    rw [List.forall_mem_cons] at h
    have hsame : redactVariant s v = s :=
      if_neg fun hin => h.1 hin.1 (containsText_iff.mp hin.2)
    rw [List.foldl_cons, hsame]
    exact ih h.2

theorem redactUser_eq_self {s : Str} (h : gate.username ≠ [] → ∀ a b,
    s = a ++ (gate.username ++ b) → ¬Delimited a b) : gate.redactUser s = s := by
  unfold PrivacyGate.redactUser
  split_ifs with hne
  · refine subAll_eq_self fun a b hs _ n hsome => ?_
    obtain ⟨hleft, ⟨t, rfl⟩, hright, -⟩ := find_user_eq_some hsome
    rw [List.drop_left] at hright
    exact h hne a t hs ⟨hleft, hright⟩
  · rfl

theorem redactEmail_eq_self {s : Str} (h : ∀ a b, s = a ++ b → emailMatch b = none) :
    subAll emailMatcher emailPlaceholder s = s := by
  refine subAll_eq_self fun a b hs _ n hsome => ?_
  have haddress : emailMatch b = some (n + 1) := hsome
  rw [h a b hs] at haddress
  cases haddress

theorem redact_of_redacted {s : Str} (h : gate.Redacted s) : gate.redact s = s := by
  have hhome : gate.redactHome s = s := foldl_redactVariant_eq_self h.home
  rw [PrivacyGate.redact, hhome, redactUser_eq_self h.username]
  exact redactEmail_eq_self h.address

/-! ## The result of the gate -/

/-- A pass makes no text that its placeholder is no part of. -/
theorem subAll_absent {m : Matcher CodePoint} {new w s : Str} (hnew : new ∈ placeholders)
    (hne : w ≠ []) (hw : Unmarked w) (hforeign : Foreign w) (h : ¬w <:+: s) :
    ¬w <:+: subAll m new s := by
  rintro ⟨a', b', hout⟩
  rw [List.append_assoc] at hout
  rcases (subst_subAll s).split (placeholder_fenced hnew) hw hne hout.symm with
    ⟨x, y, hxy, -, -⟩ | ⟨a, b, rfl, -, -, -⟩
  · exact hforeign new hnew ⟨x, y, hxy.symm⟩
  · exact h ⟨a, b, List.append_assoc a w b⟩

theorem foldl_redactVariant_absent {w : Str} (hne : w ≠ []) (hw : Unmarked w) (hforeign : Foreign w)
    {vs : List Str} {s : Str} (h : w ∈ vs ∨ ¬w <:+: s) : ¬w <:+: vs.foldl redactVariant s := by
  induction vs generalizing s with
  | nil => exact h.resolve_left List.not_mem_nil
  | cons v vs ih =>
    refine ih ?_
    by_cases hvw : v = w
    · exact Or.inr (hvw ▸ redactVariant_absent (hvw ▸ hne) (hvw ▸ hw) (hvw ▸ hforeign) s)
    · rcases h with hmem | habsent
      · exact Or.inl ((List.mem_cons.mp hmem).resolve_left fun heq => hvw heq.symm)
      · right
        unfold redactVariant
        split_ifs
        · exact subAll_absent (by simp [placeholders]) hne hw hforeign habsent
        · exact habsent

theorem redact_home_none (h : gate.Stable) {v : Str} (hv : v ∈ gate.homeVariants) (hne : v ≠ [])
    (text : Str) : ¬v <:+: gate.redact text := by
  obtain ⟨hmarks, hforeign⟩ := h.home v hv hne
  have hhome : ¬v <:+: gate.redactHome text :=
    foldl_redactVariant_absent hne hmarks hforeign (Or.inl hv)
  have huser : ¬v <:+: gate.redactUser (gate.redactHome text) := by
    unfold PrivacyGate.redactUser
    split_ifs
    · exact subAll_absent (by simp [placeholders]) hne hmarks hforeign hhome
    · exact hhome
  exact subAll_absent (by simp [placeholders]) hne hmarks hforeign huser

/-- A name inside the placeholder for addresses is one of its words. -/
theorem inside_email {name : Str} (hne : name ≠ []) (hmarks : Unmarked name) {a b : Str}
    (hdelimited : Delimited a b) (h : Inside emailPlaceholder a name b) :
    name ∈ placeholderWords := by
  obtain ⟨x, y, hxy, hxne, hyne, hxbound, hybound, -, -⟩ :=
    inside_bounds hne hmarks (by simp [placeholders]) hdelimited h
  have hstarts : ∀ x ∈ emailPlaceholder.inits, x ≠ [] → isBoundary x.getLast? = true →
      x = lit "<" ∨ x = lit "<email-" ∨ x = emailPlaceholder := by decide
  have hends : ∀ y ∈ emailPlaceholder.tails, y ≠ [] → isBoundary y.head? = true →
      y = lit ">" ∨ y = lit "-redacted>" ∨ y = emailPlaceholder := by decide
  have hx := hstarts x ((List.mem_inits _ _).mpr ⟨name ++ y, by rw [hxy, List.append_assoc]⟩) hxne
    hxbound
  have hy := hends y ((List.mem_tails _ _).mpr ⟨x ++ name, hxy.symm⟩) hyne hybound
  have hlen := congrArg List.length hxy
  rw [List.length_append, List.length_append] at hlen
  have hname := List.length_pos_of_ne_nil hne
  have hle : x.length + y.length ≤ emailPlaceholder.length := by omega
  -- the name is what the start and the end leave
  have hdrop : name = (emailPlaceholder.drop x.length).take (emailPlaceholder.length - x.length - y.length) := by
    have htake : emailPlaceholder.length - x.length - y.length = name.length := by omega
    rw [htake, hxy, List.append_assoc, List.drop_left, List.take_left]
  rw [hdrop]
  have hwhole : x.length < emailPlaceholder.length ∧ y.length < emailPlaceholder.length := by
    have hxpos := List.length_pos_of_ne_nil hxne
    have hypos := List.length_pos_of_ne_nil hyne
    omega
  rcases hx with rfl | rfl | rfl
  · rcases hy with rfl | rfl | rfl
    · decide
    · decide
    · exact absurd hwhole.2 (Nat.lt_irrefl _)
  · rcases hy with rfl | rfl | rfl
    · decide
    · exact absurd hle (by decide)
    · exact absurd hwhole.2 (Nat.lt_irrefl _)
  · exact absurd hwhole.1 (Nat.lt_irrefl _)

theorem redact_username_none (h : gate.Stable) (hne : gate.username ≠ []) {text a' b' : Str}
    (hout : gate.redact text = a' ++ (gate.username ++ b')) : ¬Delimited a' b' := by
  intro hdelimited
  rw [PrivacyGate.redact] at hout
  rcases email_delimited hne h.name h.marks hout with hinside | ⟨a, b, huser, hleft, hright⟩
  · exact h.word (inside_email hne h.marks hdelimited hinside)
  · rw [PrivacyGate.redactUser, if_pos hne] at huser
    have hdelimited₀ : Delimited a b := ⟨hleft ▸ hdelimited.1, hright ▸ hdelimited.2⟩
    have hinside := user_delimited hne h.name h.marks huser hdelimited₀
    obtain ⟨hwhole, -, -⟩ := inside_user hne h.marks hdelimited₀ hinside
    have hparts : lit "<" ++ (lit "user" ++ lit ">") = lit "<" ++ (gate.username ++ lit ">") :=
      hwhole.trans (List.append_assoc _ _ _)
    have hname : lit "user" = gate.username :=
      List.append_cancel_right (List.append_cancel_left hparts)
    exact h.word (hname ▸ List.mem_cons_self)

theorem noAddress_of_isMark {c : CodePoint} (h : isMark c = true) : NoAddress c := by
  rcases isMark_cases h with rfl | rfl | rfl
  · exact ⟨by decide, by decide, by decide⟩
  · exact ⟨by decide, by decide, by decide⟩
  · exact ⟨by decide, by decide, by decide⟩

/-- An address has no mark. -/
theorem emailMatch_unmarked {w b : Str} (h : emailMatch (w ++ b) = some w.length) : Unmarked w := by
  intro c hc hmark
  obtain ⟨p, q, rfl⟩ := List.append_of_mem hc
  rw [List.append_assoc, List.cons_append, emailMatch_separator (noAddress_of_isMark hmark)] at h
  obtain ⟨seg, rest, hp, hlen, -⟩ := emailMatch_spec h
  have hle := congrArg List.length hp
  rw [List.length_append, hlen, List.length_append, List.length_cons] at hle
  omega

/-- The pass for addresses leaves none. -/
theorem email_none {s a' b' : Str} (hout : subAll emailMatcher emailPlaceholder s = a' ++ b') :
    emailMatch b' = none := by
  by_contra hsome
  obtain ⟨n, hn⟩ := Option.ne_none_iff_exists'.mp hsome
  obtain ⟨w, rest, rfl, rfl, ⟨d, hd, -⟩, -⟩ := emailMatch_spec hn
  have hemail : emailPlaceholder ∈ placeholders := by simp [placeholders]
  have hmarks := emailMatch_unmarked hn
  have hne : w ≠ [] := by
    rintro rfl
    cases hd
  rcases (subst_subAll s).split (placeholder_fenced hemail) hmarks hne hout with
    ⟨x, y, hxy, -, -⟩ | ⟨a, b, -, -, hsub, -⟩
  · have hat : codePoint '@' ∈ w := by
      by_contra hnot
      exact emailMatch_kept hn [] (emailMatch_eq_none (by rwa [List.append_nil]))
    have hin : codePoint '@' ∈ emailPlaceholder :=
      hxy ▸ List.mem_append_left _ (List.mem_append_right _ hat)
    exact absurd hin (by decide)
  · -- the address was one in the text, where the scan has passed it
    obtain ⟨k, hk⟩ := Option.ne_none_iff_exists'.mp (emailMatch_kept hn b)
    obtain ⟨c, w, rfl⟩ := List.exists_cons_of_ne_nil hne
    obtain ⟨hnone, -⟩ := subst_kept hemail (hmarks c List.mem_cons_self) hsub
    obtain ⟨seg, t, -, rfl, ⟨e, he, -⟩, -⟩ := emailMatch_spec hk
    cases seg with
    | nil => cases he
    | cons f seg => exact hnone seg.length hk

/-- The gate leaves nothing to redact. -/
theorem redact_redacted (h : gate.Stable) (text : Str) : gate.Redacted (gate.redact text) where
  home := fun _ hv hne => redact_home_none h hv hne text
  username := fun hne _ _ hout => redact_username_none h hne hout
  address := fun _ _ hout => email_none hout

/-! ## Names that a second pass finds -/

/-- A text without a separator of paths. -/
def PathFree (s : Str) : Prop := codePoint '/' ∉ s ∧ codePoint '\\' ∉ s

/-- A machine as most are: its paths have separators, its account name has none and no at-sign, and
none has a character of a placeholder at its ends. -/
structure PrivacyGate.Common (gate : PrivacyGate normcase) : Prop where
  home : ∀ v ∈ gate.homeVariants, v ≠ [] → Unmarked v ∧ ¬PathFree v
  marks : Unmarked gate.username
  path : PathFree gate.username
  at_sign : codePoint '@' ∉ gate.username

theorem pathFree_append {a b : Str} (ha : PathFree a) (hb : PathFree b) : PathFree (a ++ b) :=
  ⟨fun h => (List.mem_append.mp h).elim ha.1 hb.1, fun h => (List.mem_append.mp h).elim ha.2 hb.2⟩

/-- A text without separators has no home path. -/
theorem redact_pathFree (h : gate.Common) {s : Str} (hs : PathFree s) :
    gate.redact s = subAll emailMatcher emailPlaceholder (gate.redactUser s) := by
  have hhome : gate.redactHome s = s := foldl_redactVariant_eq_self fun v hv hne hin =>
    (h.home v hv hne).2 ⟨fun hc => hs.1 (hin.subset hc), fun hc => hs.2 (hin.subset hc)⟩
  rw [PrivacyGate.redact, hhome]

/-- A delimited name is redacted: there are more opening brackets than before. -/
theorem redact_ne_self (h : gate.Common) (hne : gate.username ≠ []) {a b : Str}
    (hs : PathFree (a ++ (gate.username ++ b))) (hdelimited : Delimited a b) :
    gate.redact (a ++ (gate.username ++ b)) ≠ a ++ (gate.username ++ b) := by
  intro hsame
  rw [redact_pathFree h hs, PrivacyGate.redactUser, if_pos hne] at hsame
  have hopen : ∀ seg, (userMatcher gate.username).Takes seg → codePoint '<' ∉ seg := by
    rintro seg ⟨p, rest, -, hfind⟩ hin
    obtain ⟨-, hstart, -, hlen⟩ := find_user_eq_some hfind
    rw [← eq_of_start hstart hlen] at hin
    exact h.marks _ hin (by decide)
  have haddress : ∀ seg, emailMatcher.Takes seg → codePoint '<' ∉ seg := by
    rintro seg ⟨p, rest, -, hfind⟩ hin
    exact emailMatch_unmarked hfind _ hin (by decide)
  have huser := (subst_subAll (a ++ (gate.username ++ b))).same_of_count
    (show codePoint '<' ∈ userPlaceholder by decide) hopen
  have hemail := (subst_subAll (subAll (userMatcher gate.username) userPlaceholder
    (a ++ (gate.username ++ b)))).same_of_count
      (show codePoint '<' ∈ emailPlaceholder by decide) haddress
  rw [hsame] at hemail
  obtain ⟨c, rest, hname⟩ := List.exists_cons_of_ne_nil hne
  refine (huser.2 hemail.1).2 a (gate.username ++ b) rfl rest.length ?_
  have hleft : isBoundary (a.getLast?.or none) = true := by
    rw [Option.or_none]
    exact hdelimited.1
  rw [find_user hleft hdelimited.2, hname]
  rfl

/-- What is delimited in a redacted text is redacted by a second pass. -/
theorem redact_twice_ne (h : gate.Common) (hne : gate.username ≠ []) {t a b : Str}
    (hout : gate.redact t = a ++ (gate.username ++ b)) (ha : PathFree a) (hb : PathFree b)
    (hdelimited : Delimited a b) : gate.redact (gate.redact t) ≠ gate.redact t := by
  rw [hout]
  exact redact_ne_self h hne (pathFree_append ha (pathFree_append h.path hb)) hdelimited

theorem emailMatch_of_append {s a b : Str} (h : codePoint '@' ∉ s) (hs : s = a ++ b) :
    emailMatch b = none :=
  emailMatch_eq_none fun hin => h (hs ▸ List.mem_append_right a hin)

def shortAddress : Str := "a@b.cc"

theorem shortAddress_pathFree : PathFree shortAddress := ⟨by decide, by decide⟩

theorem userPlaceholder_pathFree : PathFree userPlaceholder := ⟨by decide, by decide⟩

theorem emailPlaceholder_pathFree : PathFree emailPlaceholder := ⟨by decide, by decide⟩

theorem pathFree_nil : PathFree [] := ⟨List.not_mem_nil, List.not_mem_nil⟩

theorem domainRest_cons_eq_none {c : CodePoint} {s : Str} (hs : domainRest s = none)
    (hdot : c ≠ codePoint '.') : domainRest (c :: s) = none := by
  simp [domainRest, hs, hdot]

/-- The address goes as far as its letters, when nothing of a domain is behind them. -/
theorem emailMatch_shortAddress {s : Str} (hletter : ∀ f ∈ s.head?, isLetter f = false)
    (hdomain : domainRest s = none) :
    emailMatch (shortAddress ++ s) = some shortAddress.length := by
  have hstop : s.takeWhile isLetter = [] := by
    cases s with
    | nil => rfl
    | cons c s => exact List.takeWhile_cons_of_neg (by simpa using hletter c rfl)
  have htop : topLevel (lit "cc" ++ s) = some 2 := by
    have htake : (lit "cc" ++ s).takeWhile isLetter = lit "cc" ++ s.takeWhile isLetter :=
      List.takeWhile_append_of_pos (List.all_eq_true.mp (by decide))
    rw [topLevel, htake, hstop]
    rfl
  have hnone : domainRest (lit "cc" ++ s) = none :=
    domainRest_cons_eq_none (domainRest_cons_eq_none hdomain (by decide)) (by decide)
  have hrest : domainRest (codePoint '.' :: (lit "cc" ++ s)) = some 3 := by
    rw [domainRest, hnone, htop]
    rfl
  have hmatch : domainMatch (codePoint 'b' :: codePoint '.' :: (lit "cc" ++ s)) = some 4 := by
    rw [domainMatch, hrest]
    rfl
  have hlocal : localRest (codePoint '@' :: codePoint 'b' :: codePoint '.' :: (lit "cc" ++ s)) =
      some 5 := by
    rw [localRest, hmatch]
    rfl
  show emailMatch (codePoint 'a' :: codePoint '@' :: codePoint 'b' :: codePoint '.' ::
    (lit "cc" ++ s)) = some 6
  rw [emailMatch, hlocal]
  rfl

/-- In front of each place of the address there is a word character, or a letter is there. -/
theorem shortAddress_places {a e : Str} (h : a ++ e = shortAddress) (hleft : isBoundary a.getLast? = true) :
    ∃ f, e.head? = some f ∧ isLetter f = true := by
  have hall : (List.range 7).all (fun i => !isBoundary (shortAddress.take i).getLast? ||
      (shortAddress.drop i).head?.any isLetter) = true := by decide
  have hlen := congrArg List.length h
  have hsix : shortAddress.length = 6 := rfl
  rw [List.length_append, hsix] at hlen
  have hat := List.all_eq_true.mp hall a.length (by rw [List.mem_range]; omega)
  rw [← h, List.take_left, List.drop_left, hleft, Bool.not_true, Bool.false_or,
    Option.any_eq_true] at hat
  exact hat

theorem redactUser_behind_address (hletter : ∀ f ∈ gate.username.head?, isLetter f = false) :
    gate.redactUser (shortAddress ++ gate.username) = shortAddress ++ gate.username := by
  refine redactUser_eq_self fun hne a b hs hdelimited => ?_
  have hlen := congrArg List.length hs
  rw [List.length_append, List.length_append, List.length_append] at hlen
  have hprefix : a <+: shortAddress :=
    List.prefix_of_prefix_length_le ⟨_, hs.symm⟩ (List.prefix_append _ _) (by omega)
  obtain ⟨e, he⟩ := hprefix
  obtain ⟨f, hf, hfirst⟩ := shortAddress_places he hdelimited.1
  rw [← he, List.append_assoc] at hs
  have hheads := congrArg List.head? (List.append_cancel_left hs)
  rw [head?_append_of_ne_nil hne, List.head?_append, hf, Option.some_or] at hheads
  rw [hletter f hheads.symm] at hfirst
  cases hfirst

/-- A name behind an address shows when the address is gone. -/
theorem redact_behind_address (h : gate.Common)
    (hletter : ∀ f ∈ gate.username.head?, isLetter f = false)
    (hdomain : domainRest gate.username = none) :
    gate.redact (shortAddress ++ gate.username) = emailPlaceholder ++ gate.username := by
  have hname : subFrom emailMatcher emailPlaceholder shortAddress.getLast? 0 gate.username =
      gate.username := by
    refine subFrom_eq_self fun a b hs _ n hsome => ?_
    have haddress : emailMatch b = some (n + 1) := hsome
    rw [emailMatch_of_append h.at_sign hs] at haddress
    cases haddress
  have haddress := @subFrom_take _ emailMatcher emailPlaceholder shortAddress gate.username none
    (by decide) (emailMatch_shortAddress hletter hdomain)
  rw [redact_pathFree h (pathFree_append shortAddress_pathFree h.path),
    redactUser_behind_address hletter, subAll, haddress, hname]

theorem redactEmail_no_at {s : Str} (h : codePoint '@' ∉ s) :
    subAll emailMatcher emailPlaceholder s = s :=
  redactEmail_eq_self fun _ _ hs => emailMatch_of_append h hs

theorem at_sign_append {a b : Str} (ha : codePoint '@' ∉ a) (hb : codePoint '@' ∉ b) :
    codePoint '@' ∉ a ++ b := fun h => (List.mem_append.mp h).elim ha hb

theorem userPlaceholder_at_sign : codePoint '@' ∉ userPlaceholder := by decide

/-- A name that follows itself shows when the first is gone. -/
theorem redact_behind_name (h : gate.Common) (hne : gate.username ≠ [])
    (hfirst : isBoundary gate.username.head? = true)
    (hlast : isBoundary gate.username.getLast? = false) :
    gate.redact (gate.username ++ gate.username) = userPlaceholder ++ gate.username := by
  have hsecond : subFrom (userMatcher gate.username) userPlaceholder gate.username.getLast? 0
      gate.username = gate.username := by
    refine subFrom_eq_self fun a b hs _ n hsome => ?_
    obtain ⟨hleft, ⟨t, rfl⟩, -, -⟩ := find_user_eq_some hsome
    have hlen := congrArg List.length hs
    rw [List.length_append, List.length_append] at hlen
    obtain rfl : a = [] := List.length_eq_zero_iff.mp (by omega)
    exact absurd (hlast.symm.trans hleft) Bool.false_ne_true
  have huser : gate.redactUser (gate.username ++ gate.username) = userPlaceholder ++ gate.username := by
    rw [PrivacyGate.redactUser, if_pos hne, subAll, subFrom_take hne (find_user rfl hfirst), hsecond]
  rw [redact_pathFree h (pathFree_append h.path h.path), huser,
    redactEmail_no_at (at_sign_append userPlaceholder_at_sign h.at_sign)]

/-- A name in front of itself shows when the second is gone. -/
theorem redact_before_name (h : gate.Common) (hne : gate.username ≠ [])
    (hfirst : isBoundary gate.username.head? = false)
    (hlast : isBoundary gate.username.getLast? = true) :
    gate.redact (gate.username ++ gate.username) = gate.username ++ userPlaceholder := by
  have hkeep := @subFrom_keep _ (userMatcher gate.username) userPlaceholder gate.username gate.username
    none fun a b hs hb n hsome => by
      obtain ⟨-, ⟨t, ht⟩, hright, -⟩ := find_user_eq_some hsome
      rw [← ht, List.drop_left] at hright
      -- a match would be followed by what it starts with
      have hlen := congrArg List.length ht
      rw [List.length_append, List.length_append] at hlen
      have hsplit : gate.username ++ t = (b ++ a) ++ b := by
        rw [ht, List.append_assoc, ← hs]
      obtain ⟨-, rfl⟩ := List.append_inj' hsplit (by omega)
      have hheads := congrArg List.head? ht
      rw [head?_append_of_ne_nil hne, head?_append_of_ne_nil hb] at hheads
      rw [← hheads, hfirst] at hright
      cases hright
  have hsecond := @subFrom_take _ (userMatcher gate.username) userPlaceholder gate.username []
    gate.username.getLast? hne (find_user hlast rfl)
  rw [List.append_nil] at hsecond
  have huser : gate.redactUser (gate.username ++ gate.username) = gate.username ++ userPlaceholder := by
    rw [PrivacyGate.redactUser, if_pos hne, subAll, hkeep, Option.or_none, hsecond]
    exact congrArg (gate.username ++ ·) (List.append_nil _)
  rw [redact_pathFree h (pathFree_append h.path h.path), huser,
    redactEmail_no_at (at_sign_append h.at_sign userPlaceholder_at_sign)]

theorem noAddress_of_not_local {c : CodePoint} (hlocal : isLocalChar c = false)
    (hat : c ≠ codePoint '@') : NoAddress c := by
  refine ⟨hlocal, ?_, hat⟩
  simp only [isLocalChar, isWordChar, Bool.or_eq_false_iff] at hlocal
  obtain ⟨⟨⟨⟨⟨halnum, -⟩, hdot⟩, -⟩, -⟩, hdash⟩ := hlocal
  simp [isDomainChar, halnum, hdot, hdash]

theorem redactUser_before_address {l : CodePoint} (hl : gate.username.getLast? = some l)
    (hlocal : isLocalChar l = false) (hat : l ≠ codePoint '@') :
    gate.redactUser (gate.username ++ shortAddress) = gate.username ++ shortAddress := by
  refine redactUser_eq_self fun hne a b hs hdelimited => ?_
  have hlen := congrArg List.length hs
  rw [List.length_append, List.length_append, List.length_append] at hlen
  rw [← List.append_assoc] at hs
  have hsuffix : b <:+ shortAddress :=
    List.suffix_of_suffix_length_le ⟨_, hs.symm⟩ (List.suffix_append _ _) (by omega)
  obtain ⟨d, hd⟩ := hsuffix
  rw [← hd, ← List.append_assoc] at hs
  have hfront := List.append_cancel_right hs
  by_cases hnil : d = []
  · -- the address starts with a word character
    rw [hnil, List.nil_append] at hd
    have hright := hdelimited.2
    rw [hd] at hright
    exact absurd hright (by decide)
  · -- the last character of the name would be one of the address
    have hlasts := congrArg List.getLast? hfront
    rw [List.getLast?_append_of_ne_nil _ hnil, List.getLast?_append_of_ne_nil _ hne, hl] at hlasts
    have hin : l ∈ shortAddress := hd ▸ List.mem_append_left b (List.mem_of_getLast? hlasts)
    have hall : shortAddress.all (fun c => isLocalChar c || c == codePoint '@') = true := by decide
    have hc := List.all_eq_true.mp hall l hin
    rw [hlocal, Bool.false_or, beq_iff_eq] at hc
    exact hat hc

/-- A name in front of an address shows when the address is gone. -/
theorem redact_before_address (h : gate.Common) {l : CodePoint} (hl : gate.username.getLast? = some l)
    (hlocal : isLocalChar l = false) :
    gate.redact (gate.username ++ shortAddress) = gate.username ++ emailPlaceholder := by
  have hat : l ≠ codePoint '@' := fun heq => h.at_sign (heq ▸ List.mem_of_getLast? hl)
  obtain ⟨front, hname⟩ := List.getLast?_eq_some_iff.mp hl
  have hsplit := @subAll_separator _ emailMatcher l emailPlaceholder
    (emailMatcher_separates (noAddress_of_not_local hlocal hat)) front shortAddress
  have haddress : subAll emailMatcher emailPlaceholder shortAddress = emailPlaceholder := by decide
  have hfront : codePoint '@' ∉ front := fun hin => h.at_sign (hname ▸ List.mem_append_left _ hin)
  rw [redact_pathFree h (pathFree_append h.path shortAddress_pathFree),
    redactUser_before_address hl hlocal hat, hname, List.append_assoc, List.append_assoc]
  exact hsplit.trans (by rw [redactEmail_no_at hfront, haddress]; rfl)

/-- A word of a placeholder is redacted inside it. -/
theorem redact_word (h : gate.Common) (hword : gate.username ∈ placeholderWords) :
    ∃ t, gate.redact (gate.redact t) ≠ gate.redact t := by
  have hne : gate.username ≠ [] := by
    intro hnil
    rw [hnil] at hword
    exact absurd hword (by decide)
  have hcase : ∀ name a b, gate.username = name → PathFree a → PathFree b → Delimited a b →
      subAll emailMatcher emailPlaceholder (subAll (userMatcher name) userPlaceholder
        (lit "user a@b.cc")) = a ++ (name ++ b) →
      ∃ t, gate.redact (gate.redact t) ≠ gate.redact t := by
    rintro name a b rfl ha hb hdelimited hout
    refine ⟨lit "user a@b.cc", redact_twice_ne h hne (a := a) (b := b) ?_ ha hb hdelimited⟩
    rw [redact_pathFree h ⟨by decide, by decide⟩, PrivacyGate.redactUser, if_pos hne]
    exact hout
  simp only [placeholderWords, List.mem_cons, List.not_mem_nil, or_false] at hword
  rcases hword with hname | hname | hname | hname
  · exact hcase _ (lit "<") (lit "> <email-redacted>") hname ⟨by decide, by decide⟩
      ⟨by decide, by decide⟩ ⟨by decide, by decide⟩ (by decide)
  · exact hcase _ (lit "user <") (lit "-redacted>") hname ⟨by decide, by decide⟩
      ⟨by decide, by decide⟩ ⟨by decide, by decide⟩ (by decide)
  · exact hcase _ (lit "user <email-") (lit ">") hname ⟨by decide, by decide⟩
      ⟨by decide, by decide⟩ ⟨by decide, by decide⟩ (by decide)
  · exact hcase _ (lit "user <") (lit ">") hname ⟨by decide, by decide⟩
      ⟨by decide, by decide⟩ ⟨by decide, by decide⟩ (by decide)

/-- A name with ends of two kinds shows behind or in front of itself. -/
theorem redact_edges (h : gate.Common) {f l : CodePoint} (hf : gate.username.head? = some f)
    (hl : gate.username.getLast? = some l) (hedges : isWordChar f ≠ isWordChar l) :
    ∃ t, gate.redact (gate.redact t) ≠ gate.redact t := by
  have hne := List.ne_nil_of_mem (List.mem_of_mem_head? hf)
  have hfirst : isBoundary gate.username.head? = !isWordChar f := by rw [hf]; rfl
  have hlast : isBoundary gate.username.getLast? = !isWordChar l := by rw [hl]; rfl
  refine ⟨gate.username ++ gate.username, ?_⟩
  cases hword : isWordChar f with
  | true =>
    have hend : isWordChar l = false := by
      rw [hword] at hedges
      simpa using hedges.symm
    rw [hword] at hfirst
    rw [hend] at hlast
    exact redact_twice_ne h hne (a := []) (redact_before_name h hne hfirst hlast) pathFree_nil
      userPlaceholder_pathFree ⟨rfl, by decide⟩
  | false =>
    have hend : isWordChar l = true := by
      rw [hword] at hedges
      simpa using hedges.symm
    rw [hword] at hfirst
    rw [hend] at hlast
    refine redact_twice_ne h hne (a := userPlaceholder) (b := []) ?_ userPlaceholder_pathFree
      pathFree_nil ⟨by decide, rfl⟩
    rw [List.append_nil]
    exact redact_behind_name h hne hfirst hlast

/-- Where a second pass never finds anything, the paths and the name are as they have to be. -/
theorem stable_of_idempotent (h : gate.Common)
    (hidem : ∀ t, gate.redact (gate.redact t) = gate.redact t) : gate.Stable where
  home := fun v hv hne => by
    obtain ⟨hmarks, hpath⟩ := h.home v hv hne
    refine ⟨hmarks, foreign_of_mem ?_⟩
    by_contra hnone
    exact hpath (not_or.mp hnone)
  marks := h.marks
  name := by
    refine ⟨fun f hf l hl => ?_, fun f hf => ?_, fun l hl => ?_⟩
    · by_contra hedges
      obtain ⟨t, ht⟩ := redact_edges h hf hl hedges
      exact ht (hidem t)
    · by_contra hnone
      rw [not_or, not_not, Bool.not_eq_true] at hnone
      have hne := List.ne_nil_of_mem (List.mem_of_mem_head? hf)
      have hout := redact_behind_address h (fun g hg => Option.mem_unique hf hg ▸ hnone.1) hnone.2
      rw [← List.append_nil gate.username] at hout
      refine redact_twice_ne h hne hout emailPlaceholder_pathFree pathFree_nil ⟨by decide, rfl⟩ ?_
      exact hidem _
    · by_contra hlocal
      have hne := List.ne_nil_of_mem (List.mem_of_getLast? hl)
      have hout := redact_before_address h hl (by simpa using hlocal)
      exact redact_twice_ne h hne (a := []) hout pathFree_nil emailPlaceholder_pathFree
        ⟨rfl, by decide⟩ (hidem _)
  word := fun hword => by
    obtain ⟨t, ht⟩ := redact_word h hword
    exact ht (hidem t)

/-- Redacting twice is redacting once when the paths and the name are stable, and on a common
machine only then. -/
theorem redact_idempotent_iff (gate : PrivacyGate normcase) :
    (gate.Stable → ∀ t, gate.redact (gate.redact t) = gate.redact t) ∧
      (gate.Common → ((∀ t, gate.redact (gate.redact t) = gate.redact t) ↔ gate.Stable)) := by
  have hstable : gate.Stable → ∀ t, gate.redact (gate.redact t) = gate.redact t :=
    fun h t => redact_of_redacted (redact_redacted h t)
  exact ⟨hstable, fun h => ⟨stable_of_idempotent h, hstable⟩⟩

theorem redact_idempotent_iff_bob : bobGate.Stable ∧ bobGate.Common ∧
    ∀ t, bobGate.redact (bobGate.redact t) = bobGate.redact t := by
  have hall : [lit "/home/bob", lit "\\home\\bob", lit "bob"].all
      (fun s => s.all fun c => !isMark c) = true := by decide
  have hmarks : ∀ s ∈ [lit "/home/bob", lit "\\home\\bob", lit "bob"], Unmarked s := by
    intro s hs c hc
    simpa using List.all_eq_true.mp (List.all_eq_true.mp hall s hs) c hc
  have hname : Unmarked bobGate.username := hmarks _ (by simp [bobGate])
  have hcommon : bobGate.Common := by
    refine ⟨fun v hv _ => ⟨hmarks v (List.mem_append_left [lit "bob"] hv), fun hfree => ?_⟩, hname,
      ⟨by decide, by decide⟩, by decide⟩
    rcases List.mem_cons.mp hv with rfl | hv
    · exact hfree.1 (by decide)
    · obtain rfl := List.mem_singleton.mp hv
      exact hfree.2 (by decide)
  have hstable : bobGate.Stable := by
    refine ⟨fun v hv hne => ⟨(hcommon.home v hv hne).1, ?_⟩, hname, ?_, by decide⟩
    · rcases List.mem_cons.mp hv with rfl | hv
      · exact foreign_of_mem (Or.inl (by decide))
      · obtain rfl := List.mem_singleton.mp hv
        exact foreign_of_mem (Or.inr (by decide))
    · refine ⟨?_, ?_, ?_⟩
      · rintro f hf l hl
        cases hf
        cases hl
        decide
      · rintro f hf
        cases hf
        exact Or.inl (by decide)
      · rintro l hl
        cases hl
        decide
  exact ⟨hstable, hcommon, ((redact_idempotent_iff bobGate).2 hcommon).mpr hstable⟩

/-! ## Examples -/

namespace Sample

/-- The account is called as the placeholder is. -/
def userGate : PrivacyGate id where
  home := "/home/user"
  username := "user"
  homeVariants := ["/home/user", "\\home\\user"]
  mem_homeVariants := by
    have hslashes : replaceChar (codePoint '\\') (codePoint '/') (lit "/home/user") =
        lit "/home/user" := by decide
    have hback : replaceChar (codePoint '/') (codePoint '\\') (lit "/home/user") =
        lit "\\home\\user" := by decide
    intro v
    rw [hslashes, hback, List.mem_cons, List.mem_singleton]
    constructor
    · rintro (h | h)
      · exact Or.inl h
      · exact Or.inr (Or.inr (Or.inl h))
    · rintro (h | h | h | h)
      · exact Or.inl h
      · exact Or.inl h
      · exact Or.inr h
      · exact Or.inl h
  nodup := by decide
  sorted := by decide

end Sample

/-- The name in the placeholder is redacted again. -/
theorem user_redacted_again :
    Sample.userGate.redact "user" = lit "<user>" ∧
      Sample.userGate.redact (Sample.userGate.redact "user") = lit "<<user>>" ∧
      ¬∀ t, Sample.userGate.redact (Sample.userGate.redact t) = Sample.userGate.redact t := by
  have hfirst : Sample.userGate.redact "user" = lit "<user>" := by decide
  have hsecond : Sample.userGate.redact (lit "<user>") = lit "<<user>>" := by decide
  refine ⟨hfirst, by rw [hfirst, hsecond], fun hidem => ?_⟩
  have hsame := hidem "user"
  rw [hfirst, hsecond] at hsame
  exact absurd hsame (by decide)

end DevRepro.Privacy
