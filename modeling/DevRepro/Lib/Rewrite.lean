import Mathlib

/-!
# Replacing matches in a list

`subAll` reads a list from the left and puts a replacement in the place of each
match.  A matcher sees the element before a place and the list behind it, so it
may look back by one element and ahead as far as it likes, and it tells how long
the match is.

`Subst` is the relation between the list and the result.  When a replacement
starts and ends with a mark, a part of the result without marks stands inside one
replacement or comes from the list: `Subst.split`.  `Rewritten.run` carries an
automaton over the list to one over the result.
-/

namespace DevRepro.Lib

variable {α : Type}

/-- How long the match is at a place, from the element before and the list behind. -/
structure Matcher (α : Type) where
  find : Option α → List α → Option Nat
  /-- A match does not reach beyond the end. -/
  fits : ∀ prev s n, find prev s = some n → n ≤ s.length

/-- The result from a place on, of which `skip` elements belong to a match.  An empty
match counts as none. -/
def subFrom (m : Matcher α) (new : List α) : Option α → Nat → List α → List α
  | _, _, [] => []
  | _, skip + 1, c :: rest => subFrom m new (some c) skip rest
  | prev, 0, c :: rest =>
    match m.find prev (c :: rest) with
    | some (n + 1) => new ++ subFrom m new (some c) n rest
    | _ => c :: subFrom m new (some c) 0 rest

/-- `re.sub(pattern, new, s)`. -/
def subAll (m : Matcher α) (new s : List α) : List α := subFrom m new none 0 s

/-- A list behind an element, and the result. -/
inductive Subst (m : Matcher α) (new : List α) : Option α → List α → List α → Prop where
  | nil (prev : Option α) : Subst m new prev [] []
  | keep {prev : Option α} {c : α} {rest out : List α}
      (hnone : ∀ n, m.find prev (c :: rest) ≠ some (n + 1))
      (h : Subst m new (some c) rest out) : Subst m new prev (c :: rest) (c :: out)
  | drop {prev : Option α} {c : α} {seg rest out : List α}
      (hsome : m.find prev (c :: seg ++ rest) = some (c :: seg).length)
      (h : Subst m new (c :: seg).getLast? rest out) :
      Subst m new prev (c :: seg ++ rest) (new ++ out)

section Subst

variable {m : Matcher α} {new : List α}

theorem or_getLast?_append (a b : List α) (prev : Option α) :
    (a ++ b).getLast?.or prev = b.getLast?.or (a.getLast?.or prev) := by
  rw [List.getLast?_append, Option.or_assoc]

theorem subFrom_skip (seg rest : List α) (prev : Option α) :
    subFrom m new prev seg.length (seg ++ rest) = subFrom m new (seg.getLast?.or prev) 0 rest := by
  induction seg generalizing prev with
  | nil => rfl
  | cons d seg ih =>
    have hlast := or_getLast?_append [d] seg prev
    rw [List.singleton_append] at hlast
    rw [hlast]
    show subFrom m new (some d) seg.length (seg ++ rest) = _
    rw [ih]
    rfl

/-- The result is related to the list. -/
theorem subst_subFrom (prev : Option α) (s : List α) :
    Subst m new prev s (subFrom m new prev 0 s) := by
  -- a match makes the list shorter by more than one element
  induction hlen : s.length using Nat.strong_induction_on generalizing prev s with
  | _ len ih =>
    subst hlen
    cases s with
    | nil => exact .nil prev
    | cons c rest =>
      have hkeep := ih rest.length (by simp) (some c) rest rfl
      rw [subFrom]
      split
      · rename_i n hfind
        have hfits : n ≤ rest.length := Nat.le_of_succ_le_succ (m.fits _ _ _ hfind)
        obtain ⟨seg, behind, rfl, rfl⟩ : ∃ seg behind, rest = seg ++ behind ∧ seg.length = n :=
          ⟨rest.take n, rest.drop n, (List.take_append_drop n rest).symm, List.length_take_of_le hfits⟩
        rw [subFrom_skip]
        refine .drop (by simpa using hfind) ?_
        have hlast : (c :: seg).getLast? = seg.getLast?.or (some c) := by
          rw [← List.singleton_append, List.getLast?_append]
          rfl
        rw [hlast]
        exact ih behind.length (by simp) _ behind rfl
      · rename_i hfind
        exact .keep hfind hkeep

theorem subst_subAll (s : List α) : Subst m new none s (subAll m new s) := subst_subFrom none s

/-- A list with no match at any place is kept, whatever is behind it. -/
theorem subFrom_keep (p rest : List α) (prev : Option α)
    (hnone : ∀ a b, p = a ++ b → b ≠ [] → ∀ n, m.find (a.getLast?.or prev) (b ++ rest) ≠ some (n + 1)) :
    subFrom m new prev 0 (p ++ rest) = p ++ subFrom m new (p.getLast?.or prev) 0 rest := by
  induction p generalizing prev with
  | nil => rfl
  | cons c p ih =>
    have hlast : ∀ a : List α, (c :: a).getLast?.or prev = a.getLast?.or (some c) :=
      fun a => or_getLast?_append [c] a prev
    have hfirst := hnone [] (c :: p) rfl (List.cons_ne_nil c p)
    rw [List.cons_append, subFrom]
    split
    · rename_i n hfind
      exact absurd hfind (hfirst n)
    · rw [ih (some c) fun a b hp hb n => ?_, hlast]
      · rfl
      · rw [← hlast]
        exact hnone (c :: a) b (by rw [hp, List.cons_append]) hb n

theorem subFrom_eq_self {s : List α} {prev : Option α}
    (hnone : ∀ a b, s = a ++ b → b ≠ [] → ∀ n, m.find (a.getLast?.or prev) b ≠ some (n + 1)) :
    subFrom m new prev 0 s = s := by
  have h := @subFrom_keep α m new s [] prev fun a b hs hb n => by
    rw [List.append_nil]
    exact hnone a b hs hb n
  rw [List.append_nil] at h
  exact h.trans (List.append_nil s)

theorem subAll_eq_self {s : List α}
    (hnone : ∀ a b, s = a ++ b → b ≠ [] → ∀ n, m.find a.getLast? b ≠ some (n + 1)) :
    subAll m new s = s :=
  subFrom_eq_self fun a b hs hb n => by
    rw [Option.or_none]
    exact hnone a b hs hb n

/-- A match is replaced. -/
theorem subFrom_take {seg rest : List α} {prev : Option α} (hne : seg ≠ [])
    (hsome : m.find prev (seg ++ rest) = some seg.length) :
    subFrom m new prev 0 (seg ++ rest) = new ++ subFrom m new seg.getLast? 0 rest := by
  obtain ⟨c, seg, rfl⟩ := List.exists_cons_of_ne_nil hne
  have hlast : (c :: seg).getLast? = seg.getLast?.or (some c) := @List.getLast?_append _ [c] seg
  rw [List.cons_append, List.length_cons] at hsome
  rw [List.cons_append, subFrom, hsome, hlast]
  exact congrArg (new ++ ·) (subFrom_skip seg rest (some c))

end Subst

/-! ## What of the result was there before -/

/-- A list that starts and ends with a mark. -/
structure Fenced (mark : α → Prop) (new : List α) : Prop where
  head : ∃ c ∈ new.head?, mark c
  last : ∃ c ∈ new.getLast?, mark c

/-- A part of a result stands inside a replacement. -/
def Inside (new before part behind : List α) : Prop :=
  ∃ x y, new = x ++ part ++ y ∧ x <:+ before ∧ y <+: behind

/-- A list whose segments with a property may be replaced. -/
inductive Rewritten (P : List α → Prop) (new : List α) : List α → List α → Prop where
  | nil : Rewritten P new [] []
  | keep (c : α) {a b : List α} (h : Rewritten P new a b) : Rewritten P new (c :: a) (c :: b)
  | drop {seg a b : List α} (hseg : P seg) (h : Rewritten P new a b) :
      Rewritten P new (seg ++ a) (new ++ b)

/-- A segment that the matcher matches before some rest. -/
def Matcher.Takes (m : Matcher α) (seg : List α) : Prop :=
  ∃ prev rest, seg ≠ [] ∧ m.find prev (seg ++ rest) = some seg.length

/-- When no match has a mark that the replacement has, a match makes more marks, and a list with as
many as before is the same and has no match. -/
theorem Subst.same_of_count [DecidableEq α] {m : Matcher α} {new : List α} {mark : α}
    (hnew : mark ∈ new) (hmark : ∀ seg, m.Takes seg → mark ∉ seg) {prev : Option α} {s out : List α}
    (h : Subst m new prev s out) :
    s.count mark ≤ out.count mark ∧ (out.count mark ≤ s.count mark → out = s ∧
      ∀ a b, s = a ++ b → ∀ n, m.find (a.getLast?.or prev) b ≠ some (n + 1)) := by
  have hnil : ∀ (prev : Option α) n, m.find prev [] ≠ some (n + 1) :=
    fun prev n hsome => Nat.not_succ_le_zero n (m.fits prev [] (n + 1) hsome)
  induction h with
  | nil prev =>
    refine ⟨le_rfl, fun _ => ⟨rfl, fun a b hs n => ?_⟩⟩
    rw [(List.append_eq_nil_iff.mp hs.symm).2]
    exact hnil _ n
  | @keep prev c rest out hnone _ ih =>
    rw [List.count_cons, List.count_cons]
    refine ⟨Nat.add_le_add_right ih.1 _, fun hle => ?_⟩
    obtain ⟨rfl, hrest⟩ := ih.2 (Nat.le_of_add_le_add_right hle)
    refine ⟨rfl, fun a b hs n => ?_⟩
    cases a with
    | nil =>
      rw [List.nil_append] at hs
      exact hs ▸ hnone n
    | cons d a =>
      obtain ⟨rfl, htail⟩ := List.cons.inj hs
      have hlast := or_getLast?_append [c] a prev
      rw [List.singleton_append] at hlast
      rw [hlast]
      exact hrest a b htail n
  | @drop prev c seg rest out hsome _ ih =>
    have hseg : (c :: seg).count mark = 0 :=
      List.count_eq_zero.mpr (hmark _ ⟨prev, rest, List.cons_ne_nil _ _, hsome⟩)
    have hpos : 0 < new.count mark := List.count_pos_iff.mpr hnew
    rw [List.count_append, List.count_append, hseg]
    exact ⟨by omega, fun hle => by omega⟩

/-- The elements before a place of the result and before that place of the list: the
last ones are the same, or a match ends there. -/
def SameBefore (m : Matcher α) (new a a' behind : List α) : Prop :=
  a.getLast? = a'.getLast? ∨
    new <:+ a' ∧ ∃ prev seg, seg ≠ [] ∧ seg <:+ a ∧
      m.find prev (seg ++ behind) = some seg.length

section Split

variable {m : Matcher α} {new : List α} {mark : α → Prop}

/-- A start of the result without marks is a start of the list. -/
theorem Subst.start (hnew : Fenced mark new) {w b' : List α} {prev : Option α} {s : List α}
    (h : Subst m new prev s (w ++ b')) (hw : ∀ c ∈ w, ¬mark c) :
    ∃ b, s = w ++ b ∧ Subst m new (w.getLast?.or prev) b b' := by
  induction w generalizing prev s with
  | nil => exact ⟨s, rfl, h⟩
  | cons c w ih =>
    rw [List.forall_mem_cons] at hw
    rw [List.cons_append] at h
    generalize hout : c :: (w ++ b') = out at h
    cases h with
    | nil => cases hout
    | keep hnone h =>
      obtain ⟨rfl, rfl⟩ := List.cons.inj hout
      obtain ⟨b, rfl, hb⟩ := ih h hw.2
      refine ⟨b, rfl, ?_⟩
      have hlast := or_getLast?_append [c] w prev
      rw [List.singleton_append] at hlast
      rw [hlast]
      exact hb
    | drop hsome h =>
      obtain ⟨d, hd, hmark⟩ := hnew.head
      cases new with
      | nil => cases hd
      | cons e new =>
        obtain rfl : e = d := by simpa using hd
        exact absurd ((List.cons.inj hout).1 ▸ hmark) hw.1

/-- The result as a rewritten list. -/
theorem Subst.rewritten {prev : Option α} {s out : List α} (h : Subst m new prev s out) :
    Rewritten m.Takes new s out := by
  induction h with
  | nil => exact .nil
  | keep hnone h ih => exact .keep _ ih
  | drop hsome h ih => exact .drop ⟨_, _, List.cons_ne_nil _ _, hsome⟩ ih

/-- A part of the result without marks stands inside a replacement, or it comes from the
list. -/
theorem Subst.split (hnew : Fenced mark new) {w : List α} (hw : ∀ c ∈ w, ¬mark c)
    (hne : w ≠ []) {prev : Option α} {s out : List α} (h : Subst m new prev s out)
    {a' b' : List α} (hout : out = a' ++ (w ++ b')) :
    Inside new a' w b' ∨
      ∃ a b, s = a ++ (w ++ b) ∧ Rewritten m.Takes new a a' ∧
        Subst m new (a.getLast?.or prev) (w ++ b) (w ++ b') ∧ SameBefore m new a a' (w ++ b) := by
  induction h generalizing a' with
  | nil =>
    have hnil := List.append_eq_nil_iff.mp hout.symm
    exact absurd (List.append_eq_nil_iff.mp hnil.2).1 hne
  | @keep prev c rest out hnone h ih =>
    cases a' with
    | nil =>
      rw [List.nil_append] at hout
      have hall : Subst m new prev (c :: rest) (w ++ b') := hout ▸ .keep hnone h
      obtain ⟨b, hb, hrest⟩ := hall.start hnew hw
      exact Or.inr ⟨[], b, hb, .nil, hb ▸ hall, Or.inl rfl⟩
    | cons d a' =>
      obtain ⟨rfl, htail⟩ := List.cons.inj hout
      rcases ih htail with ⟨x, y, hnew, hx, hy⟩ | ⟨a, b, rfl, hrew, hsub, hsame⟩
      · exact Or.inl ⟨x, y, hnew, hx.trans (List.suffix_cons _ _), hy⟩
      · refine Or.inr ⟨c :: a, b, rfl, .keep c hrew, ?_, ?_⟩
        · have hlast := or_getLast?_append [c] a prev
          rw [List.singleton_append] at hlast
          rw [hlast]
          exact hsub
        · rcases hsame with hsame | ⟨hend, p, seg, hseg, hsuf, hfind⟩
          · left
            rw [List.getLast?_cons, List.getLast?_cons, hsame]
          · exact Or.inr ⟨hend.trans (List.suffix_cons _ _), p, seg, hseg,
              hsuf.trans (List.suffix_cons _ _), hfind⟩
  | @drop prev c seg rest out hsome h ih =>
    -- behind a whole replacement
    have hbehind : ∀ t, a' = new ++ t → out = t ++ (w ++ b') → Inside new a' w b' ∨
        ∃ a b, c :: seg ++ rest = a ++ (w ++ b) ∧ Rewritten m.Takes new a a' ∧
          Subst m new (a.getLast?.or prev) (w ++ b) (w ++ b') ∧
          SameBefore m new a a' (w ++ b) := by
      rintro t rfl ht
      rcases ih ht with ⟨x, y, hxy, hx, hy⟩ | ⟨a, b, rfl, hrew, hsub, hsame⟩
      · exact Or.inl ⟨x, y, hxy, hx.trans (List.suffix_append _ _), hy⟩
      · refine Or.inr ⟨c :: seg ++ a, b, by rw [List.append_assoc],
          .drop ⟨_, _, List.cons_ne_nil _ _, hsome⟩ hrew, ?_, ?_⟩
        · have hsome' : (c :: seg).getLast?.or prev = (c :: seg).getLast? := by
            rw [List.getLast?_cons]
            rfl
          rw [or_getLast?_append, hsome']
          exact hsub
        · rcases hsame with hsame | ⟨hend, p, seg', hseg, hsuf, hfind⟩
          · cases t with
            | nil =>
              obtain rfl : a = [] := List.getLast?_eq_none_iff.mp hsame
              rw [List.append_nil, List.append_nil]
              exact Or.inr ⟨List.suffix_rfl, prev, c :: seg, List.cons_ne_nil _ _,
                List.suffix_rfl, hsome⟩
            | cons d t =>
              left
              rw [List.getLast?_append, List.getLast?_append, hsame, List.getLast?_cons]
              rfl
          · exact Or.inr ⟨hend.trans (List.suffix_append _ _), p, seg', hseg,
              hsuf.trans (List.suffix_append _ _), hfind⟩
    rcases List.append_eq_append_iff.mp hout with ⟨t, ha, ht⟩ | ⟨t, hn, ht⟩
    · exact hbehind t ha ht
    · rcases List.append_eq_append_iff.mp ht with ⟨u, hu, hb⟩ | ⟨u, hu, hb⟩
      · -- the part ends inside the replacement
        exact Or.inl ⟨a', u, by rw [hn, hu, List.append_assoc], List.suffix_rfl, ⟨out, hb.symm⟩⟩
      · cases t with
        | nil =>
          rw [List.append_nil] at hn
          exact hbehind [] (by rw [hn, List.append_nil]) ht.symm
        | cons d t =>
          -- the part would hold the last mark
          obtain ⟨e, he, hmark⟩ := hnew.last
          rw [hn, List.getLast?_append] at he
          have hlast : (d :: t).getLast? = some e := by
            rw [List.getLast?_cons] at he ⊢
            exact he
          refine absurd hmark (hw e ?_)
          rw [hu]
          exact List.mem_append_left _ (List.mem_of_getLast? hlast)

end Split

/-! ## Automata over a rewritten list -/

/-- An automaton that may reject, over a list. -/
def runAll {σ : Type} (step : σ → α → Option σ) (st : σ) (s : List α) : Option σ := s.foldlM step st

section Run

variable {σ : Type} {step : σ → α → Option σ}

theorem runAll_append (st : σ) (s t : List α) :
    runAll step st (s ++ t) = (runAll step st s).bind fun mid => runAll step mid t :=
  List.foldlM_append

theorem runAll_cons (st : σ) (c : α) (s : List α) :
    runAll step st (c :: s) = (step st c).bind fun mid => runAll step mid s :=
  List.foldlM_cons

theorem runAll_append_eq_some {st st' : σ} {s t : List α} :
    runAll step st (s ++ t) = some st' ↔
      ∃ mid, runAll step st s = some mid ∧ runAll step mid t = some st' := by
  rw [runAll_append, Option.bind_eq_some_iff]

/-- States that stay related on a kept element and on a replaced segment stay related. -/
theorem Rewritten.run {P : List α → Prop} {new : List α} {R : σ → σ → Prop}
    (hkeep : ∀ s t c s', R s t → step s c = some s' → ∃ t', step t c = some t' ∧ R s' t')
    (hdrop : ∀ s t seg s', R s t → P seg → runAll step s seg = some s' →
      ∃ t', runAll step t new = some t' ∧ R s' t')
    {a b : List α} (h : Rewritten P new a b) {s t s' : σ} (hst : R s t)
    (hrun : runAll step s a = some s') : ∃ t', runAll step t b = some t' ∧ R s' t' := by
  induction h generalizing s t with
  | nil =>
    cases hrun
    exact ⟨t, rfl, hst⟩
  | keep c h ih =>
    rw [runAll_cons, Option.bind_eq_some_iff] at hrun
    obtain ⟨mid, hmid, hrun⟩ := hrun
    obtain ⟨mid', hmid', hR⟩ := hkeep s t c mid hst hmid
    obtain ⟨t', ht', hR'⟩ := ih hR hrun
    exact ⟨t', by rw [runAll_cons, hmid']; exact ht', hR'⟩
  | drop hseg h ih =>
    obtain ⟨mid, hmid, hrun⟩ := runAll_append_eq_some.mp hrun
    obtain ⟨mid', hmid', hR⟩ := hdrop s t _ mid hst hseg hmid
    obtain ⟨t', ht', hR'⟩ := ih hR hrun
    exact ⟨t', runAll_append_eq_some.mpr ⟨mid', hmid', ht'⟩, hR'⟩

end Run

end DevRepro.Lib

/-!
## Replacing between separators

A matcher that no match of reaches across a separator, and that does not see whether a
separator or nothing stands beside a match, replaces on both sides of the separator
on its own (`subAll_separator`).

A symbol of the replacement that the result does not have says that nothing was
replaced (`subAll_eq_self_of_not_mem`).
-/

namespace DevRepro.Lib

variable {α : Type} {m : Matcher α} {sep : α} {new : List α}

/-- A separator is like an end of the list. -/
structure Matcher.Separates (m : Matcher α) (sep : α) : Prop where
  ahead : ∀ prev a b, m.find prev (a ++ sep :: b) = m.find prev a
  before : ∀ s, m.find (some sep) s = m.find none s

theorem subFrom_separator (h : m.Separates sep) (prev : Option α) (skip : Nat) (a b : List α)
    (hskip : skip ≤ a.length) :
    subFrom m new prev skip (a ++ sep :: b) = subFrom m new prev skip a ++ sep :: subAll m new b := by
  have hstart : subFrom m new (some sep) 0 b = subAll m new b := by
    cases b with
    | nil => rfl
    | cons d b => rw [subAll, subFrom, subFrom, h.before]
  induction a generalizing prev skip with
  | nil =>
    obtain rfl : skip = 0 := Nat.le_zero.mp hskip
    have hfind := h.ahead prev [] b
    have hnil : subFrom m new prev 0 [] = [] := rfl
    rw [List.nil_append] at hfind ⊢
    rw [hnil, subFrom, hfind]
    cases hnone : m.find prev [] with
    | none =>
      dsimp only
      rw [hstart]
      rfl
    | some n =>
      obtain rfl : n = 0 := Nat.le_zero.mp (m.fits prev [] n hnone)
      dsimp only
      rw [hstart]
      rfl
  | cons c a ih =>
    cases skip with
    | succ skip =>
      rw [List.cons_append, subFrom, subFrom]
      exact ih (some c) skip (Nat.le_of_succ_le_succ hskip)
    | zero =>
      have hfind := h.ahead prev (c :: a) b
      rw [List.cons_append] at hfind ⊢
      rw [subFrom, subFrom, hfind]
      cases hcase : m.find prev (c :: a) with
      | none =>
        dsimp only
        rw [ih (some c) 0 (Nat.zero_le _)]
        rfl
      | some n =>
        cases n with
        | zero =>
          dsimp only
          rw [ih (some c) 0 (Nat.zero_le _)]
          rfl
        | succ n =>
          have hfits := m.fits prev (c :: a) (n + 1) hcase
          dsimp only
          rw [ih (some c) n (Nat.le_of_succ_le_succ hfits), List.append_assoc]

/-- Both sides of a separator are replaced on their own. -/
theorem subAll_separator (h : m.Separates sep) (a b : List α) :
    subAll m new (a ++ sep :: b) = subAll m new a ++ sep :: subAll m new b :=
  subFrom_separator h none 0 a b (Nat.zero_le _)

theorem subst_eq_self {c : α} {prev : Option α} {s out : List α} (hsub : Subst m new prev s out)
    (hc : c ∈ new) (hout : c ∉ out) : out = s := by
  induction hsub with
  | nil => rfl
  | keep _ _ ih =>
    rw [List.mem_cons, not_or] at hout
    rw [ih hout.2]
  | drop _ _ _ => exact absurd (List.mem_append_left _ hc) hout

/-- A replacement is seen in the result. -/
theorem subAll_eq_self_of_not_mem {c : α} {s : List α} (hc : c ∈ new) (hout : c ∉ subAll m new s) :
    subAll m new s = s := subst_eq_self (subst_subAll s) hc hout

theorem subst_mem {c : α} {prev : Option α} {s out : List α} (hsub : Subst m new prev s out)
    (hc : c ∈ out) : c ∈ s ∨ c ∈ new := by
  induction hsub with
  | nil => exact Or.inl hc
  | keep _ _ ih =>
    rcases List.mem_cons.mp hc with rfl | hc
    · exact Or.inl List.mem_cons_self
    · exact (ih hc).imp_left fun h => List.mem_cons_of_mem _ h
  | drop _ _ ih =>
    rcases List.mem_append.mp hc with hc | hc
    · exact Or.inr hc
    · exact (ih hc).imp_left fun h => List.mem_append_right _ h

/-- What is in the result was there before or was put there. -/
theorem mem_of_mem_subAll {c : α} {s : List α} (hc : c ∈ subAll m new s) : c ∈ s ∨ c ∈ new :=
  subst_mem (subst_subAll s) hc

end DevRepro.Lib
