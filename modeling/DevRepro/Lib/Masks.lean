import Mathlib.Data.List.Basic
import Mathlib.Data.List.TakeWhile
import Mathlib.Tactic.SplitIfs

/-!
# Masked runs

A rule takes a run of plain elements that stands behind an opener and in front of a stop, and puts
a mask in its place, wherever such a run is in a list.
-/

namespace DevRepro.Lib

variable {α : Type} [DecidableEq α]

/-- A rule; the last element of its opener and its stop are not plain. -/
structure MaskRule (α : Type) where
  opener : List α
  mask : List α
  plain : α → Bool
  last : α
  stop : α
  opener_last : opener.getLast? = some last
  last_plain : plain last = false
  stop_plain : plain stop = false
  stop_opener : stop ∉ opener
  mask_plain : ∀ c ∈ mask, plain c = true

namespace MaskRule

variable (rule : MaskRule α)

/-- A run starts here, behind the elements in front, of which the nearest comes first. -/
def isRun (before s : List α) : Bool :=
  rule.opener.reverse.isPrefixOf before && !(s.takeWhile rule.plain).isEmpty &&
    decide ((s.dropWhile rule.plain).head? = some rule.stop)

/-- The walk through a list, with the elements of a run to skip. -/
def maskFrom : List α → Nat → List α → List α
  | _, _, [] => []
  | before, skip + 1, c :: rest => maskFrom (c :: before) skip rest
  | before, 0, c :: rest =>
    if rule.isRun before (c :: rest) then
      rule.mask ++ maskFrom (c :: before) (rest.takeWhile rule.plain).length rest
    else c :: maskFrom (c :: before) 0 rest

/-- The list with its runs masked. -/
def maskAll (s : List α) : List α := rule.maskFrom [] 0 s

variable {rule} {before : List α}

theorem maskFrom_skip (before : List α) (skip : Nat) (s : List α) :
    rule.maskFrom before skip s = rule.maskFrom ((s.take skip).reverse ++ before) 0 (s.drop skip) := by
  induction s generalizing before skip with
  | nil => simp [maskFrom]
  | cons c rest ih =>
    cases skip with
    | zero => rfl
    | succ skip =>
      rw [maskFrom, ih, List.take_succ_cons, List.drop_succ_cons, List.reverse_cons, List.append_assoc]
      rfl

omit [DecidableEq α] in
theorem stop_ne_last (rule : MaskRule α) : rule.stop ≠ rule.last := by
  intro heq
  exact rule.stop_opener (heq ▸ List.mem_of_getLast? rule.opener_last)

omit [DecidableEq α] in
theorem takeWhile_run {x : List α} (hplain : ∀ c ∈ x, rule.plain c = true) (rest : List α) :
    (x ++ rule.stop :: rest).takeWhile rule.plain = x := by
  rw [List.takeWhile_append_of_pos hplain, List.takeWhile_cons_of_neg (by simp [rule.stop_plain]),
    List.append_nil]

omit [DecidableEq α] in
/-- A run does not reach across an element that is not plain. -/
theorem run_split {x rest u t : List α} {sep : α} (hplain : ∀ c ∈ x, rule.plain c = true)
    (hsep : rule.plain sep = false) (h : x ++ rule.stop :: rest = u ++ sep :: t) :
    x = u ∧ rule.stop = sep ∧ rest = t ∨ ∃ w, u = x ++ rule.stop :: w ∧ rest = w ++ sep :: t := by
  rcases List.append_eq_append_iff.mp h with ⟨v, hu, hrest⟩ | ⟨v, hx, hrest⟩
  · cases v with
    | nil =>
      obtain ⟨hstop, htail⟩ := List.cons.inj hrest
      exact Or.inl ⟨by rw [hu, List.append_nil], hstop, htail⟩
    | cons d v =>
      obtain ⟨rfl, htail⟩ := List.cons.inj hrest
      exact Or.inr ⟨v, hu, htail⟩
  · cases v with
    | nil =>
      obtain ⟨hstop, htail⟩ := List.cons.inj hrest
      exact Or.inl ⟨by rw [hx, List.append_nil], hstop.symm, htail.symm⟩
    | cons d v =>
      have hd := hplain d (hx ▸ List.mem_append_right _ List.mem_cons_self)
      rw [← (List.cons.inj hrest).1, hsep] at hd
      cases hd

theorem isRun_iff {s : List α} :
    rule.isRun before s = true ↔ rule.opener.reverse <+: before ∧
      ∃ x rest, s = x ++ rule.stop :: rest ∧ x ≠ [] ∧ ∀ c ∈ x, rule.plain c = true := by
  rw [isRun, Bool.and_eq_true, Bool.and_eq_true, List.isPrefixOf_iff_prefix, decide_eq_true_eq,
    and_assoc]
  refine and_congr_right fun _ => ?_
  constructor
  · rintro ⟨hne, hstop⟩
    obtain ⟨rest, hrest⟩ := List.head?_eq_some_iff.mp hstop
    refine ⟨s.takeWhile rule.plain, rest, ?_, ?_, fun c hc => List.mem_takeWhile_imp hc⟩
    · rw [← hrest, List.takeWhile_append_dropWhile]
    · simpa using hne
  · rintro ⟨x, rest, rfl, hne, hplain⟩
    rw [takeWhile_run hplain, List.dropWhile_append_of_pos hplain,
      List.dropWhile_cons_of_neg (by simp [rule.stop_plain])]
    exact ⟨by simpa using hne, rfl⟩

omit [DecidableEq α] in
/-- The nearest element of the opener is in front of a run. -/
theorem head_of_opener (h : rule.opener.reverse <+: before) : before.head? = some rule.last := by
  obtain ⟨rest, rfl⟩ := h
  obtain ⟨start, hstart⟩ := List.getLast?_eq_some_iff.mp rule.opener_last
  rw [hstart]
  simp

theorem maskFrom_cons {c : α} {s : List α} (h : ¬rule.isRun before (c :: s) = true) :
    rule.maskFrom before 0 (c :: s) = c :: rule.maskFrom (c :: before) 0 s := by
  rw [maskFrom, if_neg h]

theorem maskFrom_stop (before rest : List α) :
    rule.maskFrom before 0 (rule.stop :: rest) =
      rule.stop :: rule.maskFrom (rule.stop :: before) 0 rest := by
  refine maskFrom_cons fun h => ?_
  obtain ⟨-, x, rest', heq, hne, hplain⟩ := isRun_iff.mp h
  cases x with
  | nil => exact hne rfl
  | cons c x =>
    have hc := hplain c List.mem_cons_self
    rw [← (List.cons.inj heq).1, rule.stop_plain] at hc
    cases hc

/-- A run is masked up to its stop. -/
theorem maskFrom_run (hopen : rule.opener.reverse <+: before) {x : List α} (hne : x ≠ [])
    (hplain : ∀ c ∈ x, rule.plain c = true) (rest : List α) :
    rule.maskFrom before 0 (x ++ rule.stop :: rest) =
      rule.mask ++ rule.stop :: rule.maskFrom (rule.stop :: (x.reverse ++ before)) 0 rest := by
  cases x with
  | nil => exact absurd rfl hne
  | cons c x =>
    have hrun : rule.isRun before (c :: x ++ rule.stop :: rest) = true :=
      isRun_iff.mpr ⟨hopen, c :: x, rest, rfl, hne, hplain⟩
    have htake := takeWhile_run (fun d hd => hplain d (List.mem_cons_of_mem c hd)) rest
    rw [List.cons_append] at hrun ⊢
    rw [maskFrom, if_pos hrun, htake, maskFrom_skip, List.take_left, List.drop_left, maskFrom_stop,
      List.reverse_cons, List.append_assoc]
    rfl

/-- Nothing is masked up to the next last element of an opener. -/
theorem maskFrom_quiet {w : List α} (hbefore : before.head? ≠ some rule.last) (hw : rule.last ∉ w)
    (rest : List α) :
    rule.maskFrom before 0 (w ++ rest) = w ++ rule.maskFrom (w.reverse ++ before) 0 rest := by
  induction w generalizing before with
  | nil => rfl
  | cons c w ih =>
    rw [List.mem_cons, not_or] at hw
    have hnot : ¬rule.isRun before (c :: (w ++ rest)) = true := fun h =>
      hbefore (head_of_opener (isRun_iff.mp h).1)
    have hnext : (c :: before).head? ≠ some rule.last := fun h => hw.1 (Option.some.inj h).symm
    rw [List.cons_append, maskFrom_cons hnot, ih hnext hw.2, List.reverse_cons, List.append_assoc]
    rfl

/-- What is in front of a stop does not count behind it. -/
theorem isRun_context (front rest s : List α) :
    rule.isRun (front ++ rule.stop :: rest) s = rule.isRun front s := by
  have hopen : rule.opener.reverse <+: front ++ rule.stop :: rest ↔ rule.opener.reverse <+: front := by
    constructor
    · intro h
      rcases List.prefix_or_prefix_of_prefix h (List.prefix_append front (rule.stop :: rest)) with
        hle | hge
      · exact hle
      · obtain ⟨t, ht⟩ := hge
        cases t with
        | nil =>
          rw [List.append_nil] at ht
          exact ht ▸ List.prefix_rfl
        | cons c t =>
          rw [← ht, List.prefix_append_right_inj] at h
          have hc := (List.cons_prefix_cons.mp h).1
          refine absurd ?_ rule.stop_opener
          rw [← List.mem_reverse, ← ht, ← hc]
          exact List.mem_append_right _ List.mem_cons_self
    · exact fun h => h.trans (List.prefix_append _ _)
  rw [Bool.eq_iff_iff, isRun_iff, isRun_iff, hopen]

theorem maskFrom_context (front rest : List α) (skip : Nat) (s : List α) :
    rule.maskFrom (front ++ rule.stop :: rest) skip s = rule.maskFrom front skip s := by
  induction s generalizing front skip with
  | nil => simp [maskFrom]
  | cons c s ih =>
    cases skip with
    | succ skip => exact ih (c :: front) skip
    | zero =>
      rw [maskFrom, maskFrom, isRun_context]
      split_ifs
      · exact congrArg _ (ih (c :: front) _)
      · exact congrArg _ (ih (c :: front) _)

theorem maskFrom_behind_stop (before s : List α) :
    rule.maskFrom (rule.stop :: before) 0 s = rule.maskAll s := maskFrom_context [] before 0 s

omit [DecidableEq α] in
theorem takeWhile_last (x y : List α) :
    (x ++ rule.last :: y).takeWhile rule.plain = x.takeWhile rule.plain := by
  rw [List.takeWhile_append]
  split_ifs with hall
  · rw [List.takeWhile_cons_of_neg (by simp [rule.last_plain]), List.append_nil]
    exact (List.takeWhile_prefix rule.plain).eq_of_length hall |>.symm
  · rfl

/-- What starts at a last element of an opener does not count in front of it. -/
theorem isRun_append (before x y : List α) :
    rule.isRun before (x ++ rule.last :: y) = rule.isRun before x := by
  rw [Bool.eq_iff_iff, isRun_iff, isRun_iff]
  refine and_congr_right fun _ => ⟨?_, ?_⟩
  · rintro ⟨run, rest, heq, hne, hplain⟩
    rcases run_split hplain rule.last_plain heq.symm with ⟨-, hstop, -⟩ | ⟨w, hx, -⟩
    · exact absurd hstop (stop_ne_last rule)
    · exact ⟨run, w, hx, hne, hplain⟩
  · rintro ⟨run, rest, rfl, hne, hplain⟩
    exact ⟨run, rest ++ rule.last :: y, by simp, hne, hplain⟩

/-- The walk starts again at a last element of an opener. -/
theorem maskFrom_append (before x y : List α) {skip : Nat} (hskip : skip ≤ x.length) :
    rule.maskFrom before skip (x ++ rule.last :: y) = rule.maskFrom before skip x ++
      rule.last :: rule.maskFrom (rule.last :: (x.reverse ++ before)) 0 y := by
  induction x generalizing before skip with
  | nil =>
    obtain rfl : skip = 0 := Nat.le_zero.mp hskip
    refine (maskFrom_cons fun h => ?_).trans rfl
    have hrun : rule.isRun before ([] ++ rule.last :: y) = rule.isRun before [] :=
      isRun_append before [] y
    rw [List.nil_append, h] at hrun
    obtain ⟨-, x, rest, heq, -, -⟩ := isRun_iff.mp hrun.symm
    simp at heq
  | cons c x ih =>
    have hcons : rule.last :: ((c :: x).reverse ++ before) = rule.last :: (x.reverse ++ c :: before) := by
      simp
    rw [hcons]
    cases skip with
    | succ skip => exact ih (c :: before) (Nat.le_of_succ_le_succ hskip)
    | zero =>
      have hrun : rule.isRun before (c :: x ++ rule.last :: y) = rule.isRun before (c :: x) :=
        isRun_append before (c :: x) y
      rw [List.cons_append] at hrun
      rw [List.cons_append, maskFrom, maskFrom, hrun, takeWhile_last]
      split_ifs
      · rw [ih (c :: before) (List.takeWhile_prefix rule.plain).length_le, List.append_assoc]
      · rw [ih (c :: before) (Nat.zero_le _)]
        rfl

/-! ## What is hidden -/

/-- Where no run starts, nothing is masked up to the next last element of an opener. -/
theorem maskFrom_no_run {u : List α} (hne : u ≠ []) (hlast : rule.last ∉ u) (rest : List α)
    (hrun : ¬rule.isRun before (u ++ rule.stop :: rest) = true) :
    rule.maskFrom before 0 (u ++ rule.stop :: rest) = u ++ rule.stop :: rule.maskAll rest := by
  obtain ⟨c, w, rfl⟩ := List.exists_cons_of_ne_nil hne
  rw [List.mem_cons, not_or] at hlast
  have hnext : (c :: before).head? ≠ some rule.last := fun h => hlast.1 (Option.some.inj h).symm
  rw [List.cons_append] at hrun ⊢
  rw [maskFrom_cons hrun, maskFrom_quiet hnext hlast.2, maskFrom_stop, maskFrom_behind_stop]
  rfl

/-- Of a part with a stop in it, only what is in front of that is masked. -/
theorem maskFrom_part (hopen : rule.opener.reverse <+: before) {x t : List α} (hne : x ≠ [])
    (hplain : ∀ c ∈ x, rule.plain c = true) (ht : rule.last ∉ t) (rest : List α) :
    rule.maskFrom before 0 ((x ++ rule.stop :: t) ++ rule.stop :: rest) =
      rule.mask ++ rule.stop :: (t ++ rule.stop :: rule.maskAll rest) := by
  have hbehind : (rule.stop :: (x.reverse ++ before)).head? ≠ some rule.last :=
    fun h => stop_ne_last rule (Option.some.inj h)
  rw [List.append_assoc, List.cons_append, maskFrom_run hopen hne hplain,
    maskFrom_quiet hbehind ht, maskFrom_stop, maskFrom_behind_stop]

/-- A part between an opener and a stop is masked exactly when it is a run. -/
theorem maskAll_hides_iff {front u rest : List α} (hopen : rule.opener <:+ front ++ [rule.last])
    (hne : u ≠ []) (hlast : rule.last ∉ u) :
    rule.maskAll (front ++ rule.last :: (u ++ rule.stop :: rest)) =
        rule.maskAll front ++ rule.last :: (rule.mask ++ rule.stop :: rule.maskAll rest) ↔
      ∀ c ∈ u, rule.plain c = true := by
  have hbefore : rule.opener.reverse <+: rule.last :: front.reverse := by
    have hrev := List.reverse_prefix.mpr hopen
    simpa using hrev
  have hstart : rule.maskAll (front ++ rule.last :: (u ++ rule.stop :: rest)) =
      rule.maskAll front ++ rule.last ::
        rule.maskFrom (rule.last :: front.reverse) 0 (u ++ rule.stop :: rest) := by
    have happend := rule.maskFrom_append [] front (u ++ rule.stop :: rest) (Nat.zero_le _)
    rwa [List.append_nil] at happend
  have hcancel : ∀ a b : List α, rule.maskAll front ++ rule.last :: a =
      rule.maskAll front ++ rule.last :: b ↔ a = b := fun a b => by simp
  rw [hstart, hcancel]
  -- The part goes as far as its first stop, or it has none and is followed by one.
  constructor
  · intro heq
    by_contra hnot
    by_cases hrun : rule.isRun (rule.last :: front.reverse) (u ++ rule.stop :: rest) = true
    · obtain ⟨-, x, rest', hsplit, hxne, hplain⟩ := isRun_iff.mp hrun
      rcases run_split hplain rule.stop_plain hsplit.symm with ⟨rfl, -, -⟩ | ⟨t, rfl, -⟩
      · exact hnot hplain
      · have ht : rule.last ∉ t := fun hin =>
          hlast (List.mem_append_right x (List.mem_cons_of_mem _ hin))
        rw [maskFrom_part hbefore hxne hplain ht] at heq
        have hlen := congrArg List.length heq
        simp only [List.length_append, List.length_cons] at hlen
        omega
    · rw [maskFrom_no_run hne hlast rest hrun] at heq
      exact hnot (List.append_cancel_right heq ▸ rule.mask_plain)
  · intro hplain
    rw [maskFrom_run hbefore hne hplain, maskFrom_behind_stop]

/-- Nothing is masked in a part without the last element of an opener. -/
theorem maskAll_quiet {u rest : List α} (hlast : rule.last ∉ u) :
    rule.maskAll (u ++ rule.stop :: rest) = u ++ rule.stop :: rule.maskAll rest := by
  rw [maskAll, maskFrom_quiet (by simp) hlast, maskFrom_stop, maskFrom_behind_stop]

omit [DecidableEq α] in
/-- A masked run is as it was when it is the mask. -/
theorem mask_append_eq_iff {x rest rest' : List α} (hplain : ∀ c ∈ x, rule.plain c = true) :
    rule.mask ++ rule.stop :: rest' = x ++ rule.stop :: rest ↔ x = rule.mask ∧ rest' = rest := by
  constructor
  · intro heq
    have htake := congrArg (List.takeWhile rule.plain) heq
    rw [takeWhile_run rule.mask_plain, takeWhile_run hplain] at htake
    rw [htake] at heq
    exact ⟨htake.symm, (List.cons.inj (List.append_cancel_left heq)).2⟩
  · rintro ⟨rfl, heq⟩
    rw [heq]

omit [DecidableEq α] in
/-- Behind a run, the next one is the run itself or starts behind its stop. -/
theorem next_run {x rest front y rest' : List α} (hplain : ∀ c ∈ x, rule.plain c = true)
    (heq : x ++ rule.stop :: rest = front ++ (y ++ rule.stop :: rest'))
    (hfront : rule.opener.reverse <+: front.reverse ++ before)
    (hyplain : ∀ c ∈ y, rule.plain c = true) :
    y = x ∨ ∃ t, front = x ++ rule.stop :: t ∧ rest = t ++ (y ++ rule.stop :: rest') := by
  rw [← List.append_assoc] at heq
  rcases run_split hplain rule.stop_plain heq with ⟨hx, -, -⟩ | ⟨w, hw, hrest⟩
  · -- An opener would end within the run.
    rcases List.eq_nil_or_concat' front with rfl | ⟨init, f, rfl⟩
    · exact Or.inl hx.symm
    · have hhead := head_of_opener hfront
      rw [List.reverse_append] at hhead
      have hflast : f = rule.last := Option.some.inj hhead
      have hf := hplain f (by rw [hx]; simp)
      rw [hflast, rule.last_plain] at hf
      cases hf
  · -- The stop of the run is not in the next one.
    have hnot : ∀ v u, y ≠ v ++ rule.stop :: u := fun v u hy => by
      have hstop := hyplain rule.stop (hy ▸ List.mem_append_right v List.mem_cons_self)
      rw [rule.stop_plain] at hstop
      cases hstop
    rcases List.append_eq_append_iff.mp hw with ⟨v, -, hy⟩ | ⟨v, hv, htail⟩
    · exact absurd hy (hnot v w)
    · cases v with
      | nil => exact absurd htail.symm (hnot [] w)
      | cons d v =>
        obtain ⟨rfl, rfl⟩ := List.cons.inj htail
        exact Or.inr ⟨v, hv, hrest.trans (List.append_assoc v y (rule.stop :: rest'))⟩

/-- A walk changes nothing exactly when the runs that it meets are masks. -/
theorem maskFrom_eq_self_iff (before s : List α) :
    rule.maskFrom before 0 s = s ↔ ∀ front x rest, s = front ++ (x ++ rule.stop :: rest) →
      rule.opener.reverse <+: front.reverse ++ before → x ≠ [] → (∀ c ∈ x, rule.plain c = true) →
        x = rule.mask := by
  induction hn : s.length using Nat.strong_induction_on generalizing before s with
  | _ n ih =>
    cases s with
    | nil => exact iff_of_true rfl fun front x rest heq => by simp at heq
    | cons c s =>
      by_cases hrun : rule.isRun before (c :: s) = true
      · obtain ⟨hopen, x, rest, hsplit, hne, hplain⟩ := isRun_iff.mp hrun
        have hlt : rest.length < n := by
          rw [← hn, hsplit, List.length_append, List.length_cons]
          omega
        have hbehind := ih rest.length hlt (rule.stop :: (x.reverse ++ before)) rest rfl
        rw [hsplit, maskFrom_run hopen hne hplain, mask_append_eq_iff hplain, hbehind]
        constructor
        · rintro ⟨hx, hall⟩ front y rest' heq hfront hyne hyplain
          rcases next_run hplain heq hfront hyplain with rfl | ⟨t, rfl, hrest⟩
          · exact hx
          · exact hall t y rest' hrest (by simpa using hfront) hyne hyplain
        · intro hall
          refine ⟨hall [] x rest rfl hopen hne hplain, fun front y rest' heq hfront => ?_⟩
          refine hall (x ++ rule.stop :: front) y rest' (by rw [heq]; simp) ?_
          simpa using hfront
      · have hlt : s.length < n := by
          rw [← hn, List.length_cons]
          exact Nat.lt_succ_self _
        rw [maskFrom_cons hrun, List.cons_inj_right, ih s.length hlt (c :: before) s rfl]
        constructor
        · intro hall front x rest heq hfront hne hplain
          cases front with
          | nil => exact absurd (isRun_iff.mpr ⟨hfront, x, rest, heq, hne, hplain⟩) hrun
          | cons d front =>
            obtain ⟨rfl, htail⟩ := List.cons.inj heq
            exact hall front x rest htail (by simpa using hfront) hne hplain
        · intro hall front x rest heq hfront
          refine hall (c :: front) x rest (by rw [heq]; rfl) ?_
          simpa using hfront

/-- A list stays as it is exactly when each of its runs is the mask. -/
theorem maskAll_eq_self_iff (s : List α) :
    rule.maskAll s = s ↔ ∀ front x rest, s = front ++ (x ++ rule.stop :: rest) →
      rule.opener <:+ front → x ≠ [] → (∀ c ∈ x, rule.plain c = true) → x = rule.mask := by
  rw [maskAll, maskFrom_eq_self_iff]
  simp only [List.append_nil, List.reverse_prefix]

end MaskRule

end DevRepro.Lib
