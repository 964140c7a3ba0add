import DevRepro.Python.JsonDump

/-!
# Surrogates in what `json.loads` returns

The decoder joins a high and a low surrogate that are written as two `\u`
escapes in a row.  From a text without surrogates it therefore returns no
string in which one stands before the other, and `loads_paired` says so for
every string and key inside the value.

`State.Paired` is the invariant of the scanner.  The one delicate part is the
literal being read: a high surrogate at its end must have come from an escape,
because then the decoder still joins the low one.
-/

namespace DevRepro.Python

/-- Every string and every key inside the value is well paired. -/
inductive Json.Paired : Json → Prop where
  | null : Paired .null
  | bool (b : Bool) : Paired (.bool b)
  | int (n : Int) : Paired (.int n)
  | float (x : PyFloat) : Paired (.float x)
  | str (s : Str) (paired : WellPaired s) : Paired (.str s)
  | arr (elems : List Json) (each : ∀ v ∈ elems, Paired v) : Paired (.arr elems)
  | obj (fields : List (Str × Json)) (keys : ∀ item ∈ fields, WellPaired item.1)
      (each : ∀ item ∈ fields, Paired item.2) : Paired (.obj fields)

namespace Scan

variable {l : Limits}

/-! ## The invariant -/

/-- The items of an object read so far, last first. -/
def PairedItems (items : List (Str × Json)) : Prop :=
  ∀ item ∈ items, WellPaired item.1 ∧ item.2.Paired

def Frame.Paired : Frame → Prop
  | .arr done => ∀ v ∈ done, v.Paired
  | .member done key => PairedItems done ∧ WellPaired key

def Role.Paired : Role → Prop
  | .value => True
  | .key done => PairedItems done

/-- A literal whose characters so far are well paired, and whose last one is a
high surrogate only when an escape wrote it. -/
structure Text.Paired (t : Text) : Prop where
  role : t.role.Paired
  acc : WellPaired t.acc.reverse
  last : ∀ c ∈ t.acc.head?, isHighSurrogate c = true → t.unit = true

def Mode.Paired : Mode → Prop
  | .value _ => True
  | .key _ done => PairedItems done
  | .colon done name => PairedItems done ∧ WellPaired name
  | .after v => v.Paired
  | .word _ _ => True
  | .number _ => True
  | .text t => t.Paired

structure State.Paired (st : State) : Prop where
  stack : ∀ f ∈ st.stack, f.Paired
  mode : st.mode.Paired

/-! ## Small facts -/

theorem wellPaired_nil : WellPaired [] := List.IsChain.nil

theorem wellPaired_of_not_surrogate {s : Str} (h : ∀ c ∈ s, isSurrogate c = false) :
    WellPaired s := by
  induction s with
  | nil => exact wellPaired_nil
  | cons c s ih =>
    rw [List.forall_mem_cons] at h
    refine List.isChain_cons.mpr ⟨?_, ih h.2⟩
    intro d _ hpair
    simp only [isSurrogate, Bool.or_eq_false_iff] at h
    rw [h.1.1] at hpair
    exact absurd hpair.1 (by decide)

/-- A character behind a well-paired text keeps it well paired unless it is a
low surrogate behind a high one. -/
theorem wellPaired_snoc {acc : Str} {c : CodePoint} (h : WellPaired acc.reverse)
    (hc : ∀ d ∈ acc.head?, ¬(isHighSurrogate d = true ∧ isLowSurrogate c = true)) :
    WellPaired (c :: acc).reverse := by
  rw [List.reverse_cons]
  refine List.isChain_append.mpr ⟨h, List.IsChain.singleton c, ?_⟩
  intro d hd e he
  rw [List.getLast?_reverse] at hd
  have hec : c = e := by simpa using he
  exact hec ▸ hc d hd

theorem pairedItems_nil : PairedItems [] := by
  intro item hitem
  cases hitem

theorem PairedItems.cons {key : Str} {v : Json} {done : List (Str × Json)} (hk : WellPaired key)
    (hv : v.Paired) (h : PairedItems done) : PairedItems ((key, v) :: done) := by
  intro item hitem
  rcases List.mem_cons.mp hitem with rfl | hitem
  · exact ⟨hk, hv⟩
  · exact h item hitem

/-- The object made of well-paired items. -/
theorem PairedItems.obj {items : List (Str × Json)} (h : PairedItems items) :
    (Json.obj (dictOf items.reverse)).Paired := by
  have hmem : ∀ item ∈ dictOf items.reverse, item ∈ items := fun item hitem =>
    List.mem_reverse.mp (mem_dictOf hitem)
  exact .obj _ (fun item hitem => (h item (hmem item hitem)).1)
    fun item hitem => (h item (hmem item hitem)).2

theorem Word.value_paired (w : Word) : w.value.Paired := by
  cases w with
  | null => exact .null
  | true => exact .bool _
  | false => exact .bool _
  | nan => exact .float _
  | infinity negative => exact .float _

theorem Number.value_paired {n : Number} {v : Json} (h : n.value l = .ok v) : v.Paired := by
  unfold Number.value Number.toInt Number.toFloat at h
  split at h <;> (try split_ifs at h) <;> cases h <;> first | exact .int _ | exact .float _

/-! ## One character -/

theorem openValue_paired {stack : List Frame} (hs : ∀ f ∈ stack, f.Paired) {c : CodePoint}
    {st : State} (h : openValue l stack c = .ok st) : st.Paired := by
  have harr : (Frame.arr []).Paired := fun v hv => by cases hv
  unfold openValue at h
  split at h <;> (try split_ifs at h) <;> cases h
  · exact ⟨hs, trivial, wellPaired_nil, by simp⟩
  · exact ⟨List.forall_mem_cons.mpr ⟨harr, hs⟩, trivial⟩
  · exact ⟨hs, pairedItems_nil⟩
  · exact ⟨hs, trivial⟩
  · exact ⟨hs, trivial⟩

theorem afterValue_paired {stack : List Frame} (hs : ∀ f ∈ stack, f.Paired) {v : Json}
    (hv : v.Paired) {c : CodePoint} {st : State} (h : afterValue stack v c = .ok st) :
    st.Paired := by
  unfold afterValue at h
  split at h
  · cases h
  · rename_i done rest
    rw [List.forall_mem_cons] at hs
    have hdone : ∀ w ∈ v :: done, w.Paired := List.forall_mem_cons.mpr ⟨hv, hs.1⟩
    split_ifs at h <;> cases h
    · exact ⟨List.forall_mem_cons.mpr ⟨hdone, hs.2⟩, trivial⟩
    · exact ⟨hs.2, .arr _ fun w hw => hdone w (List.mem_reverse.mp hw)⟩
  · rename_i done key rest
    rw [List.forall_mem_cons] at hs
    have hdone : PairedItems ((key, v) :: done) := hs.1.1.cons hs.1.2 hv
    split_ifs at h <;> cases h
    · exact ⟨hs.2, hdone⟩
    · exact ⟨hs.2, hdone.obj⟩

theorem settle_paired {stack : List Frame} (hs : ∀ f ∈ stack, f.Paired) {v : Json}
    (hv : v.Paired) {c : CodePoint} {st : State} (h : settle stack v c = .ok st) : st.Paired := by
  unfold settle at h
  split_ifs at h
  · cases h
    exact ⟨hs, hv⟩
  · exact afterValue_paired hs hv h

theorem endNumber_paired {stack : List Frame} (hs : ∀ f ∈ stack, f.Paired) {n : Number}
    {c : CodePoint} {st : State} (h : endNumber l stack n c = .ok st) : st.Paired := by
  rw [endNumber] at h
  by_cases hI : n.phase = .minus ∧ c = codePoint 'I'
  · rw [if_pos hI] at h
    cases h
    exact ⟨hs, trivial⟩
  · rw [if_neg hI] at h
    cases hv : n.value l with
    | error e => rw [hv] at h; cases h
    | ok v =>
      simp only [hv] at h
      by_cases hl : n.phase.leftover = true
      · rw [if_pos hl] at h
        cases h
      · rw [if_neg hl] at h
        exact settle_paired hs (Number.value_paired hv) h

theorem closeText_paired {stack : List Frame} (hs : ∀ f ∈ stack, f.Paired) {t : Text}
    (ht : t.Paired) : (closeText stack t).Paired := by
  obtain ⟨role, acc, unit, escape⟩ := t
  cases role with
  | value => exact ⟨hs, .str _ ht.acc⟩
  | key done => exact ⟨hs, ht.role, ht.acc⟩

/-- A character that is no surrogate keeps any text well paired. -/
theorem wellPaired_push {acc : Str} (h : WellPaired acc.reverse) {c : CodePoint}
    (hc : isSurrogate c = false) : WellPaired (c :: acc).reverse := by
  simp only [isSurrogate, Bool.or_eq_false_iff] at hc
  refine wellPaired_snoc h fun d _ hd => ?_
  rw [hc.2] at hd
  exact absurd hd.2 (by decide)

/-- A character that is no surrogate is not the start of a pair. -/
theorem last_push {acc : Str} {c : CodePoint} (hc : isSurrogate c = false) {unit : Bool} :
    ∀ d ∈ (c :: acc).head?, isHighSurrogate d = true → unit = true := by
  simp only [isSurrogate, Bool.or_eq_false_iff] at hc
  intro d hd hhigh
  have hcd : c = d := by simpa using hd
  rw [← hcd, hc.1] at hhigh
  exact absurd hhigh (by decide)

/-- A character that is no surrogate goes behind any literal. -/
theorem Text.Paired.push {t : Text} (ht : t.Paired) {c : CodePoint} (hc : isSurrogate c = false)
    (escape : Escape) : Text.Paired ⟨t.role, c :: t.acc, false, escape⟩ :=
  ⟨ht.role, wellPaired_push ht.acc hc, last_push hc⟩

theorem isSurrogate_joinPair {high low : CodePoint} (hh : isHighSurrogate high = true)
    (hl : isLowSurrogate low = true) : isSurrogate (joinPair high low) = false := by
  rw [isHighSurrogate_iff] at hh
  rw [isLowSurrogate_iff] at hl
  have hnot : ¬(isHighSurrogate (joinPair high low) = true) ∧
      ¬(isLowSurrogate (joinPair high low) = true) := by
    simp only [isHighSurrogate_iff, isLowSurrogate_iff, joinPair, Fin.ofNat]
    omega
  simpa [isSurrogate] using hnot

theorem Text.Paired.addUnit {t : Text} (ht : t.Paired) (n : Nat) : (t.addUnit n).Paired := by
  obtain ⟨role, acc, unit, escape⟩ := t
  cases acc with
  | nil =>
    refine ⟨ht.role, List.IsChain.singleton _, ?_⟩
    intro _ _ _
    rfl
  | cons high acc =>
    simp only [Text.addUnit]
    split_ifs with hjoin
    · simp only [Bool.and_eq_true] at hjoin
      have hacc : WellPaired acc.reverse := by
        have h := ht.acc
        simp only [List.reverse_cons] at h
        exact List.IsChain.left_of_append h
      have hjoined := isSurrogate_joinPair hjoin.1.2 hjoin.2
      exact ⟨ht.role, wellPaired_push hacc hjoined, last_push hjoined⟩
    · refine ⟨ht.role, wellPaired_snoc ht.acc ?_, fun _ _ _ => rfl⟩
      intro d hd hpair
      have hdh : high = d := by simpa using hd
      subst hdh
      have hunit := ht.last high (by simp) hpair.1
      apply hjoin
      simp only [Bool.and_eq_true]
      exact ⟨⟨hunit, hpair.1⟩, hpair.2⟩

theorem simpleEscape?_not_surrogate {c d : CodePoint} (h : simpleEscape? c = some d) :
    isSurrogate d = false := by
  unfold simpleEscape? at h
  split_ifs at h with h1 h2 h3 <;> cases h
  · rw [h1]; decide
  · rw [h2]; decide
  · rw [h3]; decide
  all_goals decide

theorem stepText_paired {stack : List Frame} (hs : ∀ f ∈ stack, f.Paired) {t : Text}
    (ht : t.Paired) {c : CodePoint} (hc : isSurrogate c = false) {st : State}
    (h : stepText stack t c = .ok st) : st.Paired := by
  have hsame : ∀ escape, Text.Paired { t with escape := escape } := fun _ =>
    ⟨ht.role, ht.acc, ht.last⟩
  unfold stepText at h
  split at h
  · split_ifs at h <;> cases h
    · exact closeText_paired hs ht
    · exact ⟨hs, hsame _⟩
    · exact ⟨hs, ht.push hc _⟩
  · split_ifs at h
    · cases h
      exact ⟨hs, hsame _⟩
    · split at h <;> cases h
      exact ⟨hs, ht.push (simpleEscape?_not_surrogate ‹_›) _⟩
  · split at h
    · cases h
    · split_ifs at h <;> cases h
      · exact ⟨hs, ht.addUnit _⟩
      · exact ⟨hs, hsame _⟩

theorem step_paired {st st' : State} (hst : st.Paired) {c : CodePoint}
    (hc : isSurrogate c = false) (h : step l st c = .ok st') : st'.Paired := by
  obtain ⟨stack, mode⟩ := st
  obtain ⟨hs, hm⟩ := hst
  cases mode with
  | value first =>
    simp only [step] at h
    split_ifs at h
    · cases h
      exact ⟨hs, trivial⟩
    · cases h
      exact ⟨fun f hf => hs f (List.mem_of_mem_tail hf), .arr [] (by simp)⟩
    · exact openValue_paired hs h
  | key first done =>
    simp only [step] at h
    split_ifs at h <;> cases h
    · exact ⟨hs, hm⟩
    · exact ⟨hs, hm, wellPaired_nil, by simp⟩
    · exact ⟨hs, .obj [] (by simp) (by simp)⟩
  | colon done key =>
    simp only [step] at h
    split_ifs at h <;> cases h
    · exact ⟨hs, hm⟩
    · exact ⟨List.forall_mem_cons.mpr ⟨hm, hs⟩, trivial⟩
  | after v => exact settle_paired hs hm h
  | word rest w =>
    cases rest with
    | nil => exact settle_paired hs w.value_paired h
    | cons d rest =>
      simp only [step] at h
      split_ifs at h
      cases h
      exact ⟨hs, trivial⟩
  | number n =>
    simp only [step] at h
    cases hn : n.next c with
    | some n' =>
      rw [hn] at h
      cases h
      exact ⟨hs, trivial⟩
    | none =>
      rw [hn] at h
      exact endNumber_paired hs h
  | text t => exact stepText_paired hs hm hc h

theorem finish_paired {st : State} (hst : st.Paired) {v : Json} (h : finish l st = .ok v) :
    v.Paired := by
  have hvalue : ∀ stack w, w.Paired → finishValue stack w = .ok v → v.Paired := by
    intro stack w hw hf
    unfold finishValue at hf
    split at hf <;> cases hf
    exact hw
  obtain ⟨stack, mode⟩ := st
  obtain ⟨_, hm⟩ := hst
  cases mode with
  | value first => cases h
  | key first done => cases h
  | colon done key => cases h
  | after w => exact hvalue stack w hm h
  | word rest w =>
    cases rest with
    | nil => exact hvalue stack _ w.value_paired h
    | cons d rest => cases h
  | number n =>
    simp only [finish] at h
    cases hv : n.value l with
    | error e => rw [hv] at h; cases h
    | ok w =>
      simp only [hv] at h
      by_cases hl : n.phase.leftover = true
      · rw [if_pos hl] at h
        cases h
      · rw [if_neg hl] at h
        exact hvalue stack w (Number.value_paired hv) h
  | text t =>
    simp only [finish] at h
    split at h <;> (try split_ifs at h) <;> cases h

theorem run_paired {text : Str} (ht : ∀ c ∈ text, isSurrogate c = false) {st st' : State}
    (hst : st.Paired) (h : run l st text = .ok st') : st'.Paired := by
  induction text generalizing st with
  | nil =>
    cases h
    exact hst
  | cons c text ih =>
    rw [List.forall_mem_cons] at ht
    rw [run_cons] at h
    cases hs : step l st c with
    | error e => rw [hs] at h; cases h
    | ok st'' =>
      rw [hs] at h
      exact ih ht.2 (step_paired hst ht.1 hs) h

end Scan

open Scan

/-- A text without surrogates has a well-paired value. -/
theorem loads_paired {l : Limits} {text : Str} (ht : ∀ c ∈ text, isSurrogate c = false)
    {v : Json} (h : loads l text = .ok v) : v.Paired := by
  unfold loads at h
  split_ifs at h
  cases hr : run l ⟨[], .value false⟩ text with
  | error e => rw [hr] at h; cases h
  | ok st =>
    simp only [hr] at h
    have hstart : State.Paired ⟨[], .value false⟩ := ⟨by simp, trivial⟩
    exact finish_paired (run_paired ht hstart hr) h

theorem PrintableText.wellPaired {s : Str} (h : PrintableText s) : WellPaired s :=
  wellPaired_of_not_surrogate fun c hc => isSurrogate_of_isPrintableAscii (h c hc)

/-- `str()` of a well-paired value is well paired. -/
theorem Json.Paired.toStr {rt : Runtime} {v : Json} (hv : v.Paired) {s : Str}
    (h : v.toStr rt = .ok s) : WellPaired s := by
  cases hv with
  | null =>
    cases h
    exact PrintableText.wellPaired (by decide)
  | bool b =>
    cases b <;> cases h <;> exact PrintableText.wellPaired (by decide)
  | int n =>
    simp only [Json.toStr] at h
    split_ifs at h
    cases h
    exact PrintableText.wellPaired (intStr_printable n)
  | float x =>
    cases h
    exact PrintableText.wellPaired (rt.floatRepr_printable x)
  | str s' paired =>
    cases h
    exact paired
  | arr elems each =>
    simp only [Json.toStr] at h
    split at h <;> cases h
    exact rt.containerStr_wellPaired _ _ ‹_›
  | obj fields keys each =>
    simp only [Json.toStr] at h
    split at h <;> cases h
    exact rt.containerStr_wellPaired _ _ ‹_›

/-- A field of a well-paired value is well paired. -/
theorem Json.Paired.getItem {v w : Json} (hv : v.Paired) {key : Str}
    (h : v.getItem key = .ok w) : w.Paired := by
  unfold Json.getItem at h
  split at h
  · split at h <;> cases h
    cases hv with
    | obj fields keys each => exact each _ (mem_of_dictGet? ‹_›)
  all_goals cases h

end DevRepro.Python
