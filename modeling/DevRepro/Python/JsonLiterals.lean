import DevRepro.Python.JsonEscapes

/-!
# The literals behind the strings of a value

From a text whose escapes are those of `json.dumps`, every string that the decoder
returns stands in the text just as the encoder writes it: `loads_spelt`.

`State.Each` says where the complete strings are, and `Reading` is the invariant of the
literal being read: its characters so far are written in front of the pending escape.
-/

namespace DevRepro.Python

open DevRepro.Lib

/-! ## The strings of a value -/

mutual
/-- The strings inside a value, without the keys. -/
def Json.strings : Json → List Str
  | .str s => [s]
  | .arr elems => stringsElems elems
  | .obj fields => stringsItems fields
  | .null | .bool _ | .int _ | .float _ => []
def stringsElems : List Json → List Str
  | [] => []
  | v :: rest => v.strings ++ stringsElems rest
def stringsItems : List (Str × Json) → List Str
  | [] => []
  | (_, v) :: rest => v.strings ++ stringsItems rest
end

theorem mem_stringsElems_iff {elems : List Json} {s : Str} :
    s ∈ stringsElems elems ↔ ∃ v ∈ elems, s ∈ v.strings := by
  induction elems with
  | nil => simp [stringsElems]
  | cons v rest ih => simp [stringsElems, ih]

theorem mem_stringsItems_iff {fields : List (Str × Json)} {s : Str} :
    s ∈ stringsItems fields ↔ ∃ item ∈ fields, s ∈ item.2.strings := by
  induction fields with
  | nil => simp [stringsItems]
  | cons item rest ih => simp [stringsItems, ih]

namespace Scan

variable {l : Limits}

/-! ## Complete strings -/

section Each

variable {P : Str → Prop}

/-- Every string inside the value is as `P` says. -/
def EachString (P : Str → Prop) (v : Json) : Prop := ∀ s ∈ v.strings, P s

theorem eachString_arr {elems : List Json} (h : ∀ v ∈ elems, EachString P v) :
    EachString P (.arr elems) := by
  intro s hs
  obtain ⟨v, hv, hmem⟩ := mem_stringsElems_iff.mp hs
  exact h v hv s hmem

theorem eachString_obj {fields : List (Str × Json)} (h : ∀ item ∈ fields, EachString P item.2) :
    EachString P (.obj fields) := by
  intro s hs
  obtain ⟨item, hitem, hmem⟩ := mem_stringsItems_iff.mp hs
  exact h item hitem s hmem

def EachItem (P : Str → Prop) (items : List (Str × Json)) : Prop :=
  ∀ item ∈ items, EachString P item.2

theorem EachItem.cons {key : Str} {v : Json} {done : List (Str × Json)} (hv : EachString P v)
    (h : EachItem P done) : EachItem P ((key, v) :: done) :=
  List.forall_mem_cons.mpr ⟨hv, h⟩

theorem EachItem.obj {items : List (Str × Json)} (h : EachItem P items) :
    EachString P (.obj (dictOf items.reverse)) :=
  eachString_obj fun item hitem => h item (List.mem_reverse.mp (mem_dictOf hitem))

def Frame.Each (P : Str → Prop) : Frame → Prop
  | .arr done => ∀ v ∈ done, EachString P v
  | .member done _ => EachItem P done

def Mode.Each (P : Str → Prop) : Mode → Prop
  | .key _ done => EachItem P done
  | .colon done _ => EachItem P done
  | .after v => EachString P v
  | .text ⟨.key done, _, _, _⟩ => EachItem P done
  | .value _ | .word _ _ | .number _ | .text ⟨.value, _, _, _⟩ => True

structure State.Each (P : Str → Prop) (st : State) : Prop where
  stack : ∀ f ∈ st.stack, f.Each P
  mode : st.mode.Each P

theorem State.Each.mono {Q : Str → Prop} (h : ∀ s, P s → Q s) {st : State} (hst : st.Each P) :
    st.Each Q := by
  have hvalue : ∀ v, EachString P v → EachString Q v := fun v hv s hs => h s (hv s hs)
  have hitems : ∀ items, EachItem P items → EachItem Q items :=
    fun items hi item hitem => hvalue _ (hi item hitem)
  refine ⟨fun f hf => ?_, ?_⟩
  · have hframe := hst.stack f hf
    cases f with
    | arr done => exact fun v hv => hvalue v (hframe v hv)
    | member done key => exact hitems done hframe
  · have hmode := hst.mode
    obtain ⟨stack, mode⟩ := st
    cases mode with
    | value first => trivial
    | key first done => exact hitems done hmode
    | colon done key => exact hitems done hmode
    | after v => exact hvalue v hmode
    | word rest w => trivial
    | number n => trivial
    | text t =>
      obtain ⟨role, acc, unit, escape⟩ := t
      cases role with
      | value => trivial
      | key done => exact hitems done hmode

theorem Word.value_each (w : Word) : EachString P w.value := by
  cases w <;> intro s hs <;> cases hs

theorem Number.value_each {n : Number} {v : Json} (h : n.value l = .ok v) : EachString P v := by
  unfold Number.value Number.toInt Number.toFloat at h
  split at h <;> (try split_ifs at h) <;> cases h <;> intro s hs <;> cases hs

theorem openValue_each {stack : List Frame} (hs : ∀ f ∈ stack, f.Each P) {c : CodePoint}
    {st : State} (h : openValue l stack c = .ok st) : st.Each P := by
  have harr : (Frame.arr []).Each P := fun v hv => by cases hv
  have hnone : EachItem P [] := fun item hitem => by cases hitem
  unfold openValue at h
  split at h <;> (try split_ifs at h) <;> cases h
  · exact ⟨hs, trivial⟩
  · exact ⟨List.forall_mem_cons.mpr ⟨harr, hs⟩, trivial⟩
  · exact ⟨hs, hnone⟩
  · exact ⟨hs, trivial⟩
  · exact ⟨hs, trivial⟩

theorem settle_each {stack : List Frame} (hs : ∀ f ∈ stack, f.Each P) {v : Json}
    (hv : EachString P v) {c : CodePoint} {st : State} (h : settle stack v c = .ok st) :
    st.Each P := by
  unfold settle at h
  split_ifs at h
  · cases h
    exact ⟨hs, hv⟩
  · unfold afterValue at h
    split at h
    · cases h
    · rename_i done rest
      rw [List.forall_mem_cons] at hs
      have hdone : ∀ w ∈ v :: done, EachString P w := List.forall_mem_cons.mpr ⟨hv, hs.1⟩
      split_ifs at h <;> cases h
      · exact ⟨List.forall_mem_cons.mpr ⟨hdone, hs.2⟩, trivial⟩
      · exact ⟨hs.2, eachString_arr fun w hw => hdone w (List.mem_reverse.mp hw)⟩
    · rename_i done key rest
      rw [List.forall_mem_cons] at hs
      have hdone : EachItem P ((key, v) :: done) := EachItem.cons hv hs.1
      split_ifs at h <;> cases h
      · exact ⟨hs.2, hdone⟩
      · exact ⟨hs.2, hdone.obj⟩

theorem endNumber_each {stack : List Frame} (hs : ∀ f ∈ stack, f.Each P) {n : Number}
    {c : CodePoint} {st : State} (h : endNumber l stack n c = .ok st) : st.Each P := by
  rw [endNumber] at h
  by_cases hI : n.phase = .minus ∧ c = codePoint 'I'
  · rw [if_pos hI] at h
    cases h
    exact ⟨hs, trivial⟩
  · rw [if_neg hI] at h
    cases hv : n.value l with
    | error e =>
      rw [hv] at h
      cases h
    | ok v =>
      simp only [hv] at h
      by_cases hl : n.phase.leftover = true
      · rw [if_pos hl] at h
        cases h
      · rw [if_neg hl] at h
        exact settle_each hs (Number.value_each hv) h

/-- A step keeps the complete strings, and a closing quote adds one. -/
theorem step_each {st st' : State} {c : CodePoint} (hst : st.Each P)
    (hclose : ∀ t, st.mode = .text t → t.escape = .none → c = codePoint '"' → P t.acc.reverse)
    (h : step l st c = .ok st') : st'.Each P := by
  obtain ⟨stack, mode⟩ := st
  obtain ⟨hs, hm⟩ := hst
  cases mode with
  | value first =>
    simp only [step] at h
    split_ifs at h
    · cases h
      exact ⟨hs, trivial⟩
    · cases h
      exact ⟨fun f hf => hs f (List.mem_of_mem_tail hf), eachString_arr fun v hv => by cases hv⟩
    · exact openValue_each hs h
  | key first done =>
    simp only [step] at h
    split_ifs at h <;> cases h
    · exact ⟨hs, hm⟩
    · exact ⟨hs, hm⟩
    · exact ⟨hs, eachString_obj fun item hitem => by cases hitem⟩
  | colon done key =>
    simp only [step] at h
    split_ifs at h <;> cases h
    · exact ⟨hs, hm⟩
    · exact ⟨List.forall_mem_cons.mpr ⟨hm, hs⟩, trivial⟩
  | after v => exact settle_each hs hm h
  | word rest w =>
    cases rest with
    | nil => exact settle_each hs w.value_each h
    | cons d rest =>
      simp only [step] at h
      split_ifs at h
      cases h
      exact ⟨hs, trivial⟩
  | number n =>
    simp only [step] at h
    cases hn : n.next c with
    | some n' =>
      rw [hn] at h
      cases h
      exact ⟨hs, trivial⟩
    | none =>
      rw [hn] at h
      exact endNumber_each hs h
  | text t =>
    obtain ⟨role, acc, unit, escape⟩ := t
    have hrole : ∀ acc' unit' escape', (Mode.text ⟨role, acc', unit', escape'⟩).Each P := by
      cases role with
      | value => exact fun _ _ _ => trivial
      | key done => exact fun _ _ _ => hm
    simp only [step, stepText] at h
    cases escape with
    | none =>
      simp only at h
      split_ifs at h with hquote <;> cases h
      · cases role with
        | value =>
          refine ⟨hs, fun s hmem => ?_⟩
          obtain rfl : s = acc.reverse := List.mem_singleton.mp hmem
          exact hclose _ rfl rfl hquote
        | key done => exact ⟨hs, hm⟩
      · exact ⟨hs, hrole _ _ _⟩
      · exact ⟨hs, hrole _ _ _⟩
    | slash =>
      simp only at h
      split_ifs at h
      · cases h
        exact ⟨hs, hrole _ _ _⟩
      · split at h <;> cases h
        exact ⟨hs, hrole _ _ _⟩
    | hex value left =>
      simp only at h
      split at h
      · cases h
      · split_ifs at h <;> cases h
        · refine ⟨hs, ?_⟩
          unfold Text.addUnit
          split
          · split_ifs <;> exact hrole _ _ _
          · exact hrole _ _ _
        · exact ⟨hs, hrole _ _ _⟩

end Each

/-! ## The literal being read -/

section Spelt

variable {spoil : CodePoint → Bool}

/-- The text of a string stands in a text, outside of every escape. -/
def Spelt (spoil : CodePoint → Bool) (text s : Str) : Prop :=
  ∃ before behind, text = before ++ quote s ++ behind ∧ Settled spoil before

theorem Spelt.append {text s : Str} (h : Spelt spoil text s) (t : Str) :
    Spelt spoil (text ++ t) s := by
  obtain ⟨before, behind, rfl, hbefore⟩ := h
  exact ⟨before, behind ++ t, by rw [List.append_assoc _ behind], hbefore⟩

/-- The characters of a literal so far, and the pending escape. -/
def spelling (t : Text) : Str := t.acc.reverse.flatMap escapeChar ++ pending t.escape

/-- A text ends inside a literal. -/
structure Reading (spoil : CodePoint → Bool) (done : Str) (t : Text) : Prop where
  fits : EscapeFits t.escape
  escape : runAll (escapeStep spoil) .none done = some t.escape
  spelt : ∃ before, Settled spoil before ∧ done = before ++ codePoint '"' :: spelling t

/-- Where the decoder stands behind a text. -/
def Mode.Place (spoil : CodePoint → Bool) (done : Str) : Mode → Prop
  | .text t => Reading spoil done t
  | .word rest _ => Settled spoil done ∧ rest.all (fun c => c != codePoint '\\') = true
  | .value _ | .key _ _ | .colon _ _ | .after _ | .number _ => Settled spoil done

theorem opening?_slash : opening? (codePoint '\\') = none := by decide

theorem next_slash (n : Number) : n.next (codePoint '\\') = none := by
  have hdigit : asciiDigit? (codePoint '\\') = none := by decide
  have hpoint : codePoint '\\' ≠ codePoint '.' := by decide
  have he : ¬(codePoint '\\' = codePoint 'e' ∨ codePoint '\\' = codePoint 'E') := by decide
  have hminus : codePoint '\\' ≠ codePoint '-' := by decide
  have hplus : codePoint '\\' ≠ codePoint '+' := by decide
  unfold Number.next
  cases n.phase <;> simp [hdigit, hpoint, he, hminus, hplus]

theorem settle_slash (stack : List Frame) (v : Json) :
    ∃ e, settle stack v (codePoint '\\') = .error e := by
  have hspace : isJsonSpace (codePoint '\\') = false := by decide
  have hcomma : codePoint '\\' ≠ codePoint ',' := by decide
  have hbracket : codePoint '\\' ≠ codePoint ']' := by decide
  have hbrace : codePoint '\\' ≠ codePoint '\x7d' := by decide
  unfold settle afterValue
  rw [hspace]
  cases stack with
  | nil => exact ⟨_, rfl⟩
  | cons f rest => cases f <;> simp [hcomma, hbracket, hbrace]

theorem endNumber_slash (stack : List Frame) (n : Number) :
    ∃ e, endNumber l stack n (codePoint '\\') = .error e := by
  have hI : ¬(n.phase = .minus ∧ codePoint '\\' = codePoint 'I') := fun h =>
    absurd h.2 (by decide)
  unfold endNumber
  rw [if_neg hI]
  cases n.value l with
  | error e => exact ⟨e, rfl⟩
  | ok v =>
    dsimp only
    split_ifs
    · exact ⟨_, rfl⟩
    · exact settle_slash stack v

/-- No backslash stands outside of a literal. -/
theorem step_slash {st st' : State} (hword : ∀ rest w, st.mode = .word rest w →
      rest.all (fun c => c != codePoint '\\') = true)
    (h : step l st (codePoint '\\') = .ok st') : ∃ t, st.mode = .text t := by
  have hspace : isJsonSpace (codePoint '\\') = false := by decide
  have hquote : codePoint '\\' ≠ codePoint '"' := by decide
  have hcolon : codePoint '\\' ≠ codePoint ':' := by decide
  have hbracket : codePoint '\\' ≠ codePoint ']' := by decide
  have hbrace : codePoint '\\' ≠ codePoint '\x7d' := by decide
  obtain ⟨stack, mode⟩ := st
  cases mode with
  | text t => exact ⟨t, rfl⟩
  | value first => simp [step, hspace, hbracket, openValue, opening?_slash] at h
  | key first done => simp [step, hspace, hquote, hbrace] at h
  | colon done key => simp [step, hspace, hcolon] at h
  | after v =>
    obtain ⟨e, he⟩ := settle_slash stack v
    have hsame := he.symm.trans h
    cases hsame
  | word rest w =>
    cases rest with
    | nil =>
      obtain ⟨e, he⟩ := settle_slash stack w.value
      have hsame := he.symm.trans h
      cases hsame
    | cons d rest =>
      have hd := hword _ _ rfl
      rw [List.all_cons, Bool.and_eq_true, bne_iff_ne] at hd
      simp only [step, if_neg hd.1.symm] at h
      cases h
  | number n =>
    obtain ⟨e, he⟩ := endNumber_slash (l := l) stack n
    simp only [step, next_slash, he] at h
    cases h

/-- A mode in which a character may leave the decoder when it stood in no literal. -/
def Mode.Begun (c : CodePoint) : Mode → Prop
  | .text t => c = codePoint '"' ∧ t.acc = [] ∧ t.escape = .none
  | .word rest _ => rest.all (fun c => c != codePoint '\\') = true
  | .value _ | .key _ _ | .colon _ _ | .after _ | .number _ => True

theorem opening?_begun {c : CodePoint} {o : Opening} (h : opening? c = some o) :
    (o = .text → c = codePoint '"') ∧
      ∀ rest w, o = .word rest w → rest.all (fun c => c != codePoint '\\') = true := by
  have hwords : ∀ s ∈ [lit "ull", lit "rue", lit "alse", lit "aN", lit "nfinity"],
      s.all (fun c => c != codePoint '\\') = true := by decide
  unfold opening? at h
  split_ifs at h with hquote
  · cases h
    exact ⟨fun _ => hquote, nofun⟩
  · cases h
    exact ⟨nofun, nofun⟩
  · cases h
    exact ⟨nofun, nofun⟩
  · cases h
    exact ⟨nofun, fun rest w hw => by cases hw; exact hwords _ (by simp)⟩
  · cases h
    exact ⟨nofun, fun rest w hw => by cases hw; exact hwords _ (by simp)⟩
  · cases h
    exact ⟨nofun, fun rest w hw => by cases hw; exact hwords _ (by simp)⟩
  · cases h
    exact ⟨nofun, fun rest w hw => by cases hw; exact hwords _ (by simp)⟩
  · cases h
    exact ⟨nofun, fun rest w hw => by cases hw; exact hwords _ (by simp)⟩
  · cases h
    exact ⟨nofun, nofun⟩
  · split at h <;> cases h
    · exact ⟨nofun, nofun⟩
    · exact ⟨nofun, nofun⟩

theorem settle_begun {stack : List Frame} {v : Json} {c : CodePoint} {st : State}
    (h : settle stack v c = .ok st) : st.mode.Begun c := by
  unfold settle at h
  split_ifs at h
  · cases h
    trivial
  · unfold afterValue at h
    split at h
    · cases h
    · split_ifs at h <;> cases h <;> trivial
    · split_ifs at h <;> cases h <;> trivial

theorem endNumber_begun {stack : List Frame} {n : Number} {c : CodePoint} {st : State}
    (h : endNumber l stack n c = .ok st) : st.mode.Begun c := by
  rw [endNumber] at h
  by_cases hI : n.phase = .minus ∧ c = codePoint 'I'
  · rw [if_pos hI] at h
    cases h
    show (lit "nfinity").all (fun c => c != codePoint '\\') = true
    decide
  · rw [if_neg hI] at h
    cases hv : n.value l with
    | error e =>
      rw [hv] at h
      cases h
    | ok v =>
      simp only [hv] at h
      by_cases hl : n.phase.leftover = true
      · rw [if_pos hl] at h
        cases h
      · rw [if_neg hl] at h
        exact settle_begun h

theorem step_begun {st st' : State} {c : CodePoint} (hmode : ∀ t, st.mode ≠ .text t)
    (hword : ∀ rest w, st.mode = .word rest w →
      rest.all (fun c => c != codePoint '\\') = true)
    (h : step l st c = .ok st') : st'.mode.Begun c := by
  obtain ⟨stack, mode⟩ := st
  cases mode with
  | text t => exact absurd rfl (hmode t)
  | value first =>
    simp only [step] at h
    split_ifs at h
    · cases h
      trivial
    · cases h
      trivial
    · unfold openValue at h
      split at h
      · cases h
        exact ⟨(opening?_begun ‹_›).1 rfl, rfl, rfl⟩
      · split_ifs at h
        cases h
        trivial
      · split_ifs at h
        cases h
        trivial
      · cases h
        exact (opening?_begun ‹_›).2 _ _ rfl
      · cases h
        trivial
      · cases h
  | key first done =>
    simp only [step] at h
    split_ifs at h with hspace hquote <;> cases h
    · trivial
    · exact ⟨hquote, rfl, rfl⟩
    · trivial
  | colon done key =>
    simp only [step] at h
    split_ifs at h <;> cases h <;> trivial
  | after v => exact settle_begun h
  | word rest w =>
    cases rest with
    | nil => exact settle_begun h
    | cons d rest =>
      have hd := hword _ _ rfl
      rw [List.all_cons, Bool.and_eq_true] at hd
      simp only [step] at h
      split_ifs at h
      cases h
      exact hd.2
  | number n =>
    simp only [step] at h
    cases hn : n.next c with
    | some n' =>
      rw [hn] at h
      cases h
      trivial
    | none =>
      rw [hn] at h
      exact endNumber_begun h

/-! ## One character of a literal -/

theorem escapeChar_plain {c : CodePoint} (hprint : isPrintableAscii c = true)
    (hquote : c ≠ codePoint '"') (hslash : c ≠ codePoint '\\') : escapeChar c = [c] := by
  rw [escapeChar, if_neg hquote, if_neg hslash, if_pos hprint]

/-- The character of two surrogates is written as their units. -/
theorem escapeChar_joinPair {high low : CodePoint} (hh : isHighSurrogate high = true)
    (hl : isLowSurrogate low = true) :
    escapeChar (joinPair high low) = escapeChar high ++ escapeUnit low.val := by
  rw [isHighSurrogate_iff] at hh
  rw [isLowSurrogate_iff] at hl
  have hval : (joinPair high low).val =
      0x10000 + (high.val - 0xD800) * 0x400 + (low.val - 0xDC00) := by
    simp only [joinPair, Fin.ofNat]
    omega
  have hne : ∀ d : CodePoint, d.val < 0x10000 → joinPair high low ≠ d := by
    rintro d hd heq
    rw [← heq, hval] at hd
    omega
  have hhigh : 0xD800 + ((joinPair high low).val - 0x10000) / 0x400 = high.val := by omega
  have hlow : 0xDC00 + ((joinPair high low).val - 0x10000) % 0x400 = low.val := by omega
  have hprint : ¬isPrintableAscii (joinPair high low) = true := by
    simp only [isPrintableAscii, Bool.and_eq_true, decide_eq_true_eq]
    omega
  rw [escapeChar_surrogate (c := high) (by omega) (by omega), escapeChar,
    if_neg (hne _ (by decide)), if_neg (hne _ (by decide)), if_neg hprint,
    if_neg (hne _ (by decide)), if_neg (hne _ (by decide)), if_neg (hne _ (by decide)),
    if_neg (hne _ (by decide)), if_neg (hne _ (by decide)), if_neg (by omega), hhigh, hlow]

/-- The spelling with one more unit. -/
theorem spelling_addUnit {t : Text} {n : Nat} (hn : n < 0x10000)
    (hunit : escapeChar (unitPoint n) = escapeUnit n) :
    spelling (t.addUnit n) = t.acc.reverse.flatMap escapeChar ++ escapeUnit n := by
  have halone : ∀ acc : Str, (unitPoint n :: acc).reverse.flatMap escapeChar =
      acc.reverse.flatMap escapeChar ++ escapeUnit n := by
    intro acc
    rw [List.reverse_cons, List.flatMap_append, List.flatMap_singleton, hunit]
  obtain ⟨role, acc, unit, escape⟩ := t
  unfold spelling Text.addUnit
  cases acc with
  | nil => simp [pending, hunit]
  | cons high acc =>
    dsimp only
    split_ifs with hjoin
    · rw [Bool.and_eq_true, Bool.and_eq_true] at hjoin
      have hpair := escapeChar_joinPair hjoin.1.2 hjoin.2
      rw [unitPoint_eq_val (by omega)] at hpair
      rw [List.reverse_cons, List.flatMap_append, List.flatMap_singleton, hpair, List.reverse_cons,
        List.flatMap_append, List.flatMap_singleton, pending, List.append_nil, List.append_assoc]
    · rw [halone, pending, List.append_nil]

/-- One character of a literal. -/
theorem reading_step (hspoil : Spoils spoil) {done : Str} {stack : List Frame} {t : Text}
    {c : CodePoint} {st : State} (hread : Reading spoil done t) (hprint : isPrintableAscii c = true)
    (hok : runAll (escapeStep spoil) .none (done ++ [c]) ≠ none)
    (h : stepText stack t c = .ok st) : st.mode.Place spoil (done ++ [c]) := by
  obtain ⟨role, acc, unit, escape⟩ := t
  obtain ⟨hfits, hrun, before, hbefore, hdone⟩ := hread
  have hnext : runAll (escapeStep spoil) .none (done ++ [c]) = escapeStep spoil escape c := by
    rw [runAll_append, hrun, Option.bind_some, runAll_cons]
    cases escapeStep spoil escape c <;> rfl
  rw [hnext] at hok
  -- the literal that the step leaves, from its escape and its spelling
  have hplace : ∀ t' : Text, escapeStep spoil escape c = some t'.escape → EscapeFits t'.escape →
      spelling t' = spelling ⟨role, acc, unit, escape⟩ ++ [c] → Reading spoil (done ++ [c]) t' := by
    intro t' hescape hfits' hspell
    refine ⟨hfits', hnext.trans hescape, before, hbefore, ?_⟩
    rw [hspell, hdone, List.append_assoc, List.cons_append]
  unfold stepText at h
  cases escape with
  | none =>
    dsimp only at h
    split_ifs at h with hquote hslash hcontrol <;> cases h
    · have hsettled : Settled spoil (done ++ [c]) := by
        rw [Settled, hnext, hquote]
        rfl
      cases role with
      | value => exact hsettled
      | key done' => exact hsettled
    · refine hplace _ ?_ trivial ?_
      · rw [hslash]
        rfl
      · simp [spelling, pending, hslash]
    · refine hplace _ ?_ trivial ?_
      · simp only [escapeStep, if_neg hslash]
      · simp [spelling, pending, escapeChar_plain hprint hquote hslash]
  | slash =>
    dsimp only at h
    simp only [escapeStep] at hok
    split_ifs at h with hu
    · cases h
      refine hplace _ ?_ ⟨by decide, by decide, by decide⟩ ?_
      · simp only [escapeStep, hu, hspoil.unit]
        rfl
      · simp [spelling, pending, hexDigits, hu]
    · split at h
      · rename_i d hd
        cases h
        have hno : spoil c = false := by
          rw [← Bool.not_eq_true]
          intro hs
          rw [hspoil.simple c hs] at hd
          cases hd
        have hspelt : escapeChar d = [codePoint '\\', c] := by
          by_contra hne
          simp [hno, hu, hd, hne] at hok
        refine hplace _ ?_ trivial ?_
        · simp [escapeStep, hno, hu, hd, hspelt]
        · simp [spelling, pending, hspelt]
      · cases h
  | hex value left =>
    obtain ⟨hone, hfour, hvalue⟩ := hfits
    dsimp only at h
    simp only [escapeStep] at hok
    cases hd : hexDigit? c with
    | none =>
      rw [hd] at h
      cases h
    | some d =>
      have hlt := hexDigit?_lt hd
      have hno : spoil c = false := by
        rw [← Bool.not_eq_true]
        intro hs
        rw [hspoil.hex c hs] at hd
        cases hd
      have hchar : c = hexChar d := by
        by_contra hne
        simp [hno, hd, hne] at hok
      simp only [hd] at h
      split_ifs at h with hlast <;> cases h
      · obtain rfl : left = 1 := by omega
        have hunit : escapeChar (unitPoint (value * 16 + d)) = escapeUnit (value * 16 + d) := by
          by_contra hne
          simp [hno, hd, ← hchar, hne] at hok
        have hrole : (Text.addUnit ⟨role, acc, unit, .hex value 1⟩ (value * 16 + d)).escape =
            .none := by
          unfold Text.addUnit
          split
          · split_ifs <;> rfl
          · rfl
        have hsmall : value * 16 + d < 0x10000 := by
          have h16 : 16 ^ (4 - 1) = 4096 := rfl
          omega
        refine hplace _ ?_ (by rw [hrole]; trivial) ?_
        · rw [hrole]
          simp [escapeStep, hno, hd, ← hchar, hunit]
        · rw [spelling_addUnit hsmall hunit, escapeUnit_eq, hexDigits_push hlt, hchar]
          simp [spelling, pending]
      · have hleft : 4 - (left - 1) = (4 - left) + 1 := by omega
        refine hplace _ ?_ ⟨by omega, by omega, ?_⟩ ?_
        · simp [escapeStep, hno, hd, ← hchar, hlast]
        · rw [hleft, pow_succ]
          omega
        · simp only [spelling, pending, hleft, hexDigits_push hlt, hchar]
          simp

/-! ## A whole text -/

theorem step_place (hspoil : Spoils spoil) {done : Str} {st st' : State} {c : CodePoint}
    (hplace : st.mode.Place spoil done) (hprint : isPrintableAscii c = true)
    (hok : runAll (escapeStep spoil) .none (done ++ [c]) ≠ none) (h : step l st c = .ok st') :
    st'.mode.Place spoil (done ++ [c]) := by
  by_cases htext : ∃ t, st.mode = .text t
  · obtain ⟨t, ht⟩ := htext
    rw [ht] at hplace
    simp only [step, ht] at h
    exact reading_step hspoil hplace hprint hok h
  · have hmode : ∀ t, st.mode ≠ .text t := fun t ht => htext ⟨t, ht⟩
    have hword : ∀ rest w, st.mode = .word rest w →
        rest.all (fun c => c != codePoint '\\') = true := by
      intro rest w hw
      rw [hw] at hplace
      exact hplace.2
    have hdone : Settled spoil done := by
      cases hm : st.mode with
      | text t => exact absurd hm (hmode t)
      | word rest w => rw [hm] at hplace; exact hplace.1
      | value first => rw [hm] at hplace; exact hplace
      | key first items => rw [hm] at hplace; exact hplace
      | colon items key => rw [hm] at hplace; exact hplace
      | after v => rw [hm] at hplace; exact hplace
      | number n => rw [hm] at hplace; exact hplace
    have hslash : c ≠ codePoint '\\' := by
      rintro rfl
      exact htext (step_slash hword h)
    have hchar : Settled spoil [c] := runAll_plain hslash
    have hsettled : Settled spoil (done ++ [c]) := hdone.append hchar
    have hbegun := step_begun hmode hword h
    cases hm : st'.mode with
    | text t =>
      rw [hm] at hbegun
      obtain ⟨hquote, hacc, hescape⟩ := hbegun
      have hspell : spelling t = [] := by simp [spelling, hacc, hescape, pending]
      exact ⟨by rw [hescape]; trivial, by rw [hescape]; exact hsettled,
        done, hdone, by rw [hspell, hquote]⟩
    | word rest w =>
      rw [hm] at hbegun
      exact ⟨hsettled, hbegun⟩
    | value first => exact hsettled
    | key first items => exact hsettled
    | colon items key => exact hsettled
    | after v => exact hsettled
    | number n => exact hsettled

/-- Behind an accepted text the complete strings are spelt in it. -/
theorem run_spelt (hspoil : Spoils spoil) {text : Str}
    (hprint : ∀ c ∈ text, isPrintableAscii c = true) {done : Str} {st st' : State}
    (hplace : st.mode.Place spoil done) (heach : st.Each (Spelt spoil done))
    (hok : runAll (escapeStep spoil) .none (done ++ text) ≠ none) (h : run l st text = .ok st') :
    st'.Each (Spelt spoil (done ++ text)) := by
  induction text generalizing done st with
  | nil =>
    cases h
    rw [List.append_nil]
    exact heach
  | cons c text ih =>
    rw [List.forall_mem_cons] at hprint
    rw [run_cons] at h
    have hsplit : done ++ c :: text = done ++ [c] ++ text := by simp
    have hhead : runAll (escapeStep spoil) .none (done ++ [c]) ≠ none := by
      intro hnone
      rw [hsplit, runAll_append, hnone] at hok
      exact hok rfl
    cases hs : step l st c with
    | error e => rw [hs] at h; cases h
    | ok mid =>
      rw [hs] at h
      have hgrown : st.Each (Spelt spoil (done ++ [c])) := heach.mono fun s hsp => hsp.append [c]
      have hmid : mid.Each (Spelt spoil (done ++ [c])) := by
        refine step_each hgrown (fun t ht hescape hquote => ?_) hs
        rw [ht] at hplace
        obtain ⟨before, hbefore, hdone⟩ := hplace.spelt
        refine ⟨before, [], ?_, hbefore⟩
        rw [hdone, hquote, spelling, hescape, pending, quote]
        simp
      rw [hsplit] at hok ⊢
      exact ih hprint.2 (step_place hspoil hplace hprint.1 hhead hs) hmid hok h

theorem finish_each {P : Str → Prop} {st : State} (hst : st.Each P) {v : Json}
    (h : finish l st = .ok v) : EachString P v := by
  have hvalue : ∀ stack w, EachString P w → finishValue stack w = .ok v → EachString P v := by
    intro stack w hw hf
    unfold finishValue at hf
    split at hf <;> cases hf
    exact hw
  obtain ⟨stack, mode⟩ := st
  obtain ⟨_, hm⟩ := hst
  cases mode with
  | value first => cases h
  | key first done => cases h
  | colon done key => cases h
  | after w => exact hvalue stack w hm h
  | word rest w =>
    cases rest with
    | nil => exact hvalue stack _ w.value_each h
    | cons d rest => cases h
  | number n =>
    simp only [finish] at h
    cases hv : n.value l with
    | error e => rw [hv] at h; cases h
    | ok w =>
      simp only [hv] at h
      by_cases hl : n.phase.leftover = true
      · rw [if_pos hl] at h
        cases h
      · rw [if_neg hl] at h
        exact hvalue stack w (Number.value_each hv) h
  | text t =>
    simp only [finish] at h
    split at h <;> (try split_ifs at h) <;> cases h

end Spelt

end Scan

open Scan

/-- Every string of the value of an accepted text is spelt in the text. -/
theorem loads_spelt {spoil : CodePoint → Bool} (hspoil : Spoils spoil) {l : Limits} {text : Str}
    (hprint : ∀ c ∈ text, isPrintableAscii c = true)
    (hok : runAll (escapeStep spoil) .none text ≠ none) {v : Json} (h : loads l text = .ok v) :
    ∀ s ∈ v.strings, Spelt spoil text s := by
  unfold loads at h
  split_ifs at h
  cases hr : run l ⟨[], .value false⟩ text with
  | error e => rw [hr] at h; cases h
  | ok st =>
    simp only [hr] at h
    have hstart : State.Each (Spelt spoil []) ⟨[], .value false⟩ := ⟨by simp, trivial⟩
    have hplace : Mode.Place spoil [] (.value false) := rfl
    exact finish_each (run_spelt hspoil hprint hplace hstart hok hr) h

end DevRepro.Python
