import Mathlib.Data.List.Induction
import Mathlib.Data.List.Nodup
import Mathlib.Tactic.Tauto
import Mathlib.Data.List.Basic
import Mathlib.Order.Basic

/-!
# The first of each key

A loop that remembers the keys it has seen keeps the first element of each key.
-/

namespace DevRepro.Lib

variable {α κ : Type} [DecidableEq κ] (key : α → κ)

/-- The elements that are the first of their key, when some keys were seen before. -/
def firstsFrom : List κ → List α → List α
  | _, [] => []
  | seen, a :: rest =>
    if key a ∈ seen then firstsFrom seen rest else a :: firstsFrom (key a :: seen) rest

/-- The elements that are the first of their key. -/
def firsts (l : List α) : List α := firstsFrom key [] l

variable {key}

/-- Which keys were seen matters, not in which order. -/
theorem firstsFrom_congr {seen others : List κ} (h : ∀ k, k ∈ seen ↔ k ∈ others) (l : List α) :
    firstsFrom key seen l = firstsFrom key others l := by
  induction l generalizing seen others with
  | nil => rfl
  | cons a rest ih =>
    rw [firstsFrom, firstsFrom]
    have hnext : ∀ k, k ∈ key a :: seen ↔ k ∈ key a :: others := by
      intro k
      rw [List.mem_cons, List.mem_cons, h]
    by_cases hseen : key a ∈ seen
    · rw [if_pos hseen, if_pos ((h _).mp hseen), ih h]
    · rw [if_neg hseen, if_neg fun hin => hseen ((h _).mpr hin), ih hnext]

theorem mem_firstsFrom {seen : List κ} {l : List α} {a : α} :
    a ∈ firstsFrom key seen l ↔ key a ∉ seen ∧
      ∃ before after, l = before ++ a :: after ∧ key a ∉ before.map key := by
  induction l generalizing seen with
  | nil =>
    refine iff_of_false List.not_mem_nil ?_
    rintro ⟨-, before, after, heq, -⟩
    exact absurd heq (by simp)
  | cons b rest ih =>
    rw [firstsFrom]
    by_cases hseen : key b ∈ seen
    · rw [if_pos hseen, ih]
      constructor
      · rintro ⟨hnot, before, after, rfl, hfirst⟩
        refine ⟨hnot, b :: before, after, rfl, ?_⟩
        rw [List.map_cons, List.mem_cons, not_or]
        exact ⟨fun heq => hnot (heq ▸ hseen), hfirst⟩
      · rintro ⟨hnot, before, after, heq, hfirst⟩
        cases before with
        | nil =>
          obtain ⟨rfl, -⟩ := List.cons.inj heq
          exact absurd hseen hnot
        | cons c before =>
          obtain ⟨rfl, rfl⟩ := List.cons.inj heq
          exact ⟨hnot, before, after, rfl, fun hin => hfirst (List.mem_cons_of_mem _ hin)⟩
    · rw [if_neg hseen, List.mem_cons, ih]
      constructor
      · rintro (rfl | ⟨hnot, before, after, rfl, hfirst⟩)
        · exact ⟨hseen, [], rest, rfl, List.not_mem_nil⟩
        · rw [List.mem_cons, not_or] at hnot
          refine ⟨hnot.2, b :: before, after, rfl, ?_⟩
          rw [List.map_cons, List.mem_cons, not_or]
          exact ⟨hnot.1, hfirst⟩
      · rintro ⟨hnot, before, after, heq, hfirst⟩
        cases before with
        | nil =>
          obtain ⟨rfl, -⟩ := List.cons.inj heq
          exact Or.inl rfl
        | cons c before =>
          obtain ⟨rfl, rfl⟩ := List.cons.inj heq
          rw [List.map_cons, List.mem_cons, not_or] at hfirst
          refine Or.inr ⟨?_, before, after, rfl, hfirst.2⟩
          rw [List.mem_cons, not_or]
          exact ⟨hfirst.1, hnot⟩

/-- An element is kept exactly when no element before it has its key. -/
theorem mem_firsts {l : List α} {a : α} :
    a ∈ firsts key l ↔ ∃ before after, l = before ++ a :: after ∧ key a ∉ before.map key := by
  rw [firsts, mem_firstsFrom, and_iff_right List.not_mem_nil]

/-- A filter that looks at the key takes its share of the first elements. -/
theorem mem_firsts_filter {p : α → Bool} (hp : ∀ a b, key a = key b → p a = p b) {l : List α}
    {a : α} : a ∈ firsts key (l.filter p) ↔ a ∈ firsts key l ∧ p a = true := by
  rw [mem_firsts, mem_firsts]
  constructor
  · rintro ⟨before, after, heq, hfirst⟩
    obtain ⟨start, rest, rfl, rfl, hrest⟩ := List.filter_eq_append_iff.mp heq
    obtain ⟨dropped, behind, rfl, hdropped, hkeep, -⟩ := List.filter_eq_cons_iff.mp hrest
    refine ⟨⟨start ++ dropped, behind, by simp, fun hin => ?_⟩, hkeep⟩
    obtain ⟨b, hb, hsame⟩ := List.mem_map.mp hin
    have hpb : p b = true := (hp b a hsame).trans hkeep
    rcases List.mem_append.mp hb with hb | hb
    · exact hfirst (List.mem_map.mpr ⟨b, List.mem_filter.mpr ⟨hb, hpb⟩, hsame⟩)
    · exact hdropped b hb hpb
  · rintro ⟨⟨before, after, rfl, hfirst⟩, hkeep⟩
    refine ⟨before.filter p, after.filter p, ?_, fun hin => hfirst ?_⟩
    · rw [List.filter_append, List.filter_cons_of_pos hkeep]
    · obtain ⟨b, hb, hsame⟩ := List.mem_map.mp hin
      exact List.mem_map.mpr ⟨b, (List.mem_filter.mp hb).1, hsame⟩

/-- Every key that was not seen keeps an element. -/
theorem keys_firstsFrom {seen : List κ} {l : List α} {k : κ} :
    k ∈ (firstsFrom key seen l).map key ↔ k ∈ l.map key ∧ k ∉ seen := by
  induction l generalizing seen with
  | nil => simp [firstsFrom]
  | cons a rest ih =>
    rw [firstsFrom, List.map_cons, List.mem_cons]
    by_cases hseen : key a ∈ seen
    · rw [if_pos hseen, ih]
      constructor
      · exact fun h => ⟨Or.inr h.1, h.2⟩
      · rintro ⟨rfl | hin, hnot⟩
        · exact absurd hseen hnot
        · exact ⟨hin, hnot⟩
    · rw [if_neg hseen, List.map_cons, List.mem_cons, ih, List.mem_cons, not_or]
      constructor
      · rintro (rfl | ⟨hin, -, hnot⟩)
        · exact ⟨Or.inl rfl, hseen⟩
        · exact ⟨Or.inr hin, hnot⟩
      · rintro ⟨rfl | hin, hnot⟩
        · exact Or.inl rfl
        · by_cases heq : k = key a
          · exact Or.inl heq
          · exact Or.inr ⟨hin, heq, hnot⟩

theorem keys_firsts {l : List α} {k : κ} : k ∈ (firsts key l).map key ↔ k ∈ l.map key := by
  rw [firsts, keys_firstsFrom, and_iff_left List.not_mem_nil]

/-- No two elements that are kept have the same key. -/
theorem nodup_firstsFrom (seen : List κ) (l : List α) :
    ((firstsFrom key seen l).map key).Nodup := by
  induction l generalizing seen with
  | nil => exact List.nodup_nil
  | cons a rest ih =>
    rw [firstsFrom]
    by_cases hseen : key a ∈ seen
    · rw [if_pos hseen]
      exact ih seen
    · rw [if_neg hseen, List.map_cons, List.nodup_cons, keys_firstsFrom]
      exact ⟨fun h => h.2 List.mem_cons_self, ih _⟩

theorem nodup_firsts (l : List α) : ((firsts key l).map key).Nodup := nodup_firstsFrom [] l

/-! ## The other elements -/

variable (key) in
/-- Whether the element at a place has the key of an earlier one. -/
def isLater (l : List α) (item : α × Nat) : Bool := decide (key item.1 ∈ (l.take item.2).map key)

variable (key) in
/-- The elements that are not the first of their key, in order. -/
def laters (l : List α) : List α := (l.zipIdx.filter (isLater key l)).map Prod.fst

/-- What comes behind does not change which elements are later ones. -/
theorem isLater_append {l : List α} {item : α × Nat} (h : item ∈ l.zipIdx) (behind : List α) :
    isLater key (l ++ behind) item = isLater key l item := by
  have hlt : item.2 < l.length := by simpa using List.snd_lt_of_mem_zipIdx h
  rw [isLater, isLater, List.take_append_of_le_length (Nat.le_of_lt hlt)]

theorem filter_zipIdx_concat (l : List α) (a : α) (p : Bool → Bool) :
    ((l ++ [a]).zipIdx.filter fun item => p (isLater key (l ++ [a]) item)).map Prod.fst =
      (l.zipIdx.filter fun item => p (isLater key l item)).map Prod.fst ++
        if p (decide (key a ∈ l.map key)) then [a] else [] := by
  have hlast : isLater key (l ++ [a]) (a, l.length) = decide (key a ∈ l.map key) := by
    rw [isLater, List.take_left]
  have hfirst : (l.zipIdx.filter fun item => p (isLater key (l ++ [a]) item)) =
      l.zipIdx.filter fun item => p (isLater key l item) :=
    List.filter_congr fun item hitem => by rw [isLater_append hitem]
  rw [List.zipIdx_append, List.filter_append, List.map_append, hfirst, Nat.zero_add,
    List.zipIdx_singleton, List.filter_singleton, hlast]
  congr 1
  cases hp : p (decide (key a ∈ l.map key)) with
  | true => rfl
  | false => rfl

theorem laters_concat (l : List α) (a : α) :
    laters key (l ++ [a]) = laters key l ++ if key a ∈ l.map key then [a] else [] := by
  have h := @filter_zipIdx_concat _ _ _ key l a id
  simp only [id_eq, decide_eq_true_eq] at h
  exact h

theorem firstsFrom_append (seen : List κ) (l m : List α) :
    firstsFrom key seen (l ++ m) =
      firstsFrom key seen l ++ firstsFrom key ((l.map key).reverse ++ seen) m := by
  induction l generalizing seen with
  | nil => rfl
  | cons a rest ih =>
    rw [List.cons_append, firstsFrom, firstsFrom]
    have hkeys : ∀ k, k ∈ (rest.map key).reverse ++ key a :: seen ↔
        k ∈ ((a :: rest).map key).reverse ++ seen := by
      intro k
      simp
    by_cases hseen : key a ∈ seen
    · have hsame : ∀ k, k ∈ (rest.map key).reverse ++ seen ↔
          k ∈ ((a :: rest).map key).reverse ++ seen := by
        intro k
        rw [← hkeys]
        simp only [List.mem_append, List.mem_cons]
        constructor
        · exact Or.imp_right Or.inr
        · rintro (h | rfl | h)
          · exact Or.inl h
          · exact Or.inr hseen
          · exact Or.inr h
      rw [if_pos hseen, if_pos hseen, ih, firstsFrom_congr hsame]
    · rw [if_neg hseen, if_neg hseen, ih, firstsFrom_congr hkeys, List.cons_append]

theorem firsts_concat (l : List α) (a : α) :
    firsts key (l ++ [a]) = firsts key l ++ if key a ∈ l.map key then [] else [a] := by
  rw [firsts, firsts, firstsFrom_append, firstsFrom, firstsFrom, firstsFrom, List.append_nil]
  simp only [List.mem_reverse]

/-- What is left without the later elements. -/
theorem firsts_eq_filter (l : List α) :
    firsts key l = (l.zipIdx.filter fun item => !isLater key l item).map Prod.fst := by
  induction l using List.reverseRecOn with
  | nil => rfl
  | append_singleton l a ih =>
    have h := @filter_zipIdx_concat _ _ _ key l a (!·)
    rw [firsts_concat, ih, h]
    congr 1
    by_cases hin : key a ∈ l.map key
    · rw [if_pos hin, decide_eq_true hin]
      rfl
    · rw [if_neg hin, decide_eq_false hin]
      rfl

/-- A search of values that hang on the key finds what it finds among the first elements. -/
theorem find?_map_firsts {β : Type} {value : α → β} {l : List α}
    (hvalue : ∀ a ∈ l, ∀ b ∈ l, key a = key b → value a = value b) (p : β → Bool) :
    ((firsts key l).map value).find? p = (l.map value).find? p := by
  induction l using List.reverseRecOn with
  | nil => rfl
  | append_singleton l a ih =>
    have hl : ∀ b ∈ l, ∀ c ∈ l, key b = key c → value b = value c := fun b hb c hc =>
      hvalue b (List.mem_append_left _ hb) c (List.mem_append_left _ hc)
    rw [firsts_concat, List.map_append, List.find?_append, ih hl, List.map_append, List.find?_append]
    by_cases hin : key a ∈ l.map key
    · -- The value was met before: where it is taken, the search has ended.
      rw [if_pos hin]
      obtain ⟨b, hb, hsame⟩ := List.mem_map.mp hin
      have hval := hvalue b (List.mem_append_left _ hb) a (by simp) hsame
      cases hfound : (l.map value).find? p with
      | some v => rfl
      | none =>
        have hnot := List.find?_eq_none.mp hfound (value b) (List.mem_map_of_mem hb)
        rw [hval] at hnot
        simp [List.find?_cons_of_neg hnot]
    · rw [if_neg hin]

end DevRepro.Lib

/-!
## Tables that are read from the top

A table gives the value of the first entry that a test takes.  Where its entries
stand in the order of their values, that value is the least one of the entries
taken, and two tests of which one takes more entries give one value exactly when
the entries taken in addition never come first.
-/

namespace DevRepro.Lib

variable {α κ : Type} {table : List α}

section Ordered

variable [PartialOrder κ] {value : α → κ}

/-- The value read from an ordered table is the least one. -/
theorem find?_least (hsorted : table.Pairwise fun a b => value a ≤ value b) {test : α → Bool}
    {first : α} (h : table.find? test = some first) {a : α} (ha : a ∈ table)
    (htest : test a = true) : value first ≤ value a := by
  induction table with
  | nil => cases ha
  | cons b table ih =>
    obtain ⟨hb, hsorted⟩ := List.pairwise_cons.mp hsorted
    cases hbt : test b with
    | true =>
      rw [List.find?_cons_of_pos hbt] at h
      cases h
      rcases List.mem_cons.mp ha with rfl | ha
      · exact le_rfl
      · exact hb a ha
    | false =>
      have hneg : ¬test b = true := Bool.eq_false_iff.mp hbt
      rw [List.find?_cons_of_neg hneg] at h
      rcases List.mem_cons.mp ha with rfl | ha
      · exact absurd htest hneg
      · exact ih hsorted h ha

/-- A wider test reads the same value when each of its entries is preceded, or
equalled, by one of the narrower test. -/
theorem find?_wider_iff (hsorted : table.Pairwise fun a b => value a ≤ value b)
    {wide narrow : α → Bool} (hle : ∀ a ∈ table, narrow a = true → wide a = true) :
    (table.find? wide).map value = (table.find? narrow).map value ↔
      ∀ a ∈ table, wide a = true → ∃ b ∈ table, narrow b = true ∧ value b ≤ value a := by
  constructor
  · intro heq a ha hwide
    obtain ⟨first, hfirst⟩ := Option.isSome_iff_exists.mp (List.find?_isSome.mpr ⟨a, ha, hwide⟩)
    rw [hfirst, Option.map_some] at heq
    obtain ⟨b, hb, hvalue⟩ := Option.map_eq_some_iff.mp heq.symm
    refine ⟨b, List.mem_of_find?_eq_some hb, List.find?_some hb, ?_⟩
    rw [hvalue]
    exact find?_least hsorted hfirst ha hwide
  · intro h
    cases hfirst : table.find? wide with
    | none =>
      have hnone : table.find? narrow = none := by
        rw [List.find?_eq_none] at hfirst ⊢
        exact fun a ha hnarrow => hfirst a ha (hle a ha hnarrow)
      rw [hnone]
    | some first =>
      obtain ⟨b, hb, hnarrow, hbefore⟩ :=
        h first (List.mem_of_find?_eq_some hfirst) (List.find?_some hfirst)
      obtain ⟨least, hleast⟩ :=
        Option.isSome_iff_exists.mp (List.find?_isSome.mpr ⟨b, hb, hnarrow⟩)
      have hmem := List.mem_of_find?_eq_some hleast
      have hupper := (find?_least hsorted hleast hb hnarrow).trans hbefore
      have hlower := find?_least hsorted hfirst hmem (hle _ hmem (List.find?_some hleast))
      rw [hleast, Option.map_some, Option.map_some, le_antisymm hlower hupper]

end Ordered

/-! ## Places -/

/-- Two tests stop at one place exactly when the one takes nothing in front of the first element
that the other takes, and that element. -/
theorem findIdx?_eq_iff {p q : α → Bool} {l : List α} :
    l.findIdx? p = l.findIdx? q ↔
      (∀ a ∈ l.takeWhile fun a => !q a, p a = false) ∧ ∀ a ∈ l.find? q, p a = true := by
  induction l with
  | nil => simp
  | cons a l ih =>
    rw [List.findIdx?_cons, List.findIdx?_cons]
    cases hq : q a with
    | true =>
      rw [List.takeWhile_cons_of_neg (by simp [hq]), List.find?_cons_of_pos hq, if_pos rfl]
      cases hp : p a with
      | true => simp [hp]
      | false => simp [hp]
    | false =>
      rw [List.takeWhile_cons_of_pos (by simp [hq]), List.find?_cons_of_neg (by simp [hq]),
        List.forall_mem_cons, if_neg Bool.false_ne_true, and_assoc, ← ih]
      cases hp : p a with
      | true =>
        rw [if_pos rfl]
        refine iff_of_false (fun h => ?_) (by simp)
        cases hfound : l.findIdx? q with
        | none => rw [hfound] at h; cases h
        | some i => rw [hfound] at h; cases h
      | false =>
        rw [if_neg Bool.false_ne_true, and_iff_right rfl]
        exact (Option.map_injective fun i j h => by simpa using h).eq_iff

end DevRepro.Lib
