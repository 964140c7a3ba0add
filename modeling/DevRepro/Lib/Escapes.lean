import Mathlib.Data.List.Basic
import Mathlib.Data.List.Forall2

/-!
# Escape sequences

An escape sequence is a mark and a tail, and stands for one symbol.  `escape`
writes a list with the sequences of the symbols that are escaped, and `unescape`
reads it: behind a mark it looks for a tail, and takes the symbol of the first
one that it finds.

A table is `Sound` when the mark has a sequence and no tail starts with another
one.  Then a list that was escaped is read back, also when fewer symbols are
escaped than the reader knows (`unescape_escape`).  A symbol that is escaped, and
that no sequence contains, does not occur in what is written (`not_mem_escape`).
-/

namespace DevRepro.Lib

variable {α : Type} [DecidableEq α]

/-- A mark, and the symbols that have a sequence, each with the tail behind the mark. -/
structure Escapes (α : Type) where
  mark : α
  table : List (α × List α)

namespace Escapes

/-- The tail of a symbol. -/
def tail? (e : Escapes α) (c : α) : Option (List α) :=
  (e.table.find? fun entry => entry.1 = c).map Prod.snd

/-- A symbol, or its sequence. -/
def symbol (e : Escapes α) (c : α) : List α :=
  match e.tail? c with
  | some tail => e.mark :: tail
  | none => [c]

/-- A list with its escape sequences. -/
def escape (e : Escapes α) (s : List α) : List α := s.flatMap e.symbol

/-- The entry whose tail comes next. -/
def next? (e : Escapes α) (s : List α) : Option (α × List α) :=
  e.table.find? fun entry => entry.2.isPrefixOf s

/-- A list without its escape sequences, of which `skip` symbols belong to a tail. -/
def unescapeFrom (e : Escapes α) : Nat → List α → List α
  | _, [] => []
  | skip + 1, _ :: rest => unescapeFrom e skip rest
  | 0, c :: rest =>
    if c = e.mark then
      match e.next? rest with
      | some entry => entry.1 :: unescapeFrom e entry.2.length rest
      | none => c :: unescapeFrom e 0 rest
    else c :: unescapeFrom e 0 rest

/-- A list without its escape sequences, each undone once. -/
def unescape (e : Escapes α) (s : List α) : List α := unescapeFrom e 0 s

/-- The mark has a sequence, and every tail leads back to its symbol. -/
structure Sound (e : Escapes α) : Prop where
  mark : (e.tail? e.mark).isSome = true
  apart : ∀ entry ∈ e.table, ∀ other ∈ e.table, other.2 <+: entry.2 → other = entry

variable {e reader : Escapes α}

theorem unescapeFrom_skip (skipped rest : List α) :
    unescapeFrom e skipped.length (skipped ++ rest) = unescape e rest := by
  induction skipped with
  | nil => rfl
  | cons c skipped ih => exact ih

/-- The tail of an entry is found, whatever comes behind it. -/
theorem Sound.next?_eq (h : Sound e) {entry : α × List α} (hentry : entry ∈ e.table)
    (rest : List α) : e.next? (entry.2 ++ rest) = some entry := by
  have hself : entry.2.isPrefixOf (entry.2 ++ rest) = true :=
    List.isPrefixOf_iff_prefix.mpr (List.prefix_append _ _)
  cases hfound : e.next? (entry.2 ++ rest) with
  | none => exact absurd hself (List.find?_eq_none.mp hfound entry hentry)
  | some other =>
    have hother := List.mem_of_find?_eq_some hfound
    have htest : other.2.isPrefixOf (entry.2 ++ rest) = true :=
      List.find?_some (p := fun x : α × List α => x.2.isPrefixOf (entry.2 ++ rest)) hfound
    have hstart := List.isPrefixOf_iff_prefix.mp htest
    rcases List.prefix_or_prefix_of_prefix hstart (List.prefix_append _ _) with hle | hge
    · rw [h.apart entry hentry other hother hle]
    · rw [h.apart other hother entry hentry hge]

/-- An escape sequence is read as its symbol. -/
theorem Sound.unescape_tail (h : Sound e) {c : α} {tail : List α} (hentry : (c, tail) ∈ e.table)
    (rest : List α) : unescape e (e.mark :: tail ++ rest) = c :: unescape e rest := by
  rw [unescape, List.cons_append, unescapeFrom, if_pos rfl, h.next?_eq hentry]
  dsimp only
  rw [unescapeFrom_skip]

theorem unescape_cons {c : α} (h : c ≠ e.mark) (rest : List α) :
    unescape e (c :: rest) = c :: unescape e rest := by
  rw [unescape, unescapeFrom, if_neg h]
  rfl

theorem mem_of_tail? {c : α} {tail : List α} (h : e.tail? c = some tail) : (c, tail) ∈ e.table := by
  rcases Option.map_eq_some_iff.mp h with ⟨entry, hfound, htail⟩
  have htest : decide (entry.1 = c) = true :=
    List.find?_some (p := fun x : α × List α => decide (x.1 = c)) hfound
  rw [← htail, ← of_decide_eq_true htest]
  exact List.mem_of_find?_eq_some hfound

/-- A writer that escapes the mark, with sequences that the reader knows. -/
structure ReadBy (e reader : Escapes α) : Prop where
  mark_eq : e.mark = reader.mark
  mark : (e.tail? e.mark).isSome = true
  known : ∀ entry ∈ e.table, entry ∈ reader.table

/-- What was escaped is read back. -/
theorem unescape_escape (hsound : Sound reader) (h : ReadBy e reader) (s rest : List α) :
    unescape reader (escape e s ++ rest) = s ++ unescape reader rest := by
  induction s with
  | nil => rfl
  | cons c s ih =>
    rw [escape, List.flatMap_cons, List.append_assoc, symbol]
    cases htail : e.tail? c with
    | some tail =>
      dsimp only
      rw [h.mark_eq, hsound.unescape_tail (h.known _ (mem_of_tail? htail))]
      exact congrArg (c :: ·) ih
    | none =>
      have hne : c ≠ reader.mark := by
        rintro rfl
        have hmark := h.mark
        rw [h.mark_eq, htail] at hmark
        exact absurd hmark Bool.false_ne_true
      dsimp only
      rw [List.singleton_append, unescape_cons hne]
      exact congrArg (c :: ·) ih

/-- A whole text is read back. -/
theorem unescape_escape_nil (hsound : Sound reader) (h : ReadBy e reader) (s : List α) :
    unescape reader (escape e s) = s := by
  have hread := unescape_escape hsound h s []
  rw [List.append_nil] at hread
  rw [hread]
  exact List.append_nil s

/-- A list without the mark has no sequence in it. -/
theorem unescape_eq_self {s : List α} (h : e.mark ∉ s) : unescape e s = s := by
  induction s with
  | nil => rfl
  | cons c s ih =>
    rw [List.mem_cons, not_or] at h
    rw [unescape_cons (Ne.symm h.1), ih h.2]

/-- A symbol that is escaped does not occur in what is written, unless a sequence has it. -/
theorem not_mem_escape {c : α} (hescaped : (e.tail? c).isSome = true) (hmark : c ≠ e.mark)
    (htails : ∀ entry ∈ e.table, c ∉ entry.2) (s : List α) : c ∉ escape e s := by
  intro hmem
  rcases List.mem_flatMap.mp hmem with ⟨d, _, hd⟩
  rw [symbol] at hd
  cases htail : e.tail? d with
  | some tail =>
    rw [htail] at hd
    rcases List.mem_cons.mp hd with heq | hin
    · exact hmark heq
    · exact htails _ (mem_of_tail? htail) hin
  | none =>
    rw [htail] at hd
    rw [List.mem_singleton.mp hd, htail] at hescaped
    exact absurd hescaped Bool.false_ne_true

/-- No sequence of the table starts at a mark. -/
def Unmarked (e : Escapes α) (s : List α) : Prop :=
  ∀ before behind, s = before ++ e.mark :: behind → e.next? behind = none

theorem length_unescapeFrom (skip : Nat) (s : List α) :
    (unescapeFrom e skip s).length ≤ s.length - skip := by
  induction s generalizing skip with
  | nil => simp [unescapeFrom]
  | cons c s ih =>
    cases skip with
    | succ skip =>
      rw [unescapeFrom, List.length_cons, Nat.add_sub_add_right]
      exact ih skip
    | zero =>
      rw [unescapeFrom]
      split_ifs with hc
      · cases e.next? s with
        | none =>
          dsimp only
          rw [List.length_cons, List.length_cons]
          exact Nat.succ_le_succ (ih 0)
        | some entry =>
          dsimp only
          rw [List.length_cons, List.length_cons]
          have hrest := ih entry.2.length
          omega
      · rw [List.length_cons, List.length_cons]
        exact Nat.succ_le_succ (ih 0)

/-- What is read as it stands has no sequence in it, when no tail is empty. -/
theorem unescape_eq_self_iff (htails : ∀ entry ∈ e.table, entry.2 ≠ []) (s : List α) :
    unescape e s = s ↔ Unmarked e s := by
  induction s with
  | nil =>
    refine iff_of_true rfl fun before behind h => ?_
    exact absurd h.symm (List.append_ne_nil_of_right_ne_nil _ (List.cons_ne_nil _ _))
  | cons c s ih =>
    have htail : Unmarked e (c :: s) ↔ (c = e.mark → e.next? s = none) ∧ Unmarked e s := by
      constructor
      · intro h
        refine ⟨fun hc => h [] s (by rw [hc]; rfl), fun before behind hs => ?_⟩
        exact h (c :: before) behind (by rw [hs]; rfl)
      · rintro ⟨hhead, hs⟩ before behind h
        cases before with
        | nil =>
          obtain ⟨rfl, rfl⟩ := List.cons.inj h
          exact hhead rfl
        | cons d before => exact hs before behind (List.cons.inj h).2
    rw [htail, ← ih]
    by_cases hc : c = e.mark
    · rw [unescape, unescapeFrom, if_pos hc]
      cases hnext : e.next? s with
      | none =>
        dsimp only
        rw [List.cons.injEq]
        exact ⟨fun h => ⟨fun _ => rfl, h.2⟩, fun h => ⟨rfl, h.2⟩⟩
      | some entry =>
        dsimp only
        -- A sequence that is read makes the text shorter.
        refine iff_of_false (fun h => ?_) fun h => absurd (h.1 hc) (Option.some_ne_none entry)
        have hlen : (unescapeFrom e entry.2.length s).length = s.length := by
          rw [(List.cons.inj h).2]
        have hle := length_unescapeFrom (e := e) entry.2.length s
        have hpos := List.length_pos_of_ne_nil (htails entry (List.mem_of_find?_eq_some hnext))
        have hstart := List.isPrefixOf_iff_prefix.mp
          (List.find?_some (p := fun x : α × List α => x.2.isPrefixOf s) hnext)
        have hfits := hstart.length_le
        omega
    · rw [unescape_cons hc, List.cons.injEq]
      exact ⟨fun h => ⟨fun heq => absurd heq hc, h.2⟩, fun h => ⟨rfl, h.2⟩⟩

/-- No sequence starts at a mark when no sequence occurs. -/
theorem unmarked_iff {s : List α} :
    Unmarked e s ↔ ∀ entry ∈ e.table, ¬e.mark :: entry.2 <:+: s := by
  constructor
  · rintro h entry hentry ⟨before, behind, rfl⟩
    have hnone := h before (entry.2 ++ behind) (by simp)
    have hstart : entry.2.isPrefixOf (entry.2 ++ behind) = true :=
      List.isPrefixOf_iff_prefix.mpr (List.prefix_append _ _)
    exact List.find?_eq_none.mp hnone entry hentry hstart
  · rintro h before behind rfl
    refine List.find?_eq_none.mpr fun entry hentry hstart => h entry hentry ?_
    obtain ⟨rest, rfl⟩ := List.isPrefixOf_iff_prefix.mp hstart
    exact ⟨before, rest, by simp⟩

theorem mem_escape {s : List α} {c : α} (h : c ∈ escape e s) :
    c ∈ s ∨ c = e.mark ∨ ∃ entry ∈ e.table, c ∈ entry.2 := by
  rcases List.mem_flatMap.mp h with ⟨d, hd, hc⟩
  rw [symbol] at hc
  cases htail : e.tail? d with
  | some tail =>
    rw [htail] at hc
    rcases List.mem_cons.mp hc with hmark | hin
    · exact Or.inr (Or.inl hmark)
    · exact Or.inr (Or.inr ⟨_, mem_of_tail? htail, hin⟩)
  | none =>
    rw [htail] at hc
    rw [List.mem_singleton.mp hc]
    exact Or.inl hd

theorem escape_append (s t : List α) : escape e (s ++ t) = escape e s ++ escape e t :=
  List.flatMap_append

end Escapes

end DevRepro.Lib

/-!
## Cells

A row of cells, with a separator between them.  A mark takes the symbol behind it
along, so that a separator behind a mark belongs to its cell.

A row that is built of cells is split into the pieces of each of them
(`pieces_cell`), and a text is one piece when every separator in it stands behind a
mark (`pieces_escape`, `bare_or_marked`).  `forall₂_flatMap_iff` says when a list of
rows is read item by item: each item must have made one piece.
-/

namespace DevRepro.Lib

variable {α : Type} [DecidableEq α] {mark sep : α}

/-- The pieces of a row, where `taken` says that the next symbol stands behind a mark. -/
def piecesFrom (mark sep : α) : Bool → List α → List (List α)
  | _, [] => [[]]
  | taken, c :: rest =>
    if c = sep ∧ taken = false then [] :: piecesFrom mark sep false rest
    else (piecesFrom mark sep (c = mark && !taken) rest).modifyHead (c :: ·)

/-- The pieces of a row. -/
def pieces (mark sep : α) (s : List α) : List (List α) := piecesFrom mark sep false s

theorem piecesFrom_ne_nil (taken : Bool) (s : List α) : piecesFrom mark sep taken s ≠ [] := by
  induction s generalizing taken with
  | nil => exact List.cons_ne_nil _ _
  | cons c s ih =>
    rw [piecesFrom]
    split_ifs
    · exact List.cons_ne_nil _ _
    · rw [ne_eq, List.modifyHead_eq_nil_iff]
      exact ih _

/-- A separator behind a symbol that is no mark ends a piece. -/
theorem piecesFrom_append {d : α} (hd : d ≠ mark) (taken : Bool) (s rest : List α) :
    piecesFrom mark sep taken (s ++ d :: sep :: rest) =
      piecesFrom mark sep taken (s ++ [d]) ++ pieces mark sep rest := by
  induction s generalizing taken with
  | nil =>
    have hstate : (decide (d = mark) && !taken) = false := by rw [decide_eq_false hd, Bool.false_and]
    have hsep : piecesFrom mark sep false (sep :: rest) = [] :: pieces mark sep rest := by
      rw [piecesFrom, if_pos ⟨rfl, rfl⟩, pieces]
    have hlast : piecesFrom mark sep false ([] : List α) = [[]] := rfl
    rw [List.nil_append, List.nil_append, piecesFrom.eq_2, piecesFrom.eq_2 mark sep taken d [],
      hstate, hsep, hlast]
    split_ifs
    · rfl
    · rfl
  | cons c s ih =>
    rw [List.cons_append, List.cons_append, piecesFrom, piecesFrom, ih, ih]
    split_ifs
    · rfl
    · cases hfirst : piecesFrom mark sep (decide (c = mark) && !taken) (s ++ [d]) with
      | nil => exact absurd hfirst (piecesFrom_ne_nil _ _)
      | cons piece others => rfl

/-- The pieces of a cell with something around it, and of the rest of the row. -/
theorem pieces_cell {d : α} (hd : d ≠ mark) (cell rest : List α) :
    pieces mark sep (d :: (cell ++ d :: sep :: rest)) =
      pieces mark sep (d :: (cell ++ [d])) ++ pieces mark sep rest :=
  piecesFrom_append hd false (d :: cell) rest

theorem pieces_cons {c : α} (hsep : c ≠ sep) (hmark : c ≠ mark) (s : List α) :
    pieces mark sep (c :: s) = (pieces mark sep s).modifyHead (c :: ·) := by
  rw [pieces, piecesFrom, if_neg fun h => hsep h.1, decide_eq_false hmark, Bool.false_and, pieces]

/-- One piece is the whole text. -/
theorem eq_of_piecesFrom {taken : Bool} {s piece : List α}
    (h : piecesFrom mark sep taken s = [piece]) : piece = s := by
  induction s generalizing taken piece with
  | nil => exact (List.singleton_inj.mp h).symm
  | cons c s ih =>
    rw [piecesFrom] at h
    split_ifs at h
    · exact absurd (List.cons.inj h).2 (piecesFrom_ne_nil _ _)
    · cases hrest : piecesFrom mark sep (decide (c = mark) && !taken) s with
      | nil => exact absurd hrest (piecesFrom_ne_nil _ _)
      | cons first others =>
        rw [hrest, List.modifyHead_cons] at h
        obtain ⟨rfl, rfl⟩ := List.cons.inj h
        rw [ih hrest]

theorem piecesFrom_eq {s : List α} (h : sep ∉ s) (taken : Bool) :
    piecesFrom mark sep taken s = [s] := by
  induction s generalizing taken with
  | nil => rfl
  | cons c s ih =>
    rw [List.mem_cons, not_or] at h
    rw [piecesFrom, if_neg fun heq => h.1 heq.1.symm, ih h.2]
    rfl

/-- In a single piece, a separator stands behind a mark. -/
theorem bare_or_marked {taken : Bool} {s : List α} (h : piecesFrom mark sep taken s = [s])
    (hsep : sep ∈ s) : (taken = true ∧ ∃ rest, s = sep :: rest) ∨ [mark, sep] <:+: s := by
  induction s generalizing taken with
  | nil => cases hsep
  | cons c s ih =>
    by_cases hc : c = sep
    · rw [hc] at h ⊢
      cases taken with
      | true => exact Or.inl ⟨rfl, s, rfl⟩
      | false =>
        rw [piecesFrom, if_pos ⟨rfl, rfl⟩] at h
        exact absurd (List.cons.inj h).2 (piecesFrom_ne_nil _ _)
    · have hin : sep ∈ s := List.mem_of_ne_of_mem (Ne.symm hc) hsep
      rw [piecesFrom, if_neg fun heq => hc heq.1] at h
      have hrest : piecesFrom mark sep (decide (c = mark) && !taken) s = [s] := by
        cases hpieces : piecesFrom mark sep (decide (c = mark) && !taken) s with
        | nil => exact absurd hpieces (piecesFrom_ne_nil _ _)
        | cons first others =>
          rw [hpieces, List.modifyHead_cons] at h
          obtain ⟨hfirst, rfl⟩ := List.cons.inj h
          rw [(List.cons.inj hfirst).2]
      rcases ih hrest hin with ⟨hstate, rest, rfl⟩ | hmarked
      · rw [Bool.and_eq_true, decide_eq_true_eq] at hstate
        rw [hstate.1]
        exact Or.inr ⟨[], rest, rfl⟩
      · exact Or.inr (hmarked.trans (List.suffix_cons c s).isInfix)

/-- A mark takes a symbol along. -/
theorem pieces_marked {x : α} (hmark : mark ≠ sep) (rest : List α) :
    pieces mark sep (mark :: x :: rest) =
      (pieces mark sep rest).modifyHead fun piece => mark :: x :: piece := by
  have hstate : (decide (mark = mark) && !false) = true := by simp
  rw [pieces, piecesFrom, if_neg fun h => hmark h.1, hstate, piecesFrom,
    if_neg fun h => Bool.noConfusion h.2, Bool.not_true, Bool.and_false, List.modifyHead_modifyHead]
  rfl

/-- A text whose separators and marks are escaped with one symbol each is one piece. -/
theorem pieces_escape {e : Escapes α} (hmark : (e.tail? e.mark).isSome = true)
    (hsep : (e.tail? sep).isSome = true) (hne : e.mark ≠ sep)
    (htails : ∀ entry ∈ e.table, entry.2.length = 1) (s rest : List α) :
    pieces e.mark sep (e.escape s ++ rest) =
      (pieces e.mark sep rest).modifyHead (e.escape s ++ ·) := by
  induction s with
  | nil =>
    rw [Escapes.escape, List.flatMap_nil, List.nil_append]
    cases pieces e.mark sep rest with
    | nil => rfl
    | cons piece others => rfl
  | cons c s ih =>
    rw [Escapes.escape, List.flatMap_cons, List.append_assoc, Escapes.symbol]
    cases htail : e.tail? c with
    | some tail =>
      obtain ⟨x, rfl⟩ := List.length_eq_one_iff.mp (htails _ (Escapes.mem_of_tail? htail))
      dsimp only
      rw [List.cons_append, List.singleton_append, pieces_marked hne]
      rw [Escapes.escape] at ih
      rw [ih, List.modifyHead_modifyHead]
      rfl
    | none =>
      have hplain : ∀ d, (e.tail? d).isSome = true → c ≠ d := by
        rintro d hd rfl
        rw [htail] at hd
        exact absurd hd Bool.false_ne_true
      dsimp only
      rw [List.singleton_append, pieces_cons (hplain sep hsep) (hplain e.mark hmark)]
      rw [Escapes.escape] at ih
      rw [ih, List.modifyHead_modifyHead]
      rfl

/-! ## Reading item by item -/

variable {β ι : Type}

/-- When every item makes something, the items are read one by one exactly when each made one
thing. -/
theorem forall₂_flatMap_iff {R : ι → β → Prop} {make : ι → List β} (hmake : ∀ x, make x ≠ [])
    (items : List ι) :
    List.Forall₂ R items (items.flatMap make) ↔ ∀ x ∈ items, ∃ y, make x = [y] ∧ R x y := by
  have hlen : ∀ items : List ι, items.length ≤ (items.flatMap make).length := by
    intro items
    induction items with
    | nil => exact Nat.le_refl _
    | cons x items ih =>
      have hpos := List.length_pos_of_ne_nil (hmake x)
      rw [List.flatMap_cons, List.length_append, List.length_cons]
      omega
  induction items with
  | nil => simp
  | cons x items ih =>
    rw [List.flatMap_cons, List.forall_mem_cons]
    constructor
    · intro h
      have hboth := h.length_eq
      have hrest := hlen items
      have hpos := List.length_pos_of_ne_nil (hmake x)
      rw [List.length_cons, List.length_append] at hboth
      obtain ⟨y, hy⟩ := List.length_eq_one_iff.mp (show (make x).length = 1 by omega)
      rw [hy, List.singleton_append, List.forall₂_cons] at h
      exact ⟨⟨y, hy, h.1⟩, ih.mp h.2⟩
    · rintro ⟨⟨y, hy, hR⟩, hitems⟩
      rw [hy, List.singleton_append]
      exact List.Forall₂.cons hR (ih.mpr hitems)

end DevRepro.Lib
