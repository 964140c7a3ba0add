import Mathlib

/-!
# Hash chains

A chain is a list of records.  A `Scheme` names, for each record, the digest
it carries and the digest of the record it claims to follow.  `Linked` says
that the claims hold from a given digest on, and `head` is the last digest.

`Linked.eq_of_head_eq` is the commitment property.  Two linked chains with the
same head are equal, provided that the digests tell their records apart and
that no record carries the digest the chains start from.
-/

namespace DevRepro.Lib.HashChain

/-- What a chain reads off its records. -/
structure Scheme (Rec Dig : Type) where
  /-- The digest that a record carries. -/
  own : Rec → Dig
  /-- The digest of the record before it. -/
  prev : Rec → Dig

section

variable {Rec Dig : Type} (S : Scheme Rec Dig)

/-- Every record follows the one before it, and the first one `start`. -/
def Linked : Dig → List Rec → Prop
  | _, [] => True
  | start, r :: rest => S.prev r = start ∧ Linked (S.own r) rest

/-- The digest of the last record, or `start` without any. -/
def head (start : Dig) (chain : List Rec) : Dig := chain.foldl (fun _ r => S.own r) start

@[simp] theorem head_nil (start : Dig) : head S start [] = start := rfl

@[simp] theorem head_cons (start : Dig) (r : Rec) (rest : List Rec) :
    head S start (r :: rest) = head S (S.own r) rest := rfl

@[simp] theorem head_append (start : Dig) (chain rest : List Rec) :
    head S start (chain ++ rest) = head S (head S start chain) rest := by
  simp [head]

@[simp] theorem linked_nil (start : Dig) : Linked S start [] := trivial

@[simp] theorem linked_cons (start : Dig) (r : Rec) (rest : List Rec) :
    Linked S start (r :: rest) ↔ S.prev r = start ∧ Linked S (S.own r) rest := Iff.rfl

/-- A chain goes on from its head. -/
theorem linked_append (start : Dig) (chain rest : List Rec) :
    Linked S start (chain ++ rest) ↔
      Linked S start chain ∧ Linked S (head S start chain) rest := by
  induction chain generalizing start with
  | nil => simp
  | cons r chain ih => simp [ih, and_assoc]

/-- The digests of two chains tell their records apart. -/
def Separates (xs ys : List Rec) : Prop := ∀ x ∈ xs, ∀ y ∈ ys, S.own x = S.own y → x = y

/-- No record carries the digest the chain starts from. -/
def Fresh (start : Dig) (chain : List Rec) : Prop := ∀ r ∈ chain, S.own r ≠ start

variable {S}

/-- A linked chain is determined by its head. -/
theorem Linked.eq_of_head_eq {start : Dig} {xs ys : List Rec} (hx : Linked S start xs)
    (hy : Linked S start ys) (hsep : Separates S xs ys) (hfx : Fresh S start xs)
    (hfy : Fresh S start ys) (hhead : head S start xs = head S start ys) : xs = ys := by
  -- the last records carry the heads, so the induction runs from the end
  induction xs using List.reverseRecOn generalizing ys with
  | nil =>
    rcases List.eq_nil_or_concat' ys with rfl | ⟨ys, y, rfl⟩
    · rfl
    · have hstart : S.own y = start := by simpa using hhead.symm
      exact absurd hstart (hfy y (by simp))
  | append_singleton xs x ih =>
    rcases List.eq_nil_or_concat' ys with rfl | ⟨ys, y, rfl⟩
    · have hstart : S.own x = start := by simpa using hhead
      exact absurd hstart (hfx x (by simp))
    · have hown : S.own x = S.own y := by simpa using hhead
      have hxy : x = y := hsep x (by simp) y (by simp) hown
      rw [linked_append] at hx hy
      have hprev : head S start xs = head S start ys := by
        have hpx : S.prev x = head S start xs := hx.2.1
        have hpy : S.prev y = head S start ys := hy.2.1
        rw [← hpx, ← hpy, hxy]
      have hinit : xs = ys := by
        refine ih hx.1 hy.1 ?_ ?_ ?_ hprev
        · exact fun a ha b hb => hsep a (by simp [ha]) b (by simp [hb])
        · exact fun a ha => hfx a (by simp [ha])
        · exact fun b hb => hfy b (by simp [hb])
      rw [hinit, hxy]

end

end DevRepro.Lib.HashChain
