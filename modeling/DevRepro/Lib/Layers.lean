import Mathlib.Data.List.Nodup
import Mathlib.Data.List.Flatten
import Mathlib.Tactic.Tauto
import Mathlib.Algebra.GroupWithZero.Nat
import Mathlib.Algebra.Order.BigOperators.Group.List
import Mathlib.Algebra.Order.Group.Nat
import Mathlib.Logic.Relation

/-!
# Breadth-first layers

`layer next start n` lists the nodes at distance `n` from the start, in the order
in which the nodes of the layer before mention them first.  The distance of a
node is the length of its shortest walk.

`mem_layer_iff` is the one induction: a node is in a layer when its distance is
the number of that layer, also with cycles and with nodes that many others list.
-/

namespace DevRepro.Lib

variable {α : Type}

/-! ## First mentions -/

section

variable [DecidableEq α]

/-- The elements of a list that were not seen, in order and once each. -/
def fresh (seen : List α) : List α → List α
  | [] => []
  | a :: rest => if a ∈ seen then fresh seen rest else a :: fresh (seen ++ [a]) rest

theorem mem_fresh {seen pending : List α} {a : α} :
    a ∈ fresh seen pending ↔ a ∈ pending ∧ a ∉ seen := by
  induction pending generalizing seen with
  | nil => simp [fresh]
  | cons b rest ih =>
    rw [fresh]
    split_ifs with hb
    · rw [ih, List.mem_cons]
      constructor
      · rintro ⟨hmem, hseen⟩
        exact ⟨Or.inr hmem, hseen⟩
      · rintro ⟨rfl | hmem, hseen⟩
        · exact absurd hb hseen
        · exact ⟨hmem, hseen⟩
    · rw [List.mem_cons, ih, List.mem_cons, List.mem_append, List.mem_singleton]
      constructor
      · rintro (rfl | ⟨hmem, hseen⟩)
        · exact ⟨Or.inl rfl, hb⟩
        · exact ⟨Or.inr hmem, fun h => hseen (Or.inl h)⟩
      · rintro ⟨hmem, hseen⟩
        by_cases hab : a = b
        · exact Or.inl hab
        · refine Or.inr ⟨hmem.resolve_left hab, ?_⟩
          rintro (h | h)
          · exact hseen h
          · exact hab h

theorem fresh_nodup (seen pending : List α) : (fresh seen pending).Nodup := by
  induction pending generalizing seen with
  | nil => exact List.nodup_nil
  | cons b rest ih =>
    rw [fresh]
    split_ifs
    · exact ih seen
    · refine List.nodup_cons.mpr ⟨fun hmem => ?_, ih _⟩
      exact (mem_fresh.mp hmem).2 (List.mem_append_right _ List.mem_cons_self)

/-- The fresh elements stand in the order of their first mention. -/
theorem fresh_ordered [BEq α] [LawfulBEq α] (seen pending : List α) :
    (fresh seen pending).Pairwise fun a b => pending.idxOf a < pending.idxOf b := by
  induction pending generalizing seen with
  | nil => exact List.Pairwise.nil
  | cons c rest ih =>
    have hlater : ∀ seen' : List α, c ∈ seen' →
        (fresh seen' rest).Pairwise fun a b =>
          (c :: rest).idxOf a < (c :: rest).idxOf b := by
      intro seen' hc
      refine (ih seen').imp_of_mem fun {a b} ha hb hab => ?_
      have hac : c ≠ a := fun h => (mem_fresh.mp ha).2 (h ▸ hc)
      have hbc : c ≠ b := fun h => (mem_fresh.mp hb).2 (h ▸ hc)
      rw [List.idxOf_cons_ne rest hac, List.idxOf_cons_ne rest hbc]
      omega
    rw [fresh]
    split_ifs with hc
    · exact hlater seen hc
    · refine List.pairwise_cons.mpr ⟨fun b hb => ?_, hlater _ (by simp)⟩
      have hbc : c ≠ b := by
        rintro rfl
        exact (mem_fresh.mp hb).2 (by simp)
      rw [List.idxOf_cons_self, List.idxOf_cons_ne rest hbc]
      omega

end

/-! ## Walks and distances -/

variable (next : α → List α) (start : α)

/-- A walk of a length from the start. -/
inductive Walk : Nat → α → Prop
  | start : Walk 0 start
  | step {n p q} (walk : Walk n p) (listed : q ∈ next p) : Walk (n + 1) q

/-- A node that some walk leads to. -/
def Reachable (p : α) : Prop := ∃ n, Walk next start n p

/-- The length of a shortest walk. -/
structure Distance (n : Nat) (p : α) : Prop where
  walk : Walk next start n p
  shortest : ∀ m, Walk next start m p → n ≤ m

variable {next start} {n m : Nat} {p q : α}

theorem Distance.unique (hn : Distance next start n p) (hm : Distance next start m p) : n = m :=
  Nat.le_antisymm (hn.shortest m hm.walk) (hm.shortest n hn.walk)

theorem Walk.distance_le (h : Walk next start n p) : ∃ m ≤ n, Distance next start m p := by
  induction n using Nat.strongRecOn with
  | ind n ih =>
    by_cases hshort : ∃ m < n, Walk next start m p
    · obtain ⟨m, hm, hw⟩ := hshort
      obtain ⟨k, hk, hd⟩ := ih m hm hw
      exact ⟨k, by omega, hd⟩
    · refine ⟨n, Nat.le_refl n, h, fun m hm => ?_⟩
      by_contra hlt
      exact hshort ⟨m, by omega, hm⟩

theorem Reachable.distance (h : Reachable next start p) : ∃ n, Distance next start n p := by
  obtain ⟨n, hn⟩ := h
  obtain ⟨m, -, hm⟩ := hn.distance_le
  exact ⟨m, hm⟩

/-- The node before the last on a shortest walk. -/
theorem Distance.referrer (h : Distance next start (n + 1) p) :
    ∃ q, Distance next start n q ∧ p ∈ next q := by
  rcases h.walk with _ | ⟨hw, hmem⟩
  refine ⟨_, ⟨hw, fun m hm => ?_⟩, hmem⟩
  have := h.shortest (m + 1) (.step hm hmem)
  omega

/-- Every distance up to that of some node is the distance of a node. -/
theorem Distance.nearer (h : Distance next start n p) (hm : m ≤ n) :
    ∃ q, Distance next start m q := by
  induction n generalizing p with
  | zero =>
    obtain rfl : m = 0 := by omega
    exact ⟨p, h⟩
  | succ n ih =>
    by_cases hmn : m = n + 1
    · subst hmn
      exact ⟨p, h⟩
    · obtain ⟨q, hq, -⟩ := h.referrer
      exact ih hq (by omega)

/-! ## Layers -/

variable [DecidableEq α] (next start)

/-- What was seen before a layer, and the mentions that the layer is read from. -/
def front : Nat → List α × List α
  | 0 => ([], [start])
  | n + 1 =>
    let seen := (front n).1
    let found := fresh seen (front n).2
    (seen ++ found, found.flatMap next)

def layer (n : Nat) : List α := fresh (front next start n).1 (front next start n).2

theorem front_succ : front next start (n + 1) =
    ((front next start n).1 ++ layer next start n, (layer next start n).flatMap next) := rfl

/-- The layers below a number were seen before it. -/
theorem mem_front_iff :
    p ∈ (front next start n).1 ↔ ∃ m < n, p ∈ layer next start m := by
  induction n with
  | zero => simp [front]
  | succ n ih =>
    rw [front_succ, List.mem_append, ih]
    constructor
    · rintro (⟨m, hm, hp⟩ | hp)
      · exact ⟨m, by omega, hp⟩
      · exact ⟨n, by omega, hp⟩
    · rintro ⟨m, hm, hp⟩
      by_cases hmn : m = n
      · subst hmn
        exact Or.inr hp
      · exact Or.inl ⟨m, by omega, hp⟩

theorem mem_layer_iff : p ∈ layer next start n ↔ Distance next start n p := by
  induction n using Nat.strongRecOn generalizing p with
  | ind n ih =>
    rw [layer, mem_fresh, mem_front_iff]
    cases n with
    | zero =>
      have hfront : (front next start 0).2 = [start] := rfl
      rw [hfront, List.mem_singleton]
      constructor
      · rintro ⟨rfl, -⟩
        exact ⟨.start, fun m _ => Nat.zero_le m⟩
      · intro h
        rcases h.walk with _ | _
        exact ⟨rfl, by rintro ⟨m, hm, -⟩; omega⟩
    | succ n =>
      rw [front_succ, List.mem_flatMap]
      constructor
      · rintro ⟨⟨q, hq, hmem⟩, hseen⟩
        have hd := (ih n (by omega)).mp hq
        refine ⟨.step hd.walk hmem, fun m hm => ?_⟩
        by_contra hlt
        obtain ⟨k, hk, hkd⟩ := hm.distance_le
        exact hseen ⟨k, by omega, (ih k (by omega)).mpr hkd⟩
      · intro h
        obtain ⟨q, hq, hmem⟩ := h.referrer
        refine ⟨⟨q, (ih n (by omega)).mpr hq, hmem⟩, ?_⟩
        rintro ⟨m, hm, hp⟩
        have := ((ih m hm).mp hp).unique h
        omega

theorem mem_front_iff_distance :
    p ∈ (front next start n).1 ↔ ∃ m < n, Distance next start m p := by
  simp only [mem_front_iff, mem_layer_iff]

theorem front_nodup (n : Nat) : (front next start n).1.Nodup := by
  induction n with
  | zero => exact List.nodup_nil
  | succ n ih =>
    rw [front_succ]
    refine List.nodup_append.mpr ⟨ih, fresh_nodup _ _, ?_⟩
    rintro a ha b hb rfl
    exact (mem_fresh.mp hb).2 ha

/-- Nearer nodes stand before farther ones. -/
theorem front_sorted (n : Nat) : (front next start n).1.Pairwise fun p q =>
    ∀ i j, Distance next start i p → Distance next start j q → i ≤ j := by
  induction n with
  | zero => exact List.Pairwise.nil
  | succ n ih =>
    rw [front_succ]
    refine List.pairwise_append.mpr ⟨ih, ?_, ?_⟩
    · refine (fresh_nodup _ _).imp_of_mem fun {p q} hp hq _ i j hi hj => ?_
      have := ((mem_layer_iff next start).mp hp).unique hi
      have := ((mem_layer_iff next start).mp hq).unique hj
      omega
    · intro p hp q hq i j hi hj
      obtain ⟨m, hm, hd⟩ := (mem_front_iff_distance next start).mp hp
      have := hd.unique hi
      have := ((mem_layer_iff next start).mp hq).unique hj
      omega

open Classical in
/-- The nodes of a list at a distance, in the order of the list. -/
noncomputable def atDistance (nodes : List α) (n : Nat) : List α :=
  nodes.filter fun p => decide (Distance next start n p)

/-- A layer is the part of what was seen at its distance. -/
theorem atDistance_front (h : m < n) :
    atDistance next start (front next start n).1 m = layer next start m := by
  classical
  induction n with
  | zero => omega
  | succ n ih =>
    unfold atDistance at ih ⊢
    rw [front_succ, List.filter_append]
    by_cases hmn : m = n
    · subst hmn
      have hseen : (front next start m).1.filter
          (fun p => decide (Distance next start m p)) = [] := by
        rw [List.filter_eq_nil_iff]
        intro p hp hd
        obtain ⟨k, hk, hkd⟩ := (mem_front_iff_distance next start).mp hp
        have := hkd.unique (of_decide_eq_true hd)
        omega
      have hlayer : (layer next start m).filter
          (fun p => decide (Distance next start m p)) = layer next start m := by
        rw [List.filter_eq_self]
        intro p hp
        exact decide_eq_true ((mem_layer_iff next start).mp hp)
      rw [hseen, hlayer, List.nil_append]
    · have hlayer : (layer next start n).filter
          (fun p => decide (Distance next start m p)) = [] := by
        rw [List.filter_eq_nil_iff]
        intro p hp hd
        exact hmn ((of_decide_eq_true hd).unique ((mem_layer_iff next start).mp hp))
      rw [ih (by omega), hlayer, List.append_nil]

/-- Two nodes at one distance stand in the order in which the nodes before them
mention them first. -/
theorem front_ordered (n : Nat) : (front next start n).1.Pairwise fun p q =>
    ∀ m, Distance next start (m + 1) p → Distance next start (m + 1) q →
      ((layer next start m).flatMap next).idxOf p <
        ((layer next start m).flatMap next).idxOf q := by
  induction n with
  | zero => exact List.Pairwise.nil
  | succ n ih =>
    rw [front_succ]
    refine List.pairwise_append.mpr ⟨ih, ?_, ?_⟩
    · refine (fresh_ordered _ _).imp_of_mem fun {p q} hp _ hpq m hpm _ => ?_
      obtain rfl := hpm.unique ((mem_layer_iff next start).mp hp)
      exact hpq
    · intro p hp q hq m hpm hqm
      obtain ⟨k, hk, hkd⟩ := (mem_front_iff_distance next start).mp hp
      have := hkd.unique hpm
      have := ((mem_layer_iff next start).mp hq).unique hqm
      omega

/-- When a layer is empty, the search has seen everything. -/
theorem mem_front_iff_reachable (h : layer next start n = []) :
    p ∈ (front next start n).1 ↔ Reachable next start p := by
  rw [mem_front_iff_distance]
  constructor
  · rintro ⟨m, -, hd⟩
    exact ⟨m, hd.walk⟩
  · intro hp
    obtain ⟨m, hm⟩ := hp.distance
    by_contra hfar
    have hn : n ≤ m := by
      by_contra hlt
      exact hfar ⟨m, by omega, hm⟩
    obtain ⟨q, hq⟩ := hm.nearer hn
    have hmem := (mem_layer_iff next start).mpr hq
    rw [h] at hmem
    cases hmem

end DevRepro.Lib

/-!
## Walking a tree level by level

A walk takes the first node of a queue and puts its children at the end.  Where every node is
larger than its children together, it ends, and meets the nodes below the ones it starts with.
-/

namespace DevRepro.Lib.BreadthFirst

open Relation (ReflTransGen)

variable {ν : Type} (children : ν → List ν)

/-- The nodes that are met, in at most so many steps. -/
def walkFrom : Nat → List ν → List ν
  | 0, _ => []
  | _ + 1, [] => []
  | fuel + 1, node :: rest => node :: walkFrom fuel (rest ++ children node)

/-- A node is the other or below it. -/
def Within (node x : ν) : Prop := ReflTransGen (fun a b => b ∈ children a) node x

variable {children}

theorem within_iff {node x : ν} :
    Within children node x ↔ x = node ∨ ∃ child ∈ children node, Within children child x := by
  rw [Within, ReflTransGen.cases_head_iff]
  exact or_congr_left eq_comm

/-- With steps enough, the walk meets exactly the nodes within those of the queue. -/
theorem mem_walkFrom {size : ν → Nat} (hsize : ∀ node, ((children node).map size).sum < size node)
    {fuel : Nat} {queue : List ν} (hfuel : (queue.map size).sum ≤ fuel) {x : ν} :
    x ∈ walkFrom children fuel queue ↔ ∃ node ∈ queue, Within children node x := by
  induction fuel generalizing queue with
  | zero =>
    cases queue with
    | nil => simp [walkFrom]
    | cons node rest =>
      have hpos := hsize node
      rw [List.map_cons, List.sum_cons] at hfuel
      omega
  | succ fuel ih =>
    cases queue with
    | nil => simp [walkFrom]
    | cons node rest =>
      have hnext : ((rest ++ children node).map size).sum ≤ fuel := by
        have hpos := hsize node
        rw [List.map_cons, List.sum_cons] at hfuel
        rw [List.map_append, List.sum_append]
        omega
      rw [walkFrom, List.mem_cons, ih hnext]
      constructor
      · rintro (rfl | ⟨other, hother, hin⟩)
        · exact ⟨x, List.mem_cons_self, ReflTransGen.refl⟩
        · rcases List.mem_append.mp hother with hrest | hchild
          · exact ⟨other, List.mem_cons_of_mem node hrest, hin⟩
          · exact ⟨node, List.mem_cons_self, within_iff.mpr (Or.inr ⟨other, hchild, hin⟩)⟩
      · rintro ⟨other, hother, hin⟩
        rcases List.mem_cons.mp hother with rfl | hrest
        · rcases within_iff.mp hin with rfl | ⟨child, hchild, hbelow⟩
          · exact Or.inl rfl
          · exact Or.inr ⟨child, List.mem_append_right rest hchild, hbelow⟩
        · exact Or.inr ⟨other, List.mem_append_left _ hrest, hin⟩

end DevRepro.Lib.BreadthFirst
