import Mathlib

/-!
# Depth-first ordering of a graph

`visit` appends a node behind the nodes that it needs, and refuses one that it meets again
on the way to itself; `search` starts it at some roots.

`Ordered` says that every node of a list stands behind its needs.  An order that `search`
gives is one (`search_ok`), it gives none exactly when some node needs itself on the way
(`search_fails_iff`), and it is never nested deeper than there are nodes (`search_depth`).
-/

namespace DevRepro.Lib.DepthFirst

open Relation (TransGen)

variable {ν κ : Type}

/-- A place in a list with one more element is the last one, or one before it. -/
theorem split_append_singleton {α : Type} {l before after : List α} {a last : α}
    (h : l ++ [last] = before ++ a :: after) :
    (before = l ∧ a = last) ∨ ∃ rest, l = before ++ a :: rest := by
  rcases List.eq_nil_or_concat after with rfl | ⟨rest, other, rfl⟩
  · obtain ⟨rfl, hlast⟩ := List.append_inj' h rfl
    exact Or.inl ⟨rfl, (List.singleton_inj.mp hlast).symm⟩
  · rw [List.concat_eq_append, ← List.cons_append, ← List.append_assoc] at h
    exact Or.inr ⟨rest, (List.append_inj' h rfl).1⟩

/-- Why a walk ends early. -/
inductive Fault (ν : Type) where
  /-- The node is met on the way to itself. -/
  | cycle (node : ν)
  /-- The walk is nested deeper than it may be. -/
  | tooDeep

section Walk

variable [DecidableEq κ] (key : ν → κ) (next : ν → List ν)

/-- Append a node to an order, behind the nodes that it needs.  `path` holds the nodes on
the way to it. -/
def visit : ℕ → List ν → List ν → ν → Except (Fault ν) (List ν)
  | 0, _, _, _ => .error .tooDeep
  | depth + 1, path, order, node =>
    if key node ∈ order.map key then .ok order
    else if key node ∈ path.map key then .error (.cycle node)
    else do
      let order ← (next node).foldlM (visit depth (node :: path)) order
      return order ++ [node]

/-- The order of all nodes that some roots need. -/
def search (depth : ℕ) (roots : List ν) : Except (Fault ν) (List ν) :=
  roots.foldlM (visit key next depth []) []

end Walk

/-- A finite graph whose nodes have distinct keys. -/
structure Graph (ν κ : Type) where
  nodes : List ν
  key : ν → κ
  next : ν → List ν
  closed : ∀ a ∈ nodes, ∀ b ∈ next a, b ∈ nodes
  distinct : (nodes.map key).Nodup

namespace Graph

variable (G : Graph ν κ)

/-- One node needs another. -/
def Needs (a b : ν) : Prop := b ∈ G.next a

/-- Some node needs itself on the way. -/
def Cyclic : Prop := ∃ node ∈ G.nodes, TransGen G.Needs node node

/-- No node comes twice, and every one stands behind its needs. -/
structure Ordered (order : List ν) : Prop where
  nodup : order.Nodup
  subset : order ⊆ G.nodes
  behind : ∀ before node after, order = before ++ node :: after →
    ∀ need ∈ G.next node, need ∈ before

variable {G} {depth : ℕ} {path order order' : List ν} {node : ν}

theorem mem_of_key_mem {nodes : List ν} (hnode : node ∈ G.nodes) (hnodes : nodes ⊆ G.nodes)
    (h : G.key node ∈ nodes.map G.key) : node ∈ nodes := by
  obtain ⟨other, hother, heq⟩ := List.mem_map.mp h
  rw [← List.inj_on_of_nodup_map G.distinct (hnodes hother) hnode heq]
  exact hother

/-! ## What an order gives -/

theorem ordered_nil : G.Ordered [] :=
  ⟨List.nodup_nil, List.nil_subset _, fun before node after h => by simp at h⟩

/-- A node goes behind an order that has its needs. -/
theorem Ordered.append (horder : G.Ordered order) (hnode : node ∈ G.nodes) (hnew : node ∉ order)
    (hneeds : ∀ need ∈ G.next node, need ∈ order) : G.Ordered (order ++ [node]) where
  nodup := List.nodup_append.mpr ⟨horder.nodup, List.nodup_singleton node, by
    intro a ha b hb heq
    rw [List.mem_singleton.mp hb] at heq
    exact hnew (heq ▸ ha)⟩
  subset := by
    intro a ha
    rcases List.mem_append.mp ha with ha | ha
    · exact horder.subset ha
    · rw [List.mem_singleton.mp ha]
      exact hnode
  behind := by
    intro before a after heq need hneed
    rcases split_append_singleton heq with ⟨rfl, rfl⟩ | ⟨rest, hsplit⟩
    · exact hneeds need hneed
    · exact horder.behind before a rest hsplit need hneed

/-- What a node needs on the way stands before it. -/
theorem Ordered.before (horder : G.Ordered order) {before after : List ν} {other : ν}
    (hsplit : order = before ++ node :: after) (h : TransGen G.Needs node other) :
    other ∈ before := by
  induction h with
  | single hneed => exact horder.behind before node after hsplit _ hneed
  | @tail middle last _ hneed ih =>
    obtain ⟨first, rest, rfl⟩ := List.append_of_mem ih
    have hmiddle : order = first ++ middle :: (rest ++ node :: after) := by
      rw [hsplit, List.append_assoc, List.cons_append]
    exact List.mem_append_left _ (horder.behind first middle _ hmiddle last hneed)

/-- A graph with an order of all its nodes has no cycle. -/
theorem Ordered.acyclic (horder : G.Ordered order) (hall : G.nodes ⊆ order) : ¬G.Cyclic := by
  rintro ⟨node, hnode, hcycle⟩
  obtain ⟨before, after, hsplit⟩ := List.append_of_mem (hall hnode)
  have hnodup := horder.nodup
  rw [hsplit, List.nodup_append] at hnodup
  exact hnodup.2.2 node (horder.before hsplit hcycle) node List.mem_cons_self rfl

/-! ## The walk -/

/-- An order that another one continues, with some roots in it and no node on the way. -/
structure Grows (G : Graph ν κ) (path order order' roots : List ν) : Prop where
  ordered : G.Ordered order'
  isPrefix : order <+: order'
  roots_mem : ∀ root ∈ roots, root ∈ order'
  path_not_mem : ∀ node ∈ path, node ∉ order → node ∉ order'

/-- A walk over several nodes grows an order when the visits of each of them do. -/
theorem Grows.foldlM {step : List ν → ν → Except (Fault ν) (List ν)} {roots : List ν}
    (hroots : roots ⊆ G.nodes)
    (hstep : ∀ order order' node, node ∈ G.nodes → G.Ordered order → step order node = .ok order' →
      G.Grows path order order' [node])
    (horder : G.Ordered order) (h : roots.foldlM step order = .ok order') :
    G.Grows path order order' roots := by
  induction roots generalizing order with
  | nil =>
    cases h
    exact ⟨horder, List.prefix_rfl, fun _ hroot => absurd hroot List.not_mem_nil, fun _ _ hnew => hnew⟩
  | cons root roots ih =>
    rw [List.foldlM_cons] at h
    obtain ⟨hroot, hrest⟩ := List.cons_subset.mp hroots
    cases hvisit : step order root with
    | error fault =>
      rw [hvisit] at h
      cases h
    | ok middle =>
      rw [hvisit] at h
      have hfirst := hstep order middle root hroot horder hvisit
      have hlast := ih hrest hfirst.ordered h
      refine ⟨hlast.ordered, hfirst.isPrefix.trans hlast.isPrefix, fun a ha => ?_, fun a ha hnew =>
        hlast.path_not_mem a ha (hfirst.path_not_mem a ha hnew)⟩
      rcases List.mem_cons.mp ha with rfl | ha
      · exact hlast.isPrefix.subset (hfirst.roots_mem a (List.mem_singleton_self a))
      · exact hlast.roots_mem a ha

/-- A walk over several nodes fails as the visit of one of them does. -/
theorem foldlM_error {step : List ν → ν → Except (Fault ν) (List ν)} {roots : List ν}
    {fault : Fault ν} (h : roots.foldlM step order = .error fault) :
    ∃ root ∈ roots, ∃ middle, step middle root = .error fault := by
  induction roots generalizing order with
  | nil => cases h
  | cons root roots ih =>
    rw [List.foldlM_cons] at h
    cases hvisit : step order root with
    | error other =>
      rw [hvisit] at h
      cases h
      exact ⟨root, List.mem_cons_self, order, hvisit⟩
    | ok middle =>
      rw [hvisit] at h
      obtain ⟨other, hother, hfails⟩ := ih h
      exact ⟨other, List.mem_cons_of_mem _ hother, hfails⟩

variable [DecidableEq κ]

/-- A visit that returns has put its node behind what it needs. -/
theorem visit_ok (hpath : path ⊆ G.nodes) (hnode : node ∈ G.nodes) (horder : G.Ordered order)
    (h : visit G.key G.next depth path order node = .ok order') :
    G.Grows path order order' [node] := by
  induction depth generalizing path order order' node with
  | zero => cases h
  | succ depth ih =>
    rw [visit] at h
    split_ifs at h with hdone hcycle
    · cases h
      refine ⟨horder, List.prefix_rfl, fun root hroot => ?_, fun _ _ hnew => hnew⟩
      rw [List.mem_singleton.mp hroot]
      exact mem_of_key_mem hnode horder.subset hdone
    · cases hneeds : (G.next node).foldlM (visit G.key G.next depth (node :: path)) order with
      | error fault =>
        rw [hneeds] at h
        cases h
      | ok middle =>
        rw [hneeds] at h
        cases h
        have hgrows := Grows.foldlM (G.closed node hnode)
          (fun _ _ _ => ih (List.cons_subset.mpr ⟨hnode, hpath⟩)) horder hneeds
        have hnew : node ∉ middle := hgrows.path_not_mem node List.mem_cons_self
          fun hmem => hdone (List.mem_map_of_mem hmem)
        refine ⟨hgrows.ordered.append hnode hnew hgrows.roots_mem,
          hgrows.isPrefix.trans (List.prefix_append _ _), fun root hroot => ?_,
          fun a ha hfresh hmem => ?_⟩
        · rw [List.mem_singleton.mp hroot]
          exact List.mem_append_right _ (List.mem_singleton_self node)
        · rcases List.mem_append.mp hmem with hmem | hmem
          · exact hgrows.path_not_mem a (List.mem_cons_of_mem _ ha) hfresh hmem
          · rw [← List.mem_singleton.mp hmem] at hcycle
            exact hcycle (List.mem_map_of_mem ha)

/-- A node that a visit refuses needs itself on the way. -/
theorem visit_cycle {found : ν} (hpath : path ⊆ G.nodes) (hnode : node ∈ G.nodes)
    (hway : ∀ a ∈ path, TransGen G.Needs a node)
    (h : visit G.key G.next depth path order node = .error (.cycle found)) : G.Cyclic := by
  induction depth generalizing path order node with
  | zero => cases h
  | succ depth ih =>
    rw [visit] at h
    split_ifs at h with hdone hcycle
    · exact ⟨node, hnode, hway node (mem_of_key_mem hnode hpath hcycle)⟩
    · cases hneeds : (G.next node).foldlM (visit G.key G.next depth (node :: path)) order with
      | ok middle =>
        rw [hneeds] at h
        cases h
      | error fault =>
        rw [hneeds] at h
        cases h
        obtain ⟨need, hneed, middle, hvisit⟩ := foldlM_error hneeds
        refine ih (List.cons_subset.mpr ⟨hnode, hpath⟩) (G.closed node hnode need hneed) ?_ hvisit
        intro a ha
        rcases List.mem_cons.mp ha with rfl | ha
        · exact TransGen.single hneed
        · exact (hway a ha).tail hneed

/-- A walk has no more nodes on its way than there are. -/
theorem visit_depth (hpath : path ⊆ G.nodes) (hnodup : path.Nodup) (hnode : node ∈ G.nodes)
    (hdepth : G.nodes.length < depth + path.length) :
    visit G.key G.next depth path order node ≠ .error .tooDeep := by
  induction depth generalizing path order node with
  | zero =>
    have hle := (List.subperm_of_subset hnodup hpath).length_le
    omega
  | succ depth ih =>
    intro h
    rw [visit] at h
    split_ifs at h with hdone hcycle
    · cases h
    cases hneeds : (G.next node).foldlM (visit G.key G.next depth (node :: path)) order with
    | ok middle =>
      rw [hneeds] at h
      cases h
    | error fault =>
      rw [hneeds] at h
      cases h
      obtain ⟨need, hneed, middle, hvisit⟩ := foldlM_error hneeds
      have hnew : node ∉ path := fun hmem => hcycle (List.mem_map_of_mem hmem)
      refine ih (List.cons_subset.mpr ⟨hnode, hpath⟩) (List.nodup_cons.mpr ⟨hnew, hnodup⟩)
        (G.closed node hnode need hneed) ?_ hvisit
      rw [List.length_cons]
      omega

/-! ## The search -/

variable {roots : List ν}

theorem search_ok (hroots : roots ⊆ G.nodes) (h : search G.key G.next depth roots = .ok order) :
    G.Ordered order ∧ roots ⊆ order := by
  have hgrows : G.Grows [] [] order roots :=
    Grows.foldlM hroots (fun _ _ _ => visit_ok (List.nil_subset _)) ordered_nil h
  exact ⟨hgrows.ordered, hgrows.roots_mem⟩

theorem search_depth (hroots : roots ⊆ G.nodes) (hdepth : G.nodes.length < depth) :
    search G.key G.next depth roots ≠ .error .tooDeep := by
  intro h
  obtain ⟨root, hroot, middle, hvisit⟩ := foldlM_error h
  exact visit_depth (List.nil_subset _) List.nodup_nil (hroots hroot) hdepth hvisit

/-- With enough depth, a search for all nodes fails exactly on a graph with a cycle. -/
theorem search_fails_iff (hroots : roots ⊆ G.nodes) (hall : G.nodes ⊆ roots)
    (hdepth : G.nodes.length < depth) :
    (∃ fault, search G.key G.next depth roots = .error fault) ↔ G.Cyclic := by
  constructor
  · rintro ⟨fault, h⟩
    cases fault with
    | tooDeep => exact absurd h (search_depth hroots hdepth)
    | cycle found =>
      obtain ⟨root, hroot, middle, hvisit⟩ := foldlM_error h
      exact visit_cycle (List.nil_subset _) (hroots hroot)
        (fun a ha => absurd ha List.not_mem_nil) hvisit
  · intro hcyclic
    cases h : search G.key G.next depth roots with
    | error fault => exact ⟨fault, rfl⟩
    | ok order =>
      obtain ⟨hordered, hsub⟩ := search_ok hroots h
      exact absurd hcyclic (hordered.acyclic fun node hnode => hsub (hall hnode))

end Graph

end DevRepro.Lib.DepthFirst

/-!
## Walks with a depth limit

A walk keeps a stack of nodes with their depth.  It takes the node on top, and
unless that one is at the limit it reports the children and pushes them.

`mem_walkFrom` says what a walk finds: the nodes below one of the stack, as many
steps down as the limit allows.
-/

namespace DevRepro.Lib

variable {π : Type} (kids : π → List π)

/-! ## The walk -/

/-- The number of turns that a walk spends on a node, some steps above the limit. -/
def turns : Nat → π → Nat
  | 0, _ => 1
  | n + 1, node => 1 + ((kids node).map (turns n)).sum

theorem turns_pos (n : Nat) (node : π) : 0 < turns kids n node := by
  cases n with
  | zero => exact Nat.one_pos
  | succ n => exact Nat.lt_of_lt_of_le Nat.one_pos (Nat.le_add_right 1 _)

/-- The number of turns that a walk spends on its stack. -/
def stackTurns (limit : Nat) (stack : List (π × Nat)) : Nat :=
  (stack.map fun item => turns kids (limit - item.2) item.1).sum

theorem stackTurns_push {limit depth : Nat} (hdepth : depth < limit) (node : π)
    (rest : List (π × Nat)) :
    stackTurns kids limit (((kids node).map fun kid => (kid, depth + 1)).reverse ++ rest) <
      stackTurns kids limit ((node, depth) :: rest) := by
  have hlimit : limit - depth = (limit - (depth + 1)) + 1 := by omega
  have hkids : stackTurns kids limit ((kids node).map fun kid => (kid, depth + 1)).reverse =
      ((kids node).map (turns kids (limit - (depth + 1)))).sum := by
    rw [stackTurns, List.map_reverse, List.sum_reverse, List.map_map]
    rfl
  unfold stackTurns at hkids ⊢
  rw [List.map_append, List.sum_append, hkids, List.map_cons, List.sum_cons]
  dsimp only
  rw [hlimit, turns]
  omega

/-- The loop of a walk, with the top of the stack first. -/
def walkFrom (limit : Nat) (stack : List (π × Nat)) (found : List π) : List π :=
  match stack with
  | [] => found
  | (node, depth) :: rest =>
    if limit ≤ depth then walkFrom limit rest found
    else
      walkFrom limit (((kids node).map fun kid => (kid, depth + 1)).reverse ++ rest)
        (found ++ kids node)
termination_by stackTurns kids limit stack
decreasing_by
  · have hpos := turns_pos kids (limit - depth) node
    show (rest.map fun item => turns kids (limit - item.2) item.1).sum <
      turns kids (limit - depth) node + (rest.map fun item => turns kids (limit - item.2) item.1).sum
    omega
  · exact stackTurns_push kids (by omega) node rest

/-! ## What a walk finds -/

/-- A node some steps below another. -/
inductive Below : Nat → π → π → Prop where
  | kid {node kid : π} (h : kid ∈ kids node) : Below 1 node kid
  | down {node kid target : π} {n : Nat} (h : kid ∈ kids node) (below : Below n kid target) :
      Below (n + 1) node target

variable {kids}

theorem Below.pos {n : Nat} {node target : π} (h : Below kids n node target) : 0 < n := by
  cases h with
  | kid => exact Nat.one_pos
  | down => exact Nat.succ_pos _

/-- A node within the limit, below one of the stack. -/
def Within (kids : π → List π) (limit : Nat) (stack : List (π × Nat)) (target : π) : Prop :=
  ∃ item ∈ stack, ∃ n, Below kids n item.1 target ∧ item.2 + n ≤ limit

theorem within_cons {limit depth : Nat} {node target : π} {rest : List (π × Nat)} :
    Within kids limit ((node, depth) :: rest) target ↔
      (∃ n, Below kids n node target ∧ depth + n ≤ limit) ∨ Within kids limit rest target := by
  unfold Within
  simp only [List.exists_mem_cons_iff]

/-- A step from a node that is not at the limit. -/
theorem below_within_iff {limit depth : Nat} {node target : π} (hdepth : depth < limit) :
    (∃ n, Below kids n node target ∧ depth + n ≤ limit) ↔
      target ∈ kids node ∨ ∃ kid ∈ kids node, ∃ n, Below kids n kid target ∧ depth + 1 + n ≤ limit := by
  constructor
  · rintro ⟨n, hbelow, hn⟩
    cases hbelow with
    | kid h => exact Or.inl h
    | down h hbelow => exact Or.inr ⟨_, h, _, hbelow, by omega⟩
  · rintro (h | ⟨kid, h, n, hbelow, hn⟩)
    · exact ⟨1, .kid h, hdepth⟩
    · exact ⟨n + 1, .down h hbelow, by omega⟩

theorem mem_walkFrom {limit : Nat} {stack : List (π × Nat)} {found : List π} {target : π} :
    target ∈ walkFrom kids limit stack found ↔ target ∈ found ∨ Within kids limit stack target := by
  fun_induction walkFrom kids limit stack found with
  | case1 found => simp [Within]
  | case2 found node depth rest hlimit ih =>
    have hnone : ¬∃ n, Below kids n node target ∧ depth + n ≤ limit := by
      rintro ⟨n, hbelow, hn⟩
      have hpos := hbelow.pos
      omega
    rw [ih, within_cons, or_iff_right hnone]
  | case3 found node depth rest hlimit ih =>
    have hkids : Within kids limit (((kids node).map fun kid => (kid, depth + 1)).reverse ++ rest)
        target ↔
        (∃ kid ∈ kids node, ∃ n, Below kids n kid target ∧ depth + 1 + n ≤ limit) ∨
          Within kids limit rest target := by
      unfold Within
      simp only [List.mem_append, List.mem_reverse, List.mem_map, or_and_right, exists_or]
      refine or_congr_left ⟨?_, ?_⟩
      · rintro ⟨_, ⟨kid, hkid, rfl⟩, h⟩
        exact ⟨kid, hkid, h⟩
      · rintro ⟨kid, hkid, h⟩
        exact ⟨_, ⟨kid, hkid, rfl⟩, h⟩
    rw [ih, hkids, within_cons, below_within_iff (by omega), List.mem_append, or_assoc,
      or_assoc]

/-! ## Paths -/

variable {κ : Type} {names other : List κ → List κ}

/-- The nodes of a tree are the paths from its root, and each lists its own names. -/
def pathKids (names : List κ → List κ) (path : List κ) : List (List κ) :=
  (names path).map fun name => path ++ [name]

/-- The way down from a path is listed, name by name. -/
def Listed (names : List κ → List κ) : List κ → List κ → Prop
  | _, [] => True
  | path, name :: way => name ∈ names path ∧ Listed names (path ++ [name]) way

theorem below_iff {n : Nat} {path target : List κ} :
    Below (pathKids names) n path target ↔
      ∃ way, way ≠ [] ∧ way.length = n ∧ target = path ++ way ∧ Listed names path way := by
  constructor
  · intro h
    induction h with
    | kid h =>
      obtain ⟨name, hname, rfl⟩ := List.mem_map.mp h
      exact ⟨[name], List.cons_ne_nil _ _, rfl, rfl, hname, trivial⟩
    | down h _ ih =>
      obtain ⟨name, hname, rfl⟩ := List.mem_map.mp h
      obtain ⟨way, -, hlength, rfl, hlisted⟩ := ih
      refine ⟨name :: way, List.cons_ne_nil _ _, by rw [List.length_cons, hlength], ?_, hname, hlisted⟩
      rw [List.append_assoc, List.singleton_append]
  · rintro ⟨way, hne, rfl, rfl, hlisted⟩
    induction way generalizing path with
    | nil => exact absurd rfl hne
    | cons name way ih =>
      obtain ⟨hname, hlisted⟩ := hlisted
      have hkid : path ++ [name] ∈ pathKids names path := List.mem_map_of_mem hname
      by_cases hway : way = []
      · subst hway
        exact .kid hkid
      · have hbelow := ih hway hlisted
        rw [List.append_assoc, List.singleton_append] at hbelow
        exact .down hkid hbelow

/-- A walk from the root of a tree finds the paths that are listed, up to the limit. -/
theorem mem_walkFrom_root {limit : Nat} {found : List (List κ)} {path : List κ} :
    path ∈ walkFrom (pathKids names) limit [([], 0)] found ↔
      path ∈ found ∨ path ≠ [] ∧ path.length ≤ limit ∧ Listed names [] path := by
  rw [mem_walkFrom, Within]
  refine or_congr_right ⟨?_, ?_⟩
  · rintro ⟨item, hitem, n, hbelow, hn⟩
    rw [List.mem_singleton] at hitem
    subst hitem
    obtain ⟨way, hne, rfl, rfl, hlisted⟩ := below_iff.mp hbelow
    rw [Nat.zero_add] at hn
    exact ⟨hne, hn, hlisted⟩
  · rintro ⟨hne, hlength, hlisted⟩
    refine ⟨([], 0), List.mem_singleton_self _, path.length, below_iff.mpr ⟨path, hne, rfl, rfl, hlisted⟩, ?_⟩
    rw [Nat.zero_add]
    exact hlength

/-- Names that a walk leaves out are left out of every path. -/
theorem listed_iff {p : κ → Bool} (h : ∀ path name, name ∈ other path ↔ name ∈ names path ∧ p name = true)
    {path way : List κ} :
    Listed other path way ↔ Listed names path way ∧ ∀ name ∈ way, p name = true := by
  induction way generalizing path with
  | nil => simp [Listed]
  | cons name way ih =>
    rw [Listed, Listed, ih, h, List.forall_mem_cons]
    tauto

end DevRepro.Lib
