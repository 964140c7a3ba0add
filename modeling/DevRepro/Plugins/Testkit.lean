import DevRepro.Lib.Layers
import DevRepro.Python.Json
import DevRepro.Python.Words

/-!
# Side effects of a rule pack

`check_pack_source` of `plugins/testkit.py` walks the syntax tree of a pack and compares the names
of imports and calls, as they are written, with those of `MUTATING_CALLS`.  What a call denotes
hangs on the imports of the module: `side_effects_seen_iff` says for which trees the two agree.
-/

namespace DevRepro.Plugins

open DevRepro.Python
open DevRepro.Lib.BreadthFirst (walkFrom Within within_iff mem_walkFrom)

/-! ## Syntax trees -/

/-- An `ast.alias`. -/
structure Alias where
  name : Str
  asname : Option Str

/-- A node of the syntax tree with what the check looks at. -/
inductive Node where
  | importNames (line : Nat) (names : List Alias)
  | importFrom (line : Nat) (module : Option Str) (names : List Alias) (level : Nat)
  | call (line : Nat) (func : Node) (args : List Node)
  | name (id : Str)
  | attr (value : Node) (name : Str)
  | other (children : List Node)

namespace Node

/-- `ast.iter_child_nodes(node)`, those that are such nodes. -/
def children : Node → List Node
  | importNames _ _ => []
  | importFrom _ _ _ _ => []
  | call _ func args => func :: args
  | name _ => []
  | attr value _ => [value]
  | other children => children

mutual

/-- How many nodes there are. -/
def size : Node → Nat
  | importNames _ _ => 1
  | importFrom _ _ _ _ => 1
  | call _ func args => 1 + (func.size + sizes args)
  | name _ => 1
  | attr value _ => 1 + value.size
  | other children => 1 + sizes children

def sizes : List Node → Nat
  | [] => 0
  | node :: rest => node.size + sizes rest

end

/-- `ast.walk(tree)`. -/
def walk (tree : Node) : List Node := walkFrom children tree.size [tree]

end Node

/-! ## The check -/

/-- `MUTATING_CALLS` -/
def mutatingCalls : List (Str × Str) :=
  [("subprocess", "A rule pack receives state; it does not run commands. Use ctx.runner."),
    ("os.system", "Same: the context carries a runner whose output is recorded and sanitized."),
    ("open", "Writing files breaks the read-only guarantee the whole tool rests on."),
    ("Path.write_text", "Writing files breaks the read-only guarantee."),
    ("Path.mkdir", "Creating directories is a side effect a scan must not have."),
    ("shutil", "Copying, moving and removing are all side effects."),
    ("socket", "A rule pack must not open a connection; network checks are opt-in elsewhere."),
    ("urllib.request", "Same: nothing in a scan reaches the network unless a flag asked."),
    ("requests", "Same, and it would add a dependency to every user of this pack.")]

structure PackProblem where
  kind : Str
  detail : Str
  location : Str

def dot : CodePoint := codePoint '.'

/-- `name == marker or name.startswith(marker + ".")` -/
def isUnder (marker name : Str) : Bool := decide (name = marker) || startsWith name (marker ++ lit ".")

/-- `f"{marker}: {reason}"` -/
def detailOf (item : Str × Str) : Str := item.1 ++ lit ": " ++ item.2

def locationOf (location : Str) (line : Nat) : Str :=
  if location ≠ [] then location ++ lit ":" ++ natStr line else lit "line " ++ natStr line

/-- The problems so far, and the markers they are about. -/
structure CheckState where
  problems : List PackProblem
  seen : List Str

/-- One round of the loop of `flag`. -/
def flagMarker (location name : Str) (line : Nat) (st : CheckState) (item : Str × Str) : CheckState :=
  if isUnder item.1 name && decide (item.1 ∉ st.seen) then
    { problems := st.problems ++ [⟨"side-effect", detailOf item, locationOf location line⟩]
      seen := st.seen ++ [item.1] }
  else st

/-- `flag`. -/
def flag (location : Str) (st : CheckState) (found : Str × Nat) : CheckState :=
  mutatingCalls.foldl (flagMarker location found.1 found.2) st

/-- `_call_name`. -/
def callName : Node → Str
  | .name id => id
  | .attr value name => (callName value ++ lit "." ++ name).dropWhile fun c => c = dot
  | _ => []

/-- The names that are flagged at a node. -/
def writtenNames : Node → List (Str × Nat)
  | .importNames line names => names.map fun item => (item.name, line)
  | .importFrom line (some module) _ _ => if module ≠ [] then [(module, line)] else []
  | .call line func _ => [(callName func, line)]
  | _ => []

/-- `check_pack_source`, behind `ast.parse`. -/
def checkTree (location : Str) (tree : Node) : List PackProblem :=
  ((tree.walk.flatMap writtenNames).foldl (flag location) ⟨[], []⟩).problems

/-- `check_pack_source`; the text of a `SyntaxError` where there is no tree. -/
def checkPackSource (parse : Str → Except Str Node) (source location : Str) : List PackProblem :=
  match parse source with
  | .error text => [⟨"unparseable", lit "the pack does not parse: " ++ text, location⟩]
  | .ok tree => checkTree location tree

/-! ## What names denote -/

def notDot (c : CodePoint) : Bool := decide (c ≠ dot)

/-- The first component of a dotted name. -/
def firstPart (s : Str) : Str := s.takeWhile notDot

/-- The module of a from-import, with the dots of a relative one, as one without a name is. -/
def fromModule : Option Str → Nat → Str
  | some module, level => List.replicate level dot ++ (module ++ lit ".")
  | none, level => List.replicate (max 1 level) dot

/-- An import of the module gives a name its meaning. -/
inductive Binds (tree : Node) : Str → Str → Prop where
  | plain {line names} {item : Alias} (hin : Within Node.children tree (.importNames line names))
      (hitem : item ∈ names) (hname : item.asname = none) :
      Binds tree (firstPart item.name) (firstPart item.name)
  | renamed {line names id} {item : Alias}
      (hin : Within Node.children tree (.importNames line names)) (hitem : item ∈ names)
      (hname : item.asname = some id) : Binds tree id item.name
  | member {line module names level} {item : Alias}
      (hin : Within Node.children tree (.importFrom line module names level)) (hitem : item ∈ names) :
      Binds tree (item.asname.getD item.name) (fromModule module level ++ item.name)

/-- The class of `pathlib` goes by its own name. -/
def canonical (target : Str) : Str := if target = lit "pathlib.Path" then "Path" else target

/-- What an expression denotes: a name that no import binds denotes itself, and a method of a
`Path(...)` is one of the class. -/
inductive Denotes (tree : Node) : Node → Str → Prop where
  | bound {id target} (h : Binds tree id target) : Denotes tree (.name id) (canonical target)
  | unbound {id} (h : ∀ target, ¬Binds tree id target) : Denotes tree (.name id) id
  | attr {value name target} (h : Denotes tree value target) :
      Denotes tree (.attr value name) (canonical (target ++ lit "." ++ name))
  | method {line func args name} (h : Denotes tree func "Path") :
      Denotes tree (.attr (.call line func args) name) (lit "Path." ++ name)

/-- A call of the module denotes the marker's function, or one below it. -/
def CallDenotes (tree : Node) (marker : Str) : Prop :=
  ∃ line func args target, Within Node.children tree (.call line func args) ∧
    Denotes tree func target ∧ isUnder marker target = true

/-- An import of the module is of the marker, or of something below it. -/
inductive ImportDenotes (tree : Node) (marker : Str) : Prop where
  | names {line names} {item : Alias} (hin : Within Node.children tree (.importNames line names))
      (hitem : item ∈ names) (hunder : isUnder marker item.name = true)
  | module {line m names} (hin : Within Node.children tree (.importFrom line (some m) names 0))
      (hunder : isUnder marker m = true)
  | member {line m names} {item : Alias}
      (hin : Within Node.children tree (.importFrom line (some m) names 0)) (hitem : item ∈ names)
      (hunder : isUnder marker (m ++ lit "." ++ item.name) = true)

/-- A problem is reported for the marker. -/
def Reports (problems : List PackProblem) (item : Str × Str) : Prop :=
  ∃ p ∈ problems, p.detail = detailOf item

/-- The marker of each call is reported, and a module that none is of is clean. -/
structure SideEffectsSeen (location : Str) (tree : Node) : Prop where
  reported : ∀ item ∈ mutatingCalls, CallDenotes tree item.1 → Reports (checkTree location tree) item
  clean : (∀ item ∈ mutatingCalls, ¬ImportDenotes tree item.1 ∧ ¬CallDenotes tree item.1) →
    checkTree location tree = []

/-- A name under the marker is written in an import or a call. -/
def Written (tree : Node) (marker : Str) : Prop :=
  ∃ node, Within Node.children tree node ∧ ∃ found ∈ writtenNames node, isUnder marker found.1 = true

/-- The markers with a dot that calls denote are written out, and where nothing is denoted, none is. -/
structure WrittenOut (tree : Node) : Prop where
  dotted : ∀ item ∈ mutatingCalls, dot ∈ item.1 → CallDenotes tree item.1 → Written tree item.1
  denoted : ∀ item ∈ mutatingCalls, Written tree item.1 →
    ∃ other ∈ mutatingCalls, ImportDenotes tree other.1 ∨ CallDenotes tree other.1

/-! ## The walk -/

theorem sizes_eq (nodes : List Node) : Node.sizes nodes = (nodes.map Node.size).sum := by
  induction nodes with
  | nil => rfl
  | cons node rest ih => rw [Node.sizes, ih, List.map_cons, List.sum_cons]

theorem sum_children_lt (node : Node) : (node.children.map Node.size).sum < node.size := by
  cases node with
  | importNames line names => simp [Node.children, Node.size]
  | importFrom line module names level => simp [Node.children, Node.size]
  | call line func args =>
    rw [Node.children, Node.size, List.map_cons, List.sum_cons, sizes_eq]
    omega
  | name id => simp [Node.children, Node.size]
  | attr value name => simp [Node.children, Node.size]
  | other children =>
    rw [Node.children, Node.size, sizes_eq]
    omega

theorem mem_walk {tree node : Node} : node ∈ tree.walk ↔ Within Node.children tree node := by
  have hfuel : (([tree] : List Node).map Node.size).sum ≤ tree.size := by simp
  rw [Node.walk, mem_walkFrom sum_children_lt hfuel]
  simp

theorem written_iff {tree : Node} {marker : Str} :
    Written tree marker ↔
      ∃ found ∈ tree.walk.flatMap writtenNames, isUnder marker found.1 = true := by
  constructor
  · rintro ⟨node, hin, found, hfound, hunder⟩
    exact ⟨found, List.mem_flatMap.mpr ⟨node, mem_walk.mpr hin, hfound⟩, hunder⟩
  · rintro ⟨found, hfound, hunder⟩
    obtain ⟨node, hnode, hmem⟩ := List.mem_flatMap.mp hfound
    exact ⟨node, mem_walk.mp hnode, found, hmem, hunder⟩

/-! ## What is reported -/

theorem mutatingCalls_nodup : (mutatingCalls.map Prod.fst).Nodup := by decide

theorem marker_plain {item : Str × Str} (h : item ∈ mutatingCalls) :
    codePoint ':' ∉ item.1 ∧ item.1 ≠ [] ∧ item.1 ≠ lit "Path" := by
  have hall : (mutatingCalls.all fun item =>
      item.1.all (fun c => c != codePoint ':') && decide (item.1 ≠ []) &&
        decide (item.1 ≠ lit "Path")) = true := by decide
  have hitem := List.all_eq_true.mp hall item h
  simp only [Bool.and_eq_true, decide_eq_true_eq] at hitem
  refine ⟨fun hin => ?_, hitem.1.2, hitem.2⟩
  simpa using List.all_eq_true.mp hitem.1.1 _ hin

/-- A text about a marker is about no other. -/
theorem detailOf_inj {item other : Str × Str} (hitem : item ∈ mutatingCalls)
    (hother : other ∈ mutatingCalls) (h : detailOf item = detailOf other) : item = other := by
  have hmarker : ∀ i ∈ mutatingCalls, (detailOf i).takeWhile (fun c => c != codePoint ':') = i.1 := by
    intro i hi
    have hall : ∀ c ∈ i.1, (c != codePoint ':') = true := fun c hc =>
      bne_iff_ne.mpr fun heq => (marker_plain hi).1 (heq ▸ hc)
    rw [detailOf, List.append_assoc, List.takeWhile_append_of_pos hall]
    exact List.append_nil _
  have hfirst := (hmarker item hitem).symm.trans ((congrArg _ h).trans (hmarker other hother))
  exact List.inj_on_of_nodup_map mutatingCalls_nodup hitem hother hfirst

/-- The problems are those of the markers that were seen. -/
structure Consistent (st : CheckState) : Prop where
  reported : ∀ item ∈ mutatingCalls, item.1 ∈ st.seen → Reports st.problems item
  about : ∀ p ∈ st.problems, ∃ item ∈ mutatingCalls, p.detail = detailOf item ∧ item.1 ∈ st.seen

variable {location : Str} {st : CheckState}

theorem flagMarker_seen {name : Str} {line : Nat} {item : Str × Str} {marker : Str} :
    marker ∈ (flagMarker location name line st item).seen ↔
      marker ∈ st.seen ∨ marker = item.1 ∧ isUnder item.1 name = true := by
  rw [flagMarker]
  split_ifs with h
  · rw [Bool.and_eq_true] at h
    rw [List.mem_append, List.mem_singleton, and_iff_left h.1]
  · refine ⟨Or.inl, ?_⟩
    rintro (hin | ⟨rfl, hunder⟩)
    · exact hin
    · by_contra hnot
      rw [hunder, decide_eq_true hnot] at h
      exact h rfl

theorem Consistent.flagMarker (h : Consistent st) {name : Str} {line : Nat} {item : Str × Str}
    (hitem : item ∈ mutatingCalls) : Consistent (flagMarker location name line st item) := by
  rw [Plugins.flagMarker]
  split_ifs
  · constructor
    · intro other hother hin
      rcases List.mem_append.mp hin with hin | hin
      · obtain ⟨p, hp, hdetail⟩ := h.reported other hother hin
        exact ⟨p, List.mem_append_left _ hp, hdetail⟩
      · have hsame := List.inj_on_of_nodup_map mutatingCalls_nodup hother hitem
          (List.mem_singleton.mp hin)
        exact ⟨_, List.mem_append_right _ List.mem_cons_self, by rw [hsame]⟩
    · intro p hp
      rcases List.mem_append.mp hp with hp | hp
      · obtain ⟨other, hother, hdetail, hin⟩ := h.about p hp
        exact ⟨other, hother, hdetail, List.mem_append_left _ hin⟩
      · rw [List.mem_singleton.mp hp]
        exact ⟨item, hitem, rfl, List.mem_append_right _ List.mem_cons_self⟩
  · exact h

/-- The markers of one name. -/
theorem foldl_flagMarker {name : Str} {line : Nat} {items : List (Str × Str)}
    (hitems : ∀ item ∈ items, item ∈ mutatingCalls) (h : Consistent st) :
    Consistent (items.foldl (flagMarker location name line) st) ∧
      ∀ marker, marker ∈ (items.foldl (flagMarker location name line) st).seen ↔
        marker ∈ st.seen ∨ ∃ item ∈ items, marker = item.1 ∧ isUnder item.1 name = true := by
  induction items generalizing st with
  | nil => exact ⟨h, fun marker => by simp⟩
  | cons item items ih =>
    rw [List.forall_mem_cons] at hitems
    obtain ⟨hcons, hseen⟩ := ih hitems.2 (h.flagMarker hitems.1)
    refine ⟨hcons, fun marker => (hseen marker).trans ?_⟩
    rw [flagMarker_seen, or_assoc, List.exists_mem_cons_iff]

/-- The markers of the names, one after the other. -/
theorem foldl_flag {founds : List (Str × Nat)} (h : Consistent st) :
    Consistent (founds.foldl (flag location) st) ∧
      ∀ item ∈ mutatingCalls, (item.1 ∈ (founds.foldl (flag location) st).seen ↔
        item.1 ∈ st.seen ∨ ∃ found ∈ founds, isUnder item.1 found.1 = true) := by
  induction founds generalizing st with
  | nil => exact ⟨h, fun item _ => by simp⟩
  | cons found founds ih =>
    have hone := @foldl_flagMarker location st found.1 found.2 mutatingCalls (fun _ hi => hi) h
    obtain ⟨hcons, hseen⟩ := ih hone.1
    refine ⟨hcons, fun item hitem => ((hseen item hitem).trans (or_congr_left (hone.2 item.1))).trans ?_⟩
    rw [or_assoc, List.exists_mem_cons_iff]
    refine or_congr_right (or_congr_left ⟨?_, fun hunder => ⟨item, hitem, rfl, hunder⟩⟩)
    rintro ⟨other, -, hname, hunder⟩
    rwa [← hname] at hunder

theorem checkTree_spec (location : Str) (tree : Node) : ∃ st : CheckState,
    checkTree location tree = st.problems ∧ Consistent st ∧
      ∀ item ∈ mutatingCalls, (item.1 ∈ st.seen ↔ Written tree item.1) := by
  have hstart : Consistent ⟨[], []⟩ :=
    ⟨fun _ _ hin => absurd hin List.not_mem_nil, fun _ hp => absurd hp List.not_mem_nil⟩
  obtain ⟨hcons, hseen⟩ := @foldl_flag location _ (tree.walk.flatMap writtenNames) hstart
  refine ⟨_, rfl, hcons, fun item hitem => (hseen item hitem).trans ?_⟩
  rw [written_iff]
  exact or_iff_right List.not_mem_nil

/-- A marker is reported exactly when a name under it is written. -/
theorem reports_iff {tree : Node} {item : Str × Str} (hitem : item ∈ mutatingCalls) :
    Reports (checkTree location tree) item ↔ Written tree item.1 := by
  obtain ⟨st, hproblems, hcons, hseen⟩ := checkTree_spec location tree
  rw [hproblems, ← hseen item hitem]
  constructor
  · rintro ⟨p, hp, hdetail⟩
    obtain ⟨other, hother, hdetail', hin⟩ := hcons.about p hp
    rwa [detailOf_inj hitem hother (hdetail.symm.trans hdetail')]
  · exact hcons.reported item hitem

theorem checkTree_eq_nil_iff {tree : Node} :
    checkTree location tree = [] ↔ ∀ item ∈ mutatingCalls, ¬Written tree item.1 := by
  constructor
  · intro hnil item hitem hwritten
    obtain ⟨p, hp, -⟩ := (@reports_iff location tree item hitem).mpr hwritten
    rw [hnil] at hp
    cases hp
  · intro hnone
    obtain ⟨st, hproblems, hcons, hseen⟩ := checkTree_spec location tree
    rw [hproblems, List.eq_nil_iff_forall_not_mem]
    intro p hp
    obtain ⟨item, hitem, -, hin⟩ := hcons.about p hp
    exact hnone item hitem ((hseen item hitem).mp hin)

/-! ## Markers without a dot -/

section Undotted

variable {tree : Node} {marker : Str}

theorem notDot_of_not_mem {s : Str} (h : dot ∉ s) : ∀ c ∈ s, notDot c = true := fun _ hc =>
  decide_eq_true fun heq => h (heq ▸ hc)

theorem firstPart_append_dot (s rest : Str) : firstPart (s ++ lit "." ++ rest) = firstPart s := by
  induction s with
  | nil => rfl
  | cons c s ih =>
    by_cases hc : notDot c = true
    · rw [firstPart, firstPart, List.cons_append, List.cons_append, List.takeWhile_cons_of_pos hc,
        List.takeWhile_cons_of_pos hc]
      exact congrArg (c :: ·) ih
    · rw [firstPart, firstPart, List.cons_append, List.cons_append, List.takeWhile_cons_of_neg hc,
        List.takeWhile_cons_of_neg hc]

/-- A name is under a marker without a dot when the marker is its first component. -/
theorem isUnder_iff_firstPart (hmarker : dot ∉ marker) {name : Str} :
    isUnder marker name = true ↔ firstPart name = marker := by
  have hself : firstPart marker = marker :=
    List.takeWhile_eq_self_iff.mpr (notDot_of_not_mem hmarker)
  rw [isUnder, Bool.or_eq_true, decide_eq_true_eq, startsWith, List.isPrefixOf_iff_prefix]
  constructor
  · rintro (rfl | ⟨rest, rfl⟩)
    · exact hself
    · rw [firstPart_append_dot, hself]
  · intro hfirst
    have hsplit : firstPart name ++ name.dropWhile notDot = name := List.takeWhile_append_dropWhile
    rw [hfirst] at hsplit
    cases hrest : name.dropWhile notDot with
    | nil =>
      rw [hrest, List.append_nil] at hsplit
      exact Or.inl hsplit.symm
    | cons c rest =>
      have hc := List.head?_dropWhile_not notDot name
      rw [hrest] at hc
      change notDot c = false at hc
      have hdot : c = dot := by simpa [notDot] using hc
      refine Or.inr ⟨rest, ?_⟩
      rw [hrest, hdot] at hsplit
      rw [← hsplit, List.append_assoc]
      rfl

theorem firstPart_canonical {target : Str} (hne : marker ≠ lit "Path")
    (h : firstPart (canonical target) = marker) : canonical target = target := by
  rw [canonical] at h ⊢
  split_ifs at h ⊢
  · exact absurd h.symm hne
  · rfl

/-- An import that makes a name begin with the marker is of the marker. -/
theorem written_of_binds (hmarker : dot ∉ marker) (hne : marker ≠ []) {id target : Str}
    (hbinds : Binds tree id target) (hfirst : firstPart target = marker) : Written tree marker := by
  cases hbinds with
  | @plain line names item hin hitem hname =>
    have hidem : firstPart (firstPart item.name) = firstPart item.name := List.takeWhile_idem
    refine ⟨_, hin, (item.name, line), List.mem_map.mpr ⟨item, hitem, rfl⟩, ?_⟩
    rwa [isUnder_iff_firstPart hmarker, ← hidem]
  | @renamed line names _ item hin hitem hname =>
    refine ⟨_, hin, (item.name, line), List.mem_map.mpr ⟨item, hitem, rfl⟩, ?_⟩
    rwa [isUnder_iff_firstPart hmarker]
  | @member line module names level item hin hitem =>
    -- A relative import begins with a dot.
    have hrelative : ∀ s : Str, firstPart (dot :: s) ≠ marker := fun s h => hne h.symm
    cases module with
    | none =>
      rw [fromModule, Nat.max_comm, ← Nat.succ_pred_eq_of_pos (Nat.lt_of_lt_of_le Nat.zero_lt_one
        (Nat.le_max_right level 1)), List.replicate_succ] at hfirst
      exact absurd hfirst (hrelative _)
    | some m =>
      cases level with
      | succ level =>
        rw [fromModule, List.replicate_succ] at hfirst
        exact absurd hfirst (hrelative _)
      | zero =>
        have hm : firstPart m = marker := by
          rw [fromModule, List.replicate_zero, List.nil_append, firstPart_append_dot] at hfirst
          exact hfirst
        have hmne : m ≠ [] := by
          rintro rfl
          exact hne hm.symm
        refine ⟨_, hin, (m, line), ?_, (isUnder_iff_firstPart hmarker).mpr hm⟩
        rw [writtenNames, if_pos hmne]
        exact List.mem_cons_self

/-- An expression that denotes something under the marker is written so, or through an import of it. -/
theorem callName_of_denotes (hmarker : dot ∉ marker) (hne : marker ≠ []) (hpath : marker ≠ lit "Path")
    {func : Node} {target : Str} (hdenotes : Denotes tree func target)
    (hfirst : firstPart target = marker) : callName func = target ∨ Written tree marker := by
  induction hdenotes with
  | bound hbinds =>
    rw [firstPart_canonical hpath hfirst] at hfirst
    exact Or.inr (written_of_binds hmarker hne hbinds hfirst)
  | unbound _ => exact Or.inl rfl
  | @attr value name target hvalue ih =>
    have hsame := firstPart_canonical hpath hfirst
    rw [hsame, firstPart_append_dot] at hfirst
    rw [hsame]
    refine (ih hfirst).imp_left fun hname => ?_
    rw [callName, hname]
    cases target with
    | nil => exact absurd hfirst.symm hne
    | cons c rest =>
      have hc : c ≠ dot := by
        rintro rfl
        exact hne hfirst.symm
      exact List.dropWhile_cons_of_neg (by simpa using hc)
  | @method line func args name hfunc _ =>
    have hp : firstPart (lit "Path." ++ name) = lit "Path" := firstPart_append_dot "Path" name
    exact absurd (hfirst.symm.trans hp) hpath

/-- The markers without a dot are never missed. -/
theorem written_of_undotted {item : Str × Str} (hitem : item ∈ mutatingCalls) (hdot : dot ∉ item.1)
    (h : CallDenotes tree item.1) : Written tree item.1 := by
  obtain ⟨line, func, args, target, hin, hdenotes, hunder⟩ := h
  have hfirst := (isUnder_iff_firstPart hdot).mp hunder
  have hplain := marker_plain hitem
  rcases callName_of_denotes hdot hplain.2.1 hplain.2.2 hdenotes hfirst with hname | hwritten
  · exact ⟨_, hin, (callName func, line), List.mem_cons_self, by rw [hname]; exact hunder⟩
  · exact hwritten

end Undotted

/-- The check is right exactly for the modules that write out what they call. -/
theorem side_effects_seen_iff (location : Str) (tree : Node) :
    SideEffectsSeen location tree ↔ WrittenOut tree := by
  constructor
  · intro h
    constructor
    · intro item hitem _ hcall
      exact (reports_iff hitem).mp (h.reported item hitem hcall)
    · intro item hitem hwritten
      by_contra hnone
      have hclean := h.clean fun other hother =>
        ⟨fun himport => hnone ⟨other, hother, Or.inl himport⟩,
          fun hcall => hnone ⟨other, hother, Or.inr hcall⟩⟩
      exact checkTree_eq_nil_iff.mp hclean item hitem hwritten
  · intro h
    constructor
    · intro item hitem hcall
      refine (reports_iff hitem).mpr ?_
      by_cases hdot : dot ∈ item.1
      · exact h.dotted item hitem hdot hcall
      · exact written_of_undotted hitem hdot hcall
    · intro hnone
      refine checkTree_eq_nil_iff.mpr fun item hitem hwritten => ?_
      obtain ⟨other, hother, hdenoted⟩ := h.denoted item hitem hwritten
      exact hdenoted.elim (hnone other hother).1 (hnone other hother).2

/-! ## Examples -/

namespace Sample

/-- `from os import system`, and a call of it. -/
def importLine : Node := .importFrom 1 (some "os") [⟨"system", none⟩] 0

def callLine : Node := .call 2 (.name "system") []

def module : Node := .other [importLine, .other [callLine]]

theorem importLine_within : Within Node.children module importLine :=
  Relation.ReflTransGen.single List.mem_cons_self

theorem callLine_within : Within Node.children module callLine :=
  (Relation.ReflTransGen.single (show Node.other [callLine] ∈ module.children by
    simp [module, Node.children])).tail List.mem_cons_self

end Sample

/-- A function that is imported by its name is not seen. -/
theorem imported_function_missed : CallDenotes Sample.module "os.system" ∧
    checkTree "pack.py" Sample.module = [] := by
  have hbinds : Binds Sample.module "system" "os.system" :=
    Binds.member Sample.importLine_within List.mem_cons_self
  refine ⟨⟨2, .name "system", [], canonical "os.system", Sample.callLine_within, .bound hbinds, ?_⟩, ?_⟩
  · decide
  · rfl

end DevRepro.Plugins
