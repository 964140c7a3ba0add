import DevRepro.Lib.Layers
import DevRepro.Project.Policy
import DevRepro.Python.Words

/-!
# The chain of policy files

`_extends_of` and `_chain` of `project/compose.py`, over a host that resolves
paths and reads files.

`chain_breadth_first` says what the queue loop gives: it ends, it refuses exactly
the graphs that are too deep, and otherwise it lists the reachable files once
each, nearest first.  The queue holds files with several depths at once, and
`chainLoop_layer` is the step over one depth of it.
-/

namespace DevRepro.Project

open DevRepro.Python DevRepro.Lib

/-- What `read_text` and `tomllib.loads` can raise: an `OSError` or a
`TOMLDecodeError`, which the callers catch, or something else. -/
inductive ReadFailure where
  | caught (text : Str)
  | raised (exc : Exc)

/-- The file system that policies are read from.  No file changes during a
load. -/
structure PolicyHost (π : Type) where
  /-- `path.resolve()`. -/
  resolve : π → π
  /-- `(path.parent / entry).resolve()`. -/
  resolveFrom : π → Str → Except Exc π
  /-- `path / name`. -/
  child : π → Str → π
  isDir : π → Bool
  isFile : π → Bool
  /-- `tomllib.loads(path.read_text(encoding="utf-8"))`. -/
  read : π → Except ReadFailure Document
  /-- `str(path)`. -/
  str : π → Str
  /-- `path.name`. -/
  name : π → Str
  /-- `path.parent.name`. -/
  parentName : π → Str
  /-- `cwd` and its parents. -/
  ancestors : List π

def policyFilename : Str := ".devrepro.toml"

def maxPolicyDepth : Nat := 8

/-! ## The loader -/

variable {π : Type} (rt : PolicyRuntime) (host : PolicyHost π)

/-- The document of a policy file. -/
def loadDocument (path : π) : Except Failure Document :=
  match host.read path with
  | .ok data => .ok data
  | .error (.caught text) =>
    .error (.policyError (lit "Invalid policy file " ++ host.str path ++ lit ": " ++ text) none)
  | .error (.raised exc) => .error (.raised exc)

/-- The entries of a document's `extends`. -/
def extendsEntries (data : Document) : Except Failure (List Toml) :=
  match Dict.find? (lit "extends") data with
  | none => .ok []
  | some (.str s) => .ok [.str s]
  | some (.arr elems) => .ok elems
  | some _ => .error (.policyError "`extends` must be a path or a list of paths" none)

/-- One entry of the loop of `_extends_of`. -/
def resolveEntry (path : π) (entry : Toml) : Except Failure π :=
  match entry with
  | .str entry =>
    if containsText entry "://" then
      .error (.policyError (lit "`extends` may not be a URL (" ++ rt.strRepr entry ++ lit ").")
        (some <| lit "Loading a policy would become a network operation, and this " ++
          lit "tool does not use the network unless a flag says to. Vendor or " ++
          lit "sync the shared policy to a path instead."))
    else
      match host.resolveFrom path entry with
      | .error exc => .error (.raised exc)
      | .ok found =>
        let candidate := if host.isDir found then host.child found policyFilename else found
        if host.isFile candidate then .ok candidate
        else .error (.policyError
          (host.name path ++ lit " extends " ++ rt.strRepr entry ++ lit ", which does not exist.")
          (some (lit "Looked for " ++ host.str candidate ++ lit ".")))
  | _ => .error (.policyError "every `extends` entry must be a string path" none)

/-- `_extends_of`. -/
def extendsOf (path : π) : Except Failure (List π) := do
  let data ← loadDocument host path
  let entries ← extendsEntries data
  entries.mapM (resolveEntry rt host path)

/-- The error of a chain that is too deep. -/
def tooDeep : Failure :=
  .policyError (lit "`extends` chain is deeper than " ++ natStr maxPolicyDepth ++ lit " layers.")
    (some "This is usually a loop. Org, team, repo is three.")

variable [DecidableEq π]

/-- The loop of `_chain`; `none` when the fuel runs out. -/
def chainLoop : Nat → List π → List π → List (π × Nat) → Option (Except Failure (List π))
  | 0, _, _, _ => none
  | _ + 1, ordered, _, [] => some (.ok ordered)
  | fuel + 1, ordered, seen, (current, depth) :: frontier =>
    if current ∈ seen then chainLoop fuel ordered seen frontier
    else if depth ≥ maxPolicyDepth then some (.error tooDeep)
    else
      match extendsOf rt host current with
      | .error e => some (.error e)
      | .ok parents =>
        chainLoop fuel (ordered ++ [current]) (seen ++ [current])
          (frontier ++ parents.map fun parent => (parent, depth + 1))

/-- `_chain`. -/
def chain (fuel : Nat) (start : π) : Option (Except Failure (List π)) :=
  chainLoop rt host fuel [] [] [(host.resolve start, 0)]

/-- The files that a file extends; none when they do not resolve. -/
def listed (path : π) : List π :=
  match extendsOf rt host path with
  | .ok parents => parents
  | .error _ => []

/-! ## The loop, depth by depth -/

variable {rt host}

/-- More fuel changes nothing. -/
theorem chainLoop_mono {fuel more : Nat} {ordered seen : List π} {frontier : List (π × Nat)}
    {result : Except Failure (List π)}
    (h : chainLoop rt host fuel ordered seen frontier = some result) (hle : fuel ≤ more) :
    chainLoop rt host more ordered seen frontier = some result := by
  induction fuel generalizing more ordered seen frontier with
  | zero => cases h
  | succ fuel ih =>
    obtain ⟨more, rfl⟩ : ∃ m, more = m + 1 := ⟨more - 1, by omega⟩
    cases frontier with
    | nil => exact h
    | cons head frontier =>
      obtain ⟨current, depth⟩ := head
      rw [chainLoop] at h ⊢
      split_ifs at h ⊢ with hseen hdeep
      · exact ih h (by omega)
      · exact h
      · cases hext : extendsOf rt host current with
        | error e => rw [hext] at h; exact h
        | ok parents =>
          rw [hext] at h
          exact ih h (by omega)

/-- Every reachable file resolves what it extends. -/
def Resolves (rt : PolicyRuntime) (host : PolicyHost π) (start : π) : Prop :=
  ∀ p, Reachable (listed rt host) start p → ∃ parents, extendsOf rt host p = .ok parents

omit [DecidableEq π] in
theorem Resolves.extendsOf {start p : π} (h : Resolves rt host start)
    (hp : Reachable (listed rt host) start p) :
    extendsOf rt host p = .ok (listed rt host p) := by
  obtain ⟨parents, hparents⟩ := h p hp
  rw [listed, hparents]

/-- The loop over the files of one depth: it takes those that are fresh, and
queues what they extend behind what is queued already. -/
theorem chainLoop_layer {depth : Nat} (hdepth : depth < maxPolicyDepth) (fuel : Nat)
    (seen queued pending : List π)
    (hok : ∀ p ∈ fresh seen pending, extendsOf rt host p = .ok (listed rt host p)) :
    chainLoop rt host (fuel + pending.length) seen seen
        (pending.map (·, depth) ++ queued.map (·, depth + 1)) =
      chainLoop rt host fuel (seen ++ fresh seen pending) (seen ++ fresh seen pending)
        ((queued ++ (fresh seen pending).flatMap (listed rt host)).map (·, depth + 1)) := by
  induction pending generalizing seen queued with
  | nil => simp [fresh]
  | cons current rest ih =>
    rw [List.length_cons, ← Nat.add_assoc, List.map_cons, List.cons_append, chainLoop]
    rw [fresh] at hok ⊢
    by_cases hseen : current ∈ seen
    · rw [if_pos hseen] at hok ⊢
      rw [if_pos hseen]
      exact ih seen queued hok
    · rw [if_neg hseen] at hok ⊢
      rw [if_neg hseen, if_neg (by omega), hok current List.mem_cons_self]
      have hrest := ih (seen ++ [current]) (queued ++ listed rt host current)
        fun p hp => hok p (List.mem_cons_of_mem _ hp)
      simpa using hrest

/-- The loop at the greatest depth: it refuses a fresh file. -/
theorem chainLoop_last (fuel : Nat) (seen pending : List π) :
    chainLoop rt host (fuel + pending.length + 1) seen seen (pending.map (·, maxPolicyDepth)) =
      some (if fresh seen pending = [] then .ok seen else .error tooDeep) := by
  induction pending generalizing fuel with
  | nil => rfl
  | cons current rest ih =>
    rw [List.map_cons, chainLoop, fresh]
    by_cases hseen : current ∈ seen
    · rw [if_pos hseen, if_pos hseen, List.length_cons, ← Nat.add_assoc]
      exact ih fuel
    · rw [if_neg hseen, if_neg hseen, if_pos (le_refl _), if_neg (List.cons_ne_nil _ _)]

/-- After some steps, the queue holds the mentions of one depth and nothing
else. -/
theorem chainLoop_front {start : π} (h : Resolves rt host start) {n : Nat}
    (hn : n ≤ maxPolicyDepth) : ∃ steps, ∀ fuel,
      chainLoop rt host (fuel + steps) [] [] [(start, 0)] =
        chainLoop rt host fuel (front (listed rt host) start n).1
          (front (listed rt host) start n).1
          ((front (listed rt host) start n).2.map (·, n)) := by
  induction n with
  | zero => exact ⟨0, fun _ => rfl⟩
  | succ n ih =>
    obtain ⟨steps, hsteps⟩ := ih (by omega)
    refine ⟨(front (listed rt host) start n).2.length + steps, fun fuel => ?_⟩
    have hok : ∀ p ∈ layer (listed rt host) start n,
        extendsOf rt host p = .ok (listed rt host p) := fun p hp =>
      h.extendsOf ⟨n, ((mem_layer_iff _ _).mp hp).walk⟩
    have hlayer := chainLoop_layer (show n < maxPolicyDepth by omega) fuel _ [] _ hok
    rw [List.map_nil, List.append_nil, List.nil_append] at hlayer
    rw [← Nat.add_assoc, hsteps, hlayer]
    rfl

/-- What `_chain` gives, by the layers of the graph. -/
theorem chain_eq {start : π} (h : Resolves rt host (host.resolve start)) :
    ∃ enough, ∀ fuel ≥ enough, chain rt host fuel start =
      some (if layer (listed rt host) (host.resolve start) maxPolicyDepth = []
        then .ok (front (listed rt host) (host.resolve start) maxPolicyDepth).1
        else .error tooDeep) := by
  obtain ⟨steps, hsteps⟩ := chainLoop_front h (le_refl maxPolicyDepth)
  refine ⟨0 + (front (listed rt host) (host.resolve start) maxPolicyDepth).2.length + 1 + steps,
    fun fuel hfuel => chainLoop_mono ?_ hfuel⟩
  rw [hsteps]
  exact chainLoop_last 0 _ _

/-- Where every reachable file resolves what it extends, `_chain` ends.  It
refuses the graph when the shortest way to some file has `MAX_POLICY_DEPTH` steps
or more.  Otherwise it gives every reachable file once, nearest first, and files
at one distance in the order in which the files before them list them. -/
theorem chain_breadth_first (rt : PolicyRuntime) (host : PolicyHost π) (start : π)
    (h : Resolves rt host (host.resolve start)) :
    ∃ result, (∃ enough, ∀ fuel ≥ enough, chain rt host fuel start = some result) ∧
      (result = .error tooDeep ↔ ∃ p n, maxPolicyDepth ≤ n ∧
        Distance (listed rt host) (host.resolve start) n p) ∧
      (result ≠ .error tooDeep → ∃ files, result = .ok files ∧ files.Nodup ∧
        (∀ p, p ∈ files ↔ Reachable (listed rt host) (host.resolve start) p) ∧
        files.Pairwise (fun p q => ∀ i j,
          Distance (listed rt host) (host.resolve start) i p →
          Distance (listed rt host) (host.resolve start) j q → i ≤ j) ∧
        files.Pairwise fun p q => ∀ n,
          Distance (listed rt host) (host.resolve start) (n + 1) p →
          Distance (listed rt host) (host.resolve start) (n + 1) q →
          let mentions := (atDistance (listed rt host) (host.resolve start) files n).flatMap
            (listed rt host)
          mentions.idxOf p < mentions.idxOf q) := by
  obtain ⟨enough, hresult⟩ := chain_eq h
  refine ⟨_, ⟨enough, hresult⟩, ?_⟩
  by_cases hlast : layer (listed rt host) (host.resolve start) maxPolicyDepth = []
  · rw [if_pos hlast]
    refine ⟨⟨fun herr => (by cases herr), ?_⟩, fun _ => ⟨_, rfl, front_nodup _ _ _,
      fun p => mem_front_iff_reachable _ _ hlast, front_sorted _ _ _, ?_⟩⟩
    · rintro ⟨p, n, hn, hp⟩
      obtain ⟨q, hq⟩ := hp.nearer hn
      have hmem := (mem_layer_iff _ _).mpr hq
      rw [hlast] at hmem
      cases hmem
    · refine (front_ordered _ _ _).imp_of_mem fun {p q} hp _ hpq n hpn hqn => ?_
      obtain ⟨m, hm, hd⟩ := (mem_front_iff_distance _ _).mp hp
      have hmn := hd.unique hpn
      rw [atDistance_front _ _ (show n < maxPolicyDepth by omega)]
      exact hpq n hpn hqn
  · rw [if_neg hlast]
    refine ⟨⟨fun _ => ?_, fun _ => rfl⟩, fun hne => absurd rfl hne⟩
    obtain ⟨p, hp⟩ := List.exists_mem_of_ne_nil _ hlast
    exact ⟨p, maxPolicyDepth, le_refl _, (mem_layer_iff _ _).mp hp⟩

/-- Four policies, where a name is read by its length: the first two extend each
other, and the first and the third both extend the last. -/
def sampleHost : PolicyHost Nat where
  resolve := id
  resolveFrom := fun _ entry => .ok entry.length
  child := fun n _ => n
  isDir := fun _ => false
  isFile := fun _ => true
  read := fun
    | 0 => .ok [("extends", .arr [.str "a", .str "bb"])]
    | 1 => .ok [("extends", .arr [.str "", .str "ccc"])]
    | 2 => .ok [("extends", .str "ccc")]
    | _ => .ok []
  str := fun _ => []
  name := fun _ => []
  parentName := fun _ => []
  ancestors := []

theorem sampleHost_resolves (rt : PolicyRuntime) (start : Nat) :
    Resolves rt sampleHost start := by
  intro p _
  match p with
  | 0 => exact ⟨[1, 2], rfl⟩
  | 1 => exact ⟨[0, 3], rfl⟩
  | 2 => exact ⟨[3], rfl⟩
  | n + 3 => exact ⟨[], rfl⟩

/-- The loop ends on that graph, which has a cycle and a shared file. -/
theorem chain_breadth_first_cycle : ∃ result,
    (∃ enough, ∀ fuel ≥ enough, chain .standard sampleHost fuel 0 = some result) ∧
      (result = .error tooDeep ↔ ∃ p n, maxPolicyDepth ≤ n ∧
        Distance (listed .standard sampleHost) 0 n p) ∧
      (result ≠ .error tooDeep → ∃ files, result = .ok files ∧ files.Nodup ∧
        ∀ p, p ∈ files ↔ Reachable (listed .standard sampleHost) 0 p) := by
  obtain ⟨result, hends, hdeep, hfiles⟩ :=
    chain_breadth_first .standard sampleHost 0 (sampleHost_resolves .standard 0)
  refine ⟨result, hends, hdeep, fun hne => ?_⟩
  obtain ⟨files, hok, hnodup, hmem, -, -⟩ := hfiles hne
  exact ⟨files, hok, hnodup, hmem⟩

example : chain .standard sampleHost 9 0 = some (.ok [0, 1, 2, 3]) := rfl

end DevRepro.Project
