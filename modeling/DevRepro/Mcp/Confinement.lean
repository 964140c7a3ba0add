import DevRepro.Mcp.Protocol

/-!
# Confinement to the root

`resolve_within` when `Path.resolve` is lexical, so that there are no links: an
empty part and a dot stay where they are, two dots go to the parent, and any
other part goes into it.  `walk` says so for the parts of a text, which may leave
the root and come back to it any number of times.  Only where the walk ends
matters (`resolveWithin_confined`), and a tool never sees another directory.
-/

namespace DevRepro.Mcp

open DevRepro.Python

/-! ## Lexical paths -/

/-- Where one part of a path leads. -/
def enter (here : List Str) (part : Str) : List Str :=
  if part = lit ".." then here.dropLast else here ++ [part]

/-- `Path.resolve` without links, below a working directory. -/
def lexicalResolve (cwd : List Str) (p : Path) : Except Exc Path :=
  .ok ⟨[codePoint '/'], p.parts.foldl enter (if p.isAbsolute then [] else cwd)⟩

/-- Where the parts of a text lead. -/
def walk : List Str → List Str → List Str
  | here, [] => here
  | here, part :: rest =>
    if part = [] ∨ part = lit "." then walk here rest
    else if part = lit ".." then walk here.dropLast rest
    else walk (here ++ [part]) rest

/-- Where a text leads from a directory. -/
def destination (base : List Str) (text : Str) : List Str :=
  walk (if text.head? = some (codePoint '/') then [] else base) (text.splitOn (codePoint '/'))

/-- The parts of the root of a server. -/
def ServerConfig.base (config : ServerConfig) : List Str := config.root.parts.foldl enter []

/-- A path is parsed into the parts that lead somewhere. -/
theorem walk_eq_foldl (here parts : List Str) :
    walk here parts = (parts.filter fun part => part ≠ [] ∧ part ≠ lit ".").foldl enter here := by
  induction parts generalizing here with
  | nil => rfl
  | cons part rest ih =>
    rw [walk]
    by_cases hskip : part = [] ∨ part = lit "."
    · have hout : ¬(decide (part ≠ [] ∧ part ≠ lit ".") = true) := by
        rw [decide_eq_true_iff]
        exact fun hkeep => hskip.elim hkeep.1 hkeep.2
      rw [if_pos hskip, List.filter_cons, if_neg hout]
      exact ih here
    · have hin : decide (part ≠ [] ∧ part ≠ lit ".") = true := decide_eq_true (not_or.mp hskip)
      rw [if_neg hskip, List.filter_cons, if_pos hin, List.foldl_cons, enter]
      by_cases hup : part = lit ".."
      · rw [if_pos hup, if_pos hup]
        exact ih _
      · rw [if_neg hup, if_neg hup]
        exact ih _

theorem takeWhile_slashes (text : Str) :
    (text.takeWhile (· = codePoint '/')).length = 0 ↔ text.head? ≠ some (codePoint '/') := by
  cases text with
  | nil => simp
  | cons c rest =>
    by_cases hslash : c = codePoint '/'
    · simp [hslash]
    · simp [hslash]

theorem parse_isAbsolute (text : Str) :
    (Path.parse text).isAbsolute = decide (text.head? = some (codePoint '/')) := by
  rw [Path.isAbsolute, Path.parse]
  dsimp only
  by_cases habsolute : text.head? = some (codePoint '/')
  · have hsome := (takeWhile_slashes text).not.mpr (not_not.mpr habsolute)
    rw [if_neg hsome, habsolute]
    split_ifs
    · rfl
    · rfl
  · rw [if_pos ((takeWhile_slashes text).mpr habsolute)]
    simp [habsolute]

/-! ## Resolved paths -/

/-- No part goes up. -/
def Resolved (parts : List Str) : Prop := ∀ part ∈ parts, part ≠ lit ".."

theorem Resolved.enter {here : List Str} (h : Resolved here) (part : Str) :
    Resolved (enter here part) := by
  intro other hother
  rw [Mcp.enter] at hother
  by_cases hup : part = lit ".."
  · rw [if_pos hup] at hother
    exact h other (List.mem_of_mem_dropLast hother)
  · rw [if_neg hup, List.mem_append, List.mem_singleton] at hother
    rcases hother with hold | hnew
    · exact h other hold
    · rw [hnew]
      exact hup

theorem resolved_foldl {here : List Str} (h : Resolved here) (parts : List Str) :
    Resolved (parts.foldl enter here) := by
  induction parts generalizing here with
  | nil => exact h
  | cons part rest ih => exact ih (h.enter part)

/-- Parts that do not go up lead into each other. -/
theorem foldl_enter_resolved {parts : List Str} (h : Resolved parts) (here : List Str) :
    parts.foldl enter here = here ++ parts := by
  induction parts generalizing here with
  | nil => exact (List.append_nil here).symm
  | cons part rest ih =>
    have hstep : enter here part = here ++ [part] := if_neg (h part List.mem_cons_self)
    rw [List.foldl_cons, hstep, ih fun other hother => h other (List.mem_cons_of_mem _ hother),
      List.append_assoc]
    rfl

theorem base_resolved (config : ServerConfig) : Resolved config.base :=
  resolved_foldl (fun _ hpart => absurd hpart List.not_mem_nil) _

/-- A candidate is resolved to where its parts lead. -/
theorem lexicalResolve_join (config : ServerConfig) (cwd : List Str) (text : Str) :
    lexicalResolve cwd (Path.join ⟨[codePoint '/'], config.base⟩ (.parse text)) =
      .ok ⟨[codePoint '/'], destination config.base text⟩ := by
  have hslash : (⟨[codePoint '/'], config.base ++ (Path.parse text).parts⟩ : Path).isAbsolute = true :=
    rfl
  rw [lexicalResolve, Path.join, parse_isAbsolute, destination, walk_eq_foldl]
  by_cases habsolute : text.head? = some (codePoint '/')
  · rw [if_pos (decide_eq_true habsolute), if_pos habsolute, parse_isAbsolute,
      if_pos (decide_eq_true habsolute)]
    rfl
  · have hnot : ¬(decide (text.head? = some (codePoint '/')) = true) := by
      rwa [decide_eq_true_iff]
    rw [if_neg hnot, if_neg habsolute, if_pos hslash, List.foldl_append,
      foldl_enter_resolved (base_resolved config)]
    rfl

/-! ## Confinement -/

/-- The parents of a path are the paths that are shorter and agree with it. -/
theorem mem_parents_iff {root : Str} {base target : List Str} :
    (⟨root, base⟩ : Path) ∈ Path.parents ⟨root, target⟩ ↔ base <+: target ∧ base ≠ target := by
  rw [Path.parents, List.mem_map]
  constructor
  · rintro ⟨n, hn, heq⟩
    rw [List.mem_reverse, List.mem_range] at hn
    have hparts : target.take n = base := congrArg Path.parts heq
    refine ⟨hparts ▸ List.take_prefix n target, fun hsame => ?_⟩
    have hlength := congrArg List.length (hparts.trans hsame)
    rw [List.length_take] at hlength
    have : n < target.length := hn
    omega
  · rintro ⟨hstart, hne⟩
    refine ⟨base.length, ?_, ?_⟩
    · rw [List.mem_reverse, List.mem_range]
      rcases Nat.lt_or_eq_of_le hstart.length_le with hlt | heq
      · exact hlt
      · exact absurd (hstart.eq_of_length heq) hne
    · rw [← List.prefix_iff_eq_take.mp hstart]

variable {Time : Type}

/-- The surroundings of a request whose paths have no links. -/
def Env.withoutLinks (env : Env Time) (cwd : List Str) : Env Time :=
  { env with resolve := lexicalResolve cwd }

/-- A path argument is confined to the root: what lies outside is refused, and only that. -/
structure Confined (package : Package) (config : ServerConfig) (env : Env Time)
    (cwd : List Str) : Prop where
  missing : resolveWithin package config (env.withoutLinks cwd) none =
    .ok ⟨[codePoint '/'], config.base⟩
  /-- The root, and what has its parts as a proper prefix. -/
  inside : ∀ text, destination config.base text = config.base ∨
      config.base <+: destination config.base text ∧
        config.base ≠ destination config.base text →
    resolveWithin package config (env.withoutLinks cwd) (some text) =
      .ok ⟨[codePoint '/'], destination config.base text⟩
  outside : ∀ text, ¬(destination config.base text = config.base ∨
      config.base <+: destination config.base text ∧
        config.base ≠ destination config.base text) →
    ∃ message data, resolveWithin package config (env.withoutLinks cwd) (some text) =
      .error (.mcp ⟨confinementError, message, data⟩)
  /-- A directory beside the root, whose name goes on where the name of the root ends. -/
  sibling : ∀ text parent name more below, config.base = parent ++ [name] → more ≠ [] →
    destination config.base text = parent ++ (name ++ more) :: below →
    ∃ message data, resolveWithin package config (env.withoutLinks cwd) (some text) =
      .error (.mcp ⟨confinementError, message, data⟩)

variable (package : Package) {config : ServerConfig} (env : Env Time) (cwd : List Str)

/-- What `resolve_within` does with a text. -/
theorem resolveWithin_text (hroot : config.root.isAbsolute = true) (text : Str) :
    resolveWithin package config (env.withoutLinks cwd) (some text) =
      if config.base <+: destination config.base text then
        .ok ⟨[codePoint '/'], destination config.base text⟩
      else .error (.mcp ⟨confinementError,
        lit "path " ++ package.runtime.strRepr text ++ lit " is outside the configured root",
        .obj [("hint", .str
          (lit "The server was started with a root and every path is resolved " ++
            lit "against it. Restart it with a different --root to inspect elsewhere."))]⟩) := by
  have hbase : lexicalResolve cwd config.root = .ok ⟨[codePoint '/'], config.base⟩ := by
    rw [lexicalResolve, if_pos hroot]
    rfl
  rw [resolveWithin]
  simp only [Env.withoutLinks, hbase, lexicalResolve_join]
  cases text with
  | nil =>
    have hhere : destination config.base [] = config.base := rfl
    rw [hhere, if_pos (List.prefix_refl _)]
  | cons c rest =>
    by_cases hin : config.base <+: destination config.base (c :: rest)
    · have hkept : ¬((⟨[codePoint '/'], destination config.base (c :: rest)⟩ : Path) ≠
          ⟨[codePoint '/'], config.base⟩ ∧ (⟨[codePoint '/'], config.base⟩ : Path) ∉
            Path.parents ⟨[codePoint '/'], destination config.base (c :: rest)⟩) := by
        rintro ⟨hne, hnot⟩
        apply hnot
        refine mem_parents_iff.mpr ⟨hin, fun hsame => hne ?_⟩
        rw [← hsame]
      rw [if_pos hin]
      exact if_neg hkept
    · have hrefused : (⟨[codePoint '/'], destination config.base (c :: rest)⟩ : Path) ≠
          ⟨[codePoint '/'], config.base⟩ ∧ (⟨[codePoint '/'], config.base⟩ : Path) ∉
            Path.parents ⟨[codePoint '/'], destination config.base (c :: rest)⟩ := by
        constructor
        · intro hsame
          have hparts : destination config.base (c :: rest) = config.base :=
            congrArg Path.parts hsame
          apply hin
          rw [hparts]
        · intro hmem
          exact hin (mem_parents_iff.mp hmem).1
      rw [if_neg hin]
      exact if_pos hrefused

/-- The root, and what has its parts as a proper prefix, have its parts as a prefix. -/
theorem prefix_iff_eq_or {base target : List Str} :
    base <+: target ↔ target = base ∨ base <+: target ∧ base ≠ target := by
  constructor
  · intro h
    by_cases hsame : base = target
    · exact Or.inl hsame.symm
    · exact Or.inr ⟨h, hsame⟩
  · rintro (hsame | ⟨h, _⟩)
    · exact hsame ▸ List.prefix_refl _
    · exact h

theorem resolveWithin_outside (hroot : config.root.isAbsolute = true) {text : Str}
    (h : ¬config.base <+: destination config.base text) :
    ∃ message data, resolveWithin package config (env.withoutLinks cwd) (some text) =
      .error (.mcp ⟨confinementError, message, data⟩) := by
  rw [resolveWithin_text package env cwd hroot, if_neg h]
  exact ⟨_, _, rfl⟩

/-- Every path argument is confined to an absolute root. -/
theorem resolveWithin_confined (hroot : config.root.isAbsolute = true) :
    Confined package config env cwd := by
  constructor
  · rw [resolveWithin]
    simp only [Env.withoutLinks, lexicalResolve, if_pos hroot]
    rfl
  · intro text hin
    rw [resolveWithin_text package env cwd hroot, if_pos (prefix_iff_eq_or.mpr hin)]
  · intro text hout
    exact resolveWithin_outside package env cwd hroot (mt prefix_iff_eq_or.mp hout)
  · intro text parent name more below hbase hmore htarget
    apply resolveWithin_outside package env cwd hroot
    rw [htarget, hbase, List.prefix_append_right_inj, List.cons_prefix_cons]
    rintro ⟨hname, _⟩
    exact hmore (List.self_eq_append_right.mp hname)

namespace Sample

/-- A server that was started in a project. -/
def confined : ServerConfig := ⟨.parse "/srv/app"⟩

/-- Nothing to read but lexical paths. -/
def nowhere : Env Nat where
  now := 0
  resolve := lexicalResolve []
  scan _ := .error ⟨.valueError, "no scan"⟩
  survey _ := .error ⟨.valueError, "no survey"⟩

end Sample

theorem resolveWithin_confined_app :
    Sample.confined.root.isAbsolute = true ∧
      Confined Sample.package Sample.confined Sample.nowhere [] :=
  ⟨by decide, resolveWithin_confined Sample.package Sample.nowhere [] (by decide)⟩

/-- Out of the root and back again. -/
example : destination Sample.confined.base "../../srv/./app/x/../src" =
    [lit "srv", lit "app", lit "src"] := by decide

end DevRepro.Mcp
