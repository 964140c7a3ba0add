import DevRepro.Reproduce.Recipe

/-!
# The version of a base image

`_base_for` and `_concrete_version` of `reproduce/recipe.py`: the tag of a base image is the
first number of the first requirement that has one.  `baseFits_iff` says when that is a
version of a runtime, and within its range.
-/

namespace DevRepro.Reproduce

open DevRepro.Python DevRepro.Lib DevRepro.Core DevRepro.Project DevRepro.Snapshots

/-- The names under which the detectors declare the runtime of an ecosystem. -/
def runtimeNames : List (Str × Str) :=
  [("python", "python"), ("python", "ci:python"), ("node", "node"), ("node", "ci:node"),
    ("go", "go"), ("go", "ci:go"), ("rust", "rustc"), ("rust", "rust-toolchain"),
    ("java", "java"), ("dotnet", "dotnet-sdk"), ("dotnet", "target-framework"),
    ("ruby", "ruby"), ("php", "php")]

/-- A requirement on a runtime itself. -/
def OnRuntime (r : ProjectRequirement) : Prop := (r.ecosystem, r.name) ∈ runtimeNames

instance (r : ProjectRequirement) : Decidable (OnRuntime r) :=
  inferInstanceAs (Decidable (_ ∈ runtimeNames))

/-- The base image has its version from a requirement. -/
structure GivesVersion (requirements : List ProjectRequirement) (r : ProjectRequirement)
    (version : Str) : Prop where
  first : requirements.find? (fun other => (imageOf other).isSome) = some r
  read : concreteVersion r.spec = some version
  image : ∃ image, Dict.find? r.ecosystem baseImages = some image ∧
    baseFor requirements = image.1 ++ version ++ image.2

/-- The base image has no version, or one of a runtime and within the range of its
requirement. -/
def BaseFits (limits : Limits) (requirements : List ProjectRequirement) : Prop :=
  baseFor requirements = fallbackImage ∨
    ∃ r version, GivesVersion requirements r version ∧ OnRuntime r ∧
      ((parseVersion limits version).isSome = true → satisfies limits version r.spec = some true)

/-- No digit follows, nor a dot and a digit. -/
def EndsNumber (behind : Str) : Prop :=
  ∀ c rest, behind = c :: rest → isDigit c = false ∧
    (c = codePoint '.' → rest.head?.any isDigit = false)

/-- The first number that is written in a range. -/
def FirstNumber (spec : Str) (number : Dotted) : Prop :=
  ∃ before behind, spec = before ++ (number.text ++ behind) ∧
    (∀ c ∈ before, isDigit c = false) ∧ EndsNumber behind

/-- A requirement of an ecosystem with images, whose range has a number and no `||`. -/
def NamesVersion (r : ProjectRequirement) : Prop :=
  r.ecosystem ∈ baseImages.map Prod.fst ∧ containsText r.spec "||" = false ∧
    ∃ c ∈ r.spec, isDigit c = true

instance (r : ProjectRequirement) : Decidable (NamesVersion r) :=
  inferInstanceAs (Decidable (_ ∧ _ ∧ _))

/-- The first requirement that names a version is on a runtime, and its range takes the number
that is written first in it. -/
def FirstFits (limits : Limits) (requirements : List ProjectRequirement) : Prop :=
  ∀ r, requirements.find? (fun other => decide (NamesVersion other)) = some r →
    OnRuntime r ∧ ∀ number, FirstNumber r.spec number →
      (parseVersion limits number.text).isSome = true →
        satisfies limits number.text r.spec = some true

/-! ## Numbers in a text -/

theorem dottedRun_digits {s : Str} (h : ∀ c ∈ s, isDigit c = true) (t : Str) :
    dottedRun (s ++ t) = s ++ dottedRun t := by
  induction s with
  | nil => rfl
  | cons c s ih =>
    rw [List.cons_append, dottedRun, if_pos (h c List.mem_cons_self),
      ih fun d hd => h d (List.mem_cons_of_mem _ hd)]
    rfl

theorem dottedRun_dot {c : CodePoint} (hc : isDigit c = true) (t : Str) :
    dottedRun (codePoint '.' :: c :: t) = codePoint '.' :: dottedRun (c :: t) := by
  have hdot : isDigit (codePoint '.') = false := by decide
  rw [dottedRun, hdot, if_neg Bool.false_ne_true, if_pos ⟨rfl, hc⟩]

theorem EndsNumber.dottedRun {behind : Str} (h : EndsNumber behind) : dottedRun behind = [] := by
  cases behind with
  | nil => rfl
  | cons c rest =>
    obtain ⟨hdigit, hdot⟩ := h c rest rfl
    rw [Reproduce.dottedRun, hdigit, if_neg Bool.false_ne_true, if_neg]
    rintro ⟨hc, hrest⟩
    rw [hdot hc] at hrest
    cases hrest

/-- The parts of a number with dots are read up to its end. -/
theorem dottedRun_join {parts : List Str} (hne : parts ≠ [])
    (h : ∀ part ∈ parts, IsNumber part) {behind : Str} (hbehind : EndsNumber behind) :
    dottedRun (join "." parts ++ behind) = join "." parts := by
  induction parts with
  | nil => exact absurd rfl hne
  | cons part parts ih =>
    have hpart := h part List.mem_cons_self
    cases parts with
    | nil =>
      show dottedRun (part ++ behind) = part
      rw [dottedRun_digits hpart.2, hbehind.dottedRun, List.append_nil]
    | cons next parts =>
      have ih := ih (List.cons_ne_nil _ _) fun p hp => h p (List.mem_cons_of_mem _ hp)
      obtain ⟨c, rest, htext, hc⟩ := Dotted.text_cons
        ⟨next :: parts, List.cons_ne_nil _ _, fun p hp => h p (List.mem_cons_of_mem _ hp)⟩
      have hjoin : join "." (next :: parts) = c :: rest := htext
      have hdot : lit "." = [codePoint '.'] := rfl
      rw [join_cons_cons, hjoin, hdot, List.append_assoc, List.append_assoc, dottedRun_digits hpart.2,
        List.append_assoc, List.singleton_append, List.cons_append, List.singleton_append,
        dottedRun_dot hc]
      rw [hjoin, List.cons_append] at ih
      rw [ih]

theorem Dotted.dottedRun_text (d : Dotted) {behind : Str} (h : EndsNumber behind) :
    dottedRun (d.text ++ behind) = d.text :=
  dottedRun_join d.ne_nil d.numbers h

/-- A digit, as a number. -/
theorem isNumber_digit {c : CodePoint} (hc : isDigit c = true) : IsNumber [c] :=
  ⟨List.cons_ne_nil _ _, fun _ hd => List.mem_singleton.mp hd ▸ hc⟩

/-- One more digit of the first part. -/
theorem Dotted.exists_longer (d : Dotted) {c : CodePoint} (hc : isDigit c = true) :
    ∃ longer : Dotted, longer.text = c :: d.text := by
  obtain ⟨parts, hne, hparts⟩ := d
  obtain ⟨part, parts, rfl⟩ := List.exists_cons_of_ne_nil hne
  have hpart := hparts part List.mem_cons_self
  refine ⟨⟨(c :: part) :: parts, List.cons_ne_nil _ _, ?_⟩, ?_⟩
  · intro p hp
    rcases List.mem_cons.mp hp with rfl | hp
    · exact ⟨List.cons_ne_nil _ _, List.forall_mem_cons.mpr ⟨hc, hpart.2⟩⟩
    · exact hparts p (List.mem_cons_of_mem _ hp)
  · cases parts with
    | nil => rfl
    | cons next parts => rfl

/-- One more part. -/
theorem Dotted.exists_behind (d : Dotted) {c : CodePoint} (hc : isDigit c = true) :
    ∃ longer : Dotted, longer.text = c :: codePoint '.' :: d.text := by
  obtain ⟨parts, hne, hparts⟩ := d
  refine ⟨⟨[c] :: parts, List.cons_ne_nil _ _, ?_⟩, ?_⟩
  · intro p hp
    rcases List.mem_cons.mp hp with rfl | hp
    · exact isNumber_digit hc
    · exact hparts p hp
  · obtain ⟨part, parts, rfl⟩ := List.exists_cons_of_ne_nil hne
    rfl

/-- A text that begins with a digit begins with a number. -/
theorem exists_dotted (n : Nat) : ∀ (c : CodePoint) (rest : Str), rest.length = n →
    isDigit c = true →
      ∃ (d : Dotted) (behind : Str), c :: rest = d.text ++ behind ∧ EndsNumber behind := by
  induction n using Nat.strong_induction_on with
  | _ n ih =>
    intro c rest hlength hc
    let alone : Dotted :=
      ⟨[[c]], List.cons_ne_nil _ _, fun p hp => List.mem_singleton.mp hp ▸ isNumber_digit hc⟩
    cases rest with
    | nil => exact ⟨alone, [], rfl, fun d rest h => nomatch h⟩
    | cons e rest =>
      rw [List.length_cons] at hlength
      by_cases he : isDigit e = true
      · obtain ⟨d, behind, hsplit, hends⟩ := ih rest.length (by omega) e rest rfl he
        obtain ⟨longer, hlonger⟩ := Dotted.exists_longer d hc
        exact ⟨longer, behind, by rw [hsplit, hlonger]; rfl, hends⟩
      · rw [Bool.not_eq_true] at he
        by_cases hdot : e = codePoint '.' ∧ rest.head?.any isDigit = true
        · obtain ⟨rfl, hhead⟩ := hdot
          cases rest with
          | nil => cases hhead
          | cons f rest =>
            rw [List.length_cons] at hlength
            obtain ⟨d, behind, hsplit, hends⟩ := ih rest.length (by omega) f rest rfl hhead
            obtain ⟨longer, hlonger⟩ := Dotted.exists_behind d hc
            exact ⟨longer, behind, by rw [hsplit, hlonger]; rfl, hends⟩
        · refine ⟨alone, e :: rest, rfl, ?_⟩
          intro f rest' heq
          obtain ⟨rfl, rfl⟩ := List.cons.inj heq
          refine ⟨he, fun hf => ?_⟩
          rw [← Bool.not_eq_true]
          exact fun hhead => hdot ⟨hf, hhead⟩

/-! ## The version of a range -/

/-- A digit that a text has is there when it is stripped. -/
theorem not_starred {spec : Str} {c : CodePoint} (hc : c ∈ spec) (hdigit : isDigit c = true) :
    ¬(spec = [] ∨ strip spec ∈ [lit "*", lit "latest"]) := by
  rintro (rfl | hstar)
  · cases hc
  · have hmem := mem_stripChars hc (digit_not_space hdigit)
    rw [← strip_eq_stripChars] at hmem
    have hdigits : [lit "*", lit "latest"].all (fun s => s.all fun d => !isDigit d) = true := by decide
    have hnone := List.all_eq_true.mp (List.all_eq_true.mp hdigits _ hstar) c hmem
    rw [hdigit] at hnone
    cases hnone

theorem FirstNumber.digit {spec : Str} {number : Dotted} (h : FirstNumber spec number) :
    ∃ c ∈ spec, isDigit c = true := by
  obtain ⟨before, behind, rfl, -, -⟩ := h
  obtain ⟨c, rest, htext, hc⟩ := number.text_cons
  refine ⟨c, ?_, hc⟩
  rw [htext]
  exact List.mem_append_right _ List.mem_cons_self

theorem exists_firstNumber {spec : Str} (h : ∃ c ∈ spec, isDigit c = true) :
    ∃ number, FirstNumber spec number := by
  obtain ⟨c, hc, hdigit⟩ := h
  have hsplit := List.takeWhile_append_dropWhile (p := fun c => !isDigit c) (l := spec)
  cases hrest : spec.dropWhile fun c => !isDigit c with
  | nil =>
    have hall := List.dropWhile_eq_nil_iff.mp hrest c hc
    rw [hdigit] at hall
    cases hall
  | cons d rest =>
    have hhead : isDigit d = true := by
      have hfirst := List.head?_dropWhile_not (fun c => !isDigit c) spec
      rw [hrest, List.head?_cons] at hfirst
      simpa using hfirst
    obtain ⟨number, behind, htext, hends⟩ := exists_dotted rest.length d rest rfl hhead
    refine ⟨number, spec.takeWhile fun c => !isDigit c, behind, ?_, ?_, hends⟩
    · rw [← htext, ← hrest, hsplit]
    · intro e he
      simpa using List.mem_takeWhile_imp he

theorem concreteVersion_of_firstNumber {spec : Str} {number : Dotted} (h : FirstNumber spec number)
    (hbars : containsText spec "||" = false) : concreteVersion spec = some number.text := by
  obtain ⟨c, hc, hdigit⟩ := h.digit
  obtain ⟨before, behind, hspec, hbefore, hends⟩ := h
  obtain ⟨d, rest, htext, hd⟩ := number.text_cons
  have hdrop : (spec.dropWhile fun c => !isDigit c) = d :: (rest ++ behind) := by
    rw [hspec, List.dropWhile_append_of_pos (by simpa using hbefore), htext, List.cons_append,
      List.dropWhile_cons_of_neg (by simp [isDigit, hd])]
  have hrun := Dotted.dottedRun_text number hends
  rw [htext, List.cons_append] at hrun
  rw [concreteVersion, if_neg (not_starred hc hdigit), hbars, if_neg Bool.false_ne_true, hdrop, htext]
  exact congrArg some hrun

theorem concreteVersion_eq_none {spec : Str}
    (h : ¬(containsText spec "||" = false ∧ ∃ c ∈ spec, isDigit c = true)) :
    concreteVersion spec = none := by
  rw [concreteVersion]
  split
  · rfl
  · split
    · rfl
    · next hbars =>
      rw [Bool.not_eq_true] at hbars
      have hnone : (spec.dropWhile fun c => !isDigit c) = [] := by
        rw [List.dropWhile_eq_nil_iff]
        intro c hc
        rw [Bool.not_eq_true', ← Bool.not_eq_true]
        exact fun hdigit => h ⟨hbars, c, hc, hdigit⟩
      rw [hnone]

/-! ## The requirement behind an image -/

theorem namesVersion_iff (r : ProjectRequirement) :
    NamesVersion r ↔ (imageOf r).isSome = true := by
  have hecosystem : r.ecosystem ∈ baseImages.map Prod.fst ↔
      (Dict.find? r.ecosystem baseImages).isSome = true := by
    rw [Dict.find?, Option.isSome_map, List.find?_isSome]
    simp
  rw [NamesVersion, hecosystem]
  by_cases hversion : containsText r.spec "||" = false ∧ ∃ c ∈ r.spec, isDigit c = true
  · obtain ⟨number, hnumber⟩ := exists_firstNumber hversion.2
    rw [and_iff_left hversion, imageOf, concreteVersion_of_firstNumber hnumber hversion.1]
    cases Dict.find? r.ecosystem baseImages with
    | none => exact Iff.rfl
    | some image => exact Iff.rfl
  · rw [imageOf, concreteVersion_eq_none hversion]
    refine iff_of_false (fun h => hversion h.2) ?_
    cases Dict.find? r.ecosystem baseImages with
    | none => exact Bool.false_ne_true
    | some image => exact Bool.false_ne_true

theorem findSome?_eq_find? {α β : Type} (f : α → Option β) (l : List α) :
    l.findSome? f = (l.find? fun a => (f a).isSome).bind f := by
  induction l with
  | nil => rfl
  | cons a l ih =>
    cases hf : f a with
    | none => rw [List.findSome?_cons, hf, List.find?_cons_of_neg (by simp [hf]), ih]
    | some b => rw [List.findSome?_cons, hf, List.find?_cons_of_pos (by simp [hf]), Option.bind_some, hf]

theorem find?_namesVersion (requirements : List ProjectRequirement) :
    requirements.find? (fun other => decide (NamesVersion other)) =
      requirements.find? fun other => (imageOf other).isSome := by
  congr 1
  funext r
  rw [Bool.eq_iff_iff, decide_eq_true_iff]
  exact namesVersion_iff r

theorem baseFor_eq (requirements : List ProjectRequirement) :
    baseFor requirements =
      ((requirements.find? fun r => (imageOf r).isSome).bind imageOf).getD fallbackImage := by
  rw [baseFor, findSome?_eq_find?]

/-- A requirement with an image has a number first. -/
theorem imageOf_isSome {r : ProjectRequirement} (h : (imageOf r).isSome = true) :
    ∃ image number, Dict.find? r.ecosystem baseImages = some image ∧ FirstNumber r.spec number ∧
      containsText r.spec "||" = false ∧ imageOf r = some (image.1 ++ number.text ++ image.2) := by
  obtain ⟨-, hbars, hdigit⟩ := (namesVersion_iff r).mpr h
  obtain ⟨number, hnumber⟩ := exists_firstNumber hdigit
  have hversion := concreteVersion_of_firstNumber hnumber hbars
  rw [imageOf, hversion] at h
  cases hfound : Dict.find? r.ecosystem baseImages with
  | none =>
    rw [hfound] at h
    cases h
  | some image => exact ⟨image, number, rfl, hnumber, hbars, by rw [imageOf, hfound, hversion]; rfl⟩

/-- The version of the base image is one of a runtime and within its range, when that goes for
the first number of the first requirement with one. -/
theorem baseFits_iff (limits : Limits) (requirements : List ProjectRequirement) :
    BaseFits limits requirements ↔ FirstFits limits requirements := by
  rw [FirstFits, find?_namesVersion]
  constructor
  · intro h r hfirst
    have hsome : (imageOf r).isSome = true :=
      List.find?_some (p := fun other => (imageOf other).isSome) hfirst
    obtain ⟨image, number, himage, hnumber, hbars, hr⟩ := imageOf_isSome hsome
    have hbase : baseFor requirements = image.1 ++ number.text ++ image.2 := by
      rw [baseFor_eq, hfirst, Option.bind_some, hr]
      rfl
    rcases h with hfallback | ⟨r', version, hgives, hruntime, hsatisfies⟩
    · -- No image of the table is the fallback.
      have htable : ∀ entry ∈ baseImages, ¬entry.2.1 <+: fallbackImage := by decide
      obtain ⟨entry, hentry, rfl⟩ := Option.map_eq_some_iff.mp himage
      refine absurd ?_ (htable entry (List.mem_of_find?_eq_some hentry))
      rw [← hfallback, hbase, List.append_assoc]
      exact List.prefix_append _ _
    · obtain rfl : r' = r := Option.some_inj.mp (hgives.first.symm.trans hfirst)
      refine ⟨hruntime, fun other hother hparsed => ?_⟩
      have hversion := hgives.read.symm.trans (concreteVersion_of_firstNumber hother hbars)
      rw [Option.some_inj.mp hversion] at hsatisfies
      exact hsatisfies hparsed
  · intro h
    cases hfirst : requirements.find? fun other => (imageOf other).isSome with
    | none =>
      left
      rw [baseFor_eq, hfirst]
      rfl
    | some r =>
      right
      have hsome : (imageOf r).isSome = true :=
        List.find?_some (p := fun other => (imageOf other).isSome) hfirst
      obtain ⟨image, number, himage, hnumber, hbars, hr⟩ := imageOf_isSome hsome
      obtain ⟨hruntime, hsatisfies⟩ := h r hfirst
      refine ⟨r, number.text, ⟨hfirst, concreteVersion_of_firstNumber hnumber hbars, image, himage, ?_⟩,
        hruntime, hsatisfies number hnumber⟩
      rw [baseFor_eq, hfirst, Option.bind_some, hr]
      rfl

/-! ## Images that do not fit -/

/-- A project of Python with an upper bound. -/
def Sample.cappedProject : ProjectFiles :=
  projectOf [("pyproject.toml", "[project]\nrequires-python = \"<3.14\"\n")]

open Sample

/-- The version of a package becomes that of Node, and an upper bound is no version within
the range. -/
theorem images_unfit :
    (∃ requirements, detectRequirements .standard nodeProject = .ok requirements ∧
      baseFor requirements = lit "node:1.3.0-bookworm" ∧ ¬BaseFits ⟨1000, 4300⟩ requirements) ∧
    ∃ requirements, detectRequirements .standard cappedProject = .ok requirements ∧
      baseFor requirements = lit "python:3.14-bookworm" ∧ ¬BaseFits ⟨1000, 4300⟩ requirements := by
  have hnode : (detectRequirements .standard nodeProject).toOption.isSome = true ∧
      baseFor (foundIn nodeProject) = lit "node:1.3.0-bookworm" ∧
      baseFor (foundIn nodeProject) ≠ fallbackImage ∧
      ∃ r ∈ (foundIn nodeProject).find? (fun other => (imageOf other).isSome), ¬OnRuntime r := by
    decide +kernel
  have hcapped : (detectRequirements .standard cappedProject).toOption.isSome = true ∧
      baseFor (foundIn cappedProject) = lit "python:3.14-bookworm" ∧
      baseFor (foundIn cappedProject) ≠ fallbackImage ∧
      ∃ r ∈ (foundIn cappedProject).find? (fun other => (imageOf other).isSome),
        concreteVersion r.spec = some (lit "3.14") ∧
        (parseVersion ⟨1000, 4300⟩ "3.14").isSome = true ∧
        satisfies ⟨1000, 4300⟩ "3.14" r.spec ≠ some true := by
    decide +kernel
  obtain ⟨hsome, hbase, hfallback, r, hr, hpackage⟩ := hnode
  obtain ⟨hsome', hbase', hfallback', r', hr', hread, hparsed, hrange⟩ := hcapped
  refine ⟨⟨_, foundIn_eq hsome, hbase, ?_⟩, ⟨_, foundIn_eq hsome', hbase', ?_⟩⟩
  · rintro (hfits | ⟨other, version, hgives, hruntime, -⟩)
    · exact hfallback hfits
    · rw [Option.some_inj.mp (hgives.first.symm.trans hr)] at hruntime
      exact hpackage hruntime
  · rintro (hfits | ⟨other, version, hgives, -, hsatisfies⟩)
    · exact hfallback' hfits
    · have hsame : other = r' := Option.some_inj.mp (hgives.first.symm.trans hr')
      rw [hsame] at hgives hsatisfies
      rw [Option.some_inj.mp (hgives.read.symm.trans hread)] at hsatisfies
      exact hrange (hsatisfies hparsed)

end DevRepro.Reproduce
