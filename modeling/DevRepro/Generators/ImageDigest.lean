import DevRepro.Project.ContractChanges
import DevRepro.Python.JsonScan

/-!
# Pinned images

`resolve_image_digest` of `generators/__init__.py`.  It asks the container engine
twice, and puts the digest behind the name of the image.  The name is cut at the
first colon, which is the one in front of the tag unless the registry has a port
(`pinned_iff`).
-/

namespace DevRepro.Generators

open DevRepro.Python
open DevRepro.Project (CommandResult CommandRunner)

/-! ## The commands -/

def buildxCommand (image : Str) : List Str :=
  ["docker", "buildx", "imagetools", "inspect", image, "--format",
    "\x7b\x7b.Manifest.Digest\x7d\x7d"]

def manifestCommand (image : Str) : List Str := ["docker", "manifest", "inspect", "--verbose", image]

/-- `s.split(sep, maxsplit=1)[0]`. -/
def cutAt (sep : CodePoint) (s : Str) : Str := s.takeWhile fun c => c ≠ sep

/-- The name in front of the digest. -/
def imageName (image : Str) : Str := cutAt (codePoint ':') (cutAt (codePoint '@') image)

/-- `f"{name}@{digest}"` -/
def pinned (image digest : Str) : Str := imageName image ++ lit "@" ++ digest

/-- The digest in what `docker manifest inspect` prints. -/
def manifestDigest (payload : Json) : Except Exc Json := do
  let entry := match payload with
    | .arr (first :: _) => first
    | _ => payload
  let descriptor ← (entry.orElse (.obj [])).getD "Descriptor" (.obj [])
  descriptor.getD "digest" (.str [])

/-- What is made of the digest. -/
def pinWith (image : Str) : Json → Except Exc (Option Str)
  | .str digest => .ok (if startsWith digest "sha256:" then some (pinned image digest) else none)
  | other => .error ⟨.attributeError, lit "'" ++ other.typeName ++
      lit "' object has no attribute 'startswith'"⟩

/-- The second way: `docker manifest inspect`. -/
def resolveByManifest (limits : Limits) (run : CommandRunner) (image : Str) :
    Except Exc (Option Str) :=
  let result := run (manifestCommand image) 60
  if result.ok then
    match loads limits result.stdout with
    | .error e => if e.type.isValueError then .ok none else .error e
    | .ok payload => manifestDigest payload >>= pinWith image
  else .ok none

/-- `resolve_image_digest`. -/
def resolveImageDigest (limits : Limits) (run : CommandRunner) (image : Str) :
    Except Exc (Option Str) :=
  let result := run (buildxCommand image) 60
  let digest := strip result.stdout
  if result.ok && startsWith digest "sha256:" then .ok (some (pinned image digest))
  else resolveByManifest limits run image

/-! ## References -/

def isPortDigit (c : CodePoint) : Bool := 0x30 ≤ c.val && c.val ≤ 0x39

/-- The host of a registry and its port. -/
structure Registry where
  host : Str
  port : Option Str
  host_plain : codePoint '/' ∉ host ∧ codePoint '@' ∉ host
  port_digits : ∀ p ∈ port, p ≠ [] ∧ p.all isPortDigit = true

def Registry.text (r : Registry) : Str :=
  r.host ++ (r.port.elim [] fun p => lit ":" ++ p) ++ lit "/"

/-- A reference to an image. -/
structure Reference where
  registry : Option Registry
  repository : Str
  tag : Option Str
  digest : Option Str
  repository_plain : codePoint ':' ∉ repository ∧ codePoint '@' ∉ repository
  tag_plain : ∀ t ∈ tag, codePoint '@' ∉ t

namespace Reference

/-- The registry with its port, and the repository. -/
def named (ref : Reference) : Str := ref.registry.elim [] Registry.text ++ ref.repository

def tagText (ref : Reference) : Str := ref.tag.elim [] fun t => lit ":" ++ t

def digestText (ref : Reference) : Str := ref.digest.elim [] fun d => lit "@" ++ d

def text (ref : Reference) : Str := ref.named ++ ref.tagText ++ ref.digestText

/-- No colon in front of the repository: no port, and no address with colons for a host. -/
def NoColon (ref : Reference) : Prop :=
  ∀ r ∈ ref.registry, r.port = none ∧ codePoint ':' ∉ r.host

variable {ref : Reference}

theorem at_not_mem_named : codePoint '@' ∉ ref.named := by
  rw [named, List.mem_append, not_or]
  refine ⟨?_, ref.repository_plain.2⟩
  cases ref.registry with
  | none => exact List.not_mem_nil
  | some r =>
    show codePoint '@' ∉ r.host ++ (r.port.elim [] fun p => lit ":" ++ p) ++ lit "/"
    rw [List.mem_append, List.mem_append, not_or, not_or]
    refine ⟨⟨r.host_plain.2, ?_⟩, by decide⟩
    cases hport : r.port with
    | none => exact List.not_mem_nil
    | some p =>
      show codePoint '@' ∉ lit ":" ++ p
      rw [List.mem_append, not_or]
      refine ⟨by decide, fun hin => ?_⟩
      have hdigit := List.all_eq_true.mp (r.port_digits p hport).2 _ hin
      exact absurd hdigit (by decide)

theorem colon_mem_named : codePoint ':' ∈ ref.named ↔ ¬ref.NoColon := by
  rw [named, List.mem_append, or_iff_left ref.repository_plain.1, NoColon]
  cases ref.registry with
  | none => simp
  | some r =>
    have hslash : codePoint ':' ∉ lit "/" := by decide
    show codePoint ':' ∈ r.host ++ (r.port.elim [] fun p => lit ":" ++ p) ++ lit "/" ↔ _
    rw [List.mem_append, or_iff_left hslash, List.mem_append]
    simp only [Option.mem_def, Option.some.injEq, forall_eq', not_and_or, not_not]
    cases r.port with
    | none => simp
    | some p => simp [lit]

end Reference

/-! ## The name of the image -/

theorem cutAt_append {sep : CodePoint} {s : Str} (h : sep ∉ s) (rest : Str) :
    cutAt sep (s ++ rest) = s ++ cutAt sep rest := by
  rw [cutAt, List.takeWhile_append_of_pos, cutAt]
  intro c hc
  rw [decide_eq_true_eq]
  rintro rfl
  exact h hc

theorem not_mem_cutAt (sep : CodePoint) (s : Str) : sep ∉ cutAt sep s := by
  intro hin
  have hne := List.mem_takeWhile_imp hin
  simp at hne

theorem at_not_mem_imageName (image : Str) : codePoint '@' ∉ imageName image := fun hin =>
  not_mem_cutAt _ image ((List.takeWhile_prefix _).subset hin)

/-- The name is cut out of a reference, with all of the registry when it has no colon. -/
theorem imageName_eq_iff (ref : Reference) : imageName ref.text = ref.named ↔ ref.NoColon := by
  have htag : codePoint '@' ∉ ref.tagText := by
    rw [Reference.tagText]
    cases htext : ref.tag with
    | none => exact List.not_mem_nil
    | some t =>
      show codePoint '@' ∉ lit ":" ++ t
      rw [List.mem_append, not_or]
      exact ⟨by decide, ref.tag_plain t htext⟩
  have hdigest : cutAt (codePoint '@') ref.digestText = [] := by
    rw [Reference.digestText]
    cases ref.digest with
    | none => rfl
    | some d => exact List.takeWhile_cons_of_neg (by decide)
  have hcut : cutAt (codePoint '@') ref.text = ref.named ++ ref.tagText := by
    rw [Reference.text, List.append_assoc, cutAt_append Reference.at_not_mem_named, cutAt_append htag,
      hdigest, List.append_nil]
  rw [imageName, hcut]
  constructor
  · intro hname
    by_contra hcolon
    have hin := not_mem_cutAt (codePoint ':') (ref.named ++ ref.tagText)
    rw [hname] at hin
    exact hin (Reference.colon_mem_named.mpr hcolon)
  · intro hcolon
    have hnot : codePoint ':' ∉ ref.named := fun hin => Reference.colon_mem_named.mp hin hcolon
    have hend : cutAt (codePoint ':') ref.tagText = [] := by
      rw [Reference.tagText]
      cases ref.tag with
      | none => rfl
      | some t => exact List.takeWhile_cons_of_neg (by decide)
    rw [cutAt_append hnot, hend, List.append_nil]

/-! ## Pinning -/

/-- The container engine answers a digest, to the first command or to the second one. -/
inductive Answers (limits : Limits) (run : CommandRunner) (image digest : Str) : Prop
  | buildx (hok : (run (buildxCommand image) 60).ok = true)
      (hdigest : strip (run (buildxCommand image) 60).stdout = digest)
  | manifest
      (hfirst : ((run (buildxCommand image) 60).ok &&
        startsWith (strip (run (buildxCommand image) 60).stdout) "sha256:") = false)
      (hok : (run (manifestCommand image) 60).ok = true)
      (hdigest : ∃ payload, loads limits (run (manifestCommand image) 60).stdout = .ok payload ∧
        manifestDigest payload = .ok (.str digest))

/-- What comes back is a name with a digest of SHA-256. -/
theorem pinned_of_resolve {limits : Limits} {run : CommandRunner} {image out : Str}
    (h : resolveImageDigest limits run image = .ok (some out)) :
    ∃ digest, out = pinned image digest ∧ startsWith digest "sha256:" = true := by
  unfold resolveImageDigest at h
  dsimp only at h
  split_ifs at h with hfirst
  · rw [Bool.and_eq_true] at hfirst
    exact ⟨_, (Option.some.inj (Except.ok.inj h)).symm, hfirst.2⟩
  · unfold resolveByManifest at h
    dsimp only at h
    split_ifs at h with hok
    · cases hread : loads limits (run (manifestCommand image) 60).stdout with
      | error e =>
        rw [hread] at h
        dsimp only at h
        split_ifs at h
        cases h
      | ok payload =>
        rw [hread] at h
        obtain ⟨found, -, hpin⟩ := bind_eq_ok.mp h
        cases found with
        | str digest =>
          rw [pinWith, Except.ok.injEq] at hpin
          split_ifs at hpin with hsha
          exact ⟨digest, (Option.some.inj hpin).symm, hsha⟩
        | null => cases hpin
        | bool b => cases hpin
        | int n => cases hpin
        | float x => cases hpin
        | arr elems => cases hpin
        | obj fields => cases hpin
    · cases h

/-- A digest of SHA-256 that the engine answers is put behind the name. -/
theorem resolve_of_answers {limits : Limits} {run : CommandRunner} {image digest : Str}
    (h : Answers limits run image digest) (hsha : startsWith digest "sha256:" = true) :
    resolveImageDigest limits run image = .ok (some (pinned image digest)) := by
  unfold resolveImageDigest
  dsimp only
  cases h with
  | buildx hok hdigest =>
    rw [hok, hdigest, hsha]
    rfl
  | manifest hfirst hok hdigest =>
    obtain ⟨payload, hread, hfound⟩ := hdigest
    rw [hfirst, if_neg Bool.false_ne_true]
    unfold resolveByManifest
    dsimp only
    rw [if_pos hok, hread]
    dsimp only
    rw [hfound]
    show pinWith image (.str digest) = _
    rw [pinWith, if_pos hsha]

/-- An image is pinned under its own name exactly when its registry has no port and the digest is one
of SHA-256. -/
theorem pinned_iff (ref : Reference) (limits : Limits) (run : CommandRunner) (digest : Str)
    (hanswer : Answers limits run ref.text digest) :
    resolveImageDigest limits run ref.text = .ok (some (ref.named ++ lit "@" ++ digest)) ↔
      ref.NoColon ∧ startsWith digest "sha256:" = true := by
  constructor
  · intro hpinned
    obtain ⟨found, heq, hsha⟩ := pinned_of_resolve hpinned
    rw [pinned, List.append_assoc, List.append_assoc] at heq
    -- Neither name has an at-sign in it.
    have hsplit := congrArg (cutAt (codePoint '@')) heq
    rw [cutAt_append Reference.at_not_mem_named, cutAt_append (at_not_mem_imageName _)] at hsplit
    have hend : ∀ d : Str, cutAt (codePoint '@') (lit "@" ++ d) = [] := fun d =>
      List.takeWhile_cons_of_neg (by decide)
    rw [hend, hend, List.append_nil, List.append_nil] at hsplit
    refine ⟨(imageName_eq_iff ref).mp hsplit.symm, ?_⟩
    rw [hsplit] at heq
    rwa [List.append_cancel_left (List.append_cancel_left heq)]
  · rintro ⟨hcolon, hsha⟩
    rw [resolve_of_answers hanswer hsha, pinned, (imageName_eq_iff ref).mpr hcolon]

/-! ## Examples -/

namespace Sample

/-- An engine that knows one digest. -/
def engine : CommandRunner := fun _ _ => ⟨true, "sha256:0f\n"⟩

theorem engine_answer : strip (lit "sha256:0f\n") = lit "sha256:0f" := by decide +kernel

/-- `python:3.12` -/
def python : Reference where
  registry := none
  repository := "python"
  tag := some "3.12"
  digest := none
  repository_plain := by decide
  tag_plain := by
    intro t ht
    cases ht
    decide

/-- `localhost:5000/app:1` -/
def localApp : Reference where
  registry := some {
    host := "localhost"
    port := some "5000"
    host_plain := by decide
    port_digits := by
      intro p hp
      cases hp
      decide }
  repository := "app"
  tag := some "1"
  digest := none
  repository_plain := by decide
  tag_plain := by
    intro t ht
    cases ht
    decide

end Sample

theorem pinned_iff_python :
    resolveImageDigest ⟨10, 10⟩ Sample.engine Sample.python.text =
        .ok (some (Sample.python.named ++ lit "@" ++ lit "sha256:0f")) ↔
      Sample.python.NoColon ∧ startsWith (lit "sha256:0f") "sha256:" = true :=
  pinned_iff Sample.python ⟨10, 10⟩ Sample.engine "sha256:0f" (Answers.buildx rfl Sample.engine_answer)

/-- The port goes, and the name is that of another image. -/
theorem port_is_lost : Answers ⟨10, 10⟩ Sample.engine Sample.localApp.text "sha256:0f" ∧
    resolveImageDigest ⟨10, 10⟩ Sample.engine Sample.localApp.text =
      .ok (some (lit "localhost@sha256:0f")) ∧
    Sample.localApp.named = lit "localhost:5000/app" :=
  ⟨Answers.buildx rfl Sample.engine_answer, by decide +kernel, by decide +kernel⟩

end DevRepro.Generators
