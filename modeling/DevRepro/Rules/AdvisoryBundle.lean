import DevRepro.Generators.Onboarding
import DevRepro.Lib.Dict
import DevRepro.Lib.MapM
import DevRepro.Rules.Advisories
import DevRepro.Server.Analytics

/-!
# Advisory bundles

`parse_bundle` and `affected_tools` of `compliance/advisories.py`.

`isAffected?_iff_applies` says when an advisory applies to a version: by the greatest fix of
the version's branch, or of all branches when its own has none.  Within a branch that fix
does not move, so an upgrade does not bring an advisory back (`upgrade_stays_safe`).  The
list of a bundle is that of the advisories that apply as long as no `introduced` that is
reached fails to parse (`reports_all_iff`).
-/

namespace DevRepro.Rules

open DevRepro.Python DevRepro.Lib DevRepro.Core
open DevRepro.Generators (sortedItems)
open DevRepro.Server (iterate)

/-! ## The fix that goes for a version -/

/-- The fixes of a version's branch, or all of them when the branch has none. -/
def Candidate (parsed : Version) (fixes : List Version) (fix : Version) : Prop :=
  fix ∈ fixes ∧ (fix.nums.take 2 = parsed.nums.take 2 ∨
    ∀ other ∈ fixes, other.nums.take 2 ≠ parsed.nums.take 2)

/-- The highest fix of a version's own branch, or of all fixes when its branch has none. -/
def HighestFix (parsed : Version) (fixes : List Version) (fix : Version) : Prop :=
  Candidate parsed fixes fix ∧
    ∀ other, Candidate parsed fixes other → versionKey other ≤ versionKey fix

theorem foldl_max_spec (rest : List Version) (v : Version) :
    (rest.foldl (fun top w => if versionLt top w then w else top) v) ∈ v :: rest ∧
      ∀ w ∈ v :: rest, versionKey w ≤
        versionKey (rest.foldl (fun top w => if versionLt top w then w else top) v) := by
  induction rest generalizing v with
  | nil =>
    refine ⟨List.mem_singleton_self v, fun w hw => ?_⟩
    rw [List.mem_singleton.mp hw]
    exact le_rfl
  | cons u rest ih =>
    rw [List.foldl_cons]
    split_ifs with hlt
    · have hkey := (versionLt_iff v u).mp hlt
      obtain ⟨hmem, htop⟩ := ih u
      refine ⟨List.mem_cons_of_mem _ hmem, fun w hw => ?_⟩
      rcases List.mem_cons.mp hw with rfl | hw
      · exact hkey.le.trans (htop u List.mem_cons_self)
      · exact htop w hw
    · have hkey := not_lt.mp fun h => hlt ((versionLt_iff v u).mpr h)
      obtain ⟨hmem, htop⟩ := ih v
      refine ⟨?_, fun w hw => ?_⟩
      · rcases List.mem_cons.mp hmem with heq | hrest
        · rw [heq]
          exact List.mem_cons_self
        · exact List.mem_cons_of_mem _ (List.mem_cons_of_mem _ hrest)
      · rcases List.mem_cons.mp hw with rfl | hw
        · exact htop w List.mem_cons_self
        · rcases List.mem_cons.mp hw with rfl | hw
          · exact hkey.trans (htop v List.mem_cons_self)
          · exact htop w (List.mem_cons_of_mem _ hw)

/-- `max` gives an element that no other one is greater than. -/
theorem maxVersion_eq_some_iff {versions : List Version} {top : Version} :
    maxVersion versions = some top ↔
      top ∈ versions ∧ ∀ v ∈ versions, versionKey v ≤ versionKey top := by
  cases versions with
  | nil => simp [maxVersion]
  | cons v rest =>
    obtain ⟨hmem, htop⟩ := foldl_max_spec rest v
    rw [maxVersion, Option.some_inj]
    constructor
    · rintro rfl
      exact ⟨hmem, htop⟩
    · rintro ⟨hother, hbound⟩
      exact versionKey_eq_iff.mp (le_antisymm (hbound _ hmem) (htop _ hother))

theorem fixFor_eq_some_iff {parsed fix : Version} {fixes : List Version} :
    fixFor parsed fixes = some fix ↔ HighestFix parsed fixes fix := by
  have hcandidate : ∀ other,
      other ∈ (if (fixes.filter fun f => f.nums.take 2 = parsed.nums.take 2) = [] then fixes
        else fixes.filter fun f => f.nums.take 2 = parsed.nums.take 2) ↔
      Candidate parsed fixes other := by
    intro other
    unfold Candidate
    split_ifs with hnone
    · have hall : ∀ f ∈ fixes, f.nums.take 2 ≠ parsed.nums.take 2 := by
        simpa [List.filter_eq_nil_iff] using hnone
      exact ⟨fun h => ⟨h, Or.inr hall⟩, And.left⟩
    · obtain ⟨f, hf⟩ := List.exists_mem_of_ne_nil _ hnone
      obtain ⟨hf, hbranch⟩ := List.mem_filter.mp hf
      rw [List.mem_filter, decide_eq_true_eq]
      refine and_congr_right fun _ => ⟨Or.inl, ?_⟩
      rintro (h | h)
      · exact h
      · exact absurd (of_decide_eq_true hbranch) (h f hf)
  unfold fixFor HighestFix
  dsimp only
  rw [maxVersion_eq_some_iff, hcandidate]
  simp only [hcandidate]

/-- A version of the same branch goes by the same fix. -/
theorem highestFix_congr {v w fix : Version} {fixes : List Version}
    (h : v.nums.take 2 = w.nums.take 2) : HighestFix v fixes fix ↔ HighestFix w fixes fix := by
  unfold HighestFix Candidate
  rw [h]

/-! ## When an advisory applies -/

variable (limits : Limits)

/-- The version is not older than the one in which the advisory came up. -/
def NotOlder (advisory : Advisory) (parsed : Version) : Prop :=
  ∀ text ∈ advisory.introduced, text ≠ [] →
    ∃ introduced, parseVersion limits text = some introduced ∧
      versionKey introduced ≤ versionKey parsed

/-- Every bound of the advisory is a version. -/
def BoundsParse (advisory : Advisory) : Prop :=
  (∀ text ∈ advisory.fixed, (parseVersion limits text).isSome = true) ∧
    ∀ text ∈ advisory.introduced, text ≠ [] → (parseVersion limits text).isSome = true

/-- The installed version and the bounds parse, and the version lies from `introduced` on
and before the fix that goes for it. -/
def Applies (version : Str) (advisory : Advisory) : Prop :=
  ∃ parsed fixes fix, parseVersion limits version = some parsed ∧
    advisory.fixed.mapM (parseVersion limits) = some fixes ∧ NotOlder limits advisory parsed ∧
    HighestFix parsed fixes fix ∧ versionKey parsed < versionKey fix

variable {limits}

theorem early_eq_some_false_iff {advisory : Advisory} {parsed : Version} :
    early limits parsed advisory.introduced = some false ↔ NotOlder limits advisory parsed := by
  unfold early NotOlder
  cases advisory.introduced with
  | none => simp
  | some text =>
    cases text with
    | nil => simp
    | cons c text =>
      simp [← Bool.not_eq_true, versionLt_iff]

/-- `is_affected` answers yes for the versions to which the advisory applies. -/
theorem isAffected?_iff_applies {version : Str} {advisory : Advisory} :
    isAffected? limits version advisory = some true ↔ Applies limits version advisory := by
  constructor
  · intro h
    cases hparsed : parseVersion limits version with
    | none => simp [isAffected?, hparsed] at h
    | some parsed =>
      cases hfixes : advisory.fixed.mapM (parseVersion limits) with
      | none => simp [isAffected?, hparsed, hfixes] at h
      | some fixes =>
        rw [isAffected?_iff limits hparsed hfixes, early_eq_some_false_iff] at h
        obtain ⟨hearly, fix, hfix, hlt⟩ := h
        exact ⟨parsed, fixes, fix, hparsed, hfixes, hearly, fixFor_eq_some_iff.mp hfix, hlt⟩
  · rintro ⟨parsed, fixes, fix, hparsed, hfixes, hearly, hfix, hlt⟩
    rw [isAffected?_iff limits hparsed hfixes, early_eq_some_false_iff]
    exact ⟨hearly, fix, fixFor_eq_some_iff.mpr hfix, hlt⟩

/-- What makes `is_affected` raise: it reaches an `introduced` that is not a version. -/
def Trips (limits : Limits) (version : Str) (advisory : Advisory) : Prop :=
  (parseVersion limits version).isSome = true ∧ advisory.fixed ≠ [] ∧
    (∀ text ∈ advisory.fixed, (parseVersion limits text).isSome = true) ∧
    ∃ text ∈ advisory.introduced, text ≠ [] ∧ parseVersion limits text = none

theorem mapM_isSome_iff {texts : List Str} :
    (texts.mapM (parseVersion limits)).isSome = true ↔
      ∀ text ∈ texts, (parseVersion limits text).isSome = true := by
  induction texts with
  | nil => simp
  | cons text texts ih =>
    rw [List.mapM_cons, List.forall_mem_cons, ← ih]
    cases parseVersion limits text with
    | none => simp
    | some v => cases texts.mapM (parseVersion limits) <;> simp

theorem early_eq_none_iff {parsed : Version} {introduced : Option Str} :
    early limits parsed introduced = none ↔
      ∃ text ∈ introduced, text ≠ [] ∧ parseVersion limits text = none := by
  unfold early
  cases introduced with
  | none => simp
  | some text => cases text <;> simp

theorem isAffected?_eq_none_iff {version : Str} {advisory : Advisory} :
    isAffected? limits version advisory = none ↔ Trips limits version advisory := by
  unfold isAffected? Trips
  rw [← mapM_isSome_iff]
  cases parseVersion limits version with
  | none => simp
  | some parsed =>
    cases hfixes : advisory.fixed.mapM (parseVersion limits) with
    | none => simp
    | some fixes =>
      have hnil : fixes = [] ↔ advisory.fixed = [] := by
        have hlen := (mapM_eq_some.mp hfixes).length_eq
        rw [← List.length_eq_zero_iff, ← hlen, List.length_eq_zero_iff]
      dsimp only
      rw [← @early_eq_none_iff limits parsed]
      split_ifs with h
      · simp [hnil.mp h]
      · have hfixed : advisory.fixed ≠ [] := fun heq => h (hnil.mpr heq)
        cases early limits parsed advisory.introduced <;> simp [hfixed]

/-- With bounds that parse there is an answer. -/
theorem not_trips {version : Str} {advisory : Advisory} (h : BoundsParse limits advisory) :
    ¬Trips limits version advisory := by
  rintro ⟨-, -, -, text, htext, hne, hnone⟩
  have hsome := h.2 text htext hne
  rw [hnone] at hsome
  cases hsome

theorem isAffected?_eq_some_false_iff {version : Str} {advisory : Advisory}
    (h : BoundsParse limits advisory) :
    isAffected? limits version advisory = some false ↔ ¬Applies limits version advisory := by
  rw [← isAffected?_iff_applies]
  cases hanswer : isAffected? limits version advisory with
  | none => exact absurd (isAffected?_eq_none_iff.mp hanswer) (not_trips h)
  | some answer => simp

/-! ## Upgrades -/

/-- Whether two texts are versions of one branch, neither older than the advisory, the second
one the same or a later version. -/
structure Upgrade (limits : Limits) (advisory : Advisory) (v w : Str) (old new : Version) : Prop where
  old_eq : parseVersion limits v = some old
  new_eq : parseVersion limits w = some new
  le : versionKey old ≤ versionKey new
  branch : old.nums.take 2 = new.nums.take 2
  old_notOlder : NotOlder limits advisory old
  new_notOlder : NotOlder limits advisory new

theorem Upgrade.applies {advisory : Advisory} {v w : Str} {old new : Version}
    (h : Upgrade limits advisory v w old new) (happlies : Applies limits w advisory) :
    Applies limits v advisory := by
  obtain ⟨parsed, fixes, fix, hparsed, hfixes, -, hfix, hlt⟩ := happlies
  obtain rfl : new = parsed := Option.some_inj.mp (h.new_eq.symm.trans hparsed)
  exact ⟨old, fixes, fix, h.old_eq, hfixes, h.old_notOlder, (highestFix_congr h.branch).mpr hfix,
    h.le.trans_lt hlt⟩

/-- An upgrade within a branch does not bring an advisory back, and from the highest fix on
there is none. -/
theorem upgrade_stays_safe (limits : Limits) (advisory : Advisory)
    (hbounds : BoundsParse limits advisory) :
    (∀ v w old new, Upgrade limits advisory v w old new →
        isAffected? limits v advisory = some false → isAffected? limits w advisory = some false) ∧
      ∀ v parsed fixes fix, parseVersion limits v = some parsed →
        advisory.fixed.mapM (parseVersion limits) = some fixes → HighestFix parsed fixes fix →
        versionKey fix ≤ versionKey parsed → isAffected? limits v advisory = some false := by
  simp only [isAffected?_eq_some_false_iff hbounds]
  constructor
  · intro v w old new hupgrade hsafe happlies
    exact hsafe (hupgrade.applies happlies)
  · rintro v parsed fixes fix hparsed hfixes hfix hle
      ⟨parsed', fixes', fix', hparsed', hfixes', -, hfix', hlt⟩
    obtain rfl : parsed = parsed' := Option.some_inj.mp (hparsed.symm.trans hparsed')
    obtain rfl : fixes = fixes' := Option.some_inj.mp (hfixes.symm.trans hfixes')
    exact absurd ((hfix.2 fix' hfix'.1).trans hle) (not_le.mpr hlt)

/-- The recursive clone of git: from `2.44.1` to `2.44.3`. -/
theorem upgrade_stays_safe_git : ∃ advisory : Advisory, advisory.fixed = [lit "2.45.1", lit "2.44.1"] ∧
    isAffected? ⟨1000, 4300⟩ "2.44.3" advisory = some false := by
  refine ⟨⟨"CVE-2024-32002", "git", "", ["2.45.1", "2.44.1"], none, ""⟩, rfl, ?_⟩
  have hbounds : BoundsParse ⟨1000, 4300⟩
      ⟨"CVE-2024-32002", "git", "", ["2.45.1", "2.44.1"], none, ""⟩ :=
    ⟨by decide +kernel, fun _ h => absurd h (by simp)⟩
  refine (upgrade_stays_safe _ _ hbounds).1 "2.44.1" "2.44.3" ⟨[2, 44, 1], none⟩ ⟨[2, 44, 3], none⟩
    ⟨by decide +kernel, by decide +kernel, ?_, rfl, fun _ h => absurd h (by simp),
      fun _ h => absurd h (by simp)⟩ (by decide +kernel)
  exact (versionKey_lt_of_nums (by decide)).le

/-! ## Bundles -/

/-- `Advisory`, with the severity that the rule pack does not read. -/
structure BundleAdvisory extends Advisory where
  severity : Str

/-- `AdvisoryBundle`. -/
structure AdvisoryBundle where
  published : Str
  source : Str
  advisories : List BundleAdvisory
  signed : Bool
  schemaVersion : Str
  covers : List Str

/-- `AdvisoryError`. -/
def advisoryError (text : Str) : Exc := ⟨.other "AdvisoryError", text⟩

section Code

variable (rt : Runtime)

/-- `str(entry[key])` -/
def textField (entry : Json) (key : Str) : Except Exc Str := do
  let value ← entry.getItem key
  value.toStr rt

/-- The advisory of one entry, before the exceptions of the entry are renamed. -/
def readEntry (entry : List (Str × Json)) : Except Exc BundleAdvisory := do
  let raw ← (Json.obj entry).getItem "fixed"
  let fixed ← (← iterate raw).mapM (Json.toStr rt)
  let id ← textField rt (.obj entry) "id"
  let tool ← textField rt (.obj entry) "tool"
  let summary ← textField rt (.obj entry) "summary"
  let reference ← textField rt (.obj entry) "reference"
  let severity ← ((dictGet? entry "severity").getD (.str "unknown")).toStr rt
  let introduced ← match dictGet? entry "introduced" with
    | none | some .null => pure none
    | some value => (value.toStr rt).map some
  return ⟨⟨id, tool, summary, fixed, introduced, reference⟩, severity⟩

/-- One entry of `advisories`. -/
def parseEntry (index : ℕ) (entry : Json) : Except Exc BundleAdvisory :=
  match entry with
  | .obj fields =>
    match readEntry rt fields with
    | .error exc =>
      if exc.type = .keyError ∨ exc.type = .typeError then
        .error (advisoryError (lit "advisory #" ++ natStr index ++ lit " is missing " ++ exc.text))
      else .error exc
    | .ok advisory => .ok advisory
  | _ => .error (advisoryError (lit "advisory #" ++ natStr index ++ lit " is not an object"))

/-- `parse_bundle`. -/
def parseBundle (payload : List (Str × Json)) (source : Str) (signed : Bool) :
    Except Exc AdvisoryBundle := do
  let schema ← (((dictGet? payload "schema_version").getD .null).orElse (.str [])).toStr rt
  if schema ≠ lit "1.0" then
    .error (advisoryError (lit "advisory bundle schema " ++
      rt.strRepr (if schema = [] then "missing" else schema) ++ lit "; this build reads " ++
      rt.strRepr "1.0"))
  else
    match dictGet? payload "advisories" with
    | some (.arr entries) => do
      let advisories ← (entries.zipIdx).mapM fun (entry, index) => parseEntry rt index entry
      let published ← (((dictGet? payload "published").getD .null).orElse (.str "unknown")).toStr rt
      let covers ← match dictGet? payload "covers" with
        | some (.arr tools) => tools.mapM (Json.toStr rt)
        | _ => pure ((advisories.map (·.tool)).dedup.mergeSort strLe)
      return ⟨published, source, advisories, signed, "1.0", covers⟩
    | _ => .error (advisoryError "advisory bundle has no `advisories` list")

end Code

/-- `AdvisoryBundle.for_tool`. -/
def AdvisoryBundle.forTool (bundle : AdvisoryBundle) (tool : Str) : List BundleAdvisory :=
  bundle.advisories.filter fun a => a.tool = tool

/-- The hits of one tool; `none` stands for the `ValueError` of `is_affected`. -/
def toolHits? (limits : Limits) (bundle : AdvisoryBundle) (item : Str × Option Str) :
    Option (List (Str × Str × BundleAdvisory)) :=
  match item.2 with
  | none | some [] => some []
  | some version =>
    ((bundle.forTool item.1).mapM fun a =>
      (isAffected? limits version a.toAdvisory).map fun hit =>
        if hit then [(item.1, version, a)] else []).map List.flatten

/-- `affected_tools`; `none` stands for the `ValueError` that ends it. -/
def affectedTools? (limits : Limits) (tools : Dict Str (Option Str)) (bundle : AdvisoryBundle) :
    Option (List (Str × Str × BundleAdvisory)) :=
  ((sortedItems tools).mapM (toolHits? limits bundle)).map List.flatten

/-! ## The list of a bundle -/

open Classical in
/-- Every tool, version and advisory that applies, by tool and in the order of the bundle. -/
noncomputable def applying (limits : Limits) (tools : Dict Str (Option Str))
    (bundle : AdvisoryBundle) : List (Str × Str × BundleAdvisory) :=
  (sortedItems tools).flatMap fun item =>
    match item.2 with
    | none | some [] => []
    | some version =>
      (bundle.advisories.filter fun a => a.tool = item.1 ∧ Applies limits version a.toAdvisory).map
        (item.1, version, ·)

/-- A tool with a version reaches only such `introduced` as are versions. -/
def IntroducedParse (limits : Limits) (tools : Dict Str (Option Str)) (bundle : AdvisoryBundle) :
    Prop :=
  ∀ name version, tools.get? name = some (some version) → version ≠ [] →
    (parseVersion limits version).isSome = true → ∀ a ∈ bundle.advisories, a.tool = name →
      a.fixed ≠ [] → (∀ text ∈ a.fixed, (parseVersion limits text).isSome = true) →
        ∀ text ∈ a.introduced, text ≠ [] → (parseVersion limits text).isSome = true

variable {tools : Dict Str (Option Str)} {bundle : AdvisoryBundle}

theorem introducedParse_iff : IntroducedParse limits tools bundle ↔
    ∀ name version, tools.get? name = some (some version) → version ≠ [] →
      ∀ a ∈ bundle.forTool name, ¬Trips limits version a.toAdvisory := by
  unfold IntroducedParse AdvisoryBundle.forTool Trips
  simp only [List.mem_filter, decide_eq_true_eq, not_and, not_exists, and_imp,
    ← Option.isSome_iff_ne_none, ← ne_eq]
  exact ⟨fun h name version hget hne a ha htool hparse => h name version hget hne hparse a ha htool,
    fun h name version hget hne hparse a ha htool => h name version hget hne a ha htool hparse⟩

theorem flatten_map_ite {α β : Type} (l : List α) (p : α → Bool) (g : α → β) :
    (l.map fun a => if p a then [g a] else []).flatten = (l.filter p).map g := by
  induction l with
  | nil => rfl
  | cons a l ih =>
    rw [List.map_cons, List.flatten_cons, ih, List.filter_cons]
    split_ifs
    · rfl
    · rfl

open Classical in
theorem isAffected?_eq_decide {version : Str} {advisory : Advisory}
    (h : ¬Trips limits version advisory) :
    isAffected? limits version advisory = some (decide (Applies limits version advisory)) := by
  cases hanswer : isAffected? limits version advisory with
  | none => exact absurd (isAffected?_eq_none_iff.mp hanswer) h
  | some answer =>
    have happlies := @isAffected?_iff_applies limits version advisory
    rw [hanswer, Option.some_inj] at happlies
    rw [Option.some_inj, Bool.eq_iff_iff, happlies, decide_eq_true_eq]

open Classical in
/-- The hits of one tool, where none of its advisories ends the list. -/
theorem toolHits?_eq {item : Str × Option Str}
    (h : ∀ version, item.2 = some version → version ≠ [] →
      ∀ a ∈ bundle.forTool item.1, ¬Trips limits version a.toAdvisory) :
    toolHits? limits bundle item = some (match item.2 with
      | none | some [] => []
      | some version =>
        (bundle.advisories.filter fun a =>
          a.tool = item.1 ∧ Applies limits version a.toAdvisory).map (item.1, version, ·)) := by
  obtain ⟨name, installed⟩ := item
  unfold toolHits?
  cases installed with
  | none => rfl
  | some version =>
    cases version with
    | nil => rfl
    | cons c rest =>
      have hclean := h (c :: rest) rfl (List.cons_ne_nil _ _)
      have hread : ((bundle.forTool name).mapM fun a =>
          (isAffected? limits (c :: rest) a.toAdvisory).map fun hit =>
            if hit then [(name, (c :: rest), a)] else []) =
          some ((bundle.forTool name).map fun a =>
            if decide (Applies limits (c :: rest) a.toAdvisory) then [(name, (c :: rest), a)] else []) := by
        refine mapM_eq_map fun a ha => ?_
        rw [isAffected?_eq_decide (hclean a ha)]
        rfl
      have hsame : (bundle.advisories.filter fun a =>
          decide (Applies limits (c :: rest) a.toAdvisory) && decide (a.tool = name)) =
          bundle.advisories.filter fun a =>
            a.tool = name ∧ Applies limits (c :: rest) a.toAdvisory :=
        List.filter_congr fun a _ => by rw [Bool.and_comm, Bool.decide_and]
      dsimp only
      rw [hread, Option.map_some, flatten_map_ite, AdvisoryBundle.forTool, List.filter_filter, hsame]

/-- The list is that of all advisories that apply as long as it reaches no `introduced` that
is not a version. -/
theorem affectedTools?_eq_iff :
    affectedTools? limits tools bundle = some (applying limits tools bundle) ↔
      IntroducedParse limits tools bundle := by
  rw [introducedParse_iff]
  constructor
  · intro h name version hget hne a ha htrips
    obtain ⟨hits, hhits, -⟩ := Option.map_eq_some_iff.mp h
    have hitem : (name, some version) ∈ sortedItems tools :=
      List.mem_mergeSort.mpr (Dict.mem_items_iff.mpr hget)
    obtain ⟨found, -, hfound⟩ := exists_of_mapM hhits hitem
    cases version with
    | nil => exact hne rfl
    | cons c rest =>
      obtain ⟨lists, hlists, -⟩ := Option.map_eq_some_iff.mp hfound
      obtain ⟨list, -, hlist⟩ := exists_of_mapM hlists ha
      rw [isAffected?_eq_none_iff.mpr htrips] at hlist
      cases hlist
  · intro h
    have hread : (sortedItems tools).mapM (toolHits? limits bundle) = some ((sortedItems tools).map _) :=
      mapM_eq_map fun item hitem => toolHits?_eq fun version hversion hne =>
        h item.1 version (hversion ▸ Dict.get?_of_mem (List.mem_mergeSort.mp hitem)) hne
    rw [affectedTools?, hread, Option.map_some, ← List.flatMap_def]
    rfl

/-- Every advisory that applies is listed, and nothing else, exactly when no `introduced` that
is reached is a text that does not parse. -/
theorem reports_all_iff (limits : Limits) (bundle : AdvisoryBundle)
    (tools : Dict Str (Option Str)) :
    affectedTools? limits tools bundle = some (applying limits tools bundle) ↔
      IntroducedParse limits tools bundle :=
  affectedTools?_eq_iff

/-- An entry for git, with more fields. -/
def gitEntry (id : Str) (more : List (Str × Json)) : Json :=
  .obj (("id", .str id) :: ("tool", .str "git") :: ("summary", .str "text") ::
    ("fixed", .arr [.str "2.35.2"]) :: ("reference", .str "page") :: more)

/-- A bundle of two entries for git, one with an `introduced` that is no version. -/
def twoEntries : List (Str × Json) :=
  [("schema_version", .str "1.0"), ("covers", .arr [.str "git"]),
    ("advisories", .arr [gitEntry "A-1" [("introduced", .str "unknown")], gitEntry "A-2" []])]

/-- The first entry of the bundle ends the list, although the second one applies. -/
theorem unreadable_hides_advisory : ∃ bundle,
    parseBundle .standard twoEntries "advisories.json" true = .ok bundle ∧
      (∃ a ∈ bundle.advisories, a.tool = lit "git" ∧
        Applies ⟨1000, 4300⟩ "2.30.0" a.toAdvisory) ∧
      affectedTools? ⟨1000, 4300⟩ (Dict.empty.set "git" (some "2.30.0")) bundle = none := by
  refine ⟨_, rfl, ⟨_, List.mem_cons_of_mem _ List.mem_cons_self, rfl, ?_⟩, ?_⟩
  · rw [← isAffected?_iff_applies]
    decide +kernel
  · rw [affectedTools?, sortedItems, show (Dict.empty.set (lit "git") (some (lit "2.30.0"))).items =
      [(lit "git", some (lit "2.30.0"))] from rfl, List.mergeSort_singleton]
    have hhits : ∀ hits : Option (List (Str × Str × BundleAdvisory)), hits.isNone = true → hits = none :=
      fun hits => Option.isNone_iff_eq_none.mp
    exact hhits _ (by decide +kernel)

end DevRepro.Rules
