import DevRepro.Python.SortedKeys
import DevRepro.Server.Backup

/-!
# What a restore writes

A restore either refuses the archive or writes every regular file in it.  The
manifest is only asked about the files that it declares, so a member that it
does not declare is written unchecked; and the loop finds a name that is no
file name, or a file that cannot be opened, when it has begun to write.

`restore_safe_iff` says when a restore is all or nothing: when reading the
archive raises nothing that escapes, and when every member of an archive that
passes the checks is declared and can be written.
-/

namespace DevRepro.Server

open DevRepro.Python

variable {host : Host} {tar : Tar} {folder : Folder} {targetName : Str}

/-! ## What an archive holds -/

/-- A member, other than the manifest, that is a regular file. -/
structure Tar.Holds (tar : Tar) (name : Str) (blob : ByteArray) : Prop where
  listed : name ∈ tar.names
  notManifest : name ≠ manifestName
  read : tar.read name = .ok (some blob)

/-- The fault of reading a member. -/
def Tar.fault? (tar : Tar) (name : Str) : Option TarFault :=
  match tar.read name with
  | .error fault => some fault
  | .ok _ => none

/-- The members in the order in which they are read. -/
def Tar.others (tar : Tar) : List Str := (tar.names.filter (· ≠ manifestName)).eraseDups

/-- The first fault of reading the members, and the manifest last. -/
def Tar.failure (tar : Tar) : Option TarFault :=
  (tar.others ++ [manifestName]).findSome? tar.fault?

theorem Tar.mem_others {name : Str} :
    name ∈ tar.others ↔ name ∈ tar.names ∧ name ≠ manifestName := by
  simp [Tar.others]

theorem extractMembers_ok {names : List Str} {extracted : List (Str × ByteArray)}
    (h : extractMembers tar names = .ok extracted) (name : Str) (blob : ByteArray) :
    (name, blob) ∈ extracted ↔ name ∈ names ∧ tar.read name = .ok (some blob) := by
  induction names generalizing extracted with
  | nil =>
    cases h
    simp
  | cons first rest ih =>
    rw [extractMembers] at h
    cases hread : tar.read first with
    | error fault =>
      rw [hread] at h
      cases h
    | ok found =>
      cases found with
      | none =>
        simp only [hread] at h
        rw [ih h, List.mem_cons]
        constructor
        · exact fun hrest => ⟨Or.inr hrest.1, hrest.2⟩
        · intro ⟨hname, hblob⟩
          rcases hname with rfl | hname
          · rw [hread] at hblob
            cases hblob
          · exact ⟨hname, hblob⟩
      | some bytes =>
        simp only [hread] at h
        rcases bind_eq_ok.mp h with ⟨others, hothers, hcons⟩
        cases hcons
        rw [List.mem_cons, ih hothers, List.mem_cons, Prod.mk.injEq]
        constructor
        · intro hmem
          rcases hmem with ⟨rfl, rfl⟩ | ⟨hname, hblob⟩
          · exact ⟨Or.inl rfl, hread⟩
          · exact ⟨Or.inr hname, hblob⟩
        · intro ⟨hname, hblob⟩
          rcases hname with rfl | hname
          · rw [hread] at hblob
            cases hblob
            exact Or.inl ⟨rfl, rfl⟩
          · exact Or.inr ⟨hname, hblob⟩

/-- Extraction fails with the first fault. -/
theorem extractMembers_fault (names : List Str) :
    (∃ extracted, extractMembers tar names = .ok extracted ∧ names.findSome? tar.fault? = none) ∨
      ∃ fault, extractMembers tar names = .error fault ∧
        names.findSome? tar.fault? = some fault := by
  induction names with
  | nil => exact Or.inl ⟨[], rfl, rfl⟩
  | cons first rest ih =>
    rw [extractMembers, List.findSome?_cons, Tar.fault?]
    cases hread : tar.read first with
    | error fault => exact Or.inr ⟨fault, rfl, rfl⟩
    | ok found =>
      rcases ih with ⟨others, hothers, hnone⟩ | ⟨fault, hfault, hsome⟩
      · cases found with
        | none => exact Or.inl ⟨others, hothers, hnone⟩
        | some bytes =>
          refine Or.inl ⟨(first, bytes) :: others, ?_, hnone⟩
          simp only [hothers]
          rfl
      · cases found with
        | none => exact Or.inr ⟨fault, hfault, hsome⟩
        | some bytes =>
          refine Or.inr ⟨fault, ?_, hsome⟩
          simp only [hfault]
          rfl

/-- The bytes that extraction finds under a name. -/
theorem member?_eq_some_iff {extracted : List (Str × ByteArray)}
    (h : extractMembers tar tar.others = .ok extracted) {name : Str} {blob : ByteArray} :
    member? extracted name = some blob ↔ tar.Holds name blob := by
  have hmem := extractMembers_ok h
  constructor
  · intro hfound
    rw [member?, Option.map_eq_some_iff] at hfound
    rcases hfound with ⟨⟨other, bytes⟩, hfind, rfl⟩
    have hname : other = name := by simpa using List.find?_some hfind
    rw [hname] at hfind
    have hheld := (hmem name bytes).mp (List.mem_of_find?_eq_some hfind)
    have hlisted := Tar.mem_others.mp hheld.1
    exact ⟨hlisted.1, hlisted.2, hheld.2⟩
  · intro hholds
    have hextracted := (hmem name blob).mpr ⟨Tar.mem_others.mpr ⟨hholds.1, hholds.2⟩, hholds.3⟩
    cases hfind : extracted.find? fun member => member.1 = name with
    | none =>
      rw [List.find?_eq_none] at hfind
      have hnot := hfind (name, blob) hextracted
      simp at hnot
    | some found =>
      have hname : found.1 = name := by simpa using List.find?_some hfind
      have hfound := (hmem found.1 found.2).mp (List.mem_of_find?_eq_some hfind)
      rw [hname, hholds.read] at hfound
      rw [member?, hfind, Option.map_some]
      have hsame : blob = found.2 := by simpa using hfound.2
      rw [hsame]

/-! ## The checks -/

theorem matchesDigest_iff {blob : ByteArray} {digest : Json} :
    matchesDigest host blob digest = true ↔ digest = .str (host.hash.hexdigest blob) := by
  cases digest with
  | str text =>
    rw [matchesDigest, decide_eq_true_iff, Json.str.injEq]
    exact eq_comm
  | _ => simp [matchesDigest]

/-- The declared members are there, with their digests. -/
def Declared (host : Host) (extracted : List (Str × ByteArray)) (declared : List (Str × Json)) :
    Prop :=
  ∀ item ∈ declared, ∃ blob, member? extracted item.1 = some blob ∧
    item.2 = .str (host.hash.hexdigest blob)

theorem verifyMembers_cases (extracted : List (Str × ByteArray)) (declared : List (Str × Json)) :
    (verifyMembers host extracted declared = .ok () ∧ Declared host extracted declared) ∨
      ((∃ text, verifyMembers host extracted declared = .error (.restoreError text)) ∧
        ¬Declared host extracted declared) := by
  induction declared with
  | nil => exact Or.inl ⟨rfl, fun item hitem => absurd hitem List.not_mem_nil⟩
  | cons item rest ih =>
    rw [verifyMembers]
    cases hfound : member? extracted item.1 with
    | none =>
      refine Or.inr ⟨⟨_, rfl⟩, fun hall => ?_⟩
      rcases hall item List.mem_cons_self with ⟨blob, hblob, _⟩
      rw [hfound] at hblob
      cases hblob
    | some blob =>
      by_cases hdigest : matchesDigest host blob item.2 = true
      · have hhead : ∃ found, member? extracted item.1 = some found ∧
            item.2 = .str (host.hash.hexdigest found) :=
          ⟨blob, hfound, matchesDigest_iff.mp hdigest⟩
        simp only [if_pos hdigest]
        rcases ih with ⟨hok, hrest⟩ | ⟨herror, hrest⟩
        · exact Or.inl ⟨hok, List.forall_mem_cons.mpr ⟨hhead, hrest⟩⟩
        · exact Or.inr ⟨herror, fun hall => hrest (List.forall_mem_cons.mp hall).2⟩
      · simp only [if_neg hdigest]
        refine Or.inr ⟨⟨_, rfl⟩, fun hall => hdigest ?_⟩
        rcases hall item List.mem_cons_self with ⟨found, hsome, hmatch⟩
        rw [hfound, Option.some.injEq] at hsome
        rw [hsome]
        exact matchesDigest_iff.mpr hmatch

/-- The conditions that the checks ask of an archive. -/
structure Checked (host : Host) (targetName : Str) (extracted : List (Str × ByteArray))
    (manifest declared : List (Str × Json)) : Prop where
  members : dictGet? manifest "members" = some (.obj declared)
  declared : Declared host extracted declared
  format : dictGet? manifest "format" = some (.str backupFormat)
  target : targetName ∈ extracted.map Prod.fst

theorem checkArchive_cases (extracted : List (Str × ByteArray)) (manifest : List (Str × Json)) :
    (checkArchive host targetName extracted manifest = .ok () ∧
        ∃ declared, Checked host targetName extracted manifest declared) ∨
      ((∃ text, checkArchive host targetName extracted manifest = .error (.restoreError text)) ∧
        ∀ declared, ¬Checked host targetName extracted manifest declared) := by
  by_cases hmembers : ∃ declared, dictGet? manifest "members" = some (.obj declared)
  swap
  · refine Or.inr ⟨?_, fun declared hchecked => hmembers ⟨declared, hchecked.members⟩⟩
    rw [checkArchive]
    split
    · rename_i declared hfound
      exact absurd ⟨declared, hfound⟩ hmembers
    · exact ⟨_, rfl⟩
  rcases hmembers with ⟨declared, hmembers⟩
  have hunique : ∀ other, dictGet? manifest "members" = some (.obj other) → other = declared := by
    intro other hother
    rw [hmembers] at hother
    cases hother
    rfl
  simp only [checkArchive, hmembers]
  rcases @verifyMembers_cases host extracted (sortByKey declared) with
    ⟨hok, hdeclared⟩ | ⟨⟨text, herror⟩, hdeclared⟩
  swap
  · refine Or.inr ⟨⟨text, by simp only [herror]⟩, fun other hchecked => hdeclared ?_⟩
    intro item hitem
    rw [hunique other hchecked.members] at hchecked
    exact hchecked.declared item ((sortByKey_perm declared).mem_iff.mp hitem)
  simp only [hok]
  by_cases hformat : dictGet? manifest "format" = some (.str backupFormat)
  swap
  · refine Or.inr ⟨?_, fun other hchecked => hformat hchecked.format⟩
    split
    · rename_i format hfound
      have hne : format ≠ backupFormat := fun heq => hformat (heq ▸ hfound)
      rw [if_pos hne]
      exact ⟨_, rfl⟩
    · exact ⟨_, rfl⟩
  simp only [hformat, ne_eq, not_true_eq_false, if_false]
  by_cases htarget : targetName ∈ extracted.map Prod.fst
  · rw [if_neg (not_not_intro htarget)]
    refine Or.inl ⟨rfl, declared, hmembers, ?_, hformat, htarget⟩
    exact fun item hitem => hdeclared item ((sortByKey_perm declared).mem_iff.mpr hitem)
  · rw [if_pos htarget]
    exact Or.inr ⟨⟨_, rfl⟩, fun other hchecked => htarget hchecked.target⟩

/-! ## The write loop -/

/-- The loop can write a member under a name. -/
structure Writable (folder : Folder) (targetName name : Str) : Prop where
  target : targetName ≠ []
  plain : isPlainName name = true
  open_ : folder.refuses name = none

/-- The loop writes every member, or raises something other than a
`RestoreError`. -/
theorem writeMembers_cases (members : List (Str × ByteArray)) :
    (writeMembers folder targetName members = ⟨.ok (), members⟩ ∧
        ∀ member ∈ members, Writable folder targetName member.1) ∨
      ((∃ exc, (writeMembers folder targetName members).result = .error (.other exc)) ∧
        ¬∀ member ∈ members, Writable folder targetName member.1) := by
  induction members with
  | nil => exact Or.inl ⟨rfl, fun member hmember => absurd hmember List.not_mem_nil⟩
  | cons member rest ih =>
    rw [writeMembers]
    by_cases hname : targetName = [] ∨ isPlainName member.1 = false
    · rw [if_pos hname]
      refine Or.inr ⟨⟨_, rfl⟩, fun hall => ?_⟩
      have hwritable := hall member List.mem_cons_self
      rcases hname with hempty | hplain
      · exact hwritable.target hempty
      · rw [hwritable.plain] at hplain
        cases hplain
    · rw [if_neg hname]
      rw [not_or, Bool.not_eq_false] at hname
      cases hopen : folder.refuses member.1 with
      | some exc =>
        refine Or.inr ⟨⟨exc, rfl⟩, fun hall => ?_⟩
        have hwritable := (hall member List.mem_cons_self).open_
        rw [hopen] at hwritable
        cases hwritable
      | none =>
        rcases ih with ⟨hrun, hrest⟩ | ⟨⟨exc, herror⟩, hrest⟩
        · refine Or.inl ⟨by simp only [hrun], ?_⟩
          exact List.forall_mem_cons.mpr ⟨⟨hname.1, hname.2, hopen⟩, hrest⟩
        · exact Or.inr ⟨⟨exc, herror⟩, fun hall => hrest (List.forall_mem_cons.mp hall).2⟩

theorem writeMembers_sublist (members : List (Str × ByteArray)) :
    (writeMembers folder targetName members).writes.Sublist members := by
  induction members with
  | nil => exact List.Sublist.slnil
  | cons member rest ih =>
    rw [writeMembers]
    split_ifs
    · exact List.nil_sublist _
    · split
      · exact List.nil_sublist _
      · exact ih.cons_cons member

/-! ## Reading an archive -/

/-- The manifest is a regular file with a JSON object. -/
def HasObject (host : Host) (tar : Tar) (manifest : List (Str × Json)) : Prop :=
  ∃ bytes, tar.read manifestName = .ok (some bytes) ∧
    parseManifest host bytes = .ok (.obj manifest)

/-- The manifest is a regular file, which `json.loads` parses or refuses with a
`ValueError`. -/
def Parses (host : Host) (tar : Tar) : Prop :=
  ∃ bytes, tar.read manifestName = .ok (some bytes) ∧
    ∀ exc, parseManifest host bytes = .error exc → exc.type.isValueError = true

/-- Every member can be read, and the manifest is a JSON object. -/
structure Manifest (host : Host) (tar : Tar) (manifest : List (Str × Json)) : Prop where
  listed : manifestName ∈ tar.names
  noFault : tar.failure = none
  object : HasObject host tar manifest

theorem manifest_unique {manifest other : List (Str × Json)} (h : Manifest host tar manifest)
    (h' : Manifest host tar other) : manifest = other := by
  rcases h.object with ⟨bytes, hbytes, hparse⟩
  rcases h'.object with ⟨bytes', hbytes', hparse'⟩
  rw [hbytes] at hbytes'
  cases hbytes'
  rw [hparse] at hparse'
  cases hparse'
  rfl

/-- Reading the archive raises nothing but what becomes a `RestoreError`: the
first fault is one of an unreadable archive, and without a fault the manifest
parses. -/
def ReadsCleanly (host : Host) (tar : Tar) : Prop :=
  manifestName ∈ tar.names →
    match tar.failure with
    | some fault => ∃ text, fault = .unreadable text
    | none => Parses host tar

/-- A `RestoreError`. -/
def Raised.IsRestore (raised : Raised) : Prop := ∃ text, raised = .restoreError text

theorem raised_isRestore (fault : TarFault) :
    fault.raised.IsRestore ↔ ∃ text, fault = .unreadable text := by
  cases fault with
  | unreadable text => exact iff_of_true ⟨_, rfl⟩ ⟨text, rfl⟩
  | other exc => simp [TarFault.raised, Raised.IsRestore]

theorem readManifest_cases (host : Host) (hfault : tar.fault? manifestName = none) :
    (∃ manifest, readManifest host tar = .ok manifest ∧ HasObject host tar manifest) ∨
      ∃ raised, readManifest host tar = .error raised ∧ (raised.IsRestore ↔ Parses host tar) ∧
        ∀ manifest, ¬HasObject host tar manifest := by
  rw [Tar.fault?] at hfault
  simp only [readManifest, HasObject, Parses]
  cases hread : tar.read manifestName with
  | error fault =>
    rw [hread] at hfault
    cases hfault
  | ok found =>
    cases found with
    | none => exact Or.inr ⟨_, rfl, by simp [Raised.IsRestore], by simp⟩
    | some bytes =>
      simp only [Except.ok.injEq, Option.some.injEq, exists_eq_left']
      cases hparse : parseManifest host bytes with
      | error exc =>
        by_cases hvalue : exc.type.isValueError = true
        · refine Or.inr ⟨_, if_pos hvalue, iff_of_true ⟨_, rfl⟩ ?_, by simp⟩
          intro other hother
          rw [Except.error.injEq] at hother
          rw [← hother]
          exact hvalue
        · refine Or.inr ⟨_, if_neg hvalue, iff_of_false (by simp [Raised.IsRestore]) ?_, by simp⟩
          exact fun hall => hvalue (hall exc rfl)
      | ok value =>
        cases value with
        | obj manifest => exact Or.inl ⟨manifest, rfl, rfl⟩
        | _ => exact Or.inr ⟨_, rfl, iff_of_true ⟨_, rfl⟩ (by simp), by simp⟩

theorem failure_eq (tar : Tar) :
    tar.failure = (tar.others.findSome? tar.fault?).or (tar.fault? manifestName) := by
  rw [Tar.failure, List.findSome?_append]
  simp

/-- Reading an archive gives its members and its manifest, or it raises, and a
`RestoreError` exactly when it reads cleanly. -/
theorem readArchive_cases (host : Host) (tar : Tar) :
    (∃ extracted manifest, readArchive host tar = .ok (extracted, manifest) ∧
        extractMembers tar tar.others = .ok extracted ∧ Manifest host tar manifest) ∨
      ∃ raised, readArchive host tar = .error raised ∧
        (raised.IsRestore ↔ ReadsCleanly host tar) ∧ ∀ manifest, ¬Manifest host tar manifest := by
  by_cases hlisted : manifestName ∈ tar.names
  swap
  · refine Or.inr ⟨.restoreError "archive has no manifest.json", ?_, ?_, ?_⟩
    · rw [readArchive, if_pos hlisted]
    · exact iff_of_true ⟨_, rfl⟩ fun h => absurd h hlisted
    · exact fun manifest h => hlisted h.listed
  have hclean : ∀ fault, tar.failure = some fault →
      (fault.raised.IsRestore ↔ ReadsCleanly host tar) ∧ ∀ manifest, ¬Manifest host tar manifest := by
    intro fault hsome
    refine ⟨?_, fun manifest h => ?_⟩
    · simp only [raised_isRestore, ReadsCleanly, hsome]
      exact ⟨fun h _ => h, fun h => h hlisted⟩
    · rw [h.noFault] at hsome
      cases hsome
  rcases @extractMembers_fault tar tar.others with
    ⟨extracted, hextracted, hnone⟩ | ⟨fault, hextracted, hsome⟩
  swap
  · have hread : readArchive host tar = .error fault.raised := by
      rw [readArchive, if_neg (not_not_intro hlisted), ← Tar.others, hextracted]
    exact Or.inr ⟨fault.raised, hread, hclean fault (by rw [failure_eq, hsome]; rfl)⟩
  have hread : readArchive host tar = do
      let manifest ← readManifest host tar
      return (extracted, manifest) := by
    rw [readArchive, if_neg (not_not_intro hlisted), ← Tar.others, hextracted]
  rw [hread]
  cases hfault : tar.fault? manifestName with
  | some fault =>
    refine Or.inr ⟨fault.raised, ?_, hclean fault (by rw [failure_eq, hnone, hfault]; rfl)⟩
    have hmanifest : readManifest host tar = .error fault.raised := by
      rw [Tar.fault?] at hfault
      rw [readManifest]
      cases hfound : tar.read manifestName with
      | error other =>
        rw [hfound] at hfault
        cases hfault
        rfl
      | ok found =>
        rw [hfound] at hfault
        cases hfault
    simp only [hmanifest]
    rfl
  | none =>
    have hfine : tar.failure = none := by
      rw [failure_eq, hnone, hfault]
      rfl
    rcases readManifest_cases host hfault with
      ⟨manifest, hmanifest, hobject⟩ | ⟨raised, hmanifest, hparses, hno⟩
    · refine Or.inl ⟨extracted, manifest, ?_, hextracted, hlisted, hfine, hobject⟩
      simp only [hmanifest]
      rfl
    · refine Or.inr ⟨raised, ?_, ?_, fun manifest h => hno manifest h.object⟩
      · simp only [hmanifest]
        rfl
      · simp only [hparses, ReadsCleanly, hfine]
        exact ⟨fun h _ => h, fun h => h hlisted⟩

/-! ## Archives of regular files -/

section Archives

variable {members : List (Str × ByteArray)} {bytes : ByteArray}

/-- Different members have different names, and none is called like the
manifest. -/
structure Members (members : List (Str × ByteArray)) : Prop where
  distinct : (members.map Prod.fst).Nodup
  notManifest : manifestName ∉ members.map Prod.fst
  paired : ∀ member ∈ members, WellPaired member.1

theorem member?_iff (h : (members.map Prod.fst).Nodup) {name : Str} {blob : ByteArray} :
    member? members name = some blob ↔ (name, blob) ∈ members := by
  constructor
  · intro hfound
    rw [member?, Option.map_eq_some_iff] at hfound
    rcases hfound with ⟨⟨other, bytes⟩, hfind, rfl⟩
    have hname : other = name := by simpa using List.find?_some hfind
    rw [← hname]
    exact List.mem_of_find?_eq_some hfind
  · intro hmem
    cases hfind : members.find? fun member => member.1 = name with
    | none =>
      rw [List.find?_eq_none] at hfind
      have hnot := hfind (name, blob) hmem
      simp at hnot
    | some found =>
      have hname : found.1 = (name, blob).1 := by simpa using List.find?_some hfind
      have hfound := List.inj_on_of_nodup_map h (List.mem_of_find?_eq_some hfind) hmem hname
      rw [member?, hfind, hfound]
      rfl

variable (members bytes) in
/-- The archive of some members and a manifest. -/
def archiveOf : Tar := Tar.ofMembers (members ++ [(manifestName, bytes)])

theorem archiveOf_read (h : Members members) (name : Str) (blob : ByteArray) :
    (archiveOf members bytes).read name = .ok (some blob) ↔
      (name, blob) ∈ members ++ [(manifestName, bytes)] := by
  have hdistinct : ((members ++ [(manifestName, bytes)]).reverse.map Prod.fst).Nodup := by
    rw [List.map_reverse, List.nodup_reverse, List.map_append, List.nodup_append]
    refine ⟨h.distinct, by simp, ?_⟩
    intro a ha b hb heq
    rw [heq, List.mem_singleton.mp hb] at ha
    exact h.notManifest ha
  rw [← List.mem_reverse, ← member?_iff hdistinct]
  simp only [archiveOf, Tar.ofMembers]
  cases member? (members ++ [(manifestName, bytes)]).reverse name with
  | none => simp
  | some found => simp

theorem archiveOf_holds (h : Members members) (name : Str) (blob : ByteArray) :
    (archiveOf members bytes).Holds name blob ↔ (name, blob) ∈ members := by
  have hnames : ∀ other, (name, other) ∈ members → name ≠ manifestName := by
    intro other hmem heq
    rw [heq] at hmem
    exact h.notManifest (List.mem_map_of_mem hmem)
  constructor
  · intro hholds
    have hread := (archiveOf_read h name blob).mp hholds.read
    rcases List.mem_append.mp hread with hmem | hmem
    · exact hmem
    · rw [List.mem_singleton, Prod.mk.injEq] at hmem
      exact absurd hmem.1 hholds.notManifest
  · intro hmem
    refine ⟨?_, hnames blob hmem, (archiveOf_read h name blob).mpr (List.mem_append_left _ hmem)⟩
    exact List.mem_map_of_mem (List.mem_append_left _ hmem)

/-- Every member of the archive can be read. -/
theorem archiveOf_noFault (h : Members members) : (archiveOf members bytes).failure = none := by
  rw [Tar.failure, List.findSome?_eq_none_iff]
  intro name hname
  have hlisted : name ∈ (members ++ [(manifestName, bytes)]).map Prod.fst := by
    rcases List.mem_append.mp hname with hother | hmanifest
    · exact (Tar.mem_others.mp hother).1
    · rw [List.mem_singleton.mp hmanifest]
      simp
  rcases List.mem_map.mp hlisted with ⟨member, hmember, rfl⟩
  rw [Tar.fault?, (archiveOf_read h member.1 member.2).mpr hmember]

theorem digests_readable {l : Limits} {level : Nat} (hroom : level < l.depth)
    (h : Members members) : Readable l level (.obj (digests host members)) := by
  refine .obj level _ hroom ?_ ?_ ?_
  · simpa [digests, Function.comp_def] using h.distinct
  · intro item hitem
    rcases List.mem_map.mp hitem with ⟨member, hmember, rfl⟩
    exact h.paired member hmember
  · intro item hitem
    rcases List.mem_map.mp hitem with ⟨member, hmember, rfl⟩
    exact .str _ _ (Snapshots.hexdigest_printable host.hash member.2).wellPaired

theorem backupManifest_readable (now : DateTime) (h : Members members) :
    Readable host.rt.limits 0 (.obj (backupManifest host now members)) := by
  have hdepth := host.rt.depth_ge
  have hdistinct : [lit "format", lit "version", lit "created_at", lit "members"].Nodup := by decide
  have hpaired : ∀ key ∈ [lit "format", lit "version", lit "created_at", lit "members"],
      WellPaired key := by decide
  refine .obj 0 _ (by omega) hdistinct (fun item hitem => ?_) fun item hitem => ?_
  · exact hpaired item.1 (List.mem_map_of_mem (f := Prod.fst) hitem)
  · simp only [backupManifest, List.mem_cons, List.not_mem_nil, or_false] at hitem
    rcases hitem with rfl | rfl | rfl | rfl
    · exact .str _ _ (by decide)
    · exact .int _ _ (fitsDigits_of_length host.rt (by decide))
    · exact .str _ _ (isoformat_printable now).wellPaired
    · exact digests_readable (by omega) h

/-- The manifest can be written, and it is ASCII. -/
theorem backupManifest_dumps (host : Host) (now : DateTime) (members : List (Str × ByteArray)) :
    ∃ text bytes, dumps host.rt (.indented 2) (.obj (backupManifest host now members)) = .ok text ∧
      text = dumpText host.rt (.indented 2) 0 (.obj (backupManifest host now members)) ∧
      encodeUtf8 text = some bytes := by
  have hdepth := host.rt.dumpsDepth_ge (some 2)
  have hdump : dumpError host.rt (.indented 2) 0 (.obj (backupManifest host now members)) = none := by
    rw [dumpError_obj_eq_none]
    refine ⟨lt_of_lt_of_le (by decide) hdepth, fun item hitem => ?_⟩
    simp only [backupManifest, List.mem_cons, List.not_mem_nil, or_false] at hitem
    rcases hitem with rfl | rfl | rfl | rfl
    · rfl
    · exact dumpError_int_eq_none.mpr (fitsDigits_of_length host.rt (by decide))
    · rfl
    · rw [dumpError_obj_eq_none]
      refine ⟨lt_of_lt_of_le (by decide) hdepth, fun item hitem => ?_⟩
      rcases List.mem_map.mp hitem with ⟨member, _, rfl⟩
      rfl
  have hascii : ∃ bytes, encodeUtf8
      (dumpText host.rt (.indented 2) 0 (.obj (backupManifest host now members))) = some bytes := by
    apply encodeUtf8_isSome
    intro c hc
    have hchar := dumpText_isDumpChar host.rt (.indented 2) _ 0 c hc
    rw [isDumpChar, Bool.or_eq_true] at hchar
    rcases hchar with hprint | hbreak
    · exact isSurrogate_of_isPrintableAscii hprint
    · rw [beq_iff_eq.mp hbreak]
      decide
  rcases hascii with ⟨bytes, hbytes⟩
  exact ⟨_, bytes, dumps_of_no_error hdump, rfl, hbytes⟩

/-- The archive of members with their manifest has the manifest. -/
theorem archiveOf_manifest (now : DateTime) (h : Members members)
    {declared : List (Str × ByteArray)} (hdeclared : Members declared) {text : Str}
    (htext : text = dumpText host.rt (.indented 2) 0 (.obj (backupManifest host now declared)))
    (hbytes : encodeUtf8 text = some bytes) :
    Manifest host (archiveOf members bytes) (backupManifest host now declared) := by
  refine ⟨by simp [archiveOf, Tar.ofMembers], archiveOf_noFault h, bytes, ?_, ?_⟩
  · exact (archiveOf_read h _ _).mpr (by simp)
  · have hdecode : host.decode bytes = .ok text := by
      apply host.decode_dump text bytes _ hbytes
      rw [htext]
      exact dumpText_isDumpChar host.rt (.indented 2) _ 0
    rw [parseManifest, hdecode, htext]
    exact loads_dumpText host.rt (.indented 2) (backupManifest_readable now hdeclared)

end Archives

/-! ## When a restore is all or nothing -/

/-- An archive that passes the checks for a target. -/
structure Verifies (host : Host) (tar : Tar) (targetName : Str)
    (manifest declared : List (Str × Json)) : Prop where
  read : Manifest host tar manifest
  members : dictGet? manifest "members" = some (.obj declared)
  declared : ∀ item ∈ declared, ∃ blob, tar.Holds item.1 blob ∧
    item.2 = .str (host.hash.hexdigest blob)
  format : dictGet? manifest "format" = some (.str backupFormat)
  target : ∃ blob, tar.Holds targetName blob

/-- The manifest of an archive declares a digest for a name. -/
def DeclaresDigest (host : Host) (archive : Option (Except TarFault Tar)) (name digest : Str) :
    Prop :=
  ∃ tar manifest declared, archive = some (.ok tar) ∧ Manifest host tar manifest ∧
    dictGet? manifest "members" = some (.obj declared) ∧ (name, .str digest) ∈ declared

/-- The restore raises a `RestoreError` and leaves the folder as it was, or it
returns, having written only files with the digests that the archive declares. -/
def Restore.Safe (host : Host) (archive : Option (Except TarFault Tar)) (folder : Folder)
    (run : Restore) : Prop :=
  (∃ text, run.result = .error (.restoreError text)) ∧
      applyWrites run.writes folder.nodes = folder.nodes ∨
    run.result = .ok () ∧
      ∀ write ∈ run.writes, DeclaresDigest host archive write.1 (host.hash.hexdigest write.2)

/-- What an open archive has to satisfy: reading it raises nothing that escapes,
and if it passes the checks, then its members are declared and can be written. -/
def Restorable (host : Host) (folder : Folder) (targetName : Str) : Except TarFault Tar → Prop
  | .error fault => ∃ text, fault = .unreadable text
  | .ok tar => ReadsCleanly host tar ∧
      ∀ manifest declared, Verifies host tar targetName manifest declared →
        folder.mkdirError = none ∧ ∀ name blob, tar.Holds name blob →
          name ∈ declared.map Prod.fst ∧ Writable folder targetName name

/-- A run that raises before it writes is safe when it raises a `RestoreError`. -/
theorem safe_error_iff {archive : Option (Except TarFault Tar)} {raised : Raised} :
    Restore.Safe host archive folder ⟨.error raised, []⟩ ↔ raised.IsRestore := by
  constructor
  · intro h
    rcases h with ⟨⟨text, htext⟩, _⟩ | ⟨hok, _⟩
    · exact ⟨text, by simpa using htext⟩
    · cases hok
  · intro ⟨text, htext⟩
    exact Or.inl ⟨⟨text, by rw [htext]⟩, rfl⟩

theorem checked_iff {extracted : List (Str × ByteArray)} {manifest declared : List (Str × Json)}
    (hextracted : extractMembers tar tar.others = .ok extracted)
    (hmanifest : Manifest host tar manifest) :
    Checked host targetName extracted manifest declared ↔
      Verifies host tar targetName manifest declared := by
  have htarget : targetName ∈ extracted.map Prod.fst ↔ ∃ blob, tar.Holds targetName blob := by
    rw [List.mem_map]
    constructor
    · intro ⟨member, hmember, hname⟩
      rcases (extractMembers_ok hextracted member.1 member.2).mp hmember with ⟨hlisted, hread⟩
      rw [hname] at hlisted hread
      have hother := Tar.mem_others.mp hlisted
      exact ⟨member.2, hother.1, hother.2, hread⟩
    · intro ⟨blob, hholds⟩
      exact ⟨(targetName, blob), (extractMembers_ok hextracted _ _).mpr
        ⟨Tar.mem_others.mpr ⟨hholds.1, hholds.2⟩, hholds.3⟩, rfl⟩
  constructor
  · intro h
    refine ⟨hmanifest, h.members, fun item hitem => ?_, h.format, htarget.mp h.target⟩
    rcases h.declared item hitem with ⟨blob, hblob, hdigest⟩
    exact ⟨blob, (member?_eq_some_iff hextracted).mp hblob, hdigest⟩
  · intro h
    refine ⟨h.members, fun item hitem => ?_, h.format, htarget.mpr h.target⟩
    rcases h.declared item hitem with ⟨blob, hblob, hdigest⟩
    exact ⟨blob, (member?_eq_some_iff hextracted).mpr hblob, hdigest⟩

/-- A restore of an archive that passes the checks writes its members. -/
theorem restoreDatabase_writes {manifest declared : List (Str × Json)} {overwrite : Bool}
    (hverifies : Verifies host tar targetName manifest declared)
    (hoverwrite : ¬((folder.nodes targetName).isSome ∧ overwrite = false))
    (hmkdir : folder.mkdirError = none) :
    ∃ extracted, extractMembers tar tar.others = .ok extracted ∧
      restoreDatabase host (some (.ok tar)) folder targetName overwrite =
        writeMembers folder targetName extracted := by
  rcases readArchive_cases host tar with
    ⟨extracted, found, hread, hextracted, hfound⟩ | ⟨raised, _, _, hno⟩
  swap
  · exact absurd hverifies.read (hno manifest)
  refine ⟨extracted, hextracted, ?_⟩
  have hsame : found = manifest := manifest_unique hfound hverifies.read
  rw [hsame] at hread hfound
  rcases @checkArchive_cases host targetName extracted manifest with
    ⟨hok, _⟩ | ⟨_, hno⟩
  swap
  · exact absurd ((checked_iff hextracted hfound).mpr hverifies) (hno declared)
  simp only [restoreDatabase, hoverwrite, if_false, hread, hok, hmkdir]

/-- A restore that returns has passed the checks. -/
theorem restoreDatabase_ok {overwrite : Bool}
    (h : (restoreDatabase host (some (.ok tar)) folder targetName overwrite).result = .ok ()) :
    ∃ manifest declared, Verifies host tar targetName manifest declared ∧
      ¬((folder.nodes targetName).isSome ∧ overwrite = false) ∧ folder.mkdirError = none := by
  simp only [restoreDatabase] at h
  by_cases hexists : (folder.nodes targetName).isSome ∧ overwrite = false
  · rw [if_pos hexists] at h
    cases h
  rw [if_neg hexists] at h
  rcases readArchive_cases host tar with
    ⟨extracted, manifest, hread, hextracted, hmanifest⟩ | ⟨raised, hread, _, _⟩
  swap
  · rw [hread] at h
    cases h
  simp only [hread] at h
  rcases @checkArchive_cases host targetName extracted manifest with
    ⟨hok, declared, hchecked⟩ | ⟨⟨text, herror⟩, _⟩
  swap
  · rw [herror] at h
    cases h
  simp only [hok] at h
  cases hmkdir : folder.mkdirError with
  | some exc =>
    rw [hmkdir] at h
    cases h
  | none => exact ⟨manifest, declared, (checked_iff hextracted hmanifest).mp hchecked, hexists, rfl⟩

/-- Behind the checks a run is safe when it can write every member, and every
member is declared. -/
theorem safe_write_iff {extracted : List (Str × ByteArray)} {manifest declared : List (Str × Json)}
    (hextracted : extractMembers tar tar.others = .ok extracted)
    (hverifies : Verifies host tar targetName manifest declared) :
    Restore.Safe host (some (.ok tar)) folder (writeMembers folder targetName extracted) ↔
      ∀ name blob, tar.Holds name blob →
        name ∈ declared.map Prod.fst ∧ Writable folder targetName name := by
  have hholds : ∀ name blob, (name, blob) ∈ extracted ↔ tar.Holds name blob := by
    intro name blob
    rw [extractMembers_ok hextracted, Tar.mem_others]
    exact ⟨fun h => ⟨h.1.1, h.1.2, h.2⟩, fun h => ⟨⟨h.1, h.2⟩, h.3⟩⟩
  have hdeclares : ∀ name blob, tar.Holds name blob →
      (name ∈ declared.map Prod.fst ↔
        DeclaresDigest host (some (.ok tar)) name (host.hash.hexdigest blob)) := by
    intro name blob hblob
    constructor
    · intro hname
      rcases List.mem_map.mp hname with ⟨item, hitem, rfl⟩
      rcases hverifies.declared item hitem with ⟨found, hfound, hdigest⟩
      have hsame : found = blob := by
        have hread := hfound.read
        rw [hblob.read] at hread
        simpa using hread.symm
      rw [hsame] at hdigest
      refine ⟨tar, manifest, declared, rfl, hverifies.read, hverifies.members, ?_⟩
      rw [← hdigest]
      exact hitem
    · intro ⟨other, otherManifest, otherDeclared, harchive, hread, hmembers, hitem⟩
      cases harchive
      have hobject : otherManifest = manifest := manifest_unique hread hverifies.read
      rw [hobject, hverifies.members] at hmembers
      cases hmembers
      exact List.mem_map_of_mem hitem
  rcases @writeMembers_cases folder targetName extracted with
    ⟨hrun, hwritable⟩ | ⟨⟨exc, hexc⟩, hwritable⟩
  · rw [hrun]
    constructor
    · intro h name blob hblob
      rcases h with ⟨⟨text, htext⟩, _⟩ | ⟨_, hall⟩
      · cases htext
      · have hmem := (hholds name blob).mpr hblob
        exact ⟨(hdeclares name blob hblob).mpr (hall _ hmem), hwritable _ hmem⟩
    · intro h
      refine Or.inr ⟨rfl, fun write hwrite => ?_⟩
      have hblob := (hholds write.1 write.2).mp hwrite
      exact (hdeclares write.1 write.2 hblob).mp (h write.1 write.2 hblob).1
  · constructor
    · intro h
      rcases h with ⟨⟨text, htext⟩, _⟩ | ⟨hok, _⟩
      · rw [hexc] at htext
        cases htext
      · rw [hexc] at hok
        cases hok
    · intro h
      refine absurd (fun member hmember => ?_) hwritable
      exact (h member.1 member.2 ((hholds _ _).mp hmember)).2

/-- A restore raises `RestoreError` and changes nothing, or writes checked files
only, exactly when the archive is no file, or the target exists and may not be
overwritten, or the archive is restorable. -/
theorem restore_safe_iff (host : Host) (archive : Option (Except TarFault Tar)) (folder : Folder)
    (targetName : Str) (overwrite : Bool) :
    Restore.Safe host archive folder
        (restoreDatabase host archive folder targetName overwrite) ↔
      ((folder.nodes targetName).isSome ∧ overwrite = false) ∨
        ∀ opened, archive = some opened → Restorable host folder targetName opened := by
  cases archive with
  | none =>
    rw [restoreDatabase, safe_error_iff]
    exact iff_of_true ⟨_, rfl⟩ (Or.inr (by simp))
  | some opened =>
    simp only [restoreDatabase]
    by_cases hexists : (folder.nodes targetName).isSome ∧ overwrite = false
    · simp only [if_pos hexists, safe_error_iff]
      exact iff_of_true ⟨_, rfl⟩ (Or.inl hexists)
    simp only [hexists, if_false, false_or, Option.some.injEq, forall_eq']
    cases opened with
    | error fault =>
      simp only [safe_error_iff, raised_isRestore]
      exact Iff.rfl
    | ok tar =>
      simp only [Restorable]
      rcases readArchive_cases host tar with
        ⟨extracted, manifest, hread, hextracted, hmanifest⟩ | ⟨raised, hread, hclean, hno⟩
      swap
      · simp only [hread, safe_error_iff, hclean]
        exact ⟨fun h => ⟨h, fun other declared hv => absurd hv.read (hno other)⟩, fun h => h.1⟩
      have hreads : ReadsCleanly host tar := by
        intro _
        rw [hmanifest.noFault]
        rcases hmanifest.object with ⟨bytes, hbytes, hparse⟩
        refine ⟨bytes, hbytes, fun exc hexc => ?_⟩
        rw [hparse] at hexc
        cases hexc
      have hunique : ∀ other, Manifest host tar other → other = manifest := fun other hother =>
        manifest_unique hother hmanifest
      simp only [hread]
      rcases @checkArchive_cases host targetName extracted manifest with
        ⟨hok, declared, hchecked⟩ | ⟨⟨text, herror⟩, hno⟩
      swap
      · simp only [herror, safe_error_iff]
        refine iff_of_true ⟨text, rfl⟩ ⟨hreads, fun other declared hv => ?_⟩
        have hother := hunique other hv.read
        rw [hother] at hv
        exact absurd ((checked_iff hextracted hmanifest).mpr hv) (hno declared)
      simp only [hok]
      have hverifies := (checked_iff hextracted hmanifest).mp hchecked
      have hcondition : (∀ other declared', Verifies host tar targetName other declared' →
          folder.mkdirError = none ∧ ∀ name blob, tar.Holds name blob →
            name ∈ declared'.map Prod.fst ∧ Writable folder targetName name) ↔
          folder.mkdirError = none ∧ ∀ name blob, tar.Holds name blob →
            name ∈ declared.map Prod.fst ∧ Writable folder targetName name := by
        constructor
        · exact fun h => h manifest declared hverifies
        · intro h other declared' hv
          have hother := hunique other hv.read
          have hmembers := hv.members
          rw [hother, hverifies.members] at hmembers
          cases hmembers
          exact h
      rw [hcondition]
      cases hmkdir : folder.mkdirError with
      | some exc =>
        simp only [safe_error_iff]
        exact iff_of_false (by simp [Raised.IsRestore]) (by simp)
      | none =>
        simp only [safe_write_iff hextracted hverifies, hreads, true_and]

namespace Sample

/-- A host that decodes JSON as UTF-8, with the digest that spells its bytes out. -/
def utf8Host : Host where
  rt := .standard
  hash := Snapshots.spelledOut
  decode bytes :=
    match decodeUtf8 bytes with
    | some text => .ok text
    | none => .error Snapshots.unicodeDecodeError
  decode_error := by
    intro bytes exc h
    split at h
    · cases h
    · cases h
      rfl
  decode_dump := by
    intro text bytes _ h
    rw [decodeUtf8_encodeUtf8 h]

/-- A folder with some nodes, where every file can be opened. -/
def openFolder (nodes : Str → Option ByteArray) : Folder where
  nodes name := (nodes name).map .file
  refuses _ := none
  other_refuses := by
    intro name h
    rw [Option.map_eq_some_iff] at h
    rcases h with ⟨_, _, h⟩
    cases h
  mkdirError := none

/-- The time of a backup. -/
def now : DateTime := DateTime.newYearNoon

/-- The members that an archive holds, and those that its manifest declares. -/
def held : List (Str × ByteArray) := [("fleet.db", ⟨#[1]⟩), ("fleet.db-wal", ⟨#[2]⟩)]

def declared : List (Str × ByteArray) := [("fleet.db", ⟨#[1]⟩)]

theorem held_members : Members held := ⟨by decide, by decide, by decide⟩

theorem declared_members : Members declared := ⟨by decide, by decide, by decide⟩

end Sample

/-- A restore writes a member that the manifest does not declare. -/
theorem undeclared_member_written :
    ¬∀ (host : Host) (archive : Option (Except TarFault Tar)) (folder : Folder) (targetName : Str)
      (overwrite : Bool), Restore.Safe host archive folder
        (restoreDatabase host archive folder targetName overwrite) := by
  intro h
  rcases backupManifest_dumps Sample.utf8Host Sample.now Sample.declared with
    ⟨text, bytes, _, htext, hbytes⟩
  have hheld : ∀ name blob, (name, blob) ∈ Sample.held →
      (archiveOf Sample.held bytes).Holds name blob := fun name blob =>
    (archiveOf_holds Sample.held_members name blob).mpr
  have hverifies : Verifies Sample.utf8Host (archiveOf Sample.held bytes) "fleet.db"
      (backupManifest Sample.utf8Host Sample.now Sample.declared)
      (digests Sample.utf8Host Sample.declared) := by
    refine ⟨archiveOf_manifest Sample.now Sample.held_members Sample.declared_members htext hbytes,
      rfl, ?_, rfl, ⟨#[1]⟩, hheld _ _ List.mem_cons_self⟩
    intro item hitem
    rw [digests, Sample.declared, List.map_cons, List.map_nil, List.mem_singleton] at hitem
    rw [hitem]
    exact ⟨⟨#[1]⟩, hheld _ _ List.mem_cons_self, rfl⟩
  rcases @restoreDatabase_writes _ _ (Sample.openFolder fun _ => none) _ _ _ false
    hverifies (by simp [Sample.openFolder]) rfl with ⟨extracted, hextracted, hrun⟩
  have hsafe := h Sample.utf8Host (some (.ok (archiveOf Sample.held bytes)))
    (Sample.openFolder fun _ => none) "fleet.db" false
  rw [hrun, safe_write_iff hextracted hverifies] at hsafe
  have hwal : (lit "fleet.db-wal") ∈ (digests Sample.utf8Host Sample.declared).map Prod.fst :=
    (hsafe _ ⟨#[2]⟩ (hheld _ _ (List.mem_cons_of_mem _ List.mem_cons_self))).1
  exact absurd hwal (by decide)

end DevRepro.Server
