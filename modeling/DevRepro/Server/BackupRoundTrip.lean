import DevRepro.Server.Restore

/-!
# A backup and its restore

The archive of a backup passes the checks of a restore, so a restore of it
writes the files of the backup, and nothing else.  What it does not do is
remove: a sibling that stands beside the target and that the backup has not is
still there afterwards.  `restored_iff` is the exact condition.
-/

namespace DevRepro.Server

open DevRepro.Python

variable {host : Host} {bytes : ByteArray}

/-! ## The folder behind a restore -/

theorem applyWrites_of_not_mem {writes : List (Str × ByteArray)} {name : Str}
    (h : name ∉ writes.map Prod.fst) (nodes : Str → Option Node) :
    applyWrites writes nodes name = nodes name := by
  induction writes generalizing nodes with
  | nil => rfl
  | cons write rest ih =>
    rw [List.map_cons, List.mem_cons, not_or] at h
    rw [applyWrites, List.foldl_cons]
    exact (ih h.2 _).trans (Function.update_of_ne h.1 _ _)

/-- A name that is written with one content only has it afterwards. -/
theorem applyWrites_of_mem {writes : List (Str × ByteArray)} {name : Str} {blob : ByteArray}
    (hmem : (name, blob) ∈ writes) (hone : ∀ other, (name, other) ∈ writes → other = blob)
    (nodes : Str → Option Node) : applyWrites writes nodes name = some (.file blob) := by
  induction writes generalizing nodes with
  | nil => cases hmem
  | cons write rest ih =>
    rw [applyWrites, List.foldl_cons]
    by_cases hrest : name ∈ rest.map Prod.fst
    · rcases List.mem_map.mp hrest with ⟨⟨other, found⟩, hfound, rfl⟩
      have hsame := hone found (List.mem_cons_of_mem _ hfound)
      rw [hsame] at hfound
      exact ih hfound (fun other hother => hone other (List.mem_cons_of_mem _ hother)) _
    · rcases List.mem_cons.mp hmem with rfl | hlater
      · exact (applyWrites_of_not_mem hrest _).trans (Function.update_self _ _ _)
      · exact absurd (List.mem_map_of_mem hlater) hrest

/-! ## The names of a backup -/

/-- The name of a file. -/
structure FileName (name : Str) : Prop where
  plain : isPlainName name = true
  os : Snapshots.isOsName name = true

/-- A file name has no high surrogate. -/
theorem wellPaired_of_isOsName {name : Str} (h : Snapshots.isOsName name = true) :
    WellPaired name := by
  induction name with
  | nil => exact List.IsChain.nil
  | cons c rest ih =>
    rw [Snapshots.isOsName, List.all_cons, Bool.and_eq_true] at h
    refine List.isChain_cons.mpr ⟨?_, ih h.2⟩
    intro d _ hpair
    have hhigh := isHighSurrogate_iff.mp hpair.1
    have hsurrogate : isSurrogate c = true := by rw [isSurrogate, hpair.1, Bool.true_or]
    have hchar := h.1
    rw [hsurrogate] at hchar
    simp at hchar
    omega

theorem isOsName_append {name suffix : Str} (h : Snapshots.isOsName name = true)
    (h' : Snapshots.isOsName suffix = true) : Snapshots.isOsName (name ++ suffix) = true := by
  rw [Snapshots.isOsName, List.all_append, Bool.and_eq_true]
  exact ⟨h, h'⟩

theorem isPlainName_append {name suffix : Str} (h : isPlainName name = true)
    (hsuffix : suffix ∈ suffixes) : isPlainName (name ++ suffix) = true := by
  simp only [suffixes, List.mem_cons, List.not_mem_nil, or_false] at hsuffix
  have hslash : ∀ s : Str, s ∈ suffixes → codePoint '/' ∉ s := by decide
  simp only [isPlainName, Bool.and_eq_true, bne_iff_ne, Bool.not_eq_true',
    List.contains_eq_mem, decide_eq_false_iff_not, List.mem_append, not_or] at h ⊢
  rcases hsuffix with rfl | rfl | rfl
  · rw [List.append_nil]
    exact ⟨h.1, h.2, List.not_mem_nil⟩
  · refine ⟨⟨by simp [lit], fun heq => ?_⟩, h.2, hslash _ (by decide)⟩
    have hlength := congrArg List.length heq
    simp [lit] at hlength
  · refine ⟨⟨by simp [lit], fun heq => ?_⟩, h.2, hslash _ (by decide)⟩
    have hlength := congrArg List.length heq
    simp [lit] at hlength

/-- No sibling is called like the manifest. -/
theorem sibling_ne_manifest {name suffix : Str} (h : name ≠ manifestName)
    (hsuffix : suffix ∈ suffixes) : name ++ suffix ≠ manifestName := by
  simp only [suffixes, List.mem_cons, List.not_mem_nil, or_false] at hsuffix
  rcases hsuffix with rfl | rfl | rfl
  · rw [List.append_nil]
    exact h
  · intro heq
    have hlast := congrArg List.getLast? heq
    rw [List.getLast?_append_of_ne_nil _ (by decide)] at hlast
    exact absurd hlast (by decide)
  · intro heq
    have hlast := congrArg List.getLast? heq
    rw [List.getLast?_append_of_ne_nil _ (by decide)] at hlast
    exact absurd hlast (by decide)

theorem mem_databaseFiles {folder : Folder} {name other : Str} {blob : ByteArray} :
    (other, blob) ∈ databaseFiles folder name ↔
      ∃ suffix ∈ suffixes, other = name ++ suffix ∧ folder.file? other = some blob := by
  simp only [databaseFiles, List.mem_filterMap, Option.map_eq_some_iff, Prod.mk.injEq]
  constructor
  · intro ⟨suffix, hsuffix, found, hfound, hother, hblob⟩
    rw [← hother, ← hblob]
    exact ⟨suffix, hsuffix, rfl, hfound⟩
  · intro ⟨suffix, hsuffix, hother, hfound⟩
    rw [hother] at hfound ⊢
    exact ⟨suffix, hsuffix, blob, hfound, rfl, rfl⟩

theorem databaseFiles_names (folder : Folder) (name : Str) :
    ((databaseFiles folder name).map Prod.fst).Nodup := by
  have hsub : ∀ some : List Str, ((some.filterMap fun suffix =>
      (folder.file? (name ++ suffix)).map fun bytes => (name ++ suffix, bytes)).map Prod.fst).Sublist
        (some.map fun suffix => name ++ suffix) := by
    intro some
    induction some with
    | nil => exact List.Sublist.slnil
    | cons suffix rest ih =>
      rw [List.filterMap_cons, List.map_cons]
      cases folder.file? (name ++ suffix) with
      | none => exact ih.cons _
      | some bytes => exact ih.cons_cons _
  refine (hsub suffixes).nodup (List.Nodup.map ?_ (by decide))
  exact fun a b hab => List.append_cancel_left hab

/-- The members of a backup. -/
theorem databaseFiles_members {folder : Folder} {name : Str} (hname : FileName name)
    (hmanifest : name ≠ manifestName) : Members (sortByKey (databaseFiles folder name)) := by
  have hperm := sortByKey_perm (databaseFiles folder name)
  have hsuffix : ∀ member ∈ sortByKey (databaseFiles folder name),
      ∃ suffix ∈ suffixes, member.1 = name ++ suffix := by
    intro member hmember
    rcases mem_databaseFiles.mp (hperm.mem_iff.mp hmember) with ⟨suffix, hs, heq, _⟩
    exact ⟨suffix, hs, heq⟩
  have hos : ∀ suffix ∈ suffixes, Snapshots.isOsName suffix = true := by decide
  refine ⟨(hperm.map Prod.fst).nodup_iff.mpr (databaseFiles_names folder name), ?_, ?_⟩
  · intro hmem
    rcases List.mem_map.mp hmem with ⟨member, hmember, heq⟩
    rcases hsuffix member hmember with ⟨suffix, hs, hother⟩
    exact sibling_ne_manifest hmanifest hs (hother.symm.trans heq)
  · intro member hmember
    rcases hsuffix member hmember with ⟨suffix, hs, hother⟩
    rw [hother]
    exact wellPaired_of_isOsName (isOsName_append hname.os (hos suffix hs))

/-! ## The round trip -/

theorem file?_eq_some {folder : Folder} {name : Str} {blob : ByteArray} :
    folder.file? name = some blob ↔ folder.nodes name = some (.file blob) := by
  rw [Folder.file?]
  cases folder.nodes name with
  | none => simp
  | some node =>
    cases node with
    | file found => simp
    | other => simp

/-- The archive of a backup passes the checks of a restore to its name. -/
theorem backup_verifies {source : Folder} {name : Str} (now : DateTime)
    (hmembers : Members (sortByKey (databaseFiles source name))) {blob : ByteArray}
    (hmain : source.file? name = some blob) {text : Str}
    (htext : text = dumpText host.rt (.indented 2) 0
      (.obj (backupManifest host now (sortByKey (databaseFiles source name)))))
    (hbytes : encodeUtf8 text = some bytes) :
    Verifies host (archiveOf (sortByKey (databaseFiles source name)) bytes) name
      (backupManifest host now (sortByKey (databaseFiles source name)))
      (digests host (sortByKey (databaseFiles source name))) := by
  refine ⟨archiveOf_manifest now hmembers hmembers htext hbytes, rfl, ?_, rfl, blob, ?_⟩
  · intro item hitem
    rcases List.mem_map.mp hitem with ⟨member, hmember, rfl⟩
    exact ⟨member.2, (archiveOf_holds hmembers _ _).mpr hmember, rfl⟩
  · rw [archiveOf_holds hmembers, (sortByKey_perm _).mem_iff, mem_databaseFiles]
    exact ⟨[], by decide, (List.append_nil name).symm, hmain⟩

/-- What a restore of a backup needs: the database is not called like the
manifest, the directory of the target can be made, and for each file of the
database, the target can be opened where the backup has one, and does not exist
where the backup has none. -/
structure Replaceable (source target : Folder) (name : Str) : Prop where
  notManifest : name ≠ manifestName
  mkdir : target.mkdirError = none
  present : ∀ suffix ∈ suffixes, source.nodes (name ++ suffix) ≠ none →
    target.refuses (name ++ suffix) = none
  absent : ∀ suffix ∈ suffixes, source.nodes (name ++ suffix) = none →
    target.nodes (name ++ suffix) = none

section RoundTrip

variable {source target : Folder} {name suffix : Str}

/-- The restore extracts the members of the backup. -/
theorem mem_extracted_iff {extracted : List (Str × ByteArray)}
    (hmembers : Members (sortByKey (databaseFiles source name)))
    (hextracted : extractMembers (archiveOf (sortByKey (databaseFiles source name)) bytes)
      (archiveOf (sortByKey (databaseFiles source name)) bytes).others = .ok extracted)
    {other : Str} {blob : ByteArray} :
    (other, blob) ∈ extracted ↔
      ∃ suffix ∈ suffixes, other = name ++ suffix ∧ source.nodes other = some (.file blob) := by
  rw [extractMembers_ok hextracted, Tar.mem_others, ← file?_eq_some, ← mem_databaseFiles,
    ← (sortByKey_perm (databaseFiles source name)).mem_iff,
    ← @archiveOf_holds _ bytes hmembers]
  exact ⟨fun h => ⟨h.1.1, h.1.2, h.2⟩, fun h => ⟨⟨h.1, h.2⟩, h.3⟩⟩

/-- A file that the backup has not stays as it was. -/
theorem writes_keep_absent {extracted : List (Str × ByteArray)}
    (hmembers : Members (sortByKey (databaseFiles source name)))
    (hextracted : extractMembers (archiveOf (sortByKey (databaseFiles source name)) bytes)
      (archiveOf (sortByKey (databaseFiles source name)) bytes).others = .ok extracted)
    (hnone : source.nodes (name ++ suffix) = none) :
    applyWrites (writeMembers target name extracted).writes target.nodes (name ++ suffix) =
      target.nodes (name ++ suffix) := by
  apply applyWrites_of_not_mem
  intro hmem
  rcases List.mem_map.mp hmem with ⟨member, hmember, heq⟩
  have hextract := (writeMembers_sublist extracted).subset hmember
  rcases (mem_extracted_iff hmembers hextracted).mp hextract with ⟨_, _, _, hfound⟩
  rw [heq, hnone] at hfound
  cases hfound

/-- A backup of a database succeeds, and a restore of it over the target gives
the database file and its siblings back, with the same bytes and the same
presence, exactly when the target is replaceable. -/
theorem restored_iff (host : Host) (source target : Folder) {name : Str} (now : DateTime)
    (hname : FileName name) (hmain : source.file? name ≠ none)
    (hsiblings : ∀ suffix ∈ suffixes, source.nodes (name ++ suffix) ≠ some .other) :
    ∃ members, backupDatabase host source name now = .ok members ∧
      ((restoreDatabase host (some (.ok (.ofMembers members))) target name true).result = .ok () ∧
          (∀ suffix ∈ suffixes,
            applyWrites (restoreDatabase host (some (.ok (.ofMembers members))) target name
                true).writes target.nodes (name ++ suffix) =
              source.nodes (name ++ suffix)) ↔
        Replaceable source target name) := by
  rcases Option.ne_none_iff_exists'.mp hmain with ⟨blob, hblob⟩
  rcases backupManifest_dumps host now (sortByKey (databaseFiles source name)) with
    ⟨text, bytes, hdumps, htext, hbytes⟩
  refine ⟨sortByKey (databaseFiles source name) ++ [(manifestName, bytes)], ?_, ?_⟩
  · simp only [backupDatabase, hblob, hdumps, hbytes]
  have harchive : Tar.ofMembers (sortByKey (databaseFiles source name) ++ [(manifestName, bytes)]) =
      archiveOf (sortByKey (databaseFiles source name)) bytes := rfl
  rw [harchive]
  have hfile : ∀ suffix ∈ suffixes, source.nodes (name ++ suffix) ≠ none →
      ∃ found, source.nodes (name ++ suffix) = some (.file found) := by
    intro suffix hsuffix hsome
    rcases Option.ne_none_iff_exists'.mp hsome with ⟨node, hnode⟩
    cases node with
    | file found => exact ⟨found, hnode⟩
    | other => exact absurd hnode (hsiblings suffix hsuffix)
  constructor
  · intro ⟨hok, hafter⟩
    rcases restoreDatabase_ok hok with ⟨manifest, declared, hverifies, hoverwrite, hmkdir⟩
    rcases hverifies.target with ⟨found, hfound⟩
    have hmanifest : name ≠ manifestName := hfound.notManifest
    have hmembers := @databaseFiles_members source _ hname hmanifest
    rcases restoreDatabase_writes hverifies hoverwrite hmkdir with ⟨extracted, hextracted, hrun⟩
    rw [hrun] at hok hafter
    rcases @writeMembers_cases target name extracted with
      ⟨hwrite, hwritable⟩ | ⟨⟨exc, hexc⟩, _⟩
    swap
    · rw [hexc] at hok
      cases hok
    refine ⟨hmanifest, hmkdir, fun suffix hsuffix hsome => ?_, fun suffix hsuffix hnone => ?_⟩
    · rcases hfile suffix hsuffix hsome with ⟨content, hcontent⟩
      have hmem : (name ++ suffix, content) ∈ extracted :=
        (mem_extracted_iff hmembers hextracted).mpr ⟨suffix, hsuffix, rfl, hcontent⟩
      exact (hwritable _ hmem).open_
    · have hkept := hafter suffix hsuffix
      rw [writes_keep_absent hmembers hextracted hnone, hnone] at hkept
      exact hkept
  · intro hreplaceable
    have hmembers := @databaseFiles_members source _ hname hreplaceable.notManifest
    have hverifies := backup_verifies now hmembers hblob htext hbytes
    rcases @restoreDatabase_writes _ _ target _ _ _ true hverifies (by simp)
      hreplaceable.mkdir with ⟨extracted, hextracted, hrun⟩
    have hwritable : ∀ member ∈ extracted, Writable target name member.1 := by
      intro member hmember
      rcases (mem_extracted_iff hmembers hextracted).mp hmember with
        ⟨suffix, hsuffix, heq, hfound⟩
      rw [heq] at hfound ⊢
      refine ⟨?_, isPlainName_append hname.plain hsuffix, hreplaceable.present suffix hsuffix ?_⟩
      · intro hempty
        have hplain := hname.plain
        rw [hempty] at hplain
        cases hplain
      · rw [hfound]
        exact Option.some_ne_none _
    rcases @writeMembers_cases target name extracted with
      ⟨hwrite, _⟩ | ⟨_, hnot⟩
    swap
    · exact absurd hwritable hnot
    rw [hrun]
    refine ⟨by rw [hwrite], fun suffix hsuffix => ?_⟩
    by_cases hnode : source.nodes (name ++ suffix) = none
    · rw [writes_keep_absent hmembers hextracted hnode, hnode]
      exact hreplaceable.absent suffix hsuffix hnode
    · rcases hfile suffix hsuffix hnode with ⟨content, hcontent⟩
      rw [hwrite, hcontent]
      apply applyWrites_of_mem
      · exact (mem_extracted_iff hmembers hextracted).mpr ⟨suffix, hsuffix, rfl, hcontent⟩
      · intro other hother
        rcases (mem_extracted_iff hmembers hextracted).mp hother with ⟨_, _, _, hfound⟩
        rw [hcontent] at hfound
        cases hfound
        rfl

end RoundTrip

namespace Sample

/-- A database without siblings. -/
def source : Folder := openFolder fun name => if name = lit "fleet.db" then some ⟨#[1]⟩ else none

/-- A folder with a database and its write-ahead log. -/
def inUse : Folder := openFolder fun name =>
  if name = lit "fleet.db" then some ⟨#[7]⟩
  else if name = lit "fleet.db-wal" then some ⟨#[8]⟩
  else none

theorem fileName : FileName (lit "fleet.db") := ⟨by decide, by decide⟩

theorem source_regular : ∀ suffix ∈ suffixes, source.nodes (lit "fleet.db" ++ suffix) ≠ some .other := by
  intro suffix _ h
  rw [source, openFolder, Option.map_eq_some_iff] at h
  rcases h with ⟨_, _, h⟩
  cases h

end Sample

theorem restored_iff_sample :
    ∃ members, backupDatabase Sample.utf8Host Sample.source (lit "fleet.db") Sample.now = .ok members ∧
      ((restoreDatabase Sample.utf8Host (some (.ok (.ofMembers members))) Sample.inUse (lit "fleet.db")
              true).result = .ok () ∧
          (∀ suffix ∈ suffixes,
            applyWrites (restoreDatabase Sample.utf8Host (some (.ok (.ofMembers members))) Sample.inUse
                (lit "fleet.db") true).writes Sample.inUse.nodes (lit "fleet.db" ++ suffix) =
              Sample.source.nodes (lit "fleet.db" ++ suffix)) ↔
        Replaceable Sample.source Sample.inUse (lit "fleet.db")) :=
  restored_iff Sample.utf8Host Sample.source Sample.inUse Sample.now Sample.fileName (by decide)
    Sample.source_regular

/-- The write-ahead log of the replaced database is still there. -/
theorem stale_sibling_survives :
    ¬∀ (host : Host) (source target : Folder) (name : Str) (now : DateTime)
      (members : List (Str × ByteArray)), FileName name → source.file? name ≠ none →
        (∀ suffix ∈ suffixes, source.nodes (name ++ suffix) ≠ some .other) →
          (∀ other, target.refuses other = none) → target.mkdirError = none →
            backupDatabase host source name now = .ok members →
              ∀ suffix ∈ suffixes,
                applyWrites (restoreDatabase host (some (.ok (.ofMembers members))) target name
                    true).writes target.nodes (name ++ suffix) =
                  source.nodes (name ++ suffix) := by
  intro h
  have hmain : Sample.source.file? (lit "fleet.db") = some ⟨#[1]⟩ := rfl
  rcases backupManifest_dumps Sample.utf8Host Sample.now
    (sortByKey (databaseFiles Sample.source (lit "fleet.db"))) with
    ⟨text, bytes, hdumps, htext, hbytes⟩
  have hbackup : backupDatabase Sample.utf8Host Sample.source (lit "fleet.db") Sample.now =
      .ok (sortByKey (databaseFiles Sample.source (lit "fleet.db")) ++ [(manifestName, bytes)]) := by
    simp only [backupDatabase, hmain, hdumps, hbytes]
  have hmembers := @databaseFiles_members Sample.source _ Sample.fileName (by decide)
  rcases @restoreDatabase_writes _ _ Sample.inUse _ _ _ true
    (backup_verifies Sample.now hmembers hmain htext hbytes) (by simp) rfl with
    ⟨extracted, hextracted, hrun⟩
  have hafter := h Sample.utf8Host Sample.source Sample.inUse (lit "fleet.db") Sample.now _
    Sample.fileName (by decide) Sample.source_regular (fun _ => rfl) rfl hbackup (lit "-wal") (by decide)
  have harchive : Tar.ofMembers (sortByKey (databaseFiles Sample.source (lit "fleet.db")) ++
      [(manifestName, bytes)]) =
        archiveOf (sortByKey (databaseFiles Sample.source (lit "fleet.db"))) bytes := rfl
  rw [harchive, hrun, writes_keep_absent hmembers hextracted rfl] at hafter
  have hstale : Sample.inUse.nodes (lit "fleet.db" ++ lit "-wal") = some (.file ⟨#[8]⟩) := rfl
  have habsent : Sample.source.nodes (lit "fleet.db" ++ lit "-wal") = none := rfl
  rw [hstale, habsent] at hafter
  cases hafter

end DevRepro.Server
