import DevRepro.Lib.Dict
import DevRepro.Platforms.PathAnalysis

/-!
# Shadowing on a Linux PATH

`_find_shadowed` of `platforms/base.py` puts the files of all PATH entries under their names in
lower case and reports the first and the last of each name that has two.  What it reports is
shadowing when these are two files of that very name in two directories (`shadowing_right_iff`).
-/

namespace DevRepro.Platforms

open DevRepro.Python
open DevRepro.Lib (Dict)

/-! ## Files by name -/

theorem get?_foldl_addName (files : List (Str × Str)) (name : Str) :
    ((files.foldl addName Dict.empty).get? name).getD [] =
      (files.filter fun file => file.1 = name).map Prod.snd := by
  induction files using List.reverseRecOn with
  | nil => rfl
  | append_singleton files file ih =>
    rw [List.foldl_append, List.filter_append, List.map_append, ← ih]
    show ((addName _ file).get? name).getD [] = _
    rw [addName, Dict.get?_set]
    by_cases h : file.1 = name
    · rw [if_pos h.symm, h, List.filter_singleton, decide_eq_true h]
      rfl
    · rw [if_neg (Ne.symm h), List.filter_singleton, decide_eq_false h]
      exact (List.append_nil _).symm

/-- Each name that has two files is reported with the first and the last of them. -/
theorem mem_filterMap_shadowing {files : List (Str × Str)} {t : Str × Str × Str} :
    t ∈ ((files.foldl addName Dict.empty).items.mergeSort fun a b => strLe a.1 b.1).filterMap
        shadowing ↔
      ∃ mid, (files.filter fun file => file.1 = t.1).map Prod.snd = t.2.1 :: (mid ++ [t.2.2]) := by
  obtain ⟨name, winner, loser⟩ := t
  rw [List.mem_filterMap, ← get?_foldl_addName]
  simp only [List.mem_mergeSort, Dict.mem_items_iff]
  constructor
  · rintro ⟨⟨key, paths⟩, hget, hshadow⟩
    cases paths with
    | nil => cases hshadow
    | cons first rest =>
      obtain ⟨last, hlast, heq⟩ := Option.map_eq_some_iff.mp hshadow
      cases heq
      obtain ⟨mid, rfl⟩ := List.getLast?_eq_some_iff.mp hlast
      exact ⟨mid, by rw [hget]; rfl⟩
  · rintro ⟨mid, hfiles⟩
    refine ⟨(name, winner :: (mid ++ [loser])), ?_, ?_⟩
    · cases hget : (files.foldl addName Dict.empty).get? name with
      | none =>
        rw [hget] at hfiles
        cases hfiles
      | some paths =>
        rw [hget] at hfiles
        exact congrArg some hfiles
    · show (mid ++ [loser]).getLast?.map _ = _
      rw [List.getLast?_concat]
      rfl

/-! ## Paths of files -/

theorem join_getLast {comps : List Str} (h : ∀ comp ∈ comps, comp ≠ [] ∧ posixSep ∉ comp) :
    ∀ c ∈ (join "/" comps).getLast?, c ≠ posixSep := by
  have hplain : ∀ comp ∈ comps, ∀ c ∈ comp.getLast?, c ≠ posixSep := by
    rintro comp hcomp c hc rfl
    exact (h comp hcomp).2 (List.mem_of_getLast? hc)
  induction comps with
  | nil => intro c hc; cases hc
  | cons comp rest ih =>
    cases rest with
    | nil => exact hplain comp List.mem_cons_self
    | cons next rest =>
      have hrest := fun x hx => h x (List.mem_cons_of_mem comp hx)
      have hne : join "/" (next :: rest) ≠ [] := by
        intro hnil
        obtain ⟨c, hc⟩ := List.exists_mem_of_ne_nil _ (hrest next List.mem_cons_self).1
        have hin := @mem_join_of_mem "/" next (next :: rest) _ List.mem_cons_self hc
        rw [hnil] at hin
        cases hin
      rw [join_cons_cons, List.append_assoc, List.getLast?_append_of_ne_nil _ (by simp [hne]),
        List.getLast?_append_of_ne_nil _ hne]
      exact ih hrest fun x hx => hplain x (List.mem_cons_of_mem comp hx)

theorem posixRoot_cases (path : Str) :
    posixRoot path = [] ∨ posixRoot path = "/" ∨ posixRoot path = "//" := by
  rw [posixRoot]
  split
  · exact Or.inl rfl
  · exact Or.inr (Or.inr rfl)
  · exact Or.inr (Or.inl rfl)

theorem pathText_ne_nil (path : Str) : pathText path ≠ [] := by
  rw [pathText]
  split_ifs with h
  · decide
  · exact h

/-- A path that ends in a slash is the root. -/
theorem pathText_root {path : Str} (h : (pathText path).getLast? = some posixSep) :
    pathText path = "/" ∨ pathText path = "//" := by
  have hcomps : ∀ comp ∈ ((path.drop (posixRoot path).length).splitOn posixSep).filter
      (fun comp => comp ≠ [] ∧ comp ≠ "."), comp ≠ [] ∧ posixSep ∉ comp := by
    intro comp hcomp
    rw [List.mem_filter, decide_eq_true_eq] at hcomp
    exact ⟨hcomp.2.1, not_mem_of_mem_splitOn hcomp.1⟩
  rw [pathText] at h ⊢
  generalize ((path.drop (posixRoot path).length).splitOn posixSep).filter _ = comps at *
  by_cases hnil : join "/" comps = []
  · rw [hnil, List.append_nil] at h ⊢
    rcases posixRoot_cases path with hroot | hroot | hroot
    · rw [hroot] at h
      exact absurd h (by decide)
    · rw [hroot]
      exact Or.inl rfl
    · rw [hroot]
      exact Or.inr rfl
  · have hne : posixRoot path ++ join "/" comps ≠ [] := by simp [hnil]
    rw [if_neg hne, List.getLast?_append_of_ne_nil _ hnil] at h
    exact absurd rfl (join_getLast hcomps _ h)

/-- What stands before the name of a file. -/
def beforeName (base : Str) : Str :=
  if base = "." then []
  else if base.getLast? = some posixSep then base
  else base ++ lit "/"

theorem childText_eq (entry name : Str) :
    childText entry name = beforeName (pathText entry) ++ name := by
  rw [childText, beforeName]
  split_ifs
  · rfl
  · rfl
  · rfl

theorem beforeName_cases (base : Str) :
    beforeName base = [] ∨ ∃ start, beforeName base = start ++ [posixSep] := by
  rw [beforeName]
  split_ifs with _ hlast
  · exact Or.inl rfl
  · exact Or.inr (List.getLast?_eq_some_iff.mp hlast)
  · exact Or.inr ⟨base, rfl⟩

theorem stripEnd_beforeName {base name : Str} (hname : posixSep ∉ name) :
    stripEnd (fun c => c ≠ posixSep) (beforeName base ++ name) = beforeName base := by
  have hall : ∀ c ∈ name, (decide (c ≠ posixSep)) = true := fun c hc =>
    decide_eq_true fun heq => hname (heq ▸ hc)
  have hnone : stripEnd (fun c => c ≠ posixSep) name = [] := by
    rw [stripEnd, List.reverse_eq_nil_iff, List.dropWhile_eq_nil_iff]
    exact fun c hc => hall c (List.mem_reverse.mp hc)
  rcases beforeName_cases base with hnil | ⟨start, hstart⟩
  · rw [hnil, List.nil_append, hnone]
  · rw [hstart, List.append_assoc]
    show stripEnd _ (start ++ posixSep :: name) = _
    rw [stripEnd_append_cons (by decide), hnone]

theorem beforeName_inj {entry other : Str}
    (h : beforeName (pathText entry) = beforeName (pathText other)) :
    pathText entry = pathText other := by
  -- A path that is written without a slash behind it does not end in one.
  have hroot : ∀ a b : Str, (pathText a).getLast? = some posixSep →
      (pathText b).getLast? ≠ some posixSep → pathText a ≠ pathText b ++ lit "/" := by
    intro a b ha hb heq
    rcases pathText_root ha with hslash | hslash
    · rw [hslash] at heq
      have hlen := congrArg List.length heq
      have hpos := List.length_pos_iff.mpr (pathText_ne_nil b)
      simp [lit] at hlen
      exact pathText_ne_nil b hlen
    · rw [hslash] at heq
      have hb' : pathText b = "/" := (List.append_cancel_right (heq : lit "/" ++ lit "/" = _)).symm
      rw [hb'] at hb
      exact hb (by decide)
  have hne : ∀ a : Str, pathText a ++ lit "/" ≠ [] := fun a => by simp [pathText_ne_nil]
  rw [beforeName, beforeName] at h
  split_ifs at h with h1 h2 h3 h4 h5 h6 h7 h8
  · rw [h1, h2]
  · exact absurd h.symm (pathText_ne_nil _)
  · exact absurd h.symm (hne _)
  · exact absurd h (pathText_ne_nil _)
  · exact h
  · exact absurd h (hroot _ _ h4 h6)
  · exact absurd h (hne _)
  · exact absurd h.symm (hroot _ _ h8 h4)
  · exact List.append_cancel_right h

/-- The path of a file tells its name and its directory. -/
theorem childText_inj {entry other name name' : Str} (hname : posixSep ∉ name)
    (hname' : posixSep ∉ name') (h : childText entry name = childText other name') :
    name = name' ∧ pathText entry = pathText other := by
  rw [childText_eq, childText_eq] at h
  have hbefore := congrArg (stripEnd fun c => c ≠ posixSep) h
  rw [stripEnd_beforeName hname, stripEnd_beforeName hname'] at hbefore
  rw [hbefore] at h
  exact ⟨List.append_cancel_left h, beforeName_inj hbefore⟩

/-! ## Occurrences -/

variable {δ : Type} (host : Host δ)

/-- The names listed under the entries, each with its entry, in the order of the PATH. -/
def occurrences (parts : List Str) : List (Str × Str) :=
  parts.flatMap fun entry => (host.children entry).map fun child => (entry, child)

/-- Those that are one name in lower case. -/
def occurrencesOf (parts : List Str) (key : Str) : List (Str × Str) :=
  (occurrences host parts).filter fun o => host.lower o.2 = key

variable {host} {parts : List Str} {key : Str}

theorem mem_occurrences {o : Str × Str} :
    o ∈ occurrences host parts ↔ o.1 ∈ parts ∧ o.2 ∈ host.children o.1 := by
  rw [occurrences, List.mem_flatMap]
  constructor
  · rintro ⟨entry, hentry, hin⟩
    obtain ⟨child, hchild, rfl⟩ := List.mem_map.mp hin
    exact ⟨hentry, hchild⟩
  · exact fun h => ⟨o.1, h.1, List.mem_map.mpr ⟨o.2, h.2, rfl⟩⟩

theorem mem_occurrencesOf {o : Str × Str} :
    o ∈ occurrencesOf host parts key ↔
      (o.1 ∈ parts ∧ o.2 ∈ host.children o.1) ∧ host.lower o.2 = key := by
  rw [occurrencesOf, List.mem_filter, mem_occurrences, decide_eq_true_eq]

theorem occurrencesOf_append (before behind : List Str) :
    occurrencesOf host (before ++ behind) key =
      occurrencesOf host before key ++ occurrencesOf host behind key := by
  rw [occurrencesOf, occurrences, List.flatMap_append, List.filter_append]
  rfl

theorem occurrencesOf_cons (entry : Str) (rest : List Str) :
    occurrencesOf host (entry :: rest) key =
      occurrencesOf host [entry] key ++ occurrencesOf host rest key :=
  occurrencesOf_append [entry] rest

/-- Nothing is cut from a name on Linux. -/
theorem namedFiles_linux (host : Host δ) (parts : List Str) :
    namedFiles host parts "linux" =
      (occurrences host parts).map fun o => (host.lower o.2, childText o.1 o.2) := by
  have hstem : ∀ child, stemOf host (executableExts host "linux") child = host.lower child :=
    fun child => rfl
  simp only [namedFiles, occurrences, hstem, List.map_flatMap, List.map_map]
  rfl

theorem filesNamed_linux (host : Host δ) (parts : List Str) (key : Str) :
    ((namedFiles host parts "linux").filter fun file => file.1 = key).map Prod.snd =
      (occurrencesOf host parts key).map fun o => childText o.1 o.2 := by
  rw [namedFiles_linux, List.filter_map, List.map_map]
  rfl

theorem mem_findShadowed {t : Str × Str × Str} :
    t ∈ findShadowed host parts "linux" ↔
      ∃ first mid last, occurrencesOf host parts t.1 = first :: (mid ++ [last]) ∧
        childText first.1 first.2 = t.2.1 ∧ childText last.1 last.2 = t.2.2 := by
  rw [findShadowed]
  refine mem_filterMap_shadowing.trans ?_
  rw [filesNamed_linux]
  constructor
  · rintro ⟨mid, hmap⟩
    obtain ⟨first, rest, hocc, hfirst, hrest⟩ := List.map_eq_cons_iff.mp hmap
    obtain ⟨mid', lasts, rfl, -, hlasts⟩ := List.map_eq_append_iff.mp hrest
    obtain ⟨last, rfl, hlast⟩ := List.map_eq_singleton_iff.mp hlasts
    exact ⟨first, mid', last, hocc, hfirst, hlast⟩
  · rintro ⟨first, mid, last, hocc, hfirst, hlast⟩
    refine ⟨mid.map fun o => childText o.1 o.2, ?_⟩
    rw [hocc, List.map_cons, List.map_append, List.map_singleton, hfirst, hlast]

theorem children_plain {entry name : Str} (h : name ∈ host.children entry) : posixSep ∉ name := by
  rw [Host.children] at h
  split at h
  · split at h
    · exact host.listing_plain _ _ ‹_› name h
    · cases h
  · cases h

/-- Entries that are one path name one directory. -/
theorem directoryOf_congr {entry other : Str} (h : pathText entry = pathText other) :
    host.directoryOf entry = host.directoryOf other := by
  rw [Host.directoryOf, Host.directoryOf, h]

/-! ## Real shadowing -/

/-- Two entries for different directories that list a name. -/
structure TwoDirectories (host : Host δ) (parts : List Str) (name winner loser : Str) : Prop where
  winner_mem : winner ∈ parts
  loser_mem : loser ∈ parts
  in_winner : name ∈ host.children winner
  in_loser : name ∈ host.children loser
  different : host.directoryOf winner ≠ host.directoryOf loser

/-- A triple of a name, the file of that name in the first directory that lists it, and one in
another directory. -/
def IsShadowing (host : Host δ) (parts : List Str) (t : Str × Str × Str) : Prop :=
  ∃ before winner behind loser, parts = before ++ winner :: behind ∧
    (∀ entry ∈ before, t.1 ∉ host.children entry) ∧
    TwoDirectories host parts t.1 winner loser ∧
    t.2.1 = childText winner t.1 ∧ t.2.2 = childText loser t.1

/-- What is reported is shadowing, and all of it. -/
structure ShadowingRight (host : Host δ) (parts : List Str) : Prop where
  sound : ∀ t ∈ findShadowed host parts "linux", IsShadowing host parts t
  complete : ∀ name winner loser, TwoDirectories host parts name winner loser →
    ∃ t ∈ findShadowed host parts "linux", t.1 = name

/-- The ends of each name in lower case are files of that name in different directories, and only
names in lower case are in different directories. -/
structure EndsDiffer (host : Host δ) (parts : List Str) : Prop where
  ends : ∀ key first mid last, occurrencesOf host parts key = first :: (mid ++ [last]) →
    first.2 = key ∧ last.2 = key ∧ host.directoryOf first.1 ≠ host.directoryOf last.1
  lower : ∀ name winner loser, TwoDirectories host parts name winner loser → host.lower name = name

/-- The first entry with a name, when it is the first occurrence of the name in lower case. -/
theorem exists_winner {first : Str × Str} {rest : List (Str × Str)}
    (hocc : occurrencesOf host parts key = first :: rest) (hname : first.2 = key) :
    ∃ before behind, parts = before ++ first.1 :: behind ∧
      ∀ entry ∈ before, key ∉ host.children entry := by
  have hlower : host.lower key = key := by
    have hin : first ∈ occurrencesOf host parts key := hocc ▸ List.mem_cons_self
    have hfirst := (mem_occurrencesOf.mp hin).2
    rwa [hname] at hfirst
  clear hname
  induction parts with
  | nil => cases hocc
  | cons entry parts ih =>
    rw [occurrencesOf_cons] at hocc
    cases hentry : occurrencesOf host [entry] key with
    | nil =>
      rw [hentry] at hocc
      obtain ⟨before, behind, rfl, hbefore⟩ := ih hocc
      refine ⟨entry :: before, behind, rfl, List.forall_mem_cons.mpr ⟨fun hin => ?_, hbefore⟩⟩
      have hmem : (entry, key) ∈ occurrencesOf host [entry] key :=
        mem_occurrencesOf.mpr ⟨⟨List.mem_cons_self, hin⟩, hlower⟩
      rw [hentry] at hmem
      cases hmem
    | cons other others =>
      rw [hentry] at hocc
      obtain ⟨rfl, -⟩ := List.cons.inj hocc
      have hin : other ∈ occurrencesOf host [entry] key := hentry ▸ List.mem_cons_self
      have heq : other.1 = entry := List.mem_singleton.mp (mem_occurrencesOf.mp hin).1.1
      exact ⟨[], parts, by rw [heq]; rfl, fun e he => absurd he List.not_mem_nil⟩

/-- Where the report is right, the ends of a name are the two files that it shows. -/
theorem ends_of_sound (h : ∀ t ∈ findShadowed host parts "linux", IsShadowing host parts t)
    {first last : Str × Str} {mid : List (Str × Str)}
    (hocc : occurrencesOf host parts key = first :: (mid ++ [last])) :
    first.2 = key ∧ last.2 = key ∧ host.directoryOf first.1 ≠ host.directoryOf last.1 := by
  obtain ⟨before, winner, behind, loser, -, -, htwo, hwin, hlose⟩ :=
    h (key, childText first.1 first.2, childText last.1 last.2)
      (mem_findShadowed.mpr ⟨first, mid, last, hocc, rfl, rfl⟩)
  have hin : ∀ o ∈ first :: (mid ++ [last]), posixSep ∉ o.2 := fun o ho =>
    children_plain (mem_occurrencesOf.mp (hocc ▸ ho)).1.2
  have hfirst := childText_inj (hin first List.mem_cons_self) (children_plain htwo.in_winner) hwin
  have hlast := childText_inj (hin last (by simp)) (children_plain htwo.in_loser) hlose
  refine ⟨hfirst.1, hlast.1, fun heq => htwo.different ?_⟩
  rw [← directoryOf_congr hfirst.2, heq, directoryOf_congr hlast.2]

theorem EndsDiffer.sound (h : EndsDiffer host parts) {t : Str × Str × Str}
    (ht : t ∈ findShadowed host parts "linux") : IsShadowing host parts t := by
  obtain ⟨first, mid, last, hocc, hwin, hlose⟩ := mem_findShadowed.mp ht
  obtain ⟨hfirst, hlast, hdiff⟩ := h.ends _ _ _ _ hocc
  obtain ⟨before, behind, hparts, hbefore⟩ := exists_winner hocc hfirst
  have hin : ∀ o ∈ first :: (mid ++ [last]), o.1 ∈ parts ∧ o.2 ∈ host.children o.1 :=
    fun o ho => (mem_occurrencesOf.mp (hocc ▸ ho)).1
  have h1 := hin first List.mem_cons_self
  have h2 := hin last (by simp)
  rw [hfirst] at h1 hwin
  rw [hlast] at h2 hlose
  exact ⟨before, first.1, behind, last.1, hparts, hbefore, ⟨h1.1, h2.1, h1.2, h2.2, hdiff⟩,
    hwin.symm, hlose.symm⟩

/-- A name in two directories has two occurrences at least: a first one and a last one. -/
theorem TwoDirectories.reported {name winner loser : Str}
    (htwo : TwoDirectories host parts name winner loser) (hlower : host.lower name = name) :
    ∃ t ∈ findShadowed host parts "linux", t.1 = name := by
  have hfirst : (winner, name) ∈ occurrencesOf host parts name :=
    mem_occurrencesOf.mpr ⟨⟨htwo.winner_mem, htwo.in_winner⟩, hlower⟩
  have hsecond : (loser, name) ∈ occurrencesOf host parts name :=
    mem_occurrencesOf.mpr ⟨⟨htwo.loser_mem, htwo.in_loser⟩, hlower⟩
  have hne : (winner, name) ≠ (loser, name) := fun heq =>
    htwo.different (by rw [(Prod.mk.inj heq).1])
  cases hocc : occurrencesOf host parts name with
  | nil =>
    rw [hocc] at hfirst
    cases hfirst
  | cons first rest =>
    rw [hocc] at hfirst hsecond
    rcases List.eq_nil_or_concat' rest with rfl | ⟨mid, last, rfl⟩
    · exact absurd ((List.mem_singleton.mp hfirst).trans (List.mem_singleton.mp hsecond).symm) hne
    · exact ⟨(name, childText first.1 first.2, childText last.1 last.2),
        mem_findShadowed.mpr ⟨first, mid, last, hocc, rfl, rfl⟩, rfl⟩

/-- What `_find_shadowed` reports is right exactly when the ends of each name differ. -/
theorem shadowing_right_iff (host : Host δ) (parts : List Str) :
    ShadowingRight host parts ↔ EndsDiffer host parts := by
  constructor
  · intro h
    refine ⟨fun key first mid last hocc => ends_of_sound h.sound hocc, fun name winner loser htwo => ?_⟩
    obtain ⟨t, ht, rfl⟩ := h.complete name winner loser htwo
    obtain ⟨first, mid, last, hocc, -, -⟩ := mem_findShadowed.mp ht
    have hin : first ∈ occurrencesOf host parts t.1 := hocc ▸ List.mem_cons_self
    have hlower := (mem_occurrencesOf.mp hin).2
    rwa [(ends_of_sound h.sound hocc).1] at hlower
  · intro h
    exact ⟨fun t ht => h.sound ht, fun name winner loser htwo =>
      htwo.reported (h.lower name winner loser htwo)⟩

/-! ## Examples -/

namespace Sample

/-- One directory with one file. -/
def binHost : Host Unit where
  directory := fun path => .ok (if path = lit "/bin" then some () else none)
  listing := fun _ => .ok [lit "ls"]
  listing_plain := by
    intro dir names hnames name hname
    cases hnames
    rw [List.mem_singleton.mp hname]
    decide
  lower := id
  pathext := []

end Sample

/-- The file of a directory that the PATH has twice passes for two. -/
theorem repeated_entry_shadows :
    (lit "ls", lit "/bin/ls", lit "/bin/ls") ∈
        findShadowed Sample.binHost (splitPath "/bin:/bin" "linux") "linux" ∧
      ¬ShadowingRight Sample.binHost (splitPath "/bin:/bin" "linux") := by
  have hparts : splitPath "/bin:/bin" "linux" = [lit "/bin", lit "/bin"] := by decide
  have hocc : occurrencesOf Sample.binHost [lit "/bin", lit "/bin"] "ls" =
      [(lit "/bin", lit "ls"), (lit "/bin", lit "ls")] := by decide
  rw [hparts]
  refine ⟨mem_findShadowed.mpr ⟨_, [], _, hocc, by decide, by decide⟩, fun h => ?_⟩
  obtain ⟨before, winner, behind, loser, -, -, htwo, -, -⟩ :=
    h.sound (lit "ls", lit "/bin/ls", lit "/bin/ls")
      (mem_findShadowed.mpr ⟨_, [], _, hocc, by decide, by decide⟩)
  have hone : ∀ entry ∈ [lit "/bin", lit "/bin"], entry = lit "/bin" := by
    intro entry hentry
    simpa using hentry
  exact htwo.different (by rw [hone _ htwo.winner_mem, hone _ htwo.loser_mem])

end DevRepro.Platforms
