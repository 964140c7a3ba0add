import DevRepro.Project.VersionFiles
import DevRepro.Python.Words

/-!
# Pins of tools

For which texts of `.tool-versions` the requirements are the pins: `plainPin_iff` for a line,
`toolVersionsAgree_iff` for a text.
-/

namespace DevRepro.Project

open DevRepro.Python DevRepro.Lib DevRepro.Agents DevRepro.Snapshots

theorem toolPins_eq (line : Str) :
    toolPins line = pinsOf ((cutPieces (words line)).filter fun piece => piece != []) := by
  rw [toolPins, words_strip, words_beforeText]

/-- A pin has no comment in it. -/
theorem hash_not_mem_pin {line : Str} {pin : PinnedTool} (h : pin ∈ toolPins line) :
    codePoint '#' ∉ pin.name ∧ codePoint '#' ∉ pin.version := by
  rw [toolPins_eq] at h
  cases hcut : (cutPieces (words line)).filter fun piece => piece != [] with
  | nil =>
    rw [hcut] at h
    cases h
  | cons name versions =>
    rw [hcut] at h
    have hclean : ∀ piece ∈ name :: versions, codePoint '#' ∉ piece := by
      intro piece hpiece
      rw [← hcut] at hpiece
      exact hash_not_mem_cutPieces (List.mem_filter.mp hpiece).1
    obtain ⟨version, hversion, rfl⟩ := List.mem_map.mp h
    exact ⟨hclean name List.mem_cons_self, hclean version (List.mem_cons_of_mem _ hversion)⟩

/-- Where the detector finds a tool and a version before a comment, they are the first pin,
and the other pins are the words up to the comment. -/
theorem toolPins_found {line name version : Str} {rest : List Str}
    (hwords : words line = name :: version :: rest) (hname : codePoint '#' ∉ name)
    (hversion : codePoint '#' ∉ version) :
    toolPins line = ⟨name, version, ".tool-versions"⟩ ::
      ((cutPieces rest).filter fun piece => piece != []).map fun v => ⟨name, v, ".tool-versions"⟩ := by
  have hne : ∀ w ∈ words line, w ≠ [] := fun w hw => (mem_words hw).1
  rw [hwords] at hne
  have hfirst := hne name List.mem_cons_self
  have hsecond := hne version (List.mem_cons_of_mem _ List.mem_cons_self)
  rw [toolPins_eq, hwords, cutPieces, if_neg hname, cutPieces, if_neg hversion, List.filter_cons,
    if_pos (bne_iff_ne.mpr hfirst), List.filter_cons, if_pos (bne_iff_ne.mpr hsecond)]
  rfl

/-- A word that starts with `#`, or none, ends the pins. -/
theorem cut_eq_nil_iff {line name version : Str} {rest : List Str}
    (hwords : words line = name :: version :: rest) :
    ((cutPieces rest).filter fun piece => piece != []) = [] ↔
      ∀ third ∈ rest.head?, startsWith third "#" = true := by
  cases rest with
  | nil => simp [cutPieces]
  | cons third rest =>
    have hmem : third ∈ words line := by
      rw [hwords]
      exact List.mem_cons_of_mem _ (List.mem_cons_of_mem _ List.mem_cons_self)
    obtain ⟨c, behind, rfl⟩ := List.exists_cons_of_ne_nil (mem_words hmem).1
    have hstart : startsWith (c :: behind) "#" = true ↔ c = codePoint '#' := by
      rw [startsWith, List.isPrefixOf_iff_prefix]
      constructor
      · exact fun h => (List.cons_prefix_cons.mp h).1.symm
      · rintro rfl
        exact ⟨behind, rfl⟩
    simp only [List.head?_cons, Option.mem_def, Option.some.injEq, forall_eq']
    rw [hstart, cutPieces]
    by_cases hin : codePoint '#' ∈ c :: behind
    · rw [if_pos hin, beforeText_hash]
      by_cases hc : c = codePoint '#'
      · rw [if_pos hc]
        exact iff_of_true rfl hc
      · rw [if_neg hc]
        exact iff_of_false (by simp) hc
    · rw [if_neg hin]
      refine iff_of_false (by simp) fun hc => hin ?_
      rw [hc]
      exact List.mem_cons_self

/-- A plain line gives the detector and the version managers the same. -/
theorem plainPin_iff (line : Str) :
    PlainPin line ↔ (toolVersionsLine line).toList =
      (toolPins line).map fun pin => (pin.name, pin.version) := by
  unfold PlainPin toolVersionsLine
  rcases hwords : words line with _ | ⟨name, _ | ⟨version, rest⟩⟩
  · rw [toolPins_eq, hwords]
    refine iff_of_true ?_ rfl
    rintro _ _ _ h
    cases h
  · rw [toolPins_eq, hwords, cutPieces]
    refine iff_of_true (fun _ _ _ h => absurd (List.cons.inj h).2.symm (List.cons_ne_nil _ _)) ?_
    split_ifs
    · by_cases hne : beforeText "#" name = []
      · simp [hne, pinsOf]
      · simp [hne, pinsOf]
    · by_cases hne : name = []
      · simp [hne, cutPieces, pinsOf]
      · simp [hne, cutPieces, pinsOf]
  · constructor
    · intro h
      obtain ⟨hname, hversion, hthird⟩ := h name version rest rfl
      rw [toolPins_found hwords hname hversion, (cut_eq_nil_iff hwords).mpr hthird]
      rfl
    · rintro h _ _ _ heq
      simp only [List.cons.injEq] at heq
      obtain ⟨rfl, rfl, rfl⟩ := heq
      change [(name, version)] = _ at h
      obtain ⟨pin, hpin, hsame⟩ := List.mem_map.mp (h ▸ List.mem_singleton_self (name, version))
      obtain ⟨hname, hversion⟩ := hash_not_mem_pin hpin
      obtain ⟨rfl, rfl⟩ := Prod.mk.inj hsame
      refine ⟨hname, hversion, (cut_eq_nil_iff hwords).mp ?_⟩
      rw [toolPins_found hwords hname hversion] at h
      simpa using h

/-- Lists of pairs that have the same second components behind each first one have the same
members and the same length. -/
theorem perm_of_same_values {l l' : List (Str × Str)}
    (h : ∀ name, (l.filter fun p => decide (p.1 = name)).map Prod.snd =
      (l'.filter fun p => decide (p.1 = name)).map Prod.snd) : l.Perm l' := by
  rw [List.perm_iff_count]
  rintro ⟨name, version⟩
  have hcount : ∀ l : List (Str × Str), l.count (name, version) =
      ((l.filter fun p => decide (p.1 = name)).map Prod.snd).count version := by
    intro l
    induction l with
    | nil => rfl
    | cons p l ih =>
      obtain ⟨n, v⟩ := p
      rw [List.count_cons, ih, List.filter_cons]
      by_cases hn : n = name
      · by_cases hv : v = version
        · simp [hn, hv]
        · simp [hn, hv]
      · simp [hn]
  rw [hcount, hcount, h name]

/-- The specs of the requirements of a tool are the versions that the lines have for it. -/
theorem toolVersionsReqs_specs (source text name : Str) :
    ((toolVersionsReqs source text).filter fun r =>
        decide (r.name = lit "tool-versions:" ++ name)).map ProjectRequirement.spec =
      (((splitlines text).filterMap toolVersionsLine).filter fun p => decide (p.1 = name)).map
        Prod.snd := by
  rw [toolVersionsReqs, List.filter_map, List.map_map]
  have hname : ((fun r : ProjectRequirement => decide (r.name = lit "tool-versions:" ++ name)) ∘
      fun item : Str × Str =>
        req "generic" (lit "tool-versions:" ++ item.1) item.2 .tool source) =
      fun p => decide (p.1 = name) := by
    funext item
    simp only [Function.comp_apply, req, List.append_right_inj]
  rw [hname]
  refine List.map_congr_left fun item hitem => ?_
  obtain ⟨line, -, hline⟩ := List.mem_filterMap.mp (List.mem_filter.mp hitem).1
  have hne : item.2 ≠ [] := by
    unfold toolVersionsLine at hline
    split at hline
    · rename_i tool version rest hwords
      obtain rfl := Option.some.inj hline
      have hmem : version ∈ words line := by
        rw [hwords]
        exact List.mem_cons_of_mem _ List.mem_cons_self
      exact (mem_words hmem).1
    · cases hline
  exact if_neg hne

theorem parseToolVersions_versions (text name : Str) :
    ((parseToolVersions text).filter fun pin => decide (pin.name = name)).map PinnedTool.version =
      (((parseToolVersions text).map fun pin => (pin.name, pin.version)).filter fun p =>
        decide (p.1 = name)).map Prod.snd := by
  rw [List.filter_map, List.map_map]
  rfl

/-- Numbers that are no greater one by one, and the same in sum, are the same. -/
theorem eq_of_sum_eq {α : Type} {l : List α} {f g : α → Nat} (hle : ∀ a ∈ l, f a ≤ g a)
    (hsum : (l.map f).sum = (l.map g).sum) : ∀ a ∈ l, f a = g a := by
  induction l with
  | nil => simp
  | cons a l ih =>
    rw [List.forall_mem_cons] at hle ⊢
    rw [List.map_cons, List.map_cons, List.sum_cons, List.sum_cons] at hsum
    have hrest : (l.map f).sum ≤ (l.map g).sum := List.sum_le_sum hle.2
    have hfirst := hle.1
    exact ⟨by omega, ih hle.2 (by omega)⟩

/-- What the detector finds on a line without `#` is the first pin of the line. -/
theorem toolPins_begin {line : Str} (hclean : ∀ item ∈ (toolVersionsLine line).toList,
      codePoint '#' ∉ item.1 ∧ codePoint '#' ∉ item.2) :
    ∃ more, toolPins line = (toolVersionsLine line).toList.map
      (fun item => ⟨item.1, item.2, ".tool-versions"⟩) ++ more := by
  cases hitem : toolVersionsLine line with
  | none => exact ⟨_, rfl⟩
  | some item =>
    obtain ⟨hname, hversion⟩ := hclean item (by rw [hitem]; exact List.mem_singleton_self _)
    unfold toolVersionsLine at hitem
    split at hitem
    · rename_i name version rest hwords
      obtain rfl := Option.some.inj hitem
      exact ⟨_, toolPins_found hwords hname hversion⟩
    · cases hitem

/-- The requirements and the pins, tool by tool, as pairs of a name and a version. -/
theorem toolVersionsAgree_pairs (source text : Str) : ToolVersionsAgree source text ↔ ∀ name,
    (((splitlines text).flatMap fun line => (toolVersionsLine line).toList).filter fun p =>
        decide (p.1 = name)).map Prod.snd =
      (((splitlines text).flatMap fun line =>
        (toolPins line).map fun pin => (pin.name, pin.version)).filter fun p =>
          decide (p.1 = name)).map Prod.snd := by
  have hpins : ((parseToolVersions text).map fun pin => (pin.name, pin.version)) =
      (splitlines text).flatMap fun line => (toolPins line).map fun pin => (pin.name, pin.version) := by
    rw [parseToolVersions, List.map_flatMap]
  refine forall_congr' fun name => ?_
  rw [toolVersionsReqs_specs, parseToolVersions_versions, hpins, List.filterMap_eq_flatMap_toList]

/-- `.tool-versions` is read one way exactly when all of its lines are plain. -/
theorem toolVersionsAgree_iff (source text : Str) :
    ToolVersionsAgree source text ↔ ∀ line ∈ splitlines text, PlainPin line := by
  rw [toolVersionsAgree_pairs]
  constructor
  · intro h
    have hperm := perm_of_same_values h
    -- What the detector finds on a line is a pin, so the pins of the line start with it.
    have hstart : ∀ line ∈ splitlines text, ∃ more, toolPins line = (toolVersionsLine line).toList.map
        (fun item => ⟨item.1, item.2, ".tool-versions"⟩) ++ more := by
      refine fun line hline => toolPins_begin fun item hitem => ?_
      obtain ⟨other, -, hmem⟩ := List.mem_flatMap.mp
        (hperm.subset (List.mem_flatMap.mpr ⟨line, hline, hitem⟩))
      obtain ⟨pin, hpin, rfl⟩ := List.mem_map.mp hmem
      exact hash_not_mem_pin hpin
    have hlength := hperm.length_eq
    rw [List.length_flatMap, List.length_flatMap] at hlength
    have hsame := eq_of_sum_eq (fun line hline => by
      obtain ⟨more, hmore⟩ := hstart line hline
      rw [hmore]
      simp) hlength
    intro line hline
    rw [plainPin_iff]
    obtain ⟨more, hmore⟩ := hstart line hline
    have hcount := hsame line hline
    rw [hmore] at hcount ⊢
    simp only [List.map_append, List.length_append, List.length_map] at hcount
    have hnone : more = [] := List.eq_nil_of_length_eq_zero (by omega)
    rw [hnone, List.append_nil, List.map_map]
    exact (List.map_id _).symm
  · intro h name
    have hsame : ((splitlines text).flatMap fun line => (toolVersionsLine line).toList) =
        (splitlines text).flatMap fun line =>
          (toolPins line).map fun pin => (pin.name, pin.version) :=
      List.flatMap_congr fun line hline => (plainPin_iff line).mp (h line hline)
    rw [hsame]

end DevRepro.Project
