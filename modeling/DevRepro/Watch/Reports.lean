import DevRepro.Watch.Loop

/-!
# What a watch reports

The calls of `on_change` over a run of `watch`, for every list of polls.

`debounce_loses_nothing` says when there is a call and that it names every path that moved.
`net_change_iff` says on which runs a report is the net change since the previous one, and
`rewritten_file_in_two_classes` shows a run on which it is not.
-/

namespace DevRepro.Watch

open DevRepro.Python DevRepro.Lib DevRepro.Lib.Changes DevRepro.Lib.Machine

/-! ## Calls -/

section Calls

variable {τ : Type} [Add τ] [LE τ] [DecidableLE τ] [Zero τ] {quietPeriod : τ}

/-- The loop after some polls. -/
def after (quietPeriod : τ) (start : Fingerprint) (polls : List (Poll τ)) : State τ :=
  final (step quietPeriod) (.start start) polls

/-- The fingerprints that the loop saw from the previous call on. -/
def sinceCall (quietPeriod : τ) (start : Fingerprint) (polls : List (Poll τ)) : List Fingerprint :=
  since start (trace (step quietPeriod) (.start start) polls)

theorem tracks_run (quietPeriod : τ) (start : Fingerprint) (polls : List (Poll τ)) :
    Tracks start (trace (step quietPeriod) (.start start) polls) (after quietPeriod start polls) :=
  trace_induction (tracks_start start) (fun _ _ poll h => h.round poll) polls

/-- What `watch` returns is the number of its calls. -/
theorem watch_eq (quietPeriod : τ) (start : Fingerprint) (polls : List (Poll τ)) :
    watch quietPeriod start polls =
      ((trace (step quietPeriod) (.start start) polls).filter fun e => e.output.isSome).length := by
  have hcount : ∀ (done : List (Entry (State τ) (Poll τ) (Option Change))) (s : State τ) (poll : Poll τ),
      s.fired = (done.filter fun e => e.output.isSome).length →
      (step quietPeriod s poll).1.fired =
        ((done ++ [entry (step quietPeriod) s poll]).filter fun e => e.output.isSome).length := by
    intro done s poll h
    rw [step_fired, h, List.filter_append, List.length_append, List.filter_singleton, entry]
    cases (step quietPeriod s poll).2 with
    | none => rfl
    | some change => rfl
  exact trace_induction
    (R := fun (done : List (Entry (State τ) (Poll τ) (Option Change))) s =>
      s.fired = (done.filter fun e => e.output.isSome).length) rfl hcount polls

/-- The fingerprint at the previous call, or at the start. -/
def atLastCall (quietPeriod : τ) (start : Fingerprint) (polls : List (Poll τ)) : Fingerprint :=
  (sinceCall quietPeriod start polls).headD start

theorem sights_head (quietPeriod : τ) (start : Fingerprint) (polls : List (Poll τ)) (path : Str) :
    (sights (sinceCall quietPeriod start polls) path).head? =
      some ((atLastCall quietPeriod start polls).get? path) := by
  have hne : sinceCall quietPeriod start polls ≠ [] := by
    intro hnil
    have hlast := (tracks_run quietPeriod start polls).baseline path
    rw [sinceCall] at hnil
    rw [hnil] at hlast
    cases hlast
  rw [sights, List.head?_map, List.head?_eq_some_head hne, atLastCall, List.headD_eq_head?_getD,
    List.head?_eq_some_head hne]
  rfl

/-- The change that `on_change` is called with at a poll, after some others. -/
def callAt (quietPeriod : τ) (start : Fingerprint) (earlier : List (Poll τ)) (poll : Poll τ) :
    Option Change :=
  (step quietPeriod (after quietPeriod start earlier) poll).2

variable {start : Fingerprint} {earlier : List (Poll τ)} {poll : Poll τ} {change : Change} {path : Str}

/-- A call is of what is pending, at a poll that finds nothing new, once the time is over. -/
theorem callAt_eq_some (h : callAt quietPeriod start earlier poll = some change) :
    Same (after quietPeriod start earlier).baseline poll.current ∧
      (after quietPeriod start earlier).pending = some change ∧
      (after quietPeriod start earlier).settledAt ≤ poll.now := by
  unfold callAt at h
  rcases step_cases quietPeriod (after quietPeriod start earlier) poll with ⟨-, hstep⟩ |
    ⟨hsame, pending, hpending, hsettled, hstep⟩ | ⟨-, hstep⟩
  · rw [hstep] at h
    cases h
  · rw [hstep] at h
    cases h
    exact ⟨hsame, hpending, hsettled⟩
  · rw [hstep] at h
    cases h

/-- A reported change names a path by what happened to it since the previous call. -/
theorem names_of_call (h : callAt quietPeriod start earlier poll = some change) (path : Str) :
    Names change path (Happens Appears (sights (sinceCall quietPeriod start earlier) path))
      (Happens Vanishes (sights (sinceCall quietPeriod start earlier) path))
      (Happens Differs (sights (sinceCall quietPeriod start earlier) path)) := by
  have hnames := (tracks_run quietPeriod start earlier).names path
  rw [(callAt_eq_some h).2.1] at hnames
  exact hnames

theorem sights_last (h : callAt quietPeriod start earlier poll = some change) (path : Str) :
    (sights (sinceCall quietPeriod start earlier) path).getLast? = some (poll.current.get? path) := by
  rw [← (callAt_eq_some h).1 path]
  exact (tracks_run quietPeriod start earlier).baseline path

/-! ## When there is a call -/

theorem after_append (quietPeriod : τ) (start : Fingerprint) (polls : List (Poll τ)) (poll : Poll τ) :
    after quietPeriod start (polls ++ [poll]) =
      (step quietPeriod (after quietPeriod start polls) poll).1 := by
  rw [after, final_append]
  rfl

theorem baseline_lastSeen (quietPeriod : τ) (start : Fingerprint) (polls : List (Poll τ)) :
    Same (after quietPeriod start polls).baseline (lastSeen start polls) := by
  induction polls using List.reverseRecOn with
  | nil => exact Same.refl start
  | append_singleton polls poll ih =>
    rw [after_append, lastSeen_append]
    rcases step_cases quietPeriod (after quietPeriod start polls) poll with ⟨-, hstep⟩ |
      ⟨hsame, pending, -, -, hstep⟩ | ⟨hsame, hstep⟩
    · rw [hstep]
      exact Same.refl _
    · rw [hstep]
      exact hsame
    · rw [hstep]
      exact hsame

/-- What is pending waits for the last movement to be over. -/
theorem lastMovement (quietPeriod : τ) (start : Fingerprint) (polls : List (Poll τ))
    (hpending : (after quietPeriod start polls).pending ≠ none) :
    ∃ before moved rest, polls = before ++ moved :: rest ∧
      ¬Same (lastSeen start before) moved.current ∧ (∀ p ∈ rest, Same moved.current p.current) ∧
      Same moved.current (after quietPeriod start polls).baseline ∧
      (after quietPeriod start polls).settledAt = moved.now + quietPeriod := by
  induction polls using List.reverseRecOn with
  | nil => exact absurd rfl hpending
  | append_singleton polls poll ih =>
    rw [after_append] at hpending ⊢
    rcases step_cases quietPeriod (after quietPeriod start polls) poll with ⟨hmoved, hstep⟩ |
      ⟨-, pending, -, -, hstep⟩ | ⟨hsame, hstep⟩
    · rw [hstep]
      refine ⟨polls, poll, [], rfl, fun hsame => hmoved ?_, fun p hp => absurd hp List.not_mem_nil,
        Same.refl _, rfl⟩
      exact (baseline_lastSeen quietPeriod start polls).trans hsame
    · rw [hstep] at hpending
      exact absurd rfl hpending
    · rw [hstep] at hpending ⊢
      obtain ⟨before, moved, rest, rfl, hmoved, hrest, hbaseline, hsettled⟩ := ih hpending
      refine ⟨before, moved, rest ++ [poll], by rw [List.append_assoc, List.cons_append], hmoved,
        fun p hp => ?_, hbaseline, hsettled⟩
      rcases List.mem_append.mp hp with hp | hp
      · exact hrest p hp
      · rw [List.mem_singleton.mp hp]
        exact hbaseline.trans hsame

end Calls

/-! ## A file that is written anew -/

def oneFile : Fingerprint := Dict.empty.set "uv.lock" "1f"

/-- A lockfile is deleted and written back as it was. -/
def savedAgain : List (Poll ℕ) := [⟨Dict.empty, 1⟩, ⟨oneFile, 2⟩]

theorem oneFile_get? : oneFile.get? (lit "uv.lock") = some (lit "1f") := by
  rw [oneFile, Dict.get?_set, if_pos rfl]

/-- Once nothing moves, both movements are reported. -/
theorem savedAgain_call : callAt 1 oneFile savedAgain ⟨oneFile, 3⟩ =
    some (merge (diff oneFile Dict.empty) (diff Dict.empty oneFile)) := by
  have hgone : ¬Same oneFile Dict.empty := by
    intro h
    have hfile := h (lit "uv.lock")
    rw [oneFile_get?] at hfile
    cases hfile
  have hback : ¬Same Dict.empty oneFile := fun h => hgone h.symm
  have hafter : after 1 oneFile savedAgain =
      ⟨oneFile, some (merge (diff oneFile Dict.empty) (diff Dict.empty oneFile)), 3, 0⟩ := by
    rw [savedAgain, after, final, step_moved hgone, final, step_moved hback, final]
    rfl
  rw [callAt, hafter, step_fires (Same.refl _) rfl (le_refl 3)]

/-! ## Results -/

section Results

variable {τ : Type} [Add τ] [LE τ] [DecidableLE τ] [Zero τ] {quietPeriod : τ} {start : Fingerprint}
  {earlier : List (Poll τ)} {poll : Poll τ} {change : Change}

/-- A call comes at a poll that saw nothing move, a quiet period after the last movement; it
names every path that is another one than at the previous call, and none follows before the
next movement. -/
theorem debounce_loses_nothing (quietPeriod : τ) (start : Fingerprint) (earlier : List (Poll τ))
    (poll : Poll τ) (change : Change)
    (hcall : callAt quietPeriod start earlier poll = some change) :
    (∃ before previous, earlier = before ++ [previous] ∧ Same previous.current poll.current) ∧
      (∃ before moved rest, earlier = before ++ moved :: rest ∧
        ¬Same (lastSeen start before) moved.current ∧ (∀ p ∈ rest, Same moved.current p.current) ∧
        moved.now + quietPeriod ≤ poll.now) ∧
      (∀ path, (atLastCall quietPeriod start earlier).get? path ≠ poll.current.get? path →
        path ∈ change.added ∨ path ∈ change.removed ∨ path ∈ change.modified) ∧
      ∀ later, (∀ p ∈ later, Same poll.current p.current) →
        ∀ e ∈ trace (step quietPeriod) (after quietPeriod start (earlier ++ [poll])) later,
          e.output = none := by
  obtain ⟨hsame, hpending, hsettled⟩ := callAt_eq_some hcall
  obtain ⟨before, moved, rest, hsplit, hmoved, hrest, -, htime⟩ :=
    lastMovement quietPeriod start earlier (by rw [hpending]; exact Option.some_ne_none _)
  refine ⟨?_, ⟨before, moved, rest, hsplit, hmoved, hrest, htime ▸ hsettled⟩, fun path hne => ?_,
    fun later hlater => ?_⟩
  · rcases List.eq_nil_or_concat earlier with hnil | ⟨init, previous, hlast⟩
    · rw [hnil] at hsplit
      simp at hsplit
    · rw [List.concat_eq_append] at hlast
      refine ⟨init, previous, hlast, ?_⟩
      have hseen := baseline_lastSeen quietPeriod start earlier
      rw [hlast, lastSeen_append, ← hlast] at hseen
      exact hseen.symm.trans hsame
  · have hnames := names_of_call hcall path
    rw [hnames.added, hnames.removed, hnames.modified]
    exact happens_of_ne (sights_head quietPeriod start earlier path) (sights_last hcall path) hne
  · rw [after_append, step_fires hsame hpending hsettled]
    exact no_call rfl fun p hp => hsame.trans (hlater p hp)

theorem debounce_loses_nothing_saved : ∃ before previous,
    savedAgain = before ++ [previous] ∧ Same previous.current oneFile :=
  (debounce_loses_nothing 1 oneFile savedAgain ⟨oneFile, 3⟩ _ savedAgain_call).1

/-! ## The net change -/

/-- A change has every path in one class at most, and in that of the change between two
fingerprints. -/
def IsNet (before now : Fingerprint) (change : Change) : Prop :=
  ∀ path, Names change path (Appears (before.get? path) (now.get? path))
      (Vanishes (before.get? path) (now.get? path)) (Differs (before.get? path) (now.get? path)) ∧
    ¬(path ∈ change.added ∧ path ∈ change.removed) ∧
    ¬(path ∈ change.added ∧ path ∈ change.modified) ∧
    ¬(path ∈ change.removed ∧ path ∈ change.modified)

/-- The classes of a net change are apart of themselves. -/
theorem isNet_iff {before now : Fingerprint} :
    IsNet before now change ↔ ∀ path, Names change path (Appears (before.get? path) (now.get? path))
      (Vanishes (before.get? path) (now.get? path))
      (Differs (before.get? path) (now.get? path)) := by
  refine forall_congr' fun path => and_iff_left_of_imp fun h => ?_
  rw [h.added, h.removed, h.modified]
  exact ⟨fun h => h.2.1 h.1.1, fun h => h.2.1 h.1.1, fun h => h.2.2.1 h.1.2⟩

theorem call_isNet_iff (hcall : callAt quietPeriod start earlier poll = some change) :
    IsNet (atLastCall quietPeriod start earlier) poll.current change ↔
      ∀ path, Direct (sights (sinceCall quietPeriod start earlier) path)
        ((atLastCall quietPeriod start earlier).get? path) (poll.current.get? path) := by
  rw [isNet_iff]
  refine forall_congr' fun path => ?_
  rw [← net_iff (sights_head quietPeriod start earlier path) (sights_last hcall path)]
  have hnames := names_of_call hcall path
  exact ⟨fun h => ⟨hnames.added.symm.trans h.added, hnames.removed.symm.trans h.removed,
      hnames.modified.symm.trans h.modified⟩,
    fun h => hnames.congr h.1.symm h.2.1.symm h.2.2.symm⟩

/-- The reports of a run are the net changes exactly when between two calls every path goes
where it ends directly: in one move at most, or present all the time and another one in the
end. -/
theorem net_change_iff (quietPeriod : τ) (start : Fingerprint) (polls : List (Poll τ)) :
    (∀ earlier poll later, polls = earlier ++ poll :: later →
        ∀ change, callAt quietPeriod start earlier poll = some change →
          IsNet (atLastCall quietPeriod start earlier) poll.current change) ↔
      ∀ earlier poll later, polls = earlier ++ poll :: later →
        (callAt quietPeriod start earlier poll).isSome = true →
          ∀ path, Direct (sights (sinceCall quietPeriod start earlier) path)
            ((atLastCall quietPeriod start earlier).get? path) (poll.current.get? path) := by
  refine forall₃_congr fun earlier poll later => forall_congr' fun _ => ?_
  rw [Option.isSome_iff_exists]
  constructor
  · rintro h ⟨change, hcall⟩
    exact (call_isNet_iff hcall).mp (h change hcall)
  · intro h change hcall
    exact (call_isNet_iff hcall).mpr (h ⟨change, hcall⟩)

end Results

/-- The file that ends as it began is reported as added and as removed. -/
theorem rewritten_file_in_two_classes :
    ∃ change, callAt 1 oneFile savedAgain ⟨oneFile, 3⟩ = some change ∧
      lit "uv.lock" ∈ change.added ∧ lit "uv.lock" ∈ change.removed ∧
      ¬IsNet (atLastCall 1 oneFile savedAgain) oneFile change := by
  have hnames := names_merge (@names_diff oneFile Dict.empty "uv.lock")
    (@names_diff Dict.empty oneFile "uv.lock")
  rw [oneFile_get?, Dict.get?_empty] at hnames
  have hadded := hnames.added.mpr (Or.inr ⟨rfl, Option.some_ne_none _⟩)
  have hremoved := hnames.removed.mpr (Or.inl ⟨Option.some_ne_none _, rfl⟩)
  exact ⟨_, savedAgain_call, hadded, hremoved, fun h => (h (lit "uv.lock")).2.1 ⟨hadded, hremoved⟩⟩

end DevRepro.Watch
