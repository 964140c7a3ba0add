import DevRepro.Python.JsonLiterals
import DevRepro.Python.JsonPaired

/-!
# Surrogate pairs in what `json.dumps` writes

The encoder writes a character beyond the basic plane as its two units, so a string with
two surrogates in a row and the string with the one character have the same literal.
`joined` is the string that the literal stands for: `quote_joined`.
-/

namespace DevRepro.Python

open Scan

/-- The string with every high surrogate and the low one behind it as one character. -/
def joined : Str → Str
  | [] => []
  | [c] => [c]
  | high :: low :: rest =>
    if isHighSurrogate high && isLowSurrogate low then joinPair high low :: joined rest
    else high :: joined (low :: rest)

theorem escapeChar_low {low : CodePoint} (h : isLowSurrogate low = true) :
    escapeChar low = escapeUnit low.val := by
  rw [isLowSurrogate_iff] at h
  exact escapeChar_surrogate (by omega) (by omega)

/-- A string and the joined one are written alike. -/
theorem quote_joined (s : Str) : quote (joined s) = quote s := by
  suffices h : (joined s).flatMap escapeChar = s.flatMap escapeChar by rw [quote, quote, h]
  fun_induction joined s with
  | case1 => rfl
  | case2 c => rfl
  | case3 high low rest hpair ih =>
    rw [Bool.and_eq_true] at hpair
    rw [List.flatMap_cons, List.flatMap_cons, List.flatMap_cons, ih,
      escapeChar_joinPair hpair.1 hpair.2, escapeChar_low hpair.2, List.append_assoc]
  | case4 high low rest hpair ih =>
    rw [List.flatMap_cons, List.flatMap_cons, ih]

/-- The first character stays, unless it is joined. -/
theorem head?_joined (c : CodePoint) (s : Str) :
    (joined (c :: s)).head? = some c ∨ ∃ d, (joined (c :: s)).head? = some d ∧ isSurrogate d = false := by
  cases s with
  | nil => exact Or.inl rfl
  | cons low rest =>
    rw [joined]
    split_ifs with hpair
    · rw [Bool.and_eq_true] at hpair
      exact Or.inr ⟨joinPair c low, rfl, isSurrogate_joinPair hpair.1 hpair.2⟩
    · exact Or.inl rfl

theorem wellPaired_joined (s : Str) : WellPaired (joined s) := by
  fun_induction joined s with
  | case1 => exact wellPaired_nil
  | case2 c => exact List.IsChain.singleton c
  | case3 high low rest hpair ih =>
    rw [Bool.and_eq_true] at hpair
    refine List.isChain_cons.mpr ⟨fun d _ hd => ?_, ih⟩
    have hno := isSurrogate_joinPair hpair.1 hpair.2
    rw [isSurrogate, hd.1] at hno
    cases hno
  | case4 high low rest hpair ih =>
    refine List.isChain_cons.mpr ⟨fun d hd hsurrogates => ?_, ih⟩
    rcases head?_joined low rest with hhead | ⟨e, hhead, hno⟩
    · rw [hhead] at hd
      cases hd
      exact hpair (Bool.and_eq_true_iff.mpr hsurrogates)
    · rw [hhead] at hd
      cases hd
      rw [isSurrogate, hsurrogates.2, Bool.or_true] at hno
      cases hno

/-- Where there is no pair, nothing is joined. -/
theorem joined_of_wellPaired {s : Str} (h : WellPaired s) : joined s = s := by
  fun_induction joined s with
  | case1 => rfl
  | case2 c => rfl
  | case3 high low rest hpair ih =>
    rw [Bool.and_eq_true] at hpair
    exact absurd hpair ((List.isChain_cons.mp h).1 low rfl)
  | case4 high low rest hpair ih => rw [ih (List.isChain_cons.mp h).2]

/-! ## Values -/

mutual
/-- The value with its strings joined. -/
def joinedValue : Json → Json
  | .str s => .str (joined s)
  | .arr elems => .arr (joinedElems elems)
  | .obj fields => .obj (joinedItems fields)
  | .null => .null
  | .bool b => .bool b
  | .int n => .int n
  | .float x => .float x
def joinedElems : List Json → List Json
  | [] => []
  | v :: rest => joinedValue v :: joinedElems rest
def joinedItems : List (Str × Json) → List (Str × Json)
  | [] => []
  | (key, v) :: rest => (key, joinedValue v) :: joinedItems rest
end

theorem joinedElems_eq_map (elems : List Json) : joinedElems elems = elems.map joinedValue := by
  induction elems with
  | nil => rfl
  | cons v rest ih => rw [joinedElems, ih, List.map_cons]

theorem joinedItems_eq_map (fields : List (Str × Json)) :
    joinedItems fields = fields.map fun item => (item.1, joinedValue item.2) := by
  induction fields with
  | nil => rfl
  | cons item rest ih => rw [joinedItems, ih, List.map_cons]

theorem dictGet?_joinedItems (fields : List (Str × Json)) (key : Str) :
    dictGet? (joinedItems fields) key = (dictGet? fields key).map joinedValue := by
  induction fields with
  | nil => rfl
  | cons item rest ih =>
    obtain ⟨k, v⟩ := item
    rw [joinedItems]
    by_cases hkey : k = key
    · simp [dictGet?, hkey]
    · rw [dictGet?, dictGet?, List.find?_cons_of_neg (by simpa using hkey),
        List.find?_cons_of_neg (by simpa using hkey)]
      exact ih

mutual
/-- A value and the joined one are written alike. -/
theorem dumpText_joinedValue (rt : Runtime) (style : DumpStyle) (level : Nat) (v : Json) :
    dumpText rt style level (joinedValue v) = dumpText rt style level v := by
  cases v with
  | str s => rw [joinedValue, dumpText, dumpText, quote_joined]
  | arr elems =>
    cases elems with
    | nil => rfl
    | cons v rest =>
      rw [joinedValue, joinedElems, dumpText, dumpText, dumpText_joinedValue rt style (level + 1) v,
        dumpElems_joinedElems rt style (level + 1) rest]
  | obj fields =>
    cases fields with
    | nil => rfl
    | cons item rest =>
      obtain ⟨key, v⟩ := item
      rw [joinedValue, joinedItems, dumpText, dumpText, dumpText_joinedValue rt style (level + 1) v,
        dumpItems_joinedItems rt style (level + 1) rest]
  | _ => rfl
theorem dumpElems_joinedElems (rt : Runtime) (style : DumpStyle) (level : Nat) (elems : List Json) :
    dumpElems rt style level (joinedElems elems) = dumpElems rt style level elems := by
  cases elems with
  | nil => rfl
  | cons v rest =>
    rw [joinedElems, dumpElems, dumpElems, dumpText_joinedValue rt style level v,
      dumpElems_joinedElems rt style level rest]
theorem dumpItems_joinedItems (rt : Runtime) (style : DumpStyle) (level : Nat) (fields : List (Str × Json)) :
    dumpItems rt style level (joinedItems fields) = dumpItems rt style level fields := by
  cases fields with
  | nil => rfl
  | cons item rest =>
    obtain ⟨key, v⟩ := item
    rw [joinedItems, dumpItems, dumpItems, dumpText_joinedValue rt style level v,
      dumpItems_joinedItems rt style level rest]
end

/-- The values without floats, whose keys are plain and not too deep. -/
inductive Plain (l : Limits) : Nat → Json → Prop where
  | null (level : Nat) : Plain l level .null
  | bool (level : Nat) (b : Bool) : Plain l level (.bool b)
  | int (level : Nat) (n : Int) : Plain l level (.int n)
  | str (level : Nat) (s : Str) : Plain l level (.str s)
  | arr (level : Nat) (elems : List Json) (room : level < l.depth)
      (each : ∀ v ∈ elems, Plain l (level + 1) v) : Plain l level (.arr elems)
  | obj (level : Nat) (fields : List (Str × Json)) (room : level < l.depth)
      (distinct : (fields.map Prod.fst).Nodup) (printable : ∀ key ∈ fields.map Prod.fst, PrintableText key)
      (each : ∀ item ∈ fields, Plain l (level + 1) item.2) : Plain l level (.obj fields)

theorem Plain.readable {rt : Runtime} {style : DumpStyle} {level : Nat} {v : Json}
    (h : Plain rt.limits level v) (he : dumpError rt style level v = none) :
    Readable rt.limits level (joinedValue v) := by
  induction h with
  | null => exact .null _
  | bool => exact .bool _ _
  | int => exact .int _ _ (dumpError_int_eq_none.mp he)
  | str => exact .str _ _ (wellPaired_joined _)
  | arr level elems room _ ih =>
    rw [joinedValue, joinedElems_eq_map]
    refine .arr _ _ room fun w hw => ?_
    obtain ⟨v, hv, rfl⟩ := List.mem_map.mp hw
    exact ih v hv ((dumpError_arr_eq_none.mp he).2 v hv)
  | obj level fields room distinct printable _ ih =>
    rw [joinedValue, joinedItems_eq_map]
    refine .obj _ _ room (by rwa [List.map_map]) ?_ ?_
    · intro item hitem
      obtain ⟨field, hfield, rfl⟩ := List.mem_map.mp hitem
      exact PrintableText.wellPaired (printable field.1 (List.mem_map_of_mem hfield))
    · intro item hitem
      obtain ⟨field, hfield, rfl⟩ := List.mem_map.mp hitem
      exact ih field hfield ((dumpError_obj_eq_none.mp he).2 field hfield)

end DevRepro.Python
