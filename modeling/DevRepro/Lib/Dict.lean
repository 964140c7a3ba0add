import Mathlib.Data.List.Nodup
import Mathlib.Algebra.BigOperators.Group.List.Basic
import Mathlib.Algebra.GroupWithZero.Nat
import Mathlib.Data.List.Perm.Basic

/-!
# Dictionaries in insertion order

A dictionary is a list of entries with distinct keys: a set replaces the value of
a present key in its place, and appends an absent one.
-/

namespace DevRepro.Lib

variable {κ α β : Type} [DecidableEq κ]

structure Dict (κ α : Type) where
  items : List (κ × α)
  nodup : (items.map Prod.fst).Nodup

namespace Dict

def empty : Dict κ α := ⟨[], List.nodup_nil⟩

/-- The value of a key in a list of entries. -/
def find? (k : κ) (items : List (κ × α)) : Option α :=
  (items.find? fun item => decide (item.1 = k)).map Prod.snd

/-- Set the value of a key in a list of entries. -/
def put (k : κ) (v : α) : List (κ × α) → List (κ × α)
  | [] => [(k, v)]
  | item :: rest => if item.1 = k then (k, v) :: rest else item :: put k v rest

@[simp] theorem find?_nil (k : κ) : find? k ([] : List (κ × α)) = none := rfl

theorem find?_cons (k : κ) (item : κ × α) (rest : List (κ × α)) :
    find? k (item :: rest) = if item.1 = k then some item.2 else find? k rest := by
  unfold find?
  rw [List.find?_cons]
  split_ifs with h
  · simp [h]
  · simp [h]

theorem mem_put_keys {k other : κ} {v : α} {items : List (κ × α)} :
    other ∈ (put k v items).map Prod.fst ↔ other = k ∨ other ∈ items.map Prod.fst := by
  induction items with
  | nil => simp [put]
  | cons item rest ih =>
    rw [put]
    split_ifs with h
    · subst h
      simp
    · rw [List.map_cons, List.mem_cons, ih, List.map_cons, List.mem_cons]
      tauto

theorem put_nodup {k : κ} {v : α} {items : List (κ × α)} (h : (items.map Prod.fst).Nodup) :
    ((put k v items).map Prod.fst).Nodup := by
  induction items with
  | nil => simp [put]
  | cons item rest ih =>
    rw [List.map_cons, List.nodup_cons] at h
    rw [put]
    split_ifs with hk
    · subst hk
      rw [List.map_cons, List.nodup_cons]
      exact h
    · rw [List.map_cons, List.nodup_cons, mem_put_keys]
      refine ⟨?_, ih h.2⟩
      rintro (heq | hmem)
      · exact hk heq
      · exact h.1 hmem

theorem find?_put (k other : κ) (v : α) (items : List (κ × α)) :
    find? other (put k v items) = if other = k then some v else find? other items := by
  induction items with
  | nil =>
    rw [put, find?_cons]
    split_ifs with h h' h' <;> first | rfl | exact absurd h.symm h' | exact absurd h'.symm h
  | cons item rest ih =>
    rw [put]
    by_cases hk : item.1 = k
    · rw [if_pos hk, find?_cons, find?_cons]
      by_cases ho : other = k
      · rw [if_pos ho, if_pos ho.symm]
      · rw [if_neg ho, if_neg (Ne.symm ho), if_neg]
        intro heq
        exact ho (heq.symm.trans hk)
    · rw [if_neg hk, find?_cons, find?_cons, ih]
      by_cases ho : item.1 = other
      · rw [if_pos ho, if_pos ho, if_neg]
        intro heq
        exact hk (ho.trans heq)
      · rw [if_neg ho, if_neg ho]

theorem put_of_not_mem {k : κ} (v : α) {items : List (κ × α)} (h : k ∉ items.map Prod.fst) :
    put k v items = items ++ [(k, v)] := by
  induction items with
  | nil => rfl
  | cons item rest ih =>
    rw [List.map_cons, List.mem_cons, not_or] at h
    rw [put, if_neg (Ne.symm h.1), ih h.2, List.cons_append]

/-- `dict.get`. -/
def get? (d : Dict κ α) (k : κ) : Option α := find? k d.items

/-- `dict[k] = v`. -/
def set (d : Dict κ α) (k : κ) (v : α) : Dict κ α := ⟨put k v d.items, put_nodup d.nodup⟩

/-- `k in dict`. -/
def contains (d : Dict κ α) (k : κ) : Bool := (d.get? k).isSome

/-- The dictionary with other values. -/
def mapValues (f : α → β) (d : Dict κ α) : Dict κ β :=
  ⟨d.items.map fun item => (item.1, f item.2), by
    rw [List.map_map]
    exact d.nodup⟩

@[simp] theorem get?_empty (k : κ) : (empty : Dict κ α).get? k = none := rfl

theorem get?_set (d : Dict κ α) (k other : κ) (v : α) :
    (d.set k v).get? other = if other = k then some v else d.get? other :=
  find?_put k other v d.items

theorem get?_mapValues (f : α → β) (d : Dict κ α) (k : κ) :
    (d.mapValues f).get? k = (d.get? k).map f := by
  unfold get? mapValues
  dsimp only
  generalize d.items = items
  induction items with
  | nil => rfl
  | cons item rest ih =>
    rw [List.map_cons, find?_cons, find?_cons, ih]
    split_ifs
    · rfl
    · rfl

/-- The entries of a key, of which there is at most one. -/
theorem filterMap_items (d : Dict κ α) (k : κ) (f : α → β) :
    (d.items.filterMap fun item => if item.1 = k then some (f item.2) else none) =
      ((d.get? k).map f).toList := by
  unfold get?
  have hnodup := d.nodup
  generalize d.items = items at hnodup
  induction items with
  | nil => rfl
  | cons item rest ih =>
    rw [List.map_cons, List.nodup_cons] at hnodup
    rw [List.filterMap_cons, find?_cons]
    by_cases h : item.1 = k
    · have hrest : (rest.filterMap fun item => if item.1 = k then some (f item.2) else none) = [] := by
        rw [List.filterMap_eq_nil_iff]
        intro other hother
        rw [if_neg]
        intro heq
        exact hnodup.1 (List.mem_map.mpr ⟨other, hother, heq.trans h.symm⟩)
      simp [h, hrest]
    · simp only [if_neg h]
      exact ih hnodup.2

/-- The part of the entries under one key. -/
theorem filter_items (d : Dict κ α) (k : κ) :
    (d.items.filter fun item => decide (item.1 = k)) = ((d.get? k).map (k, ·)).toList := by
  rw [← filterMap_items d k (k, ·), ← List.filterMap_eq_filter]
  refine List.filterMap_congr fun item _ => ?_
  rw [Option.guard]
  by_cases h : item.1 = k
  · subst h
    simp
  · simp [h]

theorem get?_of_mem {d : Dict κ α} {item : κ × α} (h : item ∈ d.items) :
    d.get? item.1 = some item.2 := by
  have hmem : item ∈ d.items.filter fun other => decide (other.1 = item.1) :=
    List.mem_filter.mpr ⟨h, decide_eq_true rfl⟩
  rw [filter_items, Option.mem_toList, Option.map_eq_some_iff] at hmem
  obtain ⟨v, hv, heq⟩ := hmem
  rw [hv, ← heq]

/-! ## One dictionary over another -/

/-- `{**d, **e}` -/
def merge (d e : Dict κ α) : Dict κ α :=
  e.items.foldl (fun merged item => merged.set item.1 item.2) d

theorem mem_of_find? {k : κ} {v : α} {items : List (κ × α)} (h : find? k items = some v) :
    (k, v) ∈ items := by
  obtain ⟨item, hfind, rfl⟩ := Option.map_eq_some_iff.mp h
  have hkey : item.1 = k := by
    have hfound := List.find?_some hfind
    rw [decide_eq_true_eq] at hfound
    exact hfound
  rw [← hkey]
  exact List.mem_of_find?_eq_some hfind

theorem mem_items_iff {d : Dict κ α} {item : κ × α} :
    item ∈ d.items ↔ d.get? item.1 = some item.2 :=
  ⟨get?_of_mem, mem_of_find?⟩

theorem find?_eq_none {k : κ} {items : List (κ × α)} (h : k ∉ items.map Prod.fst) :
    find? k items = none := by
  cases hfind : find? k items with
  | none => rfl
  | some v => exact absurd (List.mem_map_of_mem (mem_of_find? hfind)) h

theorem get?_merge (d e : Dict κ α) (k : κ) :
    (d.merge e).get? k = (e.get? k).or (d.get? k) := by
  unfold merge
  rw [show e.get? k = find? k e.items from rfl]
  have hnodup := e.nodup
  generalize e.items = items at hnodup
  induction items generalizing d with
  | nil => rfl
  | cons item rest ih =>
    rw [List.map_cons, List.nodup_cons] at hnodup
    rw [List.foldl_cons, ih _ hnodup.2, get?_set, find?_cons]
    by_cases hk : item.1 = k
    · subst hk
      rw [find?_eq_none hnodup.1, if_pos rfl, if_pos rfl]
      rfl
    · rw [if_neg hk, if_neg (Ne.symm hk)]

/-- An entry of a merge is one of the later dictionary, or one of the earlier with
a key that the later one lacks. -/
theorem mem_merge_iff {d e : Dict κ α} {item : κ × α} :
    item ∈ (d.merge e).items ↔ item ∈ e.items ∨ item ∈ d.items ∧ e.contains item.1 = false := by
  rw [mem_items_iff, mem_items_iff, mem_items_iff, get?_merge, contains]
  cases e.get? item.1 with
  | none => simp
  | some v => simp

end Dict

end DevRepro.Lib

/-!
## Counting keys

`tally` counts the keys of a list in a dictionary.  It is a multiset: an entry is a key of
the list with the number of its places (`mem_tally`), the order of the list is forgotten
(`tally_perm`), and the counts add up to the length (`sum_tally`).
-/

namespace DevRepro.Lib

variable {κ : Type} [DecidableEq κ]

/-- `counts[key] = counts.get(key, 0) + 1` -/
def addOne (counts : Dict κ Nat) (key : κ) : Dict κ Nat :=
  counts.set key ((counts.get? key).getD 0 + 1)

/-- The keys of a list, with the number of their places. -/
def tally (keys : List κ) : Dict κ Nat := keys.foldl addOne Dict.empty

/-- The number of places of a key. -/
def places (key : κ) (keys : List κ) : Nat := keys.countP fun other => decide (other = key)

theorem places_append (key : κ) (keys others : List κ) :
    places key (keys ++ others) = places key keys + places key others := List.countP_append

theorem places_of_not_mem {key : κ} {keys : List κ} (h : key ∉ keys) : places key keys = 0 :=
  List.countP_eq_zero.mpr fun other hother => by
    rintro heq
    exact h (of_decide_eq_true heq ▸ hother)

theorem places_filter {p : κ → Bool} {key : κ} (h : p key = true) (keys : List κ) :
    places key (keys.filter p) = places key keys := by
  rw [places, places, List.countP_filter]
  refine List.countP_congr fun other _ => ?_
  rw [Bool.and_eq_true, decide_eq_true_iff]
  exact ⟨And.left, fun heq => ⟨heq, heq ▸ h⟩⟩

theorem get?_foldl_addOne (counts : Dict κ Nat) (keys : List κ) (key : κ) :
    (keys.foldl addOne counts).get? key =
      if key ∈ keys then some ((counts.get? key).getD 0 + places key keys) else counts.get? key := by
  induction keys generalizing counts with
  | nil => simp
  | cons head rest ih =>
    rw [List.foldl_cons, ih, addOne, Dict.get?_set]
    have hcons : places key (head :: rest) = places key rest + if head = key then 1 else 0 := by
      simp only [places, List.countP_cons, decide_eq_true_eq]
    by_cases hhead : key = head
    · subst hhead
      rw [if_pos rfl] at hcons
      by_cases hrest : key ∈ rest
      · simp only [hrest, if_true, Option.getD_some, List.mem_cons_self, hcons]
        congr 1
        omega
      · simp [hrest, hcons, places_of_not_mem hrest]
    · simp [hhead, hcons, Ne.symm hhead]

theorem get?_tally (keys : List κ) (key : κ) :
    (tally keys).get? key = if key ∈ keys then some (places key keys) else none := by
  rw [tally, get?_foldl_addOne, Dict.get?_empty, Option.getD_none, Nat.zero_add]

/-- A key that is not counted stands nowhere. -/
theorem getD_tally (keys : List κ) (key : κ) : ((tally keys).get? key).getD 0 = places key keys := by
  rw [get?_tally]
  split_ifs with h
  · rfl
  · exact (places_of_not_mem h).symm

theorem mem_tally {keys : List κ} {item : κ × Nat} :
    item ∈ (tally keys).items ↔ item.1 ∈ keys ∧ item.2 = places item.1 keys := by
  rw [Dict.mem_items_iff, get?_tally]
  split_ifs with h
  · simp [h, eq_comm]
  · simp [h]

/-- The order of the keys is forgotten. -/
theorem tally_perm {keys others : List κ} (h : keys.Perm others) :
    (tally keys).items.Perm (tally others).items := by
  rw [List.perm_ext_iff_of_nodup (List.Nodup.of_map _ (tally keys).nodup)
    (List.Nodup.of_map _ (tally others).nodup)]
  intro item
  rw [mem_tally, mem_tally, h.mem_iff, places, h.countP_eq, places]

theorem sum_put (key : κ) (items : List (κ × Nat)) (n : Nat) :
    ((Dict.put key ((Dict.find? key items).getD 0 + n) items).map Prod.snd).sum =
      (items.map Prod.snd).sum + n := by
  induction items with
  | nil => simp [Dict.put, Dict.find?_nil]
  | cons item rest ih =>
    rw [Dict.put, Dict.find?_cons]
    split_ifs with h
    · simp only [Option.getD_some, List.map_cons, List.sum_cons]
      omega
    · simp only [List.map_cons, List.sum_cons, ih]
      omega

/-- The counts add up to the number of keys. -/
theorem sum_tally (keys : List κ) : ((tally keys).items.map Prod.snd).sum = keys.length := by
  suffices h : ∀ counts : Dict κ Nat, ((keys.foldl addOne counts).items.map Prod.snd).sum =
      (counts.items.map Prod.snd).sum + keys.length by
    rw [tally, h, Dict.empty, List.map_nil, List.sum_nil, Nat.zero_add]
  induction keys with
  | nil => exact fun _ => rfl
  | cons head rest ih =>
    intro counts
    have hone : ((addOne counts head).items.map Prod.snd).sum = (counts.items.map Prod.snd).sum + 1 :=
      sum_put head counts.items 1
    rw [List.foldl_cons, ih, hone, List.length_cons]
    omega

end DevRepro.Lib
