import Mathlib.Data.List.Basic
import Mathlib.Data.List.Dedup
import Mathlib.Data.List.Nodup

/-!
# Dictionaries

Library `Python`. A dictionary keeps the order in which its keys were first assigned, and the value
that each was assigned last.
-/

namespace HzjDds.Python

variable {κ α : Type*}

/-- A dictionary as its items in order; no key occurs twice. -/
@[ext] structure Dict (κ α : Type*) where
  items : List (κ × α)
  nodup : (items.map Prod.fst).Nodup

namespace Dict

/-- `list(d)`. -/
def keys (d : Dict κ α) : List κ := d.items.map Prod.fst

/-- `list(d.values())`. -/
def values (d : Dict κ α) : List α := d.items.map Prod.snd

/-- `{}`. -/
def empty : Dict κ α := ⟨[], List.nodup_nil⟩

variable [DecidableEq κ]

/-- The items after `d[key] = value`: the place of a key that is there stays. -/
def setItems (items : List (κ × α)) (key : κ) (value : α) : List (κ × α) :=
  if key ∈ items.map Prod.fst then
    items.map fun item ↦ if item.1 = key then (key, value) else item
  else items ++ [(key, value)]

private theorem map_fst_replace (items : List (κ × α)) (key : κ) (value : α) :
    (items.map fun item ↦ if item.1 = key then (key, value) else item).map Prod.fst =
      items.map Prod.fst := by
  simp only [List.map_map]
  apply List.map_congr_left
  intro item _
  by_cases hkey : item.1 = key <;> simp [hkey]

private theorem map_fst_setItems (items : List (κ × α)) (key : κ) (value : α) :
    (setItems items key value).map Prod.fst =
      if key ∈ items.map Prod.fst then items.map Prod.fst else items.map Prod.fst ++ [key] := by
  unfold setItems
  split
  · rw [map_fst_replace]
  · simp

/-- `d[key] = value`. -/
def set (d : Dict κ α) (key : κ) (value : α) : Dict κ α where
  items := setItems d.items key value
  nodup := by
    rw [map_fst_setItems]
    split
    · exact d.nodup
    · next hnew =>
      rw [List.nodup_append]
      refine ⟨d.nodup, List.nodup_singleton key, ?_⟩
      intro other hother added hadded
      rw [List.mem_singleton] at hadded
      rintro rfl
      exact hnew (hadded ▸ hother)

/-- `d.get(key)`. -/
def get? (d : Dict κ α) (key : κ) : Option α :=
  (d.items.find? fun item ↦ decide (item.1 = key)).map Prod.snd

/-- A dictionary filled by assigning the items in their order. -/
def ofItems (items : List (κ × α)) : Dict κ α :=
  items.foldl (fun d item ↦ d.set item.1 item.2) empty

/-! ## Lookups -/

omit [DecidableEq κ] in
private theorem mem_keys (d : Dict κ α) (key : κ) : key ∈ d.keys ↔ ∃ value, (key, value) ∈ d.items := by
  simp [keys]

omit [DecidableEq κ] in
private theorem item_unique (d : Dict κ α) {key : κ} {value other : α} (hvalue : (key, value) ∈ d.items)
    (hother : (key, other) ∈ d.items) : value = other := by
  have hsame := List.inj_on_of_nodup_map d.nodup hvalue hother rfl
  simpa using hsame

/-- A lookup gives the value of the item with the key. -/
theorem get?_eq_some_iff (d : Dict κ α) (key : κ) (value : α) :
    d.get? key = some value ↔ (key, value) ∈ d.items := by
  unfold get?
  constructor
  case mp =>
    intro hfound
    obtain ⟨⟨found, _⟩, hitem, rfl⟩ := Option.map_eq_some_iff.mp hfound
    have hkey : found = key := by simpa using List.find?_some hitem
    subst hkey
    exact List.mem_of_find?_eq_some hitem
  case mpr =>
    intro hmem
    cases hitem : d.items.find? fun item ↦ decide (item.1 = key) with
    | none =>
      have hno := List.find?_eq_none.mp hitem (key, value) hmem
      simp at hno
    | some item =>
      obtain ⟨found, other⟩ := item
      have hkey : found = key := by simpa using List.find?_some hitem
      subst hkey
      rw [Option.map_some, d.item_unique (List.mem_of_find?_eq_some hitem) hmem]

/-- A lookup of a key that is there gives a value. -/
theorem isSome_get?_iff (d : Dict κ α) (key : κ) : (d.get? key).isSome ↔ key ∈ d.keys := by
  rw [mem_keys, Option.isSome_iff_exists]
  exact exists_congr fun value ↦ d.get?_eq_some_iff key value

/-! ## Filling a dictionary -/

private theorem mem_items_set {d : Dict κ α} {key : κ} {value : α} {item : κ × α}
    (hitem : item ∈ (d.set key value).items) : item = (key, value) ∨ item ∈ d.items := by
  simp only [set, setItems] at hitem
  split at hitem
  · obtain ⟨old, hold, rfl⟩ := List.mem_map.mp hitem
    by_cases hkey : old.1 = key
    · simp [hkey]
    · simp [hkey, hold]
  · simpa [or_comm] using hitem

private theorem mem_items_foldl (items : List (κ × α)) (d : Dict κ α) {item : κ × α}
    (hitem : item ∈ (items.foldl (fun d item ↦ d.set item.1 item.2) d).items) :
    item ∈ d.items ∨ item ∈ items := by
  induction items generalizing d with
  | nil => exact .inl hitem
  | cons first rest ih =>
    rcases ih (d.set first.1 first.2) hitem with hset | hrest
    · rcases mem_items_set hset with rfl | hold
      · exact .inr List.mem_cons_self
      · exact .inl hold
    · exact .inr (List.mem_cons_of_mem first hrest)

/-- Every item of a dictionary was assigned. -/
theorem mem_of_mem_ofItems {items : List (κ × α)} {item : κ × α}
    (hitem : item ∈ (ofItems items).items) : item ∈ items := by
  rcases mem_items_foldl items empty hitem with hnone | hitem
  · cases hnone
  · exact hitem

private theorem items_foldl_of_nodup (items : List (κ × α)) (d : Dict κ α)
    (hnew : ((d.items ++ items).map Prod.fst).Nodup) :
    (items.foldl (fun d item ↦ d.set item.1 item.2) d).items = d.items ++ items := by
  induction items generalizing d with
  | nil => simp
  | cons first rest ih =>
    have hfirst : first.1 ∉ d.items.map Prod.fst := by
      intro hmem
      rw [List.map_append, List.nodup_append] at hnew
      exact hnew.2.2 _ hmem first.1 (by simp) rfl
    have hset : (d.set first.1 first.2).items = d.items ++ [first] := by
      simp [set, setItems, hfirst]
    rw [List.foldl_cons, ih (d.set first.1 first.2) (by simpa [hset] using hnew), hset]
    simp

/-- Assigning items overwrites none of them exactly when their keys differ. -/
theorem items_ofItems_iff (items : List (κ × α)) :
    (ofItems items).items = items ↔ (items.map Prod.fst).Nodup := by
  constructor
  case mp =>
    intro hsame
    rw [← hsame]
    exact (ofItems items).nodup
  case mpr =>
    intro hnodup
    simpa [ofItems, empty] using items_foldl_of_nodup items empty (by simpa [empty] using hnodup)

end Dict

end HzjDds.Python
