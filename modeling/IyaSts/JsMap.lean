import Mathlib.Data.List.Basic
import Mathlib.Data.List.Nodup

namespace IyaSts

/-!
# A JavaScript `Map`

Entries in the order their keys were first set, each key once.  Setting a key
that is there changes its value in place.
-/

open List

/-- A `Map`: its entries, oldest first. -/
structure JsMap (κ α : Type) where
  entries : List (κ × α)
  distinct : (entries.map Prod.fst).Nodup

namespace JsMap

variable {κ α : Type}

/-- `new Map()`. -/
def empty : JsMap κ α where
  entries := []
  distinct := nodup_nil

/-- `map.size`. -/
def size (map : JsMap κ α) : Nat := map.entries.length

/-- The first entry that a loop over the map meets. -/
def oldest (map : JsMap κ α) : Option (κ × α) := map.entries.head?

/-- The map after every entry that fails a test is deleted. -/
def keep (map : JsMap κ α) (test : κ → α → Bool) : JsMap κ α where
  entries := map.entries.filter fun entry => test entry.1 entry.2
  distinct := map.distinct.sublist (filter_sublist.map Prod.fst)

variable [DecidableEq κ]

/-- `map.get(key)`. -/
def get (map : JsMap κ α) (key : κ) : Option α := map.entries.lookup key

/-- `map.delete(key)`. -/
def delete (map : JsMap κ α) (key : κ) : JsMap κ α := map.keep fun other _ => other ≠ key

/-- The entries with the value of one key changed. -/
def replaced (entries : List (κ × α)) (key : κ) (value : α) : List (κ × α) :=
  entries.map fun entry => if entry.1 = key then (key, value) else entry

variable (entries : List (κ × α))

theorem keys_replaced (key : κ) (value : α) :
    (replaced entries key value).map Prod.fst = entries.map Prod.fst := by
  rw [replaced, map_map]
  apply map_congr_left
  intro entry _
  by_cases isKey : entry.1 = key
  · simp [isKey]
  · simp [isKey]

/-- `map.set(key, value)`. -/
def set (map : JsMap κ α) (key : κ) (value : α) : JsMap κ α :=
  if isHeld : key ∈ map.entries.map Prod.fst then
    { entries := replaced map.entries key value
      distinct := by
        rw [keys_replaced]
        exact map.distinct }
  else
    { entries := map.entries ++ [(key, value)]
      distinct := by
        rw [map_append, map_singleton]
        exact
          nodup_append'.mpr
            ⟨map.distinct, nodup_singleton key, disjoint_singleton.mpr isHeld⟩ }

/-! ## What is read -/

theorem lookup_isSome_iff (key : κ) :
    (entries.lookup key).isSome = true ↔ key ∈ entries.map Prod.fst := by
  induction entries with
  | nil => simp
  | cons entry rest ih =>
    obtain ⟨first, value⟩ := entry
    by_cases isFirst : key = first
    · simp [isFirst]
    · have notFirst : (key == first) = false := by
        simpa using isFirst
      rw [lookup_cons, notFirst, map_cons, mem_cons]
      simp [isFirst, ih]


/-- What is kept reads as before, if it passes the test. -/
theorem get_keep (map : JsMap κ α) (test : κ → α → Bool) (key : κ) :
    (map.keep test).get key = (map.get key).filter (test key) := by
  obtain ⟨entries, distinct⟩ := map
  unfold get keep
  simp only
  induction entries with
  | nil => rfl
  | cons entry rest ih =>
    obtain ⟨first, value⟩ := entry
    rw [map_cons, nodup_cons] at distinct
    have read := ih distinct.2
    by_cases isFirst : key = first
    · subst isFirst
      have absent : rest.lookup key = none := by
        rw [← Option.not_isSome_iff_eq_none, lookup_isSome_iff]
        exact distinct.1
      rw [absent] at read
      cases isKept : test key value with
      | true => simp [isKept, Option.filter]
      | false => simp [isKept, Option.filter, read]
    · have notFirst : (key == first) = false := by
        simpa using isFirst
      rw [lookup_cons, notFirst]
      cases isKept : test first value with
      | true => simp [isKept, lookup_cons, notFirst, read]
      | false => simp [isKept, read]

variable {map : JsMap κ α} {key other : κ} {value : α}

theorem get_of_get_keep {test : κ → α → Bool} (isHeld : (map.keep test).get key = some value) :
    map.get key = some value ∧ test key value = true := by
  rw [get_keep, Option.filter_eq_some_iff] at isHeld
  exact isHeld

@[simp] theorem get_delete_self (map : JsMap κ α) (key : κ) : (map.delete key).get key = none := by
  rw [delete, get_keep, Option.filter_eq_none_iff]
  simp

@[simp] theorem get_delete_other (map : JsMap κ α) (isOther : other ≠ key) :
    (map.delete key).get other = map.get other := by
  rw [delete, get_keep]
  cases map.get other with
  | none => rfl
  | some value => simp [Option.filter, isOther]

/-- Only the value of the one key is another. -/
theorem lookup_replaced (key : κ) (value : α) (other : κ) :
    (replaced entries key value).lookup other =
      if other = key then
        (entries.lookup key).map fun _ => value
      else
        entries.lookup other := by
  induction entries with
  | nil => simp [replaced]
  | cons entry rest ih =>
    obtain ⟨first, held⟩ := entry
    rw [replaced, map_cons, ← replaced]
    by_cases isFirst : first = key
    · subst isFirst
      by_cases isOther : other = first
      · simp [isOther]
      · have notFirst : (other == first) = false := by
          simpa using isOther
        simp [lookup_cons, notFirst, isOther, ih]
    · have notKey : (key == first) = false := by
        simpa using Ne.symm isFirst
      by_cases isOther : other = first
      · subst isOther
        simp [isFirst]
      · have notFirst : (other == first) = false := by
          simpa using isOther
        simp [isFirst, lookup_cons, notFirst, notKey, ih]

theorem get_set (map : JsMap κ α) (key : κ) (value : α) (other : κ) :
    (map.set key value).get other =
      if other = key then some value else map.get other := by
  unfold set get
  split
  · rename_i isHeld
    rw [lookup_replaced]
    obtain ⟨held, isRead⟩ :=
      Option.isSome_iff_exists.mp ((lookup_isSome_iff map.entries key).mpr isHeld)
    rw [isRead, Option.map_some]
  · rename_i notHeld
    have absent : map.entries.lookup key = none := by
      rw [← Option.not_isSome_iff_eq_none, lookup_isSome_iff]
      exact notHeld
    rw [lookup_append]
    by_cases isOther : other = key
    · subst isOther
      simp [absent]
    · have notKey : (other == key) = false := by
        simpa using isOther
      simp [lookup_cons, notKey, isOther]

@[simp] theorem get_set_self (map : JsMap κ α) (key : κ) (value : α) :
    (map.set key value).get key = some value := by
  rw [get_set, if_pos rfl]

theorem get_set_other (map : JsMap κ α) (isOther : other ≠ key) (value : α) :
    (map.set key value).get other = map.get other := by
  rw [get_set, if_neg isOther]

/-- A key that is not there is set at the end. -/
theorem entries_set_of_absent (absent : map.get key = none) (value : α) :
    (map.set key value).entries = map.entries ++ [(key, value)] := by
  have notHeld : key ∉ map.entries.map Prod.fst := by
    rw [← lookup_isSome_iff]
    unfold get at absent
    rw [absent]
    exact Bool.false_ne_true
  rw [set, dif_neg notHeld]

theorem get_eq_some_iff {value : α} : map.get key = some value ↔ (key, value) ∈ map.entries := by
  obtain ⟨entries, distinct⟩ := map
  unfold get
  simp only
  induction entries with
  | nil => simp
  | cons entry rest ih =>
    obtain ⟨first, held⟩ := entry
    rw [map_cons, nodup_cons] at distinct
    have read := ih distinct.2
    by_cases isFirst : key = first
    · subst isFirst
      have notRest : (key, value) ∉ rest := fun isRest =>
        distinct.1 (mem_map.mpr ⟨(key, value), isRest, rfl⟩)
      simp [notRest, eq_comm]
    · have notFirst : (key == first) = false := by
        simpa using isFirst
      rw [lookup_cons, notFirst, mem_cons]
      simp [isFirst, read]

/-- The oldest entry is read by its key. -/
theorem get_of_oldest (isOldest : map.oldest = some (key, value)) : map.get key = some value := by
  obtain ⟨entries, distinct⟩ := map
  cases entries with
  | nil => cases isOldest
  | cons entry rest =>
    rw [oldest, List.head?_cons, Option.some.injEq] at isOldest
    subst isOldest
    simp [get]

end JsMap

end IyaSts
