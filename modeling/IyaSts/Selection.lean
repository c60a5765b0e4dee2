import Mathlib.Data.List.Perm.Basic
import Mathlib.Data.List.Sort

namespace IyaSts.Selection

/-!
# The first of a list in some order

A comparator answers a number, negative where its first argument sorts before
its second.  The first few of a list are sorted, and none that is left out
sorts before one of them.
-/

open List

variable {α β : Type}

/-- A comparator is a weak order. -/
structure Consistent (order : α → α → Int) : Prop where
  swap : ∀ first second, 0 < order first second ↔ order second first < 0
  trans :
    ∀ {first second third}, order first second ≤ 0 → order second third ≤ 0 → order first third ≤ 0

namespace Consistent

variable {order : α → α → Int}
variable (consistent : Consistent order)

variable {first second : α}

include consistent

theorem nonpos_of_nonneg (notBefore : ¬order first second < 0) : order second first ≤ 0 := by
  rw [← consistent.swap, not_lt] at notBefore
  exact notBefore

theorem not_neg_of_nonpos (notAfter : order first second ≤ 0) : ¬order second first < 0 := by
  rw [← consistent.swap]
  exact not_lt.mpr notAfter

theorem self (one : α) : order one one = 0 := by
  have := consistent.swap one one
  omega

theorem total (first second : α) : order first second ≤ 0 ∨ order second first ≤ 0 := by
  rcases lt_or_ge (order first second) 0 with before | notBefore
  · exact .inl before.le
  · exact .inr (consistent.nonpos_of_nonneg (not_lt.mpr notBefore))

theorem congr {other : α → α → Int}
    (same : ∀ first second, other first second = order first second) :
    Consistent other where
  swap first second := by
    rw [same, same]
    exact consistent.swap first second
  trans := by
    intro first second third
    rw [same, same, same]
    exact consistent.trans

/-- A comparator of what elements show is one of the elements. -/
theorem comap (shown : β → α) :
    Consistent fun first second => order (shown first) (shown second) where
  swap first second := consistent.swap (shown first) (shown second)
  trans := consistent.trans

/-- Backwards, a comparator is one too. -/
theorem neg : Consistent fun first second => order first second * -1 where
  swap first second := by
    have := consistent.swap second first
    omega
  trans := by
    intro first second third notAfter notAfter'
    have := @consistent.trans third second first
    have := consistent.swap second first
    have := consistent.swap third second
    have := consistent.swap third first
    omega

/-- A comparator that asks another where it finds no difference. -/
theorem orElse {next : α → α → Int} (consistent' : Consistent next) :
    Consistent fun first second =>
      if order first second ≠ 0 then order first second else next first second where
  swap first second := by
    have := consistent.swap first second
    have := consistent.swap second first
    have := consistent'.swap first second
    split <;> split <;> omega
  trans := by
    intro first second third
    have := @consistent.trans first second third
    have := @consistent.trans second third first
    have := @consistent.trans third first second
    have := consistent.swap first second
    have := consistent.swap second third
    have := consistent.swap third first
    have := consistent.swap second first
    have := consistent.swap third second
    have := consistent.swap first third
    have := @consistent'.trans first second third
    split <;> split <;> split <;> omega

end Consistent

/-- `list.sort(order)`. -/
def sort (order : α → α → Int) (list : List α) : List α :=
  list.mergeSort fun first second => order first second ≤ 0

/-- A list is sorted. -/
def Sorted (order : α → α → Int) (list : List α) : Prop :=
  list.Pairwise fun first second => order first second ≤ 0

theorem sort_perm (order : α → α → Int) (list : List α) : (sort order list).Perm list :=
  mergeSort_perm list _

theorem sorted_sort {order : α → α → Int} (consistent : Consistent order) (list : List α) :
    Sorted order (sort order list) := by
  have isSorted :=
    @List.pairwise_mergeSort _ (fun first second => decide (order first second ≤ 0))
      (by simpa using fun first second third => consistent.trans)
      (by simpa using consistent.total) list
  simpa [Sorted, sort] using isSorted

/-- A comparator that goes by places in a linear order. -/
theorem consistent_of_place {Place : Type} [LinearOrder Place] {order : α → α → Int}
    {place : α → Place}
    (before : ∀ first second, order first second < 0 ↔ place first < place second)
    (after : ∀ first second, 0 < order first second ↔ place second < place first) :
    Consistent order where
  swap first second := by rw [after, before]
  trans := by
    intro first second third notAfter notAfter'
    rw [← not_lt, after, not_lt] at notAfter notAfter' ⊢
    exact notAfter.trans notAfter'

/-- A sorted list is sorted as it is. -/
theorem sort_of_sorted {order : α → α → Int} {list : List α} (isSorted : Sorted order list) :
    sort order list = list := by
  refine mergeSort_of_pairwise (List.Pairwise.imp ?_ isSorted)
  exact fun notAfter => decide_eq_true notAfter

theorem sort_map (order : β → β → Int) (shown : α → β) (list : List α) :
    sort order (list.map shown) =
      (sort (fun first second => order (shown first) (shown second)) list).map shown := by
  rw [sort, sort, map_mergeSort]
  exact fun _ _ _ _ => rfl

/-- The first of some items, sorted. -/
def First (order : α → α → Int) (limit : Nat) (items kept : List α) : Prop :=
  Sorted order kept ∧
    kept.length = min limit items.length ∧
    ∃ dropped, (kept ++ dropped).Perm items ∧ ∀ one ∈ kept, ∀ other ∈ dropped, order one other ≤ 0

/-- The first of a sorted list are as many from its front. -/
theorem first_take {order : α → α → Int}
    {items sorted : List α} (isSorted : Sorted order sorted) (isPerm : sorted.Perm items)
    (limit : Nat) :
    First order limit items (sorted.take limit) := by
  rw [Sorted, ← take_append_drop limit sorted, pairwise_append] at isSorted
  obtain ⟨front, _, apart⟩ := isSorted
  refine ⟨front, by rw [length_take, isPerm.length_eq], sorted.drop limit, ?_, apart⟩
  rw [take_append_drop]
  exact isPerm

variable {limit : Nat}

/-- What stands at the front sorts after no other item. -/
theorem first_head {order : α → α → Int} {items rest : List α} {one other : α}
    (isFirst : First order limit items (one :: rest)) (isOther : other ∈ items) :
    other = one ∨ order one other ≤ 0 := by
  obtain ⟨isSorted, _, dropped, isPerm, apart⟩ := isFirst
  rcases mem_append.mp (isPerm.mem_iff.mpr isOther) with isKept | isDropped
  · rcases mem_cons.mp isKept with rfl | inRest
    · exact .inl rfl
    · exact .inr ((pairwise_cons.mp isSorted).1 other inRest)
  · exact .inr (apart one mem_cons_self other isDropped)

theorem mem_of_first {order : α → α → Int}
    {items kept : List α} {one : α} (isFirst : First order limit items kept) (isOne : one ∈ kept) :
    one ∈ items := by
  obtain ⟨_, _, dropped, isPerm, _⟩ := isFirst
  exact isPerm.subset (mem_append_left _ isOne)

/-- What is first of some items is shown first of what is shown of them. -/
theorem First.map {order : β → β → Int} {shown : α → β} {items kept : List α} {limit : Nat}
    (isFirst : First (fun one other => order (shown one) (shown other)) limit items kept) :
    First order limit (items.map shown) (kept.map shown) := by
  obtain ⟨isSorted, isLength, dropped, isPerm, apart⟩ := isFirst
  refine ⟨pairwise_map.mpr isSorted, by simpa using isLength, dropped.map shown, ?_, ?_⟩
  · rw [← map_append]
    exact isPerm.map shown
  · rw [forall_mem_map]
    exact fun one isOne => forall_mem_map.mpr (apart one isOne)

/-! ## What is shown of the first -/

section

variable {order : α → α → Int}
variable {shownOrder : β → β → Int}
variable {shown : α → β}

/--
Items that show given values are picked from a sorted list, of those that show
one value the foremost.
-/
theorem exists_picked {sorted : List α} (isSorted : Sorted order sorted)
    {values others : List β} (isPerm : (values ++ others).Perm (sorted.map shown)) :
    ∃ picked rest : List α,
      picked.map shown = values ∧ (rest.map shown).Perm others ∧
        (picked ++ rest).Perm sorted ∧
        (picked.Pairwise fun one other => shown one = shown other → order one other ≤ 0) ∧
        ∀ one ∈ picked, ∀ other ∈ rest, shown one = shown other → order one other ≤ 0 := by
  induction values generalizing sorted with
  | nil => exact ⟨[], sorted, rfl, isPerm.symm, List.Perm.refl _, .nil, forall_mem_nil _⟩
  | cons value values ih =>
    have isShown : value ∈ sorted.map shown := isPerm.subset mem_cons_self
    obtain ⟨before, after, isSplit, notBefore⟩ := eq_append_cons_of_mem isShown
    obtain ⟨front, back, rfl, rfl, isBack⟩ := map_eq_append_iff.mp isSplit
    obtain ⟨one, rest, rfl, rfl, rfl⟩ := map_eq_cons_iff.mp isBack
    have fewer : Sorted order (front ++ rest) :=
      isSorted.sublist (List.Sublist.append_left (sublist_cons_self _ _) _)
    have isPerm' : (values ++ others).Perm ((front ++ rest).map shown) := by
      rw [isSplit] at isPerm
      rw [map_append]
      exact (isPerm.trans perm_middle).cons_inv
    obtain ⟨picked, left, isPicked, isLeft, isAll, pairs, apart⟩ := ih fewer isPerm'
    -- `one` is the foremost of what shows as it does.
    have foremost : ∀ other ∈ front ++ rest, shown one = shown other → order one other ≤ 0 := by
      intro other isOther same
      rcases mem_append.mp isOther with inFront | inRest
      · exact absurd (mem_map.mpr ⟨other, inFront, same.symm⟩) notBefore
      · exact (pairwise_cons.mp (pairwise_append.mp isSorted).2.1).1 other inRest
    refine ⟨one :: picked, left, by rw [map_cons, isPicked], isLeft, ?_, ?_, ?_⟩
    · exact (isAll.cons one).trans perm_middle.symm
    · refine pairwise_cons.mpr ⟨fun other isOther => ?_, pairs⟩
      exact foremost other (isAll.subset (mem_append_left _ isOther))
    · refine forall_mem_cons.mpr ⟨fun other isOther => ?_, apart⟩
      exact foremost other (isAll.subset (mem_append_right _ isOther))

/--
The first of what is shown are shown of the first, where an item that sorts
before another shows the same or what sorts before.
-/
theorem first_of_shown (consistent : Consistent order)
    (shownConsistent : Consistent fun one other => shownOrder (shown one) (shown other))
    {items firstShown : List α} {limit : Nat}
    (agrees :
      ∀ one ∈ items, ∀ other ∈ items,
        order one other < 0 → shown one = shown other ∨ shownOrder (shown one) (shown other) < 0)
    (isFirst :
      First (fun one other => shownOrder (shown one) (shown other)) limit items firstShown) :
    ∃ kept, First order limit items kept ∧ kept.map shown = firstShown.map shown := by
  obtain ⟨isSorted, isLength, others, isPerm, apart⟩ := isFirst
  have sortPerm := sort_perm order items
  have isShown : (firstShown.map shown ++ others.map shown).Perm ((sort order items).map shown) := by
    rw [← map_append]
    exact (isPerm.trans sortPerm.symm).map shown
  obtain ⟨picked, rest, isPicked, isRest, isAll, pairs, pickedApart⟩ :=
    exists_picked (sorted_sort consistent items) isShown
  have isItems := isAll.trans sortPerm
  have inItems {one : α} (isOne : one ∈ picked ++ rest) : one ∈ items := isItems.subset isOne
  have follows
      {one other : α}
      (isOne : one ∈ picked ++ rest)
      (isOther : other ∈ picked ++ rest)
      (same : shown one = shown other → order one other ≤ 0)
      (notAfter : shownOrder (shown one) (shown other) ≤ 0) :
      order one other ≤ 0 := by
    by_contra isAfter
    have isBefore : order other one < 0 := (consistent.swap one other).mp (not_le.mp isAfter)
    rcases agrees other (inItems isOther) one (inItems isOne) isBefore with sameShown | shownBefore
    · exact isAfter (same sameShown.symm)
    · exact shownConsistent.not_neg_of_nonpos notAfter shownBefore
  have sortedPicked : picked.Pairwise fun one other => shownOrder (shown one) (shown other) ≤ 0 := by
    rw [← @List.pairwise_map _ _ shown (fun one other => shownOrder one other ≤ 0), isPicked,
      pairwise_map]
    exact isSorted
  refine ⟨picked, ⟨?_, ?_, rest, isItems, ?_⟩, isPicked⟩
  · refine (sortedPicked.and pairs).imp_of_mem ?_
    rintro one other isOne isOther ⟨notAfter, same⟩
    exact follows (mem_append_left _ isOne) (mem_append_left _ isOther) same notAfter
  · rw [← isLength, ← @List.length_map _ _ firstShown shown, ← isPicked, length_map]
  · intro one isOne other isOther
    have isOneShown : shown one ∈ firstShown.map shown := by
      rw [← isPicked]
      exact mem_map_of_mem isOne
    obtain ⟨one', isOne', sameOne⟩ := mem_map.mp isOneShown
    obtain ⟨other', isOther', sameOther⟩ :=
      mem_map.mp (isRest.subset (mem_map_of_mem isOther))
    have notAfter : shownOrder (shown one') (shown other') ≤ 0 := apart one' isOne' other' isOther'
    rw [sameOne, sameOther] at notAfter
    exact
      follows (mem_append_left _ isOne) (mem_append_right _ isOther)
        (pickedApart one isOne other isOther) notAfter

end

end IyaSts.Selection
