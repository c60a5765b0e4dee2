import IyaSts.Selection

namespace IyaSts.BoundedHeap

/-!
# A heap of the first few

An array keeps at most so many of the elements it is offered, those that sort
first.  Its root is the worst of them, so that a better one takes its place.
-/

open List

open Selection (Consistent)

variable {α : Type}
variable (order : α → α → Int)

/-- Whether the element at a place sorts after that at another. -/
def worse (kept : Array α) (place other : Nat) : Bool :=
  match kept[place]?, kept[other]? with
  | some one, some another => 0 < order one another
  | _, _ => false

/-- The place above another. -/
def parent (place : Nat) : Nat := (place - 1) / 2

theorem parent_lt {place : Nat} (notRoot : 0 < place) : parent place < place := by
  rw [parent]
  omega

/-- Moves an element up while it is worse than what is above it. -/
def bubbleUp (kept : Array α) (place : Nat) : Array α :=
  if _isWorse : 0 < place ∧ worse order kept place (parent place) = true then
    bubbleUp (kept.swapIfInBounds place (parent place)) (parent place)
  else
    kept
termination_by place
decreasing_by exact parent_lt _isWorse.1

/-- The worst of a place and the two below it. -/
def worst (kept : Array α) (place : Nat) : Nat :=
  let left := place * 2 + 1
  let right := left + 1
  let worst := if worse order kept left place then left else place
  if worse order kept right worst then right else worst

variable {order}

theorem lt_size_of_worse {kept : Array α} {place other : Nat}
    (isWorse : worse order kept place other = true) :
    place < kept.size ∧ other < kept.size := by
  rw [worse] at isWorse
  split at isWorse
  · rename_i one another isOne isAnother
    exact ⟨(Array.getElem?_eq_some_iff.mp isOne).1, (Array.getElem?_eq_some_iff.mp isAnother).1⟩
  · cases isWorse

theorem worst_cases (kept : Array α) (place : Nat) :
    worst order kept place = place ∨
      place < worst order kept place ∧ worst order kept place < kept.size := by
  rw [worst]
  have later
      {start : Nat}
      (isLater : place < place * 2 + 1 + 1)
      (fallback : start = place ∨ place < start ∧ start < kept.size) :
      (if worse order kept (place * 2 + 1 + 1) start = true then place * 2 + 1 + 1 else start) =
          place ∨
        place <
            (if worse order kept (place * 2 + 1 + 1) start = true then place * 2 + 1 + 1
              else start) ∧
          (if worse order kept (place * 2 + 1 + 1) start = true then place * 2 + 1 + 1
            else start) < kept.size := by
    split
    · rename_i isWorse
      exact .inr ⟨isLater, (lt_size_of_worse isWorse).1⟩
    · exact fallback
  by_cases isLeft : worse order kept (place * 2 + 1) place = true
  · rw [if_pos isLeft]
    exact later (by omega) (.inr ⟨by omega, (lt_size_of_worse isLeft).1⟩)
  · rw [if_neg isLeft]
    exact later (by omega) (.inl rfl)

variable (order)

/-- Moves an element down while one of the two below it is worse. -/
def bubbleDown (kept : Array α) (place : Nat) : Array α :=
  if _isWorst : worst order kept place = place then
    kept
  else
    bubbleDown (kept.swapIfInBounds place (worst order kept place)) (worst order kept place)
termination_by kept.size - place
decreasing_by
  rcases @worst_cases α order kept place with isPlace | ⟨isLater, isInside⟩
  · exact absurd isPlace _isWorst
  · rw [Array.size_swapIfInBounds]
    omega

section

variable {order}
variable {kept : Array α}
variable {place : Nat}

theorem bubbleUp_of_worse (isWorse : 0 < place ∧ worse order kept place (parent place) = true) :
    bubbleUp order kept place =
      bubbleUp order (kept.swapIfInBounds place (parent place)) (parent place) := by
  conv_lhs => rw [bubbleUp]
  exact dif_pos isWorse

theorem bubbleUp_of_not_worse
    (notWorse : ¬(0 < place ∧ worse order kept place (parent place) = true)) :
    bubbleUp order kept place = kept := by
  rw [bubbleUp]
  exact dif_neg notWorse

theorem bubbleDown_of_worst (isWorst : worst order kept place = place) :
    bubbleDown order kept place = kept := by
  rw [bubbleDown]
  exact dif_pos isWorst

theorem bubbleDown_of_not_worst (notWorst : ¬worst order kept place = place) :
    bubbleDown order kept place =
      bubbleDown order (kept.swapIfInBounds place (worst order kept place))
        (worst order kept place) := by
  conv_lhs => rw [bubbleDown]
  exact dif_neg notWorst

end

/-- Offers an element to the array. -/
def offer (limit : Nat) (kept : Array α) (one : α) : Array α :=
  if kept.size < limit then
    bubbleUp order (kept.push one) kept.size
  else
    match kept[0]? with
    | some root => if order one root < 0 then bubbleDown order (kept.setIfInBounds 0 one) 0 else kept
    | none => kept

/-! ## Worse places -/

variable {order}

/-- A swap exchanges two places. -/
def exchanged (place other asked : Nat) : Nat :=
  if asked = place then other else if asked = other then place else asked

theorem getElem?_swapIfInBounds {kept : Array α} {place other : Nat} (inside : place < kept.size)
    (inside' : other < kept.size) (asked : Nat) :
    (kept.swapIfInBounds place other)[asked]? = kept[exchanged place other asked]? := by
  rw [Array.swapIfInBounds_def, dif_pos inside, dif_pos inside', Array.getElem?_swap, exchanged]
  grind

theorem worse_swapIfInBounds {kept : Array α} {place other : Nat} (inside : place < kept.size)
    (inside' : other < kept.size) (one another : Nat) :
    worse order (kept.swapIfInBounds place other) one another =
      worse order kept (exchanged place other one) (exchanged place other another) := by
  rw [worse, worse, getElem?_swapIfInBounds inside inside', getElem?_swapIfInBounds inside inside']

theorem not_worse_of_worse (consistent : Consistent order) {kept : Array α} {place other : Nat}
    (isWorse : worse order kept place other = true) :
    worse order kept other place = false := by
  rw [worse] at isWorse ⊢
  split at isWorse
  · rename_i one another isOne isAnother
    rw [isOne, isAnother]
    have isAfter := (consistent.swap one another).mp (of_decide_eq_true isWorse)
    exact decide_eq_false (not_lt.mpr isAfter.le)
  · cases isWorse

theorem not_worse_trans (consistent : Consistent order) {kept : Array α} {place middle other : Nat}
    (inside : middle < kept.size) (notWorse : worse order kept place middle = false)
    (notWorse' : worse order kept middle other = false) :
    worse order kept place other = false := by
  rw [worse] at notWorse notWorse' ⊢
  rw [Array.getElem?_eq_getElem inside] at notWorse notWorse'
  cases isOne : kept[place]? with
  | none => rfl
  | some one =>
    cases isOther : kept[other]? with
    | none => rfl
    | some another =>
      rw [isOne] at notWorse
      rw [isOther] at notWorse'
      have notAfter := not_lt.mp (of_decide_eq_false notWorse)
      have notAfter' := not_lt.mp (of_decide_eq_false notWorse')
      exact decide_eq_false (not_lt.mpr (consistent.trans notAfter notAfter'))

theorem not_worse_self (consistent : Consistent order) (kept : Array α) (place : Nat) :
    worse order kept place place = false := by
  cases isWorse : worse order kept place place with
  | false => rfl
  | true => exact isWorse.symm.trans (not_worse_of_worse consistent isWorse)

theorem not_worse_of_not_lt {kept : Array α} {place other : Nat}
    (outside : ¬(place < kept.size ∧ other < kept.size)) :
    worse order kept place other = false := by
  cases isWorse : worse order kept place other with
  | false => rfl
  | true => exact absurd (lt_size_of_worse isWorse) outside

/-! ## The heap's order -/

/-- No element is worse than that above it. -/
def IsHeap (order : α → α → Int) (kept : Array α) : Prop :=
  ∀ place, 0 < place → worse order kept place (parent place) = false

/-- A heap, but for an element that may be worse than that above it. -/
def HeapBut (order : α → α → Int) (kept : Array α) (hole : Nat) : Prop :=
  (∀ place, 0 < place → place ≠ hole → worse order kept place (parent place) = false) ∧
    ∀ place, 0 < place → parent place = hole → 0 < hole →
      worse order kept place (parent hole) = false

/-- A heap, but for an element that may be better than those under it. -/
def HeapUnder (order : α → α → Int) (kept : Array α) (hole : Nat) : Prop :=
  (∀ place, 0 < place → parent place ≠ hole → worse order kept place (parent place) = false) ∧
    ∀ place, 0 < place → parent place = hole → 0 < hole →
      worse order kept place (parent hole) = false

theorem parent_eq_iff {place other : Nat} (notRoot : 0 < place) :
    parent place = other ↔ place = other * 2 + 1 ∨ place = other * 2 + 1 + 1 := by
  rw [parent]
  omega

variable {hole limit : Nat} {items : List α}

/-- Moving a worse element up moves the hole up. -/
theorem heapBut_swap (consistent : Consistent order) {kept : Array α}
    (isHeap : HeapBut order kept hole) (notRoot : 0 < hole)
    (isWorse : worse order kept hole (parent hole) = true) :
    HeapBut order (kept.swapIfInBounds hole (parent hole)) (parent hole) := by
  obtain ⟨inHole, inParent⟩ := lt_size_of_worse isWorse
  have notWorse := not_worse_of_worse consistent isWorse
  have isLess := parent_lt notRoot
  obtain ⟨elsewhere, around⟩ := isHeap
  refine ⟨fun place positive notParent => ?_, fun place positive isChild parentPositive => ?_⟩
  · rw [worse_swapIfInBounds inHole inParent]
    by_cases isHole : place = hole
    · subst isHole
      rw [exchanged, exchanged, if_pos rfl, if_neg isLess.ne, if_pos rfl]
      exact notWorse
    · have isSame : exchanged hole (parent hole) place = place := by
        rw [exchanged, if_neg isHole, if_neg notParent]
      rw [isSame]
      by_cases underHole : parent place = hole
      · rw [underHole, exchanged, if_pos rfl]
        exact around place positive underHole notRoot
      · by_cases underParent : parent place = parent hole
        · rw [underParent, exchanged, if_neg isLess.ne, if_pos rfl]
          have notWorseParent := elsewhere place positive isHole
          rw [underParent] at notWorseParent
          exact not_worse_trans consistent inParent notWorseParent notWorse
        · rw [exchanged, if_neg underHole, if_neg underParent]
          exact elsewhere place positive isHole
  · rw [worse_swapIfInBounds inHole inParent]
    have isLess' := parent_lt parentPositive
    have isAbove : exchanged hole (parent hole) (parent (parent hole)) = parent (parent hole) := by
      rw [exchanged, if_neg (by omega), if_neg (by omega)]
    rw [isAbove]
    have notWorseParent := elsewhere (parent hole) parentPositive isLess.ne
    by_cases isHole : place = hole
    · subst isHole
      rw [exchanged, if_pos rfl]
      exact notWorseParent
    · have notParent : place ≠ parent hole := by
        rintro rfl
        omega
      rw [exchanged, if_neg isHole, if_neg notParent]
      have notWorsePlace := elsewhere place positive isHole
      rw [isChild] at notWorsePlace
      exact not_worse_trans consistent inParent notWorsePlace notWorseParent

theorem isHeap_bubbleUp (consistent : Consistent order) {kept : Array α}
    (isHeap : HeapBut order kept hole) :
    IsHeap order (bubbleUp order kept hole) := by
  induction kept, hole using bubbleUp.induct order with
  | case1 kept hole isWorse ih =>
    rw [bubbleUp_of_worse isWorse]
    exact ih (heapBut_swap consistent isHeap isWorse.1 isWorse.2)
  | case2 kept hole notWorse =>
    rw [bubbleUp_of_not_worse notWorse]
    intro place positive
    by_cases isHole : place = hole
    · subst isHole
      rw [not_and, Bool.not_eq_true] at notWorse
      exact notWorse positive
    · exact isHeap.1 place positive isHole

/-- What is worst among three places is no better than any of them. -/
theorem worst_spec (consistent : Consistent order) (kept : Array α) (place : Nat) :
    worse order kept (place * 2 + 1) (worst order kept place) = false ∧
      worse order kept (place * 2 + 1 + 1) (worst order kept place) = false ∧
      worse order kept place (worst order kept place) = false ∧
      (worst order kept place = place ∨
        parent (worst order kept place) = place ∧
          worse order kept (worst order kept place) place = true) := by
  have isParent : parent (place * 2 + 1) = place ∧ parent (place * 2 + 1 + 1) = place := by
    rw [parent, parent]
    omega
  have notWorse (one : Nat) := not_worse_self consistent kept one
  rw [worst]
  by_cases isLeft : worse order kept (place * 2 + 1) place = true
  · have notLeft := not_worse_of_worse consistent isLeft
    rw [if_pos isLeft]
    by_cases isRight : worse order kept (place * 2 + 1 + 1) (place * 2 + 1) = true
    · have notRight := not_worse_of_worse consistent isRight
      rw [if_pos isRight]
      have inLeft := (lt_size_of_worse isLeft).1
      refine ⟨notRight, notWorse _, not_worse_trans consistent inLeft notLeft notRight, .inr ⟨isParent.2, ?_⟩⟩
      cases isWorse : worse order kept (place * 2 + 1 + 1) place with
      | true => rfl
      | false =>
        have contrary := not_worse_trans consistent (lt_size_of_worse isLeft).2 isWorse notLeft
        exact contrary.symm.trans isRight
    · rw [if_neg isRight]
      exact ⟨notWorse _, Bool.not_eq_true _ ▸ isRight, notLeft, .inr ⟨isParent.1, isLeft⟩⟩
  · rw [if_neg isLeft]
    rw [Bool.not_eq_true] at isLeft
    by_cases isRight : worse order kept (place * 2 + 1 + 1) place = true
    · have notRight := not_worse_of_worse consistent isRight
      rw [if_pos isRight]
      have inPlace := (lt_size_of_worse isRight).2
      exact
        ⟨not_worse_trans consistent inPlace isLeft notRight, notWorse _, notRight,
          .inr ⟨isParent.2, isRight⟩⟩
    · rw [if_neg isRight]
      rw [Bool.not_eq_true] at isRight
      exact ⟨isLeft, isRight, notWorse _, .inl rfl⟩

/-- Moving a better element down moves the hole down. -/
theorem heapUnder_swap (consistent : Consistent order) {kept : Array α}
    (isHeap : HeapUnder order kept hole) (notWorst : worst order kept hole ≠ hole) :
    HeapUnder order (kept.swapIfInBounds hole (worst order kept hole)) (worst order kept hole) := by
  obtain ⟨notLeft, notRight, notHole, isPlace⟩ := worst_spec consistent kept hole
  obtain ⟨isChild, isWorse⟩ := isPlace.resolve_left notWorst
  generalize worst order kept hole = child at *
  obtain ⟨inChild, inHole⟩ := lt_size_of_worse isWorse
  have childPositive : 0 < child := by
    rcases Nat.eq_zero_or_pos child with rfl | positive
    · exact absurd isChild notWorst
    · exact positive
  have isLess : hole < child := by
    have := parent_lt childPositive
    omega
  obtain ⟨elsewhere, around⟩ := isHeap
  refine ⟨fun place positive notUnder => ?_, fun place positive isUnder _ => ?_⟩
  · rw [worse_swapIfInBounds inHole inChild]
    by_cases isHole : place = hole
    · subst isHole
      have isAbove := parent_lt positive
      rw [exchanged, exchanged, if_pos rfl, if_neg (by omega), if_neg (by omega)]
      exact around child childPositive isChild positive
    · by_cases isSame : place = child
      · subst isSame
        rw [isChild, exchanged, exchanged, if_neg isHole, if_pos rfl, if_pos rfl]
        exact notHole
      · have isPlace : exchanged hole child place = place := by
          rw [exchanged, if_neg isHole, if_neg isSame]
        rw [isPlace]
        by_cases underHole : parent place = hole
        · rw [underHole, exchanged, if_pos rfl]
          rcases (parent_eq_iff positive).mp underHole with rfl | rfl
          · exact notLeft
          · exact notRight
        · rw [exchanged, if_neg underHole, if_neg notUnder]
          exact elsewhere place positive underHole
  · rw [worse_swapIfInBounds inHole inChild, isChild]
    have isAbove := parent_lt positive
    have isPlace : exchanged hole child place = place := by
      rw [exchanged, if_neg (by omega), if_neg (by omega)]
    rw [isPlace, exchanged, if_pos rfl, ← isUnder]
    exact elsewhere place positive (by omega)

theorem isHeap_bubbleDown (consistent : Consistent order) {kept : Array α}
    (isHeap : HeapUnder order kept hole) :
    IsHeap order (bubbleDown order kept hole) := by
  induction kept, hole using bubbleDown.induct order with
  | case1 kept hole isWorst =>
    rw [bubbleDown_of_worst isWorst]
    obtain ⟨notLeft, notRight, _⟩ := worst_spec consistent kept hole
    rw [isWorst] at notLeft notRight
    intro place positive
    by_cases underHole : parent place = hole
    · rw [underHole]
      rcases (parent_eq_iff positive).mp underHole with rfl | rfl
      · exact notLeft
      · exact notRight
    · exact isHeap.1 place positive underHole
  | case2 kept hole notWorst ih =>
    rw [bubbleDown_of_not_worst notWorst]
    exact ih (heapUnder_swap consistent isHeap notWorst)

/-- No element of a heap is worse than its root. -/
theorem not_worse_root (consistent : Consistent order) {kept : Array α}
    (isHeap : IsHeap order kept) (place : Nat) :
    worse order kept place 0 = false := by
  induction place using Nat.strongRecOn with
  | ind place ih =>
    rcases Nat.eq_zero_or_pos place with rfl | positive
    · exact not_worse_self consistent kept 0
    · by_cases inside : place < kept.size
      · have isLess := parent_lt positive
        exact
          not_worse_trans consistent (isLess.trans inside) (isHeap place positive)
            (ih _ isLess)
      · exact not_worse_of_not_lt fun both => inside both.1

/-! ## The elements -/

theorem swapIfInBounds_perm (kept : Array α) (place other : Nat) :
    (kept.swapIfInBounds place other).toList.Perm kept.toList := by
  rw [Array.swapIfInBounds_def]
  split
  · split
    · exact Array.perm_iff_toList_perm.mp (Array.swap_perm _ _)
    · exact List.Perm.refl _
  · exact List.Perm.refl _

theorem bubbleUp_perm (kept : Array α) (place : Nat) :
    (bubbleUp order kept place).toList.Perm kept.toList := by
  induction kept, place using bubbleUp.induct order with
  | case1 kept place isWorse ih =>
    rw [bubbleUp_of_worse isWorse]
    exact ih.trans (swapIfInBounds_perm _ _ _)
  | case2 kept place notWorse => rw [bubbleUp_of_not_worse notWorse]

theorem bubbleDown_perm (kept : Array α) (place : Nat) :
    (bubbleDown order kept place).toList.Perm kept.toList := by
  induction kept, place using bubbleDown.induct order with
  | case1 kept place isWorst => rw [bubbleDown_of_worst isWorst]
  | case2 kept place notWorst ih =>
    rw [bubbleDown_of_not_worst notWorst]
    exact ih.trans (swapIfInBounds_perm _ _ _)

/-! ## Offers -/

/-- An array keeps the first of the items it was offered. -/
structure Keeps (order : α → α → Int) (limit : Nat) (items : List α) (kept : Array α) : Prop where
  isHeap : IsHeap order kept
  size : kept.size = min limit items.length
  others :
    ∃ dropped,
      (kept.toList ++ dropped).Perm items ∧
        ∀ one ∈ kept.toList, ∀ other ∈ dropped, order one other ≤ 0

theorem keeps_empty (order : α → α → Int) (limit : Nat) : Keeps order limit [] #[] where
  isHeap place _ := not_worse_of_not_lt (by simp)
  size := by simp
  others := ⟨[], List.Perm.refl _, forall_mem_nil _⟩

theorem worse_congr {kept kept' : Array α} {place other : Nat} (same : kept[place]? = kept'[place]?)
    (same' : kept[other]? = kept'[other]?) :
    worse order kept place other = worse order kept' place other := by
  rw [worse, worse, same, same']

theorem heapBut_push {kept : Array α} (isHeap : IsHeap order kept) (one : α) :
    HeapBut order (kept.push one) kept.size := by
  have inside {place : Nat} (isInside : place < kept.size) : (kept.push one)[place]? = kept[place]? := by
    rw [Array.getElem?_push, if_neg isInside.ne]
  refine ⟨fun place positive notLast => ?_, fun place positive isUnder _ => ?_⟩
  · by_cases isInside : place < kept.size
    · rw [worse_congr (inside isInside) (inside ((parent_lt positive).trans isInside))]
      exact isHeap place positive
    · refine not_worse_of_not_lt fun both => ?_
      rw [Array.size_push] at both
      omega
  · have isLess := parent_lt positive
    refine not_worse_of_not_lt fun both => ?_
    rw [Array.size_push] at both
    omega

theorem heapUnder_set {kept : Array α} (isHeap : IsHeap order kept) (one : α) :
    HeapUnder order (kept.setIfInBounds 0 one) 0 := by
  have elsewhere {place : Nat} (notRoot : 0 ≠ place) :
      (kept.setIfInBounds 0 one)[place]? = kept[place]? := by
    rw [Array.getElem?_setIfInBounds_ne notRoot]
  refine ⟨fun place positive notUnder => ?_, fun _ _ _ positive => absurd positive (lt_irrefl 0)⟩
  rw [worse_congr (elsewhere positive.ne) (elsewhere (Ne.symm notUnder))]
  exact isHeap place positive

/-- No element of a heap sorts after its root. -/
theorem order_root (consistent : Consistent order) {kept : Array α}
    (isHeap : IsHeap order kept) {root one : α} (isRoot : kept[0]? = some root)
    (isOne : one ∈ kept.toList) :
    order one root ≤ 0 := by
  obtain ⟨place, isPlace⟩ := mem_iff_getElem?.mp isOne
  rw [Array.getElem?_toList] at isPlace
  have notWorse := not_worse_root consistent isHeap place
  rw [worse, isPlace, isRoot] at notWorse
  exact not_lt.mp (of_decide_eq_false notWorse)

/-- An offer keeps the first of the items. -/
theorem keeps_offer (consistent : Consistent order) {kept : Array α}
    (keeps : Keeps order limit items kept) (some : 0 < limit) (one : α) :
    Keeps order limit (items ++ [one]) (offer order limit kept one) := by
  obtain ⟨isHeap, isSize, dropped, isPerm, apart⟩ := keeps
  have isCount := isPerm.length_eq
  rw [length_append, Array.length_toList] at isCount
  rw [offer]
  by_cases room : kept.size < limit
  · rw [if_pos room]
    have noneDropped : dropped = [] := by
      rw [← length_eq_zero_iff]
      omega
    subst noneDropped
    have isMoved := @bubbleUp_perm α order (kept.push one) kept.size
    rw [Array.toList_push] at isMoved
    refine ⟨isHeap_bubbleUp consistent (heapBut_push isHeap one), ?_, [], ?_, ?_⟩
    · rw [← Array.length_toList, isMoved.length_eq, length_append, length_append,
        length_singleton, Array.length_toList]
      omega
    · rw [append_nil] at isPerm ⊢
      exact isMoved.trans (isPerm.append_right [one])
    · exact fun _ _ _ isNone => absurd isNone not_mem_nil
  · rw [if_neg room]
    obtain ⟨root, isRoot⟩ : ∃ root, kept[0]? = Option.some root :=
      ⟨kept[0], Array.getElem?_eq_getElem (by omega)⟩
    obtain ⟨rest, isList⟩ : ∃ rest, kept.toList = root :: rest := by
      rw [← Array.getElem?_toList] at isRoot
      cases isList : kept.toList with
      | nil =>
        rw [isList] at isRoot
        cases isRoot
      | cons first rest =>
        rw [isList] at isRoot
        exact ⟨rest, by rw [Option.some.inj isRoot]⟩
    have rootLast {held : α} (isHeld : held ∈ kept.toList) : order held root ≤ 0 :=
      order_root consistent isHeap isRoot isHeld
    rw [isRoot]
    dsimp only
    by_cases isBetter : order one root < 0
    · rw [if_pos isBetter]
      have isMoved := @bubbleDown_perm α order (kept.setIfInBounds 0 one) 0
      rw [Array.toList_setIfInBounds, isList, set_cons_zero] at isMoved
      refine ⟨isHeap_bubbleDown consistent (heapUnder_set isHeap one), ?_, root :: dropped, ?_, ?_⟩
      · have isLength := isMoved.length_eq
        have isLength' := congrArg List.length isList
        rw [length_cons, Array.length_toList] at isLength isLength'
        rw [length_append, length_singleton]
        omega
      · rw [isList] at isPerm
        calc
          ((bubbleDown order (kept.setIfInBounds 0 one) 0).toList ++ root :: dropped).Perm
              (one :: rest ++ root :: dropped) := isMoved.append_right _
          (one :: rest ++ root :: dropped).Perm (one :: (root :: rest ++ dropped)) :=
            List.Perm.cons one perm_middle
          (one :: (root :: rest ++ dropped)).Perm (one :: items) := isPerm.cons one
          (one :: items).Perm (items ++ [one]) := (perm_append_singleton one items).symm
      · intro held isHeld other isOther
        have beforeRoot : order held root ≤ 0 := by
          rcases mem_cons.mp (isMoved.subset isHeld) with rfl | inRest
          · exact isBetter.le
          · exact rootLast (by rw [isList]; exact mem_cons_of_mem _ inRest)
        rcases mem_cons.mp isOther with rfl | isDropped
        · exact beforeRoot
        · exact
            consistent.trans beforeRoot
              (apart root (by rw [isList]; exact mem_cons_self) other isDropped)
    · rw [if_neg isBetter]
      refine ⟨isHeap, ?_, one :: dropped, ?_, ?_⟩
      · rw [length_append, length_singleton]
        omega
      · exact
          (perm_middle.trans (isPerm.cons one)).trans
            (perm_append_singleton one items).symm
      · intro held isHeld other isOther
        rcases mem_cons.mp isOther with rfl | isDropped
        · exact consistent.trans (rootLast isHeld) (consistent.nonpos_of_nonneg isBetter)
        · exact apart held isHeld other isDropped

/-- Every further offer keeps the first of the items. -/
theorem keeps_foldl (consistent : Consistent order) (some : 0 < limit)
    {kept : Array α} (keeps : Keeps order limit items kept) (more : List α) :
    Keeps order limit (items ++ more) (more.foldl (offer order limit) kept) := by
  induction more generalizing items kept with
  | nil =>
    rw [append_nil]
    exact keeps
  | cons one rest ih =>
    rw [append_cons]
    exact ih (keeps_offer consistent keeps some one)

/-- Sorted, what is kept are the first of the items. -/
theorem first_sort_of_keeps (consistent : Consistent order) {kept : Array α}
    (keeps : Keeps order limit items kept) :
    Selection.First order limit items (Selection.sort order kept.toList) := by
  obtain ⟨_, isSize, dropped, isPerm, apart⟩ := keeps
  have isSort := Selection.sort_perm order kept.toList
  refine ⟨Selection.sorted_sort consistent _, ?_, dropped, ?_, ?_⟩
  · rw [isSort.length_eq, Array.length_toList, isSize]
  · exact (isSort.append_right dropped).trans isPerm
  · exact fun one isOne => apart one (isSort.subset isOne)

/-! ## Two elements -/

theorem offer_empty (some : 0 < limit) (one : α) : offer order limit #[] one = #[one] := by
  have isEmpty : (#[] : Array α).size = 0 := rfl
  rw [offer, isEmpty, if_pos some, bubbleUp_of_not_worse fun both => (lt_irrefl 0 both.1).elim]
  rfl

/-- An element that is no worse and no better than the only one comes after it. -/
theorem offer_singleton {one other : α} (same : order other one = 0) :
    (offer order limit #[one] other).toList = if 1 < limit then [one, other] else [one] := by
  have isSingle : (#[one] : Array α).size = 1 := rfl
  have isRoot : (#[one] : Array α)[0]? = Option.some one := rfl
  rw [offer, isSingle, isRoot]
  dsimp only
  rw [same, if_neg (lt_irrefl 0)]
  split
  · have notWorse : ¬worse order (#[one].push other) 1 (parent 1) = true := by
      have isWorse : worse order (#[one].push other) 1 (parent 1) = decide (0 < order other one) :=
        rfl
      rw [isWorse, same]
      decide
    rw [bubbleUp_of_not_worse fun both => notWorse both.2]
    rfl
  · rfl

/-! ## What is shown of the elements -/

section

variable {β : Type}
variable (shown : β → α)

theorem worse_map (kept : Array β) (place other : Nat) :
    worse order (kept.map shown) place other =
      worse (fun one another => order (shown one) (shown another)) kept place other := by
  rw [worse, worse, Array.getElem?_map, Array.getElem?_map]
  cases kept[place]? <;> cases kept[other]? <;> rfl

theorem worst_map (kept : Array β) (place : Nat) :
    worst order (kept.map shown) place =
      worst (fun one another => order (shown one) (shown another)) kept place := by
  simp only [worst, worse_map]

theorem swapIfInBounds_map (kept : Array β) (place other : Nat) :
    (kept.map shown).swapIfInBounds place other = (kept.swapIfInBounds place other).map shown := by
  rw [Array.swapIfInBounds_def, Array.swapIfInBounds_def]
  by_cases inside : place < kept.size
  · by_cases inside' : other < kept.size
    · rw [dif_pos (by simpa using inside), dif_pos (by simpa using inside'), dif_pos inside,
        dif_pos inside', Array.swap_def, Array.swap_def]
      simp only [Array.map_set, Array.getElem_map]
    · rw [dif_pos (by simpa using inside), dif_neg (by simpa using inside'), dif_pos inside,
        dif_neg inside']
  · rw [dif_neg (by simpa using inside), dif_neg inside]

theorem bubbleUp_map (kept : Array β) (place : Nat) :
    bubbleUp order (kept.map shown) place =
      (bubbleUp (fun one another => order (shown one) (shown another)) kept place).map shown := by
  induction kept, place using
      bubbleUp.induct fun one another => order (shown one) (shown another) with
  | case1 kept place isWorse ih =>
    have isWorse' := isWorse
    rw [← worse_map] at isWorse'
    rw [bubbleUp_of_worse isWorse, bubbleUp_of_worse isWorse', swapIfInBounds_map]
    exact ih
  | case2 kept place notWorse =>
    have notWorse' := notWorse
    rw [← worse_map] at notWorse'
    rw [bubbleUp_of_not_worse notWorse, bubbleUp_of_not_worse notWorse']

theorem bubbleDown_map (kept : Array β) (place : Nat) :
    bubbleDown order (kept.map shown) place =
      (bubbleDown (fun one another => order (shown one) (shown another)) kept place).map shown := by
  induction kept, place using
      bubbleDown.induct fun one another => order (shown one) (shown another) with
  | case1 kept place isWorst =>
    have isWorst' := isWorst
    rw [← worst_map] at isWorst'
    rw [bubbleDown_of_worst isWorst, bubbleDown_of_worst isWorst']
  | case2 kept place notWorst ih =>
    have notWorst' := notWorst
    rw [← worst_map] at notWorst'
    rw [bubbleDown_of_not_worst notWorst, bubbleDown_of_not_worst notWorst', worst_map,
      swapIfInBounds_map]
    exact ih

/-- Offering what is shown of elements keeps what is shown of those kept. -/
theorem offer_map (limit : Nat) (kept : Array β) (one : β) :
    offer order limit (kept.map shown) (shown one) =
      (offer (fun one another => order (shown one) (shown another)) limit kept one).map shown := by
  rw [offer, offer, Array.size_map]
  split
  · rw [← Array.map_push, bubbleUp_map]
  · rw [Array.getElem?_map]
    cases kept[0]? with
    | none => rfl
    | some root =>
      dsimp only [Option.map_some]
      split
      · rw [← bubbleDown_map, Array.map_setIfInBounds]
      · rfl

theorem foldl_offer_map (limit : Nat) (kept : Array β) (items : List β) :
    (items.map shown).foldl (offer order limit) (kept.map shown) =
      (items.foldl (offer (fun one another => order (shown one) (shown another)) limit)
        kept).map shown := by
  induction items generalizing kept with
  | nil => rfl
  | cons one rest ih => rw [map_cons, foldl_cons, foldl_cons, offer_map, ih]

end

end IyaSts.BoundedHeap
