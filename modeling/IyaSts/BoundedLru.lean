import IyaSts.Binary64
import IyaSts.JsMap

namespace IyaSts.BoundedLru

open Binary64

/-!
# A bounded cache in order of use, `bounded_lru.ts`

A `Map` whose insertion order is the order of use, and a second one of counted pins.
What is shown on a status page and told to a registry is left out.
-/

open List

/-- The members that are written. -/
structure Cache (κ α : Type) where
  held : JsMap κ α
  pins : JsMap κ Nat
  hits : Nat
  misses : Nat
  evictions : Nat

/-- A cache as it is built. -/
def Cache.new {κ α : Type} : Cache κ α where
  held := .empty
  pins := .empty
  hits := 0
  misses := 0
  evictions := 0

/-- `limit`, of what `Number(maxEntries())` is; `none` where it throws. -/
def limit : Option Number → Nat
  | some (.finite false magnitude) => if 1 ≤ magnitude then ⌊magnitude⌋₊ else 1
  | _ => 1

/-- The loop of `trim`: the oldest entries that are not pinned, so many of them. -/
def victimsOf {κ α : Type} (isPinned : κ → Bool) :
    Nat → List (κ × α) → List (κ × α)
  | 0, _ => []
  | _, [] => []
  | excess + 1, entry :: rest =>
    if isPinned entry.1 then
      victimsOf isPinned (excess + 1) rest
    else
      entry :: victimsOf isPinned excess rest

section Cache

variable {κ α : Type} [DecidableEq κ]

/-- `isPinned`. -/
def isPinned (cache : Cache κ α) (key : κ) : Bool := decide (0 < (cache.pins.get key).getD 0)

/-- `trim`, and what `onEvict` is told. -/
def trim (max : Nat) (cache : Cache κ α) : Cache κ α × List (κ × α) :=
  if cache.held.size ≤ max then
    (cache, [])
  else
    let victims := victimsOf (isPinned cache) (cache.held.size - max) cache.held.entries
    ({ cache with
        held := victims.foldl (fun held victim => held.delete victim.1) cache.held
        evictions := cache.evictions + victims.length },
      victims)

/-- `get`. -/
def get (cache : Cache κ α) (key : κ) : Option α × Cache κ α :=
  match cache.held.get key with
  | none => (none, { cache with misses := cache.misses + 1 })
  | some value =>
    (some value,
      { cache with
          held := (cache.held.delete key).set key value
          hits := cache.hits + 1 })

/-- `set`. -/
def set (max : Nat) (cache : Cache κ α) (key : κ) (value : α) : Cache κ α × List (κ × α) :=
  trim max { cache with held := (cache.held.delete key).set key value }

/-- `delete`. -/
def delete (cache : Cache κ α) (key : κ) : Bool × Cache κ α :=
  ((cache.held.get key).isSome,
    { cache with pins := cache.pins.delete key, held := cache.held.delete key })

/-- `clear`. -/
def clear (cache : Cache κ α) : Cache κ α :=
  { cache with held := .empty, pins := .empty }

/-- `pin`. -/
def pin (cache : Cache κ α) (key : κ) : Cache κ α :=
  { cache with pins := cache.pins.set key ((cache.pins.get key).getD 0 + 1) }

/-- `unpin`. -/
def unpin (max : Nat) (cache : Cache κ α) (key : κ) : Cache κ α × List (κ × α) :=
  let n := (cache.pins.get key).getD 0
  trim max
    { cache with
        pins := if n ≤ 1 then cache.pins.delete key else cache.pins.set key (n - 1) }

/-- One call.  The cache does not see who pins. -/
inductive Op (κ α : Type) where
  | get (key : κ)
  | set (key : κ) (value : α)
  | delete (key : κ)
  | clear
  | pin (holder : Nat) (key : κ)
  | unpin (holder : Nat) (key : κ)

/-- A call, and what `maxEntries` answers then. -/
structure Call (κ α : Type) where
  maxEntries : Option Number
  op : Op κ α

/-- One call more, and what it evicts. -/
def step (cache : Cache κ α) (call : Call κ α) : Cache κ α × List (κ × α) :=
  match call.op with
  | .get key => ((get cache key).2, [])
  | .set key value => set (limit call.maxEntries) cache key value
  | .delete key => ((delete cache key).2, [])
  | .clear => (clear cache, [])
  | .pin _ key => (pin cache key, [])
  | .unpin _ key => unpin (limit call.maxEntries) cache key

/-- The cache after some calls. -/
def runOf (calls : List (Call κ α)) : Cache κ α :=
  calls.foldl (fun cache call => (step cache call).1) .new

theorem runOf_append (earlier : List (Call κ α)) (call : Call κ α) :
    runOf (earlier ++ [call]) = (step (runOf earlier) call).1 := by
  rw [runOf, foldl_append]
  rfl

/-! ## What is claimed -/

/-- Who holds a key, since it was last deleted, and whether another let it go. -/
structure Ledger where
  holders : List Nat
  isLate : Bool
  deriving DecidableEq

/-- One call more, for one key. -/
def Ledger.step (key : κ) (ledger : Ledger) : Op κ α → Ledger
  | .pin holder other =>
    if other = key then
      { ledger with holders := holder :: ledger.holders }
    else
      ledger
  | .unpin holder other =>
    if other = key then
      { holders := ledger.holders.erase holder
        isLate := ledger.isLate || decide (holder ∉ ledger.holders) }
    else
      ledger
  | .delete other => if other = key then ⟨[], false⟩ else ledger
  | .clear => ⟨[], false⟩
  | _ => ledger

def ledgerOf (key : κ) (calls : List (Call κ α)) : Ledger :=
  calls.foldl (fun ledger call => ledger.step key call.op) ⟨[], false⟩

/-- A call that uses a key. -/
def uses (key : κ) (call : Call κ α) : Bool :=
  match call.op with
  | .get other => decide (other = key)
  | .set other _ => decide (other = key)
  | _ => false

/-- How many calls there were when a key was last used. -/
def lastUse (key : κ) (calls : List (Call κ α)) : Nat :=
  (calls.reverse.dropWhile fun call => !uses key call).length

/-- What a call means to do to a key. -/
def meant (op : Op κ α) (key : κ) (value : Option α) : Option α :=
  match op with
  | .set other new => if other = key then some new else value
  | .delete other => if other = key then none else value
  | .clear => none
  | _ => value

/-- The calls that trim. -/
def Op.trims : Op κ α → Bool
  | .set _ _ => true
  | .unpin _ _ => true
  | _ => false

/-- How many keys are held and pinned. -/
def pinnedHeld (cache : Cache κ α) : Nat :=
  cache.held.entries.countP fun entry => isPinned cache entry.1

/-- What one call does after others. -/
structure LawfulCall (earlier : List (Call κ α)) (call : Call κ α) : Prop where
  guarded :
    ∀ holder key,
      holder ∈ (ledgerOf key (earlier ++ [call])).holders →
        (ledgerOf key (earlier ++ [call])).isLate = false →
          key ∉ (step (runOf earlier) call).2.map Prod.fst
  bounded :
    call.op.trims = true →
      (runOf (earlier ++ [call])).held.size ≤
        max (limit call.maxEntries) (pinnedHeld (runOf (earlier ++ [call])))
  leastUsed :
    ∀ victim ∈ (step (runOf earlier) call).2,
      isPinned (runOf (earlier ++ [call])) victim.1 = false ∧
        ∀ key value,
          (runOf (earlier ++ [call])).held.get key = some value →
            isPinned (runOf (earlier ++ [call])) key = false →
              lastUse victim.1 (earlier ++ [call]) < lastUse key (earlier ++ [call])
  gone :
    ∀ victim ∈ (step (runOf earlier) call).2, (runOf (earlier ++ [call])).held.get victim.1 = none
  kept :
    ∀ key, key ∉ (step (runOf earlier) call).2.map Prod.fst →
      (runOf (earlier ++ [call])).held.get key = meant call.op key ((runOf earlier).held.get key)

end Cache

/-! ## What is evicted -/

section Victims

variable {κ α : Type} {isPinned : κ → Bool}

/-- What `trim` leaves, in its order. -/
def survivorsOf (isPinned : κ → Bool) : Nat → List (κ × α) → List (κ × α)
  | 0, entries => entries
  | _, [] => []
  | excess + 1, entry :: rest =>
    if isPinned entry.1 then
      entry :: survivorsOf isPinned (excess + 1) rest
    else
      survivorsOf isPinned excess rest

-- A pinned entry is passed over.
example : victimsOf (decide <| · = 1) 1 [(1, "a"), (2, "b")] = [(2, "b")] := by
  simp [victimsOf]

example : survivorsOf (decide <| · = 1) 1 [(1, "a"), (2, "b")] = [(1, "a")] := by
  simp [survivorsOf]

theorem victimsOf_sublist (excess : Nat) (entries : List (κ × α)) :
    (victimsOf isPinned excess entries).Sublist entries := by
  induction entries generalizing excess with
  | nil => cases excess <;> exact List.Sublist.refl _
  | cons entry rest ih =>
    cases excess with
    | zero => exact nil_sublist _
    | succ excess =>
      rw [victimsOf]
      split
      · exact (ih _).cons _
      · exact (ih _).cons_cons _

theorem survivorsOf_sublist (excess : Nat) (entries : List (κ × α)) :
    (survivorsOf isPinned excess entries).Sublist entries := by
  induction entries generalizing excess with
  | nil => cases excess <;> exact List.Sublist.refl _
  | cons entry rest ih =>
    cases excess with
    | zero => exact List.Sublist.refl _
    | succ excess =>
      rw [survivorsOf]
      split
      · exact (ih _).cons_cons _
      · exact (ih _).cons _

variable {excess : Nat} {entries : List (κ × α)}

theorem victimsOf_unpinned {victim : κ × α}
    (isVictim : victim ∈ victimsOf isPinned excess entries) :
    isPinned victim.1 = false := by
  induction entries generalizing excess with
  | nil => cases excess <;> cases isVictim
  | cons entry rest ih =>
    cases excess with
    | zero => cases isVictim
    | succ excess =>
      rw [victimsOf] at isVictim
      split at isVictim
      · exact ih isVictim
      · rename_i notPinned
        rcases mem_cons.mp isVictim with rfl | isLater
        · simpa using notPinned
        · exact ih isLater

theorem length_survivorsOf (excess : Nat) (entries : List (κ × α)) :
    (survivorsOf isPinned excess entries).length +
        (victimsOf isPinned excess entries).length =
      entries.length := by
  induction entries generalizing excess with
  | nil => cases excess <;> rfl
  | cons entry rest ih =>
    cases excess with
    | zero => rfl
    | succ excess =>
      rw [victimsOf, survivorsOf]
      split
      · rw [length_cons, length_cons, ← ih (excess + 1)]
        omega
      · rw [length_cons, length_cons, ← ih excess]
        omega

/-- So many are evicted, or only pinned ones are left. -/
theorem enough_or_pinned (excess : Nat) (entries : List (κ × α)) :
    (victimsOf isPinned excess entries).length = excess ∨
      ∀ survivor ∈ survivorsOf isPinned excess entries, isPinned survivor.1 = true := by
  induction entries generalizing excess with
  | nil =>
    cases excess with
    | zero => exact .inl rfl
    | succ excess =>
      right
      intro survivor isSurvivor
      cases isSurvivor
  | cons entry rest ih =>
    cases excess with
    | zero => exact .inl rfl
    | succ excess =>
      rw [victimsOf, survivorsOf]
      split
      · rename_i pinned
        rcases ih (excess + 1) with isEnough | allPinned
        · exact .inl isEnough
        · right
          intro survivor isSurvivor
          rcases mem_cons.mp isSurvivor with rfl | isLater
          · exact pinned
          · exact allPinned survivor isLater
      · rcases ih excess with isEnough | allPinned
        · left
          rw [length_cons, isEnough]
        · exact .inr allPinned

/-- In a list in order, every victim is before every survivor that is not pinned. -/
theorem victims_before_survivors {before : κ × α → κ × α → Prop}
    (inOrder : entries.Pairwise before) {victim survivor : κ × α}
    (isVictim : victim ∈ victimsOf isPinned excess entries)
    (isSurvivor : survivor ∈ survivorsOf isPinned excess entries)
    (notPinned : isPinned survivor.1 = false) :
    before victim survivor := by
  induction entries generalizing excess with
  | nil => cases excess <;> cases isVictim
  | cons entry rest ih =>
    obtain ⟨isFirst, restInOrder⟩ := pairwise_cons.mp inOrder
    cases excess with
    | zero => cases isVictim
    | succ excess =>
      rw [victimsOf] at isVictim
      rw [survivorsOf] at isSurvivor
      split at isVictim
      · rename_i pinned
        rw [if_pos pinned] at isSurvivor
        rcases mem_cons.mp isSurvivor with rfl | isLater
        · rw [notPinned] at pinned
          cases pinned
        · exact ih restInOrder isVictim isLater
      · rename_i unpinned
        rw [if_neg unpinned] at isSurvivor
        rcases mem_cons.mp isVictim with rfl | isLater
        · exact isFirst survivor ((survivorsOf_sublist excess rest).subset isSurvivor)
        · exact ih restInOrder isLater isSurvivor

/-- The survivors are what is left without the keys of the victims. -/
theorem filter_victims [DecidableEq κ] (excess : Nat) (distinct : (entries.map Prod.fst).Nodup) :
    entries.filter
        (fun entry =>
          decide (entry.1 ∉ (victimsOf isPinned excess entries).map Prod.fst)) =
      survivorsOf isPinned excess entries := by
  induction entries generalizing excess with
  | nil => cases excess <;> rfl
  | cons entry rest ih =>
    rw [map_cons, nodup_cons] at distinct
    obtain ⟨notInRest, restDistinct⟩ := distinct
    cases excess with
    | zero =>
      rw [survivorsOf]
      exact filter_eq_self.mpr fun other _ => by simp [victimsOf]
    | succ excess =>
      rw [victimsOf, survivorsOf]
      split
      · have notVictim :
            entry.1 ∉ (victimsOf isPinned (excess + 1) rest).map Prod.fst :=
          fun isVictim =>
            notInRest (((victimsOf_sublist (excess + 1) rest).map Prod.fst).subset isVictim)
        rw [filter_cons_of_pos (by simpa using notVictim),
          ih (excess + 1) restDistinct]
      · rw [filter_cons_of_neg (by simp), ← ih excess restDistinct]
        apply filter_congr
        intro other isOther
        have notEntry : other.1 ≠ entry.1 := fun same =>
          notInRest (same ▸ mem_map_of_mem isOther)
        simp [notEntry]

end Victims

/-! ## What a call does -/

section Cache

variable {κ α : Type} [DecidableEq κ]

variable (held : JsMap κ α) (most : Nat) (calls : List (Call κ α))

theorem entries_foldl_delete (victims : List (κ × α)) :
    (victims.foldl (fun held victim => held.delete victim.1) held).entries =
      held.entries.filter (fun entry => decide (entry.1 ∉ victims.map Prod.fst)) := by
  induction victims generalizing held with
  | nil => simp
  | cons victim rest ih =>
    rw [foldl_cons, ih, JsMap.delete, JsMap.keep, filter_filter]
    apply filter_congr
    intro entry _
    simp only [map_cons, mem_cons, not_or, ← Bool.decide_and, and_comm]

theorem trim_pins (cache : Cache κ α) : (trim most cache).1.pins = cache.pins := by
  unfold trim
  split <;> rfl

theorem isPinned_trim (cache : Cache κ α) :
    isPinned (trim most cache).1 = isPinned cache := by
  funext key
  rw [isPinned, isPinned, trim_pins]

theorem trim_victims (cache : Cache κ α) :
    (trim most cache).2 =
      victimsOf (isPinned cache) (cache.held.size - most) cache.held.entries := by
  unfold trim
  split
  · rename_i fits
    rw [Nat.sub_eq_zero_of_le fits, victimsOf]
  · rfl

theorem trim_survivors (cache : Cache κ α) :
    (trim most cache).1.held.entries =
      survivorsOf (isPinned cache) (cache.held.size - most) cache.held.entries := by
  unfold trim
  split
  · rename_i fits
    rw [Nat.sub_eq_zero_of_le fits, survivorsOf]
  · exact (entries_foldl_delete _ _).trans (filter_victims _ cache.held.distinct)

/-- After a trim the cache is within its bound, or only pinned keys are left. -/
theorem size_trim (cache : Cache κ α) :
    (trim most cache).1.held.size ≤ max most (pinnedHeld (trim most cache).1) := by
  have total :
      (survivorsOf (isPinned cache) (cache.held.size - most)
            cache.held.entries).length +
          (victimsOf (isPinned cache) (cache.held.size - most) cache.held.entries).length =
        cache.held.entries.length :=
    length_survivorsOf _ _
  have left :
      (victimsOf (isPinned cache) (cache.held.size - most)
            cache.held.entries).length = cache.held.size - most ∨
        ∀ survivor ∈ survivorsOf (isPinned cache) (cache.held.size - most)
            cache.held.entries,
          isPinned cache survivor.1 = true :=
    enough_or_pinned _ _
  rw [pinnedHeld, isPinned_trim, JsMap.size, trim_survivors]
  rcases left with isEnough | allPinned
  · apply le_max_of_le_left
    rw [isEnough] at total
    have isSize : cache.held.size = cache.held.entries.length := rfl
    omega
  · exact le_max_of_le_right (countP_eq_length.mpr allPinned).ge

/-- Trimming drops what it evicts and keeps the rest. -/
theorem get_trim (cache : Cache κ α) (key : κ) :
    (trim most cache).1.held.get key =
      if key ∈ (trim most cache).2.map Prod.fst then
        none
      else
        cache.held.get key := by
  have isKept (value : α) :
      (trim most cache).1.held.get key = some value ↔
        cache.held.get key = some value ∧ key ∉ (trim most cache).2.map Prod.fst := by
    rw [JsMap.get_eq_some_iff, JsMap.get_eq_some_iff, trim_survivors, trim_victims,
      ← filter_victims _ cache.held.distinct, mem_filter, decide_eq_true_eq]
  apply Option.ext
  intro value
  rw [isKept]
  split
  · rename_i isVictim
    simp [isVictim]
  · rename_i notVictim
    simp [notVictim]

/-- The cache before it is trimmed. -/
def touched (cache : Cache κ α) : Op κ α → Cache κ α
  | .get key => (get cache key).2
  | .set key value =>
    { cache with held := (cache.held.delete key).set key value }
  | .delete key => (delete cache key).2
  | .clear => clear cache
  | .pin _ key => pin cache key
  | .unpin _ key =>
    { cache with
        pins :=
          if (cache.pins.get key).getD 0 ≤ 1 then
            cache.pins.delete key
          else
            cache.pins.set key ((cache.pins.get key).getD 0 - 1) }

theorem step_eq (cache : Cache κ α) (call : Call κ α) :
    step cache call =
      if call.op.trims = true then
        trim (limit call.maxEntries) (touched cache call.op)
      else
        (touched cache call.op, []) := by
  obtain ⟨maxEntries, op⟩ := call
  cases op <;> rfl

theorem isPinned_step (cache : Cache κ α) (call : Call κ α) :
    isPinned (step cache call).1 = isPinned (touched cache call.op) := by
  rw [step_eq]
  split
  · exact isPinned_trim _ _
  · rfl

theorem get_moved (key : κ) (value : α) (other : κ) :
    ((held.delete key).set key value).get other =
      if key = other then some value else held.get other := by
  rw [JsMap.get_set]
  by_cases same : other = key
  · rw [if_pos same, if_pos same.symm]
  · rw [if_neg same, if_neg (Ne.symm same), JsMap.get_delete_other _ same]

variable {cache : Cache κ α} {key : κ}

theorem held_get_missing (absent : cache.held.get key = none) :
    (get cache key).2.held = cache.held := by
  unfold get
  rw [absent]

theorem held_get_held {value : α} (isHeld : cache.held.get key = some value) :
    (get cache key).2.held = (cache.held.delete key).set key value := by
  unfold get
  rw [isHeld]

/-- What a call means to do is what it does before it is trimmed. -/
theorem get_touched (cache : Cache κ α) (op : Op κ α) (key : κ) :
    (touched cache op).held.get key = meant op key (cache.held.get key) := by
  cases op with
  | get other =>
    unfold touched meant
    cases isHeld : cache.held.get other with
    | none => rw [held_get_missing isHeld]
    | some value =>
      rw [held_get_held isHeld, get_moved]
      split
      · rename_i same
        rw [← same, isHeld]
      · rfl
  | set other value => exact get_moved _ _ _ _
  | delete other =>
    by_cases same : other = key
    · subst same
      simp [touched, delete, meant]
    · simp [touched, delete, meant, same, JsMap.get_delete_other _ (Ne.symm same)]
  | clear => rfl
  | pin holder other => rfl
  | unpin holder other => rfl

/-! ## The order of use -/

section Order

variable {earlier : List (Call κ α)} {call : Call κ α}

theorem lastUse_append (key : κ) :
    lastUse key (earlier ++ [call]) =
      if uses key call then earlier.length + 1 else lastUse key earlier := by
  unfold lastUse
  rw [reverse_append, reverse_singleton, singleton_append, dropWhile_cons]
  cases uses key call with
  | true => simp
  | false => simp

theorem lastUse_le (key : κ) (calls : List (Call κ α)) : lastUse key calls ≤ calls.length := by
  rw [← length_reverse]
  exact (dropWhile_sublist _).length_le

/-- Entries in the order in which their keys were last used. -/
def InOrder (calls : List (Call κ α)) (entries : List (κ × α)) : Prop :=
  entries.Pairwise fun first second => lastUse first.1 calls < lastUse second.1 calls

/-- A call that uses none of the keys leaves their order. -/
theorem inOrder_unused {entries : List (κ × α)} (inOrder : InOrder earlier entries)
    (unused : ∀ entry ∈ entries, uses entry.1 call = false) :
    InOrder (earlier ++ [call]) entries := by
  refine inOrder.imp_of_mem fun {first second} isFirst isSecond isBefore => ?_
  rw [lastUse_append, lastUse_append, unused _ isFirst, unused _ isSecond]
  exact isBefore

/-- A key that is used goes to the end. -/
theorem inOrder_moved {held : JsMap κ α} (inOrder : InOrder earlier held.entries) {key : κ}
    (usesKey : ∀ other, uses other call = decide (key = other)) (value : α) :
    InOrder (earlier ++ [call]) ((held.delete key).set key value).entries := by
  rw [JsMap.entries_set_of_absent (JsMap.get_delete_self held key)]
  have others : ∀ entry ∈ (held.delete key).entries, uses entry.1 call = false := by
    intro entry isEntry
    have notKey : entry.1 ≠ key := by simpa using (mem_filter.mp isEntry).2
    rw [usesKey, decide_eq_false notKey.symm]
  refine pairwise_append.mpr
    ⟨inOrder_unused (inOrder.filter _) others, pairwise_singleton _ _, ?_⟩
  intro entry isEntry last isLast
  rw [mem_singleton] at isLast
  subst isLast
  rw [lastUse_append, lastUse_append, others entry isEntry, usesKey,
    decide_eq_true rfl, if_neg (by decide), if_pos rfl]
  exact Nat.lt_succ_of_le (lastUse_le _ _)

theorem inOrder_touched {cache : Cache κ α} (inOrder : InOrder earlier cache.held.entries) :
    InOrder (earlier ++ [call]) (touched cache call.op).held.entries := by
  obtain ⟨maxEntries, op⟩ := call
  cases op with
  | get key =>
    unfold touched
    cases isHeld : cache.held.get key with
    | none =>
      rw [held_get_missing isHeld]
      refine inOrder_unused inOrder fun entry isEntry => ?_
      refine decide_eq_false fun same => ?_
      have isRead := JsMap.get_eq_some_iff.mpr isEntry
      rw [← same, isHeld] at isRead
      cases isRead
    | some value =>
      rw [held_get_held isHeld]
      exact inOrder_moved inOrder (fun _ => rfl) value
  | set key value => exact inOrder_moved inOrder (fun _ => rfl) value
  | delete key => exact inOrder_unused (inOrder.filter _) fun _ _ => rfl
  | clear => exact List.Pairwise.nil
  | pin holder key => exact inOrder_unused inOrder fun _ _ => rfl
  | unpin holder key => exact inOrder_unused inOrder fun _ _ => rfl

theorem entries_step_sublist (cache : Cache κ α) :
    (step cache call).1.held.entries.Sublist (touched cache call.op).held.entries := by
  rw [step_eq]
  split
  · rw [trim_survivors]
    exact survivorsOf_sublist _ _
  · exact List.Sublist.refl _

end Order

/-- A cache's entries are in the order of use. -/
theorem inOrder_runOf : InOrder calls (runOf calls).held.entries := by
  induction calls using List.reverseRecOn with
  | nil => exact List.Pairwise.nil
  | append_singleton earlier call ih =>
    rw [runOf_append]
    exact (inOrder_touched ih).sublist (entries_step_sublist _)

/-! ## Who holds a key -/

theorem ledgerOf_append (key : κ) (earlier : List (Call κ α)) (call : Call κ α) :
    ledgerOf key (earlier ++ [call]) = (ledgerOf key earlier).step key call.op := by
  rw [ledgerOf, foldl_append]
  rfl

theorem pins_step (cache : Cache κ α) (call : Call κ α) :
    (step cache call).1.pins = (touched cache call.op).pins := by
  rw [step_eq]
  split
  · exact trim_pins _ _
  · rfl

theorem pins_get (cache : Cache κ α) (key : κ) : (get cache key).2.pins = cache.pins := by
  unfold get
  split <;> rfl

/-- A pin for every holder, as long as nobody lets go of what is not theirs. -/
theorem pins_runOf (key : κ) (notLate : (ledgerOf key calls).isLate = false) :
    ((runOf calls).pins.get key).getD 0 = (ledgerOf key calls).holders.length := by
  induction calls using List.reverseRecOn with
  | nil => rfl
  | append_singleton earlier call ih =>
    rw [ledgerOf_append] at notLate ⊢
    rw [runOf_append, pins_step]
    obtain ⟨maxEntries, op⟩ := call
    cases op with
    | get other =>
      refine Eq.trans ?_ (ih notLate)
      exact congrArg (fun pins => (pins.get key).getD 0) (pins_get (runOf earlier) other)
    | set other value => exact ih notLate
    | delete other =>
      by_cases same : other = key
      · subst same
        simp [touched, delete, Ledger.step]
      · rw [Ledger.step, if_neg same] at notLate ⊢
        rw [← ih notLate]
        exact congrArg (Option.getD · 0) (JsMap.get_delete_other _ (Ne.symm same))
    | clear => rfl
    | pin holder other =>
      by_cases same : other = key
      · subst same
        rw [Ledger.step, if_pos rfl] at notLate ⊢
        rw [length_cons, ← ih notLate]
        exact congrArg (Option.getD · 0) (JsMap.get_set_self _ _ _)
      · rw [Ledger.step, if_neg same] at notLate ⊢
        rw [← ih notLate]
        exact congrArg (Option.getD · 0) (JsMap.get_set_other _ (Ne.symm same) _)
    | unpin holder other =>
      by_cases same : other = key
      · subst same
        rw [Ledger.step, if_pos rfl] at notLate ⊢
        simp only [Bool.or_eq_false_iff, decide_eq_false_iff_not, not_not] at notLate
        obtain ⟨notLate, isHolder⟩ := notLate
        have counted := ih notLate
        rw [length_erase_of_mem isHolder, ← counted]
        simp only [touched]
        split
        · rename_i isLast
          simp only [JsMap.get_delete_self, Option.getD_none]
          omega
        · rw [JsMap.get_set_self, Option.getD_some]
      · rw [Ledger.step, if_neg same] at notLate ⊢
        rw [← ih notLate]
        simp only [touched]
        split
        · rw [JsMap.get_delete_other _ (Ne.symm same)]
        · rw [JsMap.get_set_other _ (Ne.symm same)]

/-! ## Every run -/

theorem step_victims (cache : Cache κ α) (call : Call κ α) :
    (step cache call).2 = [] ∨
      (step cache call) = trim (limit call.maxEntries) (touched cache call.op) := by
  rw [step_eq]
  split
  · exact .inr rfl
  · exact .inl rfl

end Cache

/-- A key is deleted and set again between its holder's pin and the pin's end. -/
def deletedMeanwhile : List (Call Nat Unit) :=
  [⟨some (.finite false 1), .pin 1 7⟩, ⟨some (.finite false 1), .set 7 ()⟩,
    ⟨some (.finite false 1), .delete 7⟩, ⟨some (.finite false 1), .set 7 ()⟩]

end IyaSts.BoundedLru
