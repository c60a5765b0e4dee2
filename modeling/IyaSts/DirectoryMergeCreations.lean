import IyaSts.DirectoryMergeKeeps

namespace IyaSts.DirectoryMerge

/-!
# Two nodes creating one entry

Neither node knew of the other's entry.  The first committed stays, and what the other
holds besides is added to it, credentials included.
-/

open JsObject

/-! ## One attribute of two creations -/

/-- The names that two creations do not merge. -/
abbrev IsStamp (name : String) : Prop :=
  name = "entryuuid" ∨ name = "createtimestamp" ∨ name = "modifytimestamp"

/-- An attribute of two creations that is merged by value. -/
abbrev ByValue (name : String) (mine theirs : Slot) : Prop :=
  name ∈ multi ∨ 1 < countOf mine ∨ 1 < countOf theirs

/-- What an attribute of mine is set to, `none` where it stays theirs. -/
def created (mine theirs : Attributes) (name : String) : Option Slot :=
  let m := read mine name
  let t := read theirs name
  if IsStamp name then
    none
  else if t = .absent then
    match m with
    | .own held => some (.own held)
    | _ => none
  else if ByValue name m t then
    some (mergeValues name (.own (.list [])) m t)
  else
    none

/-- The property that is read where no object inherits one. -/
def slotOf (found : Option Values) : Slot :=
  match found with
  | some held => .own held
  | none => .absent

variable {name : String}

theorem read_eq_slotOf (notInherited : ¬ Inherited name) (attributes : Attributes) :
    read attributes name = slotOf (attributes.lookup name) := by
  rw [read_of_not_inherited notInherited]
  cases attributes.lookup name <;> rfl

theorem mergeValues_ne_inherited (name : String) (base mine theirs : Slot) :
    mergeValues name base mine theirs ≠ .inherited := by
  unfold mergeValues
  simp only
  split <;> simp

/-- One attribute of mine changes that attribute only. -/
theorem lookup_addCreated (notPrototype : name ≠ "__proto__")
    (mine theirs out : Attributes) (added : String) :
    slotOf ((addCreated mine theirs out added).lookup name) =
      if added = name then
        (created mine theirs name).getD (slotOf (out.lookup name))
      else
        slotOf (out.lookup name) := by
  by_cases isName : added = name
  · subst isName
    rw [if_pos rfl]
    unfold addCreated created
    simp only
    split
    · rfl
    · split
      · cases read mine added with
        | own held =>
          rw [put, lookup_assign _ (.inl notPrototype), if_pos rfl]
          rfl
        | inherited => rfl
        | absent => rfl
      · by_cases byValue : ByValue added (read mine added) (read theirs added)
        · rw [if_pos byValue, if_pos byValue, Option.getD_some]
          have notInherited :=
            mergeValues_ne_inherited added (.own (.list [])) (read mine added) (read theirs added)
          cases merged :
              mergeValues added (.own (.list [])) (read mine added)
                (read theirs added) with
          | own held =>
            simp only
            rw [lookup_assign _ (.inl notPrototype), if_pos rfl]
            rfl
          | inherited => exact absurd merged notInherited
          | absent =>
            simp only
            rw [lookup_remove, if_pos rfl]
            rfl
        · rw [if_neg byValue, if_neg byValue]
          rfl
  · rw [if_neg isName]
    congr 1
    have notName : name ≠ added := Ne.symm isName
    unfold addCreated
    simp only
    split
    · rfl
    · split
      · cases read mine added with
        | own held => exact lookup_assign_other _ notName _
        | inherited => rfl
        | absent => rfl
      · split
        · split
          · exact lookup_assign_other _ notName _
          · rw [lookup_remove, if_neg notName]
        · rfl

theorem lookup_foldl_addCreated (notPrototype : name ≠ "__proto__")
    (mine theirs : Attributes) (names : List String) (out : Attributes) :
    slotOf ((names.foldl (addCreated mine theirs) out).lookup name) =
      if name ∈ names then
        (created mine theirs name).getD (slotOf (out.lookup name))
      else
        slotOf (out.lookup name) := by
  induction names generalizing out with
  | nil => rfl
  | cons first rest ih =>
    rw [List.foldl_cons, ih, lookup_addCreated notPrototype]
    by_cases isFirst : first = name
    · subst isFirst
      simp only [if_true, List.mem_cons, true_or]
      cases created mine theirs first with
      | none => simp
      | some slot => simp
    · simp only [isFirst, if_false, List.mem_cons, Ne.symm isFirst, false_or]

/-- The attributes of two creations. -/
def creationsOf (mine theirs : Attributes) : Attributes :=
  (mine.map Prod.fst).foldl (addCreated mine theirs)
    (theirs.foldl (fun out member => assign out member.1 member.2) [])

theorem lookup_copied {attributes : Attributes} (distinct : (attributes.map Prod.fst).Nodup)
    (notPrototype : name ≠ "__proto__") :
    (attributes.foldl (fun out member => assign out member.1 member.2) []).lookup
        name =
      attributes.lookup name := by
  have copied :=
    @JsObject.lookup_foldl_put Values Values attributes []
      (fun member => some member.2) distinct (fun _ _ => rfl) name
  refine copied.trans ?_
  cases attributes.lookup name with
  | none => rfl
  | some held => simp [notPrototype]

theorem mem_names_iff (attributes : Attributes) (name : String) :
    name ∈ attributes.map Prod.fst ↔ attributes.lookup name ≠ none := by
  rw [ne_eq, List.lookup_eq_none_iff, List.mem_map]
  constructor
  · rintro ⟨member, isMember, rfl⟩ notHeld
    simpa using notHeld member isMember
  · intro isHeld
    by_contra notNamed
    refine isHeld fun member isMember => ?_
    rw [bne_iff_ne]
    rintro rfl
    exact notNamed ⟨member, isMember, rfl⟩

/-- An attribute of two creations: what mine sets it to, or theirs. -/
theorem read_creationsOf {mine theirs : Attributes} (distinct : (theirs.map Prod.fst).Nodup)
    (notInherited : ¬ Inherited name) :
    read (creationsOf mine theirs) name =
      if read mine name = .absent then
        read theirs name
      else
        (created mine theirs name).getD (read theirs name) := by
  have notPrototype : name ≠ "__proto__" := by
    rintro rfl
    exact notInherited (by decide)
  rw [read_eq_slotOf notInherited, read_eq_slotOf notInherited, read_eq_slotOf notInherited,
    creationsOf, lookup_foldl_addCreated notPrototype, lookup_copied distinct notPrototype]
  simp only [mem_names_iff]
  cases mine.lookup name with
  | none => simp [slotOf]
  | some held => simp [slotOf]

end IyaSts.DirectoryMerge
