import IyaSts.DirectoryMergeRepeats

namespace IyaSts.DirectoryMerge

/-!
# A flush that is retried

A flush whose answer is lost is tried again, against the row it may have written.  It
leaves that row as it is, unless some attribute is merged otherwise the second time.
-/

open JsObject List

/-! ## What is read of the merged attributes -/

variable (attributes : Attributes)

/-- A property that was read is read the same when it is put. -/
theorem putSlot_read (name : String) :
    putSlot name (read attributes name) = read attributes name := by
  cases isHeld : attributes.lookup name with
  | none =>
    rw [read_of_lookup_none isHeld]
    exact putSlot_unset name
  | some held =>
    rw [read_of_lookup_some isHeld]
    rfl

theorem read_eq_putSlot (name : String) :
    read attributes name = putSlot name (slotOf (attributes.lookup name)) := by
  cases isHeld : attributes.lookup name with
  | none => exact read_of_lookup_none isHeld
  | some held => exact read_of_lookup_some isHeld

/-- An attribute of two changes is put as it is merged. -/
theorem read_mergeAttributes_eq (base mine theirs : Attributes) {name : String}
    (notPrototype : name ≠ "__proto__") :
    read (mergeAttributes base mine theirs) name =
      putSlot name (mergeAttribute base mine theirs name) := by
  have looked :=
    lookup_foldl_put (mergeAttribute base mine theirs) notPrototype (namesOf base mine theirs) []
  cases merged : mergeAttribute base mine theirs name with
  | own held =>
    rw [merged] at looked
    by_cases isNamed : name ∈ namesOf base mine theirs
    · exact read_of_lookup_some (looked.trans (if_pos isNamed))
    · -- No side has the name, so each reads as a new object does.
      have nowhere (side : Attributes)
          (isSide : ∀ member ∈ side, member ∈ mine ++ theirs ++ base) :
          read side name = unset name := by
        refine read_of_lookup_none ?_
        rw [lookup_eq_none_iff]
        intro member isMember
        rw [bne_iff_ne]
        rintro rfl
        exact isNamed ((mem_namesOf ..).mpr ⟨member, isSide member isMember, rfl⟩)
      rw [mergeAttribute_eq,
        nowhere base fun member isMember => mem_append_right _ isMember,
        nowhere mine fun member isMember =>
          mem_append_left _ (mem_append_left _ isMember),
        nowhere theirs fun member isMember =>
          mem_append_left _ (mem_append_right _ isMember),
        mergeSlot, if_pos (by rw [same, decide_eq_true_eq])] at merged
      exact absurd merged.symm (own_ne_unset name held)
  | inherited =>
    rw [merged] at looked
    exact read_of_lookup_none looked
  | absent =>
    rw [merged] at looked
    exact read_of_lookup_none looked

variable {out mine theirs : Attributes}

theorem lookup_assign_prototype (notOwn : out.lookup "__proto__" = none)
    (name : String) (held : Values) :
    (assign out name held).lookup "__proto__" = none := by
  by_cases isPrototype : name = "__proto__"
  · subst isPrototype
    rw [assign, notOwn]
    exact notOwn
  · rw [lookup_assign_other _ (Ne.symm isPrototype)]
    exact notOwn

theorem lookup_put_prototype (notOwn : out.lookup "__proto__" = none)
    (name : String) (slot : Slot) :
    (put out name slot).lookup "__proto__" = none := by
  cases slot with
  | own held => exact lookup_assign_prototype notOwn name held
  | inherited => exact notOwn
  | absent => exact notOwn

/-- No entry that was merged has a `__proto__` of its own. -/
theorem read_mergeAttributes_prototype (base mine theirs : Attributes) :
    read (mergeAttributes base mine theirs) "__proto__" = unset "__proto__" := by
  refine read_of_lookup_none ?_
  unfold mergeAttributes
  generalize namesOf base mine theirs = names
  have notOwn : ([] : Attributes).lookup "__proto__" = none := rfl
  revert notOwn
  generalize ([] : Attributes) = out
  intro notOwn
  induction names generalizing out with
  | nil => exact notOwn
  | cons first rest ih =>
    rw [foldl_cons]
    exact ih _ (lookup_put_prototype notOwn first _)

/-- A second merge of two changes leaves an attribute, unless it flips. -/
theorem mergeAttributes_repeats_iff {base mine theirs : Attributes}
    (listsBase : HoldsLists base) (listsMine : HoldsLists mine)
    (listsTheirs : HoldsLists theirs) {name : String} (notPrototype : name ≠ "__proto__") :
    read (mergeAttributes base mine (mergeAttributes base mine theirs)) name =
        read (mergeAttributes base mine theirs) name ↔
      ¬ Flips name (read base name) (read mine name) (read theirs name) := by
  rw [read_mergeAttributes_eq _ _ _ notPrototype, mergeAttribute_eq,
    read_mergeAttributes_eq _ _ _ notPrototype, mergeAttribute_eq,
    ← unstable_iff_flips (isList_read listsTheirs name)]
  exact stable_iff notPrototype (isList_read listsBase name)
    (isList_read listsMine name) (isList_read listsTheirs name)

/-! ## Two creations, repeated -/

/-- An attribute of two creations, of one that mine holds. -/
def createdSlot (name : String) (m t : Slot) : Slot :=
  if IsStamp name then t
  else if t = .absent then m
  else if ByValue name m t then mergeValues name (.own (.list [])) m t
  else t

theorem read_creationsOf_eq (distinct : (theirs.map Prod.fst).Nodup) {name : String}
    (notPrototype : name ≠ "__proto__") :
    read (creationsOf mine theirs) name =
      match mine.lookup name with
      | none => read theirs name
      | some held => putSlot name (createdSlot name (.own held) (read theirs name)) := by
  rw [read_eq_putSlot (creationsOf mine theirs), creationsOf,
    lookup_foldl_addCreated notPrototype, lookup_copied distinct notPrototype]
  simp only [mem_names_iff]
  cases isMine : mine.lookup name with
  | none => exact (read_eq_putSlot theirs name).symm
  | some held =>
    have theirsAsRead :
        putSlot name (slotOf (theirs.lookup name)) = putSlot name (read theirs name) := by
      rw [putSlot_read, ← read_eq_putSlot]
    rw [if_pos (by simp)]
    unfold created createdSlot
    simp only [read_of_lookup_some isMine]
    split
    · exact theirsAsRead
    · split
      · rfl
      · split
        · rfl
        · exact theirsAsRead

theorem nodup_addCreated (distinct : (out.map Prod.fst).Nodup) (mine theirs : Attributes)
    (name : String) :
    ((addCreated mine theirs out name).map Prod.fst).Nodup := by
  unfold addCreated
  simp only
  split
  · exact distinct
  · split
    · cases read mine name with
      | own held => exact nodup_assign distinct name held
      | inherited => exact distinct
      | absent => exact distinct
    · split
      · split
        · exact nodup_assign distinct name _
        · exact (filter_sublist.map Prod.fst).nodup distinct
      · exact distinct

/-- The merged entry has each name once. -/
theorem nodup_creationsOf (mine theirs : Attributes) :
    ((creationsOf mine theirs).map Prod.fst).Nodup := by
  unfold creationsOf
  have copied :
      ((theirs.foldl (fun out member => assign out member.1 member.2) []).map Prod.fst).Nodup :=
    @nodup_foldl_put Values Values (fun member => some member.2) theirs [] nodup_nil
  revert copied
  generalize theirs.foldl (fun out member => assign out member.1 member.2) [] = out
  intro copied
  induction mine.map Prod.fst generalizing out with
  | nil => exact copied
  | cons first rest ih =>
    rw [foldl_cons]
    exact ih _ (nodup_addCreated copied mine theirs first)

/-- No entry that was created twice has a `__proto__` of its own. -/
theorem read_creationsOf_prototype (mine theirs : Attributes) :
    read (creationsOf mine theirs) "__proto__" = unset "__proto__" := by
  refine read_of_lookup_none ?_
  unfold creationsOf
  have copied :
      (theirs.foldl (fun out member => assign out member.1 member.2) []).lookup
        "__proto__" = none := by
    have notOwn : ([] : Attributes).lookup "__proto__" = none := rfl
    revert notOwn
    generalize ([] : Attributes) = out
    intro notOwn
    induction theirs generalizing out with
    | nil => exact notOwn
    | cons first rest ih =>
      rw [foldl_cons]
      exact ih _ (lookup_assign_prototype notOwn _ _)
  revert copied
  generalize theirs.foldl (fun out member => assign out member.1 member.2) [] = out
  intro copied
  induction mine.map Prod.fst generalizing out with
  | nil => exact copied
  | cons first rest ih =>
    rw [foldl_cons]
    refine ih _ ?_
    unfold addCreated
    simp only
    split
    · exact copied
    · split
      · exact lookup_put_prototype copied first _
      · split
        · split
          · exact lookup_assign_prototype copied first _
          · rw [lookup_remove]
            split
            · rfl
            · exact copied
        · exact copied

/-- A list of the table that mine holds empty, and theirs not at all or empty too. -/
structure Flickers (name : String) (mine theirs : Slot) : Prop where
  isMulti : name ∈ multi
  mineEmpty : mine = .own (.list [])
  theirsEmpty : theirs = .absent ∨ theirs = .own (.list [])

section Slots

variable {name : String} {t : Slot} {values : List String}

/-- Mine's values behind theirs, each once. -/
abbrev pushedOnto (values : List String) (t : List String) : List String :=
  values.foldl (fun out value => if value ∈ out then out else out ++ [value]) t

theorem pushedOnto_again (values held : List String) :
    pushedOnto values (pushedOnto values held) = pushedOnto values held :=
  foldl_push_self fun value isMine => (mem_foldl_push values held value).mpr (.inr isMine)

theorem pushedOnto_eq_nil {held : List String} (isEmpty : pushedOnto values held = []) :
    values = [] ∧ held = [] := by
  have notHeld (value : String) : ¬ (value ∈ held ∨ value ∈ values) := by
    have notPushed : value ∉ pushedOnto values held := by
      rw [isEmpty]
      exact not_mem_nil
    exact fun isHeld => notPushed ((mem_foldl_push values held value).mpr isHeld)
  exact ⟨eq_nil_iff_forall_not_mem.mpr fun value isMine =>
      notHeld value (.inr isMine),
    eq_nil_iff_forall_not_mem.mpr fun value isHeld => notHeld value (.inl isHeld)⟩

theorem byValue_of_empty (byValue : ByValue name (.own (.list [])) (.own (.list []))) :
    name ∈ multi :=
  byValue.resolve_right fun isMany => isMany.elim (Nat.not_lt_zero 1) (Nat.not_lt_zero 1)

theorem unset_of_multi (isMulti : name ∈ multi) : unset name = .absent := by
  rw [unset_eq, if_neg (apart_of_multi isMulti).2.2.2.2]

/-- What two creations leave of an attribute is left again, unless it flickers. -/
theorem createdSlot_repeats_iff (listT : IsList name t) :
    putSlot name (createdSlot name (.own (.list values))
          (putSlot name (createdSlot name (.own (.list values)) t))) =
        putSlot name (createdSlot name (.own (.list values)) t) ↔
      ¬ Flickers name (.own (.list values)) t := by
  have putT := putSlot_of_isList listT
  by_cases isStamp : IsStamp name
  · have first (slot : Slot) : createdSlot name (.own (.list values)) slot = slot := if_pos isStamp
    rw [first t, putT, first t, putT]
    refine iff_of_true rfl fun flickers => ?_
    obtain ⟨notModified, notCreated, notUuid, -⟩ := apart_of_multi flickers.isMulti
    rcases isStamp with isUuid | isCreated | isModified
    · exact notUuid isUuid
    · exact notCreated isCreated
    · exact notModified isModified
  have notStamp (slot : Slot) :
      createdSlot name (.own (.list values)) slot =
        if slot = .absent then .own (.list values)
        else if ByValue name (.own (.list values)) slot then
          mergeValues name (.own (.list [])) (.own (.list values)) slot
        else slot :=
    if_neg isStamp
  by_cases isAbsent : t = .absent
  · have first : createdSlot name (.own (.list values)) t = .own (.list values) := by
      rw [notStamp, if_pos isAbsent]
    rw [first, putSlot, notStamp, if_neg (by simp), mergeValues_created]
    have again : pushedOnto values values = values := foldl_push_self fun _ isMine => isMine
    change putSlot name
        (if ByValue name (.own (.list values)) (.own (.list values)) then
          if pushedOnto values values = [] then .absent
          else .own (.list (pushedOnto values values))
        else .own (.list values)) = .own (.list values) ↔ _
    rw [again]
    by_cases isEmpty : values = []
    · subst isEmpty
      by_cases byValue : ByValue name (.own (.list [])) (.own (.list []))
      · have isMulti := byValue_of_empty byValue
        rw [if_pos byValue, if_pos rfl]
        exact iff_of_false (own_ne_unset name _).symm
          fun stays => stays ⟨isMulti, rfl, .inl isAbsent⟩
      · rw [if_neg byValue]
        exact iff_of_true rfl fun flickers => byValue (.inl flickers.isMulti)
    · rw [if_neg isEmpty, ite_self]
      refine iff_of_true rfl fun flickers => isEmpty ?_
      simpa using flickers.mineEmpty
  · rw [notStamp t, if_neg isAbsent]
    by_cases byValue : ByValue name (.own (.list values)) t
    · rw [if_pos byValue, mergeValues_created]
      change putSlot name
          (createdSlot name (.own (.list values))
            (putSlot name
              (if pushedOnto values (listOf name t) = [] then .absent
              else .own (.list (pushedOnto values (listOf name t)))))) =
        putSlot name
          (if pushedOnto values (listOf name t) = [] then .absent
          else .own (.list (pushedOnto values (listOf name t)))) ↔ _
      by_cases isEmpty : pushedOnto values (listOf name t) = []
      · obtain ⟨rfl, noneHeld⟩ := pushedOnto_eq_nil isEmpty
        have theirsEmpty : t = .own (.list []) := by
          rcases listT with ⟨held, rfl⟩ | isUnset
          · rw [listOf] at noneHeld
            rw [noneHeld]
          · rw [unset_eq] at isUnset
            split at isUnset
            · rw [isUnset] at noneHeld
              cases noneHeld
            · exact absurd isUnset isAbsent
        rw [theirsEmpty] at byValue
        have isMulti := byValue_of_empty byValue
        rw [if_pos isEmpty]
        have isUnset : putSlot name .absent = .absent := unset_of_multi isMulti
        rw [isUnset, notStamp, if_pos rfl]
        exact iff_of_false (by simp [putSlot]) fun stays => stays ⟨isMulti, rfl, .inr theirsEmpty⟩
      · rw [if_neg isEmpty, putSlot, notStamp, if_neg (by simp), mergeValues_created]
        change putSlot name
            (if ByValue name (.own (.list values))
                (.own (.list (pushedOnto values (listOf name t)))) then
              if pushedOnto values (pushedOnto values (listOf name t)) = [] then .absent
              else .own (.list (pushedOnto values (pushedOnto values (listOf name t))))
            else .own (.list (pushedOnto values (listOf name t)))) =
          .own (.list (pushedOnto values (listOf name t))) ↔ _
        rw [pushedOnto_again, if_neg isEmpty, ite_self]
        refine iff_of_true rfl fun flickers => isEmpty ?_
        have noneMine : values = [] := by simpa using flickers.mineEmpty
        rw [flickers.theirsEmpty.resolve_left isAbsent, noneMine]
        rfl
    · rw [if_neg byValue, putT, notStamp t, if_neg isAbsent, if_neg byValue]
      exact iff_of_true putT fun flickers => byValue (.inl flickers.isMulti)

end Slots

/-- A second merge of two creations leaves an attribute, unless it flickers. -/
theorem creationsOf_repeats_iff (listsMine : HoldsLists mine)
    (listsTheirs : HoldsLists theirs) (distinct : (theirs.map Prod.fst).Nodup) {name : String}
    (notPrototype : name ≠ "__proto__") :
    read (creationsOf mine (creationsOf mine theirs)) name =
        read (creationsOf mine theirs) name ↔
      ¬ Flickers name (read mine name) (read theirs name) := by
  rw [read_creationsOf_eq (nodup_creationsOf mine theirs) notPrototype,
    read_creationsOf_eq distinct notPrototype]
  cases isMine : mine.lookup name with
  | none =>
    refine iff_of_true rfl fun flickers => ?_
    have notOwn := flickers.mineEmpty
    rw [read_of_lookup_none isMine] at notOwn
    exact own_ne_unset name _ notOwn.symm
  | some held =>
    have isRead := read_of_lookup_some isMine
    obtain ⟨values, isList⟩ := listsMine _ (mem_of_read_own isRead)
    obtain rfl : held = .list values := isList
    rw [isRead]
    exact createdSlot_repeats_iff (isList_read listsTheirs name)

/-! ## Every merge, repeated -/

section

variable (toLowerCase : List Nat → List Nat)

/-- The entry a flush leaves in the store. -/
def flushed (base mine theirs : Option Entry) : Option Entry :=
  storedAfter theirs (mergeEntry toLowerCase base mine theirs)

/-- A flush that is retried leaves every attribute as the first one did. -/
def Repeats (base mine theirs : Option Entry) : Prop :=
  ∀ name,
    read (attributesOf
        (flushed toLowerCase base mine (flushed toLowerCase base mine theirs))) name =
      read (attributesOf (flushed toLowerCase base mine theirs)) name

/-- No attribute is one that a second merge would change. -/
def Settled (base mine theirs : Option Entry) : Prop :=
  match mine with
  | none => True
  | some mine =>
    match base, theirs with
    | none, none => mine.attributes.lookup "__proto__" = none
    | some _, none => True
    | none, some theirs =>
      if differ (uuidOf toLowerCase mine) (uuidOf toLowerCase theirs) then
        ∀ name, ¬ Flickers name (read mine.attributes name) (read theirs.attributes name)
      else
        ∀ name ≠ "__proto__",
          ¬ Flips name (unset name) (read mine.attributes name) (read theirs.attributes name)
    | some base, some theirs =>
      if differ (uuidOf toLowerCase base) (uuidOf toLowerCase theirs) ∨
          differ (uuidOf toLowerCase base) (uuidOf toLowerCase mine) then
        True
      else
        ∀ name ≠ "__proto__",
          ¬ Flips name (read base.attributes name) (read mine.attributes name)
            (read theirs.attributes name)

end

section

variable {toLowerCase : List Nat → List Nat}

/-- What two changes of one entry leave carries the identifier of one of them. -/
theorem uuidOf_merged {base : Attributes} {mine theirs merged : Entry}
    (isMerged : merged.attributes = mergeAttributes base mine.attributes theirs.attributes) :
    uuidOf toLowerCase merged = uuidOf toLowerCase mine ∨
      uuidOf toLowerCase merged = uuidOf toLowerCase theirs := by
  have isRead :
      read merged.attributes "entryuuid" =
        putSlot "entryuuid"
          (mergeAttribute base mine.attributes theirs.attributes "entryuuid") := by
    rw [isMerged]
    exact read_mergeAttributes_eq _ _ _ (by decide)
  rcases mergeAttribute_entryuuid base mine.attributes theirs.attributes with
    ofMine | ofTheirs
  · left
    refine uuidOf_congr toLowerCase ?_
    rw [isRead, ofMine, putSlot_read]
  · right
    refine uuidOf_congr toLowerCase ?_
    rw [isRead, ofTheirs, putSlot_read]

/-- Two changes leave an entry, of the merged attributes. -/
theorem storedAfter_mergeChanges (base : Attributes) (mine theirs : Entry) :
    ∃ merged : Entry,
      storedAfter (some theirs) (mergeChanges base mine theirs) = some merged ∧
        merged.attributes = mergeAttributes base mine.attributes theirs.attributes := by
  have attributes := attributesOf_mergeChanges base mine theirs
  cases stored : storedAfter (some theirs) (mergeChanges base mine theirs) with
  | none =>
    unfold mergeChanges at stored
    simp only at stored
    split at stored
    · cases stored
    · cases stored
  | some merged =>
    rw [stored] at attributes
    exact ⟨merged, rfl, attributes⟩

theorem storedAfter_mergeCreations (mine theirs : Entry) :
    ∃ merged : Entry,
      storedAfter (some theirs) (mergeCreations mine theirs) = some merged ∧
        merged.attributes = creationsOf mine.attributes theirs.attributes := by
  have attributes := attributesOf_mergeCreations mine theirs
  cases stored : storedAfter (some theirs) (mergeCreations mine theirs) with
  | none =>
    unfold mergeCreations at stored
    simp only at stored
    split at stored
    · cases stored
    · cases stored
  | some merged =>
    rw [stored] at attributes
    exact ⟨merged, rfl, attributes⟩

/-- Two changes are merged again to the same, unless an attribute flips. -/
theorem mergeChanges_repeats_iff {base mine theirs : Attributes}
    (listsBase : HoldsLists base) (listsMine : HoldsLists mine) (listsTheirs : HoldsLists theirs) :
    (∀ name,
      read (mergeAttributes base mine (mergeAttributes base mine theirs)) name =
        read (mergeAttributes base mine theirs) name) ↔
      ∀ name ≠ "__proto__", ¬ Flips name (read base name) (read mine name) (read theirs name) := by
  constructor
  · intro repeats name notPrototype
    exact (mergeAttributes_repeats_iff listsBase listsMine listsTheirs
      notPrototype).mp (repeats name)
  · intro settled name
    by_cases isPrototype : name = "__proto__"
    · subst isPrototype
      rw [read_mergeAttributes_prototype, read_mergeAttributes_prototype]
    · exact (mergeAttributes_repeats_iff listsBase listsMine listsTheirs
        isPrototype).mpr (settled name isPrototype)

theorem mergeCreations_repeats_iff {mine theirs : Attributes}
    (listsMine : HoldsLists mine) (listsTheirs : HoldsLists theirs)
    (distinct : (theirs.map Prod.fst).Nodup) :
    (∀ name,
      read (creationsOf mine (creationsOf mine theirs)) name =
        read (creationsOf mine theirs) name) ↔
      ∀ name, ¬ Flickers name (read mine name) (read theirs name) := by
  constructor
  · intro repeats name flickers
    have notPrototype : name ≠ "__proto__" := by
      rintro rfl
      exact (apart_of_multi flickers.isMulti).2.2.2.2 (by decide)
    exact (creationsOf_repeats_iff listsMine listsTheirs distinct
      notPrototype).mp (repeats name) flickers
  · intro settled name
    by_cases isPrototype : name = "__proto__"
    · subst isPrototype
      rw [read_creationsOf_prototype, read_creationsOf_prototype]
    · exact (creationsOf_repeats_iff listsMine listsTheirs distinct isPrototype).mpr (settled name)

theorem differ_comm (first second : List Nat) : differ first second = differ second first := by
  unfold differ
  rw [Bool.and_comm (decide (first ≠ [])), decide_eq_decide.mpr (@ne_comm _ first second)]

/-- Two creations leave the identifier of the first. -/
theorem uuidOf_created {mine theirs merged : Entry}
    (distinct : (theirs.attributes.map Prod.fst).Nodup)
    (isMerged : merged.attributes = creationsOf mine.attributes theirs.attributes) :
    uuidOf toLowerCase merged = uuidOf toLowerCase theirs := by
  refine uuidOf_congr toLowerCase ?_
  rw [isMerged, read_creationsOf_eq distinct (by decide)]
  cases mine.attributes.lookup "entryuuid" with
  | none => rfl
  | some held =>
    have isTheirs (m t : Slot) : createdSlot "entryuuid" m t = t := if_pos (.inl rfl)
    simp only [isTheirs]
    exact putSlot_read theirs.attributes "entryuuid"

/-- Two changes that are of one entry, as far as their identifiers tell. -/
def SameEntry (toLowerCase : List Nat → List Nat) (base : Option Entry)
    (mine theirs : Entry) : Prop :=
  match base with
  | none => ¬ differ (uuidOf toLowerCase mine) (uuidOf toLowerCase theirs) = true
  | some base =>
    ¬ differ (uuidOf toLowerCase base) (uuidOf toLowerCase theirs) = true ∧
      ¬ differ (uuidOf toLowerCase base) (uuidOf toLowerCase mine) = true

/-- Two changes without a collision are merged again as two changes. -/
theorem flushed_of_changes {base : Option Entry} {mine theirs : Entry}
    (same : SameEntry toLowerCase base mine theirs) :
    flushed toLowerCase base (some mine) (some theirs) =
      storedAfter (some theirs) (mergeChanges (attributesOf base) mine theirs) := by
  unfold flushed mergeEntry
  cases base with
  | none => exact congrArg (storedAfter (some theirs)) (if_neg same)
  | some base => simp only [if_neg same.1, if_neg same.2, attributesOf]

/-- So the second merge is of the attributes the first left. -/
theorem repeats_of_changes {base : Option Entry} {mine theirs : Entry}
    (same : SameEntry toLowerCase base mine theirs) :
    Repeats toLowerCase base (some mine) (some theirs) ↔
      ∀ name,
        read (mergeAttributes (attributesOf base) mine.attributes
              (mergeAttributes (attributesOf base) mine.attributes theirs.attributes)) name =
          read (mergeAttributes (attributesOf base) mine.attributes theirs.attributes) name := by
  obtain ⟨merged, stored, attributes⟩ := storedAfter_mergeChanges (attributesOf base) mine theirs
  have first : flushed toLowerCase base (some mine) (some theirs) = some merged :=
    (flushed_of_changes same).trans stored
  have sameMerged : SameEntry toLowerCase base mine merged := by
    have isOne := @uuidOf_merged toLowerCase _ mine theirs merged attributes
    cases base with
    | none =>
      rcases isOne with isMine | isTheirs
      · rw [SameEntry, isMine, differ_self]
        exact Bool.false_ne_true
      · rw [SameEntry, isTheirs]
        exact same
    | some base =>
      refine ⟨?_, same.2⟩
      rcases isOne with isMine | isTheirs
      · rw [isMine]
        exact same.2
      · rw [isTheirs]
        exact same.1
  unfold Repeats
  rw [first, flushed_of_changes sameMerged, attributesOf_mergeChanges]
  simp only [attributes, attributesOf]

/-- A second merge of two creations is of the attributes the first left. -/
theorem repeats_of_creations {mine theirs : Entry}
    (distinct : (theirs.attributes.map Prod.fst).Nodup)
    (differs : differ (uuidOf toLowerCase mine) (uuidOf toLowerCase theirs) = true) :
    Repeats toLowerCase none (some mine) (some theirs) ↔
      ∀ name,
        read (creationsOf mine.attributes
              (creationsOf mine.attributes theirs.attributes)) name =
          read (creationsOf mine.attributes theirs.attributes) name := by
  obtain ⟨merged, stored, attributes⟩ := storedAfter_mergeCreations mine theirs
  have first : flushed toLowerCase none (some mine) (some theirs) = some merged := by
    unfold flushed
    rw [mergeEntry_of_collide differs]
    exact stored
  have differsAgain : differ (uuidOf toLowerCase mine) (uuidOf toLowerCase merged) = true := by
    rw [uuidOf_created distinct attributes]
    exact differs
  unfold Repeats
  rw [first]
  unfold flushed
  rw [mergeEntry_of_collide differsAgain, attributesOf_mergeCreations]
  simp only [attributes, attributesOf]

/-- An entry that is merged with itself is left, but for a `__proto__` of its own. -/
theorem mergeAttributes_self_iff {mine : Attributes} (lists : HoldsLists mine) :
    (∀ name, read (mergeAttributes [] mine mine) name = read mine name) ↔
      mine.lookup "__proto__" = none := by
  constructor
  · intro repeats
    have ofPrototype := repeats "__proto__"
    rw [read_mergeAttributes_prototype] at ofPrototype
    cases isOwn : mine.lookup "__proto__" with
    | none => rfl
    | some held =>
      rw [read_of_lookup_some isOwn] at ofPrototype
      exact absurd ofPrototype.symm (own_ne_unset "__proto__" held)
  · intro notOwn name
    by_cases isPrototype : name = "__proto__"
    · subst isPrototype
      rw [read_mergeAttributes_prototype, read_of_lookup_none notOwn]
    · have isList := isList_read lists name
      have listBase : IsList name (read [] name) := .inr rfl
      rw [read_mergeAttributes_eq _ _ _ isPrototype, mergeAttribute_eq,
        mergeSlot_of_isList isPrototype listBase isList isList]
      split
      · rfl
      · exact if_pos (.inr rfl)

end

/-- A retried flush is harmless exactly where no attribute is one that a second merge would
change. -/
theorem repeats_iff_settled (toLowerCase : List Nat → List Nat)
    (base mine theirs : Option Entry) (listsBase : HoldsLists (attributesOf base))
    (listsMine : HoldsLists (attributesOf mine)) (listsTheirs : HoldsLists (attributesOf theirs))
    (distinct : ((attributesOf theirs).map Prod.fst).Nodup) :
    Repeats toLowerCase base mine theirs ↔ Settled toLowerCase base mine theirs := by
  cases mine with
  | none => exact iff_of_true (fun _ => rfl) trivial
  | some mine =>
    cases theirs with
    | none =>
      cases base with
      | none =>
        have stored : flushed toLowerCase none (some mine) none = some mine := rfl
        have again :
            flushed toLowerCase none (some mine) (some mine) =
              storedAfter (some mine) (mergeChanges [] mine mine) := by
          unfold flushed mergeEntry
          simp only [differ_self, Bool.false_eq_true, if_false]
        unfold Repeats
        rw [stored, again, attributesOf_mergeChanges]
        exact mergeAttributes_self_iff listsMine
      | some base =>
        refine iff_of_true ?_ trivial
        intro name
        unfold flushed mergeEntry
        by_cases differs : differ (uuidOf toLowerCase mine) (uuidOf toLowerCase base) = true
        · have differs' := differs
          rw [differ_comm] at differs'
          simp only [if_pos differs, if_pos differs', storedAfter]
        · simp only [if_neg differs, storedAfter]
    | some theirs =>
      cases base with
      | none =>
        unfold Settled
        simp only
        by_cases differs : differ (uuidOf toLowerCase mine) (uuidOf toLowerCase theirs) = true
        · rw [if_pos differs, repeats_of_creations distinct differs]
          exact mergeCreations_repeats_iff listsMine listsTheirs distinct
        · have sameMine := @repeats_of_changes toLowerCase none mine theirs differs
          rw [if_neg differs, sameMine]
          exact mergeChanges_repeats_iff listsBase listsMine listsTheirs
      | some base =>
        unfold Settled
        simp only
        by_cases theirsDiffers : differ (uuidOf toLowerCase base) (uuidOf toLowerCase theirs) = true
        · rw [if_pos (.inl theirsDiffers)]
          refine iff_of_true ?_ trivial
          intro name
          unfold flushed mergeEntry
          simp only [if_pos theirsDiffers, storedAfter]
        by_cases mineDiffers : differ (uuidOf toLowerCase base) (uuidOf toLowerCase mine) = true
        · rw [if_pos (.inr mineDiffers)]
          refine iff_of_true ?_ trivial
          intro name
          unfold flushed mergeEntry
          simp only [if_neg theirsDiffers, if_pos mineDiffers, storedAfter]
        · have sameMine :=
            @repeats_of_changes toLowerCase (some base) mine theirs ⟨theirsDiffers, mineDiffers⟩
          rw [if_neg (not_or.mpr ⟨theirsDiffers, mineDiffers⟩), sameMine]
          exact mergeChanges_repeats_iff listsBase listsMine listsTheirs

/-! ## A value that a retry drops -/

/-- An entry of a telephone number. -/
def phoneEntry (attributes : Attributes) : Entry where
  dn := "uid=d,ou=users"
  attributes := attributes
  createdAt := none
  modifiedAt := none
  origin := none

/-- The second number of theirs is left, and the retry takes it away. -/
theorem secondNumber_dropped :
    ¬ Repeats asciiLower
        (some (phoneEntry [("telephonenumber", .list ["x"])]))
        (some (phoneEntry []))
        (some (phoneEntry [("telephonenumber", .list ["x", "y"])])) := by
  intro repeats
  have kept := repeats "telephonenumber"
  revert kept
  decide +kernel

/-- Of a name of the table it stays. -/
theorem secondMember_stays :
    Repeats asciiLower
        (some (phoneEntry [("member", .list ["x"])]))
        (some (phoneEntry [("member", .list [])]))
        (some (phoneEntry [("member", .list ["x", "y"])])) := by
  have held (values : List String) :
      HoldsLists (attributesOf (some (phoneEntry [("member", .list values)]))) := by
    intro member isMember
    obtain rfl := mem_singleton.mp isMember
    exact ⟨values, rfl⟩
  refine (repeats_iff_settled asciiLower _ _ _ (held _) (held _) (held _)
    (by decide)).mpr fun name notPrototype flips => ?_
  by_cases isMember : name = "member"
  · subst isMember
    rcases flips.flips with ⟨noneLeft, -⟩ | ⟨-, -, -, -, notList⟩ | ⟨isInherited, -⟩
    · exact noneLeft "y" (by decide)
    · exact notList (.inl (by decide))
    · revert isInherited
      decide
  · have notHeld (values : List String) :
        read (phoneEntry [("member", .list values)]).attributes name = unset name := by
      refine read_of_lookup_none (lookup_eq_none_iff.mpr fun member isHeld => ?_)
      rw [mem_singleton.mp isHeld]
      simpa using isMember
    refine flips.mineChanged ?_
    rw [notHeld, notHeld]

end IyaSts.DirectoryMerge
