import IyaSts.DirectoryMergeCreations

namespace IyaSts.DirectoryMerge

/-!
# Whose credentials an entry is left with

Two changes of one entry never blend a whole-valued attribute.  Two creations at one name
do, unless the one that came second has no credential that the first has not.
-/

open JsObject List

/-! ## What is claimed -/

/-- What is stored after a merge. -/
def storedAfter (theirs : Option Entry) (verdict : Verdict) : Option Entry :=
  match verdict.outcome with
  | .mine | .merged => verdict.entry
  | .theirs | .deleted => theirs

/-- The attributes of an entry, of which an absent one has none. -/
def attributesOf (entry : Option Entry) : Attributes :=
  match entry with
  | some entry => entry.attributes
  | none => []

/-- The lists of `MULTI` that hold credentials and keys. -/
def credentialLists : List String :=
  ["stswebauthncredential", "stsandroidattestedcredential", "stsdevicekey",
    "stsdevicekeythumbprint", "stsdevicecredentialid", "stsdeviceandroidkey"]

section

variable (toLowerCase : List Nat → List Nat)

/-- Two entries that were created at one name independently. -/
def Collide (base mine theirs : Option Entry) : Prop :=
  base = none ∧
    ∃ mine' theirs',
      mine = some mine' ∧ theirs = some theirs' ∧
        differ (uuidOf toLowerCase mine') (uuidOf toLowerCase theirs') = true

/-- No credential is blended, and none of a second creation is kept. -/
structure CredentialsApart (base mine theirs : Option Entry) : Prop where
  whole :
    ∀ name ∈ single,
      read (attributesOf
            (storedAfter theirs (mergeEntry toLowerCase base mine theirs))) name =
          read (attributesOf mine) name ∨
        read (attributesOf
            (storedAfter theirs (mergeEntry toLowerCase base mine theirs))) name =
          read (attributesOf theirs) name
  collision :
    Collide toLowerCase base mine theirs →
      ∀ name ∈ single ++ credentialLists,
        read (attributesOf
            (storedAfter theirs (mergeEntry toLowerCase base mine theirs)))
            name =
          read (attributesOf theirs) name

/-- An attribute of mine that theirs has already. -/
def AddsNothing (name : String) (mine theirs : Slot) : Prop :=
  mine = .absent ∨
    (theirs ≠ .absent ∧
      (ByValue name mine theirs →
        ∃ values,
          theirs = .own (.list values) ∧ values ≠ [] ∧ ∀ value ∈ listOf name mine, value ∈ values))

/-- A second creation has no credential that the first has not. -/
def CredentialsHeld (base mine theirs : Option Entry) : Prop :=
  Collide toLowerCase base mine theirs →
    ∀ name ∈ single ++ credentialLists,
      AddsNothing name (read (attributesOf mine) name) (read (attributesOf theirs) name)

end

/-! ## Names of credentials -/

variable {name : String}

theorem apart_of_credential (isCredential : name ∈ single ++ credentialLists) :
    ¬ IsStamp name ∧ ¬ Inherited name := by
  have each :
      ((single ++ credentialLists).all fun name =>
        ¬ IsStamp name ∧ ¬ Inherited name) = true := by
    decide +kernel
  exact of_decide_eq_true (all_eq_true.mp each name isCredential)

/-! ## Two changes of one entry -/

variable (base mine theirs : Attributes)

/-- A whole-valued attribute is one side's. -/
theorem mergeAttribute_single (isSingle : name ∈ single) :
    mergeAttribute base mine theirs name = read mine name ∨
      mergeAttribute base mine theirs name = read theirs name := by
  obtain ⟨notStamp, -⟩ := apart_of_credential (mem_append_left credentialLists isSingle)
  rw [not_or, not_or] at notStamp
  obtain ⟨notUuid, notCreated, notModified⟩ := notStamp
  have notFirst : ¬ (name = "createtimestamp" ∨ name = "entryuuid") := by
    rintro (isCreated | isUuid)
    · exact notCreated isCreated
    · exact notUuid isUuid
  unfold mergeAttribute
  simp only [if_neg notModified, if_neg notFirst, if_pos isSingle]
  split
  · exact .inr rfl
  · split
    · exact .inl rfl
    · exact .inl rfl

theorem read_mergeAttributes_single (isSingle : name ∈ single) :
    read (mergeAttributes base mine theirs) name = read mine name ∨
      read (mergeAttributes base mine theirs) name = read theirs name := by
  obtain ⟨-, notInherited⟩ := apart_of_credential (mem_append_left credentialLists isSingle)
  rcases mergeAttribute_single base mine theirs isSingle with ofMine | ofTheirs
  · left
    rw [read_mergeAttributes _ _ _ notInherited, ofMine]
    rw [ofMine]
    exact read_ne_inherited notInherited
  · right
    rw [read_mergeAttributes _ _ _ notInherited, ofTheirs]
    rw [ofTheirs]
    exact read_ne_inherited notInherited

/-- What two changes of one entry leave is the merge of their attributes. -/
theorem attributesOf_mergeChanges (mine theirs : Entry) :
    attributesOf (storedAfter (some theirs) (mergeChanges base mine theirs)) =
      mergeAttributes base mine.attributes theirs.attributes := by
  unfold mergeChanges
  simp only
  split
  · rename_i isMine
    exact isMine.symm
  · rfl

theorem attributesOf_mergeCreations (mine theirs : Entry) :
    attributesOf (storedAfter (some theirs) (mergeCreations mine theirs)) =
      creationsOf mine.attributes theirs.attributes := by
  unfold mergeCreations
  simp only
  split
  · rename_i isTheirs
    exact isTheirs.symm
  · rfl

/-! ## Two creations -/

theorem foldl_push_self {added out : List String} (held : ∀ value ∈ added, value ∈ out) :
    added.foldl
        (fun out value => if value ∈ out then out else out ++ [value]) out =
      out := by
  induction added with
  | nil => rfl
  | cons first rest ih =>
    rw [foldl_cons, if_pos (held first mem_cons_self)]
    exact ih fun value isRest => held value (mem_cons_of_mem _ isRest)

/-- Of two creations' values, mine come behind theirs. -/
theorem mergeValues_created (name : String) (mine theirs : Slot) :
    mergeValues name (.own (.list [])) mine theirs =
      if (listOf name mine).foldl
          (fun out value => if value ∈ out then out else out ++ [value])
          (listOf name theirs) = [] then
        .absent
      else
        .own (.list ((listOf name mine).foldl
          (fun out value => if value ∈ out then out else out ++ [value])
          (listOf name theirs))) := by
  have noBase : listOf name (.own (.list [])) = [] := rfl
  unfold mergeValues
  simp [noBase]

/-- Merged by value, theirs stay as they are where mine adds none to a list of them. -/
theorem mergeValues_eq_theirs_iff (name : String) (mine : Slot) {theirs : Slot}
    (isHeld : theirs ≠ .absent) :
    mergeValues name (.own (.list [])) mine theirs = theirs ↔
      ∃ values,
        theirs = .own (.list values) ∧ values ≠ [] ∧
          ∀ value ∈ listOf name mine, value ∈ values := by
  rw [mergeValues_created]
  constructor
  · intro same
    split at same
    · exact absurd same.symm isHeld
    · rename_i notEmpty
      refine ⟨_, same.symm, notEmpty, fun value isMine => ?_⟩
      exact (mem_foldl_push _ _ value).mpr (.inr isMine)
  · rintro ⟨values, rfl, notEmpty, held⟩
    have pushed : _ = values := foldl_push_self held
    rw [listOf, pushed, if_neg notEmpty]

/-- Two creations leave an attribute as theirs where mine adds nothing to it. -/
theorem read_creationsOf_eq_iff {mine theirs : Attributes} (distinct : (theirs.map Prod.fst).Nodup)
    (notStamp : ¬ IsStamp name) (notInherited : ¬ Inherited name) :
    read (creationsOf mine theirs) name = read theirs name ↔
      AddsNothing name (read mine name) (read theirs name) := by
  rw [read_creationsOf distinct notInherited]
  unfold AddsNothing created
  simp only [if_neg notStamp]
  have notBuiltin := @read_ne_inherited mine name notInherited
  cases isMine : read mine name with
  | inherited => exact absurd isMine notBuiltin
  | absent => simp
  | own held =>
    rw [if_neg (by simp)]
    by_cases isHeld : read theirs name = .absent
    · simp [isHeld]
    · rw [if_neg isHeld]
      by_cases byValue : ByValue name (.own held) (read theirs name)
      · rw [if_pos byValue, Option.getD_some, mergeValues_eq_theirs_iff name (.own held) isHeld]
        simp [isHeld, byValue]
      · rw [if_neg byValue]
        simp [isHeld, byValue]

/-! ## Every merge -/

section

variable {toLowerCase : List Nat → List Nat}

theorem mergeEntry_of_collide {mine theirs : Entry}
    (differs : differ (uuidOf toLowerCase mine) (uuidOf toLowerCase theirs) = true) :
    mergeEntry toLowerCase none (some mine) (some theirs) = mergeCreations mine theirs := by
  unfold mergeEntry
  simp only [differs, if_true]

/-- Without a collision a whole-valued attribute is one side's. -/
theorem whole_of_not_collide {base mine theirs : Option Entry}
    (apart : ¬ Collide toLowerCase base mine theirs) {name : String} (isSingle : name ∈ single) :
    read (attributesOf
          (storedAfter theirs (mergeEntry toLowerCase base mine theirs))) name =
        read (attributesOf mine) name ∨
      read (attributesOf
          (storedAfter theirs (mergeEntry toLowerCase base mine theirs))) name =
        read (attributesOf theirs) name := by
  cases mine with
  | none => exact .inr rfl
  | some mine =>
    cases theirs with
    | none =>
      cases base with
      | none => exact .inl rfl
      | some base =>
        unfold mergeEntry
        simp only
        split
        · exact .inl rfl
        · exact .inr rfl
    | some theirs =>
      cases base with
      | none =>
        have same :
            ¬ differ (uuidOf toLowerCase mine) (uuidOf toLowerCase theirs) = true :=
          fun differs => apart ⟨rfl, mine, theirs, rfl, rfl, differs⟩
        unfold mergeEntry
        simp only [if_neg same]
        rw [attributesOf_mergeChanges]
        exact read_mergeAttributes_single _ _ _ isSingle
      | some base =>
        unfold mergeEntry
        simp only
        split
        · exact .inr rfl
        · split
          · exact .inl rfl
          · rw [attributesOf_mergeChanges]
            exact read_mergeAttributes_single _ _ _ isSingle

end

/-- Credentials are kept apart exactly where no second creation holds one that the first
does not. -/
theorem credentials_apart_iff (toLowerCase : List Nat → List Nat) (base mine theirs : Option Entry)
    (distinct : ((attributesOf theirs).map Prod.fst).Nodup) :
    CredentialsApart toLowerCase base mine theirs ↔
      CredentialsHeld toLowerCase base mine theirs := by
  have ofCollide
      (collides : Collide toLowerCase base mine theirs)
      {name : String}
      (isCredential : name ∈ single ++ credentialLists) :
      read (attributesOf
            (storedAfter theirs (mergeEntry toLowerCase base mine theirs)))
            name =
          read (attributesOf theirs) name ↔
        AddsNothing name (read (attributesOf mine) name) (read (attributesOf theirs) name) := by
    obtain ⟨rfl, mine', theirs', rfl, rfl, differs⟩ := collides
    obtain ⟨notStamp, notInherited⟩ := apart_of_credential isCredential
    rw [mergeEntry_of_collide differs, attributesOf_mergeCreations]
    exact read_creationsOf_eq_iff distinct notStamp notInherited
  constructor
  · intro apart collides name isCredential
    exact (ofCollide collides isCredential).mp (apart.collision collides name isCredential)
  · intro held
    have kept
        (collides : Collide toLowerCase base mine theirs)
        {name : String}
        (isCredential : name ∈ single ++ credentialLists) :=
      (ofCollide collides isCredential).mpr (held collides name isCredential)
    refine ⟨?_, fun collides name isCredential => kept collides isCredential⟩
    intro name isSingle
    by_cases collides : Collide toLowerCase base mine theirs
    · exact .inr (kept collides (mem_append_left _ isSingle))
    · exact whole_of_not_collide collides isSingle

/-! ## Two people at one name -/

/-- A person who was created at another node first. -/
def firstPerson : Entry where
  dn := "uid=d,ou=users"
  attributes := [("entryuuid", .list ["p-theirs"]), ("userpassword", .list ["theirs"])]
  createdAt := none
  modifiedAt := none
  origin := none

/-- A person with an app password, created here. -/
def secondPerson : Entry :=
  { firstPerson with
    attributes :=
      [("entryuuid", .list ["p-mine"]), ("userpassword", .list ["mine"]),
        ("stsapppassword", .list ["mine"])] }

/-- The same person without it. -/
def thirdPerson : Entry :=
  { firstPerson with
    attributes := [("entryuuid", .list ["p-mine"]), ("userpassword", .list ["mine"])] }

/-- Passwords are kept apart. -/
theorem thirdPerson_apart :
    CredentialsApart asciiLower none (some thirdPerson) (some firstPerson) := by
  refine (credentials_apart_iff asciiLower none (some thirdPerson)
    (some firstPerson) (by decide)).mpr fun _ name isCredential => ?_
  by_cases isPassword : name = "userpassword"
  · subst isPassword
    exact .inr ⟨by decide, fun byValue => absurd byValue (by decide +kernel)⟩
  · left
    obtain ⟨notStamp, notInherited⟩ := apart_of_credential isCredential
    rw [not_or] at notStamp
    refine read_absent_of_not_held notInherited fun member isMember => ?_
    rcases mem_cons.mp isMember with rfl | isMember
    · exact Ne.symm notStamp.1
    · rw [mem_singleton] at isMember
      subst isMember
      exact Ne.symm isPassword

/-- The second person's app password is the first's from then on. -/
theorem secondPerson_blends :
    ¬ CredentialsApart asciiLower none (some secondPerson) (some firstPerson) := by
  intro apart
  have kept :=
    apart.collision ⟨rfl, secondPerson, firstPerson, rfl, rfl, by decide +kernel⟩
      "stsapppassword" (by decide)
  revert kept
  decide +kernel

end IyaSts.DirectoryMerge
