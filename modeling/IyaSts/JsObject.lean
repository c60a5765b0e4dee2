import Mathlib.Data.List.Basic

namespace IyaSts.JsObject

/-!
# Reading a plain JavaScript object by a computed name

A plain object answers `object[name]` with its own property, or with what it
inherits from `Object.prototype`.  The inherited answer is never `undefined`
and never a value the program put there, so it is kept as a case of its own.
-/

open List

/-- The names every plain object inherits a value for. -/
def inheritedNames : List String :=
  ["constructor", "__defineGetter__", "__defineSetter__", "hasOwnProperty", "__lookupGetter__",
    "__lookupSetter__", "isPrototypeOf", "propertyIsEnumerable", "toString", "valueOf", "__proto__",
    "toLocaleString"]

/-- A name that every plain object answers to. -/
def Inherited (name : String) : Prop := name ∈ inheritedNames

instance (name : String) : Decidable (Inherited name) :=
  inferInstanceAs (Decidable (name ∈ inheritedNames))

/-- What reading a name off a plain object finds. -/
inductive Property (α : Type u) where
  | own (value : α)
  | inherited
  | absent
  deriving DecidableEq

/-- `object[name]`: the own property first, then the prototype's. -/
def read (members : List (String × α)) (name : String) : Property α :=
  match members.lookup name with
  | some value => .own value
  | none => if Inherited name then .inherited else .absent

/-- A name no object inherits reads as the own member or as nothing. -/
theorem read_of_not_inherited {members : List (String × α)} {name : String}
    (notInherited : ¬ Inherited name) :
    read members name =
      match members.lookup name with
      | some value => .own value
      | none => .absent := by
  unfold read
  cases members.lookup name with
  | some value => rfl
  | none => simp [notInherited]

variable {members : List (String × α)} {name other : String} {value held : α}

/-- An own property was put there. -/
theorem lookup_of_read_own (found : read members name = .own value) :
    members.lookup name = some value := by
  unfold read at found
  cases looked : members.lookup name with
  | some held =>
    simp only [looked, Property.own.injEq] at found
    rw [found]
  | none =>
    simp only [looked] at found
    split at found <;> cases found

/-- So it is one of the members. -/
theorem mem_of_read_own (found : read members name = .own value) : (name, value) ∈ members := by
  obtain ⟨before, after, shape, _⟩ := lookup_eq_some_iff.mp (lookup_of_read_own found)
  simp [shape]

/-- Nothing is found of a name that is neither own nor inherited. -/
theorem of_read_absent (found : read members name = .absent) :
    members.lookup name = none ∧ ¬ Inherited name := by
  unfold read at found
  cases looked : members.lookup name with
  | some held => simp [looked] at found
  | none =>
    rw [looked] at found
    simp only at found
    split at found
    · cases found
    · rename_i notInherited
      exact ⟨rfl, notInherited⟩

/-- What is inherited is found of names that are not own. -/
theorem of_read_inherited (found : read members name = .inherited) :
    members.lookup name = none ∧ Inherited name := by
  unfold read at found
  cases looked : members.lookup name with
  | some held => simp [looked] at found
  | none =>
    rw [looked] at found
    simp only at found
    split at found
    · rename_i isInherited
      exact ⟨rfl, isInherited⟩
    · cases found

/-! ## Writing and deleting a property -/

/--
`object[name] = value`.  On an object without a property of its own by that
name, `__proto__` sets the prototype and adds none.
-/
def assign (members : List (String × α)) (name : String) (value : α) : List (String × α) :=
  if (members.lookup name).isSome then
    members.map fun member => if member.1 = name then (name, value) else member
  else if name = "__proto__" then
    members
  else
    members ++ [(name, value)]

/-- `delete object[name]`. -/
def remove (members : List (String × α)) (name : String) : List (String × α) :=
  members.filter fun member => member.1 ≠ name

/-- Replacing one name's values leaves the other names as they read. -/
theorem lookup_map_other (isOther : other ≠ name) (members : List (String × α)) :
    (members.map fun member =>
        if member.1 = name then (name, value) else member).lookup other =
      members.lookup other := by
  induction members with
  | nil => rfl
  | cons member rest ih =>
    obtain ⟨first, held⟩ := member
    by_cases isFirst : first = name
    · subst isFirst
      have notFirst : (other == first) = false := by simpa using isOther
      simpa [lookup_cons, notFirst] using ih
    · simp only [map_cons, isFirst, if_false, lookup_cons, ih]

/-- Only the property that is written reads otherwise afterwards. -/
theorem lookup_assign (members : List (String × α))
    (writable : name ≠ "__proto__" ∨ (members.lookup name).isSome = true)
    (value : α) (other : String) :
    (assign members name value).lookup other =
      if other = name then some value else members.lookup other := by
  unfold assign
  by_cases isOwn : (members.lookup name).isSome = true
  · rw [if_pos isOwn]
    induction members with
    | nil => cases isOwn
    | cons member rest ih =>
      obtain ⟨first, held⟩ := member
      by_cases isFirst : first = name
      · subst isFirst
        by_cases isOther : other = first
        · simp [isOther]
        · have notFirst : (other == first) = false := by
            simpa using isOther
          simp only [map_cons, if_true, lookup_cons, notFirst, isOther, if_false]
          exact lookup_map_other isOther rest
      · have stillOwn : (rest.lookup name).isSome = true := by
          have notName : (name == first) = false := by simpa using Ne.symm isFirst
          simpa [lookup_cons, notName] using isOwn
        simp only [map_cons, isFirst, if_false, lookup_cons]
        rw [ih (.inr stillOwn) stillOwn]
        by_cases isOther : other = first
        · subst isOther
          simp [isFirst]
        · have notFirst : (other == first) = false := by
            simpa using isOther
          simp [notFirst]
  · rw [if_neg isOwn, if_neg (writable.resolve_right isOwn)]
    have absent : members.lookup name = none := Option.not_isSome_iff_eq_none.mp isOwn
    rw [lookup_append]
    by_cases isOther : other = name
    · subst isOther
      simp [absent]
    · have notName : (other == name) = false := by
        simpa using isOther
      simp [lookup_cons, notName, isOther]

/-- Writing a property leaves the others as they read. -/
theorem lookup_assign_other (members : List (String × α)) (isOther : other ≠ name) (value : α) :
    (assign members name value).lookup other = members.lookup other := by
  unfold assign
  split
  · exact lookup_map_other isOther members
  · split
    · rfl
    · have notName : (other == name) = false := by
        simpa using isOther
      simp [lookup_append, lookup_cons, notName]

/-- Setting the prototype of an object adds no property. -/
theorem assign_prototype (notOwn : members.lookup "__proto__" = none) (value : α) :
    assign members "__proto__" value = members := by
  simp [assign, notOwn]

/-- A deleted property reads as nothing of the object's own. -/
theorem lookup_remove (members : List (String × α)) (name other : String) :
    (remove members name).lookup other =
      if other = name then none else members.lookup other := by
  unfold remove
  induction members with
  | nil => simp
  | cons member rest ih =>
    obtain ⟨first, held⟩ := member
    by_cases isFirst : first = name
    · subst isFirst
      by_cases isOther : other = first
      · simpa [isOther] using ih
      · have notFirst : (other == first) = false := by
          simpa using isOther
        simpa [lookup_cons, notFirst, isOther] using ih
    · by_cases isOther : other = first
      · subst isOther
        simp [isFirst]
      · have notFirst : (other == first) = false := by
          simpa using isOther
        simpa [lookup_cons, notFirst, isFirst] using ih

/-- What is read after a property is written was there or is what is written. -/
theorem lookup_assign_cases (found : (assign members name value).lookup other = some held) :
    members.lookup other = some held ∨ (other = name ∧ held = value) := by
  by_cases isOther : other = name
  · subst isOther
    by_cases writable : other ≠ "__proto__" ∨ (members.lookup other).isSome = true
    · rw [lookup_assign members writable, if_pos rfl] at found
      cases found
      exact .inr ⟨rfl, rfl⟩
    · rw [not_or, not_not, Option.not_isSome_iff_eq_none] at writable
      obtain ⟨isProto, notOwn⟩ := writable
      subst isProto
      rw [assign_prototype notOwn] at found
      exact .inl found
  · rw [lookup_assign_other members isOther] at found
    exact .inl found

/-- The same of properties that are written one after another. -/
theorem lookup_foldl_assign_cases {written members : List (String × α)}
    (found :
      (written.foldl (fun out member => assign out member.1 member.2)
        members).lookup name = some held) :
    members.lookup name = some held ∨ (name, held) ∈ written := by
  induction written generalizing members with
  | nil => exact .inl found
  | cons member rest ih =>
    obtain ⟨first, value⟩ := member
    rcases ih found with wasHeld | isWritten
    · rcases lookup_assign_cases wasHeld with wasHeld | ⟨rfl, rfl⟩
      · exact .inl wasHeld
      · exact .inr mem_cons_self
    · exact .inr (mem_cons_of_mem _ isWritten)

/-- Leaving out names leaves the others as they read. -/
theorem lookup_filter_names (members : List (String × α)) (keep : String → Bool) (name : String) :
    (members.filter fun member => keep member.1).lookup name =
      if keep name then members.lookup name else none := by
  induction members with
  | nil => simp
  | cons member rest ih =>
    obtain ⟨first, held⟩ := member
    by_cases isFirst : name = first
    · subst isFirst
      by_cases kept : keep name = true
      · simp [kept]
      · simpa [kept] using ih
    · have notFirst : (name == first) = false := by
        simpa using isFirst
      by_cases kept : keep first = true
      · simpa [kept, lookup_cons, notFirst] using ih
      · simpa [kept, lookup_cons, notFirst] using ih

/-- Writing a property leaves the names distinct. -/
theorem nodup_assign (distinct : (members.map Prod.fst).Nodup) (name : String) (value : α) :
    ((assign members name value).map Prod.fst).Nodup := by
  unfold assign
  split
  · have sameNames :
        ((members.map fun member =>
            if member.1 = name then (name, value) else member).map Prod.fst) =
          members.map Prod.fst := by
      rw [map_map]
      refine map_congr_left fun member _ => ?_
      by_cases isName : member.1 = name
      · simp [isName]
      · simp [isName]
    rw [sameNames]
    exact distinct
  · rename_i notOwn
    split
    · exact distinct
    · have notHeld : name ∉ members.map Prod.fst := by
        intro isHeld
        obtain ⟨member, isMember, rfl⟩ := mem_map.mp isHeld
        have isSome : (members.lookup member.1).isSome = true := by
          rw [Option.isSome_iff_ne_none]
          intro absent
          have notSame := lookup_eq_none_iff.mp absent member isMember
          simp at notSame
        exact notOwn isSome
      rw [map_append]
      exact nodup_append.mpr ⟨distinct, by simp, fun other isOther last isLast => by
          obtain rfl := mem_singleton.mp isLast
          rintro rfl
          exact notHeld isOther⟩

/-- A property is written to another object, where there is a value to write. -/
def put (write : String × α → Option β) (out : List (String × β))
    (member : String × α) : List (String × β) :=
  match write member with
  | some value => assign out member.1 value
  | none => out

/-- Writing property after property leaves the names distinct. -/
theorem nodup_foldl_put (write : String × α → Option β)
    (members : List (String × α)) {out : List (String × β)} (distinct : (out.map Prod.fst).Nodup) :
    ((members.foldl (put write) out).map Prod.fst).Nodup := by
  induction members generalizing out with
  | nil => exact distinct
  | cons member rest ih =>
    rw [foldl_cons]
    refine ih ?_
    unfold put
    split
    · exact nodup_assign distinct _ _
    · exact distinct

/--
What is read after the properties of an object were written to another one, or
some of them, where none of their names was there before.
-/
theorem lookup_foldl_put {members : List (String × α)} {out : List (String × β)}
    (write : String × α → Option β) (distinct : (members.map Prod.fst).Nodup)
    (fresh : ∀ member ∈ members, out.lookup member.1 = none) (name : String) :
    (members.foldl (put write) out).lookup name =
      match members.lookup name with
      | some held => if name = "__proto__" then none else write (name, held)
      | none => out.lookup name := by
  induction members generalizing out with
  | nil => rfl
  | cons member rest ih =>
    obtain ⟨first, held⟩ := member
    obtain ⟨notLater, restDistinct⟩ := nodup_cons.mp distinct
    have isFresh := fresh (first, held) mem_cons_self
    have others : ∀ value : β, ∀ other ∈ rest, (assign out first value).lookup other.1 = none := by
      intro value other isLater
      have isOther : other.1 ≠ first := by
        rintro isFirst
        exact notLater (mem_map.mpr ⟨other, isLater, isFirst⟩)
      rw [lookup_assign_other out isOther]
      exact fresh other (mem_cons_of_mem _ isLater)
    have notInRest : rest.lookup first = none := by
      rw [lookup_eq_none_iff]
      intro other isLater
      rw [bne_iff_ne]
      intro isSame
      exact notLater (mem_map.mpr ⟨other, isLater, isSame.symm⟩)
    rw [foldl_cons, put]
    by_cases isFirst : name = first
    · subst isFirst
      cases written : write (name, held) with
      | none =>
        simp only
        rw [ih restDistinct
          (fun other isLater => fresh other (mem_cons_of_mem _ isLater)),
          notInRest]
        simp [isFresh, written]
      | some value =>
        simp only
        rw [ih restDistinct (others value), notInRest]
        by_cases isProto : name = "__proto__"
        · subst isProto
          rw [assign_prototype isFresh]
          simp [isFresh]
        · rw [lookup_assign out (.inl isProto)]
          simp [isProto, written]
    · have notFirst : (name == first) = false := by simpa using isFirst
      cases written : write (first, held) with
      | none =>
        simp only [lookup_cons, notFirst]
        exact ih restDistinct
          (fun other isLater => fresh other (mem_cons_of_mem _ isLater))
      | some value =>
        simp only [lookup_cons, notFirst]
        rw [ih restDistinct (others value), lookup_assign_other out isFirst]

end IyaSts.JsObject
