import IyaSts.TokenMacaroon
import Mathlib.Order.Lattice

namespace IyaSts.TokenMacaroon

/-!
# Appending caveats only narrows a macaroon

Minted caveats end the authority section, so every caveat a holder appends is
read as an attenuation: it leaves the model as it is and adds to a list of
which every element has to hold.
-/

open Json GnapAccess Fallible List

/-! ## The lists a caveat adds to -/

/-- The expiry of a caveat. -/
def Caveat.expiry : Caveat → Option Nat
  | .exp value => some value
  | _ => none

/-- The not-before time of a caveat. -/
def Caveat.notBefore : Caveat → Option Nat
  | .nbf value => some value
  | _ => none

/-- The audience of a caveat. -/
def Caveat.audience : Caveat → Option (List String)
  | .aud value => some value
  | _ => none

/-- The access of a caveat. -/
def Caveat.rights : Caveat → Option (List Json)
  | .access value => some value
  | _ => none

/-- What is read after these caveats were added to the lists alone. -/
structure Adds (before after : Progress) (caveats : List Caveat) : Prop where
  authority : after.authority = before.authority
  boundary : after.boundary = before.boundary
  exps : after.exps = before.exps ++ caveats.filterMap Caveat.expiry
  nbfs : after.nbfs = before.nbfs ++ caveats.filterMap Caveat.notBefore
  audience : after.audience = before.audience ++ caveats.filterMap Caveat.audience
  access : after.access = before.access ++ caveats.filterMap Caveat.rights

/-- No caveat adds nothing. -/
theorem Adds.none (progress : Progress) : Adds progress progress [] where
  authority := rfl
  boundary := rfl
  exps := (append_nil _).symm
  nbfs := (append_nil _).symm
  audience := (append_nil _).symm
  access := (append_nil _).symm

/-- One caveat that is pushed adds itself. -/
theorem adds_push (progress : Progress) (caveat : Caveat) :
    Adds progress (progress.push caveat) [caveat] := by
  cases caveat <;> constructor <;>
    simp [Progress.push, Caveat.expiry, Caveat.notBefore, Caveat.audience, Caveat.rights]

/-- Caveats added one after the other are added together. -/
theorem Adds.trans {first second third : Progress} {caveats more : List Caveat}
    (adds : Adds first second caveats) (thenAdds : Adds second third more) :
    Adds first third (caveats ++ more) where
  authority := thenAdds.authority.trans adds.authority
  boundary := thenAdds.boundary.trans adds.boundary
  exps := by rw [thenAdds.exps, adds.exps, filterMap_append, append_assoc]
  nbfs := by rw [thenAdds.nbfs, adds.nbfs, filterMap_append, append_assoc]
  audience := by rw [thenAdds.audience, adds.audience, filterMap_append, append_assoc]
  access := by rw [thenAdds.access, adds.access, filterMap_append, append_assoc]

section

variable (platform : Platform)

/-! ## The two sections -/

/-- These texts are these caveats. -/
def Parses (texts : List (Option String)) (caveats : List Caveat) : Prop :=
  List.Forall₂ (fun text caveat => text.bind (parseCaveat platform) = some caveat) texts caveats

/-- A round after the boundary adds one attenuating caveat, or refuses. -/
theorem readOne_after {index : Nat} {progress next : Progress} {text : Option String}
    (isAfter : progress.boundary.isSome = true)
    (isNext : readOne platform index progress text = .ok next) :
    ∃ caveat,
      text.bind (parseCaveat platform) = some caveat ∧
        caveat.kind ∈ attenuating ∧ Adds progress next [caveat] := by
  unfold readOne at isNext
  cases parsed : text.bind (parseCaveat platform) with
  | none =>
    rw [parsed] at isNext
    cases isNext
  | some caveat =>
    rw [parsed] at isNext
    simp only [isAfter, if_true] at isNext
    split at isNext
    · rename_i narrows
      cases isNext
      exact ⟨caveat, rfl, narrows, adds_push progress caveat⟩
    · cases isNext

/-- So every text after the boundary is an attenuating caveat. -/
theorem readEach_after {texts : List (Option String)} {index : Nat} {progress final : Progress}
    (isAfter : progress.boundary.isSome = true)
    (reads : readEach platform index progress texts = .ok final) :
    ∃ caveats,
      Parses platform texts caveats ∧
        (∀ caveat ∈ caveats, caveat.kind ∈ attenuating) ∧
        Adds progress final caveats := by
  induction texts generalizing index progress with
  | nil =>
    cases reads
    exact ⟨[], .nil, by simp, .none _⟩
  | cons text rest ih =>
    rw [readEach, bind_eq_ok_iff] at reads
    obtain ⟨next, isNext, reads⟩ := reads
    obtain ⟨caveat, isCaveat, narrows, adds⟩ := readOne_after platform isAfter isNext
    obtain ⟨caveats, areCaveats, allNarrow, thenAdds⟩ := ih (adds.boundary ▸ isAfter) reads
    refine ⟨caveat :: caveats, .cons isCaveat areCaveats, ?_, adds.trans thenAdds⟩
    intro one isOne
    rcases mem_cons.mp isOne with rfl | isLater
    · exact narrows
    · exact allNarrow one isLater

/-- Whoever holds an access is past the boundary. -/
def Bounded (progress : Progress) : Prop :=
  holds progress.authority .access = true → progress.boundary.isSome = true

/-- A round sets the boundary with the first access. -/
theorem readOne_bounded {index : Nat} {progress next : Progress} {text : Option String}
    (bounded : Bounded progress) (isNext : readOne platform index progress text = .ok next) :
    Bounded next := by
  by_cases isAfter : progress.boundary.isSome = true
  · obtain ⟨caveat, _, _, adds⟩ := readOne_after platform isAfter isNext
    intro _
    rw [adds.boundary]
    exact isAfter
  · unfold readOne at isNext
    cases parsed : text.bind (parseCaveat platform) with
    | none =>
      rw [parsed] at isNext
      cases isNext
    | some caveat =>
      rw [parsed] at isNext
      simp only [isAfter, Bool.false_eq_true, if_false] at isNext
      split at isNext
      · cases isNext
      · cases isNext
        have adds := adds_push (progress.authorise index caveat) caveat
        intro holdsAccess
        rw [adds.authority] at holdsAccess
        rw [adds.boundary]
        have notYet : holds progress.authority .access = false := by simpa using mt bounded isAfter
        have isAccess : caveat.slot = .access := by
          unfold holds at notYet holdsAccess
          rw [Progress.authorise, any_append, notYet] at holdsAccess
          simpa using holdsAccess
        have kindAccess : caveat.kind = .access := by
          unfold Caveat.slot at isAccess
          split at isAccess
          · cases isAccess
          · exact isAccess
        simp [Progress.authorise, kindAccess]

/-- Reading texts after others goes on from what those left. -/
theorem readEach_append (texts more : List (Option String)) (index : Nat) (progress : Progress) :
    readEach platform index progress (texts ++ more) =
      readEach platform index progress texts >>= fun next =>
        readEach platform (index + texts.length) next more := by
  induction texts generalizing index progress with
  | nil => rfl
  | cons text rest ih =>
    rw [cons_append, readEach, readEach]
    cases readOne platform index progress text with
    | error refusal => rfl
    | ok next =>
      have counted : index + (text :: rest).length = index + 1 + rest.length := by
        rw [length_cons]
        omega
      rw [counted]
      exact ih (index + 1) next

/-- A run from the start is bounded. -/
theorem readEach_bounded {texts : List (Option String)} {index : Nat}
    {progress final : Progress} (bounded : Bounded progress)
    (reads : readEach platform index progress texts = .ok final) :
    Bounded final := by
  induction texts generalizing index progress with
  | nil =>
    cases reads
    exact bounded
  | cons text rest ih =>
    rw [readEach, bind_eq_ok_iff] at reads
    obtain ⟨next, isNext, reads⟩ := reads
    exact ih (readOne_bounded platform bounded isNext) reads

/-! ## One reading of two lists -/

/-- A section with a model holds an access. -/
theorem holds_access_of_modelOf {authority : List Caveat} {jti : String} {model : TokenModel}
    (isModel : modelOf authority jti = some model) :
    holds authority .access = true := by
  unfold modelOf at isModel
  simp only [Option.bind_eq_bind, Option.bind_eq_some_iff] at isModel
  obtain ⟨_, _, _, _, access, isAccess, _⟩ := isModel
  obtain ⟨caveat, isCaveat, found⟩ := exists_of_findSome?_eq_some isAccess
  unfold holds
  rw [any_eq_true]
  refine ⟨caveat, isCaveat, ?_⟩
  cases caveat <;> simp at found
  rfl

/-- What a reading is made of. -/
theorem readCaveats_ok {texts : List (Option String)} {jti : String} {reading : Reading}
    (reads : readCaveats platform texts jti = .ok reading) :
    ∃ progress model,
      readEach platform 0 .empty texts = .ok progress ∧
        modelOf progress.authority jti = some model ∧
        validateModel platform.isUrl model = .ok reading.model ∧
        reading.audience = progress.audience ∧
        reading.access = progress.access ∧
        reading.exp = progress.exps.min? ∧
        reading.nbf = progress.nbfs.max? := by
  unfold readCaveats at reads
  rw [bind_eq_ok_iff] at reads
  obtain ⟨progress, isRead, reads⟩ := reads
  cases isModel : modelOf progress.authority jti with
  | none =>
    simp only [isModel] at reads
    cases reads
  | some model =>
    simp only [isModel] at reads
    cases isValid : validateModel platform.isUrl model with
    | error refusal =>
      simp only [isValid] at reads
      cases reads
    | ok valid =>
      simp only [isValid] at reads
      cases reads
      exact ⟨progress, model, isRead, isModel, isValid, rfl, rfl, rfl, rfl⟩

/--
A reading with these caveats more: the model is the same, the expiry the
minimum, the not-before time the maximum, and every list has to hold.
-/
structure Narrower (reading narrowed : Reading) (more : List Caveat) :
    Prop where
  model : narrowed.model = reading.model
  exp : narrowed.exp = (reading.exp.toList ++ more.filterMap Caveat.expiry).min?
  nbf : narrowed.nbf = (reading.nbf.toList ++ more.filterMap Caveat.notBefore).max?
  audience : narrowed.audience = reading.audience ++ more.filterMap Caveat.audience
  access : narrowed.access = reading.access ++ more.filterMap Caveat.rights

/-- The least of two lists is the least of the first's least and the second. -/
theorem min?_append_min? (first second : List Nat) :
    (first ++ second).min? = (first.min?.toList ++ second).min? := by
  cases first with
  | nil => simp
  | cons value rest =>
    show some ((rest ++ second).foldl min value) = some (second.foldl min (rest.foldl min value))
    rw [foldl_append]

/-- And the greatest likewise. -/
theorem max?_append_max? (first second : List Nat) :
    (first ++ second).max? = (first.max?.toList ++ second).max? := by
  cases first with
  | nil => simp
  | cons value rest =>
    show some ((rest ++ second).foldl max value) = some (second.foldl max (rest.foldl max value))
    rw [foldl_append]

/-- Texts after a list that is read are refused, or make it narrower. -/
theorem readCaveats_append {texts more : List (Option String)} {jti : String}
    {reading narrowed : Reading} (reads : readCaveats platform texts jti = .ok reading)
    (readsMore : readCaveats platform (texts ++ more) jti = .ok narrowed) :
    ∃ caveats,
      Parses platform more caveats ∧
        (∀ caveat ∈ caveats, caveat.kind ∈ attenuating) ∧
        Narrower reading narrowed caveats := by
  obtain ⟨progress, model, isRead, isModel, isValid, isAudience, isAccess,
    isExp, isNbf⟩ := readCaveats_ok platform reads
  obtain ⟨final, model', isRead', isModel', isValid', isAudience', isAccess',
    isExp', isNbf'⟩ := readCaveats_ok platform readsMore
  rw [readEach_append, isRead] at isRead'
  have bounded : Bounded progress :=
    readEach_bounded platform (by simp [Bounded, Progress.empty, holds]) isRead
  obtain ⟨caveats, areCaveats, allNarrow, adds⟩ :=
    readEach_after platform (bounded (holds_access_of_modelOf isModel)) isRead'
  refine ⟨caveats, areCaveats, allNarrow, ?_, ?_, ?_, ?_, ?_⟩
  · rw [adds.authority, isModel] at isModel'
    obtain rfl := Option.some.inj isModel'
    rw [isValid] at isValid'
    exact (Except.ok.inj isValid').symm
  · rw [isExp', isExp, adds.exps, ← min?_append_min?]
  · rw [isNbf', isNbf, adds.nbfs, ← max?_append_max?]
  · rw [isAudience', isAudience, adds.audience]
  · rw [isAccess', isAccess, adds.access]

/-! ## What is accepted -/

/-- The time check is satisfied within both limits. -/
theorem checkTime_eq_none_iff (exp : Expiry) (nbf : Option Nat) (now : Int) :
    checkTime exp nbf now = none ↔
      (∀ limit ∈ exp, now < limit) ∧ ∀ limit ∈ nbf, (limit : Int) ≤ now := by
  unfold checkTime
  cases exp with
  | none =>
    cases nbf with
    | none => simp
    | some limit => simp
  | some expiry =>
    by_cases expired : (expiry : Int) ≤ now
    · simp [expired]
    · have inTime : now < (expiry : Int) := by omega
      cases nbf with
      | none => simpa [expired] using inTime
      | some limit => simpa [expired] using fun _ => inTime

/-- The audience check is satisfied where every list names the audience. -/
theorem checkAudience_eq_none_iff (lists : List (List String)) (audience : Option String) :
    checkAudience lists audience = none ↔
      ∀ name ∈ audience, ∀ list ∈ lists, list = [] ∨ name ∈ list := by
  unfold checkAudience
  cases audience with
  | none => simp
  | some name =>
    simp only [ite_eq_left_iff, reduceCtorEq, imp_false, not_not, all_eq_true, Bool.decide_or,
      Bool.or_eq_true, decide_eq_true_eq, Option.mem_def, Option.some.injEq, forall_eq']

/-- The access check is satisfied where every list covers what is required. -/
theorem checkAccessFrom_satisfied_iff (required : Json) (index : Nat) (lists : List (List Json)) :
    checkAccessFrom required index lists = some none ↔
      ∀ list ∈ lists, accessCovers (.array 0 list) required = some true := by
  induction lists generalizing index with
  | nil => simp [checkAccessFrom]
  | cons list rest ih =>
    rw [checkAccessFrom, forall_mem_cons, ← ih (index + 1)]
    generalize accessCovers (.array 0 list) required = covers
    cases covers with
    | none => simp
    | some holds => cases holds <;> simp

/-- Nothing is asked of the access where nothing is required. -/
theorem checkAccess_satisfied_iff (lists : List (List Json)) (required : Json) :
    checkAccess lists required = some none ↔
      required = .null ∨ ∀ list ∈ lists, accessCovers (.array 0 list) required = some true := by
  by_cases isNull : required = .null
  · rw [isNull]
    simp [checkAccess]
  · have asked : checkAccess lists required = checkAccessFrom required 0 lists := by
      cases required with
      | null => exact absurd rfl isNull
      | boolean value => rfl
      | number numeral => rfl
      | string text => rfl
      | array identity elements => rfl
      | object identity members => rfl
    rw [asked, checkAccessFrom_satisfied_iff, or_iff_right isNull]

/-- A presentation is accepted where all four checks are satisfied. -/
theorem checkPresentation_satisfied_iff (nowSec : Int) (model : TokenModel)
    (context : Context) (reading : Reading) :
    checkPresentation nowSec model context
        ⟨some reading.exp, some reading.nbf, some reading.audience,
          some reading.access⟩ = some none ↔
      checkTime reading.exp reading.nbf (context.now.getD nowSec) = none ∧
        checkAudience reading.audience context.audience = none ∧
        checkBinding model.cnf context.presentedKey = none ∧
        checkAccess reading.access context.requiredAccess = some none := by
  unfold checkPresentation
  simp only [Option.getD_some]
  cases checkTime reading.exp reading.nbf (context.now.getD nowSec) with
  | some refusal => simp
  | none =>
    cases checkAudience reading.audience context.audience with
    | some refusal => simp
    | none =>
      cases checkBinding model.cnf context.presentedKey with
      | some refusal => simp
      | none => simp

/-- What a caveat asks of a presentation. -/
def Admits (caveat : Caveat) (now : Int) (context : Context) : Prop :=
  match caveat with
  | .exp limit => now < limit
  | .nbf limit => (limit : Int) ≤ now
  | .aud list => ∀ name ∈ context.audience, list = [] ∨ name ∈ list
  | .access list =>
    context.requiredAccess = .null ∨ accessCovers (.array 0 list) context.requiredAccess = some true
  | _ => False

/-- What `verify` accepts, it accepts of a reading that satisfies it. -/
theorem verifyMacaroon_ok_iff (macaroon : Macaroon) (chainHolds : Bool) (nowSec : Int)
    (context : Context) (verified : Verified) :
    verifyMacaroon platform macaroon chainHolds nowSec context =
        some (.ok verified) ↔
      ∃ jti reading,
        jtiOf macaroon.identifier = some jti ∧
          chainHolds = true ∧
          readCaveats platform macaroon.caveats jti = .ok reading ∧
          checkPresentation nowSec reading.model context
              ⟨some reading.exp, some reading.nbf, some reading.audience,
                some reading.access⟩ = some none ∧
          verified = ⟨reading.model, reading.attenuated⟩ := by
  unfold verifyMacaroon
  cases named : jtiOf macaroon.identifier with
  | none => simp
  | some jti =>
    cases chainHolds with
    | false => simp
    | true =>
      cases isRead : readCaveats platform macaroon.caveats jti with
      | error refusal => simp [isRead]
      | ok reading =>
        cases checked : checkPresentation nowSec reading.model
            context ⟨some reading.exp, some reading.nbf,
              some reading.audience, some reading.access⟩ with
        | none => simp [isRead, checked]
        | some refusal =>
          cases refusal with
          | some refused => simp [isRead, checked]
          | none => simp [isRead, checked, eq_comm]

/-- The least of a list is below everything in it. -/
theorem le_of_min? {values : List Nat} {value : Nat} (isValue : value ∈ values) :
    ∃ least ∈ values.min?, least ≤ value := by
  cases isLeast : values.min? with
  | none =>
    rw [List.min?_eq_none_iff.mp isLeast] at isValue
    cases isValue
  | some least => exact ⟨least, rfl, (List.min?_eq_some_iff.mp isLeast).2 value isValue⟩

/-- And the greatest above. -/
theorem le_of_max? {values : List Nat} {value : Nat} (isValue : value ∈ values) :
    ∃ greatest ∈ values.max?, value ≤ greatest := by
  cases isGreatest : values.max? with
  | none =>
    rw [List.max?_eq_none_iff.mp isGreatest] at isValue
    cases isValue
  | some greatest => exact ⟨greatest, rfl, (List.max?_eq_some_iff.mp isGreatest).2 value isValue⟩

/-- A presentation of the narrower reading satisfies the wider one. -/
theorem Narrower.satisfies {reading narrowed : Reading} {more : List Caveat}
    (narrower : Narrower reading narrowed more) {nowSec : Int} {context : Context}
    (satisfied :
      checkPresentation nowSec narrowed.model context
        ⟨some narrowed.exp, some narrowed.nbf, some narrowed.audience,
          some narrowed.access⟩ = some none) :
    checkPresentation nowSec reading.model context
      ⟨some reading.exp, some reading.nbf, some reading.audience,
        some reading.access⟩ = some none := by
  rw [checkPresentation_satisfied_iff] at satisfied ⊢
  rw [checkTime_eq_none_iff, checkAudience_eq_none_iff, checkAccess_satisfied_iff] at satisfied ⊢
  obtain ⟨⟨before, after⟩, named, bound, covered⟩ := satisfied
  refine ⟨⟨?_, ?_⟩, ?_, ?_, ?_⟩
  · intro limit isLimit
    obtain ⟨least, isLeast, isBelow⟩ :=
      @le_of_min? (reading.exp.toList ++ more.filterMap Caveat.expiry) limit
        (mem_append_left _ (Option.mem_toList.mpr isLimit))
    rw [← narrower.exp] at isLeast
    have inTime := before least isLeast
    omega
  · intro limit isLimit
    obtain ⟨greatest, isGreatest, isAbove⟩ :=
      @le_of_max? (reading.nbf.toList ++ more.filterMap Caveat.notBefore) limit
        (mem_append_left _ (Option.mem_toList.mpr isLimit))
    rw [← narrower.nbf] at isGreatest
    have inTime := after greatest isGreatest
    omega
  · intro name isName list isList
    apply named name isName list
    rw [narrower.audience]
    exact mem_append_left _ isList
  · rw [← narrower.model]
    exact bound
  · rcases covered with nothing | each
    · exact .inl nothing
    · right
      intro list isList
      apply each list
      rw [narrower.access]
      exact mem_append_left _ isList

/-- And every caveat that was appended admits it. -/
theorem Narrower.admits {reading narrowed : Reading} {more : List Caveat}
    (narrower : Narrower reading narrowed more)
    (allNarrow : ∀ caveat ∈ more, caveat.kind ∈ attenuating) {nowSec : Int} {context : Context}
    (satisfied :
      checkPresentation nowSec narrowed.model context
        ⟨some narrowed.exp, some narrowed.nbf, some narrowed.audience,
          some narrowed.access⟩ = some none) :
    ∀ caveat ∈ more, Admits caveat (context.now.getD nowSec) context := by
  rw [checkPresentation_satisfied_iff, checkTime_eq_none_iff,
    checkAudience_eq_none_iff, checkAccess_satisfied_iff] at satisfied
  obtain ⟨⟨before, after⟩, named, _, covered⟩ := satisfied
  intro caveat isCaveat
  have isAttenuating := allNarrow caveat isCaveat
  cases caveat with
  | exp limit =>
    obtain ⟨least, isLeast, isBelow⟩ :=
      @le_of_min? (reading.exp.toList ++ more.filterMap Caveat.expiry) limit
        (mem_append_right _ (mem_filterMap.mpr ⟨_, isCaveat, rfl⟩))
    rw [← narrower.exp] at isLeast
    have inTime := before least isLeast
    show _ < (limit : Int)
    omega
  | nbf limit =>
    obtain ⟨greatest, isGreatest, isAbove⟩ :=
      @le_of_max? (reading.nbf.toList ++ more.filterMap Caveat.notBefore)
        limit (mem_append_right _ (mem_filterMap.mpr ⟨_, isCaveat, rfl⟩))
    rw [← narrower.nbf] at isGreatest
    have inTime := after greatest isGreatest
    show (limit : Int) ≤ _
    omega
  | aud list =>
    intro name isName
    apply named name isName list
    rw [narrower.audience]
    exact mem_append_right _ (mem_filterMap.mpr ⟨_, isCaveat, rfl⟩)
  | access list =>
    rcases covered with nothing | each
    · exact .inl nothing
    · right
      apply each list
      rw [narrower.access]
      exact mem_append_right _ (mem_filterMap.mpr ⟨_, isCaveat, rfl⟩)
  | iss value => simp [Caveat.kind, attenuating] at isAttenuating
  | iat value => simp [Caveat.kind, attenuating] at isAttenuating
  | sub value => simp [Caveat.kind, attenuating] at isAttenuating
  | client value => simp [Caveat.kind, attenuating] at isAttenuating
  | bearer => simp [Caveat.kind, attenuating] at isAttenuating
  | cnf value => simp [Caveat.kind, attenuating] at isAttenuating
  | flags value => simp [Caveat.kind, attenuating] at isAttenuating
  | label value => simp [Caveat.kind, attenuating] at isAttenuating
  | grant value => simp [Caveat.kind, attenuating] at isAttenuating
  | act value => simp [Caveat.kind, attenuating] at isAttenuating

/-- What can be minted reads back. -/
theorem caveatsFor_reads {model : TokenModel} {caveats : List String}
    (minted : caveatsFor platform model = .ok caveats) :
    ∃ reading, readCaveats platform (caveats.map some) model.jti = .ok reading := by
  unfold caveatsFor at minted
  simp only at minted
  cases isRead : readCaveats platform ((spell platform model).map some)
      model.jti with
  | error refusal =>
    rw [isRead] at minted
    cases minted
  | ok reading =>
    rw [isRead] at minted
    simp only at minted
    split at minted
    · cases minted
      exact ⟨reading, isRead⟩
    · cases minted

/-- A macaroon of a token's identifier. -/
def macaroonOf (jti : String) (caveats : List (Option String)) : Macaroon :=
  ⟨some (identifierLead ++ jti), caveats⟩

/-- The identifier of a token names it and no other. -/
theorem jti_of_identifier {jti named : String}
    (isNamed : jtiOf (some (identifierLead ++ jti)) = some named) :
    named = jti := by
  unfold jtiOf at isNamed
  rw [Option.bind_some, String.toList_append, List.dropPrefix?_append_of_beq _ (by simp)] at isNamed
  split at isNamed
  · rename_i first rest isText
    cases isNamed
    rw [← Option.some.inj isText]
    exact String.ofList_toList
  · cases isNamed

/--
Whatever a holder appends to a minted list, in any text, order or number: the
reader refuses it, or reads the same model with no wider limits; and whatever
the longer token is accepted for, the minted one is accepted for, and every
appended caveat admits.
-/
theorem attenuation_narrows {model : TokenModel} {caveats : List String}
    (minted : caveatsFor platform model = .ok caveats) (more : List (Option String)) :
    ∃ reading,
      readCaveats platform (caveats.map some) model.jti = .ok reading ∧
        ((∃ refusal,
          readCaveats platform (caveats.map some ++ more) model.jti = .error refusal) ∨
          ∃ narrowed appended,
            readCaveats platform (caveats.map some ++ more) model.jti =
              .ok narrowed ∧
              Parses platform more appended ∧
              Narrower reading narrowed appended) ∧
        ∀ chainHolds nowSec context verified,
          verifyMacaroon platform
              (macaroonOf model.jti (caveats.map some ++ more)) chainHolds
              nowSec context = some (.ok verified) →
            (∃ original,
              verifyMacaroon platform
                  (macaroonOf model.jti (caveats.map some)) true nowSec
                  context = some (.ok original) ∧
                original.model = verified.model) ∧
              ∃ appended,
                Parses platform more appended ∧
                  ∀ caveat ∈ appended, Admits caveat (context.now.getD nowSec) context := by
  obtain ⟨reading, isRead⟩ := caveatsFor_reads platform minted
  refine ⟨reading, isRead, ?_, ?_⟩
  · cases isReadMore : readCaveats platform (caveats.map some ++ more)
        model.jti with
    | error refusal => exact .inl ⟨refusal, rfl⟩
    | ok narrowed =>
      obtain ⟨appended, parses, _, narrower⟩ := readCaveats_append platform isRead isReadMore
      exact .inr ⟨narrowed, appended, rfl, parses, narrower⟩
  · intro chainHolds nowSec context verified accepted
    rw [verifyMacaroon_ok_iff] at accepted
    obtain ⟨jti, narrowed, named, _, isReadMore, satisfied, rfl⟩ := accepted
    obtain rfl := jti_of_identifier named
    obtain ⟨appended, parses, allNarrow, narrower⟩ := readCaveats_append platform isRead isReadMore
    refine ⟨⟨⟨reading.model, reading.attenuated⟩, ?_, narrower.model.symm⟩,
      appended, parses, narrower.admits allNarrow satisfied⟩
    rw [verifyMacaroon_ok_iff]
    exact ⟨_, reading, named, rfl, isRead, narrower.satisfies satisfied, rfl⟩

end

/-- A platform that knows one access array and one issuer. -/
def onePlatform : Platform where
  stringify _ := "[\"read\"]"
  parse text := if text = "[\"read\"]" then some (.array 0 [.string "read"]) else none
  toBase64url _ := "WyJyZWFkIl0"
  roundTrip text := text
  fromBase64url text := if text = "WyJyZWFkIl0" then "[\"read\"]" else ""
  isUrl text := text = "https://as.example"

/-- A bearer token that expires at 2000. -/
def bearerToken : TokenModel where
  jti := "t1"
  iss := "https://as.example"
  sub := none
  aud := []
  instanceId := "c1"
  access := [.string "read"]
  flags := ["bearer"]
  cnf := none
  iat := 1000
  nbf := none
  exp := 2000
  label := none
  act := none
  grant := none

/-- Its caveats. -/
def bearerCaveats : List String :=
  ["gnap:iss=https://as.example", "gnap:iat=1000", "gnap:client=c1", "gnap:bearer",
    "gnap:flags=bearer", "gnap:exp<2000", "gnap:access=WyJyZWFkIl0"]

/-- An earlier expiry appended to it narrows it. -/
theorem attenuation_narrows_of_bearer :
    ∃ reading,
      readCaveats onePlatform (bearerCaveats.map some) "t1" = .ok reading ∧
        ∃ narrowed appended,
          readCaveats onePlatform
              (bearerCaveats.map some ++ [some "gnap:exp<1500"]) "t1" =
            .ok narrowed ∧
            Parses onePlatform [some "gnap:exp<1500"] appended ∧
            Narrower reading narrowed appended := by
  have isSpelt : spell onePlatform bearerToken = bearerCaveats := by decide +kernel
  have isRead :
      readCaveats onePlatform (bearerCaveats.map some) bearerToken.jti =
        .ok ⟨bearerToken, [], [[.string "read"]], some 2000, none, false⟩ := by
    rfl
  have minted : caveatsFor onePlatform bearerToken = .ok bearerCaveats := by
    unfold caveatsFor
    simp only [isSpelt, isRead, if_true]
  obtain ⟨reading, reads, narrows, _⟩ :=
    attenuation_narrows onePlatform minted [some "gnap:exp<1500"]
  rcases narrows with ⟨refusal, refused⟩ | narrower
  · have isReadMore :
        readCaveats onePlatform
            (bearerCaveats.map some ++ [some "gnap:exp<1500"])
            bearerToken.jti =
          .ok ⟨bearerToken, [], [[.string "read"]], some 1500, none, true⟩ := by
      rfl
    rw [isReadMore] at refused
    cases refused
  · exact ⟨reading, reads, narrower⟩

end IyaSts.TokenMacaroon
