import IyaSts.AuthorizationDetailsNarrows
import Mathlib.Data.List.Induction

namespace IyaSts.AuthorizationDetails

/-!
# One Allow, one authorization

A run of Allows and of the requests that spend them.  What is spent was
allowed before by the same person, for the same client and for details that
say the same, and was not spent in between, as long as names do not run into
each other and the details are plain.
-/

open Json JsonValue List

/-! ## Runs -/

/-- A person, a client and the details between them. -/
structure Asked where
  username : String
  clientId : String
  details : List Detail

/-- A call of `noteConsented` or of `consumeConsent`. -/
inductive Call where
  | note (asked : Asked) (now pendingTtlS : Int) (lowered : Option (List Detail))
  | consume (asked : Asked) (now : Int)

/-- What a call is about. -/
def Call.asked : Call → Asked
  | .note asked _ _ _ => asked
  | .consume asked _ => asked

/-- When a call is made. -/
def Call.now : Call → Int
  | .note _ now _ _ => now
  | .consume _ now => now

/-- Two calls about one person, one client and details that say the same. -/
def Asked.Same (asked other : Asked) : Prop :=
  asked.username = other.username ∧ asked.clientId = other.clientId ∧
    JsonValue.Same (.array (asked.details.map Detail.value))
      (.array (other.details.map Detail.value))

section

variable (digest : String → String)

/-- The key a call is made under. -/
def Asked.key (asked : Asked) : String :=
  consentKey asked.username asked.clientId (digestOf digest asked.details)

/-- What is recorded after a call. -/
def after (consented : Consented) : Call → Consented
  | .note asked now pendingTtlS lowered =>
    noteConsented consented now pendingTtlS asked.username asked.clientId
      (digestOf digest asked.details) lowered
  | .consume asked now =>
    (consumeConsent consented now asked.username asked.clientId (digestOf digest asked.details)).2

/-- What is recorded after a run of calls. -/
def recorded (calls : List Call) : Consented := calls.foldl (after digest) []

/-- What a call of `consumeConsent` answers after a run of calls. -/
def answer (earlier : List Call) (asked : Asked) (now : Int) : Option (Option (List Detail)) :=
  (consumeConsent (recorded digest earlier) now asked.username
    asked.clientId (digestOf digest asked.details)).1

end

/-! ## What is recorded was allowed -/

section

variable {digest : String → String}

/--
An entry is an Allow of its key, with no later call that is made under it.
-/
def Recorded (digest : String → String) (calls : List Call) (key : String) (held : Held) : Prop :=
  ∃ before between asked now pendingTtlS,
    calls = before ++ .note asked now pendingTtlS held.lowered :: between ∧
      asked.key digest = key ∧
      held.expires = now + consentTtlMs pendingTtlS ∧
      ∀ call ∈ between, call.asked.key digest ≠ key

variable {calls : List Call} {call : Call} {first other rest rest' : List Char}

/-- A call under another key leaves an Allow recorded. -/
theorem Recorded.concat {key : String} {held : Held} (isRecorded : Recorded digest calls key held)
    (otherKey : call.asked.key digest ≠ key) :
    Recorded digest (calls ++ [call]) key held := by
  obtain ⟨before, between, asked, now, ttl, shape, isKey, expires, none⟩ := isRecorded
  refine ⟨before, between ++ [call], asked, now, ttl, ?_, isKey, expires, ?_⟩
  · rw [shape, append_assoc, cons_append]
  · intro other isOther
    rcases mem_append.mp isOther with isBetween | isLast
    · exact none other isBetween
    · rw [mem_singleton.mp isLast]
      exact otherKey

/-- One call: what is recorded after it is recorded of it or of a call before. -/
theorem recorded_step {consented : Consented}
    (areRecorded : ∀ entry ∈ consented, Recorded digest calls entry.1 entry.2) (call : Call) :
    ∀ entry ∈ after digest consented call, Recorded digest (calls ++ [call]) entry.1 entry.2 := by
  intro entry isEntry
  cases call with
  | note asked now ttl lowered =>
    rw [after, noteConsented] at isEntry
    rcases mem_append.mp isEntry with isOld | isNew
    · obtain ⟨isLive, otherKey⟩ := mem_filter.mp isOld
      have wasHeld := (mem_filter.mp isLive).1
      apply (areRecorded entry wasHeld).concat
      intro sameKey
      rw [decide_eq_true_eq] at otherKey
      exact otherKey sameKey.symm
    · rw [mem_singleton.mp isNew]
      exact ⟨calls, [], asked, now, ttl, rfl, rfl, rfl, fun _ isNone => nomatch isNone⟩
  | consume asked now =>
    rw [after, consumeConsent] at isEntry
    split at isEntry
    · rename_i isAbsent
      apply (areRecorded entry isEntry).concat
      intro sameKey
      rw [lookup_eq_none_iff] at isAbsent
      have differ := isAbsent entry isEntry
      rw [bne_iff_ne] at differ
      exact differ sameKey
    · obtain ⟨wasHeld, otherKey⟩ := mem_filter.mp isEntry
      apply (areRecorded entry wasHeld).concat
      intro sameKey
      rw [decide_eq_true_eq] at otherKey
      exact otherKey sameKey.symm

/-- Whatever is recorded after a run was allowed in it. -/
theorem recorded_run (calls : List Call) :
    ∀ entry ∈ recorded digest calls, Recorded digest calls entry.1 entry.2 := by
  induction calls using List.reverseRecOn with
  | nil =>
    intro entry isEntry
    cases isEntry
  | append_singleton calls call ih =>
    rw [recorded, foldl_append]
    exact recorded_step ih call

/-- An answer is an entry that is still live. -/
theorem held_of_answer {earlier : List Call} {asked : Asked} {now : Int}
    {lowered : Option (List Detail)} (answered : answer digest earlier asked now = some lowered) :
    ∃ held,
      (asked.key digest, held) ∈ recorded digest earlier ∧
        now ≤ held.expires ∧ held.lowered = lowered := by
  unfold answer consumeConsent at answered
  simp only at answered
  split at answered
  · cases answered
  · rename_i held isHeld
    split at answered
    · rename_i isLive
      rw [Option.some.injEq] at answered
      obtain ⟨before, rest, shape, _⟩ := lookup_eq_some_iff.mp isHeld
      refine ⟨held, ?_, isLive, answered⟩
      rw [shape]
      exact mem_append_right _ mem_cons_self
    · cases answered

/-! ## What a key is the key of -/

/-- Where one of two texts has no space, what follows a space is known. -/
theorem space_append_inj (noSpace : ' ' ∉ first) (otherNoSpace : ' ' ∉ other)
    (same : first ++ ' ' :: rest = other ++ ' ' :: rest') :
    first = other ∧ rest = rest' := by
  induction first generalizing other with
  | nil =>
    cases other with
    | nil =>
      rw [nil_append, nil_append, List.cons.injEq] at same
      exact ⟨rfl, same.2⟩
    | cons char others =>
      rw [nil_append, cons_append, List.cons.injEq] at same
      rw [mem_cons, not_or] at otherNoSpace
      exact absurd same.1 otherNoSpace.1
  | cons char chars ih =>
    rw [mem_cons, not_or] at noSpace
    cases other with
    | nil =>
      rw [nil_append, cons_append, List.cons.injEq] at same
      exact absurd same.1.symm noSpace.1
    | cons char' others =>
      rw [mem_cons, not_or] at otherNoSpace
      rw [cons_append, cons_append, List.cons.injEq] at same
      obtain ⟨sameFirst, sameRest⟩ := ih noSpace.2 otherNoSpace.2 same.2
      exact ⟨by rw [same.1, sameFirst], sameRest⟩

/-- The same from the end. -/
theorem append_space_inj (noSpace : ' ' ∉ rest) (otherNoSpace : ' ' ∉ rest')
    (same : first ++ ' ' :: rest = other ++ ' ' :: rest') :
    first = other ∧ rest = rest' := by
  have reversed := congrArg List.reverse same
  rw [reverse_append, reverse_append, reverse_cons, reverse_cons,
    append_assoc, append_assoc, singleton_append, singleton_append] at reversed
  obtain ⟨sameRest, sameFirst⟩ :=
    space_append_inj (by simpa using noSpace) (by simpa using otherNoSpace) reversed
  exact ⟨reverse_inj.mp sameFirst, reverse_inj.mp sameRest⟩

/--
No username of the calls holds a space or no client identifier does, and no
detail holds a member `__proto__` or an infinite number.
-/
def Separable (calls : List Call) : Prop :=
  ((∀ call ∈ calls, ' ' ∉ call.asked.username.toList) ∨
      ∀ call ∈ calls, ' ' ∉ call.asked.clientId.toList) ∧
    ∀ call ∈ calls, ∀ detail ∈ call.asked.details, detail.value.plain = true

/-- The details of a separable run are plain, as an array too. -/
theorem Separable.plain (separable : Separable calls) (isCall : call ∈ calls) :
    (JsonValue.array (call.asked.details.map Detail.value)).plain = true := by
  rw [JsonValue.plain, plainElements_iff]
  intro element isElement
  obtain ⟨detail, isDetail, rfl⟩ := mem_map.mp isElement
  exact separable.2 call isCall detail isDetail

/-- Calls of one key are about the same. -/
theorem same_of_key (injective : Function.Injective digest)
    (oneWord : ∀ text, ' ' ∉ (digest text).toList) (separable : Separable calls) {call other : Call}
    (isCall : call ∈ calls) (isOther : other ∈ calls)
    (sameKey : call.asked.key digest = other.asked.key digest) :
    call.asked.Same other.asked := by
  have chars := congrArg String.toList sameKey
  have spelled (asked : Asked) :
      (asked.key digest).toList =
        (asked.username.toList ++ ' ' :: asked.clientId.toList) ++
          ' ' :: (digestOf digest asked.details).toList := by
    simp [Asked.key, consentKey, String.toList_append]
  rw [spelled, spelled] at chars
  obtain ⟨sameNames, sameDigest⟩ := append_space_inj (oneWord _) (oneWord _) chars
  have sameBoth :
      call.asked.username.toList = other.asked.username.toList ∧
        call.asked.clientId.toList = other.asked.clientId.toList := by
    rcases separable.1 with noSpace | noSpace
    · exact space_append_inj (noSpace call isCall) (noSpace other isOther) sameNames
    · exact append_space_inj (noSpace call isCall) (noSpace other isOther) sameNames
  exact
    ⟨String.toList_inj.mp sameBoth.1, String.toList_inj.mp sameBoth.2,
      same_of_canonicalText (separable.plain isCall) (separable.plain isOther)
        (injective (String.toList_inj.mp sameDigest))⟩

/-- Calls about the same have one key. -/
theorem key_of_same {calls : List Call} (separable : Separable calls) {call other : Call}
    (isCall : call ∈ calls) (isOther : other ∈ calls) (same : call.asked.Same other.asked) :
    call.asked.key digest = other.asked.key digest := by
  obtain ⟨sameUser, sameClient, sameDetails⟩ := same
  have sameText :
      canonicalText (.array (call.asked.details.map Detail.value)) =
        canonicalText (.array (other.asked.details.map Detail.value)) := by
    rw [canonicalText, canonicalText, canonical_of_plain _ (separable.plain isCall),
      canonical_of_plain _ (separable.plain isOther), sameDetails]
  rw [Asked.key, Asked.key, digestOf, digestOf, sameUser, sameClient, sameText]

end

/--
What a call of `consumeConsent` answers was allowed before it, within the
lifetime, and no call about the same came in between.
-/
def AllowedOnce (earlier : List Call) (asked : Asked) (now : Int)
    (lowered : Option (List Detail)) : Prop :=
  ∃ before between noted allowedAt pendingTtlS,
    earlier =
        before ++ .note noted allowedAt pendingTtlS lowered :: between ∧
      noted.Same asked ∧
      allowedAt ≤ now ∧ now ≤ allowedAt + consentTtlMs pendingTtlS ∧
      ∀ call ∈ between, ¬call.asked.Same asked

/--
Of the calls of a run, one digest is of details that say the same, and one
entry is of one person and one client.
-/
def KeysApart (digest : String → String) (calls : List Call) : Prop :=
  ∀ call ∈ calls, ∀ other ∈ calls,
    (digestOf digest call.asked.details =
        digestOf digest other.asked.details →
      JsonValue.Same (.array (call.asked.details.map Detail.value))
        (.array (other.asked.details.map Detail.value))) ∧
    (call.asked.key digest = other.asked.key digest →
      call.asked.username = other.asked.username ∧ call.asked.clientId = other.asked.clientId)

/-- One Allow is one authorization, in every run of separable calls. -/
theorem consumeConsent_allowedOnce (digest : String → String)
    (injective : Function.Injective digest) (oneWord : ∀ text, ' ' ∉ (digest text).toList)
    (earlier : List Call) (asked : Asked) (now : Int)
    (separable : Separable (earlier ++ [.consume asked now]))
    (inOrder :
      (earlier ++ [Call.consume asked now]).Pairwise fun first second => first.now ≤ second.now) :
    KeysApart digest (earlier ++ [.consume asked now]) ∧
      ∀ lowered, answer digest earlier asked now = some lowered →
        AllowedOnce earlier asked now lowered := by
  have isLast :
      Call.consume asked now ∈ earlier ++ [Call.consume asked now] :=
    mem_append_right _ (mem_singleton_self _)
  constructor
  · intro call isCall other isOther
    constructor
    · intro sameDigest
      exact
        same_of_canonicalText (separable.plain isCall)
          (separable.plain isOther) (injective sameDigest)
    · intro sameKey
      have same := same_of_key injective oneWord separable isCall isOther sameKey
      exact ⟨same.1, same.2.1⟩
  · intro lowered answered
    obtain ⟨held, isHeld, isLive, rfl⟩ := held_of_answer answered
    obtain ⟨before, between, noted, allowedAt, ttl, shape, isKey, expires,
      none⟩ := recorded_run earlier _ isHeld
    have isNote :
        Call.note noted allowedAt ttl held.lowered ∈ earlier ++ [Call.consume asked now] := by
      simp [shape]
    refine ⟨before, between, noted, allowedAt, ttl, shape, ?_, ?_, ?_, ?_⟩
    · exact same_of_key injective oneWord separable isNote isLast isKey
    · rw [shape, append_assoc, cons_append] at inOrder
      have afterNote := (pairwise_append.mp inOrder).2.1
      rw [pairwise_cons] at afterNote
      have isBetween : Call.consume asked now ∈ between ++ [.consume asked now] :=
        mem_append_right _ (mem_singleton_self _)
      have isLater := afterNote.1 _ isBetween
      rwa [Call.now, Call.now] at isLater
    · rw [← expires]
      exact isLive
    · intro call isBetween same
      have isCall : call ∈ earlier ++ [Call.consume asked now] := by simp [shape, isBetween]
      have sameKey := @key_of_same digest _ separable call (.consume asked now) isCall isLast same
      exact none call isBetween sameKey

/-- An Allow of one payment, and the request that spends it. -/
def allowedPayment : Asked where
  username := "alice"
  clientId := "shop"
  details := [payment]

/-- A digest of one word: each character's number, and a stroke. -/
def wordDigest (text : String) : String :=
  String.ofList
    (text.toList.flatMap fun char => List.replicate char.toNat '1' ++ ['0'])

theorem wordDigest_injective : Function.Injective wordDigest := by
  have charsInj
      (chars : List Char) :
      ∀ others : List Char,
        (chars.flatMap fun char => List.replicate char.toNat '1' ++ ['0']) =
            (others.flatMap fun char =>
              List.replicate char.toNat '1' ++ ['0']) →
          chars = others := by
    induction chars with
    | nil =>
      intro others same
      cases others with
      | nil => rfl
      | cons other rest => simp at same
    | cons char rest ih =>
      intro others same
      cases others with
      | nil => simp at same
      | cons other others =>
        rw [flatMap_cons, flatMap_cons, append_assoc, append_assoc] at same
        have runs :
            ∀ first second (tail tail' : List Char),
              List.replicate first '1' ++ ('0' :: tail) =
                  List.replicate second '1' ++ ('0' :: tail') →
                first = second ∧ tail = tail' := by
          intro first
          induction first with
          | zero =>
            intro second tail tail' same
            cases second with
            | zero => simpa using same
            | succ second => simp [replicate_succ] at same
          | succ first ih =>
            intro second tail tail' same
            cases second with
            | zero => simp [replicate_succ] at same
            | succ second =>
              rw [replicate_succ, replicate_succ, cons_append, cons_append,
                List.cons.injEq] at same
              obtain ⟨sameCount, sameTail⟩ := ih second tail tail' same.2
              exact ⟨by rw [sameCount], sameTail⟩
        obtain ⟨sameCode, sameRest⟩ := runs _ _ _ _ same
        have sameChar : char = other := by rw [← Char.ofNat_toNat char, sameCode, Char.ofNat_toNat]
        rw [sameChar, ih others sameRest]
  intro text other same
  exact
    String.toList_inj.mp (charsInj _ _ (by simpa [wordDigest] using congrArg String.toList same))


theorem wordDigest_oneWord (text : String) : ' ' ∉ (wordDigest text).toList := by
  intro isHeld
  rw [wordDigest, String.toList_ofList, mem_flatMap] at isHeld
  obtain ⟨char, _, isHeld⟩ := isHeld
  rcases mem_append.mp isHeld with isStroke | isEnd
  · exact absurd (eq_of_mem_replicate isStroke) (by decide)
  · exact absurd (mem_singleton.mp isEnd) (by decide)

theorem consumed_allowedPayment :
    AllowedOnce [.note allowedPayment 0 0 none] allowedPayment 1 none := by
  have separable :
      Separable ([Call.note allowedPayment 0 0 none] ++ [.consume allowedPayment 1]) := by
    constructor
    · left
      intro call isCall
      rw [singleton_append, mem_cons, mem_singleton] at isCall
      rcases isCall with rfl | rfl <;> decide
    · intro call isCall
      rw [singleton_append, mem_cons, mem_singleton] at isCall
      rcases isCall with rfl | rfl <;>
        exact forall_mem_singleton.mpr (by decide +kernel)
  have inOrder :
      ([Call.note allowedPayment 0 0 none] ++
          [Call.consume allowedPayment 1]).Pairwise
        fun first second => first.now ≤ second.now := by
    simp [Call.now]
  have answered :
      answer wordDigest [.note allowedPayment 0 0 none] allowedPayment 1 = some none := by
    simp [answer, recorded, after, noteConsented, consumeConsent, consentTtlMs]
  exact
    (consumeConsent_allowedOnce wordDigest wordDigest_injective
      wordDigest_oneWord [.note allowedPayment 0 0 none] allowedPayment 1
      separable inOrder).2 none answered

/-- The same details, asked for by another client for another person. -/
def shiftedPayment (username clientId : String) : Asked where
  username
  clientId
  details := [payment]

/-- An Allow of one person is spent for another one of another client. -/
theorem consumeConsent_crosses :
    ¬∀ digest : String → String,
      Function.Injective digest →
        (∀ text, ' ' ∉ (digest text).toList) →
          ∀ earlier asked now lowered,
            (earlier ++ [Call.consume asked now]).Pairwise
                (fun first second => first.now ≤ second.now) →
              answer digest earlier asked now = some lowered →
                AllowedOnce earlier asked now lowered := by
  intro always
  have sameKey :
      (shiftedPayment "anna maria" "shop").key wordDigest =
        (shiftedPayment "anna" "maria shop").key wordDigest := by
    simp only [Asked.key, consentKey, shiftedPayment]
    rw [show "anna maria" ++ " " ++ "shop" = "anna" ++ " " ++ "maria shop" by decide +kernel]
  have answered :
      answer wordDigest
          [.note (shiftedPayment "anna maria" "shop") 0 0 none]
          (shiftedPayment "anna" "maria shop") 1 =
        some none := by
    simp only [Asked.key] at sameKey
    simp [answer, recorded, after, noteConsented, consumeConsent, consentTtlMs, sameKey]
  obtain ⟨before, between, noted, allowedAt, ttl, shape, same, _⟩ :=
    always wordDigest wordDigest_injective wordDigest_oneWord _ _ _ _ (by simp [Call.now]) answered
  cases before with
  | nil =>
    simp only [nil_append, List.cons.injEq, Call.note.injEq] at shape
    obtain ⟨⟨rfl, _⟩, _⟩ := shape
    exact absurd same.1 (by decide)
  | cons first rest => simp at shape

end IyaSts.AuthorizationDetails
