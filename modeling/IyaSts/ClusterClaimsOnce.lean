import IyaSts.ClusterClaims
import Mathlib.Data.List.Nodup
import Mathlib.Order.Lattice

namespace IyaSts.ClusterClaims

/-!
# A claim is held by one caller at a time

The invariant ties the memory to the claims of the run so far: a claim that
has neither expired nor been released has its own row, and every row carries
the reservation of some earlier call.
-/

open List

/-! ## What a call asks for, and what it takes -/

/-- A single-use value, as it is claimed. -/
structure Value where
  scope : String
  realm : String
  value : String
  deriving DecidableEq

/-- The key of a value's row. -/
def Value.place (digest : Digest) (one : Value) : String :=
  memoryKey one.scope one.realm (digestOf digest one.scope one.value)

/-- The handle of a value's claim. -/
def Value.handle (digest : Digest) (reservation : String) (one : Value) : Handle where
  scope := one.scope
  realm := one.realm
  key := digestOf digest one.scope one.value
  reservation := reservation

/-- An entry's value in a realm. -/
def Entry.under (realm : String) (entry : Entry) : Option Value :=
  entry.value.map fun value => ⟨entry.scope, realm, value⟩

namespace Call

/-- The values a call would claim. -/
def asked (currentId : String) : Call → List Value
  | .claim opts => [opts.entry].filterMap (Entry.under (opts.realm.getD currentId))
  | .claimInProcess opts => [opts.entry].filterMap (Entry.under (opts.realm.getD currentId))
  | .claimMany opts => opts.entries.filterMap (Entry.under (opts.realm.getD currentId))
  | _ => []

/-- The lifetime a call asks for. -/
def ttlMs : Call → Int
  | .claim opts => opts.ttlMs
  | .claimInProcess opts => opts.ttlMs
  | .claimMany opts => opts.ttlMs
  | _ => 0

/-- The handles a call gives back. -/
def given : Call → List Handle
  | .release handle => handle.toList
  | .releaseMany handles => handles.filterMap id
  | _ => []

end Call

/-- The handles of a claim that succeeded. -/
def Answer.handles : Answer → List Handle
  | .claimed handles _ => handles
  | _ => []

/-- A call that was made, and its answer. -/
structure Event where
  moment : Moment
  call : Call
  answer : Answer

namespace Event

/-- The values an event claimed, each with its handle. -/
def taken (event : Event) : List (Value × Handle) :=
  (event.call.asked event.moment.currentId).zip event.answer.handles

/-- When the claims of an event expire. -/
def expiry (event : Event) : Int := event.moment.now + lifetime event.call.ttlMs

/-- The row of each claim of an event. -/
def row (event : Event) : Row where
  reservation := event.moment.reservation
  claimedAt := event.moment.now
  expiresAt := event.expiry

end Event

/--
A call that a process can make after some others: time does not run back, no
random value is drawn twice, and a handle that is given back was answered.
-/
structure Follows (history : List Event) (moment : Moment) (call : Call) :
    Prop where
  later : ∀ event ∈ history, event.moment.now ≤ moment.now
  fresh : ∀ event ∈ history, event.moment.reservation ≠ moment.reservation
  answered : ∀ handle ∈ call.given, ∃ event ∈ history, handle ∈ event.answer.handles

/-- The state that a run of calls leaves. -/
inductive Reaches (digest : Digest) : List Event → State → Prop where
  | start : Reaches digest [] start
  | step
      {history : List Event}
      {state : State}
      (reaches : Reaches digest history state)
      (moment : Moment)
      (call : Call)
      (follows : Follows history moment call) :
      Reaches digest
        (history ++ [⟨moment, call, (step digest moment call state).1⟩])
        (step digest moment call state).2

/-! ## The keys of the rows -/

/-- A text is split where a character occurs last in one way only. -/
theorem eq_of_append_last {char : Char} {first first' last last' : List Char}
    (notLast : char ∉ last) (notLast' : char ∉ last')
    (same : first ++ char :: last = first' ++ char :: last') :
    first = first' ∧ last = last' := by
  rw [append_eq_append_iff] at same
  rcases same with ⟨middle, isFirst, isLast⟩ | ⟨middle, isFirst, isLast⟩
  · cases middle with
    | nil =>
      simp only [nil_append, List.cons.injEq, true_and] at isLast
      exact ⟨by rw [isFirst, append_nil], isLast⟩
    | cons head rest =>
      simp only [cons_append, List.cons.injEq] at isLast
      exact absurd (by rw [isLast.2]; simp) notLast
  · cases middle with
    | nil =>
      simp only [nil_append, List.cons.injEq, true_and] at isLast
      exact ⟨by rw [isFirst, append_nil], isLast.symm⟩
    | cons head rest =>
      simp only [cons_append, List.cons.injEq] at isLast
      exact absurd (by rw [isLast.2]; simp) notLast'

/-- In one realm, a row's key tells its scope and its digest. -/
theorem memoryKey_inj {scope scope' realm key key' : String} (plain : '\x00' ∉ key.toList)
    (plain' : '\x00' ∉ key'.toList)
    (same : memoryKey scope realm key = memoryKey scope' realm key') :
    scope = scope' ∧ key = key' := by
  have sameText := congrArg String.toList same
  have nul : ("\x00" : String).toList = ['\x00'] := rfl
  simp only [memoryKey, String.toList_append, nul] at sameText
  have grouped :
      (scope.toList ++ '\x00' :: realm.toList) ++ '\x00' :: key.toList =
        (scope'.toList ++ '\x00' :: realm.toList) ++ '\x00' :: key'.toList := by
    simpa using sameText
  obtain ⟨sameFirst, sameKey⟩ := eq_of_append_last plain plain' grouped
  rw [append_cancel_right_eq] at sameFirst
  exact ⟨String.toList_inj.mp sameFirst, String.toList_inj.mp sameKey⟩

/-! ## What one call does -/

/-- Rows are left or, once they have expired, removed. -/
def Fades (now : Int) (memory memory' : Memory) : Prop :=
  ∀ key, memory' key = memory key ∨ memory' key = liveRow memory key now

namespace Fades

variable {now : Int} {memory memory' : Memory}

theorem refl (now : Int) (memory : Memory) : Fades now memory memory := fun _ => .inl rfl

/-- A row that is left was there. -/
theorem eq_of_some (fades : Fades now memory memory') {key : String} {row : Row}
    (isRow : memory' key = some row) :
    memory key = some row := by
  rcases fades key with same | live
  · rw [← same]
    exact isRow
  · rw [live, liveRow, Option.filter_eq_some_iff] at isRow
    exact isRow.1

/-- A row that has not expired is left. -/
theorem live_eq (fades : Fades now memory memory') {later : Int} (isLater : now ≤ later)
    (key : String) :
    liveRow memory' key later = liveRow memory key later := by
  rcases fades key with same | live
  · rw [liveRow, same, liveRow]
  · simp only [liveRow, live]
    cases found : memory key with
    | none => rfl
    | some row =>
      by_cases isLive : now < row.expiresAt
      · simp [Option.filter, isLive]
      · have expired : ¬ later < row.expiresAt := by omega
        simp [Option.filter, isLive, expired]

end Fades

/-- Counting a claim removes expired rows at most. -/
theorem countClaim_fades (now : Int) (state : State) :
    Fades now state.memory (countClaim now state).memory := by
  intro key
  unfold countClaim
  split
  · exact .inr rfl
  · exact .inl rfl

/-- Writing one row at several keys. -/
theorem foldl_update (keys : List String) (row : Option Row) (memory : Memory) (key : String) :
    keys.foldl (fun memory key => Function.update memory key row) memory key =
      if key ∈ keys then row else memory key := by
  induction keys generalizing memory with
  | nil => simp
  | cons first rest ih =>
    rw [foldl_cons, ih]
    by_cases isLater : key ∈ rest
    · simp [isLater]
    · by_cases isFirst : key = first
      · subst isFirst
        simp [isLater]
      · simp [isLater, isFirst]

/-- The memory after values are claimed in another. -/
def Takes (digest : Digest) (values : List Value) (row : Row) (memory memory' : Memory) : Prop :=
  ∀ key,
    memory' key =
      if key ∈ values.map (Value.place digest) then some row else memory key

/-- The memory after handles are given back. -/
def Frees (handles : List Handle) (memory memory' : Memory) : Prop :=
  ∀ key,
    memory' key = memory key ∨
      (memory' key = none ∧
        ∃ handle ∈ handles, ∃ row,
          handle.place = key ∧ memory key = some row ∧ row.reservation = handle.reservation)

/-- What a call can do. -/
inductive Does (digest : Digest) (moment : Moment) (call : Call) (memory : Memory) :
    Answer → Memory → Prop where
  /-- Every value is claimed: none of them was. -/
  | takes
      {faded memory' : Memory}
      (asks : call.asked moment.currentId ≠ [])
      (fades : Fades moment.now memory faded)
      (vacant :
        ∀ one ∈ call.asked moment.currentId, liveRow faded (one.place digest) moment.now = none)
      (takes :
        Takes digest (call.asked moment.currentId)
          ⟨moment.reservation, moment.now, moment.now + lifetime call.ttlMs⟩ faded memory') :
      Does digest moment call memory
        (.claimed
          ((call.asked moment.currentId).map
            (Value.handle digest moment.reservation)) moment.now) memory'
  /-- Nothing is claimed, and expired rows may be gone. -/
  | leaves
      {answer : Answer}
      {memory' : Memory}
      (none : answer.handles = [])
      (fades : Fades moment.now memory memory') :
      Does digest moment call memory answer memory'
  /-- Rows of the handles that are given back are gone. -/
  | frees
      {answer : Answer}
      {memory' : Memory}
      (none : answer.handles = [])
      (frees : Frees call.given memory memory') :
      Does digest moment call memory answer memory'

variable {digest : Digest} {moment : Moment} {call : Call} {one : Value}
    {history : List Event}

/-- What claiming one value can do. -/
theorem claim_does {opts : Opts}
    (asks :
      call.asked moment.currentId =
        [opts.entry].filterMap
          (Entry.under (opts.realm.getD moment.currentId)))
    (lasts : call.ttlMs = opts.ttlMs)
    (state : State) :
    Does digest moment call state.memory (claim digest moment opts state).1
      (claim digest moment opts state).2.memory := by
  unfold claim
  cases isValue : opts.entry.value with
  | none => exact .leaves rfl (Fades.refl _ _)
  | some value =>
    simp only
    split
    · exact .leaves rfl (Fades.refl _ _)
    · have isAsked :
          call.asked moment.currentId =
            [⟨opts.entry.scope, opts.realm.getD moment.currentId, value⟩] := by
        rw [asks]
        simp [Entry.under, isValue]
      have fades := countClaim_fades moment.now state
      split
      · exact .leaves rfl fades
      · rename_i isVacant
        have takes :=
          @Does.takes digest moment call state.memory
            (countClaim moment.now state).memory
            (Function.update (countClaim moment.now state).memory
              (memoryKey opts.entry.scope
                (opts.realm.getD moment.currentId)
                (digestOf digest opts.entry.scope value))
              (some ⟨moment.reservation, moment.now, moment.now + lifetime opts.ttlMs⟩))
            (by rw [isAsked]; exact cons_ne_nil _ _) fades
            (by
              intro one isOne
              rw [isAsked, mem_singleton] at isOne
              subst isOne
              exact isVacant)
            (by
              intro key
              rw [isAsked, lasts, Function.update_apply]
              simp [Value.place])
        rw [isAsked] at takes
        exact takes

/-- Entries that all hold a value are claimed as they are asked for. -/
theorem handles_of_entries (digest : Digest) (realm reservation : String) {entries : List Entry}
    (wellFormed : ∀ one ∈ entries, one.value.isSome = true) :
    entries.map (handleOf digest realm reservation) =
      (entries.filterMap (Entry.under realm)).map (Value.handle digest reservation) := by
  induction entries with
  | nil => rfl
  | cons entry rest ih =>
    obtain ⟨value, isValue⟩ := Option.isSome_iff_exists.mp (wellFormed entry mem_cons_self)
    have under : entry.under realm = some ⟨entry.scope, realm, value⟩ := by
      rw [Entry.under, isValue]
      rfl
    rw [filterMap_cons_some under, map_cons, map_cons,
      ih fun one isLater => wellFormed one (mem_cons_of_mem _ isLater)]
    simp [handleOf, Value.handle, isValue]

/-- A value's handle has the value's row. -/
theorem places_of_handles (digest : Digest) (reservation : String) (values : List Value) :
    (values.map (Value.handle digest reservation)).map Handle.place =
      values.map (Value.place digest) := by
  rw [map_map]
  rfl

/-- What claiming several values can do. -/
theorem claimMany_does (digest : Digest) (moment : Moment) (opts : ManyOpts) (state : State) :
    Does digest moment (.claimMany opts) state.memory
      (claimMany digest moment opts state).1
      (claimMany digest moment opts state).2.memory := by
  unfold claimMany
  simp only
  split
  · exact .leaves rfl (Fades.refl _ _)
  · rename_i wellFormed
    rw [Bool.not_eq_true, Bool.or_eq_false_iff] at wellFormed
    have eachSome (one : Entry) (isOne : one ∈ opts.entries) : one.value.isSome = true := by
      have fine := any_eq_false.mp wellFormed.2 one isOne
      cases isValue : one.value with
      | some value => rfl
      | none => simp [isValue] at fine
    have fades := countClaim_fades moment.now state
    rw [handles_of_entries digest _ _ eachSome, places_of_handles]
    split
    · exact .leaves rfl fades
    · rename_i isVacant
      rw [List.findIdx?_eq_none_iff] at isVacant
      refine .takes ?_ fades ?_ ?_
      · obtain ⟨first, rest, isEntries⟩ :=
          exists_cons_of_ne_nil (isEmpty_eq_false_iff.mp wellFormed.1)
        obtain ⟨value, isValue⟩ :=
          Option.isSome_iff_exists.mp (eachSome first (by rw [isEntries]; exact mem_cons_self))
        simp [Call.asked, isEntries, Entry.under, isValue]
      · intro one isOne
        have notLive := isVacant (one.place digest) (mem_map_of_mem isOne)
        rwa [Option.isSome_eq_false_iff, Option.isNone_iff_eq_none]
          at notLive
      · intro key
        exact foldl_update _ _ _ key

/-- What giving one handle back can do. -/
theorem release_frees {handle : Option Handle} {handles : List Handle}
    (given : ∀ one, handle = some one → one ∈ handles) (state : State) :
    Frees handles state.memory (release handle state).2.memory := by
  intro key
  unfold release
  cases handle with
  | none => exact .inl rfl
  | some one =>
    simp only
    split
    · exact .inl rfl
    · cases found : state.memory one.place with
      | none => exact .inl rfl
      | some row =>
        simp only
        split
        · rename_i sameReservation
          simp only [Function.update_apply]
          split
          · rename_i isPlace
            exact .inr ⟨rfl, one, given one rfl, row, isPlace.symm,
              by rw [isPlace]; exact found, sameReservation⟩
          · exact .inl rfl
        · exact .inl rfl

/-- Giving some handles back and then others gives all of them back. -/
theorem Frees.trans {handles : List Handle} {memory memory' memory'' : Memory}
    (first : Frees handles memory memory') (second : Frees handles memory' memory'') :
    Frees handles memory memory'' := by
  intro key
  rcases second key with same | ⟨gone, handle, isGiven, row, isPlace, held, mine⟩
  · rw [same]
    exact first key
  · rcases first key with same | ⟨gone', _⟩
    · rw [same] at held
      exact .inr ⟨gone, handle, isGiven, row, isPlace, held, mine⟩
    · rw [gone'] at held
      cases held

/-- What giving several handles back can do. -/
theorem releaseEach_frees {each handles : List Handle} (given : ∀ one ∈ each, one ∈ handles)
    (state : State) :
    Frees handles state.memory (releaseEach each state).2.memory := by
  induction each generalizing state with
  | nil => exact fun _ => .inl rfl
  | cons handle rest ih =>
    have first := @release_frees (some handle) handles (fun one isOne => by
          cases isOne
          exact given handle mem_cons_self) state
    exact first.trans
      (ih (fun one isLater => given one (mem_cons_of_mem _ isLater)) _)

/-- What a call can do. -/
theorem step_does (digest : Digest) (moment : Moment) (call : Call) (state : State) :
    Does digest moment call state.memory (step digest moment call state).1
      (step digest moment call state).2.memory := by
  cases call with
  | claim opts => exact claim_does rfl rfl state
  | claimInProcess opts => exact claim_does rfl rfl state
  | claimMany opts => exact claimMany_does digest moment opts state
  | release handle =>
    refine .frees rfl (release_frees ?_ state)
    intro one isOne
    rw [isOne]
    exact mem_singleton_self one
  | releaseMany handles =>
    refine .frees rfl (releaseEach_frees ?_ state)
    intro one isOne
    obtain ⟨handle, isHandle, kept⟩ := mem_filterMap.mp isOne
    rw [Option.filter_eq_some_iff] at kept
    exact mem_filterMap.mpr ⟨handle, isHandle, kept.1⟩
  | sweep => exact .leaves rfl fun _ => .inr rfl

/-! ## The invariant of a run -/

/-- A list beside what is made of each of its elements. -/
theorem mem_zip_map_iff {α β : Type} (make : α → β) (list : List α) (one : α) (made : β) :
    (one, made) ∈ list.zip (list.map make) ↔ one ∈ list ∧ made = make one := by
  induction list with
  | nil => simp
  | cons first rest ih =>
    simp only [map_cons, zip_cons_cons, mem_cons, Prod.mk.injEq, ih]
    constructor
    · rintro (⟨rfl, rfl⟩ | ⟨isLater, isMade⟩)
      · exact ⟨.inl rfl, rfl⟩
      · exact ⟨.inr isLater, isMade⟩
    · rintro ⟨rfl | isLater, isMade⟩
      · exact .inl ⟨rfl, isMade⟩
      · exact .inr ⟨isLater, isMade⟩

/-- The values of one call are of one realm. -/
theorem asked_realm {currentId : String} {one one' : Value} (isAsked : one ∈ call.asked currentId)
    (isAsked' : one' ∈ call.asked currentId) :
    one.realm = one'.realm := by
  have ofEntries {entries : List Entry} {realm : String} {one : Value}
      (isOne : one ∈ entries.filterMap (Entry.under realm)) :
      one.realm = realm := by
    obtain ⟨entry, _, under⟩ := mem_filterMap.mp isOne
    obtain ⟨value, _, rfl⟩ := Option.map_eq_some_iff.mp under
    rfl
  cases call with
  | claim opts => rw [ofEntries isAsked, ofEntries isAsked']
  | claimInProcess opts => rw [ofEntries isAsked, ofEntries isAsked']
  | claimMany opts => rw [ofEntries isAsked, ofEntries isAsked']
  | _ => cases isAsked

/-- An event's answer names the values it asked for, or none. -/
def Answered (digest : Digest) (event : Event) : Prop :=
  event.answer.handles = [] ∨
    event.answer.handles =
      (event.call.asked event.moment.currentId).map (Value.handle digest event.moment.reservation)

/-- What is taken is asked for, and its handle is the value's own. -/
theorem Answered.of_taken {event : Event} (answered : Answered digest event) {handle : Handle}
    (isTaken : (one, handle) ∈ event.taken) :
    one ∈ event.call.asked event.moment.currentId ∧
      handle = one.handle digest event.moment.reservation := by
  rcases answered with none | all
  · simp [Event.taken, none] at isTaken
  · rw [Event.taken, all, mem_zip_map_iff] at isTaken
    exact isTaken

/-- What the memory is, after a run of calls. -/
structure Kept (digest : Digest) (history : List Event)
    (memory : Memory) : Prop where
  drawn :
    ∀ key row, memory key = some row → ∃ event ∈ history, row.reservation = event.moment.reservation
  answered : ∀ event ∈ history, Answered digest event
  distinct : (history.map fun event => event.moment.reservation).Nodup
  held :
    ∀ before event after, history = before ++ event :: after →
      ∀ one handle, (one, handle) ∈ event.taken →
        (∀ later ∈ after, handle ∉ later.call.given) →
        ∀ now, (∀ other ∈ history, other.moment.now ≤ now) →
          now < event.expiry →
          memory (one.place digest) = some event.row

/-- Handles that were answered and have one row are one handle. -/
theorem Kept.handle_unique {memory : Memory} (kept : Kept digest history memory)
    {event event' : Event} (isEvent : event ∈ history) (isEvent' : event' ∈ history)
    {handle handle' : Handle} (isTaken : (one, handle) ∈ event.taken)
    (isAnswered : handle' ∈ event'.answer.handles) (samePlace : handle'.place = one.place digest)
    (sameReservation : handle'.reservation = event.moment.reservation) :
    handle' = handle := by
  obtain ⟨isAsked, isHandle⟩ := (kept.answered event isEvent).of_taken isTaken
  rcases kept.answered event' isEvent' with none | all
  · rw [none] at isAnswered
    cases isAnswered
  rw [all] at isAnswered
  obtain ⟨one', isAsked', isHandle'⟩ := mem_map.mp isAnswered
  have isSame : event' = event := by
    refine inj_on_of_nodup_map kept.distinct isEvent' isEvent ?_
    rw [← sameReservation, ← isHandle']
    rfl
  subst isSame
  rw [← isHandle'] at samePlace
  obtain ⟨sameScope, sameKey⟩ :=
    @memoryKey_inj one'.scope one.scope one.realm
      (digestOf digest one'.scope one'.value)
      (digestOf digest one.scope one.value) (digest.plain _) (digest.plain _)
      (by
        have sameRealm := asked_realm isAsked' isAsked
        simpa only [Handle.place, Value.handle, Value.place, sameRealm] using samePlace)
  rw [← isHandle', isHandle]
  simp only [Value.handle, Handle.mk.injEq]
  exact ⟨sameScope, asked_realm isAsked' isAsked, sameKey, trivial⟩

/-- Nothing is kept before the first call. -/
theorem Kept.start (digest : Digest) : Kept digest [] (fun _ => none) where
  drawn := by
    intro key row isRow
    cases isRow
  answered := by
    intro event isEvent
    cases isEvent
  distinct := nodup_nil
  held := by
    intro before event after isSplit
    simp at isSplit

/-- A list that ends in one more element is split at it or before it. -/
theorem append_singleton_split {α : Type} {list before after : List α} {last one : α}
    (isSplit : list ++ [last] = before ++ one :: after) :
    (before = list ∧ one = last ∧ after = []) ∨
      ∃ after', after = after' ++ [last] ∧ list = before ++ one :: after' := by
  rcases eq_nil_or_concat after with rfl | ⟨after', last', rfl⟩
  · obtain ⟨rfl, same⟩ := append_inj' isSplit rfl
    cases same
    exact .inl ⟨rfl, rfl, rfl⟩
  · rw [concat_eq_append, ← cons_append, ← append_assoc]
      at isSplit
    obtain ⟨rfl, same⟩ := append_inj' isSplit rfl
    cases same
    exact .inr ⟨after', concat_eq_append, rfl⟩

section

variable
  {digest : Digest}
  {history : List Event}
  {memory memory' : Memory}
  {moment : Moment}
  {call : Call}
  {answer : Answer}

/-- A value that is claimed is not claimed again. -/
theorem Kept.not_vacant (kept : Kept digest history memory) {before after : List Event}
    {event : Event} (isSplit : history = before ++ event :: after) {one : Value} {handle : Handle}
    (isTaken : (one, handle) ∈ event.taken) (notGiven : ∀ later ∈ after, handle ∉ later.call.given)
    {now : Int} (isLater : ∀ other ∈ history, other.moment.now ≤ now)
    (unexpired : now < event.expiry) :
    liveRow memory (one.place digest) now = some event.row := by
  rw [liveRow,
    kept.held before event after isSplit one handle isTaken notGiven now isLater unexpired]
  simp [Option.filter, Event.row, unexpired]

/-- Each call keeps the invariant. -/
theorem Kept.step (kept : Kept digest history memory) (follows : Follows history moment call)
    (does : Does digest moment call memory answer memory') :
    Kept digest (history ++ [⟨moment, call, answer⟩]) memory' := by
  have isLast : (⟨moment, call, answer⟩ : Event) ∈ history ++ [⟨moment, call, answer⟩] := by simp
  have drawnBefore {key : String} {row : Row}
      (isRow : memory key = some row) :
      ∃ event ∈ history ++ [⟨moment, call, answer⟩],
        row.reservation = event.moment.reservation := by
    obtain ⟨event, isEvent, drawn⟩ := kept.drawn key row isRow
    exact ⟨event, mem_append_left _ isEvent, drawn⟩
  refine ⟨?_, ?_, ?_, ?_⟩
  · intro key row isRow
    cases does with
    | takes asks fades vacant takes =>
      rw [takes key] at isRow
      split at isRow
      · cases isRow
        exact ⟨_, isLast, rfl⟩
      · exact drawnBefore (fades.eq_of_some isRow)
    | leaves none fades => exact drawnBefore (fades.eq_of_some isRow)
    | frees none frees =>
      rcases frees key with same | ⟨gone, _⟩
      · exact drawnBefore (by rw [← same]; exact isRow)
      · rw [gone] at isRow
        cases isRow
  · intro event isEvent
    rcases mem_append.mp isEvent with isEarlier | isNew
    · exact kept.answered event isEarlier
    · rw [mem_singleton] at isNew
      subst isNew
      cases does with
      | takes => exact .inr rfl
      | leaves none => exact .inl none
      | frees none => exact .inl none
  · rw [map_append, nodup_append]
    refine ⟨kept.distinct, by simp, ?_⟩
    intro first isFirst last isLast
    obtain ⟨event, isEvent, rfl⟩ := mem_map.mp isFirst
    rw [map_singleton, mem_singleton] at isLast
    rw [isLast]
    exact follows.fresh event isEvent
  · intro before event after isSplit one handle isTaken notGiven now isLater unexpired
    have notBefore : moment.now ≤ now := isLater _ isLast
    rcases append_singleton_split isSplit with
      ⟨rfl, isNew, rfl⟩ | ⟨after', rfl, isHistory⟩
    · -- The claim is this call's own.
      subst isNew
      cases does with
      | takes asks fades vacant takes =>
        rw [Event.taken, Answer.handles, mem_zip_map_iff] at isTaken
        rw [takes, if_pos (mem_map_of_mem isTaken.1)]
        rfl
      | leaves none => simp [Event.taken, none] at isTaken
      | frees none => simp [Event.taken, none] at isTaken
    · -- The claim is an earlier call's.
      have isEvent : event ∈ history := by
        rw [isHistory]
        simp
      have laterThan (other : Event) (isOther : other ∈ history) :
          other.moment.now ≤ moment.now :=
        follows.later other isOther
      have held :=
        kept.held before event after' isHistory one handle isTaken
          (fun later isAfter => notGiven later (mem_append_left _ isAfter))
          moment.now laterThan (lt_of_le_of_lt notBefore unexpired)
      have live :=
        kept.not_vacant isHistory isTaken
          (fun later isAfter => notGiven later (mem_append_left _ isAfter))
          laterThan (lt_of_le_of_lt notBefore unexpired)
      have isLive : moment.now < event.row.expiresAt := lt_of_le_of_lt notBefore unexpired
      have stays {faded : Memory} (fades : Fades moment.now memory faded) :
          faded (one.place digest) = some event.row := by
        rcases fades (one.place digest) with same | left
        · rw [same, held]
        · rw [left, live]
      cases does with
      | takes asks fades vacant takes =>
        rw [takes, if_neg, stays fades]
        intro isAsked
        obtain ⟨one', isOne', samePlace⟩ := mem_map.mp isAsked
        have notLive := vacant one' isOne'
        rw [samePlace, fades.live_eq le_rfl, live] at notLive
        cases notLive
      | leaves none fades => exact stays fades
      | frees none frees =>
        rcases frees (one.place digest) with
          same | ⟨_, handle', isGiven, row, isPlace, isRow, mine⟩
        · rw [same, held]
        · obtain ⟨event', isEvent', isAnswered⟩ := follows.answered handle' isGiven
          rw [held] at isRow
          cases isRow
          have isSame := kept.handle_unique isEvent isEvent' isTaken isAnswered isPlace mine.symm
          rw [isSame] at isGiven
          exact absurd isGiven (notGiven _ (mem_append_right _ mem_cons_self))

end

/-- Every run keeps the invariant. -/
theorem Reaches.kept {state : State} (reaches : Reaches digest history state) :
    Kept digest history state.memory := by
  induction reaches with
  | start => exact Kept.start digest
  | step reaches moment call follows ih => exact ih.step follows (step_does _ _ _ _)

/-! ## One holder at a time -/

/-- A call that gives handles back removes rows of theirs alone. -/
theorem step_frees (gives : call.given ≠ []) (state : State) :
    Frees call.given state.memory (step digest moment call state).2.memory := by
  cases call with
  | release handle =>
    refine release_frees ?_ state
    intro one isOne
    rw [isOne]
    exact mem_singleton_self one
  | releaseMany handles =>
    refine releaseEach_frees ?_ state
    intro one isOne
    obtain ⟨handle, isHandle, kept⟩ := mem_filterMap.mp isOne
    rw [Option.filter_eq_some_iff] at kept
    exact mem_filterMap.mpr ⟨handle, isHandle, kept.1⟩
  | _ => exact absurd rfl gives

/-- A call that is made in a state, and its answer. -/
def made (digest : Digest) (moment : Moment) (call : Call) (state : State) : Event where
  moment := moment
  call := call
  answer := (step digest moment call state).1

/-- Several values are claimed all at once or not at all. -/
theorem claimMany_handles (digest : Digest) (moment : Moment) (opts : ManyOpts) (state : State) :
    (claimMany digest moment opts state).1.handles = [] ∨
      (claimMany digest moment opts state).1.handles.length = opts.entries.length := by
  unfold claimMany
  simp only
  split
  · exact .inl rfl
  · split
    · exact .inl rfl
    · exact .inr (length_map _)

/--
In every run: a value that is claimed is not claimed again before the claim
expires or its own handle is given back; several values are claimed together
or left as they are; and a handle never gives back a later holder's claim.
-/
theorem claims_exclusive (digest : Digest) {history : List Event} {state : State}
    (reaches : Reaches digest history state) (moment : Moment) (call : Call)
    (follows : Follows history moment call) :
    (∀ before event between, history = before ++ event :: between →
      ∀ one handle, (one, handle) ∈ event.taken →
        (∀ later ∈ between, handle ∉ later.call.given) →
        moment.now < event.expiry →
        ∀ again, (one, again) ∉ (made digest moment call state).taken) ∧
    (∀ opts, call = .claimMany opts →
      ((made digest moment call state).answer.handles.length =
          opts.entries.length ∧
        ∀ one ∈ call.asked moment.currentId,
          (step digest moment call state).2.memory (one.place digest) =
            some (made digest moment call state).row) ∨
      ((made digest moment call state).answer.handles = [] ∧
        ∀ one ∈ call.asked moment.currentId,
          ∀ now, moment.now ≤ now →
            liveRow (step digest moment call state).2.memory
                (one.place digest) now =
              liveRow state.memory (one.place digest) now)) ∧
    (call.given ≠ [] →
      ∀ event ∈ history, ∀ one handle, (one, handle) ∈ event.taken →
        handle ∉ call.given →
        state.memory (one.place digest) = some event.row →
        (step digest moment call state).2.memory (one.place digest) = some event.row) := by
  have kept := reaches.kept
  have does := step_does digest moment call state
  refine ⟨?_, ?_, ?_⟩
  · intro before event between isSplit one handle isTaken notGiven unexpired again isAgain
    have live := kept.not_vacant isSplit isTaken notGiven follows.later unexpired
    unfold Event.taken made at isAgain
    simp only at isAgain
    generalize (step digest moment call state).1 = answer at does isAgain
    cases does with
    | takes asks fades vacant takes =>
      rw [Answer.handles, mem_zip_map_iff] at isAgain
      have notLive := vacant one isAgain.1
      rw [fades.live_eq (Int.le_refl _), live] at notLive
      cases notLive
    | leaves none => simp [none] at isAgain
    | frees none => simp [none] at isAgain
  · intro opts isMany
    have whole :
        (made digest moment call state).answer.handles = [] ∨
          (made digest moment call state).answer.handles.length = opts.entries.length := by
      rw [isMany]
      exact claimMany_handles digest moment opts state
    unfold made Event.row Event.expiry at *
    simp only at *
    generalize (step digest moment call state).1 = answer at does whole
    generalize (step digest moment call state).2 = state' at does
    generalize state'.memory = memory' at does
    cases does with
    | takes asks fades vacant takes =>
      refine .inl ⟨whole.resolve_left ?_, ?_⟩
      · intro none
        exact asks (map_eq_nil_iff.mp none)
      · intro one isOne
        rw [takes, if_pos (mem_map_of_mem isOne)]
    | leaves none fades =>
      exact .inr ⟨none, fun one _ now isLater => fades.live_eq isLater (one.place digest)⟩
    | frees none frees =>
      refine .inr ⟨none, fun one _ now _ => ?_⟩
      rcases frees (one.place digest) with same | ⟨_, handle, isGiven, _⟩
      · rw [liveRow, same, liveRow]
      · rw [isMany] at isGiven
        cases isGiven
  · intro gives event isEvent one handle isTaken notGiven isRow
    rcases step_frees gives state (one.place digest) with
      same | ⟨_, handle', isGiven, row, isPlace, isRow', mine⟩
    · rw [same, isRow]
    · obtain ⟨event', isEvent', isAnswered⟩ := follows.answered handle' isGiven
      rw [isRow] at isRow'
      cases isRow'
      have isSame := kept.handle_unique isEvent isEvent' isTaken isAnswered isPlace mine.symm
      rw [isSame] at isGiven
      exact absurd isGiven notGiven

/-- The digest of one code, without a key. -/
def sha256 : Digest where
  of text :=
    if text = "oauth.code\nabc" then
      "ovDBM2i6x9v0ONILOL1rIrh5jzWCe8WBDlL2CjIz90Y"
    else
      "47DEQpj8HBSa-_TImW-5JCeuQeRkm5NMpJWZG3hSuFU"
  plain := by
    intro text
    split
    · decide
    · decide

/-- A code to be claimed for ten minutes. -/
def code : Call := .claim ⟨⟨"oauth.code", some "abc"⟩, 600000, none⟩

/-- The moment of the first claim of the code, and one a second later. -/
def first : Moment := ⟨1000, "default", "AAAAAAAAAAAAAAAA"⟩

def second : Moment := ⟨2000, "default", "BBBBBBBBBBBBBBBB"⟩

/-- A code that is claimed is not claimed again a second later. -/
theorem claims_exclusive_of_code :
    (∃ handle,
      (⟨"oauth.code", "default", "abc"⟩, handle) ∈ (made sha256 first code start).taken) ∧
      ∀ again,
        (⟨"oauth.code", "default", "abc"⟩, again) ∉
          (made sha256 second code (step sha256 first code start).2).taken := by
  refine ⟨⟨⟨"oauth.code", "default",
    "ovDBM2i6x9v0ONILOL1rIrh5jzWCe8WBDlL2CjIz90Y", "AAAAAAAAAAAAAAAA"⟩,
    by decide⟩, ?_⟩
  have reaches :=
    Reaches.step (@Reaches.start sha256) first code ⟨by simp, by simp, by simp [code, Call.given]⟩
  have follows :
      Follows ([] ++ [⟨first, code, (step sha256 first code start).1⟩]) second
        code := by
    refine ⟨?_, ?_, ?_⟩
    · simp [first, second]
    · simp [first, second]
    · simp [code, Call.given]
  exact (claims_exclusive sha256 reaches second code follows).1 [] _ [] rfl
    ⟨"oauth.code", "default", "abc"⟩
    ⟨"oauth.code", "default", "ovDBM2i6x9v0ONILOL1rIrh5jzWCe8WBDlL2CjIz90Y", "AAAAAAAAAAAAAAAA"⟩
    (by decide) (by simp) (by decide)

end IyaSts.ClusterClaims
