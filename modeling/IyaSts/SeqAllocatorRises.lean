import IyaSts.SeqAllocatorInvariant

namespace IyaSts.SeqAllocator

/-!
# Sequence numbers rise and are unique

Every event keeps each process sound, so the numbers of a stream rise over the
whole life of a process, and two processes that have leased share none.
-/

open List

section

variable
  {counts counts' : Key → List Nat}
  {process : Nat}
  {inst : Instance}
  {locals : String → Nat}
  {handed : List (String × Number)}

/-! ## Leases -/

/-- A lease that is asked for was not counted. -/
theorem counted_of_append_waiting {leases : List Lease} {lease : Lease}
    (waits : lease.stage = .waiting)
    {name : String} {count : Nat} (counted : Counted (leases ++ [lease]) name count) :
    Counted leases name count := by
  obtain ⟨one, isOne, isStream, isCounted⟩ := counted
  rcases mem_append.mp isOne with isEarlier | isLast
  · exact ⟨one, isEarlier, isStream, isCounted⟩
  · rw [mem_singleton.mp isLast, waits] at isCounted
    cases isCounted

variable {starting : Option Starting} {stream : Stream} {index : Nat} {rest : List String}

/-- A lease of a stream that has none under way keeps a process sound. -/
theorem InstanceSound.lease (sound : InstanceSound counts process inst locals handed)
    {name : String} (noLease : ∀ lease ∈ inst.leases, lease.stream ≠ name) {starts loads : Bool}
    (phase : Phase { inst.lease name starts loads with starting := starting })
    (asked :
      ∀ index,
        (starting = some (.origin (some index)) ∨
          ∃ rest waiting, starting = some (.chain index rest waiting)) →
          Owned counts .origin process index) :
    InstanceSound counts process
      { inst.lease name starts loads with starting := starting } locals
      handed := by
  have sameStream (leasing : Bool) (other : String) :
      StreamSound counts process other
        (Function.update inst.streams name
          { inst.streams name with leasing := leasing } other)
        (numbersOf handed other) inst.leases := by
    by_cases isName : other = name
    · subst isName
      rw [Function.update_self]
      have same := sound.streams other
      exact ⟨same.current, same.spare, same.leased, same.belowCurrent,
        same.belowSpare, same.belowCounted, same.spareAfter⟩
    · rw [Function.update_of_ne isName]
      exact sound.streams other
  have sameNumbers (leasing : Bool) (leases : List Lease) (other : String) :
      NumbersSound
        { inst.setStream name
            { inst.streams name with leasing := leasing } with
          leases := leases
          starting := starting } (locals other) other
        (numbersOf handed other) := by
    refine (sound.numbers other).congr rfl ?_ ?_ fun _ => rfl
    · by_cases isName : other = name
      · subst isName
        simp [Instance.setStream]
      · simp [Instance.setStream, isName]
    · by_cases isName : other = name
      · subst isName
        simp [Instance.setStream]
      · simp [Instance.setStream, isName]
  cases loads with
  | true =>
    refine ⟨?_, ?_, ?_, ?_, phase, sound.index, asked⟩
    · intro other
      exact (sameStream true other).mono (fun _ => prefix_refl _)
        fun count => counted_of_append_waiting rfl
    · exact sameNumbers true _
    · intro lease isLease
      simp only [Instance.lease, if_true, Instance.setStream] at isLease ⊢
      rcases mem_append.mp isLease with isEarlier | isLast
      · rw [Function.update_of_ne (noLease lease isEarlier)]
        exact sound.leasing lease isEarlier
      · rw [mem_singleton.mp isLast]
        simp
    · simp only [Instance.lease, if_true, Instance.setStream, map_append, map_singleton]
      rw [nodup_append]
      refine ⟨sound.distinct, by simp, ?_⟩
      intro stream isStream last isLast
      obtain ⟨lease, isLease, rfl⟩ := mem_map.mp isStream
      rw [mem_singleton.mp isLast]
      exact noLease lease isLease
  | false =>
    refine ⟨sameStream false, ?_, ?_, sound.distinct, phase, sound.index, asked⟩
    · exact sameNumbers false _
    · intro lease isLease
      simp only [Instance.lease, Bool.false_eq_true, if_false, Instance.setStream] at isLease ⊢
      rw [Function.update_of_ne (noLease lease isLease)]
      exact sound.leasing lease isLease

/-- Fetching a block ahead keeps a shared process sound. -/
theorem InstanceSound.prefetch (sound : InstanceSound counts process inst locals handed)
    (isShared : inst.shared = true) (name : String) (loads : Bool) :
    InstanceSound counts process (inst.prefetch name loads) locals handed := by
  unfold Instance.prefetch
  simp only
  split
  · rename_i fetches
    have noLease (lease : Lease) (isLease : lease ∈ inst.leases) : lease.stream ≠ name := by
      intro isName
      have leasing := sound.leasing lease isLease
      rw [isName, fetches.2.1] at leasing
      cases leasing
    have same :
        { inst.lease name false loads with starting := inst.starting } =
          inst.lease name false loads := by
      cases loads <;> rfl
    rw [← same]
    refine sound.lease noLease ?_ sound.asked
    rw [same]
    obtain ⟨isStarted, noStart⟩ := sound.phase.shared isShared
    cases loads with
    | true =>
      refine ⟨?_, ?_, ?_⟩
      · intro _
        refine ⟨isStarted, ?_⟩
        intro lease isLease
        rcases mem_append.mp isLease with isEarlier | isLast
        · exact noStart lease isEarlier
        · rw [mem_singleton.mp isLast]
      · intro notShared
        simp only [Instance.lease, if_true, Instance.setStream] at notShared
        rw [isShared] at notShared
        cases notShared
      · intro index rest isChain
        simp only [Instance.lease, if_true, Instance.setStream] at isChain
        rcases isStarted with isNone | isClosing
        · rw [isNone] at isChain
          cases isChain
        · rw [isClosing] at isChain
          cases isChain
    | false => exact ⟨sound.phase.shared, sound.phase.alone, sound.phase.idle⟩
  · exact sound

/-! ## The next number -/

/-- Turning to the spare block keeps a stream sound. -/
theorem StreamSound.turn {name : String} {numbers : List Number} {leases : List Lease}
    (sound : StreamSound counts process name stream numbers leases) :
    StreamSound counts process name stream.turn numbers leases := by
  have turned :
      StreamSound counts process name
        { stream with current := stream.spare, spare := none } numbers
        leases := by
    refine ⟨?_, ?_, sound.leased, ?_, ?_, ?_, ?_⟩
    · intro range isCurrent
      obtain ⟨count, owned, rfl⟩ := sound.spare range isCurrent
      have positive := owned.1
      refine ⟨count, owned, ?_, ?_, rfl⟩
      · simp [Instance.rangeOf]
      · have smaller : (count - 1) * block ≤ count * block :=
          Nat.mul_le_mul_right block (Nat.sub_le count 1)
        simp only [Instance.rangeOf]
        omega
    · intro range isSpare
      cases isSpare
    · intro range value isCurrent isLeased
      exact (sound.belowSpare range isCurrent).1 value isLeased
    · intro range isSpare
      cases isSpare
    · intro count counted
      obtain ⟨owned, below, _, belowSpare⟩ := sound.belowCounted count counted
      refine ⟨owned, below, belowSpare, ?_⟩
      intro range isSpare
      cases isSpare
    · intro _
      rfl
  unfold Stream.turn
  cases isCurrent : stream.current with
  | none => exact turned
  | some range =>
    simp only
    split
    · exact turned
    · rw [← isCurrent] at *
      exact sound

@[simp] theorem turn_leasing (stream : Stream) : stream.turn.leasing = stream.leasing := by
  unfold Stream.turn
  split
  · split <;> rfl
  · rfl


@[simp] theorem turn_fallbackNext (stream : Stream) :
    stream.turn.fallbackNext = stream.fallbackNext := by
  unfold Stream.turn
  split
  · split <;> rfl
  · rfl

/-- One stream and its numbers change. -/
theorem InstanceSound.number (sound : InstanceSound counts process inst locals handed)
    {name : String} {number : Number} (sameLeasing : stream.leasing = (inst.streams name).leasing)
    (streamSound :
      StreamSound counts process name stream
        (numbersOf handed name ++ [number]) inst.leases)
    (numbersSound :
      NumbersSound (inst.setStream name stream) (locals name) name
        (numbersOf handed name ++ [number])) :
    InstanceSound counts process (inst.setStream name stream) locals
      (handed ++ [(name, number)]) := by
  refine ⟨?_, ?_, ?_, sound.distinct, ?_, sound.index, sound.asked⟩
  · intro other
    simp only [Instance.setStream]
    by_cases isName : other = name
    · subst isName
      rw [Function.update_self, numbersOf_append, if_pos rfl]
      exact streamSound
    · rw [Function.update_of_ne isName, numbersOf_append, if_neg isName]
      exact sound.streams other
  · intro other
    by_cases isName : other = name
    · subst isName
      rw [numbersOf_append, if_pos rfl]
      exact numbersSound
    · rw [numbersOf_append, if_neg isName]
      refine (sound.numbers other).congr rfl ?_ ?_ fun _ => rfl
      · simp [Instance.setStream, isName]
      · simp [Instance.setStream, isName]
  · intro lease isLease
    simp only [Instance.setStream]
    by_cases isName : lease.stream = name
    · rw [isName, Function.update_self, sameLeasing, ← isName]
      exact sound.leasing lease isLease
    · rw [Function.update_of_ne isName]
      exact sound.leasing lease isLease
  · exact ⟨sound.phase.shared, sound.phase.alone, sound.phase.idle⟩

/-- A number of a block is above all others, and is the last before the next. -/
theorem InstanceSound.nextLeased (sound : InstanceSound counts process inst locals handed)
    (isShared : inst.shared = true) {name : String}
    (notFallen : (inst.streams name).fallback = false) {range : Range}
    (isCurrent : (inst.streams name).turn.current = some range) (isLeft : range.next ≤ range.last) :
    InstanceSound counts process
      (inst.setStream name
        { (inst.streams name).turn with
          current := some { range with next := range.next + 1 } })
      locals (handed ++ [(name, .leased range.next)]) := by
  have turned := (sound.streams name).turn
  have numbers := sound.numbers name
  obtain ⟨block', owned, above, within, isLast⟩ := turned.current range isCurrent
  have isEarlier
      {value : Nat}
      (isLeased : .leased value ∈ numbersOf handed name ++ [.leased range.next]) :
      .leased value ∈ numbersOf handed name ∨ value = range.next := by
    rcases mem_append.mp isLeased with wasThere | isNew
    · exact .inl wasThere
    · cases mem_singleton.mp isNew
      exact .inr rfl
  refine sound.number (by simp) ?_ ?_
  · refine ⟨?_, turned.spare, ?_, ?_, ?_, ?_, ?_⟩
    · rintro _ ⟨rfl⟩
      exact ⟨block', owned, Nat.lt_succ_of_lt above, Nat.succ_le_succ isLeft, isLast⟩
    · intro value isLeased
      rcases isEarlier isLeased with wasThere | rfl
      · exact turned.leased value wasThere
      · exact ⟨block', owned, above, by rw [← isLast]; exact isLeft⟩
    · rintro _ value ⟨rfl⟩ isLeased
      rcases isEarlier isLeased with wasThere | rfl
      · exact Nat.lt_succ_of_lt (turned.belowCurrent range value isCurrent wasThere)
      · exact Nat.lt_succ_self _
    · intro spare isSpare
      obtain ⟨below, after⟩ := turned.belowSpare spare isSpare
      refine ⟨?_, ?_⟩
      · intro value isLeased
        rcases isEarlier isLeased with wasThere | rfl
        · exact below value wasThere
        · exact Nat.lt_of_le_of_lt isLeft (after range isCurrent)
      · rintro _ ⟨rfl⟩
        exact after range isCurrent
    · intro count counted
      obtain ⟨ownedNext, below, belowCurrent, belowSpare⟩ := turned.belowCounted count counted
      refine ⟨ownedNext, ?_, ?_, belowSpare⟩
      · intro value isLeased
        rcases isEarlier isLeased with wasThere | rfl
        · exact below value wasThere
        · exact Nat.le_trans isLeft (belowCurrent range isCurrent)
      · rintro _ ⟨rfl⟩
        exact belowCurrent range isCurrent
    · intro isNone
      cases isNone
  · refine ⟨?_, ?_, ?_, rises_append numbers.rises ?_⟩
    · intro count isCaller
      rcases mem_append.mp isCaller with wasThere | isNew
      · exact numbers.caller count wasThere
      · cases mem_singleton.mp isNew
    · intro value _
      exact isShared
    · intro index count isFallback
      rcases mem_append.mp isFallback with wasThere | isNew
      · rw [(numbers.fallback index count wasThere).2.1] at notFallen
        cases notFallen
      · cases mem_singleton.mp isNew
    · intro earlier wasThere
      cases earlier with
      | caller count =>
        rw [(numbers.caller count wasThere).1] at isShared
        cases isShared
      | leased value => exact turned.belowCurrent range value isCurrent wasThere
      | fallback index count =>
        rw [(numbers.fallback index count wasThere).2.1] at notFallen
        cases notFallen

/-- A number of the process's own range is above all others. -/
theorem InstanceSound.nextFallback (sound : InstanceSound counts process inst locals handed)
    (isShared : inst.shared = true) {name : String}
    (sameLeasing : stream.leasing = (inst.streams name).leasing)
    (sameNext : stream.fallbackNext = (inst.streams name).fallbackNext)
    (streamSound : StreamSound counts process name stream (numbersOf handed name) inst.leases) :
    InstanceSound counts process (inst.nextFallback name stream).2 locals
      (handed ++ [(name, (inst.nextFallback name stream).1)]) := by
  have numbers := sound.numbers name
  obtain ⟨index, isIndex, _⟩ := sound.index isShared
  refine sound.number sameLeasing ?_ ?_
  · refine @StreamSound.of_numbers counts process name _
      (numbersOf handed name) _ inst.leases ?_
      (mem_append_leased fun _ same => by cases same)
    exact ⟨streamSound.current, streamSound.spare, streamSound.leased, streamSound.belowCurrent,
      streamSound.belowSpare, streamSound.belowCounted, streamSound.spareAfter⟩
  · refine ⟨?_, ?_, ?_, rises_append numbers.rises ?_⟩
    · intro count isCaller
      rcases mem_append.mp isCaller with wasThere | isNew
      · exact numbers.caller count wasThere
      · cases mem_singleton.mp isNew
    · intro value _
      exact isShared
    · intro index' count isFallback
      simp only [Instance.setStream, Function.update_self]
      rcases mem_append.mp isFallback with wasThere | isNew
      · obtain ⟨_, _, isIndex', isLess⟩ := numbers.fallback index' count wasThere
        refine ⟨isShared, trivial, isIndex', ?_⟩
        rw [sameNext]
        exact Nat.lt_succ_of_lt isLess
      · cases mem_singleton.mp isNew
        refine ⟨isShared, trivial, ?_, Nat.lt_succ_self _⟩
        rw [isIndex]
        rfl
    · intro earlier wasThere
      cases earlier with
      | caller count =>
        rw [(numbers.caller count wasThere).1] at isShared
        cases isShared
      | leased value => exact trivial
      | fallback index' count =>
        obtain ⟨_, _, isIndex', isLess⟩ := numbers.fallback index' count wasThere
        rw [isIndex] at isIndex'
        cases isIndex'
        refine ⟨by rw [isIndex]; rfl, ?_⟩
        rw [sameNext]
        exact isLess

/-- What `next` hands out keeps a shared process sound. -/
theorem InstanceSound.next (sound : InstanceSound counts process inst locals handed)
    (isShared : inst.shared = true) (name : String) (counted : Nat) (shares loads : Bool) :
    InstanceSound counts process (inst.next name counted shares loads).2
      locals (handed ++ [(name, (inst.next name counted shares loads).1)]) ∧
      ∀ count, (inst.next name counted shares loads).1 ≠ .caller count := by
  unfold Instance.next
  rw [if_neg (by rw [isShared]; exact Bool.noConfusion)]
  simp only
  have turned := (sound.streams name).turn
  split
  · exact ⟨sound.nextFallback isShared rfl rfl (sound.streams name), fun _ same => by cases same⟩
  · rename_i falls
    rw [Bool.not_eq_true] at falls
    cases isCurrent : (inst.streams name).turn.current with
    | none =>
      exact ⟨sound.nextFallback isShared (by simp) (by simp) turned, fun _ same => by cases same⟩
    | some range =>
      simp only
      split
      · rename_i isLeft
        have next := sound.nextLeased isShared falls isCurrent isLeft
        exact ⟨next.prefetch isShared name loads, fun _ same => by cases same⟩
      · exact ⟨sound.nextFallback isShared (by simp) (by simp) turned, fun _ same => by cases same⟩

/-! ## The store's answers -/

/-- A lease at another stage, and what was counted of the others. -/
theorem counted_of_set {leases : List Lease} {lease : Lease} {name : String} {count : Nat}
    (counted : Counted (leases.set index lease) name count) :
    Counted leases name count ∨ (lease.stream = name ∧ lease.stage = .counted count) := by
  obtain ⟨one, isOne, isStream, isCounted⟩ := counted
  rcases mem_or_eq_of_mem_set isOne with wasThere | rfl
  · exact .inl ⟨one, wasThere, isStream, isCounted⟩
  · exact .inr ⟨isStream, isCounted⟩

/-- Leases of the same streams and starts are as well placed. -/
theorem Phase.of_set (phase : Phase inst) {lease changed : Lease}
    (isLease : inst.leases[index]? = some lease) (sameStarts : changed.starts = lease.starts) :
    Phase { inst with leases := inst.leases.set index changed } := by
  obtain ⟨inRange, isAt⟩ := List.getElem?_eq_some_iff.mp isLease
  have isMember : lease ∈ inst.leases := by
    rw [← isAt]
    exact getElem_mem inRange
  refine ⟨?_, ?_, ?_⟩
  · intro isShared
    obtain ⟨isStarted, noStart⟩ := phase.shared isShared
    refine ⟨isStarted, ?_⟩
    intro one isOne
    rcases mem_or_eq_of_mem_set isOne with wasThere | rfl
    · exact noStart one wasThere
    · rw [sameStarts]
      exact noStart lease isMember
  · intro notShared
    rcases phase.alone notShared with
      none | ⟨origin, rest, only, isChain, isOnly, starts⟩
    · rw [none] at isMember
      cases isMember
    · refine .inr ⟨origin, rest, changed, isChain, ?_, ?_⟩
      · have isFirst : index = 0 := by
          simpa [isOnly] using inRange
        subst isFirst
        simp only [isOnly]
        rfl
      · rw [isOnly] at isMember
        rw [sameStarts, mem_singleton.mp isMember]
        exact starts
  · intro origin rest isChain
    have none := phase.idle origin rest isChain
    rw [none] at isMember
    cases isMember

/-- The streams of the leases stay when one is at another stage. -/
theorem map_stream_set {leases : List Lease} {lease changed : Lease}
    (isLease : leases[index]? = some lease) (sameStream : changed.stream = lease.stream) :
    (leases.set index changed).map Lease.stream = leases.map Lease.stream := by
  obtain ⟨inRange, isAt⟩ := List.getElem?_eq_some_iff.mp isLease
  rw [map_set, sameStream, ← isAt]
  apply ext_getElem
  · simp
  · intro other _ _
    by_cases isIndex : index = other
    · subst isIndex
      simp
    · simp [isIndex]

/-- A lease at another stage keeps a process sound where its count is above. -/
theorem InstanceSound.set (sound : InstanceSound counts process inst locals handed)
    (grows : Grows counts counts') {lease changed : Lease}
    (isLease : inst.leases[index]? = some lease) (sameStream : changed.stream = lease.stream)
    (sameStarts : changed.starts = lease.starts)
    (above :
      ∀ count, changed.stage = .counted count →
        Owned counts' (.block lease.stream) process count ∧
          (counts (.block lease.stream)).length ≤ count - 1) :
    InstanceSound counts' process
      { inst with leases := inst.leases.set index changed } locals handed := by
  have isMember : lease ∈ inst.leases := mem_of_getElem? isLease
  have grown := sound.mono grows
  refine ⟨?_, ?_, ?_, ?_, sound.phase.of_set isLease sameStarts, grown.index, grown.asked⟩
  · intro name
    have old := sound.streams name
    have new := grown.streams name
    refine ⟨new.current, new.spare, new.leased, new.belowCurrent,
      new.belowSpare, ?_, new.spareAfter⟩
    intro count counted
    rcases counted_of_set counted with wasCounted | ⟨isStream, isCounted⟩
    · exact new.belowCounted count wasCounted
    · rw [sameStream] at isStream
      subst isStream
      obtain ⟨owned, isAbove⟩ := above count isCounted
      have bounded
          {count' : Nat}
          (owned' : Owned counts (.block lease.stream) process count') :
          count' * block ≤ (count - 1) * block :=
        Nat.mul_le_mul_right block (Nat.le_trans owned'.le_length isAbove)
      refine ⟨owned, ?_, ?_, ?_⟩
      · intro value isLeased
        obtain ⟨count', owned', _, within⟩ := old.leased value isLeased
        exact Nat.le_trans within (bounded owned')
      · intro range isCurrent
        obtain ⟨count', owned', _, _, isLast⟩ := old.current range isCurrent
        rw [isLast]
        exact bounded owned'
      · intro range isSpare
        obtain ⟨count', owned', rfl⟩ := old.spare range isSpare
        exact bounded owned'
  · intro name
    exact (sound.numbers name).congr rfl rfl rfl fun _ => rfl
  · intro one isOne
    rcases mem_or_eq_of_mem_set isOne with wasThere | rfl
    · exact sound.leasing one wasThere
    · rw [sameStream]
      exact sound.leasing lease isMember
  · rw [map_stream_set isLease sameStream]
    exact sound.distinct

/-- One stream changes, and its numbers do not. -/
theorem InstanceSound.setStream (sound : InstanceSound counts process inst locals handed)
    {name : String} (sameLeasing : stream.leasing = (inst.streams name).leasing)
    (sameFallback : stream.fallback = (inst.streams name).fallback)
    (sameNext : stream.fallbackNext = (inst.streams name).fallbackNext)
    (streamSound : StreamSound counts process name stream (numbersOf handed name) inst.leases) :
    InstanceSound counts process (inst.setStream name stream) locals
      handed := by
  refine ⟨?_, ?_, ?_, sound.distinct, ?_, sound.index, sound.asked⟩
  · intro other
    simp only [Instance.setStream]
    by_cases isName : other = name
    · subst isName
      rw [Function.update_self]
      exact streamSound
    · rw [Function.update_of_ne isName]
      exact sound.streams other
  · intro other
    refine (sound.numbers other).congr rfl ?_ ?_ fun _ => rfl
    · by_cases isName : other = name
      · subst isName
        simpa [Instance.setStream] using sameFallback
      · simp [Instance.setStream, isName]
    · by_cases isName : other = name
      · subst isName
        simpa [Instance.setStream] using sameNext
      · simp [Instance.setStream, isName]
  · intro lease isLease
    simp only [Instance.setStream]
    by_cases isName : lease.stream = name
    · rw [isName, Function.update_self, sameLeasing, ← isName]
      exact sound.leasing lease isLease
    · rw [Function.update_of_ne isName]
      exact sound.leasing lease isLease
  · exact ⟨sound.phase.shared, sound.phase.alone, sound.phase.idle⟩

/-- A block that is above all others is placed. -/
theorem InstanceSound.place (sound : InstanceSound counts process inst locals handed)
    {name : String} {count : Nat} (owned : Owned counts (.block name) process count)
    (below : ∀ value, .leased value ∈ numbersOf handed name → value ≤ (count - 1) * block)
    (belowCurrent :
      ∀ range, (inst.streams name).current = some range → range.last ≤ (count - 1) * block)
    (noOther : ∀ other, ¬ Counted inst.leases name other) :
    InstanceSound counts process (inst.place name count) locals handed := by
  have stream := sound.streams name
  have positive := owned.1
  have smaller : (count - 1) * block ≤ count * block :=
    Nat.mul_le_mul_right block (Nat.sub_le count 1)
  unfold Instance.place
  simp only
  split
  · rename_i isCurrent
    have noSpare := stream.spareAfter isCurrent
    refine sound.setStream rfl rfl rfl ⟨?_, stream.spare, stream.leased, ?_, ?_, ?_, ?_⟩
    · rintro _ ⟨rfl⟩
      refine ⟨count, owned, ?_, ?_, rfl⟩
      · simp [Instance.rangeOf]
      · simp only [Instance.rangeOf]
        omega
    · rintro _ value ⟨rfl⟩ isLeased
      exact Nat.lt_succ_of_le (below value isLeased)
    · intro range isSpare
      simp only at isSpare
      rw [noSpare] at isSpare
      cases isSpare
    · intro other counted
      exact absurd counted (noOther other)
    · intro isNone
      cases isNone
  · rename_i held isCurrent
    refine sound.setStream rfl rfl rfl ⟨?_, ?_, stream.leased, ?_, ?_, ?_, ?_⟩
    · exact stream.current
    · rintro _ ⟨rfl⟩
      exact ⟨count, owned, rfl⟩
    · exact stream.belowCurrent
    · rintro _ ⟨rfl⟩
      refine ⟨?_, ?_⟩
      · intro value isLeased
        exact Nat.lt_succ_of_le (below value isLeased)
      · intro range isRange
        exact Nat.lt_succ_of_le (belowCurrent range isRange)
    · intro other counted
      exact absurd counted (noOther other)
    · intro isNone
      simp only at isNone
      rw [isCurrent] at isNone
      cases isNone

/-- Leases of one stream are one lease. -/
theorem InstanceSound.lease_unique
    (sound : InstanceSound counts process inst locals handed) {lease : Lease}
    (isLease : inst.leases[index]? = some lease) {changed : Lease}
    (sameStream : changed.stream = lease.stream) {other : Lease}
    (isOther : other ∈ inst.leases.set index changed) (isStream : other.stream = lease.stream) :
    other = changed := by
  have distinct : ((inst.leases.set index changed).map Lease.stream).Nodup := by
    rw [map_stream_set isLease sameStream]
    exact sound.distinct
  obtain ⟨inRange, _⟩ := List.getElem?_eq_some_iff.mp isLease
  exact inj_on_of_nodup_map distinct isOther
    (mem_set inRange changed) (isStream.trans sameStream.symm)

/-- The answer to a counted lease keeps a process sound. -/
theorem InstanceSound.answered (sound : InstanceSound counts process inst locals handed)
    {index count : Nat} {lease : Lease} (isLease : inst.leases[index]? = some lease)
    (isCounted : lease.stage = .counted count) :
    InstanceSound counts process
      (({ inst with
          leases :=
            inst.leases.set index
              { lease with stage := .handled } } : Instance).place
        lease.stream count) locals handed := by
  have handled :=
    sound.set (fun _ => prefix_refl _) isLease
      (@rfl _ ({ lease with stage := .handled } : Lease).stream) rfl
      (fun _ isCounted => by cases isCounted)
  obtain ⟨owned, below, belowCurrent, _⟩ :=
    (sound.streams lease.stream).belowCounted count
      ⟨lease, mem_of_getElem? isLease, rfl, isCounted⟩
  refine handled.place owned below belowCurrent ?_
  rintro other ⟨one, isOne, isStream, isCounted⟩
  have isHandled :=
    sound.lease_unique isLease
      (@rfl _ ({ lease with stage := .handled } : Lease).stream) isOne isStream
  rw [isHandled] at isCounted
  cases isCounted

/-- A lease whose last callback has run is no longer under way. -/
theorem InstanceSound.settled (sound : InstanceSound counts process inst locals handed)
    {lease : Lease} (isLease : inst.leases[index]? = some lease)
    (sameStarting :
      starting =
        match lease.starts, inst.starting with
        | true, some (.chain origin rest _) => some (.chain origin rest false)
        | _, starting => starting) :
    InstanceSound counts process
      { inst.setStream lease.stream
          { inst.streams lease.stream with leasing := false } with
        leases := inst.leases.eraseIdx index
        starting := starting } locals handed := by
  obtain ⟨inRange, isAt⟩ := List.getElem?_eq_some_iff.mp isLease
  have isMember : lease ∈ inst.leases := mem_of_getElem? isLease
  have fewer {one : Lease} (isLeft : one ∈ inst.leases.eraseIdx index) :
      one ∈ inst.leases :=
    mem_of_mem_eraseIdx isLeft
  have distinctLeft :
      ((inst.leases.eraseIdx index).map Lease.stream).Nodup :=
    sound.distinct.sublist ((eraseIdx_sublist _ _).map _)
  have isOther {one : Lease} (isLeft : one ∈ inst.leases.eraseIdx index) :
      one.stream ≠ lease.stream := by
    intro sameStream
    have isSame : one = lease :=
      inj_on_of_nodup_map sound.distinct (fewer isLeft) isMember sameStream
    rw [isSame, mem_eraseIdx_iff_getElem] at isLeft
    obtain ⟨other, inRange', notIndex, isThere⟩ := isLeft
    have distinct : inst.leases.Nodup := List.Nodup.of_map _ sound.distinct
    exact notIndex ((List.Nodup.getElem_inj_iff distinct).mp (isThere.trans isAt.symm))
  refine ⟨?_, ?_, ?_, distinctLeft, ?_, sound.index, ?_⟩
  · intro other
    simp only [Instance.setStream]
    have kept (count : Nat)
        (counted : Counted (inst.leases.eraseIdx index) other count) :
        Counted inst.leases other count := by
      obtain ⟨one, isOne, rest⟩ := counted
      exact ⟨one, fewer isOne, rest⟩
    have same := (sound.streams other).mono (fun _ => prefix_refl _) kept
    by_cases isName : other = lease.stream
    · subst isName
      rw [Function.update_self]
      exact ⟨same.current, same.spare, same.leased, same.belowCurrent,
        same.belowSpare, same.belowCounted, same.spareAfter⟩
    · rw [Function.update_of_ne isName]
      exact same
  · intro other
    refine (sound.numbers other).congr rfl ?_ ?_ fun _ => rfl
    · by_cases isName : other = lease.stream
      · subst isName
        simp [Instance.setStream]
      · simp [Instance.setStream, isName]
    · by_cases isName : other = lease.stream
      · subst isName
        simp [Instance.setStream]
      · simp [Instance.setStream, isName]
  · intro one isLeft
    simp only [Instance.setStream]
    rw [Function.update_of_ne (isOther isLeft)]
    exact sound.leasing one (fewer isLeft)
  · refine ⟨?_, ?_, ?_⟩
    · intro isShared
      obtain ⟨isStarted, noStart⟩ := sound.phase.shared isShared
      refine ⟨?_, fun one isLeft => noStart one (fewer isLeft)⟩
      simp only [sameStarting, noStart lease isMember]
      exact isStarted
    · intro notShared
      rcases sound.phase.alone notShared with
        none | ⟨origin, rest, only, _, isOnly, _⟩
      · rw [none] at isMember
        cases isMember
      · left
        have isFirst : index = 0 := by simpa [isOnly] using inRange
        subst isFirst
        simp only [isOnly]
        rfl
    · intro origin rest isChain
      by_cases isShared : inst.shared = true
      · obtain ⟨isStarted, noStart⟩ := sound.phase.shared isShared
        simp only [sameStarting, noStart lease isMember] at isChain
        rcases isStarted with isNone | isClosing
        · rw [isNone] at isChain
          cases isChain
        · rw [isClosing] at isChain
          cases isChain
      · rw [Bool.not_eq_true] at isShared
        rcases sound.phase.alone isShared with
          none | ⟨origin, rest, only, _, isOnly, _⟩
        · rw [none] at isMember
          cases isMember
        · have isFirst : index = 0 := by
            simpa [isOnly] using inRange
          subst isFirst
          simp only [isOnly]
          rfl
  · intro origin isAsked
    refine sound.asked origin ?_
    simp only [sameStarting] at isAsked
    split at isAsked
    · rename_i isChain
      rcases isAsked with isOrigin | ⟨rest, waiting, isChain'⟩
      · cases isOrigin
      · cases isChain'
        exact .inr ⟨_, _, isChain⟩
    · exact isAsked

/-- A start that fails keeps a process sound that has not leased. -/
theorem InstanceSound.fail (sound : InstanceSound counts process inst locals handed)
    (notShared : inst.shared = false) (noLease : inst.leases = []) {origin : Option Nat} :
    InstanceSound counts process
      ({ inst with originIndex := origin } : Instance).fail locals
      handed := by
  have noLeased (name : String) (value : Nat) : .leased value ∉ numbersOf handed name := by
    intro isLeased
    have isShared := (sound.numbers name).leased value isLeased
    rw [notShared] at isShared
    cases isShared
  refine ⟨?_, ?_, ?_, sound.distinct, ?_, ?_, ?_⟩
  · intro name
    simp only [Instance.fail, noLease]
    exact StreamSound.new counts process name (noLeased name)
  · intro name
    refine ⟨(sound.numbers name).caller, (sound.numbers name).leased, ?_,
      (sound.numbers name).rises⟩
    intro index count isFallback
    have isShared := ((sound.numbers name).fallback index count isFallback).1
    rw [notShared] at isShared
    cases isShared
  · intro lease isLease
    simp only [Instance.fail, noLease] at isLease
    cases isLease
  · refine ⟨?_, fun _ => .inl noLease, ?_⟩
    · intro isShared
      simp only [Instance.fail] at isShared
      rw [notShared] at isShared
      cases isShared
    · intro index rest isChain
      cases isChain
  · intro isShared
    simp only [Instance.fail] at isShared
    rw [notShared] at isShared
    cases isShared
  · rintro index (isAsked | ⟨rest, waiting, isAsked⟩) <;> cases isAsked

/-- A process that waits for its origin index has leased nothing. -/
theorem InstanceSound.idle_of_origin
    (sound : InstanceSound counts process inst locals handed) {counted : Option Nat}
    (isOrigin : inst.starting = some (.origin counted)) :
    inst.shared = false ∧ inst.leases = [] := by
  have notShared : inst.shared = false := by
    cases isShared : inst.shared with
    | false => rfl
    | true =>
      rcases (sound.phase.shared isShared).1 with isNone | isClosing
      · rw [isOrigin] at isNone
        cases isNone
      · rw [isOrigin] at isClosing
        cases isClosing
  refine ⟨notShared, ?_⟩
  rcases sound.phase.alone notShared with none | ⟨_, _, _, isChain, _⟩
  · exact none
  · rw [isOrigin] at isChain
    cases isChain

/-- Where `start` stands may change while nothing is leased. -/
theorem InstanceSound.setStarting (sound : InstanceSound counts process inst locals handed)
    (idle : inst.shared = false ∧ inst.leases = []) {starting : Starting}
    (asked :
      ∀ index,
        (starting = .origin (some index) ∨
          ∃ rest waiting, starting = .chain index rest waiting) →
          Owned counts .origin process index) :
    InstanceSound counts process { inst with starting := some starting } locals handed := by
  obtain ⟨notShared, noLease⟩ := idle
  refine ⟨sound.streams, ?_, sound.leasing, sound.distinct, ?_, sound.index, ?_⟩
  · intro name
    exact (sound.numbers name).congr rfl rfl rfl fun _ => rfl
  · refine ⟨?_, fun _ => .inl noLease, fun _ _ _ => noLease⟩
    intro isShared
    simp only at isShared
    rw [notShared] at isShared
    cases isShared
  · rintro index (isAsked | ⟨rest, waiting, isAsked⟩)
    · exact asked index (.inl (Option.some_inj.mp isAsked))
    · exact asked index (.inr ⟨rest, waiting, Option.some_inj.mp isAsked⟩)

/-- A start that is over is forgotten. -/
theorem InstanceSound.close (sound : InstanceSound counts process inst locals handed)
    (isClosing : inst.starting = some .closing) :
    InstanceSound counts process { inst with starting := none } locals
      handed := by
  refine ⟨sound.streams, ?_, sound.leasing, sound.distinct, ?_, sound.index, ?_⟩
  · intro name
    exact (sound.numbers name).congr rfl rfl rfl fun _ => rfl
  · refine ⟨?_, ?_, ?_⟩
    · intro isShared
      exact ⟨.inl rfl, (sound.phase.shared isShared).2⟩
    · intro notShared
      rcases sound.phase.alone notShared with none | ⟨_, _, _, isChain, _⟩
      · exact .inl none
      · rw [isClosing] at isChain
        cases isChain
    · intro index rest isChain
      cases isChain
  · rintro index (isAsked | ⟨rest, waiting, isAsked⟩) <;> cases isAsked

/-- A process that is being started has not leased. -/
theorem InstanceSound.not_shared_of_chain
    (sound : InstanceSound counts process inst locals handed) {waiting : Bool}
    (isChain : inst.starting = some (.chain index rest waiting)) :
    inst.shared = false := by
  cases isShared : inst.shared with
  | false => rfl
  | true =>
    rcases (sound.phase.shared isShared).1 with isNone | isClosing
    · rw [isChain] at isNone
      cases isNone
    · rw [isChain] at isClosing
      cases isClosing

/-- A start that leases one more stream keeps a process sound. -/
theorem InstanceSound.proceedLease
    (sound : InstanceSound counts process inst locals handed) {name : String}
    (isChain : inst.starting = some (.chain index (name :: rest) false)) (loads : Bool) :
    InstanceSound counts process
      { inst.lease name true loads with
        starting := some (.chain index rest loads) } locals handed := by
  have notShared := sound.not_shared_of_chain isChain
  have noLease := sound.phase.idle _ _ isChain
  refine sound.lease ?_ ?_ ?_
  · intro lease isLease
    rw [noLease] at isLease
    cases isLease
  · cases loads with
    | true =>
      refine ⟨?_, fun _ => .inr ⟨index, rest, ⟨name, true, .waiting⟩, rfl, ?_, rfl⟩, ?_⟩
      · intro isShared
        simp only [Instance.lease, if_true, Instance.setStream] at isShared
        rw [notShared] at isShared
        cases isShared
      · simp [Instance.lease, Instance.setStream, noLease]
      · intro other rest' isIdle
        cases isIdle
    | false =>
      refine ⟨?_, fun _ => .inl noLease, fun _ _ _ => noLease⟩
      intro isShared
      simp only [Instance.lease, Bool.false_eq_true, if_false, Instance.setStream] at isShared
      rw [notShared] at isShared
      cases isShared
  · rintro other (isAsked | ⟨rest', waiting, isAsked⟩)
    · cases isAsked
    · cases isAsked
      exact sound.asked index (.inr ⟨_, _, isChain⟩)

/-- A process that has leased before any number is handed out is sound. -/
theorem InstanceSound.finish (sound : InstanceSound counts process inst locals [])
    (isChain : inst.starting = some (.chain index [] false)) :
    InstanceSound counts process
      { inst with
        originIndex := some index
        shared := true
        starting := some .closing } locals [] := by
  have noLease := sound.phase.idle _ _ isChain
  refine ⟨sound.streams, ?_, sound.leasing, sound.distinct, ?_, ?_, ?_⟩
  · intro name
    exact ⟨by simp [numbersOf], by simp [numbersOf], by simp [numbersOf],
      by simp [numbersOf]⟩
  · refine ⟨?_, ?_, ?_⟩
    · intro _
      refine ⟨.inr rfl, ?_⟩
      intro lease isLease
      simp only [noLease] at isLease
      cases isLease
    · intro notShared
      cases notShared
    · intro other rest isIdle
      cases isIdle
  · intro _
    exact ⟨index, rfl, sound.asked index (.inr ⟨_, _, isChain⟩)⟩
  · rintro other (isAsked | ⟨rest, waiting, isAsked⟩) <;> cases isAsked

/-- The next callback of `start` keeps a process sound. -/
theorem InstanceSound.proceed (sound : InstanceSound counts process inst locals handed)
    (prompt : ∀ index, inst.starting = some (.chain index [] false) → handed = []) (loads : Bool) :
    InstanceSound counts process (inst.proceed loads) locals handed := by
  unfold Instance.proceed
  split
  · rename_i index name rest isChain
    exact sound.proceedLease isChain loads
  · rename_i index isChain
    have none := prompt index isChain
    subst none
    simp only
    split
    · exact sound.finish isChain
    · exact sound.fail (sound.not_shared_of_chain isChain) (sound.phase.idle _ _ isChain)
  · exact sound

end

/-! ## Runs -/

/-- Every process is sound. -/
def Sound (world : World) : Prop :=
  ∀ process,
    InstanceSound world.counts process (world.instances process)
      (world.locals process) (world.handed process)

/--
A process leases its first blocks before it has handed out a number, if the
event is that it does.
-/
def prompt (world : World) : Event → Bool
  | .proceed process _ =>
    match (world.instances process).starting with
    | some (.chain _ [] false) => (world.handed process).isEmpty
    | _ => true
  | _ => true

/-- Every process of a run leases before it hands out a number, or never. -/
def Prompt (world : World) : List Event → Prop
  | [] => True
  | event :: rest => prompt world event = true ∧ Prompt (step world event) rest

/-- One process changes. -/
theorem Sound.setInstance {world : World} (sound : Sound world) {process : Nat} {inst : Instance}
    (instSound :
      InstanceSound world.counts process inst (world.locals process)
        (world.handed process)) :
    Sound (world.setInstance process inst) := by
  intro other
  unfold World.setInstance
  by_cases isProcess : other = process
  · subst isProcess
    simp only [Function.update_self]
    exact instSound
  · simp only [Function.update_of_ne isProcess]
    exact sound other

/-- The store counts one process. -/
theorem Sound.count {world : World} (sound : Sound world) (key : Key) (process : Nat) :
    Sound (world.count key process) :=
  fun other => (sound other).mono (count_grows world key process)

/-- The next number keeps every process sound. -/
theorem Sound.next {world : World} (sound : Sound world) (process : Nat) (name : String)
    (shares loads : Bool) :
    Sound (stepNext world process name shares loads) := by
  intro other
  unfold stepNext World.setInstance
  simp only
  by_cases isProcess : other = process
  · subst isProcess
    have mine := sound other
    simp only [Function.update_self]
    cases isShared : (world.instances other).shared with
    | true =>
      obtain ⟨kept, notCaller⟩ := mine.next isShared name (world.locals other name + 1) shares loads
      cases isNumber :
          ((world.instances other).next name
            (world.locals other name + 1) shares loads).1 with
      | caller count => exact absurd isNumber (notCaller count)
      | leased value =>
        rw [isNumber] at kept
        exact kept
      | fallback index count =>
        rw [isNumber] at kept
        exact kept
    | false =>
      have isNext :
          (world.instances other).next name
              (world.locals other name + 1) shares loads =
            (.caller (world.locals other name + 1), (world.instances other).startLater shares) := by
        unfold Instance.next
        rw [if_pos isShared]
      rw [isNext]
      simp only [Function.update_self]
      have notShared : ((world.instances other).startLater shares).shared = false := by
        unfold Instance.startLater Instance.start
        split
        · split <;> exact isShared
        · exact isShared
      exact (mine.startLater shares).caller notShared name
  · have mine := sound other
    rw [Function.update_of_ne isProcess, Function.update_of_ne isProcess]
    cases ((world.instances process).next name (world.locals process name + 1) shares loads).1 with
    | caller count =>
      dsimp only
      rw [Function.update_of_ne isProcess]
      exact mine
    | leased value => exact mine
    | fallback index count => exact mine

/-- Every event keeps every process sound, if leases come first. -/
theorem Sound.step {world : World} (sound : Sound world) {event : Event}
    (isPrompt : prompt world event = true) :
    Sound (step world event) := by
  cases event with
  | next process name shares loads => exact sound.next process name shares loads
  | start process shares => exact sound.setInstance ((sound process).start shares)
  | countOrigin process =>
    simp only [SeqAllocator.step]
    split
    · rename_i isOrigin
      have counted := sound.count .origin process
      refine counted.setInstance
        ((counted process).setStarting ((sound process).idle_of_origin isOrigin) ?_)
      rintro index (isAsked | ⟨rest, waiting, isAsked⟩)
      · cases isAsked
        exact count_owned world .origin process
      · cases isAsked
    · exact sound
  | answerOrigin process ok =>
    simp only [SeqAllocator.step, stepAnswerOrigin]
    split
    · rename_i counted isOrigin
      have idle := (sound process).idle_of_origin isOrigin
      split
      · cases counted with
        | none => exact sound
        | some index =>
          refine sound.setInstance ((sound process).setStarting idle ?_)
          rintro other (isAsked | ⟨rest, waiting, isAsked⟩)
          · cases isAsked
          · cases isAsked
            exact (sound process).asked index (.inl isOrigin)
      · exact sound.setInstance ((sound process).fail idle.1 idle.2)
    · exact sound
  | proceed process loads =>
    refine sound.setInstance ((sound process).proceed ?_ loads)
    intro index isChain
    simp only [prompt, isChain] at isPrompt
    exact isEmpty_iff.mp isPrompt
  | countLease process index =>
    simp only [SeqAllocator.step, stepCountLease]
    cases isLease : (world.instances process).leases[index]? with
    | none => exact sound
    | some lease =>
      simp only
      split
      · refine (sound.count (.block lease.stream) process).setInstance
          ((sound process).set (count_grows world (.block lease.stream) process) isLease rfl rfl ?_)
        intro count isCounted
        cases isCounted
        exact ⟨count_owned world (.block lease.stream) process, Nat.le_refl _⟩
      · exact sound
  | answerLease process index ok =>
    simp only [SeqAllocator.step, stepAnswerLease]
    cases isLease : (world.instances process).leases[index]? with
    | none => exact sound
    | some lease =>
      have handled :=
        (sound process).set (fun _ => prefix_refl _) isLease
          (@rfl _ ({ lease with stage := .handled } : Lease).stream) rfl
          (fun _ isCounted => by cases isCounted)
      simp only
      split
      · rename_i count isCounted
        exact sound.setInstance ((sound process).answered isLease isCounted)
      · exact sound.setInstance handled
      · exact sound.setInstance handled
      · exact sound
  | settleLease process index =>
    simp only [SeqAllocator.step, stepSettleLease]
    cases isLease : (world.instances process).leases[index]? with
    | none => exact sound
    | some lease =>
      simp only
      split
      · exact sound.setInstance ((sound process).settled isLease rfl)
      · exact sound
  | close process =>
    simp only [SeqAllocator.step]
    split
    · rename_i isClosing
      exact sound.setInstance ((sound process).close isClosing)
    · exact sound

variable {events : List Event}

/-- Every run keeps every process sound, if leases come first. -/
theorem Sound.run {world : World} (sound : Sound world) (isPrompt : Prompt world events) :
    Sound (events.foldl SeqAllocator.step world) := by
  induction events generalizing world with
  | nil => exact sound
  | cons event rest ih => exact ih (sound.step isPrompt.1) isPrompt.2

/-! ## The numbers themselves -/

/-- The store has counted few enough to keep every number apart. -/
structure Few (world : World) : Prop where
  origins : (world.counts .origin).length < originSlots
  leased : ∀ name, (world.counts (.block name)).length * block ≤ fallbackBase
  fallbacks : ∀ process name, ((world.instances process).streams name).fallbackNext ≤ originSpan

/-- The numbers a process has handed out for a stream. -/
def valuesOf (world : World) (process : Nat) (name : String) : List Nat :=
  (numbersOf (world.handed process) name).map Number.value

/-- A number of a block is below the fallback ranges. -/
theorem leased_le {world : World} (few : Few world) {process : Nat} {name : String}
    {count value : Nat} (owned : Owned world.counts (.block name) process count)
    (within : value ≤ count * block) :
    value ≤ fallbackBase :=
  calc value
      ≤ count * block := within
    _ ≤ (world.counts (.block name)).length * block := Nat.mul_le_mul_right block owned.le_length
    _ ≤ fallbackBase := few.leased name

/-- The value of a fallback number, where none wraps. -/
theorem fallback_value {index count : Nat} (indexSmall : index < originSlots)
    (countSmall : count < originSpan) :
    (Number.fallback index count).value = fallbackBase + index * originSpan + count := by
  rw [Number.value, Nat.mod_eq_of_lt indexSmall, Nat.mod_eq_of_lt countSmall]

section

variable {world : World} {process : Nat} {name : String}

/-- What is known of a number that a process handed out after leasing. -/
theorem Sound.of_fallback (sound : Sound world) (few : Few world) {index count : Nat}
    (isNumber : .fallback index count ∈ numbersOf (world.handed process) name) :
    Owned world.counts .origin process index ∧
      (Number.fallback index count).value =
        fallbackBase + index * originSpan + count ∧ count < originSpan := by
  obtain ⟨isShared, _, isIndex, isLess⟩ :=
    ((sound process).numbers name).fallback index count isNumber
  obtain ⟨index', isIndex', owned⟩ := (sound process).index isShared
  rw [isIndex] at isIndex'
  cases isIndex'
  have countSmall := Nat.lt_of_lt_of_le isLess (few.fallbacks process name)
  have indexSmall := Nat.lt_of_le_of_lt owned.le_length few.origins
  exact ⟨owned, fallback_value indexSmall countSmall, countSmall⟩

/-- The numbers of a stream rise as they are handed out. -/
theorem Sound.values_rise (sound : Sound world) (few : Few world) :
    (valuesOf world process name).Pairwise (· < ·) := by
  rw [valuesOf, pairwise_map]
  refine ((sound process).numbers name).rises.imp_of_mem ?_
  intro first last isFirst isLast precedes
  cases first with
  | caller count =>
    cases last with
    | caller later => exact precedes
    | _ => cases precedes
  | leased value =>
    cases last with
    | caller later => cases precedes
    | leased later => exact precedes
    | fallback index count =>
      obtain ⟨block', owned, _, within⟩ := ((sound process).streams name).leased value isFirst
      obtain ⟨ownedIndex, isValue, _⟩ := sound.of_fallback few isLast
      have positive := ownedIndex.1
      have below := leased_le few owned within
      rw [isValue, Number.value]
      have span : 1 * originSpan ≤ index * originSpan := Nat.mul_le_mul_right originSpan positive
      have : 0 < originSpan := by decide
      omega
  | fallback index count =>
    cases last with
    | caller later => cases precedes
    | leased later => cases precedes
    | fallback index' later =>
      obtain ⟨rfl, isLess⟩ := precedes
      rw [(sound.of_fallback few isFirst).2.1, (sound.of_fallback few isLast).2.1]
      omega

/-- Two processes that have leased share no number of a stream. -/
theorem Sound.values_apart (sound : Sound world) (few : Few world) {process' : Nat}
    (isOther : process ≠ process') (isShared : (world.instances process).shared = true)
    (isShared' : (world.instances process').shared = true) {value : Nat}
    (isValue : value ∈ valuesOf world process name) :
    value ∉ valuesOf world process' name := by
  intro isValue'
  obtain ⟨number, isNumber, rfl⟩ := mem_map.mp isValue
  obtain ⟨number', isNumber', same⟩ := mem_map.mp isValue'
  have below
      {process : Nat}
      {value index count : Nat}
      {process' : Nat}
      (isLeased : .leased value ∈ numbersOf (world.handed process) name)
      (isFallback : .fallback index count ∈ numbersOf (world.handed process') name) :
      value < (Number.fallback index count).value := by
    obtain ⟨block', owned, _, within⟩ := ((sound process).streams name).leased value isLeased
    obtain ⟨ownedIndex, isValue, _⟩ := sound.of_fallback few isFallback
    have positive := ownedIndex.1
    have isBelow := leased_le few owned within
    rw [isValue]
    have span : 1 * originSpan ≤ index * originSpan := Nat.mul_le_mul_right originSpan positive
    have : 0 < originSpan := by decide
    omega
  cases number with
  | caller count =>
    rw [(((sound process).numbers name).caller count isNumber).1] at isShared
    cases isShared
  | leased value =>
    cases number' with
    | caller count =>
      rw [(((sound process').numbers name).caller count isNumber').1]
        at isShared'
      cases isShared'
    | leased value' =>
      simp only [Number.value] at same
      subst same
      obtain ⟨block', owned, above, within⟩ := ((sound process).streams name).leased value' isNumber
      obtain ⟨block'', owned', above', within'⟩ :=
        ((sound process').streams name).leased value' isNumber'
      have sameBlock : block' = block'' := by
        have positive := owned.1
        have positive' := owned'.1
        unfold block at above within above' within'
        omega
      subst sameBlock
      exact isOther (owned.unique owned')
    | fallback index count => exact absurd same (Nat.ne_of_gt (below isNumber isNumber'))
  | fallback index count =>
    cases number' with
    | caller later =>
      rw [(((sound process').numbers name).caller later isNumber').1]
        at isShared'
      cases isShared'
    | leased value' => exact absurd same (Nat.ne_of_lt (below isNumber' isNumber))
    | fallback index' count' =>
      obtain ⟨owned, isValue, small⟩ := sound.of_fallback few isNumber
      obtain ⟨owned', isValue', small'⟩ := sound.of_fallback few isNumber'
      rw [isValue, isValue'] at same
      have sameIndex : index = index' := by
        unfold originSpan at same small small'
        omega
      subst sameIndex
      exact isOther (owned.unique owned')

end

/-! ## Short runs count few -/

/-- An event counts at most once. -/
theorem step_counts (world : World) (event : Event) (key : Key) :
    ((step world event).counts key).length ≤ (world.counts key).length + 1 := by
  have counted (key' : Key) (process : Nat) :
      ((world.count key' process).counts key).length ≤ (world.counts key).length + 1 := by
    unfold World.count
    by_cases isKey : key = key'
    · subst isKey
      simp
    · simp [isKey]
  have same : (world.counts key).length ≤ (world.counts key).length + 1 := Nat.le_succ _
  cases event with
  | countOrigin process =>
    simp only [step]
    split
    · exact counted .origin process
    · exact same
  | countLease process index =>
    simp only [step, stepCountLease]
    split
    · split
      · exact counted _ process
      · exact same
    · exact same
  | answerOrigin process ok =>
    simp only [step, stepAnswerOrigin]
    repeat' split
    all_goals exact same
  | answerLease process index ok =>
    simp only [step, stepAnswerLease]
    repeat' split
    all_goals exact same
  | settleLease process index =>
    simp only [step, stepSettleLease]
    repeat' split
    all_goals exact same
  | close process =>
    simp only [step]
    split
    · exact same
    · exact same
  | _ => exact same

/-- Setting a stream changes how far its fallback range has come alone. -/
theorem setStream_fallbackNext (inst : Instance) {name : String} {stream : Stream} {extra : Nat}
    (within : stream.fallbackNext ≤ (inst.streams name).fallbackNext + extra) (other : String) :
    ((inst.setStream name stream).streams other).fallbackNext ≤
      (inst.streams other).fallbackNext + extra := by
  unfold Instance.setStream
  by_cases isName : other = name
  · subst isName
    simpa using within
  · simp [isName]

theorem lease_fallbackNext (inst : Instance) (name : String) (starts loads : Bool)
    (other : String) :
    ((inst.lease name starts loads).streams other).fallbackNext ≤
      (inst.streams other).fallbackNext := by
  unfold Instance.lease
  split
  · exact @setStream_fallbackNext inst name
      { inst.streams name with leasing := true } 0 (Nat.le_refl _) other
  · exact @setStream_fallbackNext inst name
      { inst.streams name with leasing := false } 0 (Nat.le_refl _) other

theorem place_fallbackNext (inst : Instance) (name : String) (count : Nat) (other : String) :
    ((inst.place name count).streams other).fallbackNext ≤ (inst.streams other).fallbackNext := by
  unfold Instance.place
  simp only
  split
  · exact @setStream_fallbackNext inst name
      { inst.streams name with current := some (Instance.rangeOf count) } 0
      (Nat.le_refl _) other
  · exact @setStream_fallbackNext inst name
      { inst.streams name with spare := some (Instance.rangeOf count) } 0
      (Nat.le_refl _) other

/-- A number takes at most one of the fallback range. -/
theorem next_fallbackNext (inst : Instance) (name : String) (counted : Nat)
    (shares loads : Bool) (other : String) :
    ((inst.next name counted shares loads).2.streams other).fallbackNext ≤
      (inst.streams other).fallbackNext + 1 := by
  have falls (stream : Stream)
      (sameNext : stream.fallbackNext = (inst.streams name).fallbackNext) :
      ((inst.nextFallback name stream).2.streams other).fallbackNext ≤
        (inst.streams other).fallbackNext + 1 :=
    setStream_fallbackNext inst (by simp [sameNext]) other
  unfold Instance.next
  split
  · have unchanged : (inst.startLater shares).streams = inst.streams := by
      unfold Instance.startLater Instance.start
      split
      · split <;> rfl
      · rfl
    simp only [unchanged]
    exact Nat.le_succ _
  · simp only
    split
    · exact falls _ rfl
    · split
      · split
        · rename_i range _ _
          have placed :=
            @setStream_fallbackNext inst name
              { (inst.streams name).turn with
                current := some { range with next := range.next + 1 } } 0
              (by simp) other
          unfold Instance.prefetch
          simp only
          split
          · exact Nat.le_trans (lease_fallbackNext _ name false loads other)
              (Nat.le_succ_of_le placed)
          · exact Nat.le_succ_of_le placed
        · exact falls _ (by simp)
      · exact falls _ (by simp)

/-- An event takes at most one of each fallback range. -/
theorem step_fallbackNext (world : World) (event : Event) (process : Nat) (name : String) :
    (((step world event).instances process).streams name).fallbackNext ≤
      ((world.instances process).streams name).fallbackNext + 1 := by
  have set
      (world' : World)
      (sameInstances : world'.instances = world.instances)
      (changed : Nat)
      (inst : Instance)
      (within :
        (inst.streams name).fallbackNext ≤
          ((world.instances changed).streams name).fallbackNext + 1) :
      (((world'.setInstance changed inst).instances process).streams
        name).fallbackNext ≤
        ((world.instances process).streams name).fallbackNext + 1 := by
    unfold World.setInstance
    rw [sameInstances]
    by_cases isChanged : process = changed
    · subst isChanged
      simpa using within
    · simp [isChanged]
  have same :
      ((world.instances process).streams name).fallbackNext ≤
        ((world.instances process).streams name).fallbackNext + 1 :=
    Nat.le_succ _
  have failed (inst : Instance) (changed : Nat) :
      (inst.fail.streams name).fallbackNext ≤
        ((world.instances changed).streams name).fallbackNext + 1 :=
    Nat.zero_le _
  cases event with
  | next changed other shares loads =>
    exact set world rfl changed _ (next_fallbackNext _ other _ shares loads name)
  | start changed shares =>
    refine set world rfl changed _ ?_
    unfold Instance.start
    split
    · exact Nat.le_succ _
    · exact Nat.le_succ _
  | countOrigin changed =>
    simp only [step]
    split
    · exact set (world.count .origin changed) rfl changed _ (Nat.le_succ _)
    · exact same
  | answerOrigin changed ok =>
    simp only [step, stepAnswerOrigin]
    split
    · split
      · split
        · exact set world rfl changed _ (Nat.le_succ _)
        · exact same
      · exact set world rfl changed _ (failed _ changed)
    · exact same
  | proceed changed loads =>
    refine set world rfl changed _ ?_
    unfold Instance.proceed
    split
    · exact Nat.le_succ_of_le (lease_fallbackNext _ _ _ _ name)
    · simp only
      split
      · exact Nat.le_succ _
      · exact failed _ changed
    · exact Nat.le_succ _
  | countLease changed index =>
    simp only [step, stepCountLease]
    split
    · rename_i lease _
      split
      · exact set (world.count (.block lease.stream) changed) rfl changed _ (Nat.le_succ _)
      · exact same
    · exact same
  | answerLease changed index ok =>
    simp only [step, stepAnswerLease]
    split
    · rename_i lease _
      split
      · exact set world rfl changed _ (Nat.le_succ_of_le (place_fallbackNext _ _ _ name))
      · exact set world rfl changed _ (Nat.le_succ _)
      · exact set world rfl changed _ (Nat.le_succ _)
      · exact same
    · exact same
  | settleLease changed index =>
    simp only [step, stepSettleLease]
    split
    · rename_i lease _
      split
      · exact set world rfl changed _ (Nat.le_succ_of_le
          (@setStream_fallbackNext (world.instances changed) lease.stream
            { (world.instances changed).streams lease.stream with
              leasing := false } 0 (Nat.le_refl _) name))
      · exact same
    · exact same
  | close changed =>
    simp only [step]
    split
    · exact set world rfl changed _ (Nat.le_succ _)
    · exact same

/-- A run of fewer than a million events counts few. -/
theorem few_of_short (short : events.length < originSlots) : Few (run events) := by
  have bounded (world : World) :
      (∀ key, ((events.foldl step world).counts key).length ≤
        (world.counts key).length + events.length) ∧
        ∀ process name,
          (((events.foldl step world).instances process).streams
            name).fallbackNext ≤
            ((world.instances process).streams name).fallbackNext + events.length := by
    clear short
    induction events generalizing world with
    | nil => exact ⟨fun _ => Nat.le_refl _, fun _ _ => Nat.le_refl _⟩
    | cons event rest ih =>
      obtain ⟨counts, fallbacks⟩ := ih (step world event)
      constructor
      · intro key
        have stepped := step_counts world event key
        have later := counts key
        simp only [foldl_cons, length_cons]
        omega
      · intro process name
        have stepped := step_fallbackNext world event process name
        have later := fallbacks process name
        simp only [foldl_cons, length_cons]
        omega
  obtain ⟨counts, fallbacks⟩ := bounded World.start
  refine ⟨?_, ?_, ?_⟩
  · have counted := counts .origin
    simp only [World.start, length_nil, Nat.zero_add] at counted
    exact Nat.lt_of_le_of_lt counted short
  · intro name
    have counted := counts (.block name)
    simp only [World.start, length_nil, Nat.zero_add] at counted
    unfold originSlots at short
    simp only [run, World.start, block, fallbackBase]
    omega
  · intro process name
    have counted := fallbacks process name
    simp only [World.start, Instance.new, Stream.new, Nat.zero_add] at counted
    unfold originSlots at short
    simp only [run, World.start, Instance.new, Stream.new, originSpan]
    omega

/-- A process leases one more block while it starts. -/
def leases (process : Nat) : List Event :=
  [.proceed process true, .countLease process 0, .answerLease process 0 true,
    .settleLease process 0]

/-- The store answers everything that a process asks as it starts. -/
def answers (process : Nat) : List Event :=
  [.countOrigin process, .answerOrigin process true] ++ leases process ++
    leases process ++ leases process ++ leases process ++ [.proceed process true, .close process]

/-- Two processes start, and each asks for a number. -/
def startedFirst : List Event :=
  [.start 0 true] ++ answers 0 ++ [.start 1 true] ++ answers 1 ++
    [.next 0 "audit" true true, .next 1 "audit" true true]

end IyaSts.SeqAllocator
