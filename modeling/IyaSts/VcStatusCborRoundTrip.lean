import IyaSts.VcStatusCborHeads

namespace IyaSts.VcStatusCodec

open JsNumber Fallible

/-!
# Where the CBOR codec round trips

The encoder writes for every value what the decoder reads back.  In the other
direction the decoder accepts two kinds of bytes whose value no longer tells
them: text that is not valid UTF-8, and the integer `-2^53`.
-/

open List

/-! ## What is written reads back -/

/-- Some bytes, standing anywhere, are read as a value. -/
structure Writes (floats : FloatReader) (left : Nat) (value : Item)
    (written : Buffer) : Prop where
  nonempty : 1 ≤ written.length
  reads :
    ∀ {buf rest : Buffer} {pos : Nat},
      At buf pos (written ++ rest) →
      item floats buf left pos = .ok (value, pos + written.length)

variable {floats : FloatReader} {left : Nat}

/-- Reading an item is reading its head and then its content. -/
theorem item_of_head {buf : Buffer} {pos next : Nat} {h : Head}
    (reads : head buf pos = .ok (h, next)) :
    item floats buf (left + 1) pos = content floats buf (item floats buf left) h next := by
  rw [item, reads]
  rfl

/-- A head that the encoder writes is not empty. -/
theorem cborHead_length_pos {major value : Nat} {written : Buffer}
    (wrote : cborHead major value = .ok written) :
    1 ≤ written.length := by
  unfold cborHead at wrote
  split_ifs at wrote <;> (cases wrote; simp)

/-- The encoder has a head for every argument a number counts. -/
theorem exists_cborHead {value : Nat} (major : Nat) (safe : value ≤ maxSafeInteger) :
    ∃ written, cborHead major value = .ok written := by
  have fits : value < 2 ^ 64 := by
    simp only [maxSafeInteger] at safe
    omega
  exact ⟨_, cborHead_eq major fits⟩

variable {value : Item} {items : List Item} {pos next count arg : Nat}

/-- A simple value is its one byte. -/
theorem writes_simple {first : UInt8} (isSimple : first.toNat >>> 5 = 7)
    (announced : first.toNat &&& 31 < 24)
    (means :
      ∀ (buf : Buffer) (pos : Nat),
        readSimple floats buf ⟨7, first.toNat &&& 31, first.toNat &&& 31⟩ pos = .ok (value, pos)) :
    Writes floats (left + 1) value [first] where
  nonempty := by simp
  reads := by
    intro buf rest pos standing
    have restAt : At buf (pos + 1) rest := standing.advance_one
    have reads : head buf pos = .ok (⟨7, first.toNat &&& 31, first.toNat &&& 31⟩, pos + 1) := by
      rw [head_eq standing, isSimple, headArgument_eq_ok_iff restAt.inside (by omega)]
      have width : argumentWidth (first.toNat &&& 31) = 0 := by
        unfold argumentWidth
        split_ifs <;> omega
      refine ⟨by omega, ?_, ?_, ?_, ?_⟩
      · simp only [maxSafeInteger]
        omega
      · rw [width]
        exact restAt.inside
      · rw [width]
      · rw [if_pos announced]
    rw [item_of_head reads]
    exact means buf (pos + 1)

/-- A head and content that is read after it are read together. -/
theorem writes_content {major arg : Nat} {announced held : Buffer} (notSimple : major < 7)
    (safe : arg ≤ maxSafeInteger) (wrote : cborHead major arg = .ok announced)
    (reads :
      ∀ {buf rest : Buffer} {pos : Nat},
        At buf pos (held ++ rest) →
        content floats buf (item floats buf left)
            ⟨major, infoOf arg, arg⟩ pos =
          .ok (value, pos + held.length)) :
    Writes floats (left + 1) value (announced ++ held) where
  nonempty := by
    have := cborHead_length_pos wrote
    rw [length_append]
    omega
  reads := by
    intro buf rest pos standing
    rw [append_assoc] at standing
    rw [item_of_head (head_cborHead notSimple safe wrote standing),
      reads standing.advance, length_append, Nat.add_assoc]

/-- An integer is its head. -/
theorem writes_integer {value : Int} (safe : value.natAbs ≤ maxSafeInteger) :
    ∃ written,
      walk (left + 1) (.integer value) = .ok written ∧
        Writes floats (left + 1) (.integer value) written := by
  have isSafe : isSafeInteger value = true := by simpa [isSafeInteger] using safe
  simp only [walk, isSafe, Bool.true_eq_false, if_false, cborInteger]
  split_ifs with notNegative
  · have argSafe : value.toNat ≤ maxSafeInteger := by omega
    obtain ⟨written, wrote⟩ := exists_cborHead 0 argSafe
    refine ⟨written, wrote, cborHead_length_pos wrote, ?_⟩
    intro buf rest pos standing
    rw [item_of_head (head_cborHead (by decide) argSafe wrote standing)]
    simp only [content, pure, Except.pure, Int.toNat_of_nonneg notNegative]
  · have argSafe : (-1 - value).toNat ≤ maxSafeInteger := by omega
    obtain ⟨written, wrote⟩ := exists_cborHead 1 argSafe
    refine ⟨written, wrote, cborHead_length_pos wrote, ?_⟩
    intro buf rest pos standing
    rw [item_of_head (head_cborHead (by decide) argSafe wrote standing)]
    have same : -1 - (((-1 - value).toNat : Nat) : Int) = value := by omega
    simp only [content, pure, Except.pure, same]

/-- What the items of an array write, the loop of the decoder reads. -/
theorem writes_items
    (each :
      ∀ one ∈ items, ∃ written, walk left one = .ok written ∧ Writes floats left one written) :
    ∃ parts,
      items.mapM (walk left) = .ok parts ∧
        items.length ≤ parts.flatten.length ∧
          ∀ {buf rest : Buffer} {pos : Nat},
            At buf pos (parts.flatten ++ rest) →
            readItems (item floats buf left) items.length pos =
              .ok (items, pos + parts.flatten.length) := by
  induction items with
  | nil => exact ⟨[], rfl, by simp, fun _ => rfl⟩
  | cons one others ih =>
    obtain ⟨written, wrote, writes⟩ := each one mem_cons_self
    obtain ⟨parts, wroteOthers, long, readsOthers⟩ :=
      ih fun later isLater => each later (mem_cons_of_mem _ isLater)
    refine ⟨written :: parts, ?_, ?_, ?_⟩
    · exact mapM_cons_ok wrote wroteOthers
    · have := writes.nonempty
      simp only [length_cons, flatten_cons, length_append]
      omega
    · intro buf rest pos standing
      rw [flatten_cons, append_assoc] at standing
      simp only [length_cons, readItems, writes.reads standing, readsOthers standing.advance,
        bind, Except.bind, pure, Except.pure, flatten_cons, length_append, Nat.add_assoc]

/-- What the members of a map write, the loop of the decoder reads. -/
theorem writes_members {members : List (Item × Item)}
    (each :
      ∀ member ∈ members,
        (∃ written,
          walk left member.1 = .ok written ∧ Writes floats left member.1 written) ∧
          ∃ written, walk left member.2 = .ok written ∧ Writes floats left member.2 written)
    (distinct :
      members.Pairwise fun member member' => sameKey member.1 member'.1 = false) :
    ∃ parts,
      members.mapM (fun member =>
          writeMember (walk left) member.1 member.2) = .ok parts ∧
        members.length * 2 ≤ parts.flatten.length ∧
          ∀ {buf rest : Buffer} {pos : Nat} {held : List (Item × Item)},
            (∀ earlier ∈ held, ∀ member ∈ members, sameKey earlier.1 member.1 = false) →
            At buf pos (parts.flatten ++ rest) →
            readMembers floats (item floats buf left) members.length held
                pos =
              .ok (held ++ members, pos + parts.flatten.length) := by
  induction members with
  | nil =>
    refine ⟨[], rfl, by simp, ?_⟩
    intro buf rest pos held _ _
    simp [readMembers, pure, Except.pure]
  | cons member others ih =>
    obtain ⟨⟨key, wroteKey, writesKey⟩, value, wroteValue, writesValue⟩ :=
      each member mem_cons_self
    rw [pairwise_cons] at distinct
    obtain ⟨parts, wroteOthers, long, readsOthers⟩ :=
      ih
        (fun later isLater => each later (mem_cons_of_mem _ isLater))
        distinct.2
    refine ⟨(key ++ value) :: parts, ?_, ?_, ?_⟩
    · refine mapM_cons_ok ?_ wroteOthers
      simp only [writeMember, wroteKey, wroteValue, bind, Except.bind, pure, Except.pure]
    · have := writesKey.nonempty
      have := writesValue.nonempty
      simp only [length_cons, flatten_cons, length_append]
      omega
    · intro buf rest pos held notHeld standing
      rw [flatten_cons, append_assoc, append_assoc]
        at standing
      have unseen :
          (held.any fun earlier => sameKey earlier.1 member.1) =
            false := by
        rw [any_eq_false]
        intro earlier isEarlier
        simp [notHeld earlier isEarlier member mem_cons_self]
      have stillNotHeld :
          ∀ earlier ∈ held ++ [(member.1, member.2)],
            ∀ later ∈ others, sameKey earlier.1 later.1 = false := by
        intro earlier isEarlier later isLater
        rcases mem_append.mp isEarlier with isHeld | isNew
        · exact notHeld earlier isHeld later (mem_cons_of_mem _ isLater)
        · rw [mem_singleton] at isNew
          subst isNew
          exact distinct.1 later isLater
      simp only [length_cons, readMembers, writesKey.reads standing, unseen,
        Bool.false_eq_true, if_false, writesValue.reads standing.advance, bind, Except.bind,
        readsOthers stillNotHeld standing.advance.advance]
      simp [Nat.add_assoc]

/-- Every well-formed value is written, and read back from what is written. -/
theorem walk_writes (floats : FloatReader) {left : Nat} (wellFormed : WellFormed left value) :
    ∃ written, walk left value = .ok written ∧ Writes floats left value written := by
  induction left generalizing value with
  | zero => cases wellFormed
  | succ left ih =>
    cases value with
    | boolean value =>
      cases value with
      | true => exact ⟨_, rfl, writes_simple (by decide) (by decide) fun _ _ => rfl⟩
      | false => exact ⟨_, rfl, writes_simple (by decide) (by decide) fun _ _ => rfl⟩
    | null => exact ⟨_, rfl, writes_simple (by decide) (by decide) fun _ _ => rfl⟩
    | undefined => exact ⟨_, rfl, writes_simple (by decide) (by decide) fun _ _ => rfl⟩
    | integer value => exact writes_integer wellFormed
    | bytes value =>
      obtain ⟨announced, wrote⟩ := exists_cborHead 2 wellFormed
      refine ⟨announced ++ value, ?_, writes_content (by decide) wellFormed wrote ?_⟩
      · simp only [walk, wrote, bind, Except.bind, pure, Except.pure]
      · intro buf rest pos standing
        simp only [content, standing.need_front, bind,
          Except.bind, pure, Except.pure, standing.take]
    | text value =>
      obtain ⟨announced, wrote⟩ := exists_cborHead 3 wellFormed
      refine ⟨announced ++ Utf8.encode value, ?_, writes_content (by decide) wellFormed wrote ?_⟩
      · simp only [walk, wrote, bind, Except.bind, pure, Except.pure]
      · intro buf rest pos standing
        simp only [content, standing.need_front, bind, Except.bind, pure, Except.pure,
          standing.take, Utf8.decode_encode]
    | array items =>
      obtain ⟨few, each⟩ := wellFormed
      obtain ⟨announced, wrote⟩ := exists_cborHead 4 few
      obtain ⟨parts, wroteItems, long, readsItems⟩ :=
        writes_items fun one isItem => ih (each one isItem)
      refine ⟨announced ++ parts.flatten, ?_, writes_content (by decide) few wrote ?_⟩
      · simp only [walk, wrote, wroteItems, bind, Except.bind, pure, Except.pure]
      · intro buf rest pos standing
        have enough : items.length ≤ (parts.flatten ++ rest).length := by
          rw [length_append]
          omega
        simp only [content, standing.need_eq enough,
          readsItems standing, bind, Except.bind, pure, Except.pure]
    | map members =>
      obtain ⟨few, distinct, each⟩ := wellFormed
      obtain ⟨announced, wrote⟩ := exists_cborHead 5 few
      obtain ⟨parts, wroteMembers, long, readsMembers⟩ :=
        writes_members
          (fun member isMember =>
            ⟨ih (each member isMember).1,
              ih (each member isMember).2⟩)
          distinct
      refine ⟨announced ++ parts.flatten, ?_, writes_content (by decide) few wrote ?_⟩
      · simp only [walk, wrote, wroteMembers, bind, Except.bind, pure, Except.pure]
      · intro buf rest pos standing
        have enough : members.length * 2 ≤ (parts.flatten ++ rest).length := by
          rw [length_append]
          omega
        have noneHeld :
            ∀ earlier ∈ ([] : List (Item × Item)),
              ∀ member ∈ members, sameKey earlier.1 member.1 = false := by
          simp
        simp only [content, standing.need_eq enough, readsMembers noneHeld standing, bind,
          Except.bind, pure, Except.pure, nil_append]
    | tagged tag value =>
      obtain ⟨counted, inner⟩ := wellFormed
      obtain ⟨announced, wrote⟩ := exists_cborHead 6 counted
      obtain ⟨part, wrotePart, writesPart⟩ := ih inner
      refine ⟨announced ++ part, ?_, writes_content (by decide) counted wrote ?_⟩
      · simp only [walk, wrote, wrotePart, bind, Except.bind, pure, Except.pure]
      · intro buf rest pos standing
        simp only [content, writesPart.reads standing, bind, Except.bind, pure, Except.pure]
    | _ => cases wellFormed

/-! ## What is read writes back -/

/-- What the second direction asks of a head. -/
def Head.Plain (h : Head) : Prop := h.Shortest ∧ ¬ h.IsFloat

variable {h : Head}

/-- The heads after one that is read, with what it promises itself. -/
theorem AllHeads.of_head {buf : Buffer} {Holds : Head → Nat → Prop} (heads : AllHeads buf Holds pos)
    (reads : head buf pos = .ok (h, next)) :
    Holds h next ∧ AllHeads buf Holds (next + h.payload) := by
  cases heads with
  | done ended =>
    obtain ⟨first, rest, standing⟩ := exists_first reads
    have := standing.length_eq
    rw [length_cons] at this
    omega
  | more reads' holds others =>
    rw [reads, Except.ok.injEq, Prod.mk.injEq] at reads'
    obtain ⟨rfl, rfl⟩ := reads'
    exact ⟨holds, others⟩

/--
The bytes between two positions, against what is written for what was read
there.  They are the same where their heads are faithful, and only there.
-/
structure Respells (buf : Buffer) (written : Except String Buffer)
    (pos next : Nat) : Prop where
  inside : next ≤ buf.length
  plain : AllHeads buf (fun h _ => h.Plain) next
  spelled :
    AllHeads buf (Head.Faithful buf) pos →
      (∃ bytes, written = .ok bytes ∧ At buf pos (bytes ++ buf.drop next)) ∧
        AllHeads buf (Head.Faithful buf) next
  faithful :
    ∀ {bytes rest : Buffer},
      written = .ok bytes →
      At buf pos (bytes ++ rest) →
      rest = buf.drop next ∧
        (AllHeads buf (Head.Faithful buf) next → AllHeads buf (Head.Faithful buf) pos)

/-- One writing after another. -/
def both (first second : Except String Buffer) : Except String Buffer := do
  let front ← first
  let back ← second
  pure (front ++ back)

theorem both_eq_ok_iff (first second : Except String Buffer) (bytes : Buffer) :
    both first second = .ok bytes ↔
      ∃ front back, first = .ok front ∧ second = .ok back ∧ bytes = front ++ back := by
  cases first with
  | error refusal => simp [both, bind, Except.bind]
  | ok front =>
    cases second with
    | error refusal => simp [both, bind, Except.bind]
    | ok back => simp [both, bind, Except.bind, pure, Except.pure, eq_comm]

namespace Respells

variable {buf : Buffer} {first second : Except String Buffer}
  {pos middle next : Nat}

theorem nothing (inside : pos ≤ buf.length) (plain : AllHeads buf (fun h _ => h.Plain) pos) :
    Respells buf (.ok []) pos pos where
  inside := inside
  plain := plain
  spelled := fun heads => ⟨⟨[], rfl, At.of_le inside⟩, heads⟩
  faithful := by
    intro bytes rest wrote standing
    cases wrote
    exact ⟨standing.drop.symm, id⟩

theorem append (front : Respells buf first pos middle) (back : Respells buf second middle next) :
    Respells buf (both first second) pos next where
  inside := back.inside
  plain := back.plain
  spelled := by
    intro heads
    obtain ⟨⟨bytes, wrote, standing⟩, headsMiddle⟩ := front.spelled heads
    obtain ⟨⟨bytes', wrote', standing'⟩, headsNext⟩ := back.spelled headsMiddle
    refine ⟨⟨bytes ++ bytes', ?_, ?_⟩, headsNext⟩
    · exact (both_eq_ok_iff _ _ _).mpr ⟨_, _, wrote, wrote', rfl⟩
    · rw [append_assoc, ← standing'.drop]
      exact standing
  faithful := by
    intro bytes rest wrote standing
    obtain ⟨bytes₁, bytes₂, wrote₁, wrote₂, rfl⟩ := (both_eq_ok_iff _ _ _).mp wrote
    rw [append_assoc] at standing
    obtain ⟨isMiddle, backToPos⟩ := front.faithful wrote₁ standing
    have middleAt : At buf middle (bytes₂ ++ rest) := ⟨front.inside, isMiddle.symm⟩
    obtain ⟨isNext, backToMiddle⟩ := back.faithful wrote₂ middleAt
    exact ⟨isNext, fun headsNext => backToPos (backToMiddle headsNext)⟩

/-- A head that nothing but heads follows, and that is faithful. -/
theorem of_head {h : Head} (reads : head buf pos = .ok (h, next))
    (plain : AllHeads buf (fun h _ => h.Plain) pos) (noPayload : h.payload = 0)
    (isFaithful : h.Faithful buf next) :
    Respells buf (cborHead h.major h.arg) pos next := by
  obtain ⟨⟨shortest, notFloat⟩, plainNext⟩ := plain.of_head reads
  obtain ⟨_, _, _, written, wrote, isNext, standing⟩ := head_shortest reads shortest notFloat
  rw [noPayload, Nat.add_zero] at plainNext
  refine ⟨?_, plainNext, ?_, ?_⟩
  · have := standing.length_eq
    rw [length_append] at this
    omega
  · intro heads
    have headsNext := (heads.of_head reads).2
    rw [noPayload, Nat.add_zero] at headsNext
    exact ⟨⟨written, wrote, standing⟩, headsNext⟩
  · intro bytes rest wrote' standing'
    rw [wrote, Except.ok.injEq] at wrote'
    subst wrote'
    refine ⟨append_cancel_left (standing'.unique standing), ?_⟩
    intro headsNext
    refine .more reads isFaithful ?_
    rw [noPayload, Nat.add_zero]
    exact headsNext

/-- A head and its content, written from other bytes that are as long. -/
theorem of_payload (h : Head) {start : Nat} {bytes : Buffer} (reads : head buf pos = .ok (h, start))
    (plain : AllHeads buf (fun h _ => h.Plain) pos) (notSimple : h.major < 7)
    (isPayload : h.payload = h.arg) (enough : start + h.arg ≤ buf.length)
    (isFaithful : h.Faithful buf start ↔ bytes = (buf.drop start).take h.arg) :
    Respells buf (both (cborHead h.major bytes.length) (.ok bytes)) pos (start + h.arg) := by
  obtain ⟨⟨shortest, notFloat⟩, plainNext⟩ := plain.of_head reads
  obtain ⟨_, _, _, written, wrote, isNext, standing⟩ := head_shortest reads shortest notFloat
  have startInside : start ≤ buf.length := by omega
  rw [isPayload] at plainNext
  refine ⟨enough, plainNext, ?_, ?_⟩
  · intro heads
    obtain ⟨holds, headsNext⟩ := heads.of_head reads
    rw [isPayload] at headsNext
    rw [isFaithful] at holds
    have long : bytes.length = h.arg := by
      rw [holds, length_take, length_drop]
      omega
    refine ⟨⟨written ++ bytes, ?_, ?_⟩, headsNext⟩
    · rw [long, wrote]
      rfl
    · rw [append_assoc, holds, ← drop_drop, take_append_drop]
      exact standing
  · intro all rest wrote' standing'
    obtain ⟨front, back, wroteFront, isBack, rfl⟩ := (both_eq_ok_iff _ _ _).mp wrote'
    rw [Except.ok.injEq] at isBack
    subst isBack
    rw [append_assoc] at standing'
    obtain ⟨_, isHead, isStart⟩ :=
      (head_written_iff notSimple wroteFront standing' h start).mp reads
    have isArg : h.arg = bytes.length := by rw [isHead]
    have startAt : At buf start (bytes ++ rest) := by
      rw [isStart]
      exact standing'.advance
    have endAt := startAt.advance
    rw [← isArg] at endAt
    refine ⟨endAt.drop.symm, ?_⟩
    intro headsNext
    refine .more reads (isFaithful.mpr ?_) ?_
    · rw [isArg]
      exact startAt.take.symm
    · rw [isPayload]
      exact headsNext

end Respells

/-- What some values write, one after the other. -/
def allOf {α : Type} (write : α → Except String Buffer)
    (values : List α) : Except String Buffer := do
  let parts ← values.mapM write
  pure parts.flatten

theorem allOf_cons {α : Type} (write : α → Except String Buffer) (one : α) (others : List α) :
    allOf write (one :: others) = both (write one) (allOf write others) := by
  simp only [allOf, both, mapM_cons]
  cases write one with
  | error refusal => rfl
  | ok front => cases others.mapM write <;> rfl

/-- The values the loop of an array reads write back their bytes. -/
theorem respells_items {buf : Buffer}
    (each :
      ∀ {value : Item} {pos next : Nat},
        item floats buf left pos = .ok (value, next) →
        AllHeads buf (fun h _ => h.Plain) pos →
        Respells buf (walk left value) pos next)
    (reads : readItems (item floats buf left) count pos = .ok (items, next))
    (inside : pos ≤ buf.length)
    (plain : AllHeads buf (fun h _ => h.Plain) pos) :
    items.length = count ∧ Respells buf (allOf (walk left) items) pos next := by
  induction count generalizing pos items with
  | zero =>
    cases reads
    exact ⟨rfl, Respells.nothing inside plain⟩
  | succ count ih =>
    simp only [readItems, bind_eq_ok_iff] at reads
    obtain ⟨⟨one, middle⟩, readsOne, ⟨others, last⟩, readsOthers, answered⟩ := reads
    cases answered
    have first := each readsOne plain
    obtain ⟨counted, later⟩ := ih readsOthers first.inside first.plain
    refine ⟨by rw [length_cons, counted], ?_⟩
    rw [allOf_cons]
    exact first.append later

/-- The members the loop of a map reads write back their bytes. -/
theorem respells_members {buf : Buffer}
    (each :
      ∀ {value : Item} {pos next : Nat},
        item floats buf left pos = .ok (value, next) →
        AllHeads buf (fun h _ => h.Plain) pos →
        Respells buf (walk left value) pos next)
    {held members : List (Item × Item)}
    (reads : readMembers floats (item floats buf left) count held pos = .ok (members, next))
    (inside : pos ≤ buf.length)
    (plain : AllHeads buf (fun h _ => h.Plain) pos) :
    ∃ added,
      members = held ++ added ∧
        added.length = count ∧
          Respells buf
            (allOf (fun member : Item × Item => writeMember (walk left) member.1 member.2) added)
            pos next := by
  induction count generalizing pos held with
  | zero =>
    cases reads
    exact ⟨[], (append_nil _).symm, rfl, Respells.nothing inside plain⟩
  | succ count ih =>
    simp only [readMembers, bind_eq_ok_iff] at reads
    obtain ⟨⟨key, middle⟩, readsKey, readsMember⟩ := reads
    simp only at readsMember
    split at readsMember
    · cases readsMember
    rw [bind_eq_ok_iff] at readsMember
    obtain ⟨⟨value, last⟩, readsValue, readsOthers⟩ := readsMember
    have keyFirst := each readsKey plain
    have thenValue := each readsValue keyFirst.plain
    obtain ⟨added, rfl, counted, later⟩ := ih readsOthers thenValue.inside thenValue.plain
    refine ⟨(key, value) :: added, by simp,
      by rw [length_cons, counted], ?_⟩
    rw [allOf_cons]
    exact (keyFirst.append thenValue).append later

/-! ### What the encoder writes, by the kind of value -/

theorem walk_natural (safe : arg ≤ maxSafeInteger) :
    walk (left + 1) (.integer arg) = cborHead 0 arg := by
  have isSafe : isSafeInteger (arg : Int) = true := by simpa [isSafeInteger] using safe
  simp only [walk, isSafe, Bool.true_eq_false, if_false, cborInteger,
    Int.natCast_nonneg, if_true, Int.toNat_natCast]

theorem walk_negative (safe : arg < maxSafeInteger) :
    walk (left + 1) (.integer (-1 - arg)) = cborHead 1 arg := by
  have isSafe : isSafeInteger (-1 - (arg : Int)) = true := by
    simp only [isSafeInteger, decide_eq_true_eq]
    omega
  have same : (-1 - (-1 - (arg : Int))).toNat = arg := by omega
  simp only [walk, isSafe, Bool.true_eq_false, if_false, cborInteger, same]
  rw [if_neg (by omega)]

/-- The least integer the decoder reads, the encoder refuses. -/
theorem walk_least (left : Nat) (isLeast : arg = maxSafeInteger) :
    ∃ refusal, walk (left + 1) (.integer (-1 - arg)) = .error refusal := by
  have notSafe : isSafeInteger (-1 - (arg : Int)) = false := by
    simp only [isSafeInteger, decide_eq_false_iff_not]
    omega
  simp only [walk, notSafe, if_true]
  exact ⟨_, rfl⟩

theorem walk_bytes (bytes : Buffer) :
    walk (left + 1) (.bytes bytes) = both (cborHead 2 bytes.length) (.ok bytes) := by
  simp only [walk, both]
  rfl

theorem walk_text (text : String) :
    walk (left + 1) (.text text) =
      both (cborHead 3 (Utf8.encode text).length) (.ok (Utf8.encode text)) := by
  simp only [walk, both]
  rfl

theorem walk_array (items : List Item) :
    walk (left + 1) (.array items) = both (cborHead 4 items.length) (allOf (walk left) items) := by
  simp only [walk, both, allOf, bind_assoc, pure_bind]

theorem walk_map (members : List (Item × Item)) :
    walk (left + 1) (.map members) =
      both (cborHead 5 members.length)
        (allOf
          (fun member => writeMember (walk left) member.1 member.2)
          members) := by
  simp only [walk, both, allOf, bind_assoc, pure_bind]

theorem walk_tagged (tag : Nat) (value : Item) :
    walk (left + 1) (.tagged tag value) = both (cborHead 6 tag) (walk left value) := by
  simp only [walk, both]

/-- Bytes are faithful to text where they are what the text is encoded to. -/
theorem faithful_text_iff (buf : Buffer) (info arg start : Nat) :
    Head.Faithful buf ⟨3, info, arg⟩ start ↔
      Utf8.encode (Utf8.decode ((buf.drop start).take arg)) = (buf.drop start).take arg := by
  simp only [Head.Faithful, true_implies, Nat.reduceEqDiff, false_and, not_false_eq_true, and_true]
  constructor
  · rintro ⟨text, isText⟩
    rw [isText, Utf8.decode_encode]
  · intro same
    exact ⟨_, same.symm⟩

/-- A head of any other major type is faithful, `-2^53` apart. -/
theorem faithful_of_major (buf : Buffer) (start : Nat) (notText : h.major ≠ 3)
    (notLeast : ¬ (h.major = 1 ∧ h.arg = maxSafeInteger)) :
    h.Faithful buf start :=
  ⟨fun isText => absurd isText notText, notLeast⟩

/-- The one byte of a simple value is the head it was read from. -/
theorem walk_simple (left : Nat) {buf : Buffer} {start next : Nat}
    (reads : readSimple floats buf h start = .ok (value, next)) (isSimple : h.major = 7)
    (notFloat : ¬ h.IsFloat) (isInfo : infoOf h.arg = h.info) :
    next = start ∧ walk (left + 1) value = cborHead 7 h.arg := by
  have low : h.info < 25 := by
    by_contra high
    exact notFloat ⟨isSimple, by omega⟩
  have argIs (small : h.info < 24) : h.arg = h.info := by
    rw [← isInfo] at small ⊢
    exact (infoOf_of_lt small).symm
  unfold readSimple at reads
  by_cases is20 : h.info = 20
  · rw [if_pos is20] at reads
    cases reads
    rw [argIs (by omega), is20]
    exact ⟨rfl, rfl⟩
  rw [if_neg is20] at reads
  by_cases is21 : h.info = 21
  · rw [if_pos is21] at reads
    cases reads
    rw [argIs (by omega), is21]
    exact ⟨rfl, rfl⟩
  rw [if_neg is21] at reads
  by_cases is22 : h.info = 22
  · rw [if_pos is22] at reads
    cases reads
    rw [argIs (by omega), is22]
    exact ⟨rfl, rfl⟩
  rw [if_neg is22] at reads
  by_cases is23 : h.info = 23
  · rw [if_pos is23] at reads
    cases reads
    rw [argIs (by omega), is23]
    exact ⟨rfl, rfl⟩
  rw [if_neg is23, if_neg (by omega), if_neg (by omega), if_neg (by omega)] at reads
  cases reads

theorem answer_eq {value value' : Item}
    (answered : (pure (value', pos) : Except String _) = .ok (value, next)) :
    value' = value ∧ pos = next := by
  simpa only [pure, Except.pure, Except.ok.injEq, Prod.mk.injEq] using answered

/-- Every value the decoder reads writes back its bytes. -/
theorem item_respells {buf : Buffer} (reads : item floats buf left pos = .ok (value, next))
    (plain : AllHeads buf (fun h _ => h.Plain) pos) :
    Respells buf (walk left value) pos next := by
  induction left generalizing value pos next with
  | zero => cases reads
  | succ left ih =>
    rw [item, bind_eq_ok_iff] at reads
    obtain ⟨⟨h, start⟩, readsHead, readsContent⟩ := reads
    obtain ⟨⟨shortest, notFloat⟩, plainNext⟩ := plain.of_head readsHead
    obtain ⟨isMajor, safe, isInfo, written, _, isStart, standing⟩ :=
      head_shortest readsHead shortest notFloat
    have inside : start ≤ buf.length := by
      rw [standing.length_eq, length_append]
      omega
    obtain ⟨major, info, arg⟩ := h
    simp only at isMajor safe isInfo readsContent
    have announced
        (noPayload : Head.payload ⟨major, info, arg⟩ = 0)
        (isFaithful : Head.Faithful buf ⟨major, info, arg⟩ start) :
        Respells buf (cborHead major arg) pos start :=
      Respells.of_head readsHead plain noPayload isFaithful
    have majors :
        major = 0 ∨ major = 1 ∨ major = 2 ∨ major = 3 ∨ major = 4 ∨
          major = 5 ∨ major = 6 ∨ major = 7 := by
      omega
    have notLeast (isMajor : major ≠ 3) (notNegative : major ≠ 1) :
        Head.Faithful buf ⟨major, info, arg⟩ start :=
      faithful_of_major buf start isMajor fun least => notNegative least.1
    rcases majors with rfl | rfl | rfl | rfl | rfl | rfl | rfl | rfl
    · -- An integer that is not negative.
      obtain ⟨rfl, rfl⟩ := answer_eq readsContent
      rw [walk_natural safe]
      exact announced rfl (notLeast (by decide) (by decide))
    · -- A negative integer: the least one is not safe.
      obtain ⟨rfl, rfl⟩ := answer_eq readsContent
      by_cases isLeast : arg = maxSafeInteger
      · refine ⟨inside, plainNext, ?_, ?_⟩
        · intro heads
          exact absurd ⟨rfl, isLeast⟩ (heads.of_head readsHead).1.2
        · intro bytes rest wrote
          obtain ⟨refusal, refuses⟩ := walk_least left isLeast
          rw [refuses] at wrote
          cases wrote
      · rw [walk_negative (Nat.lt_of_le_of_ne safe isLeast)]
        exact announced rfl (faithful_of_major buf start (by simp) fun least => isLeast least.2)
    · -- Bytes.
      simp only [content, bind_eq_ok_iff] at readsContent
      obtain ⟨_, needed, answered⟩ := readsContent
      obtain ⟨rfl, rfl⟩ := answer_eq answered
      have enough := (need_ok_iff _ _ _).mp needed
      rw [walk_bytes]
      refine Respells.of_payload ⟨2, info, arg⟩ readsHead plain (by simp) rfl enough ?_
      exact iff_of_true (notLeast (by decide) (by decide)) rfl
    · -- Text.
      simp only [content, bind_eq_ok_iff] at readsContent
      obtain ⟨_, needed, answered⟩ := readsContent
      obtain ⟨rfl, rfl⟩ := answer_eq answered
      have enough := (need_ok_iff _ _ _).mp needed
      rw [walk_text]
      exact Respells.of_payload ⟨3, info, arg⟩ readsHead plain
        (by simp) rfl enough (faithful_text_iff buf info arg start)
    · -- An array.
      simp only [content, bind_eq_ok_iff] at readsContent
      obtain ⟨_, _, ⟨items, last⟩, readsItems, answered⟩ := readsContent
      obtain ⟨rfl, rfl⟩ := answer_eq answered
      have first := announced rfl (notLeast (by decide) (by decide))
      obtain ⟨counted, later⟩ := respells_items ih readsItems first.inside first.plain
      rw [walk_array, counted]
      exact first.append later
    · -- A map.
      simp only [content, bind_eq_ok_iff] at readsContent
      obtain ⟨_, _, ⟨members, last⟩, readsMembers, answered⟩ := readsContent
      obtain ⟨rfl, rfl⟩ := answer_eq answered
      have first := announced rfl (notLeast (by decide) (by decide))
      obtain ⟨added, isAdded, counted, later⟩ :=
        respells_members ih readsMembers first.inside first.plain
      rw [nil_append] at isAdded
      subst isAdded
      rw [walk_map, counted]
      exact first.append later
    · -- A tag.
      simp only [content, bind_eq_ok_iff] at readsContent
      obtain ⟨⟨inner, last⟩, readsInner, answered⟩ := readsContent
      obtain ⟨rfl, rfl⟩ := answer_eq answered
      have first := announced rfl (notLeast (by decide) (by decide))
      rw [walk_tagged]
      exact first.append (ih readsInner first.plain)
    · -- A simple value.
      obtain ⟨rfl, writes⟩ := walk_simple left readsContent rfl notFloat isInfo
      rw [writes]
      exact announced rfl (notLeast (by decide) (by decide))

/-! ## The round trips -/

/--
Every well-formed value decodes from what it encodes to.  Bytes in shortest
form without floating-point numbers encode back to themselves exactly where
every text among them is valid UTF-8 and no integer is `-2^53`.
-/
theorem cbor_round_trips (floats : FloatReader) :
    (∀ value : Item,
      WellFormed (cborMaxDepth + 1) value →
      ∃ bytes, cborEncode value = .ok bytes ∧ cborDecode floats bytes = .ok value) ∧
      ∀ (bytes : Buffer) (value : Item),
        cborDecode floats bytes = .ok value →
        ShortestHeads bytes →
        (cborEncode value = .ok bytes ↔ AllHeads bytes (Head.Faithful bytes) 0) := by
  constructor
  · intro value wellFormed
    obtain ⟨bytes, wrote, _, reads⟩ := walk_writes floats wellFormed
    refine ⟨bytes, wrote, ?_⟩
    have standing : At bytes 0 (bytes ++ []) := ⟨Nat.zero_le _, (append_nil _).symm⟩
    simp [cborDecode, reads standing, bind, Except.bind, pure, Except.pure]
  · intro bytes value decodes shortest
    rw [cborDecode, bind_eq_ok_iff] at decodes
    obtain ⟨⟨out, next⟩, reads, answered⟩ := decodes
    simp only at answered
    split at answered
    · cases answered
    · rename_i isEnd
      cases answered
      have ended : next = bytes.length := by simpa using isEnd
      have respells := item_respells reads shortest
      have headsEnd : AllHeads bytes (Head.Faithful bytes) next := .done (by omega)
      have nothingLeft : bytes.drop next = [] := drop_eq_nil_of_le (by omega)
      constructor
      · intro encodes
        have standing : At bytes 0 (bytes ++ []) := ⟨Nat.zero_le _, (append_nil _).symm⟩
        exact (respells.faithful encodes standing).2 headsEnd
      · intro heads
        obtain ⟨⟨wrote, writes, standing⟩, _⟩ := respells.spelled heads
        have same : bytes = wrote := by
          have dropped := standing.drop
          rw [nothingLeft, append_nil, drop_zero] at dropped
          exact dropped
        rw [cborEncode, writes, ← same]

/-- An engine that reads no floating-point number as one. -/
def noFloats : FloatReader where
  half := fun _ => .undefined
  single := fun _ => .undefined
  double := fun _ => .undefined
  json := fun _ => "null"

/-- An array of an integer and a text goes both ways. -/
theorem array_round_trips :
    (∃ bytes,
      cborEncode (.array [.integer 1, .text "a"]) = .ok bytes ∧
        cborDecode noFloats bytes = .ok (.array [.integer 1, .text "a"])) ∧
      (cborEncode (.array [.integer 1, .text "a"]) =
          .ok [0x82, 0x01, 0x61, 0x61] ↔
        AllHeads [0x82, 0x01, 0x61, 0x61] (Head.Faithful [0x82, 0x01, 0x61, 0x61]) 0) := by
  constructor
  · refine (cbor_round_trips noFloats).1 (.array [.integer 1, .text "a"]) ⟨by decide, ?_⟩
    intro one isItem
    rw [mem_cons, mem_singleton] at isItem
    rcases isItem with rfl | rfl
    · exact (by decide : (1 : Int).natAbs ≤ maxSafeInteger)
    · exact (by decide : (Utf8.encode "a").length ≤ maxSafeInteger)
  · refine (cbor_round_trips noFloats).2 [0x82, 0x01, 0x61, 0x61]
      (.array [.integer 1, .text "a"]) rfl ?_
    have array : head [0x82, 0x01, 0x61, 0x61] 0 = .ok (⟨4, 2, 2⟩, 1) := rfl
    have one : head [0x82, 0x01, 0x61, 0x61] 1 = .ok (⟨0, 1, 1⟩, 2) := rfl
    have text : head [0x82, 0x01, 0x61, 0x61] 2 = .ok (⟨3, 1, 1⟩, 3) := rfl
    refine .more array (by decide) (.more one (by decide) ?_)
    refine .more text (by decide) ?_
    exact .done (by decide)

/-- The integer `-2^53`, in shortest form. -/
def leastInteger : Buffer := [0x3b, 0x00, 0x1f, 0xff, 0xff, 0xff, 0xff, 0xff, 0xff]

theorem head_leastInteger : head leastInteger 0 = .ok (⟨1, 27, maxSafeInteger⟩, 9) := by decide

/-- The decoder accepts an integer that the encoder refuses. -/
theorem cbor_not_always_round_trips :
    ¬ ∀ (floats : FloatReader) (bytes : Buffer) (value : Item),
      cborDecode floats bytes = .ok value →
      ShortestHeads bytes →
      cborEncode value = .ok bytes := by
  intro roundTrips
  have decodes : cborDecode noFloats leastInteger = .ok (.integer (-1 - maxSafeInteger)) := by
    rw [cborDecode, cborMaxDepth, item_of_head head_leastInteger]
    rfl
  have shortest : ShortestHeads leastInteger :=
    .more head_leastInteger (by decide) (.done (by decide))
  have encodes := roundTrips noFloats leastInteger _ decodes shortest
  obtain ⟨refusal, refuses⟩ := walk_least cborMaxDepth rfl
  rw [cborEncode, refuses] at encodes
  cases encodes

end IyaSts.VcStatusCodec
