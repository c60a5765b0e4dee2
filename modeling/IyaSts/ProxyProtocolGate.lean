import IyaSts.ProxyProtocol
import Mathlib.Data.List.Induction

namespace IyaSts.ProxyProtocol

/-!
# What the gate does with a stream

A verdict on a prefix is the verdict on the stream, so it does not matter how
the stream is cut.  Of what follows the header no byte is lost or given twice.
-/

open List

/-! ## Verdicts do not change -/

theorem agrees_iff (buffer pattern : Buffer) :
    agrees buffer pattern = true ↔
      buffer.take (min buffer.length pattern.length) =
        pattern.take (min buffer.length pattern.length) := by
  simp [agrees]

/-- What agrees with a pattern has prefixes that agree. -/
theorem agrees_of_append {buffer later pattern : Buffer}
    (agree : agrees (buffer ++ later) pattern = true) :
    agrees buffer pattern = true := by
  rw [agrees_iff] at agree ⊢
  have shorter :
      min buffer.length pattern.length ≤ min (buffer ++ later).length pattern.length := by
    rw [length_append]
    omega
  have cut := congrArg (List.take (min buffer.length pattern.length)) agree
  rw [take_take, take_take, Nat.min_eq_left shorter,
    take_append_of_le_length (Nat.min_le_left _ _)] at cut
  exact cut

/-- Of a pattern that has been seen whole nothing more is read. -/
theorem agrees_append {buffer pattern : Buffer} (isWhole : pattern.length ≤ buffer.length)
    (later : Buffer) :
    agrees (buffer ++ later) pattern = agrees buffer pattern := by
  rw [Bool.eq_iff_iff, agrees_iff, agrees_iff, length_append, Nat.min_eq_right isWhole,
    Nat.min_eq_right (Nat.le_trans isWhole (Nat.le_add_right _ _)),
    take_append_of_le_length isWhole]

variable {buffer stream : Buffer} {connection : Connection}

theorem byteAt_append {index : Nat} (isIn : index < buffer.length) (later : Buffer) :
    Buffer.byteAt (buffer ++ later) index = Buffer.byteAt buffer index := by
  unfold Buffer.byteAt
  simp only [Int.toNat_natCast]
  rw [getD_append _ _ _ _ isIn]

theorem readUInt16_append {offset : Nat} (isIn : offset + 2 ≤ buffer.length) (later : Buffer) :
    readUInt16 (buffer ++ later) offset = readUInt16 buffer offset := by
  unfold readUInt16
  rw [drop_append_of_le_length (by omega),
    take_append_of_le_length (by rw [length_drop]; omega)]

variable {canonical : String → Option String}

/-- Once there is a verdict, no further bytes change it. -/
theorem parse_append (isVerdict : parse canonical buffer ≠ .incomplete) (later : Buffer) :
    parse canonical (buffer ++ later) = parse canonical buffer := by
  unfold parse at isVerdict ⊢
  by_cases isSigned : agrees buffer signature = true
  · have notUnsigned : ¬agrees buffer signature = false := by
      simp [isSigned]
    rw [if_neg notUnsigned] at isVerdict
    split at isVerdict
    · exact absurd rfl isVerdict
    · rename_i isLong
      have isLong' : prefixLength ≤ buffer.length := Nat.not_lt.mp isLong
      have longer : ¬(buffer ++ later).length < prefixLength := by
        rw [length_append]
        omega
      have sameSigned :
          agrees (buffer ++ later) signature = agrees buffer signature :=
        agrees_append (Nat.le_trans (by decide) isLong') later
      have sameByte :
          Buffer.byteAt (buffer ++ later) 12 = Buffer.byteAt buffer 12 :=
        byteAt_append (Nat.lt_of_lt_of_le (by decide) isLong') later
      have sameLength :
          readUInt16 (buffer ++ later) 14 = readUInt16 buffer 14 :=
        readUInt16_append (Nat.le_trans (by decide) isLong') later
      rw [sameSigned, if_neg notUnsigned, if_neg notUnsigned, if_neg longer, if_neg isLong]
      simp only [sameByte, sameLength] at isVerdict ⊢
      split
      · rfl
      · rename_i isVersion
        rw [if_neg isVersion] at isVerdict
        split
        · rfl
        · rename_i isCommand
          rw [if_neg isCommand] at isVerdict
          split
          · rfl
          · rename_i isBounded
            rw [if_neg isBounded] at isVerdict
            split at isVerdict
            · exact absurd rfl isVerdict
            · rename_i isWhole
              rw [if_neg (by rw [length_append]; omega), if_neg isWhole,
                take_append_of_le_length (Nat.not_lt.mp isWhole)]
  · have notSigned : agrees buffer signature = false := by
      simpa using isSigned
    have stillNot : agrees (buffer ++ later) signature = false := by
      rw [← Bool.not_eq_true]
      intro isSigned'
      exact isSigned (agrees_of_append isSigned')
    rw [if_pos notSigned] at isVerdict
    rw [if_pos stillNot, if_pos notSigned]
    by_cases isText : agrees buffer v1Prefix = true
    · rw [if_pos isText] at isVerdict
      split at isVerdict
      · exact absurd rfl isVerdict
      · rename_i isLong
        rw [agrees_append (Nat.not_lt.mp isLong), if_pos isText, if_pos isText,
          if_neg (by rw [length_append]; omega), if_neg isLong]
    · have stillNotText : ¬agrees (buffer ++ later) v1Prefix = true :=
        fun isText' => isText (agrees_of_append isText')
      rw [if_neg stillNotText, if_neg isText]

/-- A header that was read is at the front of the stream. -/
theorem length_le_of_parse {length : Nat} {header : Header}
    (isComplete : parse canonical buffer = .complete length header) :
    length ≤ buffer.length := by
  have wholeLength
      {whole : Buffer}
      (isWhole : parseWhole canonical whole = .complete length header) :
      length = whole.length := by
    unfold parseWhole at isWhole
    simp only at isWhole
    split at isWhole
    · cases isWhole
      rfl
    · split at isWhole
      · split at isWhole
        · cases isWhole
        · split at isWhole
          · cases isWhole
          · split at isWhole
            · cases isWhole
            · cases isWhole
              rfl
      · cases isWhole
  unfold parse at isComplete
  split at isComplete
  · split at isComplete
    · split at isComplete <;> cases isComplete
    · cases isComplete
  · split at isComplete
    · cases isComplete
    · simp only at isComplete
      split at isComplete
      · cases isComplete
      · split at isComplete
        · cases isComplete
        · split at isComplete
          · cases isComplete
          · split at isComplete
            · cases isComplete
            · rw [wholeLength isComplete, length_take]
              exact Nat.min_le_right _ _

/-! ## Outcomes -/

/-- A stream of a peer that may send no header, and sends none. -/
def isPlain (listener : Listener) (stream : Buffer) : Bool :=
  listener.optional && stream ≠ [] && stream.head? ≠ signature.head?

/--
What follows the header has reached the listener, all of it, or all of it is
held, which is the start of an unfinished ClientHello.
-/
def Delivers (listener : Listener) (connection : Connection) (rest : Buffer) : Prop :=
  (connection.phase = .handedOver ∧ connection.received = rest) ∨
    (∃ heldFrom,
      connection.phase = .holding heldFrom ∧ connection.received = [] ∧
        connection.buffered.drop heldFrom = rest ∧
        unfinished listener rest = true)

/-- What a connection has come to, by its stream alone. -/
def Outcome (canonical : String → Option String)
    (listener : Listener) (stream : Buffer) (connection : Connection) :
    Prop :=
  if isPlain listener stream then
    connection.adopted = none ∧ connection.info = none ∧ Delivers listener connection stream
  else
    match parse canonical stream with
    | .incomplete =>
      connection.phase = .reading ∧ connection.received = [] ∧
        connection.adopted = none ∧ connection.info = none
    | .invalid code reason =>
      connection.phase = .refused code reason ∧ connection.received = [] ∧
        connection.adopted = none ∧ connection.info = none
    | .complete length header =>
      connection.adopted = header.adopted ∧
        connection.info =
          some
            { via := listener.peer, header,
              listener := listener.label } ∧
        length ≤ stream.length ∧
        Delivers listener connection (stream.drop length)

/-- Until it has finished, the gate has the whole stream. -/
def Buffers (stream : Buffer) (connection : Connection) : Prop :=
  (connection.phase = .reading ∨
      ∃ heldFrom, connection.phase = .holding heldFrom) →
    connection.buffered = stream

variable {listener : Listener}

theorem handOverWhenWhole_delivers (connection : Connection) (heldFrom : Nat)
    (noneReceived : connection.received = []) :
    Delivers listener (handOverWhenWhole listener connection heldFrom)
      (connection.buffered.drop heldFrom) := by
  unfold handOverWhenWhole handOver
  simp only
  split
  · rename_i isUnfinished
    exact .inr ⟨heldFrom, rfl, noneReceived, rfl, isUnfinished⟩
  · exact .inl ⟨rfl, rfl⟩

@[simp] theorem handOverWhenWhole_adopted (connection : Connection) (heldFrom : Nat) :
    (handOverWhenWhole listener connection heldFrom).adopted = connection.adopted := by
  unfold handOverWhenWhole handOver
  simp only
  split <;> rfl

@[simp] theorem handOverWhenWhole_info (connection : Connection) (heldFrom : Nat) :
    (handOverWhenWhole listener connection heldFrom).info = connection.info := by
  unfold handOverWhenWhole handOver
  simp only
  split <;> rfl

@[simp] theorem handOverWhenWhole_buffered (connection : Connection) (heldFrom : Nat) :
    (handOverWhenWhole listener connection heldFrom).buffered = connection.buffered := by
  unfold handOverWhenWhole handOver
  simp only
  split <;> rfl

/-- A chunk after the header reaches the listener, or is held with the rest. -/
theorem Delivers.onData {connection : Connection} {rest : Buffer}
    (delivers : Delivers listener connection rest) (chunk : Buffer) :
    Delivers listener (onData canonical listener connection chunk)
        (rest ++ chunk) ∧
      (onData canonical listener connection chunk).adopted =
          connection.adopted ∧
        (onData canonical listener connection chunk).info =
            connection.info ∧
          ∀ stream, Buffers stream connection →
            Buffers (stream ++ chunk) (onData canonical listener connection chunk) := by
  rcases delivers with ⟨isOver, isRest⟩ | ⟨heldFrom, isHeld, none, isRest, held⟩
  · obtain ⟨phase, buffered, received, adopted, info⟩ := connection
    simp only at isOver isRest
    subst isOver isRest
    refine ⟨.inl ⟨rfl, rfl⟩, rfl, rfl, ?_⟩
    rintro _ _ (isReading | ⟨_, isHolding⟩)
    · cases isReading
    · cases isHolding
  · have someRest : rest ≠ [] := by
      rintro rfl
      simp [unfinished] at held
    have isIn : heldFrom ≤ connection.buffered.length := by
      by_contra isOut
      rw [drop_eq_nil_of_le (Nat.le_of_not_le isOut)] at isRest
      exact someRest isRest.symm
    unfold ProxyProtocol.onData
    rw [isHeld]
    refine ⟨?_, by simp, by simp, ?_⟩
    · have delivered :=
        @handOverWhenWhole_delivers listener
          { connection with buffered := connection.buffered ++ chunk }
          heldFrom none
      rw [drop_append_of_le_length isIn, isRest] at delivered
      exact delivered
    · intro stream buffers _
      simp only [handOverWhenWhole_buffered]
      rw [buffers (.inr ⟨heldFrom, isHeld⟩)]

/-- The first byte of a stream stays its first byte. -/
theorem isPlain_append (someStream : stream ≠ []) (later : Buffer) :
    isPlain listener (stream ++ later) = isPlain listener stream := by
  unfold isPlain
  rw [List.head?_append_of_ne_nil _ someStream]
  simp [someStream]

/-- The bytes read so far, read again with a chunk. -/
theorem readOn_outcome (isReading : connection.phase = .reading)
    (isStream : connection.buffered = stream) (someStream : stream ≠ [])
    (noneReceived : connection.received = []) (noneAdopted : connection.adopted = none)
    (noInfo : connection.info = none) :
    Outcome canonical listener stream
        (readOn canonical listener connection) ∧
      Buffers stream (readOn canonical listener connection) := by
  subst isStream
  have isPlain_iff : isPlain listener connection.buffered =
      (listener.optional && decide (connection.buffered.head? ≠ signature.head?)) := by
    simp [isPlain, someStream]
  unfold Outcome readOn
  rw [isPlain_iff]
  split
  · refine ⟨⟨?_, ?_, ?_⟩, ?_⟩
    · rw [handOverWhenWhole_adopted]
      exact noneAdopted
    · rw [handOverWhenWhole_info]
      exact noInfo
    · exact handOverWhenWhole_delivers connection 0 noneReceived
    · intro _
      exact handOverWhenWhole_buffered connection 0
  · cases isParsed : parse canonical connection.buffered with
    | incomplete => exact ⟨⟨isReading, noneReceived, noneAdopted, noInfo⟩, fun _ => rfl⟩
    | invalid code reason => exact ⟨⟨rfl, noneReceived, noneAdopted, noInfo⟩, fun _ => rfl⟩
    | complete length header =>
      refine ⟨⟨?_, ?_, length_le_of_parse isParsed, ?_⟩, ?_⟩
      · rw [handOverWhenWhole_adopted]
      · rw [handOverWhenWhole_info]
      · exact handOverWhenWhole_delivers _ length noneReceived
      · intro _
        rw [handOverWhenWhole_buffered]

/-- One chunk more. -/
theorem onData_outcome {stream chunk : Buffer}
    (outcome : Outcome canonical listener stream connection) (buffers : Buffers stream connection)
    (someChunk : chunk ≠ []) :
    Outcome canonical listener (stream ++ chunk)
        (onData canonical listener connection chunk) ∧
      Buffers (stream ++ chunk) (onData canonical listener connection chunk) := by
  unfold Outcome at outcome
  split at outcome
  · rename_i wasPlain
    obtain ⟨noneAdopted, noInfo, delivers⟩ := outcome
    obtain ⟨delivers', sameAdopted, sameInfo, buffers'⟩ :=
      @Delivers.onData canonical listener connection stream delivers chunk
    have someStream : stream ≠ [] := by
      rintro rfl
      simp [isPlain] at wasPlain
    refine ⟨?_, buffers' stream buffers⟩
    unfold Outcome
    rw [isPlain_append someStream, if_pos wasPlain, sameAdopted, sameInfo]
    exact ⟨noneAdopted, noInfo, delivers'⟩
  · rename_i notPlain
    have someStream (isVerdict : parse canonical stream ≠ .incomplete) : stream ≠ [] := by
      rintro rfl
      exact isVerdict rfl
    cases isParsed : parse canonical stream with
    | incomplete =>
      rw [isParsed] at outcome
      obtain ⟨isReading, noneReceived, noneAdopted, noInfo⟩ := outcome
      have isStream := buffers (.inl isReading)
      unfold onData
      rw [isReading]
      refine readOn_outcome ?_ ?_ ?_ ?_ ?_ ?_
      · rfl
      · simp only [isStream]
      · simp [someChunk]
      · exact noneReceived
      · exact noneAdopted
      · exact noInfo
    | invalid code reason =>
      rw [isParsed] at outcome
      obtain ⟨isRefused, noneReceived, noneAdopted, noInfo⟩ := outcome
      have isVerdict : parse canonical stream ≠ .incomplete := by simp [isParsed]
      have stays : onData canonical listener connection chunk =
          connection := by
        unfold onData
        rw [isRefused]
      rw [stays]
      constructor
      · unfold Outcome
        rw [isPlain_append (someStream isVerdict), if_neg notPlain,
          parse_append isVerdict, isParsed]
        exact ⟨isRefused, noneReceived, noneAdopted, noInfo⟩
      · rw [Buffers, isRefused]
        rintro (isReading | ⟨_, isHolding⟩)
        · cases isReading
        · cases isHolding
    | complete length header =>
      rw [isParsed] at outcome
      obtain ⟨isAdopted, isInfo, isIn, delivers⟩ := outcome
      have isVerdict : parse canonical stream ≠ .incomplete := by simp [isParsed]
      obtain ⟨delivers', sameAdopted, sameInfo, buffers'⟩ :=
        @Delivers.onData canonical listener connection (stream.drop length) delivers chunk
      refine ⟨?_, buffers' stream buffers⟩
      unfold Outcome
      rw [isPlain_append (someStream isVerdict), if_neg notPlain,
        parse_append isVerdict, isParsed, sameAdopted, sameInfo]
      refine ⟨isAdopted, isInfo, ?_, ?_⟩
      · rw [length_append]
        exact Nat.le_add_right_of_le isIn
      · rw [drop_append_of_le_length isIn]
        exact delivers'

theorem run_outcome (canonical : String → Option String)
    (listener : Listener) (chunks : List Chunk) :
    Outcome canonical listener (streamOf chunks)
        (run canonical listener chunks) ∧
      Buffers (streamOf chunks) (run canonical listener chunks) := by
  induction chunks using List.reverseRecOn with
  | nil =>
    refine ⟨?_, fun _ => rfl⟩
    unfold Outcome
    rw [if_neg (by simp [isPlain, streamOf])]
    exact ⟨rfl, rfl, rfl, rfl⟩
  | append_singleton chunks chunk ih =>
    have isStream : streamOf (chunks ++ [chunk]) = streamOf chunks ++ chunk.bytes := by
      simp [streamOf]
    rw [isStream, run, foldl_append]
    exact onData_outcome ih.1 ih.2 chunk.some

/--
The verdict of `parse` on a prefix of a stream is the verdict on the stream, and
what the connection comes to depends on the stream and not on how it was cut:
of what follows the header all reaches the listener, or all is held, where a
TLS listener's first flight came with the header and is unfinished.
-/
theorem run_by_stream (canonical : String → Option String)
    (listener : Listener) (chunks : List Chunk) :
    (∀ first later, streamOf chunks = first ++ later →
        parse canonical first ≠ .incomplete →
          parse canonical (streamOf chunks) = parse canonical first) ∧
      Outcome canonical listener (streamOf chunks) (run canonical listener chunks) := by
  refine ⟨?_, (run_outcome canonical listener chunks).1⟩
  intro first later isStream isVerdict
  rw [isStream]
  exact parse_append isVerdict later

/-- A LOCAL header. -/
def localHeader : Buffer := signature ++ [0x20, 0x00, 0x00, 0x00]

/-- A TLS listener, and a balancer in front of it. -/
def tlsListener : Listener where
  isTls := true
  label := "ldaps"
  peer := "10.0.0.1"
  optional := false

/--
A first flight that is never finished is held where it came with the header, and
given where the header came alone.
-/
theorem run_not_by_stream :
    ¬∀ (canonical : String → Option String) (listener : Listener)
        (chunks others : List Chunk),
      streamOf chunks = streamOf others →
        (run canonical listener chunks).received = (run canonical listener others).received := by
  intro always
  have same :=
    always some tlsListener
      [{ bytes := localHeader, some := by decide },
        { bytes := [0x16], some := by decide }]
      [{ bytes := localHeader ++ [0x16], some := by decide }]
      (by decide)
  exact absurd same (by decide +kernel)

end IyaSts.ProxyProtocol
