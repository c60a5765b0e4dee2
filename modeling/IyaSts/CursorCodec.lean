import Mathlib.Data.List.Basic
import Mathlib.Data.List.Forall2

namespace IyaSts.CursorCodec

/-!
# Readers that answer writers

A reader moves a cursor along a text and may fail.  A writer appends to a text
it holds.  A reader answers a writer when, started where the writer started, it
stops where the writer stopped and gives a known value, or is known to fail,
whatever text of that length comes before and whatever comes after.  Texts longer
than a given length are left out.  Answers compose as programs do.
-/

open List

/-- A program that reads a text from a cursor. -/
abbrev Reading (τ α : Type) := ReaderT (List τ) (StateT Nat (Except String)) α

section

variable {τ α β γ ι Writer : Type}

/-- A bind reads first with its first part, then with its second. -/
@[simp] theorem bind_apply (first : Reading τ α) (next : α → Reading τ β)
    (text : List τ) (start : Nat) :
    (first >>= next) text start =
      (first text start >>= fun result => next result.1 text result.2) :=
  rfl


/-- What reading a text from a cursor comes to, errors' texts apart. -/
def ReadsTo (reading : Reading τ α) (text : List τ) (start stop : Nat) :
    Option α → Prop
  | some value => reading text start = .ok (value, stop)
  | none => ∀ result, reading text start ≠ .ok result

variable {first : Reading τ α} {next : α → Reading τ β} {text : List τ} {start : Nat}

/-- One part read after another. -/
theorem ReadsTo.bind {start middle stop : Nat} {answer : Option α} {answers : α → Option β}
    (firstReads : ReadsTo first text start middle answer)
    (nextReads :
      ∀ value, answer = some value → ReadsTo (next value) text middle stop (answers value)) :
    ReadsTo (first >>= next) text start stop (answer.bind answers) := by
  cases answer with
  | none =>
    intro result succeeds
    rw [bind_apply] at succeeds
    cases readFirst : first text start with
    | error failure =>
      rw [readFirst] at succeeds
      cases succeeds
    | ok one => exact firstReads one readFirst
  | some value =>
    have readFirst : first text start = .ok (value, middle) := firstReads
    have readNext := nextReads value rfl
    have steps : (first >>= next) text start = next value text middle := by
      rw [bind_apply, readFirst]
      rfl
    rw [Option.bind_some]
    cases outcome : answers value with
    | none =>
      rw [outcome] at readNext
      intro result
      rw [steps]
      exact readNext result
    | some final =>
      rw [outcome] at readNext
      exact steps.trans readNext

/-- A bind that reads is two readings that do. -/
theorem bind_eq_ok {result : β × Nat} (reads : (first >>= next) text start = .ok result) :
    ∃ value middle,
      first text start = .ok (value, middle) ∧ next value text middle = .ok result := by
  rw [bind_apply] at reads
  cases readFirst : first text start with
  | error failure =>
    rw [readFirst] at reads
    cases reads
  | ok one =>
    rw [readFirst] at reads
    exact ⟨one.1, one.2, rfl, reads⟩

/-- What a loop reads, one of its rounds read. -/
theorem mem_of_mapM {reading : ι → Reading τ α}
    {indexes : List ι} {start stop : Nat} {results : List α}
    (reads : (indexes.mapM reading) text start = .ok (results, stop)) :
    ∀ result ∈ results,
      ∃ index ∈ indexes, ∃ before after, reading index text before = .ok (result, after) := by
  induction indexes generalizing start results with
  | nil =>
    rw [mapM_nil] at reads
    cases reads
    nofun
  | cons index indexes ih =>
    rw [mapM_cons] at reads
    obtain ⟨first, middle, readFirst, readRest⟩ := bind_eq_ok reads
    obtain ⟨rest, last, readOthers, isResult⟩ := bind_eq_ok readRest
    cases isResult
    intro result isMember
    rcases mem_cons.mp isMember with rfl | isLater
    · exact ⟨index, mem_cons_self, start, middle, readFirst⟩
    · obtain ⟨other, isOther, found⟩ := ih readOthers result isLater
      exact ⟨other, mem_cons_of_mem _ isOther, found⟩

end

section

variable {τ α β γ ι Writer : Type}
variable (written : Writer → List τ) (most : Nat)

/-- A writer that only appends. -/
def Appends (write : Writer → Writer) : Prop := ∀ writer, written writer <+: written (write writer)

/-- What a writer appended. -/
def added (write : Writer → Writer) (writer : Writer) : List τ :=
  (written (write writer)).drop (written writer).length

/-- What a reader answers to what a writer wrote. -/
structure Answers (write : Writer → Writer) (reading : Reading τ α) (answer : Option α) :
    Prop where
  appends : Appends written write
  reads :
    ∀ (writer : Writer) (before after : List τ),
      before.length = (written writer).length →
        (before ++ added written write writer ++ after).length ≤ most →
          ReadsTo reading (before ++ added written write writer ++ after)
            before.length
            (before.length + (added written write writer).length) answer

variable {written most}

theorem Appends.refl : Appends written id := fun writer => prefix_refl (written writer)

variable {first next write : Writer → Writer} {items : List ι} {reading : Reading τ α}
    {answer : Option α} {readings : α → Reading τ β} {answers : α → Option β} {value : α}

theorem Appends.andThen (firstAppends : Appends written first)
    (nextAppends : Appends written next) :
    Appends written (fun writer => next (first writer)) :=
  fun writer => (firstAppends writer).trans (nextAppends (first writer))

theorem Appends.each {write : ι → Writer → Writer}
    (appends : ∀ item ∈ items, Appends written (write item)) :
    Appends written fun writer =>
      items.foldl (fun writer item => write item writer) writer := by
  induction items with
  | nil => exact Appends.refl
  | cons item items ih =>
    exact (appends item mem_cons_self).andThen
      (ih fun item isItem => appends item (mem_cons_of_mem _ isItem))

theorem Appends.eq_append (appends : Appends written write) (writer : Writer) :
    written (write writer) = written writer ++ added written write writer := by
  obtain ⟨more, isMore⟩ := appends writer
  rw [added, ← isMore, drop_left]

theorem added_andThen (firstAppends : Appends written first)
    (nextAppends : Appends written next) (writer : Writer) :
    added written (fun writer => next (first writer)) writer =
      added written first writer ++ added written next (first writer) := by
  rw [added, nextAppends.eq_append, firstAppends.eq_append, append_assoc, drop_left]

theorem added_id (writer : Writer) : added written id writer = [] := drop_length

/-- A reader that reads nothing answers a writer that writes nothing. -/
theorem Answers.pure (value : α) : Answers written most id (Pure.pure value) (some value) := by
  refine ⟨Appends.refl, fun writer before after _ _ => ?_⟩
  rw [added_id]
  rfl

/-- A reader that fails, whatever was written. -/
theorem Answers.throw (appends : Appends written write) (failure : String) :
    Answers written most write (MonadExcept.throw failure : Reading τ α) none := by
  refine ⟨appends, fun _ _ _ _ _ result succeeds => ?_⟩
  cases succeeds

/-- Only what a writer appends within the length has to be answered. -/
theorem Answers.of_short (appends : Appends written write)
    (answers :
      ∀ writer,
        (added written write writer).length ≤ most → Answers written most write reading answer) :
    Answers written most write reading answer := by
  refine ⟨appends, fun writer before after sameLength fits => ?_⟩
  refine (answers writer ?_).reads writer before after sameLength fits
  rw [length_append, length_append] at fits
  omega

/-- Two readings in a row answer two writings in a row. -/
theorem Answers.bind (firstAnswers : Answers written most first reading answer)
    (nextAppends : Appends written next)
    (nextAnswers :
      ∀ value, answer = some value → Answers written most next (readings value) (answers value)) :
    Answers written most
      (fun writer => next (first writer))
      (reading >>= readings)
      (answer.bind answers) := by
  have firstAppends := firstAnswers.appends
  refine ⟨firstAppends.andThen nextAppends, fun writer before after sameLength fits => ?_⟩
  have split :
      before ++
          added written (fun writer => next (first writer)) writer ++ after =
        before ++ added written first writer ++ added written next (first writer) ++ after := by
    rw [added_andThen firstAppends nextAppends]
    simp only [append_assoc]
  rw [split] at fits ⊢
  rw [added_andThen firstAppends nextAppends, length_append, ← Nat.add_assoc]
  have middleLength :
      (before ++ added written first writer).length = (written (first writer)).length := by
    rw [firstAppends.eq_append, length_append, length_append, sameLength]
  have firstReads :=
    firstAnswers.reads writer before (added written next (first writer) ++ after) sameLength
  rw [← append_assoc] at firstReads
  refine ReadsTo.bind (firstReads fits) fun value isAnswer => ?_
  have nextReads :=
    (nextAnswers value isAnswer).reads (first writer)
      (before ++ added written first writer) after middleLength fits
  rw [length_append] at nextReads
  exact nextReads

/-- A reading whose writing has nothing left to do. -/
theorem Answers.bind_read (firstAnswers : Answers written most write reading answer)
    (nextAnswers :
      ∀ value, answer = some value → Answers written most id (readings value) (answers value)) :
    Answers written most write (reading >>= readings) (answer.bind answers) :=
  firstAnswers.bind Appends.refl nextAnswers

/-- A reading that reads a known value, and a reading after it. -/
theorem Answers.andThen {answer : Option β}
    (firstAnswers : Answers written most first reading (some value)) (next : Writer → Writer)
    (nextAnswers : Answers written most next (readings value) answer) :
    Answers written most
      (fun writer => next (first writer))
      (reading >>= readings)
      answer := by
  have reads :
      Answers written most
        (fun writer => next (first writer))
        (reading >>= readings)
        ((some value).bind fun _ => answer) := by
    refine firstAnswers.bind nextAnswers.appends fun _ isValue => ?_
    cases isValue
    exact nextAnswers
  exact reads

/-- A reading that reads a known value, and what is made of it. -/
theorem Answers.andRead {answer : Option β}
    (firstAnswers : Answers written most write reading (some value))
    (nextAnswers : Answers written most id (readings value) answer) :
    Answers written most write (reading >>= readings) answer :=
  firstAnswers.andThen id nextAnswers

/-- A reading after a check that what was written passes. -/
theorem Answers.checked {refused reading : Reading τ α} {wrong : Prop} [Decidable wrong]
    (passes : ¬ wrong) (answers : Answers written most write reading answer) :
    Answers written most write (if wrong then refused else reading)
      answer := by
  rwa [if_neg passes]

/-- Reading item by item answers writing item by item. -/
theorem Answers.each {write : ι → Writer → Writer} {reading : β → Reading τ α}
    {answer : ι → Option α} {indexes : List β}
    (answers :
      List.Forall₂
        (fun index item => Answers written most (write item) (reading index) (answer item))
        indexes items) :
    Answers written most
      (fun writer => items.foldl (fun writer item => write item writer) writer)
      (indexes.mapM reading)
      (items.mapM answer) := by
  induction answers with
  | nil => exact Answers.pure []
  | @cons index item indexes items itemAnswers _ ih =>
    rw [mapM_cons, mapM_cons]
    exact itemAnswers.bind ih.appends fun value _ =>
      ih.bind_read fun values _ => Answers.pure (value :: values)

/-- A loop over what was read of each item before. -/
theorem Answers.each_map {write : ι → Writer → Writer} {reading : β → Reading τ α}
    {answer : ι → Option α} {index : ι → β}
    (answers :
      ∀ item ∈ items,
        Answers written most (write item) (reading (index item))
          (answer item)) :
    Answers written most
      (fun writer => items.foldl (fun writer item => write item writer) writer)
      ((items.map index).mapM reading)
      (items.mapM answer) := by
  apply Answers.each
  rw [forall₂_map_left_iff, forall₂_same]
  exact answers

/-- As many rounds of one reading as there are items. -/
theorem Answers.each_range {write : ι → Writer → Writer} {answer : ι → α}
    (answers : ∀ item ∈ items, Answers written most (write item) reading (some (answer item))) :
    Answers written most
      (fun writer => items.foldl (fun writer item => write item writer) writer)
      ((List.range items.length).mapM fun _ => reading)
      (some (items.map answer)) := by
  have each :
      Answers written most
        (fun writer => items.foldl (fun writer item => write item writer) writer)
        ((List.range items.length).mapM fun _ => reading)
        (items.mapM fun item => some (answer item)) := by
    apply Answers.each
    rw [forall₂_iff_get]
    exact ⟨length_range, fun i _ isIndex =>
      answers (items.get ⟨i, isIndex⟩) (get_mem items ⟨i, isIndex⟩)⟩
  have allAnswers :
      (items.mapM fun item => some (answer item)) = some (items.map answer) :=
    mapM_pure
  rwa [allAnswers] at each

end

end IyaSts.CursorCodec
