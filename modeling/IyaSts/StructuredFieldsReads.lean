import IyaSts.StructuredFieldsGrammar

namespace IyaSts.StructuredFields

/-!
# Bare items read as they are written

Each parser of a bare item succeeds exactly on the texts that begin with one,
with its value and what is left.
-/

open Binary64 Fallible List

/-! ## Classes of characters -/

theorem isDigit_iff (c : Char) : isDigit c = true ↔ Digit c := by
  rw [isDigit, Bool.and_eq_true, decide_eq_true_iff, decide_eq_true_iff]
  exact Iff.rfl

theorem isLcalpha_iff (c : Char) : isLcalpha c = true ↔ Lcalpha c := by
  rw [isLcalpha, Bool.and_eq_true, decide_eq_true_iff, decide_eq_true_iff]
  exact Iff.rfl

theorem isAlpha_iff (c : Char) : isAlpha c = true ↔ Alpha c := by
  rw [isAlpha, Bool.or_eq_true, Bool.and_eq_true, Bool.and_eq_true, decide_eq_true_iff,
    decide_eq_true_iff, decide_eq_true_iff, decide_eq_true_iff]
  exact Iff.rfl

theorem isKeyStart_iff (c : Char) : isKeyStart c = true ↔ KeyStart c := by
  rw [isKeyStart, Bool.or_eq_true, isLcalpha_iff, decide_eq_true_iff, KeyStart]

theorem isKeyChar_iff (c : Char) : isKeyChar c = true ↔ KeyChar c := by
  simp only [isKeyChar, Bool.or_eq_true, isLcalpha_iff, isDigit_iff, decide_eq_true_iff, KeyChar,
    mem_cons, not_mem_nil, or_false, or_assoc]

theorem isTokenStart_iff (c : Char) : isTokenStart c = true ↔ TokenStart c := by
  rw [isTokenStart, Bool.or_eq_true, isAlpha_iff, decide_eq_true_iff, TokenStart]

theorem isTchar_iff (c : Char) : isTchar c = true ↔ Tchar c := by
  have isPunct :
      c ∈ tcharPunct.toList ↔
        c.toNat ∈
          [0x21, 0x23, 0x24, 0x25, 0x26, 0x27, 0x2a, 0x2b, 0x2d, 0x2e, 0x5e, 0x5f, 0x60, 0x7c,
            0x7e] := by
    have isList :
        tcharPunct.toList.map Char.toNat =
          [0x21, 0x23, 0x24, 0x25, 0x26, 0x27, 0x2a, 0x2b, 0x2d, 0x2e, 0x5e, 0x5f, 0x60, 0x7c,
            0x7e] := by
      decide
    rw [← isList]
    refine ⟨fun isMember => mem_map_of_mem isMember, fun isMember => ?_⟩
    obtain ⟨other, isMember, same⟩ := mem_map.mp isMember
    rw [← Char.toNat_inj.mp same]
    exact isMember
  rw [isTchar, Bool.or_eq_true, Bool.or_eq_true, isAlpha_iff, isDigit_iff, decide_eq_true_iff,
    isPunct, Tchar, or_assoc]

theorem isTokenChar_iff (c : Char) : isTokenChar c = true ↔ TokenChar c := by
  rw [isTokenChar, Bool.or_eq_true, Bool.or_eq_true, isTchar_iff, decide_eq_true_iff,
    decide_eq_true_iff, TokenChar, or_assoc]

section

variable {inClass : Char → Bool}
variable {InClass : Char → Prop}

/-- The longest beginning of one class is the one that the rest does not go on. -/
theorem takeWhile_iff (holds : ∀ c, inClass c = true ↔ InClass c) {text taken rest : List Char} :
    text = taken ++ rest ∧ All InClass taken ∧ Stops InClass rest ↔
      text.takeWhile inClass = taken ∧ text.dropWhile inClass = rest := by
  constructor
  · rintro ⟨rfl, allTaken, stops⟩
    have isTaken : ∀ c ∈ taken, inClass c = true :=
      fun c isMember => (holds c).mpr (allTaken c isMember)
    rw [takeWhile_append_of_pos isTaken, dropWhile_append_of_pos isTaken]
    cases rest with
    | nil => simp
    | cons first rest =>
      have isStop : ¬inClass first = true :=
        fun isFirst => stops first rfl ((holds first).mp isFirst)
      rw [takeWhile_cons_of_neg isStop, dropWhile_cons_of_neg isStop, append_nil]
      exact ⟨rfl, rfl⟩
  · rintro ⟨rfl, rfl⟩
    refine ⟨takeWhile_append_dropWhile.symm, fun c isMember => ?_, fun c isFirst held => ?_⟩
    · exact (holds c).mp (all_eq_true.mp all_takeWhile c isMember)
    · have isHead := List.head?_dropWhile_not inClass text
      rw [Option.mem_def.mp isFirst] at isHead
      exact absurd ((holds c).mpr held) (by simpa using isHead)

end

/-! ## Reading -/

/-- A parser succeeds exactly where a relation holds. -/
def Reads (parse : Cursor → Except String (α × Cursor))
    (relation : List Char → α → List Char → Prop) :
    Prop :=
  ∀ cur value rest,
    (∃ next, parse cur = .ok (value, next) ∧ next.rest = rest) ↔ relation cur.rest value rest

variable {α β : Type} {read : Except String (α × Cursor)} {value : β} {type : NumberType}
    {c : Char} {inputNumber text rest digits whole : List Char} {i : Nat}
    {negative : Bool} {cur : Cursor}

/-- A parser of two parts reads what they read one after the other. -/
theorem exists_bind_iff {next : α × Cursor → Except String (β × Cursor)} {rest : List Char} :
    (∃ final, (read >>= next) = .ok (value, final) ∧ final.rest = rest) ↔
      ∃ first between,
        read = .ok (first, between) ∧
          ∃ final, next (first, between) = .ok (value, final) ∧ final.rest = rest := by
  constructor
  · rintro ⟨final, isRead, isRest⟩
    obtain ⟨⟨first, between⟩, firstRead, isRead⟩ := (bind_eq_ok_iff _ _ _).mp isRead
    exact ⟨first, between, firstRead, final, isRead, isRest⟩
  · rintro ⟨first, between, firstRead, final, isRead, isRest⟩
    exact ⟨final, (bind_eq_ok_iff _ _ _).mpr ⟨_, firstRead, isRead⟩, isRest⟩

/-- A parser of one type reads what the parser that it maps reads. -/
theorem exists_map_iff {type : α → β} {rest : List Char} :
    (∃ next,
        (read.map fun (value, cur) => (type value, cur)) = .ok (value, next) ∧ next.rest = rest) ↔
      ∃ held, (∃ next, read = .ok (held, next) ∧ next.rest = rest) ∧ value = type held := by
  cases read with
  | error message =>
    refine iff_of_false ?_ ?_
    · rintro ⟨next, ⟨⟩, _⟩
    · rintro ⟨held, ⟨next, ⟨⟩, _⟩, _⟩
  | ok result =>
    constructor
    · rintro ⟨next, isRead, isRest⟩
      cases isRead
      exact ⟨_, ⟨_, rfl, isRest⟩, rfl⟩
    · rintro ⟨held, ⟨next, isRead, isRest⟩, rfl⟩
      cases isRead
      exact ⟨_, rfl, isRest⟩

section

variable {start inClass : Char → Bool}
variable {Start InClass : Char → Prop}

/-- A parser of the characters of a class reads a word. -/
theorem reads_word (startHolds : ∀ c, start c = true ↔ Start c)
    (holds : ∀ c, inClass c = true ↔ InClass c) (narrower : ∀ c, start c = true → inClass c = true)
    {parse : Cursor → Except String (String × Cursor)} {message : Cursor → String}
    (isParse :
      ∀ cur,
        parse cur =
          if cur.peek.any start = true then
            .ok (String.ofList (cur.rest.takeWhile inClass), cur.skipWhile inClass)
          else
            .error (message cur)) :
    Reads parse (WordAt Start InClass) := by
  intro cur word rest
  constructor
  · rintro ⟨next, isRead, rfl⟩
    rw [isParse, ite_eq_ok_iff] at isRead
    obtain ⟨isStart, isWord⟩ := isRead
    cases isWord
    rw [Cursor.rest_skipWhile]
    obtain ⟨isText, allTaken, stops⟩ :=
      (takeWhile_iff holds).mpr ⟨@rfl _ (cur.rest.takeWhile inClass), rfl⟩
    rw [Cursor.peek] at isStart
    cases isShape : cur.rest with
    | nil =>
      rw [isShape] at isStart
      cases isStart
    | cons first tail =>
      rw [isShape] at isStart isText allTaken stops
      have inNarrow : inClass first = true := narrower first isStart
      rw [takeWhile_cons_of_pos inNarrow] at isText allTaken ⊢
      have isWord :
          WordAt Start InClass
            (first :: tail.takeWhile inClass ++ (first :: tail).dropWhile inClass)
            (String.ofList (first :: tail.takeWhile inClass))
            ((first :: tail).dropWhile inClass) :=
        .word ((startHolds first).mp isStart)
          (fun c isMember => allTaken c (mem_cons_of_mem _ isMember)) stops
      rw [← isText] at isWord
      exact isWord
  · generalize isShape : cur.rest = text
    rintro ⟨isStart, isMore, stops⟩
    rename_i first more
    have isFirst := (startHolds first).mpr isStart
    have allTaken : All InClass (first :: more) :=
      forall_mem_cons.mpr ⟨(holds first).mp (narrower first isFirst), isMore⟩
    obtain ⟨isTaken, isRest⟩ := (takeWhile_iff holds).mp ⟨isShape, allTaken, stops⟩
    refine ⟨cur.skipWhile inClass, ?_, by rw [Cursor.rest_skipWhile, isRest]⟩
    rw [isParse, ite_eq_ok_iff, isTaken]
    refine ⟨?_, rfl⟩
    rw [Cursor.peek, isShape]
    exact isFirst

end

theorem reads_parseKeyAt : Reads parseKeyAt KeyAt :=
  reads_word isKeyStart_iff isKeyChar_iff isKeyChar_of_start fun _ => rfl

theorem reads_parseTokenAt : Reads parseTokenAt TokenAt :=
  reads_word isTokenStart_iff isTokenChar_iff isTokenChar_of_start fun _ => rfl

/-! ## Numbers -/

theorem checkLength_eq_ok_iff {inputNumber : List Char} :
    checkLength type inputNumber = .ok () ↔
      (type = .integer → inputNumber.length ≤ 15) ∧ (type = .decimal → inputNumber.length ≤ 16) := by
  rw [checkLength]
  cases type with
  | integer =>
    by_cases isLong : 15 < inputNumber.length
    · simp [isLong, fail]
    · simp [isLong, pure, Except.pure]
      omega
  | decimal =>
    by_cases isLong : 16 < inputNumber.length
    · simp [isLong, fail]
    · simp [isLong, pure, Except.pure]
      omega

theorem stops_nil {InClass : Char → Prop} : Stops InClass [] := by rintro c ⟨⟩

theorem stops_cons_iff {InClass : Char → Prop} {text : List Char} :
    Stops InClass (c :: text) ↔ ¬InClass c := by
  refine ⟨fun stops => stops c rfl, fun isStop other isFirst => ?_⟩
  rw [List.head?_cons, Option.mem_some_iff] at isFirst
  rw [← isFirst]
  exact isStop

/-- A digit is read, if there is room for it. -/
theorem numberFrom_digit {type : NumberType} {inputNumber text : List Char} {i : Nat} {c : Char}
    (isNext : isDigit c = true) :
    numberFrom type inputNumber i (c :: text) =
      checkLength type (inputNumber ++ [c]) >>= fun _ =>
        numberFrom type (inputNumber ++ [c]) (i + 1) text := by
  rw [numberFrom, if_pos isNext]

/-- After at most twelve digits a point is read. -/
theorem numberFrom_point (few : inputNumber.length ≤ 12) :
    numberFrom .integer inputNumber i ('.' :: text) =
      numberFrom .decimal (inputNumber ++ ['.']) (i + 1) text := by
  have room : (inputNumber ++ ['.']).length ≤ 16 := by
    rw [length_append, length_singleton]
    omega
  have isRoom : checkLength .decimal (inputNumber ++ ['.']) = .ok () :=
    checkLength_eq_ok_iff.mpr ⟨by rintro ⟨⟩, fun _ => room⟩
  rw [numberFrom, if_neg (by decide), if_pos ⟨rfl, rfl⟩, if_neg (Nat.not_lt_of_le few), isRoom]
  rfl

theorem numberFrom_point_ne_ok (many : 12 < inputNumber.length)
    (result : NumberType × List Char × Cursor) :
    numberFrom .integer inputNumber i ('.' :: text) ≠ .ok result := by
  rw [numberFrom, if_neg (by decide), if_pos ⟨rfl, rfl⟩, if_pos many]
  rintro ⟨⟩

/-- The loop ends before a character that is no digit and no first point. -/
theorem numberFrom_stop (notDigit : ¬isDigit c = true) (notPoint : type = .integer → c ≠ '.') :
    numberFrom type inputNumber i (c :: text) =
      .ok (type, inputNumber, { rest := c :: text, i }) := by
  rw [numberFrom, if_neg notDigit, if_neg fun both => notPoint both.1 both.2]
  rfl

theorem eq_nil_of_not_class {InClass : Char → Prop} {text taken after : List Char}
    (notNext : ¬InClass c) (allTaken : All InClass taken) (isText : c :: text = taken ++ after) :
    taken = [] := by
  cases taken with
  | nil => rfl
  | cons first taken =>
    obtain ⟨rfl, _⟩ := List.cons.inj isText
    exact absurd (forall_mem_cons.mp allTaken).1 notNext

/-- After the point, the loop reads digits while there is room for them. -/
theorem numberFrom_decimal_iff (fits : inputNumber.length ≤ 16) {number : List Char} :
    (∃ next, numberFrom .decimal inputNumber i text = .ok (type, number, next) ∧ next.rest = rest) ↔
      ∃ fraction,
        text = fraction ++ rest ∧ All Digit fraction ∧ Stops Digit rest ∧ type = .decimal ∧
          number = inputNumber ++ fraction ∧ number.length ≤ 16 := by
  induction text generalizing inputNumber i with
  | nil =>
    constructor
    · rintro ⟨next, isRead, rfl⟩
      cases isRead
      exact ⟨[], rfl, forall_mem_nil _, stops_nil, rfl, (append_nil _).symm, fits⟩
    · rintro ⟨fraction, isText, _, _, rfl, rfl, _⟩
      obtain ⟨rfl, rfl⟩ := append_eq_nil_iff.mp isText.symm
      rw [append_nil]
      exact ⟨_, rfl, rfl⟩
  | cons c tail ih =>
    by_cases isNext : isDigit c = true
    · have isLoop := @numberFrom_digit .decimal inputNumber tail i c isNext
      rw [isLoop]
      constructor
      · rintro ⟨next, isRead, isRest⟩
        obtain ⟨⟨⟩, room, isRead⟩ := (bind_eq_ok_iff _ _ _).mp isRead
        obtain ⟨fraction, rfl, isFraction, stops, isType, rfl, few⟩ :=
          (ih ((checkLength_eq_ok_iff.mp room).2 rfl)).mp ⟨next, isRead, isRest⟩
        refine
          ⟨c :: fraction, rfl, forall_mem_cons.mpr ⟨(isDigit_iff c).mp isNext, isFraction⟩,
            stops, isType, ?_, few⟩
        rw [append_cons inputNumber c fraction]
      · rintro ⟨fraction, isText, isFraction, stops, rfl, rfl, few⟩
        cases fraction with
        | nil =>
          rw [nil_append] at isText
          rw [← isText] at stops
          exact absurd ((isDigit_iff c).mp isNext) (stops_cons_iff.mp stops)
        | cons first fraction =>
          obtain ⟨rfl, rfl⟩ := List.cons.inj isText
          have isNumber := append_cons inputNumber c fraction
          have room : (inputNumber ++ [c]).length ≤ 16 := by
            rw [isNumber, length_append] at few
            omega
          have isRoom : checkLength .decimal (inputNumber ++ [c]) = .ok () :=
            checkLength_eq_ok_iff.mpr ⟨by rintro ⟨⟩, fun _ => room⟩
          rw [isRoom]
          exact
            (ih room).mpr
              ⟨fraction, rfl, (forall_mem_cons.mp isFraction).2, stops, rfl, isNumber, few⟩
    · have notNext : ¬Digit c := fun held => isNext ((isDigit_iff c).mpr held)
      rw [numberFrom_stop isNext (by rintro ⟨⟩)]
      constructor
      · rintro ⟨next, isRead, rfl⟩
        cases isRead
        exact
          ⟨[], rfl, forall_mem_nil _, stops_cons_iff.mpr notNext, rfl,
            (append_nil _).symm, fits⟩
      · rintro ⟨fraction, isText, isFraction, _, rfl, rfl, _⟩
        obtain rfl := eq_nil_of_not_class notNext isFraction isText
        rw [append_nil]
        exact ⟨_, rfl, isText⟩

/-- Before the point, the loop reads digits to a point or to the end of the number. -/
theorem numberFrom_integer_iff {inputNumber : List Char} (fits : inputNumber.length ≤ 15)
    {i : Nat} {text rest : List Char} {type : NumberType} {number : List Char} :
    (∃ next, numberFrom .integer inputNumber i text = .ok (type, number, next) ∧ next.rest = rest) ↔
      ∃ digits,
        All Digit digits ∧
          ((text = digits ++ rest ∧ Stops (fun c => Digit c ∨ c = '.') rest ∧ type = .integer ∧
              number = inputNumber ++ digits ∧ number.length ≤ 15) ∨
            ∃ fraction,
              text = digits ++ '.' :: (fraction ++ rest) ∧ All Digit fraction ∧ Stops Digit rest ∧
                type = .decimal ∧ number = inputNumber ++ digits ++ '.' :: fraction ∧
                (inputNumber ++ digits).length ≤ 12 ∧ number.length ≤ 16) := by
  induction text generalizing inputNumber i with
  | nil =>
    constructor
    · rintro ⟨next, isRead, rfl⟩
      cases isRead
      exact ⟨[], forall_mem_nil _, .inl ⟨rfl, stops_nil, rfl, (append_nil _).symm, fits⟩⟩
    · rintro ⟨digits, _, ⟨isText, _, rfl, rfl, _⟩ | ⟨fraction, isText, _⟩⟩
      · obtain ⟨rfl, rfl⟩ := append_eq_nil_iff.mp isText.symm
        rw [append_nil]
        exact ⟨_, rfl, rfl⟩
      · cases (append_eq_nil_iff.mp isText.symm).2
  | cons c tail ih =>
    by_cases isNext : isDigit c = true
    · have isLoop := @numberFrom_digit .integer inputNumber tail i c isNext
      have isDigitNext := (isDigit_iff c).mp isNext
      have notPoint : c ≠ '.' := by
        rintro rfl
        cases isNext
      rw [isLoop]
      constructor
      · rintro ⟨next, isRead, isRest⟩
        obtain ⟨⟨⟩, room, isRead⟩ := (bind_eq_ok_iff _ _ _).mp isRead
        obtain ⟨digits, areDigits, found⟩ :=
          (ih ((checkLength_eq_ok_iff.mp room).1 rfl)).mp ⟨next, isRead, isRest⟩
        refine ⟨c :: digits, forall_mem_cons.mpr ⟨isDigitNext, areDigits⟩, ?_⟩
        rw [append_cons inputNumber c digits]
        rcases found with ⟨rfl, found⟩ | ⟨fraction, rfl, found⟩
        · exact .inl ⟨rfl, found⟩
        · exact .inr ⟨fraction, rfl, found⟩
      · rintro ⟨digits, areDigits, found⟩
        cases digits with
        | nil =>
          rcases found with ⟨isText, stops, _⟩ | ⟨fraction, isText, _⟩
          · rw [nil_append] at isText
            rw [← isText] at stops
            exact absurd (.inl isDigitNext) (stops_cons_iff.mp stops)
          · exact absurd (List.cons.inj isText).1 notPoint
        | cons first digits =>
          have isFirst : c = first := by
            rcases found with ⟨isText, _⟩ | ⟨fraction, isText, _⟩
            · exact (List.cons.inj isText).1
            · exact (List.cons.inj isText).1
          subst isFirst
          rw [append_cons inputNumber c digits] at found
          have room : (inputNumber ++ [c]).length ≤ 15 := by
            have isLength : (inputNumber ++ [c] ++ digits).length ≤ 15 := by
              rcases found with ⟨_, _, _, rfl, few⟩ | ⟨fraction, _, _, _, _, _, few, _⟩
              · exact few
              · exact few.trans (by decide)
            rw [length_append] at isLength
            omega
          have isRoom : checkLength .integer (inputNumber ++ [c]) = .ok () :=
            checkLength_eq_ok_iff.mpr ⟨fun _ => room, by rintro ⟨⟩⟩
          rw [isRoom]
          refine (ih room).mpr ⟨digits, (forall_mem_cons.mp areDigits).2, ?_⟩
          rcases found with ⟨isText, found⟩ | ⟨fraction, isText, found⟩
          · exact .inl ⟨(List.cons.inj isText).2, found⟩
          · exact .inr ⟨fraction, (List.cons.inj isText).2, found⟩
    · have notNext : ¬Digit c := fun held => isNext ((isDigit_iff c).mpr held)
      by_cases isPoint : c = '.'
      · subst isPoint
        by_cases isLong : 12 < inputNumber.length
        · constructor
          · rintro ⟨next, isRead, _⟩
            exact absurd isRead (numberFrom_point_ne_ok isLong _)
          · rintro ⟨digits, areDigits, ⟨isText, stops, _⟩ | ⟨fraction, isText, _, _, _, _, few, _⟩⟩
            · rw [eq_nil_of_not_class notNext areDigits isText, nil_append] at isText
              rw [← isText] at stops
              exact absurd (.inr rfl) (stops_cons_iff.mp stops)
            · rw [length_append] at few
              omega
        · have room : (inputNumber ++ ['.']).length ≤ 16 := by
            rw [length_append, length_singleton]
            omega
          rw [numberFrom_point (Nat.le_of_not_lt isLong), numberFrom_decimal_iff room]
          constructor
          · rintro ⟨fraction, rfl, isFraction, stops, isType, isNumber, few⟩
            refine
              ⟨[], forall_mem_nil _,
                .inr ⟨fraction, rfl, isFraction, stops, isType, ?_, ?_, few⟩⟩
            · rw [isNumber, append_nil, append_cons inputNumber '.' fraction]
            · rw [append_nil]
              omega
          · rintro ⟨digits, areDigits, ⟨isText, stops, _⟩ | ⟨fraction, isText, found⟩⟩
            · rw [eq_nil_of_not_class notNext areDigits isText, nil_append] at isText
              rw [← isText] at stops
              exact absurd (.inr rfl) (stops_cons_iff.mp stops)
            · obtain ⟨isFraction, stops, isType, isNumber, _, few⟩ := found
              have noDigit := eq_nil_of_not_class notNext areDigits isText
              rw [noDigit] at isText isNumber
              refine ⟨fraction, (List.cons.inj isText).2, isFraction, stops, isType, ?_, few⟩
              rw [isNumber, append_nil, append_cons inputNumber '.' fraction]
      · rw [numberFrom_stop isNext fun _ => isPoint]
        constructor
        · rintro ⟨next, isRead, rfl⟩
          cases isRead
          refine
            ⟨[], forall_mem_nil _,
              .inl ⟨rfl, stops_cons_iff.mpr ?_, rfl, (append_nil _).symm, fits⟩⟩
          rintro (held | held)
          · exact notNext held
          · exact isPoint held
        · rintro ⟨digits, areDigits, ⟨isText, _, rfl, rfl, _⟩ | ⟨fraction, isText, _⟩⟩
          · rw [eq_nil_of_not_class notNext areDigits isText, append_nil]
            rw [eq_nil_of_not_class notNext areDigits isText] at isText
            exact ⟨_, rfl, isText⟩
          · rw [eq_nil_of_not_class notNext areDigits isText] at isText
            exact absurd (List.cons.inj isText).1 isPoint

theorem digitsValue_lt (areDigits : All Digit digits) :
    digitsValue digits < 10 ^ digits.length := by
  induction digits using List.reverseRecOn with
  | nil => exact Nat.one_pos
  | append_singleton digits c ih =>
    rw [All, forall_mem_append] at areDigits
    have isLess := ih areDigits.1
    have isNext := areDigits.2 c (mem_singleton.mpr rfl)
    rw [digitsValue, foldl_append, ← digitsValue, length_append, length_singleton,
      Nat.pow_succ, foldl_cons, foldl_nil]
    rw [Digit] at isNext
    omega

/-- An Integer of fifteen digits is exact. -/
theorem parseInt_eq (areDigits : All Digit digits) (few : digits.length ≤ 15) :
    parseInt digits = digitsValue digits := by
  have isLess := digitsValue_lt areDigits
  have isBounded : 10 ^ digits.length ≤ 10 ^ 15 := Nat.pow_le_pow_right (by decide) few
  have isValue : parseInt digits = nearest (digitsValue digits : ℕ) := rfl
  rw [isValue]
  exact nearest_natCast (isLess.trans_le (isBounded.trans (by norm_num)))

theorem not_digit_point : ¬Digit '.' := fun held => absurd ((isDigit_iff '.').mpr held) (by decide)

theorem not_point_of_digits (areDigits : All Digit digits) :
    ∀ c ∈ digits, decide (c ≠ '.') = true := by
  intro c isMember
  refine decide_eq_true ?_
  rintro rfl
  exact not_digit_point (areDigits _ isMember)

theorem fractionOf_eq (isWhole : All Digit whole) (fraction : List Char) :
    fractionOf (whole ++ '.' :: fraction) = fraction := by
  rw [fractionOf, dropWhile_append_of_pos (not_point_of_digits isWhole)]
  rfl

theorem parseFloat_eq (isWhole : All Digit whole) (fraction : List Char) :
    parseFloat (whole ++ '.' :: fraction) =
      nearest (digitsValue (whole ++ fraction) / 10 ^ fraction.length) := by
  have isTaken : (whole ++ '.' :: fraction).takeWhile (fun c => c ≠ '.') = whole := by
    rw [takeWhile_append_of_pos (not_point_of_digits isWhole),
      takeWhile_cons_of_neg (by decide), append_nil]
  rw [parseFloat, isTaken, fractionOf_eq isWhole]
  rfl

theorem getLast?_eq_point_iff {whole fraction : List Char} (isFraction : All Digit fraction) :
    (whole ++ '.' :: fraction).getLast? = some '.' ↔ fraction = [] := by
  cases fraction using List.reverseRecOn with
  | nil => simp
  | append_singleton fraction last =>
    have notPoint : last ≠ '.' := by
      rintro rfl
      exact not_digit_point (isFraction _ (mem_append_right _ (mem_singleton.mpr rfl)))
    rw [← cons_append, ← append_assoc, List.getLast?_concat]
    simp [notPoint]

/-- Where a text begins with a digit, digits that stop have been read. -/
theorem ne_nil_of_digit {Other : Char → Prop} (isNext : text.head?.any isDigit = true)
    (isText : text = digits ++ rest) (stops : Stops Other rest) (wider : ∀ c, Digit c → Other c) :
    digits ≠ [] := by
  rintro rfl
  rw [isText, nil_append] at isNext
  cases rest with
  | nil => cases isNext
  | cons c rest => exact stops_cons_iff.mp stops (wider c ((isDigit_iff c).mp isNext))

/-- What the digits that a loop has read become. -/
inductive Becomes (negative : Bool) : NumberType → List Char → BareItem → Prop where
  | integer {number : List Char} :
      Becomes negative .integer number (.integer (.finite negative (parseInt number)))
  | decimal
      {number : List Char}
      (notLast : number.getLast? ≠ some '.')
      (few : (fractionOf number).length ≤ 3) :
      Becomes negative .decimal number (.decimal (.finite negative (parseFloat number)))

variable {bare : BareItem}

theorem parseDigitsAt_eq_ok_iff {cur next : Cursor} :
    parseDigitsAt negative cur = .ok (bare, next) ↔
      cur.rest.head?.any isDigit = true ∧
        ∃ type number,
          numberFrom .integer [] cur.i cur.rest = .ok (type, number, next) ∧
            Becomes negative type number bare := by
  rw [parseDigitsAt, Cursor.peek]
  by_cases isNext : cur.rest.head?.any isDigit = true
  · have some : cur.rest ≠ [] := by
      intro isNil
      rw [isNil] at isNext
      cases isNext
    rw [if_neg some, if_neg (by rw [isNext]; decide), and_iff_right isNext, bind_eq_ok_iff]
    constructor
    · rintro ⟨⟨type, number, after⟩, isLoop, isRead⟩
      cases type with
      | integer =>
        cases isRead
        exact ⟨_, _, isLoop, .integer⟩
      | decimal =>
        dsimp only at isRead
        split at isRead
        · cases isRead
        rename_i notLast
        split at isRead
        · cases isRead
        rename_i notLong
        cases isRead
        exact ⟨_, _, isLoop, .decimal notLast (Nat.le_of_not_lt notLong)⟩
    · rintro ⟨type, number, isLoop, isBare⟩
      refine ⟨(type, number, next), isLoop, ?_⟩
      cases isBare with
      | integer => rfl
      | decimal notLast few =>
        dsimp only
        rw [if_neg notLast, if_neg (Nat.not_lt_of_le few)]
        rfl
  · refine iff_of_false ?_ fun both => isNext both.1
    rw [Bool.not_eq_true] at isNext
    rw [isNext]
    split <;> rintro ⟨⟩

theorem head?_digits (areDigits : All Digit digits) (some : digits ≠ []) (after : List Char) :
    (digits ++ after).head?.any isDigit = true := by
  cases digits with
  | nil => exact absurd rfl some
  | cons c digits => exact (isDigit_iff c).mpr (areDigits c mem_cons_self)

theorem reads_parseDigitsAt (negative : Bool) :
    Reads (parseDigitsAt negative) (UnsignedAt negative) := by
  intro cur bare rest
  have isLoop {type : NumberType} {number : List Char} :=
    @numberFrom_integer_iff [] (Nat.zero_le _) cur.i cur.rest rest type number
  constructor
  · rintro ⟨next, isRead, isRest⟩
    obtain ⟨isNext, type, number, loopRead, isBare⟩ := parseDigitsAt_eq_ok_iff.mp isRead
    obtain ⟨digits, areDigits, found⟩ := isLoop.mp ⟨next, loopRead, isRest⟩
    rcases found with
      ⟨isText, stops, rfl, rfl, few⟩ | ⟨fraction, isText, isFraction, stops, rfl, rfl, few, _⟩
    · cases isBare
      rw [isText, parseInt_eq areDigits few]
      have some := ne_nil_of_digit isNext isText stops fun c held => .inl held
      exact .integer areDigits some few stops
    · rw [nil_append] at isBare few
      cases isBare with
      | decimal notLast fewFraction =>
        rw [Ne, getLast?_eq_point_iff isFraction] at notLast
        rw [fractionOf_eq areDigits] at fewFraction
        have some : digits ≠ [] := by
          rintro rfl
          rw [isText] at isNext
          cases isNext
        rw [isText, parseFloat_eq areDigits]
        exact .decimal areDigits some few isFraction notLast fewFraction stops
  · generalize isShape : cur.rest = text at isLoop
    intro isUnsigned
    cases isUnsigned with
    | integer areDigits some few stops =>
      rename_i digits
      obtain ⟨next, loopRead, isRest⟩ :=
        (@isLoop .integer digits).mpr ⟨digits, areDigits, .inl ⟨rfl, stops, rfl, rfl, few⟩⟩
      refine ⟨next, parseDigitsAt_eq_ok_iff.mpr ⟨?_, _, _, isShape ▸ loopRead, ?_⟩, isRest⟩
      · rw [isShape]
        exact head?_digits areDigits some rest
      · rw [← parseInt_eq areDigits few]
        exact .integer
    | decimal isWhole someWhole fewWhole isFraction someFraction fewFraction stops =>
      rename_i whole fraction
      have few : (whole ++ '.' :: fraction).length ≤ 16 := by
        rw [length_append, length_cons]
        omega
      obtain ⟨next, loopRead, isRest⟩ :=
        (@isLoop .decimal (whole ++ '.' :: fraction)).mpr
          ⟨whole, isWhole, .inr ⟨fraction, rfl, isFraction, stops, rfl, rfl, fewWhole, few⟩⟩
      refine ⟨next, parseDigitsAt_eq_ok_iff.mpr ⟨?_, _, _, isShape ▸ loopRead, ?_⟩, isRest⟩
      · rw [isShape]
        exact head?_digits isWhole someWhole _
      · rw [← parseFloat_eq isWhole]
        refine .decimal ?_ ?_
        · rw [Ne, getLast?_eq_point_iff isFraction]
          exact someFraction
        · rw [fractionOf_eq isWhole]
          exact fewFraction

theorem not_minus_of_unsigned (isUnsigned : UnsignedAt negative text bare rest) :
    text.head?.any isDigit = true := by
  cases isUnsigned with
  | integer areDigits some _ _ => exact head?_digits areDigits some _
  | decimal isWhole someWhole _ _ _ _ _ => exact head?_digits isWhole someWhole _

theorem reads_parseNumberAt : Reads parseNumberAt NumberAt := by
  intro cur bare rest
  rw [parseNumberAt, Cursor.peek]
  by_cases isMinus : cur.rest.head? = some '-'
  · rw [if_pos isMinus, reads_parseDigitsAt true]
    obtain ⟨tail, isText⟩ := List.head?_eq_some_iff.mp isMinus
    have isTail : (cur.advance 1).rest = tail := by
      rw [Cursor.advance, isText]
      rfl
    rw [isTail, isText]
    refine ⟨.negative, fun isNumber => ?_⟩
    cases isNumber with
    | positive isUnsigned => cases not_minus_of_unsigned isUnsigned
    | negative isUnsigned => exact isUnsigned
  · rw [if_neg isMinus, reads_parseDigitsAt false]
    refine ⟨.positive, fun isNumber => ?_⟩
    revert isMinus
    generalize cur.rest = text at *
    intro isMinus
    cases isNumber with
    | positive isUnsigned => exact isUnsigned
    | negative isUnsigned => exact absurd rfl isMinus

/-! ## Strings -/

theorem isUnprintable_iff (c : Char) : isUnprintable c = true ↔ ¬Printable c := by
  rw [isUnprintable, Bool.or_eq_true, decide_eq_true_iff, decide_eq_true_iff, Printable]
  omega

/-- The loop of a String reads to the quote that is not escaped. -/
theorem stringFrom_iff {output : List Char} {string : String} :
    (∃ next, stringFrom output i text = .ok (string, next) ∧ next.rest = rest) ↔
      ∃ value, QuotedAt text value rest ∧ string = String.ofList (output ++ value) := by
  fun_induction stringFrom output i text with
  | case1 output i =>
    refine iff_of_false ?_ ?_
    · rintro ⟨next, ⟨⟩, _⟩
    · rintro ⟨value, isQuoted, _⟩
      cases isQuoted
  | case2 output i =>
    refine iff_of_false ?_ ?_
    · rintro ⟨next, ⟨⟩, _⟩
    · rintro ⟨value, isQuoted, _⟩
      cases isQuoted with
      | plain isPrintable notQuote notBackslash isRest => exact notBackslash rfl
  | case3 output i c tail notEscaped =>
    refine iff_of_false ?_ ?_
    · rintro ⟨next, ⟨⟩, _⟩
    · rintro ⟨value, isQuoted, _⟩
      cases isQuoted with
      | escaped isEscaped isRest => exact isEscaped.elim notEscaped.1 notEscaped.2
      | plain isPrintable notQuote notBackslash isRest => exact notBackslash rfl
  | case4 output i c tail isEscaped ih =>
    rw [ih]
    constructor
    · rintro ⟨value, isQuoted, isString⟩
      refine ⟨c :: value, .escaped (by tauto) isQuoted, ?_⟩
      rw [isString, ← append_cons]
    · rintro ⟨value, isQuoted, isString⟩
      cases isQuoted with
      | escaped _ isRest =>
        refine ⟨_, isRest, ?_⟩
        rw [isString, ← append_cons]
      | plain isPrintable notQuote notBackslash isRest => exact absurd rfl notBackslash
  | case5 output i tail =>
    constructor
    · rintro ⟨next, isRead, rfl⟩
      cases isRead
      exact ⟨[], .closed, by rw [append_nil]⟩
    · rintro ⟨value, isQuoted, isString⟩
      cases isQuoted with
      | closed =>
        rw [isString, append_nil]
        exact ⟨_, rfl, rfl⟩
      | plain isPrintable notQuote notBackslash isRest => exact absurd rfl notQuote
  | case6 output i c tail _ notEscape notQuote isBad =>
    refine iff_of_false ?_ ?_
    · rintro ⟨next, ⟨⟩, _⟩
    · rintro ⟨value, isQuoted, _⟩
      cases isQuoted with
      | closed => exact notQuote rfl
      | escaped isEscaped isRest => exact notEscape _ _ rfl rfl
      | plain isPrintable _ _ isRest => exact (isUnprintable_iff c).mp isBad isPrintable
  | case7 output i c tail notLone notEscape notQuote isGood ih =>
    rw [ih]
    constructor
    · rintro ⟨value, isQuoted, isString⟩
      have notBackslash : c ≠ '\\' := by
        intro isBackslash
        cases tail with
        | nil => exact notLone isBackslash rfl
        | cons next tail => exact notEscape next tail isBackslash rfl
      have isPrintable : Printable c :=
        not_not.mp fun held => isGood ((isUnprintable_iff c).mpr held)
      refine ⟨c :: value, .plain isPrintable notQuote notBackslash isQuoted, ?_⟩
      rw [isString, ← append_cons]
    · rintro ⟨value, isQuoted, isString⟩
      cases isQuoted with
      | closed => exact absurd rfl notQuote
      | escaped isEscaped isRest => exact (notEscape _ _ rfl rfl).elim
      | plain _ _ _ isRest =>
        refine ⟨_, isRest, ?_⟩
        rw [isString, ← append_cons]

theorem peek_of_rest (isText : cur.rest = c :: text) : cur.peek = some c := by
  rw [Cursor.peek, isText]
  rfl

theorem rest_advance_of_rest {cur : Cursor} {c : Char} {text : List Char}
    (isText : cur.rest = c :: text) :
    (cur.advance 1).rest = text := by
  rw [Cursor.advance, isText]
  rfl

theorem rest_of_peek (isNext : cur.peek = some c) : cur.rest = c :: (cur.advance 1).rest := by
  obtain ⟨text, isText⟩ := List.head?_eq_some_iff.mp isNext
  rw [rest_advance_of_rest isText, isText]

theorem reads_parseStringAt : Reads parseStringAt StringAt := by
  intro cur string rest
  rw [parseStringAt]
  by_cases isNext : cur.peek = some '"'
  · have isText := rest_of_peek isNext
    have isTail : cur.rest.drop 1 = (cur.advance 1).rest := rfl
    rw [if_neg (not_not.mpr isNext), isTail, stringFrom_iff, isText]
    constructor
    · rintro ⟨value, isQuoted, rfl⟩
      exact .string isQuoted
    · intro isString
      cases isString with
      | string isQuoted => exact ⟨_, isQuoted, rfl⟩
  · rw [if_pos isNext]
    refine iff_of_false ?_ ?_
    · rintro ⟨next, ⟨⟩, _⟩
    · generalize isShape : cur.rest = text
      intro isString
      cases isString with
      | string isQuoted => exact isNext (peek_of_rest isShape)

/-! ## Booleans -/

theorem reads_parseBooleanAt : Reads parseBooleanAt BooleanAt := by
  intro cur value rest
  rw [parseBooleanAt]
  by_cases isMark : cur.peek = some '?'
  · have isText := rest_of_peek isMark
    rw [if_neg (not_not.mpr isMark)]
    dsimp only
    by_cases isOne : (cur.advance 1).peek = some '1'
    · rw [if_pos isOne, isText, rest_of_peek isOne]
      constructor
      · rintro ⟨next, isRead, rfl⟩
        cases isRead
        exact .true
      · intro isBoolean
        cases isBoolean
        exact ⟨_, rfl, rfl⟩
    · rw [if_neg isOne]
      by_cases isZero : (cur.advance 1).peek = some '0'
      · rw [if_pos isZero, isText, rest_of_peek isZero]
        constructor
        · rintro ⟨next, isRead, rfl⟩
          cases isRead
          exact .false
        · intro isBoolean
          cases isBoolean
          exact ⟨_, rfl, rfl⟩
      · rw [if_neg isZero]
        refine iff_of_false ?_ ?_
        · rintro ⟨next, ⟨⟩, _⟩
        · rw [isText]
          generalize isShape : (cur.advance 1).rest = text
          intro isBoolean
          cases isBoolean with
          | true => exact isOne (peek_of_rest isShape)
          | false => exact isZero (peek_of_rest isShape)
  · rw [if_pos isMark]
    refine iff_of_false ?_ ?_
    · rintro ⟨next, ⟨⟩, _⟩
    · generalize isShape : cur.rest = text
      intro isBoolean
      cases isBoolean with
      | true => exact isMark (peek_of_rest isShape)
      | false => exact isMark (peek_of_rest isShape)

/-! ## Byte Sequences -/

theorem isBase64Char_iff (c : Char) : isBase64Char c = true ↔ Base64Char c ∨ c = '=' := by
  simp only [isBase64Char, Bool.or_eq_true, isAlpha_iff, isDigit_iff, decide_eq_true_iff, Base64Char,
    or_assoc]

theorem ne_pad_of_base64 (isBase64 : Base64Char c) : c ≠ '=' := by
  rintro rfl
  have notAlphabet : isAlpha '=' = false ∧ isDigit '=' = false := by decide
  rcases isBase64 with held | held | held | held
  · rw [← isAlpha_iff, notAlphabet.1] at held
    cases held
  · rw [← isDigit_iff, notAlphabet.2] at held
    cases held
  · cases held
  · cases held

/-- What is not refused is what follows. -/
theorem fail_else_eq_ok_iff {refused : Prop} [Decidable refused] {sentence : String}
    {next : Except String α} {value : α} :
    (if refused then fail sentence else next) = .ok value ↔ ¬refused ∧ next = .ok value := by
  by_cases isRefused : refused
  · rw [if_pos isRefused]
    refine iff_of_false ?_ fun both => both.1 isRefused
    rintro ⟨⟩
  · rw [if_neg isRefused, and_iff_right isRefused]

/-- A text is decoded where it is base64 that is not padded or padded to a group. -/
theorem decodeBase64Strict_eq_ok_iff {b64 : List Char} {bytes : Buffer} :
    decodeBase64Strict b64 = .ok bytes ↔
      ∃ body padding,
        b64 = body ++ padding ∧ All Base64Char body ∧ All (· = '=') padding ∧
          body.length % 4 ≠ 1 ∧
            (padding = [] ∨ padding.length ≤ 2 ∧ (body.length + padding.length) % 4 = 0) ∧
              bytes = Base64.decode body := by
  have notPad (c : Char) : decide (c ≠ '=') = true ↔ c ≠ '=' := decide_eq_true_iff
  rw [decodeBase64Strict, fail_else_eq_ok_iff, fail_else_eq_ok_iff, fail_else_eq_ok_iff,
    fail_else_eq_ok_iff, pure_eq_ok_iff]
  constructor
  · rintro ⟨inAlphabet, atEnd, decodes, padded, rfl⟩
    rw [Bool.not_eq_true, Bool.not_eq_false', all_eq_true] at inAlphabet
    rw [Bool.or_eq_true, not_or, Bool.not_eq_true, Bool.not_eq_false', all_eq_true,
      decide_eq_true_iff, Nat.not_lt] at atEnd
    obtain ⟨isText, notPads, _⟩ :=
      (@takeWhile_iff (fun c => decide (c ≠ '=')) (· ≠ '=') notPad b64 _ _).mpr ⟨rfl, rfl⟩
    refine ⟨_, _, isText, fun c isMember => ?_, fun c isMember => ?_, decodes, ?_, rfl⟩
    · have inText := inAlphabet c (isText ▸ mem_append_left _ isMember)
      exact ((isBase64Char_iff c).mp inText).resolve_right (notPads c isMember)
    · exact of_decide_eq_true (atEnd.1 c isMember)
    · by_cases isEmpty : (b64.dropWhile fun c => decide (c ≠ '=')) = []
      · exact .inl isEmpty
      · refine .inr ⟨atEnd.2, ?_⟩
        have isLength := congrArg List.length isText
        rw [length_append] at isLength
        rw [← isLength]
        by_contra notGroup
        exact padded ⟨length_pos_iff.mpr isEmpty, notGroup⟩
  · rintro ⟨body, padding, rfl, isBase64, isPadding, decodes, padded, rfl⟩
    have stops : Stops (· ≠ '=') padding := by
      intro c isFirst notPads
      exact notPads (isPadding c (mem_of_mem_head? isFirst))
    obtain ⟨isBody, isRest⟩ :=
      (@takeWhile_iff (fun c => decide (c ≠ '=')) (· ≠ '=') notPad (body ++ padding) body padding).mp
        ⟨rfl, fun c isMember => ne_pad_of_base64 (isBase64 c isMember), stops⟩
    rw [isBody, isRest, length_append]
    refine ⟨?_, ?_, decodes, ?_, rfl⟩
    · rw [Bool.not_eq_true, Bool.not_eq_false', all_eq_true]
      intro c isMember
      refine (isBase64Char_iff c).mpr ?_
      exact (mem_append.mp isMember).imp (isBase64 c) (isPadding c)
    · rw [Bool.or_eq_true, not_or, Bool.not_eq_true, Bool.not_eq_false', all_eq_true,
        decide_eq_true_iff, Nat.not_lt]
      refine ⟨fun c isMember => decide_eq_true (isPadding c isMember), ?_⟩
      rcases padded with rfl | ⟨few, _⟩
      · exact Nat.zero_le 2
      · exact few
    · rintro ⟨some, notGroup⟩
      rcases padded with rfl | ⟨_, isGroup⟩
      · exact Nat.lt_irrefl 0 some
      · exact notGroup isGroup

/-- What stands before the first colon. -/
theorem takeWhile_colon {taken tail : List Char} (noColon : ∀ c ∈ taken, c ≠ ':') :
    (taken ++ ':' :: tail).takeWhile (fun c => c ≠ ':') = taken ∧
      (taken ++ ':' :: tail).dropWhile (fun c => c ≠ ':') = ':' :: tail :=
  (takeWhile_iff fun _ => decide_eq_true_iff).mp
    ⟨rfl, noColon, stops_cons_iff.mpr fun notColon => notColon rfl⟩

theorem ne_colon_of_base64 {body padding : List Char} (isBase64 : All Base64Char body)
    (isPadding : All (· = '=') padding) :
    ∀ c ∈ body ++ padding, c ≠ ':' := by
  intro c isMember
  rintro rfl
  have notAlphabet : ¬isBase64Char ':' = true := by decide
  refine notAlphabet ((isBase64Char_iff ':').mpr ?_)
  exact (mem_append.mp isMember).imp (isBase64 ':') (isPadding ':')

theorem reads_parseBytesAt : Reads parseBytesAt BytesAt := by
  intro cur bytes rest
  rw [parseBytesAt]
  by_cases isColon : cur.peek = some ':'
  · have isText := rest_of_peek isColon
    rw [if_neg (not_not.mpr isColon)]
    dsimp only
    rw [isText]
    generalize cur.advance 1 = after
    by_cases isClosed : ':' ∈ after.rest
    · obtain ⟨taken, tail, isWhole, notTaken⟩ := eq_append_cons_of_mem isClosed
      have noColon : ∀ c ∈ taken, c ≠ ':' := by
        rintro c isMember rfl
        exact notTaken isMember
      obtain ⟨isTaken, isRest⟩ := @takeWhile_colon taken tail noColon
      have isTail : ((after.skipWhile fun c => c ≠ ':').advance 1).rest = tail := by
        refine @rest_advance_of_rest (after.skipWhile fun c => c ≠ ':') ':' tail ?_
        rw [Cursor.rest_skipWhile, isWhole, isRest]
      rw [if_neg (not_not.mpr isClosed), isWhole, isTaken]
      constructor
      · rintro ⟨next, isRead, rfl⟩
        obtain ⟨decoded, decodes, isRead⟩ := (bind_eq_ok_iff _ _ _).mp isRead
        cases isRead
        obtain ⟨body, padding, rfl, isBase64, isPadding, isDecoded, padded, rfl⟩ :=
          decodeBase64Strict_eq_ok_iff.mp decodes
        rw [isTail]
        exact .bytes isBase64 isDecoded isPadding padded
      · generalize isShape : taken ++ ':' :: tail = text
        intro isBytes
        cases isBytes with
        | bytes isBase64 isDecoded isPadding padded =>
          rename_i body padding
          obtain ⟨isTaken', isRest'⟩ :=
            @takeWhile_colon (body ++ padding) rest (ne_colon_of_base64 isBase64 isPadding)
          rw [← isShape] at isTaken' isRest'
          have sameTaken : taken = body ++ padding := isTaken.symm.trans isTaken'
          have sameRest : ':' :: tail = ':' :: rest := isRest.symm.trans isRest'
          have decodes : decodeBase64Strict taken = .ok (Base64.decode body) :=
            decodeBase64Strict_eq_ok_iff.mpr
              ⟨body, padding, sameTaken, isBase64, isPadding, isDecoded, padded, rfl⟩
          refine ⟨_, (bind_eq_ok_iff _ _ _).mpr ⟨_, decodes, rfl⟩, ?_⟩
          exact isTail.trans (List.cons.inj sameRest).2
    · rw [if_pos isClosed]
      refine iff_of_false ?_ ?_
      · rintro ⟨next, ⟨⟩, _⟩
      · generalize after.rest = text at isClosed
        intro isBytes
        cases isBytes with
        | bytes _ _ _ _ => exact isClosed (by simp)
  · rw [if_pos isColon]
    refine iff_of_false ?_ ?_
    · rintro ⟨next, ⟨⟩, _⟩
    · generalize isShape : cur.rest = text
      intro isBytes
      cases isBytes with
      | bytes _ _ _ _ => exact isColon (peek_of_rest isShape)

/-! ## Bare items -/

/-- A bare item's first character tells its type. -/
theorem bareItemAt_iff :
    BareItemAt text bare rest ↔
    ((text.head? = some '-' ∨ text.head?.any isDigit = true) ∧ NumberAt text bare rest) ∨
        (text.head? = some '"' ∧ ∃ value, StringAt text value rest ∧ bare = .string value) ∨
        (text.head?.any isTokenStart = true ∧
          ∃ value, TokenAt text value rest ∧ bare = .token value) ∨
        (text.head? = some ':' ∧ ∃ value, BytesAt text value rest ∧ bare = .bytes value) ∨
        (text.head? = some '?' ∧ ∃ value, BooleanAt text value rest ∧ bare = .boolean value) := by
  constructor
  · intro isBare
    cases isBare with
    | number isNumber =>
      refine .inl ⟨?_, isNumber⟩
      cases isNumber with
      | positive isUnsigned => exact .inr (not_minus_of_unsigned isUnsigned)
      | negative _ => exact .inl rfl
    | string isString =>
      refine .inr (.inl ⟨?_, _, isString, rfl⟩)
      cases isString
      rfl
    | token isToken =>
      refine .inr (.inr (.inl ⟨?_, _, isToken, rfl⟩))
      cases isToken with
      | word isStart _ _ => exact (isTokenStart_iff _).mpr isStart
    | bytes isBytes =>
      refine .inr (.inr (.inr (.inl ⟨?_, _, isBytes, rfl⟩)))
      cases isBytes
      rfl
    | boolean isBoolean =>
      refine .inr (.inr (.inr (.inr ⟨?_, _, isBoolean, rfl⟩)))
      cases isBoolean <;> rfl
  · rintro (⟨_, isNumber⟩ | ⟨_, value, isString, rfl⟩ | ⟨_, value, isToken, rfl⟩ |
      ⟨_, value, isBytes, rfl⟩ | ⟨_, value, isBoolean, rfl⟩)
    · exact .number isNumber
    · exact .string isString
    · exact .token isToken
    · exact .bytes isBytes
    · exact .boolean isBoolean

/-- No character begins both a number and a Token. -/
theorem not_tokenStart_of_numeric {next : Option Char}
    (isNumeric : next = some '-' ∨ next.any isDigit = true) :
    ¬next.any isTokenStart = true := by
  rcases isNumeric with rfl | isDigitNext
  · decide
  · cases next with
    | none => exact Bool.false_ne_true
    | some c =>
      intro isStart
      have digit := (isDigit_iff c).mp isDigitNext
      rcases (isTokenStart_iff c).mp isStart with letter | rfl
      · rw [Alpha, Lcalpha] at letter
        rw [Digit] at digit
        omega
      · cases isDigitNext

theorem reads_parseBareItemAt : Reads parseBareItemAt BareItemAt := by
  intro cur bare rest
  rw [parseBareItemAt, Cursor.peek, bareItemAt_iff]
  by_cases isNumeric : cur.rest.head? = some '-' ∨ cur.rest.head?.any isDigit = true
  · rw [if_pos isNumeric, reads_parseNumberAt, and_iff_right isNumeric]
    refine (or_iff_left ?_).symm
    rintro (⟨isQuote, _⟩ | ⟨isStart, _⟩ | ⟨isColon, _⟩ | ⟨isMark, _⟩)
    · rw [isQuote] at isNumeric
      exact absurd isNumeric (by decide)
    · exact not_tokenStart_of_numeric isNumeric isStart
    · rw [isColon] at isNumeric
      exact absurd isNumeric (by decide)
    · rw [isMark] at isNumeric
      exact absurd isNumeric (by decide)
  rw [if_neg isNumeric, or_iff_right fun number => isNumeric number.1]
  by_cases isQuote : cur.rest.head? = some '"'
  · rw [if_pos isQuote, asBare, exists_map_iff]
    simp only [reads_parseStringAt cur _ _]
    rw [isQuote]
    simp [isTokenStart, isAlpha]
  rw [if_neg isQuote, or_iff_right fun string => isQuote string.1]
  by_cases isStart : cur.rest.head?.any isTokenStart = true
  · rw [if_pos isStart, asBare, exists_map_iff, and_iff_right isStart]
    simp only [reads_parseTokenAt cur _ _]
    refine (or_iff_left ?_).symm
    rintro (⟨isColon, _⟩ | ⟨isMark, _⟩)
    · rw [isColon] at isStart
      exact absurd isStart (by decide)
    · rw [isMark] at isStart
      exact absurd isStart (by decide)
  rw [if_neg isStart, or_iff_right fun token => isStart token.1]
  by_cases isColon : cur.rest.head? = some ':'
  · rw [if_pos isColon, asBare, exists_map_iff, and_iff_right isColon]
    simp only [reads_parseBytesAt cur _ _]
    refine (or_iff_left ?_).symm
    rintro ⟨isMark, _⟩
    rw [isMark] at isColon
    exact absurd isColon (by decide)
  rw [if_neg isColon, or_iff_right fun bytes => isColon bytes.1]
  by_cases isMark : cur.rest.head? = some '?'
  · rw [if_pos isMark, asBare, exists_map_iff, and_iff_right isMark]
    simp only [reads_parseBooleanAt cur _ _]
  · rw [if_neg isMark]
    refine iff_of_false ?_ fun boolean => isMark boolean.1
    rintro ⟨next, ⟨⟩, _⟩

end IyaSts.StructuredFields
