import IyaSts.Base64
import IyaSts.Binary64
import IyaSts.Fallible

namespace IyaSts.StructuredFields

/-!
# Structured Field Values, parsed

The parser of RFC 8941 section 4.2 as a cursor over the field's text.  Every
loop of the source is a function of its own, which ends because each round
leaves less to read.
-/

open Binary64 Fallible List

/-! ## The data model -/

/-- A bare item, which carries its type. -/
inductive BareItem where
  | token (value : String)
  | string (value : String)
  | integer (value : Number)
  | decimal (value : Number)
  | boolean (value : Bool)
  | bytes (value : Buffer)
  deriving DecidableEq

/-- Parameters, in their order. -/
abbrev Parameters := List (String × BareItem)

/-- A bare item with its parameters. -/
structure Item where
  bare : BareItem
  params : Parameters
  deriving DecidableEq

/-- Items in parentheses, with parameters of their own. -/
structure InnerList where
  value : List Item
  params : Parameters
  deriving DecidableEq

/-- A member of a List or of a Dictionary. -/
inductive Member where
  | item (item : Item)
  | innerList (innerList : InnerList)
  deriving DecidableEq

/-- The `fieldType` of `parseTop`. -/
inductive FieldType where
  | list
  | dictionary
  | item
  deriving DecidableEq

/-- A field's value. -/
inductive Field where
  | list (members : List Member)
  | dictionary (members : List (String × Member))
  | item (item : Item)
  deriving DecidableEq

/-- A field type as the source spells it. -/
def FieldType.text : FieldType → String
  | .list => "list"
  | .dictionary => "dictionary"
  | .item => "item"

/-! ## Character classes -/

/-- `isDigit`. -/
def isDigit (c : Char) : Bool := '0' ≤ c && c ≤ '9'

/-- `isLcalpha`. -/
def isLcalpha (c : Char) : Bool := 'a' ≤ c && c ≤ 'z'

/-- `isAlpha`. -/
def isAlpha (c : Char) : Bool := ('a' ≤ c && c ≤ 'z') || ('A' ≤ c && c ≤ 'Z')

/-- `TCHAR_PUNCT`. -/
def tcharPunct : String := "!#$%&'*+-.^_`|~"

/-- `isTchar`. -/
def isTchar (c : Char) : Bool := isAlpha c || isDigit c || c ∈ tcharPunct.toList

/-- `isKeyChar`. -/
def isKeyChar (c : Char) : Bool :=
  isLcalpha c || isDigit c || c = '_' || c = '-' || c = '.' || c = '*'

/-- A character a key may begin with. -/
def isKeyStart (c : Char) : Bool := isLcalpha c || c = '*'

/-- A character a Token may begin with. -/
def isTokenStart (c : Char) : Bool := isAlpha c || c = '*'

/-- A character a Token may go on with. -/
def isTokenChar (c : Char) : Bool := isTchar c || c = ':' || c = '/'

/-- A character a String may not hold. -/
def isUnprintable (c : Char) : Bool := c.toNat ≤ 0x1f || 0x7f ≤ c.toNat

/-! ## The cursor -/

/-- What is left of the text, and the offset it begins at. -/
structure Cursor where
  rest : List Char
  i : Nat
  deriving DecidableEq

/-- `peek`, of which nothing is left at the end. -/
def Cursor.peek (cur : Cursor) : Option Char := cur.rest.head?

/-- A peeked character as the source writes it into a message. -/
def shown : Option Char → String
  | none => ""
  | some c => String.ofList [c]

/-- The cursor some characters later. -/
def Cursor.advance (cur : Cursor) (count : Nat) : Cursor where
  rest := cur.rest.drop count
  i := cur.i + count

/-- The cursor after every character of a class. -/
def Cursor.skipWhile (cur : Cursor) (inClass : Char → Bool) : Cursor :=
  cur.advance (cur.rest.takeWhile inClass).length

/-- `discardSP`. -/
def Cursor.discardSP (cur : Cursor) : Cursor := cur.skipWhile fun c => c = ' '

/-- `discardOWS`. -/
def Cursor.discardOWS (cur : Cursor) : Cursor := cur.skipWhile fun c => c = ' ' || c = '\t'

/-- `fail`. -/
def fail (sentence : String) : Except String α := .error ("RFC 8941: " ++ sentence)

/-- What is left after a class is what follows it. -/
theorem Cursor.rest_skipWhile (cur : Cursor) (inClass : Char → Bool) :
    (cur.skipWhile inClass).rest = cur.rest.dropWhile inClass := by
  have whole := takeWhile_append_dropWhile (p := inClass) (l := cur.rest)
  calc
    cur.rest.drop (cur.rest.takeWhile inClass).length
        = (cur.rest.takeWhile inClass ++
            cur.rest.dropWhile inClass).drop (cur.rest.takeWhile inClass).length := by rw [whole]
    _ = cur.rest.dropWhile inClass := drop_left

/-- Skipping leaves no more to read. -/
theorem Cursor.skipWhile_le (cur : Cursor) (inClass : Char → Bool) :
    (cur.skipWhile inClass).rest.length ≤ cur.rest.length := by
  rw [rest_skipWhile]
  exact (dropWhile_suffix _).length_le

/-! ## Bare items -/

/-- `parseKeyAt`. -/
def parseKeyAt (cur : Cursor) : Except String (String × Cursor) :=
  if cur.peek.any isKeyStart then
    return (String.ofList (cur.rest.takeWhile isKeyChar), cur.skipWhile isKeyChar)
  else
    fail ("a key must begin with a lowercase letter or \"*\"; found \"" ++
      shown cur.peek ++ "\" at offset " ++ toString cur.i ++
      " (section 4.2.3.3 step 1).")

/-- The `type` of `parseNumberAt`. -/
inductive NumberType where
  | integer
  | decimal
  deriving DecidableEq

/-- The two length rules of a number's loop. -/
def checkLength (type : NumberType) (inputNumber : List Char) : Except String Unit :=
  if type = .integer ∧ inputNumber.length > 15 then
    fail "an Integer has at most 15 digits (section 4.2.4 step 7.5)."
  else if type = .decimal ∧ inputNumber.length > 16 then
    fail "a Decimal has at most 16 characters (section 4.2.4 step 7.6)."
  else
    return

/-- The loop of `parseNumberAt` over what is left, from an offset on. -/
def numberFrom (type : NumberType) (inputNumber : List Char) (i : Nat) :
    List Char → Except String (NumberType × List Char × Cursor)
  | [] => return (type, inputNumber, { rest := [], i })
  | c :: rest =>
    if isDigit c then do
      checkLength type (inputNumber ++ [c])
      numberFrom type (inputNumber ++ [c]) (i + 1) rest
    else if type = .integer ∧ c = '.' then
      if inputNumber.length > 12 then
        fail ("a Decimal has at most 12 digits before \".\" (section " ++ "4.2.4 step 7.3.1).")
      else do
        checkLength .decimal (inputNumber ++ [c])
        numberFrom .decimal (inputNumber ++ [c]) (i + 1) rest
    else
      return (type, inputNumber, { rest := c :: rest, i })

/-- `parseInt(text, 10)`, of digits. -/
def parseInt (text : List Char) : ℚ≥0 := nearest (Nat.ofDigitChars 10 text 0 : ℕ)

/-- The digits after the point. -/
def fractionOf (text : List Char) : List Char := (text.dropWhile fun c => c ≠ '.').drop 1

/-- `parseFloat(text)`, of digits with a point. -/
def parseFloat (text : List Char) : ℚ≥0 :=
  let whole := text.takeWhile fun c => c ≠ '.'
  let fraction := fractionOf text
  nearest ((Nat.ofDigitChars 10 (whole ++ fraction) 0 : ℕ) / 10 ^ fraction.length)

/-- `parseNumberAt` after the sign. -/
def parseDigitsAt (negative : Bool) (cur : Cursor) : Except String (BareItem × Cursor) :=
  if cur.rest = [] then
    fail ("a \"-\" with no digits after it is not a number (section " ++ "4.2.4 step 5).")
  else if !cur.peek.any isDigit then
    fail ("a number must begin with a digit; found \"" ++ shown cur.peek ++
      "\" at offset " ++ toString cur.i ++ " (section 4.2.4 step 6).")
  else do
    match ← numberFrom .integer [] cur.i cur.rest with
    | (.integer, inputNumber, cur) =>
      return (.integer (.finite negative (parseInt inputNumber)), cur)
    | (.decimal, inputNumber, cur) =>
      if inputNumber.getLast? = some '.' then
        fail "a Decimal may not end with \".\" (section 4.2.4 step 9.1)."
      else if (fractionOf inputNumber).length > 3 then
        fail ("a Decimal has at most 3 digits after \".\" (section 4.2.4 " ++ "step 9.2).")
      else
        return (.decimal (.finite negative (parseFloat inputNumber)), cur)

/-- `parseNumberAt`. -/
def parseNumberAt (cur : Cursor) : Except String (BareItem × Cursor) :=
  if cur.peek = some '-' then
    parseDigitsAt true (cur.advance 1)
  else
    parseDigitsAt false cur

/-- `c.charCodeAt(0)`, the first code unit of a character. -/
def charCode (c : Char) : Nat :=
  if c.toNat < 0x10000 then
    c.toNat
  else
    0xD800 + (c.toNat - 0x10000) / 0x400

/-- A character's code in a message, `code.toString(16)`. -/
def hexadecimal (c : Char) : String := String.ofList (Nat.toDigits 16 (charCode c))

/-- The loop of `parseStringAt` over what is left, from an offset on. -/
def stringFrom (output : List Char) (i : Nat) :
    List Char → Except String (String × Cursor)
  | [] => fail "a String is not closed with DQUOTE (section 4.2.5 step 5)."
  | ['\\'] => fail "a String ends with a lone backslash (section 4.2.5 step 4.2.1)."
  | '\\' :: next :: rest =>
    if next ≠ '"' ∧ next ≠ '\\' then
      fail ("only DQUOTE and \"\\\" may be escaped in a String; found " ++
        "\"\\" ++ shown (some next) ++ "\" (section 4.2.5 step 4.2.3).")
    else
      stringFrom (output ++ [next]) (i + 2) rest
  | '"' :: rest => return (String.ofList output, { rest, i := i + 1 })
  | c :: rest =>
    if isUnprintable c then
      fail ("a String may contain only printable ASCII; found " ++
        "character 0x" ++ hexadecimal c ++ " (section 4.2.5 step 4.4).")
    else
      stringFrom (output ++ [c]) (i + 1) rest

/-- `parseStringAt`. -/
def parseStringAt (cur : Cursor) : Except String (String × Cursor) :=
  if cur.peek ≠ some '"' then
    fail "a String must begin with DQUOTE (section 4.2.5 step 2)."
  else
    stringFrom [] (cur.i + 1) (cur.rest.drop 1)

/-- `parseTokenAt`. -/
def parseTokenAt (cur : Cursor) : Except String (String × Cursor) :=
  if cur.peek.any isTokenStart then
    return (String.ofList (cur.rest.takeWhile isTokenChar), cur.skipWhile isTokenChar)
  else
    fail ("a Token must begin with a letter or \"*\" (section 4.2.6 step " ++ "1).")

/-- A character of `/^[A-Za-z0-9+/=]*$/`. -/
def isBase64Char (c : Char) : Bool := isAlpha c || isDigit c || c = '+' || c = '/' || c = '='

/-- `decodeBase64Strict`. -/
def decodeBase64Strict (b64 : List Char) : Except String Buffer :=
  let body := b64.takeWhile fun c => c ≠ '='
  let pad := b64.dropWhile fun c => c ≠ '='
  if !b64.all isBase64Char then
    fail ("a Byte Sequence contains a character outside the base64 " ++
      "alphabet (section 4.2.7 step 6).")
  else if !pad.all (fun c => c = '=') || pad.length > 2 then
    fail ("base64 padding may only be one or two \"=\" at the end (RFC " ++
      "4648 section 3.2; RFC 8941 section 4.2.7 step 7).")
  else if body.length % 4 = 1 then
    fail ("a base64 value of " ++ toString body.length ++
      " characters before padding cannot be decoded (RFC 8941 " ++
      "section 4.2.7 step 7).")
  else if pad.length > 0 ∧ b64.length % 4 ≠ 0 then
    fail ("base64 padding does not complete a four-character group: \"" ++
      String.ofList pad ++ "\" after " ++ toString body.length ++
      " characters (RFC 4648 section 3.2).")
  else
    return Base64.decode body

/-- `parseBytesAt`. -/
def parseBytesAt (cur : Cursor) : Except String (Buffer × Cursor) :=
  if cur.peek ≠ some ':' then
    fail "a Byte Sequence must begin with \":\" (section 4.2.7 step 1)."
  else
    let cur := cur.advance 1
    if ':' ∉ cur.rest then
      fail ("a Byte Sequence is not closed with \":\" (section 4.2.7 step " ++ "3).")
    else do
      let decoded ←
        decodeBase64Strict (cur.rest.takeWhile fun c => c ≠ ':')
      return (decoded, (cur.skipWhile fun c => c ≠ ':').advance 1)

/-- `parseBooleanAt`. -/
def parseBooleanAt (cur : Cursor) : Except String (Bool × Cursor) :=
  if cur.peek ≠ some '?' then
    fail "a Boolean must begin with \"?\" (section 4.2.8 step 1)."
  else
    let cur := cur.advance 1
    if cur.peek = some '1' then
      return (true, cur.advance 1)
    else if cur.peek = some '0' then
      return (false, cur.advance 1)
    else
      fail ("a Boolean is \"?1\" or \"?0\"; found \"?" ++ shown cur.peek ++
        "\" (section 4.2.8 step 5).")

/-- A value of one type, as a bare item. -/
def asBare (type : α → BareItem) (read : Except String (α × Cursor)) :
    Except String (BareItem × Cursor) :=
  read.map fun (value, cur) => (type value, cur)

/-- `parseBareItemAt`. -/
def parseBareItemAt (cur : Cursor) : Except String (BareItem × Cursor) :=
  let c := cur.peek
  if c = some '-' ∨ c.any isDigit then
    parseNumberAt cur
  else if c = some '"' then
    asBare .string (parseStringAt cur)
  else if c.any isTokenStart then
    asBare .token (parseTokenAt cur)
  else if c = some ':' then
    asBare .bytes (parseBytesAt cur)
  else if c = some '?' then
    asBare .boolean (parseBooleanAt cur)
  else
    fail ((if c = none then "the value ended where an Item was expected"
        else "no Item type begins with \"" ++ shown c ++ "\"") ++
      " at offset " ++ toString cur.i ++ " (section 4.2.3.1 step 6).")


/-! ## What is read leaves less -/

/-- A parser that reads at least one character when it succeeds. -/
def Shortens (cur : Cursor) (read : Except String (α × Cursor)) : Prop :=
  ∀ {value : α} {next : Cursor}, read = .ok (value, next) → next.rest.length < cur.rest.length

theorem length_advance_le (cur : Cursor) (count : Nat) :
    (cur.advance count).rest.length ≤ cur.rest.length := by
  rw [Cursor.advance, length_drop]
  omega

variable {cur next : Cursor} {i : Nat} {text : List Char}

/-- Where there is a character, going past it leaves less. -/
theorem length_advance_of_peek {c : Char} (isNext : cur.peek = some c) :
    (cur.advance 1).rest.length < cur.rest.length := by
  unfold Cursor.peek at isNext
  cases shape : cur.rest with
  | nil =>
    rw [shape] at isNext
    cases isNext
  | cons first rest =>
    rw [Cursor.advance, shape]
    exact Nat.lt_succ_self _

/-- A class that has the next character skips it. -/
theorem length_skipWhile_of_peek {inClass : Char → Bool} (isNext : cur.peek.any inClass = true) :
    (cur.skipWhile inClass).rest.length < cur.rest.length := by
  rw [Cursor.rest_skipWhile]
  unfold Cursor.peek at isNext
  cases shape : cur.rest with
  | nil =>
    rw [shape] at isNext
    cases isNext
  | cons first rest =>
    rw [shape, List.head?_cons, Option.any_some] at isNext
    rw [dropWhile_cons_of_pos isNext, length_cons]
    exact Nat.lt_succ_of_le (dropWhile_suffix _).length_le

/-- A class that has what another has. -/
theorem any_mono {inClass wider : Char → Bool} (isWider : ∀ c, inClass c = true → wider c = true)
    {c : Option Char} (isNext : c.any inClass = true) :
    c.any wider = true := by
  cases c with
  | none => cases isNext
  | some c => exact isWider c isNext

variable (c : Char)

theorem isKeyChar_of_start (isStart : isKeyStart c = true) : isKeyChar c = true := by
  rw [isKeyStart, Bool.or_eq_true] at isStart
  rcases isStart with isLower | isStar
  · simp [isKeyChar, isLower]
  · simp_all [isKeyChar]

theorem isTokenChar_of_start (isStart : isTokenStart c = true) :
    isTokenChar c = true := by
  rw [isTokenStart, Bool.or_eq_true] at isStart
  rcases isStart with isLetter | isStar
  · simp [isTokenChar, isTchar, isLetter]
  · simp_all [isTokenChar, isTchar, tcharPunct]

theorem parseKeyAt_shortens (cur : Cursor) : Shortens cur (parseKeyAt cur) := by
  intro key next isRead
  unfold parseKeyAt at isRead
  split at isRead
  · rename_i isStart
    rw [pure_eq_ok_iff, Prod.mk.injEq] at isRead
    rw [← isRead.2]
    exact length_skipWhile_of_peek (any_mono isKeyChar_of_start isStart)
  · cases isRead

theorem parseTokenAt_shortens (cur : Cursor) : Shortens cur (parseTokenAt cur) := by
  intro token next isRead
  unfold parseTokenAt at isRead
  split at isRead
  · rename_i isStart
    rw [pure_eq_ok_iff, Prod.mk.injEq] at isRead
    rw [← isRead.2]
    exact length_skipWhile_of_peek (any_mono isTokenChar_of_start isStart)
  · cases isRead

/-- The loop of a number leaves what it has not read. -/
theorem numberFrom_le {type type' : NumberType} {inputNumber inputNumber' : List Char}
    (isRead : numberFrom type inputNumber i text = .ok (type', inputNumber', next)) :
    next.rest.length ≤ text.length := by
  induction text generalizing type inputNumber i with
  | nil =>
    rw [numberFrom, pure_eq_ok_iff, Prod.mk.injEq, Prod.mk.injEq] at isRead
    rw [← isRead.2.2]
  | cons c rest ih =>
    rw [length_cons]
    rw [numberFrom] at isRead
    split at isRead
    · rw [bind_eq_ok_iff] at isRead
      obtain ⟨_, _, restRead⟩ := isRead
      exact Nat.le_succ_of_le (ih restRead)
    split at isRead
    · split at isRead
      · cases isRead
      · rw [bind_eq_ok_iff] at isRead
        obtain ⟨_, _, restRead⟩ := isRead
        exact Nat.le_succ_of_le (ih restRead)
    · rw [pure_eq_ok_iff, Prod.mk.injEq, Prod.mk.injEq] at isRead
      rw [← isRead.2.2]
      rfl

/-- The first digit is read. -/
theorem numberFrom_lt {inputNumber : List Char} {type : NumberType}
    (isDigitNext : cur.peek.any isDigit = true)
    (isRead : numberFrom .integer [] cur.i cur.rest = .ok (type, inputNumber, next)) :
    next.rest.length < cur.rest.length := by
  unfold Cursor.peek at isDigitNext
  cases shape : cur.rest with
  | nil =>
    rw [shape] at isDigitNext
    cases isDigitNext
  | cons c rest =>
    rw [shape, List.head?_cons, Option.any_some] at isDigitNext
    rw [shape, numberFrom, if_pos isDigitNext, bind_eq_ok_iff] at isRead
    obtain ⟨_, _, restRead⟩ := isRead
    exact Nat.lt_succ_of_le (numberFrom_le restRead)

theorem parseDigitsAt_shortens (negative : Bool) (cur : Cursor) :
    Shortens cur (parseDigitsAt negative cur) := by
  intro bare next isRead
  unfold parseDigitsAt at isRead
  split at isRead
  · cases isRead
  split at isRead
  · cases isRead
  rename_i isDigitNext
  rw [Bool.not_eq_true, Bool.not_eq_false'] at isDigitNext
  rw [bind_eq_ok_iff] at isRead
  obtain ⟨⟨type, inputNumber, after⟩, loopRead, isRead⟩ := isRead
  have isNext : next = after := by
    cases type with
    | integer =>
      simp only [pure_eq_ok_iff, Prod.mk.injEq] at isRead
      exact isRead.2.symm
    | decimal =>
      simp only at isRead
      split at isRead
      · cases isRead
      split at isRead
      · cases isRead
      rw [pure_eq_ok_iff, Prod.mk.injEq] at isRead
      exact isRead.2.symm
  rw [isNext]
  exact numberFrom_lt isDigitNext loopRead

theorem parseNumberAt_shortens (cur : Cursor) : Shortens cur (parseNumberAt cur) := by
  intro bare next isRead
  unfold parseNumberAt at isRead
  split at isRead
  · exact Nat.lt_of_lt_of_le (parseDigitsAt_shortens _ _ isRead) (length_advance_le cur 1)
  · exact parseDigitsAt_shortens _ _ isRead

/-- The loop of a String leaves less than it begins with. -/
theorem stringFrom_lt {output : List Char} {value : String}
    (isRead : stringFrom output i text = .ok (value, next)) :
    next.rest.length < text.length := by
  fun_induction stringFrom output i text with
  | case1 => cases isRead
  | case2 => cases isRead
  | case3 => cases isRead
  | case4 output i after rest _ ih =>
    have shorter := ih isRead
    simp only [length_cons]
    omega
  | case5 output i rest =>
    rw [pure_eq_ok_iff, Prod.mk.injEq] at isRead
    rw [← isRead.2]
    exact Nat.lt_succ_self _
  | case6 => cases isRead
  | case7 output i c rest _ _ _ _ ih => exact Nat.lt_succ_of_lt (ih isRead)

theorem parseStringAt_shortens (cur : Cursor) : Shortens cur (parseStringAt cur) := by
  intro value next isRead
  unfold parseStringAt at isRead
  split at isRead
  · cases isRead
  · have shorter := stringFrom_lt isRead
    rw [length_drop] at shorter
    omega

theorem parseBytesAt_shortens (cur : Cursor) : Shortens cur (parseBytesAt cur) := by
  intro value next isRead
  unfold parseBytesAt at isRead
  split at isRead
  · cases isRead
  rename_i isColon
  simp only at isRead
  split at isRead
  · cases isRead
  rw [bind_eq_ok_iff] at isRead
  obtain ⟨decoded, _, isRead⟩ := isRead
  rw [pure_eq_ok_iff, Prod.mk.injEq] at isRead
  rw [← isRead.2]
  have skipped := (cur.advance 1).skipWhile_le fun c => c ≠ ':'
  have first := length_advance_of_peek (not_not.mp isColon)
  have last := length_advance_le ((cur.advance 1).skipWhile fun c => c ≠ ':') 1
  omega

theorem parseBooleanAt_shortens (cur : Cursor) : Shortens cur (parseBooleanAt cur) := by
  intro value next isRead
  unfold parseBooleanAt at isRead
  split at isRead
  · cases isRead
  rename_i isMark
  have first := length_advance_of_peek (not_not.mp isMark)
  have last := length_advance_le (cur.advance 1) 1
  simp only at isRead
  split at isRead
  · rw [pure_eq_ok_iff, Prod.mk.injEq] at isRead
    rw [← isRead.2]
    omega
  split at isRead
  · rw [pure_eq_ok_iff, Prod.mk.injEq] at isRead
    rw [← isRead.2]
    omega
  · cases isRead

theorem asBare_shortens {type : α → BareItem}
    {read : Except String (α × Cursor)} (shortens : Shortens cur read) :
    Shortens cur (asBare type read) := by
  intro bare next isRead
  cases read with
  | error error => cases isRead
  | ok result =>
    obtain ⟨value, after⟩ := result
    simp only [asBare, Except.map, Except.ok.injEq, Prod.mk.injEq]
      at isRead
    rw [← isRead.2]
    exact shortens rfl

/-- A bare item takes at least one character. -/
theorem parseBareItemAt_shortens (cur : Cursor) : Shortens cur (parseBareItemAt cur) := by
  intro bare next isRead
  unfold parseBareItemAt at isRead
  simp only at isRead
  split at isRead
  · exact parseNumberAt_shortens cur isRead
  split at isRead
  · exact asBare_shortens (parseStringAt_shortens cur) isRead
  split at isRead
  · exact asBare_shortens (parseTokenAt_shortens cur) isRead
  split at isRead
  · exact asBare_shortens (parseBytesAt_shortens cur) isRead
  split at isRead
  · exact asBare_shortens (parseBooleanAt_shortens cur) isRead
  · cases isRead

end IyaSts.StructuredFields
