import IyaSts.StructuredFieldsParse

namespace IyaSts.StructuredFields

/-!
# Structured Field Values, as texts

What RFC 8941 section 4.2 reads off the front of a text, as a relation of the
text, the value and what is left.  Nothing here reads: a text is what its parts
are put together, each part as long as its class of characters goes.
-/

open Binary64

/-! ## Characters -/

/-- `DIGIT`. -/
def Digit (c : Char) : Prop := 0x30 ≤ c.toNat ∧ c.toNat ≤ 0x39

/-- `lcalpha`. -/
def Lcalpha (c : Char) : Prop := 0x61 ≤ c.toNat ∧ c.toNat ≤ 0x7a

/-- `ALPHA`. -/
def Alpha (c : Char) : Prop := Lcalpha c ∨ (0x41 ≤ c.toNat ∧ c.toNat ≤ 0x5a)

/-- `tchar`. -/
def Tchar (c : Char) : Prop :=
  Alpha c ∨ Digit c ∨
    c.toNat ∈
      [0x21, 0x23, 0x24, 0x25, 0x26, 0x27, 0x2a, 0x2b, 0x2d, 0x2e, 0x5e, 0x5f, 0x60, 0x7c, 0x7e]

def KeyStart (c : Char) : Prop := Lcalpha c ∨ c = '*'

def KeyChar (c : Char) : Prop := Lcalpha c ∨ Digit c ∨ c ∈ ['_', '-', '.', '*']

def TokenStart (c : Char) : Prop := Alpha c ∨ c = '*'

def TokenChar (c : Char) : Prop := Tchar c ∨ c = ':' ∨ c = '/'

/-- A character of a String that is not escaped. -/
def Printable (c : Char) : Prop := 0x20 ≤ c.toNat ∧ c.toNat ≤ 0x7e

/-- A character of the base64 alphabet. -/
def Base64Char (c : Char) : Prop := Alpha c ∨ Digit c ∨ c = '+' ∨ c = '/'

def Ows (c : Char) : Prop := c = ' ' ∨ c = '\t'

/-- A text that does not begin with a character of a class. -/
def Stops (inClass : Char → Prop) (text : List Char) : Prop := ∀ c ∈ text.head?, ¬inClass c

/-- A text of one class of characters. -/
def All (inClass : Char → Prop) (text : List Char) : Prop := ∀ c ∈ text, inClass c

/-! ## Bare items -/

/-- A word of one class of characters that begins with one of another. -/
inductive WordAt (Start InClass : Char → Prop) : List Char → String → List Char → Prop where
  | word
      {first : Char}
      {more rest : List Char}
      (isStart : Start first)
      (isMore : All InClass more)
      (stops : Stops InClass rest) :
      WordAt Start InClass (first :: more ++ rest) (String.ofList (first :: more)) rest

/-- A key, section 4.2.3.3. -/
abbrev KeyAt : List Char → String → List Char → Prop := WordAt KeyStart KeyChar

/-- A Token, section 4.2.6. -/
abbrev TokenAt : List Char → String → List Char → Prop := WordAt TokenStart TokenChar

/-- The number that digits write. -/
def digitsValue (digits : List Char) : ℕ :=
  digits.foldl (fun value c => 10 * value + (c.toNat - 0x30)) 0

/--
An Integer or a Decimal after its sign, section 4.2.4.  An Integer has its exact
value, and a Decimal the double that is nearest.
-/
inductive UnsignedAt (negative : Bool) : List Char → BareItem → List Char → Prop where
  | integer
      {digits rest : List Char}
      (areDigits : All Digit digits)
      (notEmpty : digits ≠ [])
      (few : digits.length ≤ 15)
      (stops : Stops (fun c => Digit c ∨ c = '.') rest) :
      UnsignedAt negative (digits ++ rest) (.integer (.finite negative (digitsValue digits))) rest
  | decimal
      {whole fraction rest : List Char}
      (isWhole : All Digit whole)
      (someWhole : whole ≠ [])
      (fewWhole : whole.length ≤ 12)
      (isFraction : All Digit fraction)
      (someFraction : fraction ≠ [])
      (fewFraction : fraction.length ≤ 3)
      (stops : Stops Digit rest) :
      UnsignedAt negative (whole ++ '.' :: (fraction ++ rest))
        (.decimal
          (.finite negative (nearest (digitsValue (whole ++ fraction) / 10 ^ fraction.length))))
        rest

/-- An Integer or a Decimal, section 4.2.4. -/
inductive NumberAt : List Char → BareItem → List Char → Prop where
  | positive
      {text rest : List Char}
      {bare : BareItem}
      (isUnsigned : UnsignedAt false text bare rest) :
      NumberAt text bare rest
  | negative
      {text rest : List Char}
      {bare : BareItem}
      (isUnsigned : UnsignedAt true text bare rest) :
      NumberAt ('-' :: text) bare rest

/-- What follows the opening quote of a String, to the quote that closes it. -/
inductive QuotedAt : List Char → List Char → List Char → Prop where
  | closed {rest : List Char} : QuotedAt ('"' :: rest) [] rest
  | escaped
      {c : Char}
      {text value rest : List Char}
      (isEscaped : c = '"' ∨ c = '\\')
      (isRest : QuotedAt text value rest) :
      QuotedAt ('\\' :: c :: text) (c :: value) rest
  | plain
      {c : Char}
      {text value rest : List Char}
      (isPrintable : Printable c)
      (notQuote : c ≠ '"')
      (notBackslash : c ≠ '\\')
      (isRest : QuotedAt text value rest) :
      QuotedAt (c :: text) (c :: value) rest

/-- A String, section 4.2.5. -/
inductive StringAt : List Char → String → List Char → Prop where
  | string
      {text value rest : List Char}
      (isQuoted : QuotedAt text value rest) :
      StringAt ('"' :: text) (String.ofList value) rest

/--
A Byte Sequence, section 4.2.7: base64 that is not padded, or padded to a group
of four.
-/
inductive BytesAt : List Char → Buffer → List Char → Prop where
  | bytes
      {body padding rest : List Char}
      (isBase64 : All Base64Char body)
      (decodes : body.length % 4 ≠ 1)
      (isPadding : All (· = '=') padding)
      (padded : padding = [] ∨ padding.length ≤ 2 ∧ (body.length + padding.length) % 4 = 0) :
      BytesAt (':' :: (body ++ padding ++ ':' :: rest)) (Base64.decode body) rest

/-- A Boolean, section 4.2.8. -/
inductive BooleanAt : List Char → Bool → List Char → Prop where
  | true {rest : List Char} : BooleanAt ('?' :: '1' :: rest) true rest
  | false {rest : List Char} : BooleanAt ('?' :: '0' :: rest) false rest

/-- A bare item, section 4.2.3.1. -/
inductive BareItemAt : List Char → BareItem → List Char → Prop where
  | number
      {text rest : List Char}
      {bare : BareItem}
      (isNumber : NumberAt text bare rest) :
      BareItemAt text bare rest
  | string
      {text rest : List Char}
      {value : String}
      (isString : StringAt text value rest) :
      BareItemAt text (.string value) rest
  | token
      {text rest : List Char}
      {value : String}
      (isToken : TokenAt text value rest) :
      BareItemAt text (.token value) rest
  | bytes
      {text rest : List Char}
      {value : Buffer}
      (isBytes : BytesAt text value rest) :
      BareItemAt text (.bytes value) rest
  | boolean
      {text rest : List Char}
      {value : Bool}
      (isBoolean : BooleanAt text value rest) :
      BareItemAt text (.boolean value) rest

/-! ## Parameters and items -/

/-- One parameter after its semicolon and spaces. -/
inductive ParameterAt : List Char → String × BareItem → List Char → Prop where
  | flag
      {text rest : List Char}
      {key : String}
      (isKey : KeyAt text key rest)
      (stops : Stops (· = '=') rest) :
      ParameterAt text (key, .boolean true) rest
  | valued
      {text between rest : List Char}
      {key : String}
      {value : BareItem}
      (isKey : KeyAt text key ('=' :: between))
      (isValue : BareItemAt between value rest) :
      ParameterAt text (key, value) rest

/-- The parameters as they stand, section 4.2.3.2. -/
inductive ParametersAt : List Char → List (String × BareItem) → List Char → Prop where
  | none {rest : List Char} (stops : Stops (· = ';') rest) : ParametersAt rest [] rest
  | more
      {spaces text between rest : List Char}
      {pair : String × BareItem}
      {pairs : List (String × BareItem)}
      (areSpaces : All (· = ' ') spaces)
      (isPair : ParameterAt text pair between)
      (areMore : ParametersAt between pairs rest) :
      ParametersAt (';' :: (spaces ++ text)) (pair :: pairs) rest

/-- Of repeated keys the last value counts, at the place of the first. -/
def lastWins (pairs : List (String × α)) : List (String × α) :=
  (pairs.map Prod.fst).eraseDups.filterMap fun key =>
    (pairs.reverse.lookup key).map fun value => (key, value)

/-- An Item, section 4.2.3. -/
inductive ItemAt : List Char → Item → List Char → Prop where
  | item
      {text between rest : List Char}
      {bare : BareItem}
      {pairs : List (String × BareItem)}
      (isBare : BareItemAt text bare between)
      (areParameters : ParametersAt between pairs rest) :
      ItemAt text { bare, params := lastWins pairs } rest

/-- The items of an Inner List and its closing parenthesis, section 4.2.1.2. -/
inductive InnerItemsAt : List Char → List Item → List Char → Prop where
  | closed
      {spaces rest : List Char}
      (areSpaces : All (· = ' ') spaces) :
      InnerItemsAt (spaces ++ ')' :: rest) [] rest
  | more
      {spaces text between rest : List Char}
      {item : Item}
      {items : List Item}
      (areSpaces : All (· = ' ') spaces)
      (isItem : ItemAt text item between)
      (isSeparated : between.head? = some ' ' ∨ between.head? = some ')')
      (areMore : InnerItemsAt between items rest) :
      InnerItemsAt (spaces ++ text) (item :: items) rest

/-! ## Members -/

/-- An Item or an Inner List, section 4.2.1.1. -/
inductive MemberAt : List Char → Member → List Char → Prop where
  | item
      {text rest : List Char}
      {item : Item}
      (isItem : ItemAt text item rest) :
      MemberAt text (.item item) rest
  | innerList
      {text between rest : List Char}
      {items : List Item}
      {pairs : List (String × BareItem)}
      (areItems : InnerItemsAt text items between)
      (areParameters : ParametersAt between pairs rest) :
      MemberAt ('(' :: text) (.innerList { value := items, params := lastWins pairs }) rest

/-- One member of a Dictionary, section 4.2.2. -/
inductive PairAt : List Char → String × Member → List Char → Prop where
  | flag
      {text between rest : List Char}
      {key : String}
      {pairs : List (String × BareItem)}
      (isKey : KeyAt text key between)
      (stops : Stops (· = '=') between)
      (areParameters : ParametersAt between pairs rest) :
      PairAt text (key, .item { bare := .boolean true, params := lastWins pairs }) rest
  | valued
      {text between rest : List Char}
      {key : String}
      {member : Member}
      (isKey : KeyAt text key ('=' :: between))
      (isMember : MemberAt between member rest) :
      PairAt text (key, member) rest

/-- Members to the end of the text, with a comma and optional white space between two. -/
inductive MembersAt (memberAt : List Char → α → List Char → Prop) :
    List Char → List α → Prop where
  | last
      {text spaces : List Char}
      {member : α}
      (isMember : memberAt text member spaces)
      (areSpaces : All Ows spaces) :
      MembersAt memberAt text [member]
  | more
      {text spaces spaces' next : List Char}
      {member : α}
      {members : List α}
      (isMember : memberAt text member (spaces ++ ',' :: (spaces' ++ next)))
      (areSpaces : All Ows spaces)
      (areSpaces' : All Ows spaces')
      (areMore : MembersAt memberAt next members) :
      MembersAt memberAt text (member :: members)

/-! ## Fields -/

/-- What a text without leading spaces spells as a type of field. -/
inductive FieldAt : FieldType → List Char → Field → Prop where
  | noMembers : FieldAt .list [] (.list [])
  | list
      {text : List Char}
      {members : List Member}
      (areMembers : MembersAt MemberAt text members) :
      FieldAt .list text (.list members)
  | noPairs : FieldAt .dictionary [] (.dictionary [])
  | dictionary
      {text : List Char}
      {pairs : List (String × Member)}
      (arePairs : MembersAt PairAt text pairs) :
      FieldAt .dictionary text (.dictionary (lastWins pairs))
  | item
      {text spaces : List Char}
      {item : Item}
      (isItem : ItemAt text item spaces)
      (areSpaces : All (· = ' ') spaces) :
      FieldAt .item text (.item item)

/-- What a text spells as a type of field, section 4.2. -/
def Spells (fieldType : FieldType) (text : List Char) (field : Field) : Prop :=
  All (fun c => c.toNat ≤ 0x7f) text ∧
    ∃ spaces inner, text = spaces ++ inner ∧ All (· = ' ') spaces ∧ FieldAt fieldType inner field

end IyaSts.StructuredFields
