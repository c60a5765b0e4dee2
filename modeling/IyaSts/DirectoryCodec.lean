import IyaSts.Base64
import IyaSts.KeyedList
import IyaSts.TextLines

namespace IyaSts.DirectoryCodec

/-!
# The lookup columns of a stored directory entry, `directory_codec.js`

An entry is stored sealed, with columns of lookups beside it.  A lookup is a
keyed digest of a kind and a value, or both in the clear where no key is held.
What writes the columns and what turns a question into a lookup are two
functions.
-/

/-! ## Lookups -/

/-- A keyed digest, which tells any two texts apart. -/
structure Digest where
  keyedDigest : String → String
  injective : Function.Injective keyedDigest
  notEmpty : ∀ text, keyedDigest text ≠ ""

/-- `lookupOf`; no digest where nothing durable seals. -/
def lookupOf (digest : Option Digest) (kind value : String) : String :=
  match digest with
  | some digest => digest.keyedDigest (kind ++ "\n" ++ value)
  | none => kind ++ "\n" ++ value

/-- An entry's attributes, each with its values. -/
abbrev Attributes := List (String × List String)

/-- `text.trim()`. -/
def trim (text : String) : String := String.ofList (TextLines.trim text.toList)

/-- `unique`. -/
def unique (list : List String) : List String := KeyedList.unseen id [] list

/-! ## Certificates -/

/-- What follows the first place where a text has another. -/
def textAfter (wanted : List Char) (text : List Char) : Option (List Char) :=
  (text.tails.find? fun rest => wanted.isPrefixOf rest).map fun rest => rest.drop wanted.length

/-- What comes before the first place where a text has another. -/
def textBefore (wanted : List Char) (text : List Char) : Option (List Char) :=
  (text.tails.find? fun rest => wanted.isPrefixOf rest).map fun rest =>
    text.take (text.length - rest.length)

/-- The body of a PEM block; the text itself where it holds none. -/
def pemBody (text : List Char) : List Char :=
  let pem := do
    let rest ← textAfter "-----BEGIN CERTIFICATE-----".toList text
    textBefore "-----END CERTIFICATE-----".toList rest
  pem.getD text

/-- A character of `[A-Za-z0-9+/]`. -/
def isBase64Char (char : Char) : Bool := char.isAlphanum || char = '+' || char = '/'

/-- Whether a text is `[A-Za-z0-9+/]+={0,2}`. -/
def isBase64 (text : List Char) : Bool :=
  let padding := text.dropWhile isBase64Char
  text.takeWhile isBase64Char ≠ [] ∧ padding.all (· = '=') ∧ padding.length ≤ 2

/-- `certificateDerOf`. -/
def certificateDerOf (value : String) : Option Buffer :=
  let body := (pemBody value.toList).filter fun char => !TextLines.isWhitespace char
  if isBase64 body then
    let der := Base64.decode body
    if 16 < der.length ∧ der.head? = some 0x30 then some der else none
  else
    none

/-- `CERTIFICATE_ATTRIBUTES`. -/
def certificateAttributes : List String := ["usercertificate;binary", "usercertificate"]

/-- `VALUE_INDEXED`. -/
def valueIndexed : List String :=
  ["uid", "didsubject", "spiffesubject", "x509subject", "federationlink", "stsdevicekeythumbprint",
    "stsdevicesecrethash", "stsdevicecredentialid", "owner", "usercertificatesha256"]

/-- `CLASS_INDEXED`. -/
def classIndexed : List String :=
  ["groupofnames", "groupofuniquenames", "posixgroup", "groupofurls"]

section

-- `String.prototype.toLowerCase`, of any version of Unicode.
variable (toLowerCase : String → String)

-- The SHA-256 of some bytes, in lower-case hexadecimal.
variable (sha256 : Buffer → String)

/-- `valuesOf`, of a lower-case name. -/
def valuesOf (attrs : Attributes) (name : String) : List String :=
  attrs.flatMap fun entry => if toLowerCase entry.1 = name then entry.2 else []

/-- `certificateDigestsOf`. -/
def certificateDigestsOf (attrs : Attributes) : List String :=
  unique <|
    certificateAttributes.flatMap fun name =>
      (valuesOf toLowerCase attrs name).filterMap fun one => (certificateDerOf one).map sha256

/-- `lowered`. -/
def lowered (list : List String) : List String := list.map toLowerCase

/-! ## The columns -/

/-- The lookup columns of an entry. -/
structure Columns where
  nameKeys : List String
  mailKeys : List String
  uuidKeys : List String
  classKeys : List String
  valueKeys : List String
  attrNames : List String
  deriving DecidableEq

/-- The values that an indexed attribute is looked up by. -/
def indexedValues (attrs : Attributes) (name : String) : List String :=
  if name = "usercertificatesha256" then
    certificateDigestsOf toLowerCase sha256 attrs
  else
    unique (valuesOf toLowerCase attrs name)

/-- The lookups of one kind of value. -/
def keyed (digest : Option Digest) (kind : String) (list : List String) : List String :=
  (unique list).map (lookupOf digest kind)

/-- `indexOf`. -/
def indexOf (digest : Option Digest) (attrs : Attributes) : Columns where
  nameKeys :=
    keyed digest "name"
      (lowered toLowerCase
        (valuesOf toLowerCase attrs "uid" ++ valuesOf toLowerCase attrs "stspseudonym"))
  mailKeys := keyed digest "mail" (lowered toLowerCase (valuesOf toLowerCase attrs "mail"))
  uuidKeys :=
    keyed digest "uuid"
      (lowered toLowerCase
        (valuesOf toLowerCase attrs "entryuuid" ++ valuesOf toLowerCase attrs "stsentryuuidalias"))
  classKeys :=
    keyed digest "class"
      ((lowered toLowerCase (valuesOf toLowerCase attrs "objectclass")).filter (· ∈ classIndexed))
  valueKeys :=
    valueIndexed.flatMap fun name =>
      (indexedValues toLowerCase sha256 attrs name).map (lookupOf digest ("attr:" ++ name))
  attrNames := unique (attrs.map fun entry => toLowerCase entry.1)

/-! ## The questions -/

/-- A query that looks values up, with the arguments that `keyArgs` turns. -/
inductive Query where
  | byName (name : String)
  | withNames (names : List String)
  | byUuid (uuid : String)
  | withUuids (uuids : List String)
  | byMail (mail : String)
  | equalUnder (kind value : String)
  | byAttribute (name value : String)
  | classesUnder (classes : List String)
  deriving DecidableEq

/-- A lookup that a query asks for; a name is asked for in the DN too. -/
structure Asked where
  key : String
  rdn : Option String
  deriving DecidableEq

/-- `lower`. -/
def lower (text : String) : String := toLowerCase (trim text)

/-- A name's lookup. -/
def askedName (digest : Option Digest) (name : String) : Asked :=
  let wanted := lower toLowerCase name
  { key := lookupOf digest "name" wanted, rdn := some wanted }

/-- A UUID's lookup. -/
def askedUuid (digest : Option Digest) (uuid : String) : Asked where
  key := lookupOf digest "uuid" (lower toLowerCase uuid)
  rdn := none

/-- The lookup of a class, which is one of the group classes. -/
def askedClass (digest : Option Digest) (one : String) : Except String Asked :=
  let wanted := lower toLowerCase one
  if wanted ∉ classIndexed then
    .error ("directory_codec: classesUnder is asked only for the group classes (" ++
      ", ".intercalate classIndexed ++ "), not " ++ wanted)
  else
    .ok { key := lookupOf digest "class" wanted, rdn := none }

/-- `keyArgs`: the lookups of a query. -/
def keyArgs (digest : Option Digest) : Query → Except String (List Asked)
  | .byName name => .ok [askedName toLowerCase digest name]
  | .withNames names => .ok (names.map (askedName toLowerCase digest))
  | .byUuid uuid => .ok [askedUuid toLowerCase digest uuid]
  | .withUuids uuids => .ok (uuids.map (askedUuid toLowerCase digest))
  | .byMail mail => .ok [{ key := lookupOf digest "mail" (lower toLowerCase mail), rdn := none }]
  | .equalUnder kind value =>
    .ok [{ key := lookupOf digest kind (lower toLowerCase value), rdn := none }]
  | .byAttribute name value =>
    if lower toLowerCase name ∉ valueIndexed then
      .error ("directory_codec: byAttribute is asked only for the value-indexed attributes (" ++
        ", ".intercalate valueIndexed ++ "), not " ++ lower toLowerCase name)
    else
      .ok [{ key := lookupOf digest ("attr:" ++ lower toLowerCase name) value, rdn := none }]
  | .classesUnder classes => classes.mapM (askedClass toLowerCase digest)

end

end IyaSts.DirectoryCodec
