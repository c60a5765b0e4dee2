import IyaSts.Utf8
import Mathlib.Data.List.DropRight

namespace IyaSts.DistinguishedName

/-!
# What a distinguished name spells

The string form of a distinguished name (RFC 4514): relative names between
commas, each of parts between plus signs, each a type, an equals sign and a
value.  A backslash escapes the character or the octet that follows it.  Spaces
around the separators are not part of the name, and neither letter case nor a
type's number makes it another name.
-/

/-- A character of the text, or what an escape stands for. -/
inductive Piece where
  | plain (char : Char)
  | escaped (octets : Buffer)
  deriving DecidableEq

/-- The value of a hexadecimal digit. -/
def hexDigit (char : Char) : Option Nat :=
  if char.isDigit then
    some (char.toNat - '0'.toNat)
  else if 'a' ≤ char ∧ char ≤ 'f' then
    some (char.toNat - 'a'.toNat + 10)
  else if 'A' ≤ char ∧ char ≤ 'F' then
    some (char.toNat - 'A'.toNat + 10)
  else
    none

/-- The octet two hexadecimal digits stand for. -/
def hexPair (high low : Char) : Option UInt8 := do
  let high ← hexDigit high
  let low ← hexDigit low
  pure (UInt8.ofNat (high * 16 + low))

/-- The pieces of a text; a backslash at its end stands for itself. -/
def pieces : List Char → List Piece
  | '\\' :: high :: low :: rest =>
    match hexPair high low with
    | some octet => .escaped [octet] :: pieces rest
    | none => .escaped (String.utf8EncodeChar high) :: pieces (low :: rest)
  | ['\\', char] => [.escaped (String.utf8EncodeChar char)]
  | char :: rest => .plain char :: pieces rest
  | [] => []
termination_by text => text.length

/-- The octets a piece stands for. -/
def Piece.octets : Piece → Buffer
  | .plain char => String.utf8EncodeChar char
  | .escaped octets => octets

/-- The lower case of an octet that is a letter of ASCII. -/
def lowerOctet (octet : UInt8) : UInt8 :=
  if 0x41 ≤ octet ∧ octet ≤ 0x5a then octet + 0x20 else octet

/-- Pieces without the unescaped spaces around them. -/
def stripSpaces (text : List Piece) : List Piece :=
  (text.dropWhile (· = .plain ' ')).rdropWhile (· = .plain ' ')

/-- What pieces spell, in lower case. -/
def spelled (text : List Piece) : Buffer :=
  (stripSpaces text).flatMap fun piece => piece.octets.map lowerOctet

/-- One type and value. -/
structure Assertion where
  type : Buffer
  value : Buffer
  deriving DecidableEq

/-- The types that are also written as numbers. -/
def typeNumbers : List (String × String) :=
  [("2.5.4.11", "ou"), ("0.9.2342.19200300.100.1.25", "dc"),
    ("organizationalunitname", "ou"), ("domaincomponent", "dc")]

/-- A type's short name. -/
def shortType (type : Buffer) : Buffer :=
  match typeNumbers.find? fun entry => Utf8.encode entry.1 = type with
  | some entry => Utf8.encode entry.2
  | none => type

/-- `type=value`, where there is an equals sign. -/
def assertion (text : List Piece) : Option Assertion :=
  match text.dropWhile (· ≠ .plain '=') with
  | [] => none
  | _ :: value =>
    some
      { type := shortType (spelled (text.takeWhile (· ≠ .plain '=')))
        value := spelled value }

/-- The parts of one relative name. -/
def relativeName (text : List Piece) : Option (List Assertion) :=
  (text.splitOn (.plain '+')).mapM assertion

/-- The relative names of a distinguished name, the entry's own first. -/
def names (text : String) : Option (List (List Assertion)) :=
  ((pieces text.toList).splitOn (.plain ',')).mapM relativeName

/-- One `type=value` in the short spelling. -/
def plainName (type value : String) : List Assertion :=
  [{ type := Utf8.encode type, value := Utf8.encode value }]

/-- A component of a domain. -/
def IsDomain (name : List Assertion) : Prop := name.map Assertion.type = [Utf8.encode "dc"]

instance (name : List Assertion) : Decidable (IsDomain name) := inferInstanceAs (Decidable (_ = _))

/-- A text names an entry below a container that is directly under a domain. -/
def Below (container : List Assertion) (text : String) : Prop :=
  ∃ above base,
    names text = some (above ++ container :: base) ∧ above ≠ [] ∧ ∀ name ∈ base, IsDomain name

/-- Any spelling is the same name. -/
example :
    names "uid=alice,ou=users,dc=example" = names "UID = alice , 2.5.4.11=\\75sers,DC=Example" := by
  decide +kernel

end IyaSts.DistinguishedName
