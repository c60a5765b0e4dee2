import IyaSts.PersistenceLdif

namespace IyaSts.LdifStream

/-!
# An LDIF file read one record at a time

The lines of a file are gathered into blocks at the blank lines, and the text
of each block goes through the store's reader.  A block with an entry is a
record, which carries the first entry and says whether there are more.
-/

open PersistenceLdif TextLines

/-- `isUrlLine`. -/
def isUrlLine (line : List Char) : Bool :=
  if line = [] ∨ line.head? = some ' ' ∨ line.head? = some '#' then
    false
  else
    let name := line.takeWhile fun char => char ≠ ':'
    ':' ∈ line ∧ name ≠ [] ∧ (line.drop (name.length + 1)).head? = some '<'

/-- A line that ends a block. -/
def isBlank (line : List Char) : Bool := line = [] ∨ line = ['\r']

/-- A record the reader yields. -/
structure Record where
  ordinal : Nat
  line : Nat
  entry : Entry
  url : Bool
  extra : Bool
  deriving DecidableEq

/-- The variables of `records`. -/
structure Stream where
  block : List (List Char)
  blockLine : Nat
  lineNo : Nat
  ordinal : Nat
  url : Bool
  deriving DecidableEq

/-- The variables before the first line. -/
def Stream.start : Stream where
  block := []
  blockLine := 0
  lineNo := 0
  ordinal := 0
  url := false

section

variable (toLowerCase : String → String)

/-- `parseRecord`. -/
def parseRecord (lines : List (List Char)) : Except String (List Entry) :=
  fromLdif toLowerCase (String.ofList (join lines))

/-- The entries of the block gathered so far. -/
def blockEntries (block : List (List Char)) : Except String (List Entry) :=
  if block = [] then .ok [] else parseRecord toLowerCase block

/-- `finish`: the record of the block, and the variables after it. -/
def Stream.finish (stream : Stream) :
    Except String (Option Record × Stream) := do
  match ← blockEntries toLowerCase stream.block with
  | [] => return (none, { stream with block := [], url := false })
  | entry :: others =>
    let out := {
      ordinal := stream.ordinal + 1
      line := stream.blockLine
      entry
      url := stream.url
      extra := others ≠ []
    }
    return (some out, { stream with
      ordinal := stream.ordinal + 1, block := [], url := false })

/-- A line of a block. -/
def Stream.push (stream : Stream) (line : List Char) : Stream where
  block := stream.block ++ [line]
  blockLine := if stream.block = [] then stream.lineNo else stream.blockLine
  lineNo := stream.lineNo
  ordinal := stream.ordinal
  url := isUrlLine line || stream.url

/-- What the iterator yields, and what it throws after it. -/
structure Yield where
  records : List Record
  thrown : Option String
  deriving DecidableEq

/-- A record that is yielded, if there is one, before what follows. -/
def Yield.after (out : Option Record) (rest : Yield) : Yield :=
  { rest with records := out.toList ++ rest.records }

/-- The loop of `records` over the lines that are left. -/
def recordsFrom (stream : Stream) : List (List Char) → Yield
  | [] =>
    match stream.finish toLowerCase with
    | .error error => { records := [], thrown := some error }
    | .ok (out, _) => { records := out.toList, thrown := none }
  | line :: rest =>
    let stream := { stream with lineNo := stream.lineNo + 1 }
    if isBlank line then
      match stream.finish toLowerCase with
      | .error error => { records := [], thrown := some error }
      | .ok (out, stream) => (recordsFrom stream rest).after out
    else
      recordsFrom (stream.push line) rest

/-- `records`, of a file's text. -/
def records (text : String) : Yield := recordsFrom toLowerCase .start (split text.toList)

end

end IyaSts.LdifStream
