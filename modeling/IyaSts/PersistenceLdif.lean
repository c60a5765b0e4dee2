import IyaSts.Base64
import IyaSts.JsObject
import IyaSts.TextLines
import IyaSts.Utf8

namespace IyaSts.PersistenceLdif

/-!
# The LDIF store's writer and reader

A realm's directory is written as records of folded `name: value` lines, with
each entry's origin in a comment above its record, and read back line by line.
Names and Base64 are ASCII and so is every value written as it is, so a line's
characters are its columns.
-/

open TextLines

/-- `WRAP_AT`. -/
def wrapAt : Nat := 76

/-- `ORIGIN_COMMENT`. -/
def originComment : List Char := "# sts-origin: ".toList

/-- A stored directory entry, its attributes in their order. -/
structure StoredEntry where
  dn : String
  attributes : List (String × List String)
  origin : Option String
  deriving DecidableEq

/-! ## Writing -/

/-- `needsBase64`: whether a value is no SAFE-STRING, or not ASCII. -/
def needsBase64 (value : String) : Bool :=
  let s := value.toList
  if s = [] then
    false
  else if s.head? = some ' ' ∨ s.head? = some ':' ∨ s.head? = some '<' then
    true
  else if s.getLast? = some ' ' then
    true
  else
    s.any fun char =>
      let c := char.toNat
      c = 0x00 ∨ c = 0x0a ∨ c = 0x0d ∨ 0x7f < c

/-- The line before it is folded. -/
def unfoldedLine (name value : String) : List Char :=
  if needsBase64 value then
    name.toList ++ ":: ".toList ++ Base64.encode (Utf8.encode value)
  else
    name.toList ++ ": ".toList ++ value.toList

/-- The loop that folds the rest of a line, a space before each part. -/
def continuations (rest : List Char) : List (List Char) :=
  if isRest : rest = [] then
    []
  else
    (' ' :: rest.take (wrapAt - 1)) :: continuations (rest.drop (wrapAt - 1))
  termination_by rest.length
  decreasing_by
    have isSome := List.length_pos_of_ne_nil isRest
    simp only [List.length_drop, wrapAt]
    omega

/-- The parts a line is folded into. -/
def folded (line : List Char) : List (List Char) :=
  if line.length ≤ wrapAt then
    [line]
  else
    line.take wrapAt :: continuations (line.drop wrapAt)

/-- `ldifLine`. -/
def ldifLine (name value : String) : List Char := join (folded (unfoldedLine name value))

/-- The comment that carries an entry's origin. -/
def originLines (origin : Option String) : List (List Char) :=
  match origin with
  | some origin => if origin = "" then [] else [originComment ++ origin.toList]
  | none => []

/-- `entryToLdif`. -/
def entryToLdif (entry : StoredEntry) : List Char :=
  join (originLines entry.origin ++ [ldifLine "dn" entry.dn] ++
    entry.attributes.flatMap fun (name, values) => values.map (ldifLine name))

/-- `toLdif`. -/
def toLdif (rows : List StoredEntry) (header : List String) : String :=
  String.ofList (join
    (header.map (fun line => "# ".toList ++ line.toList) ++
      ["version: 1".toList, []] ++
      rows.flatMap fun entry => [entryToLdif entry, []]))

/-! ## Reading -/

/-- A line of the text: a continuation goes on with the line before it. -/
def unfoldLine (out : List (List Char)) (line : List Char) : List (List Char) :=
  match line, out.getLast? with
  | ' ' :: rest, some last => out.dropLast ++ [last ++ rest]
  | _, _ => out ++ [line]

/-- `unfold`. -/
def unfold (text : List Char) : List (List Char) := (split text).foldl unfoldLine []

/-- What `parseLine` returns; a URL reference has no value. -/
structure ParsedLine where
  name : List Char
  value : Option String
  deriving DecidableEq

/-- `parseLine`. -/
def parseLine (line : List Char) : Option ParsedLine :=
  if ':' ∈ line then
    let name := line.takeWhile fun char => char ≠ ':'
    let rest := line.drop (name.length + 1)
    if rest.head? = some '<' then
      some { name, value := none }
    else if rest.head? = some ':' then
      let bytes := Base64.decode (trim (rest.drop 1))
      some { name, value := some (Utf8.decode bytes) }
    else if rest.head? = some ' ' then
      some { name, value := some (String.ofList (rest.drop 1)) }
    else
      some { name, value := some (String.ofList rest) }
  else
    none

/-- The variables of `fromLdif`'s loop. -/
structure Reader where
  entries : List StoredEntry
  current : Option StoredEntry
  pendingOrigin : List Char
  skipped : Nat
  deriving DecidableEq

/-- The variables before the first line. -/
def Reader.start : Reader where
  entries := []
  current := none
  pendingOrigin := []
  skipped := 0

/-- `finish`. -/
def Reader.finish (reader : Reader) : Reader :=
  { reader with
    entries := reader.entries ++ reader.current.toList
    current := none }

/-- One value of an attribute; what an object inherits has no `push`. -/
def addValue (entry : StoredEntry) (name value : String) : Except String StoredEntry :=
  match JsObject.read entry.attributes name with
  | .own values =>
    .ok { entry with
      attributes := JsObject.assign entry.attributes name (values ++ [value]) }
  | .absent =>
    .ok { entry with
      attributes := JsObject.assign entry.attributes name [value] }
  | .inherited => .error "current.attributes[name].push is not a function"

section

variable (toLowerCase : String → String)

/-- A line with a name and a value. -/
def readValue (reader : Reader) (name value : String) : Except String Reader :=
  if name = "version" then
    .ok reader
  else if name = "dn" then
    .ok { reader.finish with
      current := some {
        dn := value
        attributes := []
        origin :=
          if reader.pendingOrigin = [] then
            none
          else
            some (String.ofList reader.pendingOrigin)
      }
      pendingOrigin := [] }
  else
    match reader.current with
    | none => .ok { reader with skipped := reader.skipped + 1 }
    | some entry => do
      let entry ← addValue entry name value
      return { reader with current := some entry }

/-- One line of `fromLdif`'s loop. -/
def readLine (reader : Reader) (line : List Char) : Except String Reader :=
  if line = [] then
    .ok { reader.finish with pendingOrigin := [] }
  else if line.head? = some '#' then
    if originComment.isPrefixOf line then
      .ok { reader with
        pendingOrigin := trim (line.drop originComment.length) }
    else
      .ok reader
  else
    match parseLine line with
    | none => .ok reader
    | some { value := none, .. } => .ok { reader with skipped := reader.skipped + 1 }
    | some { name, value := some value } =>
      readValue reader (toLowerCase (String.ofList name)) value

/-- An entry that `fromLdif` returns. -/
structure Entry where
  stored : StoredEntry
  createdAt : Option String
  modifiedAt : Option String
  deriving DecidableEq

/-- `(entry.attributes[name] || [])[0] || null`. -/
def firstValue (entry : StoredEntry) (name : String) : Option String :=
  (((entry.attributes.lookup name).getD []).head?).filter fun value => value ≠ ""

/-- The two operational timestamps, rebuilt from the attributes. -/
def stamp (entry : StoredEntry) : Entry where
  stored := entry
  createdAt := firstValue entry "createtimestamp"
  modifiedAt := (firstValue entry "modifytimestamp").or (firstValue entry "createtimestamp")

/-- `fromLdif`. -/
def fromLdif (text : String) : Except String (List Entry) := do
  let reader ← (unfold text.toList).foldlM (readLine toLowerCase) .start
  return reader.finish.entries.map stamp

end

end IyaSts.PersistenceLdif
