import IyaSts.KeyedList

namespace IyaSts.PkiMerge

/-!
# One certificate authority row written by several nodes, `pki_merge.js`

The merge of the row a node wants to write with the row the store holds,
against the row the node took its copy from.  Records are compared by their
canonical spelling, so a record here is its parts and the spelling of the rest.
-/

/-! ## Serials -/

/-- A lower-case hexadecimal digit. -/
def isHexDigit (char : Char) : Bool := ('0' ≤ char ∧ char ≤ '9') ∨ ('a' ≤ char ∧ char ≤ 'f')

/-- `normalSerial`: lower case, no separators, no leading zeros. -/
def normalSerial (text : String) : String :=
  let hex := (text.toList.map Char.toLower).filter isHexDigit
  let digits := hex.dropWhile (· = '0')
  if digits = [] then "0" else String.ofList digits

/-- `keysOf`: the keys of three objects, each once. -/
def keysOf (first second third : List String) : List String :=
  KeyedList.unseen id [] (first ++ second ++ third)

/-! ## Three-way answers -/

/-- The answer for one member, and whether it was a conflict. -/
structure Answer (α : Type) where
  value : Option α
  conflict : Bool
  deriving DecidableEq

/-- `pick`; `none` is undefined. -/
def pick {α : Type} [DecidableEq α] (base mine theirs : Option α) : Answer α :=
  if mine = base then
    ⟨theirs, false⟩
  else if theirs = base ∨ mine = theirs then
    ⟨mine, false⟩
  else
    ⟨theirs, true⟩

/-- The keys of a map. -/
def namesOf {α : Type} (members : List (String × α)) : List String := members.map Prod.fst

/-- `mergeKeyed`: the map it answers, and the keys it was told conflict. -/
def mergeKeyed {α : Type} [DecidableEq α] (base mine theirs : List (String × α)) :
    List (String × α) × List String :=
  let answer := fun key => pick (base.lookup key) (mine.lookup key) (theirs.lookup key)
  let keys := keysOf (namesOf theirs) (namesOf mine) (namesOf base)
  (keys.filterMap fun key => (answer key).value.map fun value => (key, value),
    keys.filter fun key => (answer key).conflict)

/-! ## Revocation lists -/

/-- An entry of a revocation list. -/
structure Entry where
  serialHex : String
  revokedAt : String
  reason : String
  /-- The canonical spelling of its other members. -/
  details : String
  deriving DecidableEq

/-- Whether an entry is on hold, the one reason that can be undone. -/
def Entry.isHold (entry : Entry) : Bool := entry.reason = "certificateHold"

/-- The normalised serial of an entry that carries one. -/
def Entry.serial (entry : Entry) : Option String :=
  if entry.serialHex = "" then none else some (normalSerial entry.serialHex)

/-- What `bySerial` finds under a serial: of several entries the last. -/
def bySerial (list : List Entry) (serial : String) : Option Entry :=
  (list.filter fun entry => entry.serial = some serial).getLast?

/-- The serials of a list. -/
def serialsOf (list : List Entry) : List String := list.filterMap Entry.serial

section

-- `new Date(text).getTime()`, of the texts revocations are dated with.
variable (time : String → Int)

/-- The first of the sorted candidates; the sort is stable. -/
def earliest (first : Entry) : List Entry → Entry
  | [] => first
  | next :: rest =>
    if time next.revokedAt < time first.revokedAt then
      earliest next rest
    else
      earliest first rest

/-- What `mergeRevokedList` keeps under one serial. -/
def mergeSerial (base mine theirs : Option Entry) : Option Entry :=
  let hold := base.any Entry.isHold
  if hold ∧ mine = none ∧ (theirs = none ∨ theirs = base) then
    -- Mine released the hold.
    none
  else if hold ∧ theirs = none ∧ mine = base then
    -- Theirs released the hold.
    none
  else
    match theirs, mine with
    | some inTheirs, some inMine =>
      if inTheirs = inMine then
        some inTheirs
      else
        some (earliest time inTheirs (inMine :: base.toList))
    | some inTheirs, none => some inTheirs
    | none, some inMine => some inMine
    | none, none => base

/-- `mergeRevokedList`. -/
def mergeRevokedList (base mine theirs : List Entry) : List Entry :=
  (keysOf (serialsOf theirs) (serialsOf mine) (serialsOf base)).filterMap
    fun serial =>
      mergeSerial time (bySerial base serial) (bySerial mine serial) (bySerial theirs serial)

/-- The revocation lists of a row, each under its authority. -/
abbrev Lists := List (String × List Entry)

/-- `mergeRevoked`. -/
def mergeRevoked (base mine theirs : Lists) : Lists :=
  (keysOf (namesOf theirs) (namesOf mine) (namesOf base)).filterMap fun ca =>
    let list :=
      mergeRevokedList time ((base.lookup ca).getD [])
        ((mine.lookup ca).getD []) ((theirs.lookup ca).getD [])
    if list ≠ [] ∨ (mine.lookup ca).isSome ∨ (theirs.lookup ca).isSome then
      some (ca, list)
    else
      none

end

/-- `mergeCrlNumbers`, of one authority. -/
def mergeCrlNumber (base mine theirs : Option Nat) : Nat :=
  let was := base.getD 0
  let mineNow := mine.getD 0
  let theirsNow := theirs.getD 0
  if was < mineNow ∧ was < theirsNow then
    theirsNow + (mineNow - was)
  else
    max (max mineNow theirsNow) was

/-- `mergeCrlNumbers`. -/
def mergeCrlNumbers (base mine theirs : List (String × Nat)) : List (String × Nat) :=
  (keysOf (namesOf theirs) (namesOf mine) (namesOf base)).map fun ca =>
    (ca, mergeCrlNumber (base.lookup ca) (mine.lookup ca) (theirs.lookup ca))

/-! ## The row -/

/-- A tier: a certificate authority of the row, or a null in its place. -/
inductive Tier where
  | null
  /-- Its serial, and the canonical spelling of its other members. -/
  | authority (serialHex details : String)
  deriving DecidableEq

/-- The normalised serial of a tier that carries one. -/
def Tier.serial : Tier → Option String
  | .null => none
  | .authority serialHex _ => if serialHex = "" then none else some (normalSerial serialHex)

/-- A row; `none` is a member it has not. -/
structure Row where
  root : Option Tier
  intermediate : Option Tier
  issuing : Option (List (String × Tier))
  revoked : Option Lists
  crlNumbers : Option (List (String × Nat))
  /-- The members merged plainly, by the canonical spelling of each. -/
  members : List (String × String)
  deriving DecidableEq

/-- The row of a store that holds none. -/
def Row.empty : Row := ⟨none, none, none, none, none, []⟩

/-- `liveTierSerials`. -/
def liveTierSerials (row : Row) : List String :=
  let issuing := row.issuing.getD []
  (row.root.toList ++ row.intermediate.toList ++
    (namesOf issuing).filterMap fun key => issuing.lookup key).filterMap
    Tier.serial

/-- Whether an entry revokes a live tier. -/
def Entry.isLive (live : List String) (entry : Entry) : Bool :=
  entry.serial.any fun serial => serial ∈ live

/-- `liveAgain`: the row it leaves. -/
def liveAgain (row : Row) : Row :=
  let live := liveTierSerials row
  { row with
    revoked := row.revoked.map fun lists =>
      lists.map fun held => (held.1, held.2.filter fun entry => ¬ entry.isLive live) }

/-- The revocations `liveAgain` drops, each with its authority. -/
def published (row : Row) : List (String × Entry) :=
  let live := liveTierSerials row
  (row.revoked.getD []).flatMap fun held =>
    (held.2.filter fun entry => entry.isLive live).map fun entry => (held.1, entry)

/-- A member that a side has. -/
def either {α β : Type} (mine theirs : Option α) (value : β) : Option β :=
  if mine.isSome ∨ theirs.isSome then some value else none

/-- A member that is merged where any side has it. -/
def anySide {α β : Type} (base mine theirs : Option α) (value : β) : Option β :=
  if base.isSome ∨ mine.isSome ∨ theirs.isSome then some value else none

/-- The tiers that mine changed and did not get. -/
def lostTiers (base mine theirs : Row) : List String :=
  (if (pick base.root mine.root theirs.root).conflict then ["root"] else []) ++
    (if (pick base.intermediate mine.intermediate
        theirs.intermediate).conflict then ["intermediate"] else []) ++
    (mergeKeyed (base.issuing.getD []) (mine.issuing.getD [])
      (theirs.issuing.getD [])).2.map fun key => "issuing." ++ key

section

variable (time : String → Int)

/-- The members merged, before the revocations of live tiers are dropped. -/
def mergeMembers (base mine theirs : Row) : Row where
  root := (pick base.root mine.root theirs.root).value
  intermediate := (pick base.intermediate mine.intermediate theirs.intermediate).value
  issuing :=
    either mine.issuing theirs.issuing
      (mergeKeyed (base.issuing.getD []) (mine.issuing.getD []) (theirs.issuing.getD [])).1
  revoked :=
    anySide base.revoked mine.revoked theirs.revoked
      (mergeRevoked time (base.revoked.getD []) (mine.revoked.getD []) (theirs.revoked.getD []))
  crlNumbers :=
    anySide base.crlNumbers mine.crlNumbers theirs.crlNumbers
      (mergeCrlNumbers (base.crlNumbers.getD []) (mine.crlNumbers.getD [])
        (theirs.crlNumbers.getD []))
  members := (mergeKeyed base.members mine.members theirs.members).1

/-- What `merge` answers. -/
structure Merged where
  row : Row
  lost : List String
  published : List (String × Entry)
  deriving DecidableEq

/-- `merge`. -/
def merge (base mine theirs : Row) : Merged :=
  let row := mergeMembers time base mine theirs
  ⟨liveAgain row, lostTiers base mine theirs, published row⟩

/-! ## Nodes writing one after another -/

/-- One node's write: the row it took its copy from, and its copy. -/
structure Write where
  base : Row
  mine : Row
  deriving DecidableEq

/-- The stored row after one write. -/
def written (stored : Row) (write : Write) : Row := (merge time write.base write.mine stored).row

/-- The stored row after these writes. -/
def storedAfter (start : Row) (writes : List Write) : Row := writes.foldl (written time) start

end

end IyaSts.PkiMerge
