import IyaSts.Json

namespace IyaSts.DirectoryMerge

/-!
# Two nodes writing one directory entry, `directory_merge.js`

The merge of the entry a node changed with the row another node committed,
against the entry the change was made from.
-/

open JsObject

/-- The attribute names that are always whole-valued, `SINGLE`. -/
def single : List String :=
  ["userpassword", "pwdhistory", "pwdchangedtime", "ststotpcredential", "stsbackupcodes",
    "stsactivationtoken", "stsactivationexpires", "appregistrationjson", "stsapppassword",
    "stsidaverification", "stsselfissuedsubject", "stsdevicesecrethash", "stsdevicesession",
    "stscibausercode", "stsdevicecompliancechange", "stsdevicestatuschange", "stsdeviceenrolment",
    "stsdeviceriskchange", "stsoidfedkind", "stsoidfedentityid", "stsoidfeddata", "stsoidfedkeys"]

/-- The attribute names that are always merged by value, `MULTI`. -/
def multi : List String :=
  ["member", "uniquemember", "memberof", "objectclass", "description", "oauthconsent",
    "oauthconsentapplied", "stswebauthncredential", "stsandroidattestedcredential", "x509subject",
    "didsubject", "spiffesubject", "authnmethod", "federationattribute", "federationissuer",
    "federationrelationship", "federationlink", "stsdevicekey", "stsdevicekeythumbprint",
    "stsdevicecredentialid", "stsdeviceandroidkey", "stsserviceaccountowner", "stsoidfedevent"]

/-- What an attribute holds. -/
inductive Values where
  | null
  | text (value : String)
  | list (values : List String)
  deriving DecidableEq

/-- The attributes of an entry, in the order of their keys. -/
abbrev Attributes := List (String × Values)

/-- An entry; `none` is an absent or null field. -/
structure Entry where
  dn : String
  attributes : Attributes
  createdAt : Option String
  modifiedAt : Option String
  origin : Option String
  deriving DecidableEq

/-- `attributes[name]`, which is of the object's prototype for some names. -/
abbrev Slot := Property Values

/-- What `JSON.stringify` makes of a value: equal where the texts are. -/
inductive Shape where
  | undefined
  | values (held : Values)
  | object
  deriving DecidableEq

/--
The shape of what is read; `undefined` is read as null, and of what is
inherited only `__proto__` has a text.
-/
def shapeOf (name : String) : Slot → Shape
  | .own held => .values held
  | .inherited => if name = "__proto__" then .object else .undefined
  | .absent => .values .null

/-- `same`, of two attributes of one name. -/
def same (name : String) (first second : Slot) : Bool := shapeOf name first = shapeOf name second

/-- `countOf`. -/
def countOf : Slot → Nat
  | .own (.list values) => values.length
  | .absent => 0
  | _ => 1

/-- What `String` makes of a value that is inherited. -/
def builtinText (name : String) : String :=
  if name = "__proto__" then "[object Object]"
  else if name = "constructor" then "function Object() { [native code] }"
  else "function " ++ name ++ "() { [native code] }"

/-- `listOf(values).map(String)`. -/
def listOf (name : String) : Slot → List String
  | .own .null => []
  | .own (.text value) => [value]
  | .own (.list values) => values
  | .inherited => [builtinText name]
  | .absent => []

/-- `String(listOf(values)[0] || '')`. -/
def firstOf (name : String) (slot : Slot) : String := (listOf name slot).headD ""

/-- `a > b` of two strings. -/
def isAfter (first second : String) : Bool := Json.codeUnits second < Json.codeUnits first

/--
The code units of the first value at `entryuuid`; of a text that is no array,
its first code unit.
-/
def firstUuid : Slot → List Nat
  | .own (.list (value :: _)) => Json.codeUnits value
  | .own (.text value) => (Json.codeUnits value).take 1
  | _ => []

section

-- `String.prototype.toLowerCase`, of any version of Unicode.
variable (toLowerCase : List Nat → List Nat)

/-- `uuidOf`; empty where the entry carries none. -/
def uuidOf (entry : Entry) : List Nat :=
  let value := firstUuid (read entry.attributes "entryuuid")
  if value = [] then [] else toLowerCase value

/-- `mergeValues`; absent where no value is left. -/
def mergeValues (name : String) (base mine theirs : Slot) : Slot :=
  let b := listOf name base
  let m := listOf name mine
  let removed := b.filter fun value => value ∉ m
  let added := m.filter fun value => value ∉ b
  let kept := (listOf name theirs).filter fun value => value ∉ removed
  let out := added.foldl (fun out value => if value ∈ out then out else out ++ [value]) kept
  if out = [] then .absent else .own (.list out)

/-- What `mergeAttributes` makes of one attribute. -/
def mergeAttribute (base mine theirs : Attributes) (name : String) : Slot :=
  let b := read base name
  let m := read mine name
  let t := read theirs name
  if same name m b then
    t
  else if same name t b || same name m t then
    m
  else if name = "modifytimestamp" then
    if isAfter (firstOf name m) (firstOf name t) then m else t
  else if name = "createtimestamp" ∨ name = "entryuuid" then
    if t = .absent then m else t
  else if name ∈ single then
    m
  else if name ∈ multi ∨ 1 < countOf b ∨ 1 < countOf m ∨ 1 < countOf t then
    mergeValues name b m t
  else
    m

/-- The names of every side, each once: mine first, then theirs, then base. -/
def namesOf (base mine theirs : Attributes) : List String :=
  (mine ++ theirs ++ base).foldl
    (fun names member => if member.1 ∈ names then names else names ++ [member.1]) []

/--
`out[name] = value`, where there is one.  A value that is inherited is a
function, which no row carries, or the prototype `out` has already.
-/
def put (out : Attributes) (name : String) : Slot → Attributes
  | .own held => assign out name held
  | .inherited => out
  | .absent => out

/-- `mergeAttributes`. -/
def mergeAttributes (base mine theirs : Attributes) : Attributes :=
  (namesOf base mine theirs).foldl
    (fun out name => put out name (mergeAttribute base mine theirs name)) []

/-- What the merge decides. -/
inductive Outcome where
  | mine
  | merged
  | theirs
  | deleted
  deriving DecidableEq

/-- `{ outcome, entry }`. -/
structure Verdict where
  outcome : Outcome
  entry : Option Entry
  deriving DecidableEq

/-- `first || second || null`, the empty text being false. -/
def orElse (first second : Option String) : Option String :=
  match first.filter (· ≠ "") with
  | some value => some value
  | none => second.filter (· ≠ "")

/-- The later of the two times of change, mine where they are equal. -/
def laterOf (mine theirs : Option String) : Option String :=
  if isAfter (theirs.getD "") (mine.getD "") then
    orElse theirs none
  else
    orElse mine none

/-- The entry a merge writes, of its attributes. -/
def mergedEntry (dn : String) (attributes : Attributes) (mine theirs : Entry) : Entry where
  dn := dn
  attributes := attributes
  createdAt := orElse theirs.createdAt mine.createdAt
  modifiedAt := laterOf mine.modifiedAt theirs.modifiedAt
  origin := orElse theirs.origin mine.origin

/-- What `mergeCreations` adds to theirs of one attribute of mine. -/
def addCreated (mine theirs out : Attributes) (name : String) : Attributes :=
  let m := read mine name
  let t := read theirs name
  if name = "entryuuid" ∨ name = "createtimestamp" ∨
      name = "modifytimestamp" then
    out
  else if t = .absent then
    put out name m
  else if name ∈ multi ∨ 1 < countOf m ∨ 1 < countOf t then
    match mergeValues name (.own (.list [])) m t with
    | .own held => assign out name held
    -- An `undefined` put there is a property that no row carries.
    | _ => remove out name
  else
    out

/-- `mergeCreations`. -/
def mergeCreations (mine theirs : Entry) : Verdict :=
  let out :=
    (mine.attributes.map Prod.fst).foldl
      (addCreated mine.attributes theirs.attributes)
      (theirs.attributes.foldl (fun out member => assign out member.1 member.2) [])
  if out = theirs.attributes then
    ⟨.theirs, some theirs⟩
  else
    ⟨.merged, some (mergedEntry theirs.dn out mine theirs)⟩

/-- The end of `mergeEntry`: two changes of one entry. -/
def mergeChanges (base : Attributes) (mine theirs : Entry) : Verdict :=
  let attributes := mergeAttributes base mine.attributes theirs.attributes
  if attributes = mine.attributes then
    ⟨.mine, some mine⟩
  else
    ⟨.merged, some (mergedEntry mine.dn attributes mine theirs)⟩

/-- Two entries that both carry an `entryUUID`, and not the same one. -/
def differ (first second : List Nat) : Bool := first ≠ [] && second ≠ [] && first ≠ second

/-- `mergeEntry`. -/
def mergeEntry (base mine theirs : Option Entry) : Verdict :=
  match mine with
  | none => ⟨.deleted, none⟩
  | some mine =>
    match base, theirs with
    | none, none => ⟨.mine, some mine⟩
    | some base, none =>
      if differ (uuidOf toLowerCase mine) (uuidOf toLowerCase base) then
        ⟨.mine, some mine⟩
      else
        ⟨.deleted, none⟩
    | none, some theirs =>
      if differ (uuidOf toLowerCase mine) (uuidOf toLowerCase theirs) then
        mergeCreations mine theirs
      else
        mergeChanges [] mine theirs
    | some base, some theirs =>
      if differ (uuidOf toLowerCase base) (uuidOf toLowerCase theirs) then
        ⟨.theirs, some theirs⟩
      else if differ (uuidOf toLowerCase base)
          (uuidOf toLowerCase mine) then
        ⟨.mine, some mine⟩
      else
        mergeChanges base.attributes mine theirs

/-! ## Nodes committing one after another -/

/--
The stored row after one node's flush: what the verdict says to write, or the
row as it was.
-/
def commit (base : Entry) (stored : Option Entry) (mine : Entry) : Option Entry :=
  let verdict := mergeEntry toLowerCase (some base) (some mine) stored
  match verdict.outcome with
  | .mine | .merged => verdict.entry
  | .theirs | .deleted => stored

/-- The stored row after the nodes flushed in this order. -/
def commits (base : Entry) (lives : List Entry) : Option Entry :=
  lives.foldl (commit toLowerCase base) (some base)

end

end IyaSts.DirectoryMerge
