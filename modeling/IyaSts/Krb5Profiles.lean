import IyaSts.ByteBuffer

namespace IyaSts.Krb5Profiles

/-!
# The checksum profiles of the Kerberos encryption types

What the PAC's signatures use of a profile: its number, its checksum's number
and length, and the checksum itself, which is the platform's.
-/

/-- What a signature needs of a crypto profile. -/
structure EtypeProfile where
  id : Int
  checksumBytes : Nat
  checksumType : Int
  deriving DecidableEq

/-- `aesSha1Profile`. -/
def aesSha1Profile (id : Int) (keyBytes : Nat) : EtypeProfile where
  id := id
  checksumBytes := 12
  checksumType := if keyBytes = 16 then 15 else 16

/-- `aesSha2Profile`. -/
def aesSha2Profile (id : Int) (keyBytes macBytes : Nat) : EtypeProfile where
  id := id
  checksumBytes := macBytes
  checksumType := if keyBytes = 16 then 19 else 20

/-- `ARCFOUR`. -/
def arcfour : EtypeProfile where
  id := 23
  checksumBytes := 16
  checksumType := -138

/-- `ETYPES`. -/
def etypes (id : Int) : Option EtypeProfile :=
  match id with
  | 17 => some (aesSha1Profile 17 16)
  | 18 => some (aesSha1Profile 18 32)
  | 19 => some (aesSha2Profile 19 16 16)
  | 20 => some (aesSha2Profile 20 32 24)
  | 23 => some arcfour
  | _ => none

/-- `ETYPE_NAMES_UNSUPPORTED`. -/
def etypeNamesUnsupported (id : Int) : Option String :=
  match id with
  | 1 => some "des-cbc-crc"
  | 2 => some "des-cbc-md4"
  | 3 => some "des-cbc-md5"
  | 5 => some "des3-cbc-md5"
  | 7 => some "des3-cbc-sha1"
  | 16 => some "des3-cbc-sha1-kd"
  | 24 => some "arcfour-hmac-exp"
  | 25 => some "camellia128-cts-cmac"
  | 26 => some "camellia256-cts-cmac"
  | _ => none

/-- `etypeById`. -/
def etypeById (id : Int) : Except String EtypeProfile :=
  match etypes id with
  | some profile => .ok profile
  | none =>
    .error (s!"krb5: encryption type {id}" ++
      ((match etypeNamesUnsupported id with
        | some known => " (" ++ known ++ ") is not implemented here"
        | none => " is unknown") ++
      (if 1 ≤ id ∧ id ≤ 7 then
        " — DES was removed from Windows Server 2025 and is " ++ "decode-only here"
      else
        "")))

/-- A Kerberos key. -/
structure Key where
  etype : Int
  key : Buffer
  deriving DecidableEq

/--
The platform's keyed checksums, one for each encryption type: a function of the
key, the usage and the message, of the length the profile states.
-/
structure Checksums where
  checksum : EtypeProfile → Buffer → Nat → Buffer → Buffer
  fixedLength :
    ∀ (profile : EtypeProfile) (key : Buffer) (usage : Nat) (message : Buffer),
      (checksum profile key usage message).length = profile.checksumBytes

/-- `equalConstantTime`. -/
def equalConstantTime (x y : Buffer) : Bool :=
  if x.length ≠ y.length then
    false
  else
    (x.zip y).foldl (fun diff (a, b) => diff ||| (a ^^^ b)) 0 == 0

/-- `verifyChecksum` of a profile. -/
def Checksums.verifyChecksum (checksums : Checksums) (profile : EtypeProfile)
    (baseKey : Buffer) (usage : Nat) (message given : Buffer) :
    Bool :=
  equalConstantTime (checksums.checksum profile baseKey usage message) given

theorem equalConstantTime_self (x : Buffer) : equalConstantTime x x = true := by
  have noDifference (diff : UInt8) :
      (x.zip x).foldl (fun diff (a, b) => diff ||| (a ^^^ b)) diff = diff := by
    induction x generalizing diff with
    | nil => rfl
    | cons byte rest ih => simp [ih]
  simp [equalConstantTime, noDifference]

/-- A profile is found under the number it states. -/
theorem id_of_etypeById {id : Int} {profile : EtypeProfile} (found : etypeById id = .ok profile) :
    profile.id = id := by
  unfold etypeById etypes at found
  split at found
  · rename_i entry known
    split at known <;> cases known <;> cases found <;> rfl
  · cases found

end IyaSts.Krb5Profiles
