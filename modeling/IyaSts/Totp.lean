import Mathlib.Data.List.Basic
import Mathlib.Data.Rat.Floor

namespace IyaSts.Totp

/-!
# Time-based one-time passwords

A code is checked against every step of a window about the present one, and
the step it was found at is compared with the step spent last.  The truncated
HMAC and the upper case of a text are parameters.
-/

/-! ## Base32 -/

/-- `BASE32_ALPHABET`. -/
def base32Alphabet : List Char := "ABCDEFGHIJKLMNOPQRSTUVWXYZ234567".toList

/-- `BASE32_ALPHABET[digit]`. -/
def base32Char (digit : Nat) : Char := base32Alphabet.getD digit 'A'

/-- A 32-bit register shifted to the left, with bits put in. -/
def shiftIn (value places bits : Nat) : Nat := value * 2 ^ places % 2 ^ 32 ||| bits

/-- The inner loop of `base32Encode`: what it appends, and the bits left. -/
def drain (value : Nat) (bits : Nat) : List Char × Nat :=
  if 5 ≤ bits then
    let rest := drain value (bits - 5)
    (base32Char (value >>> (bits - 5) &&& 31) :: rest.1, rest.2)
  else
    ([], bits)

/-- The loop of `base32Encode`, and the last bits. -/
def encodeFrom (value bits : Nat) : List UInt8 → List Char
  | [] =>
    if 0 < bits then
      [base32Char (shiftIn value (5 - bits) 0 &&& 31)]
    else
      []
  | byte :: rest =>
    let value := shiftIn value 8 byte.toNat
    let drained := drain value (bits + 8)
    drained.1 ++ encodeFrom value drained.2 rest

/-- `base32Encode`. -/
def base32Encode (bytes : List UInt8) : String := String.ofList (encodeFrom 0 0 bytes)

/-- `\s`: white space and line terminators. -/
def isSpace (char : Char) : Bool :=
  char.toNat ∈ [0x09, 0x0a, 0x0b, 0x0c, 0x0d, 0x20, 0xa0, 0x1680, 0x2028,
      0x2029, 0x202f, 0x205f, 0x3000, 0xfeff] ∨
    0x2000 ≤ char.toNat ∧ char.toNat ≤ 0x200a

/-- `[\s-]`. -/
def isSpacing (char : Char) : Bool := isSpace char ∨ char = '-'

/-- `text.replace(/[\s-]/g, '')`. -/
def withoutSpacing (text : List Char) : List Char := text.filter fun char => !isSpacing char

/-- `text.replace(/=+$/, '')`. -/
def withoutPadding (text : List Char) : List Char := (text.reverse.dropWhile (· = '=')).reverse

/-- The loop of `base32Decode`. -/
def decodeFrom (value bits : Nat) : List Char → Except String (List UInt8)
  | [] => .ok []
  | char :: rest =>
    let index := base32Alphabet.idxOf char
    if index < base32Alphabet.length then
      let value := shiftIn value 5 index
      let bits := bits + 5
      if 8 ≤ bits then do
        let bytes ← decodeFrom value (bits - 8) rest
        return UInt8.ofNat (value >>> (bits - 8) &&& 255) :: bytes
      else
        decodeFrom value bits rest
    else
      .error ("\"" ++ String.singleton char ++
        "\" is not a base32 character. " ++
        "A shared secret is the letters A to Z and the digits 2 to 7.")

/-- `base32Decode`. -/
def base32Decode (toUpperCase : List Char → List Char)
    (text : Option String) : Except String (List UInt8) :=
  decodeFrom 0 0 (withoutPadding (withoutSpacing (toUpperCase (text.getD "").toList)))

/-! ## Verifying -/

/-- The enrolled record; a field may be absent. -/
structure TotpRecord where
  secret : Option String
  digits : Option Nat
  period : Option Nat
  algorithm : Option String
  lastCounter : Option Nat
  deriving DecidableEq

/-- The settings that `verify` reads. -/
structure TotpSettings where
  digits : Nat
  period : Nat
  algorithm : String
  window : Nat
  deriving DecidableEq

/-- What `verify` is called with, and the clock then. -/
structure Call where
  presented : Option String
  moment : Option ℚ
  window : Option Nat
  clock : ℚ
  deriving DecidableEq

/-- What `verify` answers. -/
inductive VerifyResult where
  | ok (counter : Nat) (drift : Int)
  | refused (reason detail code : String) (counter : Option Nat)
  deriving DecidableEq

/-- `first || second`, of numbers. -/
def orNumber (first : Option Nat) (second : Nat) : Nat :=
  match first with
  | none => second
  | some number => if number = 0 then second else number

/-- `first || second`, of texts. -/
def orText (first : Option String) (second : String) : String :=
  match first with
  | none => second
  | some text => if text = "" then second else text

/-- `counterAt`. -/
def counterAt (moment : ℚ) (period : Nat) : Int := ⌊moment / 1000 / period⌋

/-- `Number(options.at || Date.now())`. -/
def Call.now (call : Call) : ℚ :=
  match call.moment with
  | none => call.clock
  | some moment => if moment = 0 then call.clock else moment

/-- The code as typed, without its spacing. -/
def Call.code (call : Call) : List Char := withoutSpacing (call.presented.getD "").toList

/-- `/^[0-9]+$/.test(code) && code.length === digits`. -/
def wellShaped (code : List Char) (digits : Nat) : Bool :=
  code ≠ [] ∧ (code.all fun char => '0' ≤ char ∧ char ≤ '9') ∧ code.length = digits

section Verify

variable
    (toUpperCase : List Char → List Char)
    (hotpCode : List UInt8 → Nat → Nat → String → String)
    (settings : TotpSettings)

/-- The loop of `verify` over the drifts, from the lowest. -/
def tryDrifts (candidate : Nat → String) (centre : Int) (code : List Char) :
    Nat → Int → Option (Nat × Int) → Option (Nat × Int)
  | 0, _, matched => matched
  | steps + 1, drift, matched =>
    let counter := centre + drift
    if counter < 0 then
      tryDrifts candidate centre code steps (drift + 1) matched
    else if (candidate counter.toNat).toList = code ∧ matched = none then
      tryDrifts candidate centre code steps (drift + 1) (some (counter.toNat, drift))
    else
      tryDrifts candidate centre code steps (drift + 1) matched

/-- `verify`. -/
def verify (record : TotpRecord) (call : Call) : VerifyResult :=
  let digits := orNumber record.digits settings.digits
  let period := orNumber record.period settings.period
  let algorithm := orText record.algorithm settings.algorithm
  let window := call.window.getD settings.window
  if !wellShaped call.code digits then
    .refused "shape" s!"A code is {digits} digits." "STS-AUTHN-0103" none
  else
    match base32Decode toUpperCase record.secret with
    | .error _ =>
      .refused "store" "The stored shared secret could not be read." "STS-AUTHN-0104" none
    | .ok secret =>
      let centre := counterAt call.now period
      match tryDrifts (hotpCode secret · digits algorithm) centre call.code
          (2 * window + 1) (-window) none with
      | none =>
        .refused "mismatch" "That code is not right, or it has expired." "STS-AUTHN-0105" none
      | some (counter, drift) =>
        let spent := record.lastCounter.getD 0
        if spent ≠ 0 ∧ counter ≤ spent then
          .refused "replay"
            ("That code has already been used. Wait for your " ++
              "authenticator to show the next one.")
            "STS-AUTHN-0106" (some counter)
        else
          .ok counter drift

/-- A call, and what its caller stores of an answer that is ok. -/
def spend (record : TotpRecord) (call : Call) : TotpRecord :=
  match verify toUpperCase hotpCode settings record call with
  | .ok counter _ => { record with lastCounter := some counter }
  | .refused _ _ _ _ => record

/-- The counters that calls were answered with. -/
def acceptedCounters : TotpRecord → List Call → List Nat
  | _, [] => []
  | record, call :: rest =>
    let later := acceptedCounters (spend toUpperCase hotpCode settings record call) rest
    match verify toUpperCase hotpCode settings record call with
    | .ok counter _ => counter :: later
    | .refused _ _ _ _ => later

end Verify

end IyaSts.Totp
