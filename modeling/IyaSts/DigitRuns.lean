import Mathlib.Data.List.Basic

namespace IyaSts.DigitRuns

/-!
# Runs of digits

What `\d{least,most}` takes of a text where no digit follows, and its number.
-/

/-- `\d{least,most}` before what is no digit, and the rest. -/
def digits (least most : Nat) (text : List Char) : Option (List Char × List Char) :=
  let read := text.takeWhile Char.isDigit
  if least ≤ read.length ∧ read.length ≤ most then
    some (read, text.dropWhile Char.isDigit)
  else
    none

/-- `\d+`, of any length. -/
def someDigits (text : List Char) : Option (List Char × List Char) :=
  let read := text.takeWhile Char.isDigit
  if read = [] then none else some (read, text.dropWhile Char.isDigit)

/-- The number of some digits. -/
def number (digits : List Char) : Nat :=
  digits.foldl (fun value digit => value * 10 + (digit.toNat - 48)) 0

/-- So many digits and a character, and the rest. -/
def field (count : Nat) (closing : Char) (text : List Char) : Option (List Char × List Char) :=
  match digits count count text with
  | some (read, next :: rest) => if next = closing then some (read, rest) else none
  | _ => none

end IyaSts.DigitRuns
