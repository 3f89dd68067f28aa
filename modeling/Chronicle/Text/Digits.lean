import Chronicle.Number.Power
import Chronicle.Text.Blank

/-!
# Integers written as digits

`natural?` reads the digits of a base, `word?` a natural number of 64 bits and `signedWord?` an
integer of 64 bits. A plus sign may stand in front; a minus sign only where numbers are signed.
-/

namespace Chronicle.Text

def spanDigits (text : List Char) : List Char × List Char := cut Char.isDigit text

/-- The value of a digit of a base up to sixteen. -/
def digit? (base : Nat) (c : Char) : Option Nat :=
  let value :=
    if '0' ≤ c ∧ c ≤ '9' then some (c.toNat - 48)
    else if 'a' ≤ c ∧ c ≤ 'f' then some (c.toNat - 87)
    else if 'A' ≤ c ∧ c ≤ 'F' then some (c.toNat - 55)
    else none
  value.filter (· < base)

def natural? (base : Nat) : List Char → Option Nat
  | [] => none
  | c :: rest => (c :: rest).foldlM (fun n c => (digit? base c).map (n * base + ·)) 0

def dropPlus : List Char → List Char
  | '+' :: rest => rest
  | text => text

/-- A natural number below `2 ^ 64`. -/
def word? (base : Nat) (text : List Char) : Option Nat :=
  (natural? base (dropPlus text)).filter (· < twoTo 64)

/-- A decimal integer from `-2 ^ 63` to `2 ^ 63 - 1`. -/
def signedWord? : List Char → Option Int
  | '-' :: rest => ((natural? 10 rest).filter (· ≤ twoTo 63)).map fun n => -(n : Int)
  | text => ((natural? 10 (dropPlus text)).filter (· < twoTo 63)).map Int.ofNat

end Chronicle.Text
