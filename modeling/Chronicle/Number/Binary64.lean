import Chronicle.Number.Power

/-!
# Binary floating point numbers of 64 bits

`Binary64` is a finite IEEE 754 binary64 number, held exactly as `± mant * 2 ^ exp`. All arithmetic
is done on exact integers and rounded once, to nearest with ties to even, by `roundRatio`.
-/

namespace Chronicle

/-- A finite binary64 number `± mant * 2 ^ exp`. Each number has one form: the significand uses
all 53 bits unless the exponent is the least one. Zero has a sign. -/
structure Binary64 where
  neg : Bool
  mant : Nat
  exp : Int
  canonical : mant < twoTo 53 ∧ -1074 ≤ exp ∧ exp ≤ 971 ∧ (twoTo 52 ≤ mant ∨ exp = -1074)
deriving DecidableEq, Repr

/-- What rounding a real number gives: a finite number, or a magnitude too large for the format. -/
inductive Rounded where
  | finite (x : Binary64)
  | overflow (neg : Bool)
deriving DecidableEq, Repr

def Rounded.toOption : Rounded → Option Binary64
  | .finite x => some x
  | .overflow _ => none

/-- Goes on with a rounded number, unless it is too large. -/
def Rounded.bind (r : Rounded) (f : Binary64 → Rounded) : Rounded :=
  match r with
  | .finite x => f x
  | .overflow neg => .overflow neg

namespace Binary64

def zero (neg : Bool) : Binary64 := ⟨neg, 0, -1074, by decide⟩

/-- The number with these parts; parts outside the format are an overflow. -/
def ofParts (neg : Bool) (mant : Nat) (exp : Int) : Rounded :=
  if h : mant < twoTo 53 ∧ -1074 ≤ exp ∧ exp ≤ 971 ∧ (twoTo 52 ≤ mant ∨ exp = -1074) then
    .finite ⟨neg, mant, exp, h⟩
  else .overflow neg

/-- Numerator and denominator of `num / den` counted in units of `2 ^ e`. -/
def inUnits (num den : Nat) (e : Int) : Nat × Nat := (num * twoTo (-e).toNat, den * twoTo e.toNat)

/-- The exponent of the unit in which a positive `num / den` is rounded: the least one of the
format at which the integer part stays below `2 ^ 53`. -/
def unitExponent (num den : Nat) : Int :=
  let e := max ((num.log2 : Int) - den.log2 - 53) (-1074)
  let (n, d) := inUnits num den e
  if n / d < twoTo 53 then e else e + 1

/-- The integer nearest to `num / den`; of two equally near ones the even one. -/
def roundHalfEven (num den : Nat) : Nat :=
  let q := num / den
  match compare (2 * (num % den)) den with
  | .lt => q
  | .gt => q + 1
  | .eq => if q % 2 = 0 then q else q + 1

/-- Rounds `± num / den` to the nearest number of the format, ties to even. -/
def roundRatio (neg : Bool) (num den : Nat) : Rounded :=
  if num = 0 then .finite (zero neg) else
    let e := unitExponent num den
    let (n, d) := inUnits num den e
    let m := roundHalfEven n d
    if m = twoTo 53 then ofParts neg (twoTo 52) (e + 1) else ofParts neg m e

def roundScaled (neg : Bool) (m : Nat) (e : Int) : Rounded :=
  roundRatio neg (m * twoTo e.toNat) (twoTo (-e).toNat)

def ofInt (n : Int) : Rounded := roundRatio (n < 0) n.natAbs 1

def signed (x : Binary64) : Int := if x.neg then -x.mant else x.mant

/-- The exact sum, rounded. A sum of zero is negative only if both terms are negative. -/
def add (x y : Binary64) : Rounded :=
  let e := min x.exp y.exp
  let s : Int := x.signed * twoTo (x.exp - e).toNat + y.signed * twoTo (y.exp - e).toNat
  if s = 0 then .finite (zero (x.neg && y.neg)) else roundScaled (s < 0) s.natAbs e

/-- The exact product, rounded. -/
def mul (x y : Binary64) : Rounded := roundScaled (x.neg != y.neg) (x.mant * y.mant) (x.exp + y.exp)

/-- The exact quotient by a number other than zero, rounded. -/
def div (x y : Binary64) : Rounded :=
  roundRatio (x.neg != y.neg) (x.mant * twoTo (x.exp - y.exp).toNat) (y.mant * twoTo (y.exp - x.exp).toNat)

/-- The integer that the number is, if it is one. -/
def toInt? (x : Binary64) : Option Int :=
  if 0 ≤ x.exp then some (x.signed * twoTo x.exp.toNat)
  else if x.mant % twoTo (-x.exp).toNat = 0 then some (x.signed / twoTo (-x.exp).toNat)
  else none

def ceil (x : Binary64) : Int :=
  if 0 ≤ x.exp then x.signed * twoTo x.exp.toNat else -(-x.signed / twoTo (-x.exp).toNat)

/-- The bit pattern: sign, biased exponent, significand without its leading bit. -/
def toBits (x : Binary64) : Nat :=
  (if x.neg then twoTo 63 else 0) +
    if x.mant < twoTo 52 then x.mant else (x.exp + 1075).toNat * twoTo 52 + (x.mant - twoTo 52)

/-- The number with a bit pattern, unless the pattern is an infinity or no number. -/
def ofBits? (bits : Nat) : Option Binary64 :=
  let neg := bits / twoTo 63 % 2 = 1
  let biased : Nat := bits / twoTo 52 % twoTo 11
  let frac := bits % twoTo 52
  if biased = 2047 then none
  else if biased = 0 then (ofParts neg frac (-1074)).toOption
  else (ofParts neg (twoTo 52 + frac) ((biased : Int) - 1075)).toOption

end Binary64

end Chronicle
