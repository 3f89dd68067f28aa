import Chronicle.Number.Binary64

/-!
# Decimal numbers

`Decimal` is a number as it is written: a sign, an integer coefficient and a power of ten.
`Decimal.round` gives the binary number nearest to it, and `Binary64.shortest` the decimal with the
fewest digits that rounds back to a binary number.
-/

namespace Chronicle

structure Decimal where
  neg : Bool
  coeff : Nat
  exp : Int
deriving DecidableEq, Repr

namespace Decimal

def ratio (d : Decimal) : Nat × Nat := (d.coeff * tenTo d.exp.toNat, tenTo (-d.exp).toNat)

def digits (d : Decimal) : List Char := Nat.toDigits 10 d.coeff

/-- The binary number nearest to the decimal. A magnitude of `10 ^ 310` or more overflows and one
below `10 ^ (-330)` is zero, whatever its digits, so no large power is computed for these. -/
def round (d : Decimal) : Rounded :=
  if d.coeff = 0 then .finite (.zero d.neg) else
    let top := d.exp + d.digits.length
    if 311 ≤ top then .overflow d.neg
    else if top ≤ -330 then .finite (.zero d.neg)
    else Binary64.roundRatio d.neg d.ratio.1 d.ratio.2

/-- Drops up to `fuel` trailing zeros of the coefficient into the exponent. -/
def stripZeros (d : Decimal) : Nat → Decimal
  | 0 => d
  | fuel + 1 =>
    if d.coeff % 10 = 0 then stripZeros { d with coeff := d.coeff / 10, exp := d.exp + 1 } fuel else d

/-- Whether the decimal is read as the number `x` where it is rounded once. -/
def ReadsAs (d : Decimal) (x : Binary64) : Prop := d.round = .finite x

instance (d : Decimal) (x : Binary64) : Decidable (d.ReadsAs x) := inferInstanceAs (Decidable (_ = _))

end Decimal

namespace Binary64

def exactDecimal (x : Binary64) : Decimal :=
  if 0 ≤ x.exp then ⟨x.neg, x.mant * twoTo x.exp.toNat, 0⟩
  else ⟨x.neg, x.mant * Nat.pow 5 (-x.exp).toNat, x.exp⟩

/-- The least `k` with `num / den < 10 ^ k`, for a positive ratio. -/
def decimalScale (num den : Nat) : Int :=
  if den ≤ num then (Nat.toDigits 10 (num / den)).length
  else
    let d := (Nat.toDigits 10 (den / num)).length
    if den ≤ num * tenTo (d - 1) then 2 - d else 1 - d

/-- The decimal nearest to the number among its two neighbours with exponent `g` that read back;
of two equally near ones the even one. -/
def nearestOnGrid? (x : Binary64) (g : Int) : Option Decimal :=
  let num := x.mant * twoTo x.exp.toNat * tenTo (-g).toNat
  let den := twoTo (-x.exp).toNat * tenTo g.toNat
  let below : Decimal := ⟨x.neg, num / den, g⟩
  let above : Decimal := ⟨x.neg, num / den + 1, g⟩
  match decide (below.ReadsAs x), decide (above.ReadsAs x) with
  | true, true => some ⟨x.neg, roundHalfEven num den, g⟩
  | true, false => some below
  | false, true => some above
  | false, false => none

/-- The decimal with the fewest digits that reads back as the number, the nearest one of these. -/
def shortest (x : Binary64) : Decimal :=
  if x.mant = 0 then ⟨x.neg, 0, 0⟩ else
    let k := decimalScale (x.mant * twoTo x.exp.toNat) (twoTo (-x.exp).toNat)
    match (List.range 17).findSome? fun (n : Nat) => x.nearestOnGrid? (k - 1 - n) with
    | some d => d.stripZeros 17
    | none => x.exactDecimal

end Binary64

end Chronicle
