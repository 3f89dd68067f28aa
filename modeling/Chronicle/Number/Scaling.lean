import Chronicle.Number.Binary64

/-!
# Scaling by powers of ten

`Binary64.scale` multiplies a binary number by a power of ten with the help of a table, which holds the binary numbers
nearest to the powers up to `10 ^ 308`. Each product and each quotient is rounded, so the result need not be the
number nearest to the exact one.
-/

namespace Chronicle.Binary64

/-- The binary number nearest to `10 ^ k`. -/
def nearestTenTo (k : Nat) : Rounded := roundRatio false (tenTo k) 1

/-- Divides by `10 ^ 308` as often as `steps` says, unless nothing is left, and by `10 ^ rest` in the end. -/
def lower (x : Binary64) (rest : Nat) : Nat → Rounded
  | 0 => (nearestTenTo rest).bind x.div
  | steps + 1 =>
    if x.mant = 0 then .finite x else ((nearestTenTo 308).bind x.div).bind fun y => y.lower rest steps

/-- The number times `10 ^ exp`, with the powers of the table. -/
def scale (x : Binary64) (exp : Int) : Rounded :=
  if 308 < exp then if x.mant = 0 then .finite x else .overflow x.neg
  else if 0 ≤ exp then (nearestTenTo exp.toNat).bind x.mul
  else
    let steps := ((-exp).toNat - 1) / 308
    x.lower ((-exp).toNat - 308 * steps) steps

end Chronicle.Binary64
