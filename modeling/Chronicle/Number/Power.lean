/-!
# Powers of the two bases

The powers of two and of ten, in which numbers of the binary and the decimal format are scaled.
-/

namespace Chronicle

def twoTo (k : Nat) : Nat := Nat.pow 2 k

def tenTo (k : Nat) : Nat := Nat.pow 10 k

end Chronicle
