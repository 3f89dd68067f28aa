import Chronicle.Number.Decimal

/-!
# JSON values

`Json` is a JSON value. Integers and floating point numbers are kept apart, and an object is the
list of its fields in the order in which they are written. Objects held as plain values are sorted
by key without repetitions; `Object.insert` keeps them so.
-/

namespace Chronicle

/-- A JSON number: an integer literal, or a number with a fraction or an exponent. -/
inductive Num where
  | int (n : Int)
  | float (x : Binary64)
deriving DecidableEq, Repr

/-- The nearest binary number; integers too large for the format have none. -/
def Num.toBinary64? : Num → Option Binary64
  | .int n => (Binary64.ofInt n).toOption
  | .float x => some x

inductive Json where
  | null
  | bool (b : Bool)
  | num (n : Num)
  | str (s : String)
  | arr (items : List Json)
  | obj (fields : List (String × Json))
deriving Repr

abbrev Object := List (String × Json)

namespace Object

def get? (key : String) (fields : Object) : Option Json := fields.lookup key

/-- Writes a field of an object whose keys ascend by code point, in its place. -/
def insert (key : String) (value : Json) : Object → Object
  | [] => [(key, value)]
  | (k, v) :: rest =>
    if key < k then (key, value) :: (k, v) :: rest
    else if key = k then (key, value) :: rest
    else (k, v) :: insert key value rest

/-- The object with these fields, where the last of several with one key wins. -/
def ofFields (fields : List (String × Json)) : Object :=
  fields.foldl (fun o (k, v) => insert k v o) []

end Object

namespace Json

def ofNat (n : Nat) : Json := .num (.int n)

def ofInt (n : Int) : Json := .num (.int n)

def ofStrings (l : List String) : Json := .arr (l.map .str)

end Json

end Chronicle
