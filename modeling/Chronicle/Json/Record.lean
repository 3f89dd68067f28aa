import Chronicle.Json.Document

/-!
# Reading records

The parts of a document read as texts, flags, counts and lists, and the fields of a record looked up
with and without a default.
-/

namespace Chronicle.Document

def asString? : Document → Option String
  | .str s => some s
  | _ => none

def asBool? : Document → Option Bool
  | .bool b => some b
  | _ => none

/-- A natural number of 64 bits, written as an integer. -/
def asCount? : Document → Option Nat
  | .num (.int n) => if 0 ≤ n ∧ n < twoTo 64 then some n.toNat else none
  | _ => none

def asObject? (d : Document) : Option Object :=
  match d.toJson? with
  | some (.obj fields) => some fields
  | _ => none

def asList? (item? : Document → Option α) : Document → Option (List α)
  | .arr items => items.mapM item?
  | _ => none

/-- The document with the items of a list that a record of `n` fields has no use for left out. -/
def takeItems (n : Nat) : Document → Document
  | .arr items => .arr (items.take n)
  | d => d

def required (fields : List (String × Document)) (name : String) (read? : Document → Option α) : Option α :=
  (fields.lookup name).bind read?

/-- A field that may be missing, but not unreadable. -/
def optional (fields : List (String × Document)) (name : String) (default : α) (read? : Document → Option α) :
    Option α :=
  match fields.lookup name with
  | some d => read? d
  | none => some default

end Chronicle.Document
