import Chronicle.Json.Basic

/-!
# JSON documents

A `Document` is a JSON text as it is parsed, before it is read as a value or as a record. It keeps
repeated keys, and marks as `unreadable` what is well formed but stands for no value. A record may
carry unreadable parts in fields that it does not know; a value may not.
-/

namespace Chronicle

inductive Document where
  /-- Well formed, but no value: a string with half of a surrogate pair, a number beyond the range
  of binary64, or a container nested too deeply. -/
  | unreadable
  | null
  | bool (b : Bool)
  | num (n : Num)
  | str (s : String)
  | arr (items : List Document)
  /-- The fields in their order; a key may be an unreadable string. -/
  | obj (fields : List (Option String × Document))

namespace Document

mutual

/-- The document read as a plain value: nothing in it is unreadable, and of several fields with one
key the last one counts. -/
def toJson? : Document → Option Json
  | .unreadable => none
  | .null => some .null
  | .bool b => some (.bool b)
  | .num n => some (.num n)
  | .str s => some (.str s)
  | .arr items => (itemsToJson? items).map .arr
  | .obj fields => (fieldsToJson? [] fields).map .obj

def itemsToJson? : List Document → Option (List Json)
  | [] => some []
  | d :: rest => do
    let v ← d.toJson?
    let l ← itemsToJson? rest
    return v :: l

def fieldsToJson? (known : Object) : List (Option String × Document) → Option Object
  | [] => some known
  | (none, _) :: _ => none
  | (some key, d) :: rest => do
    let v ← d.toJson?
    fieldsToJson? (Object.insert key v known) rest

end

/-- The fields of a record whose field names are `names`. An object may hold other fields too, but
none of `names` twice; an array holds the values of the first fields in the order of `names`. -/
def record? (names : List String) : Document → Option (List (String × Document))
  | .arr items => if items.length ≤ names.length then some (names.zip items) else none
  | .obj fields => do
    let fields ← fields.mapM fun (key?, d) => key?.map (·, d)
    let known := fields.filter fun (key, _) => names.contains key
    guard (known.map (·.1)).Nodup
    return known
  | _ => none

end Document

namespace Json

mutual

def toDocument : Json → Document
  | .null => .null
  | .bool b => .bool b
  | .num n => .num n
  | .str s => .str s
  | .arr items => .arr (itemsToDocument items)
  | .obj fields => .obj (fieldsToDocument fields)

def itemsToDocument : List Json → List Document
  | [] => []
  | v :: rest => v.toDocument :: itemsToDocument rest

def fieldsToDocument : List (String × Json) → List (Option String × Document)
  | [] => []
  | (key, v) :: rest => (some key, v.toDocument) :: fieldsToDocument rest

end

end Json

end Chronicle
