import Chronicle.Path.Basic

/-!
# Reading and writing at a path

`Path.get?` looks a value up, `Path.replace?` overwrites a value that is there, and `Path.set`
writes a value and makes the containers that are missing on the way. A write gives a new tree or
an error, so nothing is written by halves.
-/

namespace Chronicle

/-- How many new places a single write may add to an array. -/
def maxPadding : Nat := 10000

/-- What stops a write: a key without position in an array, or a position too far past its end. -/
inductive Obstacle where
  | keyOnArray (key : String)
  | indexTooLarge (index : Nat)
deriving DecidableEq, Repr

def Obstacle.toPathError (path : String) : Obstacle → PathError
  | .keyOnArray key => .keyOnArray path key
  | .indexTooLarge index => .indexTooLarge path index

namespace Object

/-- Applies `f` to the value of a field, null if the field is missing, and stores the result. -/
def writeField (f : Json → Except Obstacle Json) (key : String) (fields : Object) : Except Obstacle Object :=
  return insert key (← f ((get? key fields).getD .null)) fields

end Object

namespace Json

/-- Applies `f` to the item at a position and stores the result. Past the end the array is first
filled with nulls, of which at most `maxPadding` are new. -/
def writeItem (f : Json → Except Obstacle Json) (index : Nat) (items : List Json) :
    Except Obstacle (List Json) :=
  if index < items.length + maxPadding then
    let padded := items ++ List.replicate (index + 1 - items.length) .null
    return padded.set index (← f (padded[index]?.getD .null))
  else throw (.indexTooLarge index)

def child? (s : Segment) : Json → Option Json
  | .obj fields => Object.get? s.toKey fields
  | .arr items => s.index?.bind fun i => items[i]?
  | _ => none

def setChild (s : Segment) (new v : Json) : Json :=
  match v with
  | .obj fields => .obj (Object.insert s.toKey new fields)
  | .arr items => .arr (s.index?.elim items fun i => items.set i new)
  | v => v

/-- The value below `v` that the segments lead to. -/
def valueAt? : List Segment → Json → Option Json
  | [], v => some v
  | s :: rest, v => (v.child? s).bind (valueAt? rest)

/-- The value `v` with the value that the segments lead to replaced, if there is one. -/
def replaceAt? (new : Json) : List Segment → Json → Option Json
  | [], _ => some new
  | s :: rest, v => do
    let old ← v.child? s
    return setChild s (← replaceAt? new rest old) v

/-- The value `v` with `new` written where the segments lead. What stands in the way and is no
container gives way to one: an array if the segment is a position, an object otherwise. -/
def setAt (new : Json) : List Segment → Json → Except Obstacle Json
  | [], _ => .ok new
  | s :: rest, .obj fields => Json.obj <$> Object.writeField (setAt new rest) s.toKey fields
  | s :: rest, .arr items =>
    match s.index? with
    | some i => Json.arr <$> writeItem (setAt new rest) i items
    | none => .error (.keyOnArray s.toKey)
  | s :: rest, _ =>
    match s.index? with
    | some i => Json.arr <$> writeItem (setAt new rest) i []
    | none => Json.obj <$> Object.writeField (setAt new rest) s.toKey []

end Json

namespace Path

def get? (p : Path) (root : Object) : Option Json :=
  (Object.get? p.first.toKey root).bind (Json.valueAt? p.rest)

def has (p : Path) (root : Object) : Bool := (p.get? root).isSome

def replace? (p : Path) (new : Json) (root : Object) : Option Object := do
  let old ← Object.get? p.first.toKey root
  return Object.insert p.first.toKey (← Json.replaceAt? new p.rest old) root

def set (p : Path) (new : Json) (root : Object) : Except PathError Object :=
  (Object.writeField (Json.setAt new p.rest) p.first.toKey root).mapError (Obstacle.toPathError p.text)

end Path

end Chronicle
