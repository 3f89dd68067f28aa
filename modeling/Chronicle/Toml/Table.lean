import Chronicle.Json.Document

/-!
# Tables under construction

The tables of a TOML text grow line by line. A table is opened by a header, passed by the header of a
table inside it, or made by a dotted key; the kind decides what may still be added. Nothing is
defined twice.
-/

namespace Chronicle.Toml

inductive TableKind where
  | opened | passed | dotted
deriving DecidableEq, Repr

/-- What a key of a table leads to. -/
inductive Item where
  | value (d : Document)
  | table (kind : TableKind) (fields : List (String × Item))
  | tables (list : List (List (String × Item)))

abbrev Fields := List (String × Item)

def Fields.replace (key : String) (item : Item) (fields : Fields) : Fields :=
  fields.map fun (k, i) => if k = key then (k, item) else (k, i)

/-- Changes the table that a path leads to. Tables that are missing on the way are made. The path of
a dotted key may not lead through a table that a header has opened. -/
def modifyAt (byDots : Bool) (f : TableKind → Fields → Option Fields) (kind : TableKind) :
    List String → Fields → Option Fields
  | [], fields => f kind fields
  | key :: path, fields =>
    match fields.lookup key with
    | none =>
      let kind := if byDots then TableKind.dotted else .passed
      (modifyAt byDots f kind path []).map fun inner => fields ++ [(key, .table kind inner)]
    | some (.value _) => none
    | some (.table kind inner) =>
      if byDots ∧ kind = .opened then none
      else (modifyAt byDots f kind path inner).map fun inner => fields.replace key (.table kind inner)
    | some (.tables list) => do
      let last ← list.getLast?
      let last ← modifyAt byDots f .opened path last
      return fields.replace key (.tables (list.dropLast ++ [last]))

def addValue (path : List String) (key : String) (d : Document) (fields : Fields) : Option Fields :=
  modifyAt true (fun kind fields =>
    if (path.isEmpty ∨ kind = .dotted) ∧ (fields.lookup key).isNone then some (fields ++ [(key, .value d)])
    else none) .opened path fields

def openTable (path : List String) (key : String) (fields : Fields) : Option Fields :=
  modifyAt false (fun _ fields =>
    match fields.lookup key with
    | none => some (fields ++ [(key, .table .opened [])])
    | some (.table .passed inner) => some (fields.replace key (.table .opened inner))
    | some _ => none) .opened path fields

/-- Starts a new table in a list of tables. -/
def appendTable (path : List String) (key : String) (fields : Fields) : Option Fields :=
  modifyAt false (fun _ fields =>
    match fields.lookup key with
    | none => some (fields ++ [(key, .tables [[]])])
    | some (.tables list) => some (fields.replace key (.tables (list ++ [[]])))
    | some _ => none) .opened path fields

mutual

def Item.toDocument : Item → Document
  | .value d => d
  | .table _ fields => .obj (fieldsToDocument fields)
  | .tables list => .arr (tablesToDocument list)

def fieldsToDocument : List (String × Item) → List (Option String × Document)
  | [] => []
  | (key, item) :: rest => (some key, item.toDocument) :: fieldsToDocument rest

def tablesToDocument : List (List (String × Item)) → List Document
  | [] => []
  | fields :: rest => .obj (fieldsToDocument fields) :: tablesToDocument rest

end

end Chronicle.Toml
