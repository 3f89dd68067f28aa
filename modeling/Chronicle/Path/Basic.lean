import Chronicle.Json.Printer
import Chronicle.Text.Digits

/-!
# Paths into a tree of values

A path such as `party[1].name` names a place in a tree. Its parts are divided by points; a part is
a key, indices in brackets, or a key followed by indices. `Path.ofString` reads a path and keeps its
text.
-/

namespace Chronicle

/-- One step of a path: a key, which may also address an array, or an index in brackets. -/
inductive Segment where
  | key (k : String)
  | index (n : Nat)
deriving DecidableEq, Repr

structure Path where
  text : String
  first : Segment
  rest : List Segment
deriving DecidableEq, Repr

/-- Why a path cannot be read, or a value cannot be written at it. -/
inductive PathError where
  | empty
  | emptySegment (path : String)
  | badIndex (path : String)
  | keyOnArray (path key : String)
  | indexTooLarge (path : String) (index : Nat)
deriving DecidableEq, Repr

def PathError.message : PathError → String
  | .empty => "path is empty"
  | .emptySegment path => s!"path '{path}' has an empty segment"
  | .badIndex path => s!"path '{path}' has a malformed index"
  | .keyOnArray path key => s!"cannot address key '{key}' inside an array at '{path}'"
  | .indexTooLarge path index => s!"index {index} at '{path}' is too far past the end of the array"

namespace Segment

/-- The array position that a segment addresses. A key is a position only if it is written without
a needless zero. -/
def index? : Segment → Option Nat
  | .index n => some n
  | .key k =>
    match k.toList with
    | ['0'] => some 0
    | '0' :: _ | '+' :: _ => none
    | text => Text.word? 10 text

def toKey : Segment → String
  | .key k => k
  | .index n => .ofList (Nat.toDigits 10 n)

end Segment

namespace Path

def segments (p : Path) : List Segment := p.first :: p.rest

/-- Reads bracketed indices up to the end of the text. `inner` is what has been read of the open
bracket, newest first. -/
def indices? (inner : List Char) : List Char → Option (List Nat)
  | [] => none
  | ']' :: rest =>
    match Text.word? 10 (Text.trim inner.reverse), rest with
    | some n, [] => some [n]
    | some n, '[' :: rest => (indices? [] rest).map (n :: ·)
    | _, _ => none
  | c :: rest => indices? (c :: inner) rest

/-- The segments of a part of the path `text`. -/
def partSegments (text : String) (part : List Char) : Except PathError (List Segment) :=
  let (name, brackets) := Text.cut (· ≠ '[') part
  let key := if name.isEmpty then [] else [Segment.key (.ofList name)]
  match brackets with
  | [] => if name.isEmpty then .error (.emptySegment text) else .ok key
  | _ :: inner =>
    match indices? [] inner with
    | some ns => .ok (key ++ ns.map .index)
    | none => .error (.badIndex text)

def ofString (s : String) : Except PathError Path := do
  let chars := Text.trim s.toList
  if chars.isEmpty then throw .empty
  let text := String.ofList chars
  match (← (chars.splitOn '.').mapM (partSegments text)).flatten with
  | [] => throw .empty
  | first :: rest => return ⟨text, first, rest⟩

end Path

end Chronicle
