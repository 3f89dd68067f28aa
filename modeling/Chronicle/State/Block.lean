import Chronicle.State.Basic
import Chronicle.Text.Search

/-!
# State blocks

A message carries the state after it in a block at its end: the state as indented JSON between two
markers. Reading takes the first block; stripping removes everything from the first start marker to
the last end marker after it.
-/

namespace Chronicle

namespace Block

def startMarker : List Char := "<!--<|state|>".toList

def endMarker : List Char := "</|state|>-->".toList

/-- The state in the first block of a text. -/
def parse? (text : String) : Option State := do
  let (_, rest) ← Text.breakOn? startMarker text.toList
  let (body, _) ← Text.breakOn? endMarker rest
  State.parse? (.ofList (Text.trim body))

/-- The text without its blocks and what is between them. -/
def strip (text : String) : String :=
  match Text.breakOn? startMarker text.toList with
  | none => text
  | some (before, rest) =>
    match Text.breakOnLast? endMarker rest with
    | none => text
    | some (_, after) => .ofList (before ++ after)

def render (s : State) : String :=
  .ofList (startMarker ++ '\n' :: (s.toJson.prettyChars 0 ++ '\n' :: endMarker))

/-- The text with the block of a state in place of the blocks that it has. -/
def embed (text : String) (s : State) : String :=
  .ofList (Text.trim (strip text).toList ++ '\n' :: '\n' :: (render s).toList)

end Block

end Chronicle
