import Chronicle.Text.Unprintable

/-!
# The diagnostic form of values

Errors and outcomes are shown as the name of their case with its contents: texts in quotes with
escapes, named fields in braces, single parts in parentheses.
-/

namespace Chronicle.Text

def escapeDiagnostic (c : Char) : List Char :=
  if c = '"' then ['\\', '"']
  else if c = '\\' then ['\\', '\\']
  else if c = '\n' then ['\\', 'n']
  else if c = '\r' then ['\\', 'r']
  else if c = '\t' then ['\\', 't']
  else if c = '\x00' then ['\\', '0']
  else if isUnprintable c then ['\\', 'u', '\x7b'] ++ Nat.toDigits 16 c.toNat ++ ['\x7d']
  else [c]

/-- A text in quotes. What cannot be seen is written by its code point. -/
def quoteDiagnostic (s : String) : String := .ofList ('"' :: (s.toList.flatMap escapeDiagnostic ++ ['"']))

def caseOf (name part : String) : String := name ++ "(" ++ part ++ ")"

def recordOf (name : String) (fields : List (String × String)) : String :=
  name ++ " \x7b " ++ ", ".intercalate (fields.map fun (key, value) => key ++ ": " ++ value) ++ " \x7d"

end Chronicle.Text
