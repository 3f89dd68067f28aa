/-!
# Searching a text for a pattern

`breakOn?` cuts a text around the first occurrence of a pattern and `breakOnLast?` around
the last one; neither loses a character of the text.
-/

namespace Chronicle.Text

/-- The text before and the text after the first occurrence of `pat`. -/
def breakOn? (pat text : List Char) : Option (List Char × List Char) :=
  go [] text
where
  /-- Searches `text`, with `before` the characters already passed, newest first. -/
  go (before : List Char) (text : List Char) : Option (List Char × List Char) :=
    match pat.isPrefixOf? text with
    | some after => some (before.reverse, after)
    | none =>
      match text with
      | [] => none
      | c :: rest => go (c :: before) rest

/-- The text before and the text after the last occurrence of `pat`. -/
def breakOnLast? (pat text : List Char) : Option (List Char × List Char) :=
  (breakOn? pat.reverse text.reverse).map fun (after, before) => (before.reverse, after.reverse)

def splitFields (text : List Char) : List (List Char) :=
  go [] text
where
  /-- Splits `text`, with `field` the characters of the open field, newest first. -/
  go (field : List Char) : List Char → List (List Char)
    | ':' :: ':' :: rest => field.reverse :: go [] rest
    | c :: rest => go (c :: field) rest
    | [] => [field.reverse]

end Chronicle.Text
