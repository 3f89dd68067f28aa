import Chronicle.Toml.Scalar
import Chronicle.Toml.Table

/-!
# Reading TOML

`Toml.parse?` reads a text of key-value lines and table headers as a document. Lists and inline
tables nest less than 80 levels deep.
-/

namespace Chronicle.Toml

/-- Drops blanks, line breaks and comments; `inComment` tells where the text starts. -/
def skipBreaks? (inComment : Bool) : List Char → Option (List Char)
  | '\r' :: '\n' :: rest | '\n' :: rest => skipBreaks? false rest
  | c :: rest =>
    if inComment then if isControl c then none else skipBreaks? true rest
    else if c = ' ' ∨ c = '\t' then skipBreaks? false rest
    else if c = '#' then skipBreaks? true rest
    else some (c :: rest)
  | [] => some []

/-- The text after the end of a line, before which only blanks and a comment may stand. -/
def lineEnd? (text : List Char) : Option (List Char) :=
  let rest := match skipSpaces text with
    | '#' :: rest => rest.dropWhile fun c => !isControl c
    | rest => rest
  if rest.isEmpty then some [] else lineBreak? rest

mutual

/-- A value, and the text after it. `fuel` bounds the number of nested calls, which is at most two
per character. -/
def value? (fuel depth : Nat) (text : List Char) : Option (Document × List Char) :=
  match fuel with
  | 0 => none
  | fuel + 1 =>
    match text with
    | '"' :: _ | '\x27' :: _ => (string? text).map fun (s, rest) => (.str (.ofList s), rest)
    | '[' :: rest =>
      if depth = 0 then none else (items? fuel (depth - 1) rest).map fun (l, rest) => (.arr l, rest)
    | '\x7b' :: rest =>
      if depth = 0 then none
      else
        match skipSpaces rest with
        | '\x7d' :: rest => some (.obj [], rest)
        | rest =>
          (pairs? fuel (depth - 1) [] rest).map fun (fields, rest) => (.obj (fieldsToDocument fields), rest)
    | _ =>
      let (run, rest) := plainRun text
      (plain? run).map (·, rest)

def items? (fuel depth : Nat) (text : List Char) : Option (List Document × List Char) :=
  match fuel with
  | 0 => none
  | fuel + 1 =>
    match skipBreaks? false text with
    | none => none
    | some (']' :: rest) => some ([], rest)
    | some text =>
      match value? fuel depth text with
      | none => none
      | some (d, rest) =>
        match skipBreaks? false rest with
        | some (',' :: rest) => (items? fuel depth rest).map fun (l, rest) => (d :: l, rest)
        | some (']' :: rest) => some ([d], rest)
        | _ => none

/-- The pairs of an inline table up to its closing brace, added to `fields`. -/
def pairs? (fuel depth : Nat) (fields : Fields) (text : List Char) : Option (Fields × List Char) :=
  match fuel with
  | 0 => none
  | fuel + 1 =>
    match dottedKey? text with
    | some (path, key, '=' :: rest) =>
      match value? fuel depth (skipSpaces rest) with
      | none => none
      | some (d, rest) =>
        match addValue path key d fields, skipSpaces rest with
        | some fields, ',' :: rest => pairs? fuel depth fields (skipSpaces rest)
        | some fields, '\x7d' :: rest => some (fields, rest)
        | _, _ => none
    | _ => none

end

/-- A header after its opening bracket: the path of its table, the root with the table opened, and
the text after it. -/
def header? (root : Fields) (text : List Char) : Option (List String × Fields × List Char) :=
  match text with
  | '[' :: rest => do
    let (path, key, rest) ← dottedKey? (skipSpaces rest)
    match rest with
    | ']' :: ']' :: rest => return (path ++ [key], ← appendTable path key root, rest)
    | _ => none
  | _ => do
    let (path, key, rest) ← dottedKey? (skipSpaces text)
    match rest with
    | ']' :: rest => return (path ++ [key], ← openTable path key root, rest)
    | _ => none

/-- A line with a key and a value in the table at `table`: the new root, and the text after it. -/
def pair? (table : List String) (root : Fields) (text : List Char) : Option (Fields × List Char) :=
  match dottedKey? text with
  | some (path, key, '=' :: rest) => do
    let (d, rest) ← value? (2 * rest.length + 2) 79 (skipSpaces rest)
    return (← modifyAt false (fun _ fields => addValue path key d fields) .opened table root, rest)
  | _ => none

/-- Reads lines into the tables of `root`, of which the one at `table` is open. -/
def lines? (fuel : Nat) (table : List String) (root : Fields) (text : List Char) : Option Fields :=
  match fuel with
  | 0 => none
  | fuel + 1 =>
    match skipSpaces text with
    | [] => some root
    | '[' :: rest => do
      let (table, root, rest) ← header? root rest
      lines? fuel table root (← lineEnd? rest)
    | c :: rest =>
      match lineEnd? (c :: rest) with
      | some rest => lines? fuel table root rest
      | none => do
        let (root, rest) ← pair? table root (c :: rest)
        lines? fuel table root (← lineEnd? rest)

def parse? (text : String) : Option Document :=
  let chars := match text.toList with
    | '\ufeff' :: rest => rest
    | chars => chars
  (lines? (chars.length + 1) [] [] chars).map fun root => .obj (fieldsToDocument root)

end Chronicle.Toml
