import Chronicle.Json.Basic

/-!
# Writing JSON

`Json.compact` writes a value without blanks, `Json.pretty` with one item per line and two blanks
per level. Numbers are written with the fewest digits to which no other number is nearer.
-/

namespace Chronicle

/-- A character as it stands inside a quoted string: quotes, backslashes and control characters
below U+0020 are escaped. -/
def Json.escape (c : Char) : List Char :=
  if c = '"' then ['\\', '"']
  else if c = '\\' then ['\\', '\\']
  else if c = '\n' then ['\\', 'n']
  else if c = '\r' then ['\\', 'r']
  else if c = '\t' then ['\\', 't']
  else if c = '\x08' then ['\\', 'b']
  else if c = '\x0c' then ['\\', 'f']
  else if c.toNat < 0x20 then
    ['\\', 'u', '0', '0', Nat.digitChar (c.toNat / 16), Nat.digitChar (c.toNat % 16)]
  else [c]

def Json.quote (s : String) : List Char := '"' :: (s.toList.flatMap escape ++ ['"'])

def Int.decimal (n : Int) : List Char :=
  if n < 0 then '-' :: Nat.toDigits 10 n.natAbs else Nat.toDigits 10 n.natAbs

/-- Plain notation with at least one digit after the point, for magnitudes from `10 ^ (-5)` to below
`10 ^ 16`; otherwise one digit, the others after a point, and a signed exponent. -/
def Decimal.render (d : Decimal) : List Char :=
  let ds := d.digits
  let e : Int := d.exp + ds.length - 1
  let body :=
    if 0 ≤ e ∧ e ≤ 15 then
      let whole := ds.take (e.toNat + 1)
      let frac := ds.drop (e.toNat + 1)
      let zeros := List.replicate (e.toNat + 1 - whole.length) '0'
      whole ++ zeros ++ '.' :: (if frac.isEmpty then ['0'] else frac)
    else if -5 ≤ e ∧ e < 0 then '0' :: '.' :: (List.replicate (-e - 1).toNat '0' ++ ds)
    else
      ds.take 1 ++ (if ds.length = 1 then [] else '.' :: ds.drop 1) ++
        'e' :: (if e < 0 then '-' else '+') :: Nat.toDigits 10 e.natAbs
  if d.neg then '-' :: body else body

def Num.render : Num → List Char
  | .int n => Int.decimal n
  | .float x => x.shortest.render

namespace Json

mutual

def compactChars : Json → List Char
  | .null => ['n', 'u', 'l', 'l']
  | .bool true => ['t', 'r', 'u', 'e']
  | .bool false => ['f', 'a', 'l', 's', 'e']
  | .num n => n.render
  | .str s => quote s
  | .arr items => '[' :: (compactItems items ++ [']'])
  | .obj fields => '{' :: (compactFields fields ++ ['}'])

def compactItems : List Json → List Char
  | [] => []
  | [v] => v.compactChars
  | v :: w :: rest => v.compactChars ++ ',' :: compactItems (w :: rest)

def compactFields : List (String × Json) → List Char
  | [] => []
  | [(k, v)] => quote k ++ ':' :: v.compactChars
  | (k, v) :: f :: rest => quote k ++ ':' :: (v.compactChars ++ ',' :: compactFields (f :: rest))

end

def newLine (level : Nat) : List Char := '\n' :: List.replicate (2 * level) ' '

mutual

/-- The characters of a value written over several lines, inside `level` containers. -/
def prettyChars (level : Nat) : Json → List Char
  | .null => ['n', 'u', 'l', 'l']
  | .bool true => ['t', 'r', 'u', 'e']
  | .bool false => ['f', 'a', 'l', 's', 'e']
  | .num n => n.render
  | .str s => quote s
  | .arr [] => ['[', ']']
  | .arr (v :: rest) =>
    '[' :: (newLine (level + 1) ++ (prettyItems (level + 1) (v :: rest) ++ (newLine level ++ [']'])))
  | .obj [] => ['{', '}']
  | .obj (f :: rest) =>
    '{' :: (newLine (level + 1) ++ (prettyFields (level + 1) (f :: rest) ++ (newLine level ++ ['}'])))

def prettyItems (level : Nat) : List Json → List Char
  | [] => []
  | [v] => prettyChars level v
  | v :: w :: rest => prettyChars level v ++ ',' :: (newLine level ++ prettyItems level (w :: rest))

def prettyFields (level : Nat) : List (String × Json) → List Char
  | [] => []
  | [(k, v)] => quote k ++ ':' :: ' ' :: prettyChars level v
  | (k, v) :: f :: rest =>
    quote k ++ ':' :: ' ' :: (prettyChars level v ++ ',' :: (newLine level ++ prettyFields level (f :: rest)))

end

def compact (v : Json) : String := .ofList v.compactChars

def pretty (v : Json) : String := .ofList (v.prettyChars 0)

end Json

end Chronicle
