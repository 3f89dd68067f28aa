import Chronicle.Json.Document
import Chronicle.Number.Reading
import Chronicle.Number.Scaling

/-!
# Reading JSON

`Document.ofChars?` reads a text of the strict JSON grammar. Containers nested deeper than its limit
are read but unreadable; texts from outside are read with the limit 127.
-/

namespace Chronicle.Document

/-- Drops the blanks of JSON: space, tab, line feed, carriage return. -/
def skipBlanks : List Char → List Char :=
  List.dropWhile fun c => c = ' ' || c = '\t' || c = '\n' || c = '\r'

/-- An element of a string literal: a character, or an escaped UTF-16 unit. -/
inductive StringItem where
  | char (c : Char)
  | unit (n : Nat)

def unescape? : Char → Option Char
  | '"' => some '"'
  | '\\' => some '\\'
  | '/' => some '/'
  | 'b' => some '\x08'
  | 'f' => some '\x0c'
  | 'n' => some '\n'
  | 'r' => some '\r'
  | 't' => some '\t'
  | _ => none

/-- The elements of a string literal after its opening quote, and the text after its closing quote.
`items` are the elements already read, newest first. -/
def stringItems? (items : List StringItem) : List Char → Option (List StringItem × List Char)
  | [] => none
  | '"' :: rest => some (items.reverse, rest)
  | '\\' :: 'u' :: a :: b :: c :: d :: rest =>
    match Text.digit? 16 a, Text.digit? 16 b, Text.digit? 16 c, Text.digit? 16 d with
    | some a, some b, some c, some d => stringItems? (.unit (((a * 16 + b) * 16 + c) * 16 + d) :: items) rest
    | _, _, _, _ => none
  | '\\' :: c :: rest =>
    match unescape? c with
    | some c => stringItems? (.char c :: items) rest
    | none => none
  | c :: rest => if c.toNat < 0x20 then none else stringItems? (.char c :: items) rest

/-- The text of a string literal, unless it holds half of a surrogate pair. `text` are the
characters already known, newest first. -/
def assemble? (text : List Char) : List StringItem → Option (List Char)
  | [] => some text.reverse
  | .char c :: rest => assemble? (c :: text) rest
  | .unit hi :: .unit lo :: rest =>
    if 0xD800 ≤ hi ∧ hi < 0xDC00 then
      if 0xDC00 ≤ lo ∧ lo < 0xE000 then
        assemble? (Char.ofNat (0x10000 + (hi - 0xD800) * 0x400 + (lo - 0xDC00)) :: text) rest
      else none
    else if 0xDC00 ≤ hi ∧ hi < 0xE000 then none
    else assemble? (Char.ofNat hi :: text) (.unit lo :: rest)
  | .unit n :: rest =>
    if 0xD800 ≤ n ∧ n < 0xE000 then none else assemble? (Char.ofNat n :: text) rest

/-- A string literal after its opening quote: its text, if readable, and what follows. -/
def string? (text : List Char) : Option (Option String × List Char) :=
  (stringItems? [] text).map fun (items, rest) => ((assemble? [] items).map .ofList, rest)

/-- Reads digits after the number `n` as long as the result has 64 bits: the result, and the digits that are left. -/
def takeWord (n : Nat) : List Char → Nat × List Char
  | [] => (n, [])
  | c :: rest =>
    if n * 10 + (c.toNat - '0'.toNat) < twoTo 64 then takeWord (n * 10 + (c.toNat - '0'.toNat)) rest else (n, c :: rest)

/-- The number with a fraction or an exponent, or too large for an integer. As many digits are read as an integer of
64 bits has room for, of those before the point first. The others count by their places only, and after the point not
at all. That integer is rounded and then scaled, so the number need not be the one nearest to the text. -/
def floatOfParts (neg : Bool) (whole frac : List Char) (exp : Int) : Rounded :=
  let (n, high) := takeWord 0 whole
  let (n, low) := takeWord n frac
  (Binary64.roundRatio neg n 1).bind (·.scale (exp + high.length - (frac.length - low.length : Nat)))

/-- The number with sign `neg`, integer digits `whole`, fraction digits `frac` and exponent `exp?`.
Without fraction and exponent it is an integer if it fits 64 bits; `-0` is not. -/
def numberOfParts (neg : Bool) (whole frac : List Char) (exp? : Option Int) : Document :=
  let coeff := Nat.ofDigitChars 10 (whole ++ frac) 0
  if frac.isEmpty ∧ exp?.isNone ∧ (if neg then 0 < coeff ∧ coeff ≤ twoTo 63 else coeff < twoTo 64) then
    .num (.int (if neg then -coeff else coeff))
  else
    match floatOfParts neg whole frac (exp?.getD 0) with
    | .finite x => .num (.float x)
    | .overflow _ => .unreadable

/-- An exponent, if the text starts with its mark: the exponent and what follows. -/
def exponent? : List Char → Option (Option Int × List Char)
  | [] => some (none, [])
  | c :: rest =>
    if c = 'e' ∨ c = 'E' then
      let (neg, rest) := Decimal.signOf rest
      let (ds, rest) := Text.spanDigits rest
      if ds.isEmpty then none
      else
        let n : Int := Nat.ofDigitChars 10 ds 0
        some (some (if neg then -n else n), rest)
    else some (none, c :: rest)

def minus : List Char → Bool × List Char
  | '-' :: rest => (true, rest)
  | text => (false, text)

/-- The digits in front of a point, and the text after them: a single zero, or digits without one in
front. -/
def whole? : List Char → Option (List Char × List Char)
  | '0' :: rest => some (['0'], rest)
  | text =>
    let (ds, rest) := Text.spanDigits text
    if ds.isEmpty then none else some (ds, rest)

/-- The digits after a point, if the text starts with one, and the text after them. -/
def frac? : List Char → Option (List Char × List Char)
  | '.' :: rest =>
    let (ds, rest) := Text.spanDigits rest
    if ds.isEmpty then none else some (ds, rest)
  | text => some ([], text)

/-- A number: no leading zeros, and digits on both sides of a point. -/
def number? (text : List Char) : Option (Document × List Char) := do
  let (neg, text) := minus text
  let (whole, text) ← whole? text
  let (frac, text) ← frac? text
  let (exp?, text) ← exponent? text
  return (numberOfParts neg whole frac exp?, text)

mutual

/-- A value, and the text after it. At most `depth` nested containers are readable; `fuel` bounds
the number of nested calls, which is at most two per character. -/
def value? (fuel depth : Nat) (text : List Char) : Option (Document × List Char) :=
  match fuel with
  | 0 => none
  | fuel + 1 =>
    match skipBlanks text with
    | 'n' :: 'u' :: 'l' :: 'l' :: rest => some (.null, rest)
    | 't' :: 'r' :: 'u' :: 'e' :: rest => some (.bool true, rest)
    | 'f' :: 'a' :: 'l' :: 's' :: 'e' :: rest => some (.bool false, rest)
    | '"' :: rest => (string? rest).map fun (s?, rest) => (s?.elim .unreadable .str, rest)
    | '[' :: rest =>
      match skipBlanks rest with
      | ']' :: rest => some (if depth = 0 then .unreadable else .arr [], rest)
      | _ =>
        (items? fuel (depth - 1) rest).map fun (l, rest) => (if depth = 0 then .unreadable else .arr l, rest)
    | '{' :: rest =>
      match skipBlanks rest with
      | '}' :: rest => some (if depth = 0 then .unreadable else .obj [], rest)
      | _ =>
        (fields? fuel (depth - 1) rest).map fun (l, rest) => (if depth = 0 then .unreadable else .obj l, rest)
    | rest => number? rest

def items? (fuel depth : Nat) (text : List Char) : Option (List Document × List Char) :=
  match fuel with
  | 0 => none
  | fuel + 1 =>
    match value? fuel depth text with
    | none => none
    | some (d, rest) =>
      match skipBlanks rest with
      | ',' :: rest => (items? fuel depth rest).map fun (l, rest) => (d :: l, rest)
      | ']' :: rest => some ([d], rest)
      | _ => none

def fields? (fuel depth : Nat) (text : List Char) : Option (List (Option String × Document) × List Char) :=
  match fuel with
  | 0 => none
  | fuel + 1 =>
    match skipBlanks text with
    | '"' :: rest =>
      match string? rest with
      | none => none
      | some (key, rest) =>
        match skipBlanks rest with
        | ':' :: rest =>
          match value? fuel depth rest with
          | none => none
          | some (d, rest) =>
            match skipBlanks rest with
            | ',' :: rest => (fields? fuel depth rest).map fun (l, rest) => ((key, d) :: l, rest)
            | '}' :: rest => some ([(key, d)], rest)
            | _ => none
        | _ => none
    | _ => none

end

/-- The document that a text holds, with at most `depth` readable nested containers. -/
def ofChars? (depth : Nat) (text : List Char) : Option Document :=
  match value? (2 * text.length + 2) depth text with
  | some (d, rest) => if (skipBlanks rest).isEmpty then some d else none
  | none => none

def ofString? (text : String) : Option Document := ofChars? 127 text.toList

end Chronicle.Document

def Chronicle.Json.parse? (text : String) : Option Json := (Document.ofString? text).bind Document.toJson?
