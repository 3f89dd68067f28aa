import Chronicle.Json.Document
import Chronicle.Number.Reading
import Chronicle.Time.Rfc3339

/-!
# TOML strings, keys and plain values

Strings stand in quotes or in apostrophes, single or threefold. A plain value is a truth value, an
integer of 64 bits, a number with a fraction or an exponent, or a date or time.
-/

namespace Chronicle.Toml

def apostrophe : Char := '\x27'

def isControl (c : Char) : Bool := (c.toNat < 0x20 && c ≠ '\t') || c.toNat = 0x7F

def skipSpaces : List Char → List Char := List.dropWhile fun c => c = ' ' || c = '\t'

def lineBreak? : List Char → Option (List Char)
  | '\n' :: rest | '\r' :: '\n' :: rest => some rest
  | _ => none

def codePoint? (digits : List Char) : Option Char := do
  let n ← Text.natural? 16 digits
  if n.isValidChar then some (.ofNat n) else none

def escaped? : Char → Option Char
  | 'b' => some '\x08'
  | 't' => some '\t'
  | 'n' => some '\n'
  | 'f' => some '\x0c'
  | 'r' => some '\r'
  | '"' => some '"'
  | '\\' => some '\\'
  | _ => none

/-- An escape after its backslash: the character, and the text after it. -/
def escape? : List Char → Option (Char × List Char)
  | 'u' :: rest => (codePoint? (rest.take 4)).bind fun c =>
    if (rest.take 4).length = 4 then some (c, rest.drop 4) else none
  | 'U' :: rest => (codePoint? (rest.take 8)).bind fun c =>
    if (rest.take 8).length = 8 then some (c, rest.drop 8) else none
  | c :: rest => (escaped? c).map (·, rest)
  | [] => none

/-- A string in quotes after its opening quote. `text` is what has been read, newest first. -/
def quoted? (fuel : Nat) (text rest : List Char) : Option (List Char × List Char) :=
  match fuel, rest with
  | fuel + 1, '\\' :: rest => (escape? rest).bind fun (c, rest) => quoted? fuel (c :: text) rest
  | _ + 1, '"' :: rest => some (text.reverse, rest)
  | fuel + 1, c :: rest => if isControl c then none else quoted? fuel (c :: text) rest
  | _, _ => none

/-- A string in threefold quotes after the opening ones. A backslash at the end of a line drops the
blanks and line breaks that follow, which `skipping` is for. -/
def quotedLines? (fuel : Nat) (skipping : Bool) (text rest : List Char) : Option (List Char × List Char) :=
  match fuel, rest with
  | _ + 1, '"' :: '"' :: '"' :: '"' :: '"' :: rest => some (('"' :: '"' :: text).reverse, rest)
  | _ + 1, '"' :: '"' :: '"' :: '"' :: rest => some (('"' :: text).reverse, rest)
  | _ + 1, '"' :: '"' :: '"' :: rest => some (text.reverse, rest)
  | fuel + 1, '\\' :: rest =>
    if (lineBreak? (skipSpaces rest)).isSome then quotedLines? fuel true text rest
    else (escape? rest).bind fun (c, rest) => quotedLines? fuel false (c :: text) rest
  | fuel + 1, '\r' :: '\n' :: rest | fuel + 1, '\n' :: rest =>
    quotedLines? fuel skipping (if skipping then text else '\n' :: text) rest
  | fuel + 1, c :: rest =>
    if skipping ∧ (c = ' ' ∨ c = '\t') then quotedLines? fuel true text rest
    else if isControl c then none
    else quotedLines? fuel false (c :: text) rest
  | _, _ => none

/-- A string in apostrophes after the opening one. -/
def literal? (text : List Char) : Option (List Char × List Char) :=
  match Text.cut (fun c => c ≠ apostrophe && !isControl c) text with
  | (s, c :: rest) => if c = apostrophe then some (s, rest) else none
  | (_, []) => none

/-- A string in threefold apostrophes after the opening ones. -/
def literalLines? (text : List Char) : List Char → Option (List Char × List Char)
  | '\x27' :: '\x27' :: '\x27' :: '\x27' :: '\x27' :: rest =>
    some ((apostrophe :: apostrophe :: text).reverse, rest)
  | '\x27' :: '\x27' :: '\x27' :: '\x27' :: rest => some ((apostrophe :: text).reverse, rest)
  | '\x27' :: '\x27' :: '\x27' :: rest => some (text.reverse, rest)
  | '\r' :: '\n' :: rest => literalLines? ('\n' :: text) rest
  | c :: rest => if isControl c ∧ c ≠ '\n' then none else literalLines? (c :: text) rest
  | [] => none

/-- A string with its quotes or apostrophes, and the text after it. -/
def string? (text : List Char) : Option (List Char × List Char) :=
  let afterBreak (rest : List Char) := (lineBreak? rest).getD rest
  match text with
  | '"' :: '"' :: '"' :: rest => quotedLines? text.length false [] (afterBreak rest)
  | '"' :: rest => quoted? text.length [] rest
  | '\x27' :: '\x27' :: '\x27' :: rest => literalLines? [] (afterBreak rest)
  | '\x27' :: rest => literal? rest
  | _ => none

/-- A single key: bare, in quotes, or in apostrophes. -/
def key? (text : List Char) : Option (String × List Char) :=
  match text with
  | '"' :: rest => (quoted? text.length [] rest).map fun (s, rest) => (.ofList s, rest)
  | '\x27' :: rest => (literal? rest).map fun (s, rest) => (.ofList s, rest)
  | _ =>
    let (s, rest) := Text.cut (fun c => c.isAlphanum || c = '_' || c = '-') text
    if s.isEmpty then none else some (.ofList s, rest)

/-- A key with dots in it, of up to `room` parts: those before the last one, the last one, and the text
after it. -/
def parts? (room : Nat) (text : List Char) : Option (List String × String × List Char) :=
  match room with
  | 0 => none
  | room + 1 => do
    let (key, rest) ← key? text
    match skipSpaces rest with
    | '.' :: rest =>
      let (path, last, rest) ← parts? room (skipSpaces rest)
      return (key :: path, last, rest)
    | rest => return ([], key, rest)

/-- A key with dots in it. It has less than 80 parts. -/
def dottedKey? (text : List Char) : Option (List String × String × List Char) := parts? 79 text

/-- Digits of a base, with single underscores between them, as digits alone. -/
def digitRun? (base : Nat) (text : List Char) : Option (List Char) :=
  let runs := text.splitOn '_'
  let isRun (run : List Char) : Bool := !run.isEmpty && run.all fun c => (Text.digit? base c).isSome
  if runs.all isRun then some runs.flatten else none

/-- The digits of a decimal number before its point, without needless zeros. -/
def wholeRun? (text : List Char) : Option (List Char) :=
  (digitRun? 10 text).filter fun ds => ds.head? ≠ some '0' || ds.length = 1

def integer? (text : List Char) : Option Int :=
  let word (base : Nat) (ds : List Char) := ((digitRun? base ds).bind (Text.natural? base)).map Int.ofNat
  let value := match text with
    | '0' :: 'x' :: ds => word 16 ds
    | '0' :: 'o' :: ds => word 8 ds
    | '0' :: 'b' :: ds => word 2 ds
    | _ =>
      let (neg, ds) := Decimal.signOf text
      ((wholeRun? ds).bind (Text.natural? 10)).map fun n => if neg then -(n : Int) else n
  value.filter fun n => -twoTo 63 ≤ n ∧ n < twoTo 63

/-- A number with a fraction or an exponent, and the names of infinity and of no number. -/
def float? (text : List Char) : Option Document :=
  let (neg, rest) := Decimal.signOf text
  if rest = ['i', 'n', 'f'] ∨ rest = ['n', 'a', 'n'] then some .unreadable
  else do
    let (whole, rest) := Text.cut (fun c => c.isDigit || c = '_') rest
    let whole ← wholeRun? whole
    let (frac, rest) ← match rest with
      | '.' :: rest =>
        let (frac, rest) := Text.cut (fun c => c.isDigit || c = '_') rest
        (digitRun? 10 frac).map (·, rest)
      | [] => none
      | _ => some ([], rest)
    let exp ← match rest with
      | [] => some 0
      | c :: rest =>
        let (neg, ds) := Decimal.signOf rest
        if c = 'e' ∨ c = 'E' then
          ((digitRun? 10 ds).bind (Text.natural? 10)).map fun n => if neg then -(n : Int) else n
        else none
    match (Decimal.mk neg (Nat.ofDigitChars 10 (whole ++ frac) 0) (exp - frac.length)).round with
    | .finite x => some (.num (.float x))
    | .overflow true => some .unreadable
    | .overflow false => none

/-- Whether a text is a date, a time, or both, with or without an offset. -/
def isDateTime (text : List Char) : Bool :=
  let midnight := ['T', '0', '0', ':', '0', '0', ':', '0', '0', 'Z']
  let day := ['2', '0', '0', '0', '-', '0', '1', '-', '0', '1', 'T']
  [text, text ++ ['Z'], text ++ midnight, day ++ text ++ ['Z']].any fun t => (Instant.ofInternet? t).isSome

def plain? (text : List Char) : Option Document :=
  if text = ['t', 'r', 'u', 'e'] then some (.bool true)
  else if text = ['f', 'a', 'l', 's', 'e'] then some (.bool false)
  else if isDateTime text then some (.obj [])
  else ((integer? text).map fun n => .num (.int n)).or (float? text)

def isPlainChar (c : Char) : Bool := c.isAlphanum || c = '_' || c = '+' || c = '-' || c = '.' || c = ':'

/-- The characters of a plain value, and the text after it. One blank may divide a date from a time. -/
def plainRun (text : List Char) : List Char × List Char :=
  match Text.cut isPlainChar text with
  | (run, ' ' :: c :: rest) =>
    if isDateTime run ∧ run.length = 10 ∧ c.isDigit then
      let (time, rest) := Text.cut isPlainChar (c :: rest)
      (run ++ ' ' :: time, rest)
    else (run, ' ' :: c :: rest)
  | result => result

end Chronicle.Toml
