import Chronicle.Time.Rfc3339

/-!
# Instants in command text

A command may write an instant in the Internet form, or as a date with or without a time of day,
which is then in UTC. The second kind is matched item by item against a list of formats.
-/

namespace Chronicle

/-- An item of a date format: a number, a run of blanks that may be empty, or a character. -/
inductive DateItem where
  | year | month | day | hour | minute | second
  | blanks
  | char (c : Char)

namespace DateItem

/-- A number of at most `width` digits after blanks, and the text after it. -/
def number? (width : Nat) (text : List Char) : Option (Nat × List Char) :=
  let text := Text.trimLeft text
  let ds := (text.take width).takeWhile Char.isDigit
  if ds.isEmpty then none else some (Nat.ofDigitChars 10 ds 0, text.drop ds.length)

/-- A year after blanks, and the text after it. With a sign it may have any number of digits. -/
def year? (text : List Char) : Option (Int × List Char) :=
  let signed (sign : Int) (rest : List Char) :=
    let (ds, rest) := Text.spanDigits rest
    if ds.isEmpty then none else some (sign * (Nat.ofDigitChars 10 ds 0 : Nat), rest)
  match Text.trimLeft text with
  | '-' :: rest => signed (-1) rest
  | '+' :: rest => signed 1 rest
  | text => (number? 4 text).map fun (n, rest) => ((n : Int), rest)

/-- Matches an item against the start of a text: the time with what has been read, and the rest. -/
def read? (c : CivilTime) (text : List Char) : DateItem → Option (CivilTime × List Char)
  | year => (year? text).map fun (n, rest) => ({ c with date.year := n }, rest)
  | month => (number? 2 text).map fun (n, rest) => ({ c with date.month := n }, rest)
  | day => (number? 2 text).map fun (n, rest) => ({ c with date.day := n }, rest)
  | hour => (number? 2 text).map fun (n, rest) => ({ c with hour := n }, rest)
  | minute => (number? 2 text).map fun (n, rest) => ({ c with minute := n }, rest)
  | second => (number? 2 text).map fun (n, rest) => ({ c with second := n }, rest)
  | blanks => some (c, Text.trimLeft text)
  | char d => (Text.expect? d text).map fun rest => (c, rest)

/-- Matches the items one after the other against a whole text. -/
def readAll? (c : CivilTime) (text : List Char) : List DateItem → Option CivilTime
  | [] => if text.isEmpty then some c else none
  | item :: items => do
    let (c, rest) ← item.read? c text
    readAll? c rest items

def dateItems : List DateItem := [year, char '-', month, char '-', day]

/-- The formats, in the order in which they are tried: date and time to the second and to the
minute, divided by blanks or by `T`, and a date alone. -/
def formats : List (List DateItem) :=
  let minutes := [hour, char ':', minute]
  let seconds := minutes ++ [char ':', second]
  [dateItems ++ blanks :: seconds, dateItems ++ char 'T' :: seconds,
    dateItems ++ blanks :: minutes, dateItems ++ char 'T' :: minutes, dateItems]

end DateItem

/-- The instant that a text stands for, blanks around it apart. What the text leaves out is zero. -/
def Instant.ofText? (text : String) : Option Instant :=
  let text := Text.trim text.toList
  (ofInternet? text).or <| DateItem.formats.findSome? fun items =>
    (DateItem.readAll? ⟨⟨0, 0, 0⟩, 0, 0, 0, 0⟩ text items).bind (·.toInstant? 0)

end Chronicle
