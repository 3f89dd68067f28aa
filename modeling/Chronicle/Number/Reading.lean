import Chronicle.Json.Basic
import Chronicle.Text.Digits

/-!
# Numbers in command text

`Binary64.ofText?` recognises the texts that are numbers, and `Json.ofText` is the value that a
field of a command stands for: a number if it reads as one, the text itself otherwise.
-/

namespace Chronicle

namespace Decimal

def signOf : List Char → Bool × List Char
  | '-' :: rest => (true, rest)
  | '+' :: rest => (false, rest)
  | text => (false, text)

/-- The exponent that the rest of a number is: nothing, or a mark, a sign and digits. -/
def exponentOf? : List Char → Option Int
  | [] => some 0
  | c :: rest =>
    if c = 'e' ∨ c = 'E' then
      let (neg, rest) := signOf rest
      match Text.spanDigits rest with
      | (d :: ds, []) =>
        let n : Int := Nat.ofDigitChars 10 (d :: ds) 0
        some (if neg then -n else n)
      | _ => none
    else none

/-- A decimal number: a sign, digits with a point anywhere among them, and an exponent. Sign, point
and exponent may be absent, but there is at least one digit. -/
def ofChars? (text : List Char) : Option Decimal :=
  let (neg, text) := signOf text
  let (whole, text) := Text.spanDigits text
  let (frac, text) := match text with
    | '.' :: rest => Text.spanDigits rest
    | _ => ([], text)
  if whole.isEmpty ∧ frac.isEmpty then none
  else (exponentOf? text).map fun e => ⟨neg, Nat.ofDigitChars 10 (whole ++ frac) 0, e - frac.length⟩

end Decimal

/-- The finite number that a text is, blanks around it apart. An integer of 64 bits may be written
in base sixteen, eight or two after `0x`, `0o` or `0b`. -/
def Binary64.ofText? (text : String) : Option Binary64 :=
  match Text.trim text.toList with
  | '0' :: 'x' :: rest | '0' :: 'X' :: rest => ofWord? 16 rest
  | '0' :: 'o' :: rest | '0' :: 'O' :: rest => ofWord? 8 rest
  | '0' :: 'b' :: rest | '0' :: 'B' :: rest => ofWord? 2 rest
  | text => (Decimal.ofChars? text).bind fun d => d.round.toOption
where
  ofWord? (base : Nat) (text : List Char) : Option Binary64 :=
    (Text.word? base text).bind fun n => (Binary64.ofInt n).toOption

/-- The JSON number for a value: an integer if it is integral and its magnitude is below `2 ^ 53`. -/
def Num.ofBinary64 (x : Binary64) : Num :=
  match x.toInt? with
  | some n => if n.natAbs < twoTo 53 then .int n else .float x
  | none => .float x

namespace Json

def ofText (text : String) : Json :=
  match Binary64.ofText? text with
  | some x => .num (.ofBinary64 x)
  | none => .str text

/-- The number that a value counts as in a sum: nothing is zero, truth is one. -/
def reading? : Json → Option Binary64
  | .null | .bool false => some (.zero false)
  | .bool true => (Binary64.ofInt 1).toOption
  | .num n => n.toBinary64?
  | .str s => Binary64.ofText? s
  | .arr _ | .obj _ => none

end Json

end Chronicle
