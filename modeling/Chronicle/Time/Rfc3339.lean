import Chronicle.Text.Digits
import Chronicle.Time.Instant

/-!
# The Internet form of instants

`Instant.render` writes an instant in UTC, as `2024-05-01T09:00:00Z`, and `Instant.ofInternet?`
reads this form with any offset. Years outside 0 to 9999 are written with a sign and cannot be
read back.
-/

namespace Chronicle

namespace Text

def fixedDigits? (n : Nat) (text : List Char) : Option (Nat × List Char) :=
  let ds := text.take n
  if ds.length = n ∧ ds.all Char.isDigit then some (Nat.ofDigitChars 10 ds 0, text.drop n) else none

def expect? (c : Char) : List Char → Option (List Char)
  | d :: rest => if d = c then some rest else none
  | [] => none

/-- The digits of a number, with zeros in front up to a width. -/
def padded (width n : Nat) : List Char :=
  let ds := Nat.toDigits 10 n
  List.replicate (width - ds.length) '0' ++ ds

end Text

namespace Instant
open Text

/-- A fraction of a second in nanoseconds, and the text after it; further digits are dropped. -/
def fraction? : List Char → Option (Nat × List Char)
  | '.' :: rest =>
    let (ds, rest) := spanDigits rest
    if ds.isEmpty then none
    else some (Nat.ofDigitChars 10 ((ds ++ List.replicate 8 '0').take 9) 0, rest)
  | text => some (0, text)

/-- The offset from UTC in seconds that a text consists of. -/
def offset? : List Char → Option Int
  | ['Z'] | ['z'] => some 0
  | sign :: rest => do
    let east ← if sign = '+' then some 1 else if sign = '-' ∨ sign = '−' then some (-1) else none
    let (hours, rest) ← fixedDigits? 2 rest
    let rest ← expect? ':' rest
    let (minutes, rest) ← fixedDigits? 2 rest
    if rest.isEmpty ∧ hours ≤ 23 ∧ minutes ≤ 59 then some (east * (hours * 3600 + minutes * 60)) else none
  | [] => none

def ofInternet? (text : List Char) : Option Instant := do
  let (year, text) ← fixedDigits? 4 text
  let text ← expect? '-' text
  let (month, text) ← fixedDigits? 2 text
  let text ← expect? '-' text
  let (day, text) ← fixedDigits? 2 text
  let text ← match text with
    | 'T' :: rest | 't' :: rest | ' ' :: rest => some rest
    | _ => none
  let (hour, text) ← fixedDigits? 2 text
  let text ← expect? ':' text
  let (minute, text) ← fixedDigits? 2 text
  let text ← expect? ':' text
  let (second, text) ← fixedDigits? 2 text
  let (nanos, text) ← fraction? text
  let offset ← offset? text
  CivilTime.toInstant? ⟨⟨year, month, day⟩, hour, minute, second, nanos⟩ offset

def renderYear (year : Int) : List Char :=
  if 0 ≤ year ∧ year ≤ 9999 then padded 4 year.toNat
  else (if year < 0 then '-' else '+') :: padded 4 year.natAbs

/-- A point and 3, 6 or 9 digits, as many as are needed; nothing for a whole second. -/
def renderFraction (nanos : Nat) : List Char :=
  if nanos = 0 then []
  else if nanos % 1000000 = 0 then '.' :: padded 3 (nanos / 1000000)
  else if nanos % 1000 = 0 then '.' :: padded 6 (nanos / 1000)
  else '.' :: padded 9 nanos

def render (t : Instant) : List Char :=
  let c := t.toCivil
  renderYear c.date.year ++ '-' :: padded 2 c.date.month ++ '-' :: padded 2 c.date.day ++
    'T' :: padded 2 c.hour ++ ':' :: padded 2 c.minute ++ ':' :: padded 2 c.second ++
    renderFraction c.nanos ++ ['Z']

end Instant

end Chronicle
