/-!
# Control sequences

A text for a terminal may hold sequences that steer it: an escape character and what follows, up to an
end of its own for each kind. `bold` writes such sequences. `withoutSequences` leaves them out, and with
them all control characters that are not blanks.
-/

namespace Chronicle.Text

/-- Where a text stands: outside of sequences, or in one that is not yet complete. -/
inductive Sequence where
  | outside
  /-- After the escape character. -/
  | escape
  /-- After the escape character and a first mark that does not end the sequence. -/
  | escapeMarks
  | control
  /-- At the start of a string for a device, where parameters and marks may stand. -/
  | device
  /-- After parameters of a string for a device. -/
  | deviceParameters
  /-- After marks of a string for a device. -/
  | deviceMarks
  | string
  | systemCommand
deriving DecidableEq, Repr

namespace Sequence

/-- Where the text stands after a character. In a string for a device, what may not stand at the start
begins the string itself, as its proper final character does. -/
def next (s : Sequence) (c : Char) : Sequence :=
  let isMark := ' ' ≤ c ∧ c ≤ '/'
  let isParameter := '0' ≤ c ∧ c ≤ ';'
  let isFinal := '@' ≤ c ∧ c ≤ '~'
  if c = '\x18' ∨ c = '\x1a' then outside
  else if c = '\x1b' then escape
  else
    match s with
    | outside => outside
    | escape =>
      if isMark then escapeMarks
      else if c = '[' then control
      else if c = ']' then systemCommand
      else if c = 'P' then device
      else if c = 'X' ∨ c = '^' ∨ c = '_' then string
      else if '0' ≤ c ∧ c ≤ '~' then outside
      else escape
    | escapeMarks => if '0' ≤ c ∧ c ≤ '~' then outside else escapeMarks
    | control => if isFinal then outside else control
    | device =>
      if isMark then deviceMarks
      else if isParameter ∨ '<' ≤ c ∧ c ≤ '?' then deviceParameters
      else if isFinal then string
      else device
    | deviceParameters =>
      if isMark then deviceMarks
      else if isParameter then deviceParameters
      else if '<' ≤ c ∧ c ≤ '~' then string
      else deviceParameters
    | deviceMarks => if '0' ≤ c ∧ c ≤ '~' then string else deviceMarks
    | string => if (String.utf8EncodeChar c).contains 0x9c then outside else string
    | systemCommand => if c = '\x07' then outside else systemCommand

/-- Whether blanks are shown. -/
def showsBlanks : Sequence → Bool
  | outside | escape | escapeMarks | control => true
  | device | deviceParameters | deviceMarks | string | systemCommand => false

end Sequence

def isControlBlank (c : Char) : Bool := c = '\t' || c = '\n' || c = '\x0c' || c = '\r'

def isShown (c : Char) : Bool := isControlBlank c || ' ' ≤ c && c ≠ '\x7f'

/-- The characters that are shown. A blank within a sequence is shown with all that follows it up to
the next control character, where the sequence goes on; `showing` tells that this is so. -/
def shown (showing : Bool) (s : Sequence) : List Char → List Char
  | [] => []
  | c :: rest =>
    if showing && isShown c then c :: shown true (if c.toNat < 0x80 then s else .outside) rest
    else if isShown c && (s = .outside || s.showsBlanks && isControlBlank c) then
      c :: shown true (s.next c) rest
    else shown false (s.next c) rest

def withoutSequences (text : String) : String := .ofList (shown false .outside text.toList)

/-- The text in bold letters. Its first sequence ends one that was left open before. -/
def bold (text : String) : String := "\x1b[1m" ++ text ++ "\x1b[0m"

def shownLength (text : String) : Nat := (withoutSequences text).length

end Chronicle.Text
