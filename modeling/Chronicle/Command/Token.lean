import Chronicle.Text.Blank

/-!
# Command tokens in a text

A token is `<`, a keyword, blanks, `::`, blanks, parameters without `>`, and `>`. `scan` cuts a text
at its tokens, from left to right and without overlap; the pieces together are the text again.
-/

namespace Chronicle

inductive Keyword where
  | set | add | timedSet | responseSummary | cancelSet
deriving DecidableEq, Repr

namespace Keyword

def all : List Keyword := [set, add, timedSet, responseSummary, cancelSet]

def word : Keyword → String
  | set => "SET"
  | add => "ADD"
  | timedSet => "TIMED_SET"
  | responseSummary => "RESPONSE_SUMMARY"
  | cancelSet => "CANCEL_SET"

def ofWord? (w : List Char) : Option Keyword := all.find? fun k => k.word.toList = w

theorem word_of_ofWord? {w : List Char} {k : Keyword} (h : ofWord? w = some k) : k.word.toList = w := by
  simpa using List.find?_some h

end Keyword

/-- A command as it stands in a text. The gaps are the blanks before and after the separator. -/
structure Token where
  keyword : Keyword
  gapBefore : List Char
  gapAfter : List Char
  params : List Char
deriving DecidableEq, Repr

namespace Token

def body (t : Token) : List Char :=
  t.keyword.word.toList ++ (t.gapBefore ++ ':' :: ':' :: (t.gapAfter ++ (t.params ++ ['>'])))

def lexeme (t : Token) : List Char := '<' :: t.body

def isWordChar (c : Char) : Bool := c.isAlphanum || c = '_'

/-- The token whose body the text starts with, and the text after it. -/
def read? (text : List Char) : Option (Token × List Char) :=
  let (word, text) := Text.cut isWordChar text
  match Keyword.ofWord? word, Text.cut Text.isBlank text with
  | some keyword, (gapBefore, ':' :: ':' :: text) =>
    let (gapAfter, text) := Text.cut Text.isBlank text
    match Text.cut (· ≠ '>') text with
    | (params, '>' :: rest) => some (⟨keyword, gapBefore, gapAfter, params⟩, rest)
    | _ => none
  | _, _ => none

theorem body_of_read? {text rest : List Char} {t : Token} (h : read? text = some (t, rest)) :
    text = t.body ++ rest := by
  unfold read? at h
  dsimp only at h
  split at h
  · rename_i hk hb
    split at h
    · rename_i hp
      simp only [Option.some.injEq, Prod.mk.injEq] at h
      obtain ⟨rfl, rfl⟩ := h
      simp only [body, List.append_assoc, List.cons_append, List.nil_append, Text.append_of_cut hp,
        Text.cut_append, Text.append_of_cut hb, Keyword.word_of_ofWord? hk]
    · simp at h
  · simp at h

theorem length_of_read? {text rest : List Char} {t : Token} (h : read? text = some (t, rest)) :
    rest.length < text.length := by
  simp only [body_of_read? h, body, List.length_append, List.length_cons]
  omega

end Token

/-- A piece of a text: characters between tokens, or a token. -/
inductive Piece where
  | plain (text : List Char)
  | token (t : Token)
deriving DecidableEq, Repr

namespace Piece

def chars : Piece → List Char
  | plain text => text
  | token t => t.lexeme

def byteLength (text : List Char) : Nat := text.foldl (fun n c => n + c.utf8Size) 0

end Piece

/-- The pieces of a text, with `before` the plain characters already passed, newest first. -/
def scanFrom (before text : List Char) : List Piece :=
  match text with
  | [] => [.plain before.reverse]
  | c :: text =>
    if c = '<' then
      match _h : Token.read? text with
      | some (t, rest) => .plain before.reverse :: .token t :: scanFrom [] rest
      | none => scanFrom (c :: before) text
    else scanFrom (c :: before) text
termination_by text.length
decreasing_by
  · have := Token.length_of_read? _h
    simp only [List.length_cons]
    omega
  · simp
  · simp

def scan (text : List Char) : List Piece := scanFrom [] text

def tokens (text : List Char) : List Token :=
  (scan text).filterMap fun
    | .token t => some t
    | .plain _ => none

/-- The tokens of a text with the byte offsets at which they start and end. -/
def locatedTokens (text : List Char) : List (Token × Nat × Nat) :=
  go 0 (scan text)
where
  go (start : Nat) : List Piece → List (Token × Nat × Nat)
    | [] => []
    | p :: rest =>
      let stop := start + Piece.byteLength p.chars
      match p with
      | .token t => (t, start, stop) :: go stop rest
      | .plain _ => go stop rest

def stripCommands (text : String) : String :=
  .ofList <| (scan text.toList).flatMap fun
    | .plain text => text
    | .token _ => []

end Chronicle
