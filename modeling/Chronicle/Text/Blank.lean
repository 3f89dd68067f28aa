/-!
# White space and runs of characters

`isBlank` is the Unicode property White_Space: 25 code points. `cut` splits a text after its longest
run of characters of a kind; the trims remove blanks from the ends of a text.
-/

namespace Chronicle.Text

/-- The longest run of characters of a kind at the start of a text, and the text after it. -/
def cut (p : Char → Bool) (text : List Char) : List Char × List Char := (text.takeWhile p, text.dropWhile p)

theorem cut_append (p : Char → Bool) (text : List Char) : (cut p text).1 ++ (cut p text).2 = text :=
  List.takeWhile_append_dropWhile

theorem append_of_cut {p : Char → Bool} {text run rest : List Char} (h : cut p text = (run, rest)) :
    run ++ rest = text := by
  simpa [h] using cut_append p text

/-- A character with the Unicode property White_Space. -/
def isBlank (c : Char) : Bool :=
  let n := c.toNat
  (0x09 ≤ n && n ≤ 0x0D) || n == 0x20 || n == 0x85 || n == 0xA0 || n == 0x1680 ||
    (0x2000 ≤ n && n ≤ 0x200A) || n == 0x2028 || n == 0x2029 || n == 0x202F || n == 0x205F || n == 0x3000

def trimLeft (s : List Char) : List Char := s.dropWhile isBlank

def trimRight (s : List Char) : List Char := (s.reverse.dropWhile isBlank).reverse

def trim (s : List Char) : List Char := trimRight (trimLeft s)

end Chronicle.Text
