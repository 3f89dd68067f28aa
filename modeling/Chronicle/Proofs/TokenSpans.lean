import Chronicle.Proofs.ByteSlices

/-!
# The spans of the tokens of a text

A scan that works by byte offsets, one slice at a time, finds the tokens that the scan by characters finds, and no
slice fails. The spans it reports hold tokens, follow one another, and leave no token out unless it starts inside one.
-/

namespace Chronicle

open Piece (byteLength)
open Text (splitAt? slice? find?)

/-- A token with the byte offsets at which it starts and stops. -/
abbrev Located := Token × Nat × Nat

/-- The tokens of a text that starts at a byte offset. -/
def locatedFrom (start : Nat) (text : List Char) : List Located := locatedTokens.go start (scan text)

def withoutTokens (text : List Char) : List Char :=
  (scan text).flatMap fun
    | .plain text => text
    | .token _ => []

/-- What was passed before a text only lengthens the first of its pieces. -/
theorem exists_scanFrom (text : List Char) :
    ∃ run pieces, ∀ before, scanFrom before text = .plain (before.reverse ++ run) :: pieces := by
  induction text using scan_induction with
  | nil => exact ⟨[], [], fun before => by rw [scanFrom, List.append_nil]⟩
  | token t rest ht _ =>
    exact ⟨[], .token t :: scan rest, fun before => by rw [scanFrom_token ht, List.append_nil]⟩
  | plain c text hp ih =>
    obtain ⟨run, pieces, hscan⟩ := ih
    refine ⟨c :: run, pieces, fun before => ?_⟩
    rw [scanFrom_plain hp, hscan, List.reverse_cons, List.append_assoc]
    rfl

section Equations

variable (start : Nat) {t : Token} {c : Char} {text rest : List Char}

theorem locatedFrom_nil : locatedFrom start [] = [] := by
  rw [locatedFrom, scan, scanFrom]
  rfl

theorem locatedFrom_token (h : t.WellFormed) : locatedFrom start (t.lexeme ++ rest) =
    (t, start, start + byteLength t.lexeme) :: locatedFrom (start + byteLength t.lexeme) rest := by
  rw [locatedFrom, scan, scanFrom_token h]
  rfl

theorem locatedFrom_plain (h : Tokenless (c :: text)) :
    locatedFrom start (c :: text) = locatedFrom (start + c.utf8Size) text := by
  obtain ⟨run, pieces, hscan⟩ := exists_scanFrom text
  rw [locatedFrom, locatedFrom, scan, scan, scanFrom_plain h, hscan, hscan, locatedTokens.go, locatedTokens.go]
  simp only [Piece.chars, List.reverse_cons, List.reverse_nil, List.nil_append, List.cons_append,
    Piece.byteLength_cons, Nat.add_assoc]

theorem withoutTokens_nil : withoutTokens [] = [] := by
  rw [withoutTokens, scan, scanFrom]
  rfl

theorem withoutTokens_token (h : t.WellFormed) : withoutTokens (t.lexeme ++ rest) = withoutTokens rest := by
  rw [withoutTokens, scan, scanFrom_token h]
  rfl

theorem withoutTokens_plain (h : Tokenless (c :: text)) : withoutTokens (c :: text) = c :: withoutTokens text := by
  obtain ⟨run, pieces, hscan⟩ := exists_scanFrom text
  rw [withoutTokens, withoutTokens, scan, scan, scanFrom_plain h, hscan, hscan]
  rfl

end Equations

theorem locatedFrom_of_notMem (start : Nat) {run : List Char} (h : '<' ∉ run) (text : List Char) :
    locatedFrom start (run ++ text) = locatedFrom (start + byteLength run) text := by
  induction run generalizing start with
  | nil => rfl
  | cons c run ih =>
    rw [List.mem_cons, not_or] at h
    rw [List.cons_append, locatedFrom_plain start (tokenless_cons (Ne.symm h.1) _), ih _ h.2,
      Piece.byteLength_cons, Nat.add_assoc]

theorem Token.byteLength_lexeme_pos (t : Token) : 0 < byteLength t.lexeme :=
  Piece.byteLength_pos (List.cons_ne_nil _ _)

theorem exists_of_mem_locatedFrom {start first last : Nat} {t : Token} {text : List Char}
    (h : (t, first, last) ∈ locatedFrom start text) : t.WellFormed ∧ ∃ before after,
      text = before ++ (t.lexeme ++ after) ∧ first = start + byteLength before ∧
        last = first + byteLength t.lexeme := by
  induction text using scan_induction generalizing start with
  | nil =>
    rw [locatedFrom_nil] at h
    exact absurd h List.not_mem_nil
  | token u rest hu ih =>
    rw [locatedFrom_token start hu, List.mem_cons] at h
    rcases h with h | h
    · simp only [Prod.mk.injEq] at h
      obtain ⟨rfl, rfl, rfl⟩ := h
      exact ⟨hu, [], rest, rfl, rfl, rfl⟩
    · obtain ⟨ht, before, after, rfl, hfirst, hlast⟩ := ih h
      refine ⟨ht, u.lexeme ++ before, after, (List.append_assoc _ _ _).symm, ?_, hlast⟩
      rw [Piece.byteLength_append]
      omega
  | plain c text hp ih =>
    rw [locatedFrom_plain start hp] at h
    obtain ⟨ht, before, after, rfl, hfirst, hlast⟩ := ih h
    refine ⟨ht, c :: before, after, rfl, ?_, hlast⟩
    rw [Piece.byteLength_cons]
    omega

theorem pairwise_locatedFrom (start : Nat) (text : List Char) :
    (locatedFrom start text).Pairwise fun a b => a.2.2 ≤ b.2.1 := by
  induction text using scan_induction generalizing start with
  | nil =>
    rw [locatedFrom_nil]
    exact List.Pairwise.nil
  | token u rest hu ih =>
    rw [locatedFrom_token start hu]
    refine List.Pairwise.cons ?_ (ih _)
    intro b hb
    obtain ⟨-, before, -, -, hfirst, -⟩ := exists_of_mem_locatedFrom hb
    rw [hfirst]
    exact Nat.le_add_right _ _
  | plain c text hp ih =>
    rw [locatedFrom_plain start hp]
    exact ih _

/-- A token of the grammar in a text is found, or it starts inside one that is. -/
theorem mem_locatedFrom_or_inside {t : Token} (h : t.WellFormed) (start : Nat) {text before after : List Char}
    (htext : text = before ++ (t.lexeme ++ after)) :
    (t, start + byteLength before, start + byteLength before + byteLength t.lexeme) ∈ locatedFrom start text ∨
      ∃ u first last, (u, first, last) ∈ locatedFrom start text ∧ first < start + byteLength before ∧
        start + byteLength before < last := by
  induction text using scan_induction generalizing start before with
  | nil =>
    obtain ⟨-, hlexeme⟩ := List.nil_eq_append_iff.mp htext
    exact absurd hlexeme (List.cons_ne_nil _ _)
  | token u rest hu ih =>
    rw [locatedFrom_token start hu]
    by_cases hin : byteLength before < byteLength u.lexeme
    · cases before with
      | nil =>
        have hstarts : t.Starts after (u.lexeme ++ rest) := ⟨h, htext⟩
        obtain ⟨rfl, rfl⟩ := hstarts.unique ⟨hu, rfl⟩
        exact Or.inl List.mem_cons_self
      | cons c before =>
        have hpos := Piece.byteLength_pos (List.cons_ne_nil c before)
        exact Or.inr ⟨u, start, start + byteLength u.lexeme, List.mem_cons_self, by omega, by omega⟩
    · obtain ⟨before', rfl, hrest⟩ := Piece.exists_of_append_eq htext (Nat.le_of_not_lt hin)
      rw [Piece.byteLength_append, ← Nat.add_assoc]
      rcases ih (start + byteLength u.lexeme) hrest with hmem | ⟨v, first, last, hmem, hinside⟩
      · exact Or.inl (List.mem_cons_of_mem _ hmem)
      · exact Or.inr ⟨v, first, last, List.mem_cons_of_mem _ hmem, hinside⟩
  | plain c text hp ih =>
    cases before with
    | nil => exact absurd ⟨h, htext⟩ (hp t after)
    | cons d before =>
      obtain ⟨rfl, hrest⟩ := List.cons.inj htext
      rw [locatedFrom_plain start hp, Piece.byteLength_cons, ← Nat.add_assoc]
      exact ih _ hrest

/-- What a list of located tokens says of a text: each is a token of the grammar in its place, they are in order
and apart, and any other place where the grammar has a token lies inside one of them. -/
structure FindsTokens (text : List Char) (found : List Located) : Prop where
  sound : ∀ t start stop, (t, start, stop) ∈ found →
    t.WellFormed ∧ start < stop ∧ slice? start stop text = some t.lexeme
  apart : found.Pairwise fun a b => a.2.2 ≤ b.2.1
  complete : ∀ t start stop, t.WellFormed → slice? start stop text = some t.lexeme →
    (t, start, stop) ∈ found ∨ ∃ u first last, (u, first, last) ∈ found ∧ first < start ∧ start < last

theorem findsTokens (text : List Char) : FindsTokens text (locatedTokens text) := by
  constructor
  · intro t start stop h
    obtain ⟨ht, before, after, rfl, rfl, rfl⟩ := exists_of_mem_locatedFrom h
    have hpos := t.byteLength_lexeme_pos
    rw [Nat.zero_add]
    exact ⟨ht, by omega, Text.slice?_append before t.lexeme after⟩
  · exact pairwise_locatedFrom 0 text
  · intro t start stop ht h
    obtain ⟨before, after, htext, rfl, rfl⟩ := Text.slice?_eq_some_iff.mp h
    have hfound := mem_locatedFrom_or_inside ht 0 htext
    rwa [Nat.zero_add] at hfound

/-- A token as the scan by byte offsets reports it. -/
structure Sighting where
  keyword : Keyword
  params : List Char
  start : Nat
  stop : Nat
deriving DecidableEq, Repr

namespace Sighting

def ofLocated : Located → Sighting
  | (t, start, stop) => ⟨t.keyword, t.params, start, stop⟩

/-- The token that an opening bracket at a byte offset begins, if it begins one, and none if a slice fails. -/
def at? (text : List Char) (start : Nat) : Option (Option Sighting) := do
  let (_, rest) ← splitAt? (start + 1) text
  let (word, afterWord) ← splitAt? ((Text.bytes rest).takeWhile Token.isWordByte).length rest
  match Keyword.ofWord? word, Text.trimLeft afterWord with
  | some keyword, ':' :: ':' :: afterSeparator =>
    let afterSeparator := Text.trimLeft afterSeparator
    match find? '>' afterSeparator with
    | none => some none
    | some close =>
      let paramsStart := byteLength text - byteLength afterSeparator
      let params ← slice? paramsStart (paramsStart + close) text
      some (some ⟨keyword, params, start, paramsStart + close + 1⟩)
  | _, _ => some none

/-- The tokens from a byte offset on, and none if a slice fails or the rounds run out. -/
def scan? (text : List Char) (rounds pos : Nat) : Option (List Sighting) :=
  match rounds with
  | 0 => none
  | rounds + 1 =>
    if pos < byteLength text then do
      let (_, rest) ← splitAt? pos text
      match find? '<' rest with
      | none => some []
      | some n =>
        match ← at? text (pos + n) with
        | some s => (scan? text rounds s.stop).map (s :: ·)
        | none => scan? text rounds (pos + n + 1)
    else some []

/-- The text from a byte offset on without the spans of the tokens, and none if a slice fails. -/
def cutOut? (text : List Char) (last : Nat) : List Sighting → Option (List Char)
  | [] => (splitAt? last text).map Prod.snd
  | s :: more => do
    let kept ← slice? last s.start text
    let rest ← cutOut? text s.stop more
    some (kept ++ rest)

/-- The parameters stand where counting back from the end of the text puts them. -/
theorem slice?_params (front rest : List Char) (t : Token) :
    let text := front ++ (t.lexeme ++ rest)
    let first := byteLength text - byteLength (t.params ++ '>' :: rest)
    slice? first (first + byteLength t.params) text = some t.params ∧
      first + byteLength t.params + 1 = byteLength front + byteLength t.lexeme := by
  intro text first
  have hclose : ('>' : Char).utf8Size = 1 := rfl
  obtain ⟨head, hlexeme⟩ : ∃ head, t.lexeme = head ++ (t.params ++ ['>']) :=
    ⟨'<' :: (t.keyword.word.toList ++ (t.gapBefore ++ ':' :: ':' :: t.gapAfter)), by
      simp [Token.lexeme, Token.body]⟩
  have htext : text = front ++ head ++ (t.params ++ '>' :: rest) := by simp [text, hlexeme]
  have hfirst : first = byteLength (front ++ head) := by
    simp only [first, htext, Piece.byteLength_append]
    omega
  rw [hfirst, htext, hlexeme]
  refine ⟨Text.slice?_append _ _ _, ?_⟩
  simp only [Piece.byteLength_append, Piece.byteLength_cons, Piece.byteLength_nil, hclose]
  omega

theorem cut_of_dropWhile {p : Char → Bool} {text rest : List Char} (h : text.dropWhile p = rest) :
    Text.cut p text = (text.takeWhile p, rest) := by
  rw [Text.cut, h]

theorem eq_of_cut_close {text params rest : List Char} {c : Char}
    (h : Text.cut (· ≠ '>') text = (params, c :: rest)) : c = '>' := by
  have hhead := Text.head?_cut (· ≠ '>') text
  rw [h] at hhead
  simpa using hhead c rfl

section Reading

variable {text afterSeparator params rest : List Char} {keyword : Keyword} {c : Char}
  (hk : Keyword.ofWord? (Text.cut Token.isWordChar text).1 = some keyword)
  (hgap : (Text.cut Token.isWordChar text).2.dropWhile Text.isBlank = ':' :: ':' :: afterSeparator)
include hk hgap

theorem read?_of_unclosed (hclose : Text.cut (· ≠ '>') (afterSeparator.dropWhile Text.isBlank) = (params, [])) :
    Token.read? text = none := by
  have hclose' : Text.cut (· ≠ '>') (Text.cut Text.isBlank afterSeparator).2 = (params, []) := hclose
  simp only [Token.read?, hk, cut_of_dropWhile hgap, hclose']

theorem read?_of_closed (hclose : Text.cut (· ≠ '>') (afterSeparator.dropWhile Text.isBlank) = (params, c :: rest)) :
    Token.read? text = some (⟨keyword, (Text.cut Token.isWordChar text).2.takeWhile Text.isBlank,
      afterSeparator.takeWhile Text.isBlank, params⟩, rest) := by
  obtain rfl := eq_of_cut_close hclose
  have hclose' : Text.cut (· ≠ '>') (Text.cut Text.isBlank afterSeparator).2 = (params, '>' :: rest) := hclose
  simp only [Token.read?, hk, cut_of_dropWhile hgap, hclose']
  rfl

end Reading

theorem at?_append (front text : List Char) : at? (front ++ '<' :: text) (byteLength front) =
    some ((Token.read? text).map fun (t, _) =>
      ofLocated (t, byteLength front, byteLength front + byteLength t.lexeme)) := by
  have hopen : splitAt? (byteLength front + 1) (front ++ '<' :: text) = some (front ++ ['<'], text) :=
    Text.splitAt?_eq_some_iff.mpr ⟨by simp, by rw [Piece.byteLength_append]; rfl⟩
  have hword : splitAt? ((Text.bytes text).takeWhile Token.isWordByte).length text =
      some (Text.cut Token.isWordChar text) := by
    rw [Token.length_takeWhile_bytes]
    exact Text.splitAt?_eq_some_iff.mpr ⟨(Text.cut_append _ _).symm, rfl⟩
  simp only [at?, hopen, hword, Option.bind_eq_bind, Option.bind_some, Text.trimLeft]
  cases hk : Keyword.ofWord? (Text.cut Token.isWordChar text).1 with
  | none =>
    have hread : Token.read? text = none := by simp only [Token.read?, hk]
    rw [hread]
    rfl
  | some keyword =>
    split
    · next k afterSeparator he hgap =>
      obtain rfl := Option.some.inj he
      cases hclose : Text.cut (· ≠ '>') (afterSeparator.dropWhile Text.isBlank) with
      | mk params rest =>
      cases rest with
      | nil =>
        rw [find?, hclose, read?_of_unclosed hk hgap hclose]
        rfl
      | cons c rest =>
        have hread := read?_of_closed hk hgap hclose
        have hparams := slice?_params front rest ⟨keyword, (Text.cut Token.isWordChar text).2.takeWhile Text.isBlank,
            afterSeparator.takeWhile Text.isBlank, params⟩
        rw [Token.lexeme, List.cons_append, ← Token.body_of_read? hread] at hparams
        obtain rfl := eq_of_cut_close hclose
        rw [find?, hclose, hread, ← Text.append_of_cut hclose]
        simp only [hparams.1, hparams.2]
        rfl
    · next hno =>
      have hread : Token.read? text = none := by
        unfold Token.read?
        simp only [hk]
        split
        · next hgap =>
          exact (hno _ _ rfl (congrArg Prod.snd hgap)).elim
        · rfl
      rw [hread]
      rfl

/-- Every round passes a bracket, so one round a byte and one more are enough. -/
theorem scan?_append (rounds : Nat) (before rest : List Char) (h : byteLength rest < rounds) :
    scan? (before ++ rest) rounds (byteLength before) =
      some ((locatedFrom (byteLength before) rest).map ofLocated) := by
  induction rounds generalizing before rest with
  | zero => omega
  | succ rounds ih =>
    have hopen : ('<' : Char).utf8Size = 1 := rfl
    unfold scan?
    rw [Piece.byteLength_append]
    split
    · next hlt =>
      rw [Text.splitAt?_append]
      simp only [Option.bind_eq_bind, Option.bind_some]
      rcases Text.find?_cases '<' rest with ⟨hfind, hrest⟩ | ⟨run, tail, rfl, hrun, hfind⟩
      · have hnone := locatedFrom_of_notMem (byteLength before) hrest []
        rw [List.append_nil, locatedFrom_nil] at hnone
        rw [hfind, hnone]
        rfl
      · have hat := at?_append (before ++ run) tail
        rw [List.append_assoc, Piece.byteLength_append] at hat
        simp only [hfind, hat, Option.bind_some]
        rw [locatedFrom_of_notMem _ hrun]
        rw [Piece.byteLength_append, Piece.byteLength_cons] at h
        cases hread : Token.read? tail with
        | none =>
          rw [locatedFrom_plain _ (tokenless_open_iff.mpr hread)]
          have hnext := ih (before ++ (run ++ ['<'])) tail (by omega)
          simp only [Piece.byteLength_append, Piece.byteLength_cons, Piece.byteLength_nil, List.append_assoc,
            List.cons_append, List.nil_append, hopen, Nat.add_zero, ← Nat.add_assoc] at hnext
          simp only [Option.map_none, hnext, hopen]
        | some r =>
          obtain ⟨t, rest⟩ := r
          obtain ⟨ht, rfl⟩ := Token.read?_eq_some_iff.mp hread
          have hpos := t.byteLength_lexeme_pos
          rw [← List.cons_append, ← Token.lexeme, locatedFrom_token _ ht]
          have hnext := ih (before ++ (run ++ t.lexeme)) rest (by
            rw [Piece.byteLength_append] at h
            omega)
          simp only [Piece.byteLength_append, List.append_assoc, ← Nat.add_assoc] at hnext
          simp only [Option.map_some, ofLocated, hnext, List.map_cons]
    · next hge =>
      have hrest : rest = [] := by
        cases rest with
        | nil => rfl
        | cons c rest =>
          have := Piece.byteLength_pos (List.cons_ne_nil c rest)
          omega
      rw [hrest, locatedFrom_nil]
      rfl

/-- The text between the last token and the rest is kept, with what follows outside of tokens. -/
theorem cutOut?_append (before pending rest : List Char) :
    cutOut? (before ++ (pending ++ rest)) (byteLength before)
      ((locatedFrom (byteLength before + byteLength pending) rest).map ofLocated) =
        some (pending ++ withoutTokens rest) := by
  induction rest using scan_induction generalizing before pending with
  | nil =>
    rw [locatedFrom_nil, withoutTokens_nil, List.append_nil, List.map_nil, cutOut?, Text.splitAt?_append]
    rfl
  | token t rest ht ih =>
    have hnext := ih (before ++ (pending ++ t.lexeme)) []
    simp only [Piece.byteLength_append, Piece.byteLength_nil, List.append_assoc, List.nil_append, Nat.add_zero,
      ← Nat.add_assoc] at hnext
    rw [locatedFrom_token _ ht, withoutTokens_token ht, List.map_cons, cutOut?]
    simp only [ofLocated, Text.slice?_append, Option.bind_eq_bind, Option.bind_some, hnext]
  | plain c text hp ih =>
    have hnext := ih before (pending ++ [c])
    simp only [Piece.byteLength_append, Piece.byteLength_cons, Piece.byteLength_nil, List.append_assoc,
      List.cons_append, List.nil_append, Nat.add_zero, ← Nat.add_assoc] at hnext
    rw [locatedFrom_plain _ hp, withoutTokens_plain hp, hnext]

end Sighting

theorem map_locatedTokens_go {token? : Piece → Option Token} (ht : ∀ t, token? (.token t) = some t)
    (hp : ∀ run, token? (.plain run) = none) (start : Nat) (pieces : List Piece) :
    (locatedTokens.go start pieces).map Prod.fst = pieces.filterMap token? := by
  induction pieces generalizing start with
  | nil => rfl
  | cons p pieces ih =>
    cases p with
    | plain run =>
      rw [List.filterMap_cons_none (hp run)]
      exact ih _
    | token t =>
      rw [List.filterMap_cons_some (ht t)]
      exact congrArg (t :: ·) (ih _)

theorem map_locatedTokens (text : List Char) : (locatedTokens text).map Prod.fst = tokens text :=
  map_locatedTokens_go (fun _ => rfl) (fun _ => rfl) 0 (scan text)

/-- The scan of a text finds exactly the tokens of the grammar, without overlap and from the left; by byte offsets
it finds the same, and no slice of it fails. A text without its commands is the text with those spans cut out. -/
theorem scan_exact (text : String) :
    (locatedTokens text.toList).map Prod.fst = tokens text.toList ∧ FindsTokens text.toList (locatedTokens text.toList) ∧
      Sighting.scan? text.toList (byteLength text.toList + 1) 0 =
        some ((locatedTokens text.toList).map Sighting.ofLocated) ∧
      Sighting.cutOut? text.toList 0 ((locatedTokens text.toList).map Sighting.ofLocated) =
        some (stripCommands text).toList := by
  refine ⟨map_locatedTokens text.toList, findsTokens text.toList, ?_, ?_⟩
  · exact Sighting.scan?_append _ [] text.toList (Nat.lt_succ_self _)
  · have hcut := Sighting.cutOut?_append [] [] text.toList
    rw [stripCommands, String.toList_ofList]
    exact hcut

end Chronicle
