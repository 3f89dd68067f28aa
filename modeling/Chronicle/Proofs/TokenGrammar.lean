import Chronicle.Command.Token
import Chronicle.Proofs.Blanks

/-!
# The grammar of tokens

A token is read from a text exactly if the text starts with one, and then there is only one way to read it. So
a scan is an induction along the text: a token is taken whole, and where none starts one character is passed.
-/

namespace Chronicle

namespace Text

theorem cut_append_of_head {p : Char → Bool} {run rest : List Char} (hrun : ∀ c ∈ run, p c = true)
    (hrest : ∀ c ∈ rest.head?, p c = false) : cut p (run ++ rest) = (run, rest) := by
  have hstop : rest.takeWhile p = [] ∧ rest.dropWhile p = rest := by
    cases rest with
    | nil => exact ⟨rfl, rfl⟩
    | cons c rest =>
      have hc : ¬p c = true := by simpa using hrest c rfl
      exact ⟨List.takeWhile_cons_of_neg hc, List.dropWhile_cons_of_neg hc⟩
  rw [cut, List.takeWhile_append_of_pos hrun, List.dropWhile_append_of_pos hrun, hstop.1, hstop.2, List.append_nil]

theorem head?_cut (p : Char → Bool) (text : List Char) : ∀ c ∈ (cut p text).2.head?, p c = false := by
  intro c hc
  have hhead := List.head?_dropWhile_not p text
  rw [show text.dropWhile p = (cut p text).2 from rfl, Option.mem_def.mp hc] at hhead
  simpa using hhead

theorem all_cut (p : Char → Bool) (text : List Char) : ∀ c ∈ (cut p text).1, p c = true :=
  List.all_eq_true.mp List.all_takeWhile

theorem all_of_cut {p : Char → Bool} {text run rest : List Char} (h : cut p text = (run, rest)) :
    ∀ c ∈ run, p c = true := by
  have hall := all_cut p text
  rwa [h] at hall

end Text

theorem Keyword.ofWord?_word (k : Keyword) : Keyword.ofWord? k.word.toList = some k := by cases k <;> decide

namespace Token

theorem isWordChar_of_mem_word {k : Keyword} : ∀ c ∈ k.word.toList, isWordChar c = true := by
  have hall : k.word.toList.all isWordChar = true := by cases k <;> decide
  exact List.all_eq_true.mp hall

theorem isWordChar_iff {c : Char} : isWordChar c = true ↔ (65 ≤ c.toNat ∧ c.toNat ≤ 90) ∨
    (97 ≤ c.toNat ∧ c.toNat ≤ 122) ∨ (48 ≤ c.toNat ∧ c.toNat ≤ 57) ∨ c = '_' := by
  have hranges : isWordChar c = (decide (c.val ≥ 'A'.val ∧ c.val ≤ 'Z'.val) || c.val ≥ 'a'.val && c.val ≤ 'z'.val ||
      c.val ≥ '0'.val && c.val ≤ '9'.val || decide (c = '_')) := rfl
  simp only [hranges, Bool.or_eq_true, Bool.and_eq_true, decide_eq_true_eq, ge_iff_le,
    UInt32.le_iff_toNat_le, or_assoc]
  exact Iff.rfl

theorem isWordChar_eq_false_of_isBlank {c : Char} (h : Text.isBlank c = true) : isWordChar c = false := by
  rw [Bool.eq_false_iff]
  intro hw
  rcases isWordChar_iff.mp hw with hw | hw | hw | rfl
  · simp only [Text.isBlank, Bool.or_eq_true, Bool.and_eq_true, decide_eq_true_eq, beq_iff_eq] at h
    omega
  · simp only [Text.isBlank, Bool.or_eq_true, Bool.and_eq_true, decide_eq_true_eq, beq_iff_eq] at h
    omega
  · simp only [Text.isBlank, Bool.or_eq_true, Bool.and_eq_true, decide_eq_true_eq, beq_iff_eq] at h
    omega
  · exact absurd h (by decide)

/-- What the grammar asks of the parts of a token: blanks in the gaps, and parameters that neither start with a
blank nor hold the closing bracket. -/
structure WellFormed (t : Token) : Prop where
  gapBefore : ∀ c ∈ t.gapBefore, Text.isBlank c = true
  gapAfter : ∀ c ∈ t.gapAfter, Text.isBlank c = true
  params_head : ∀ c ∈ t.params.head?, Text.isBlank c = false
  close_notMem : '>' ∉ t.params

theorem wellFormed_of_read? {text rest : List Char} {t : Token} (h : read? text = some (t, rest)) : t.WellFormed := by
  unfold read? at h
  dsimp only at h
  split at h
  · next hword hbefore =>
    split at h
    · next params rest hparams =>
      obtain ⟨rfl, rfl⟩ := Prod.mk.inj (Option.some.inj h)
      -- the parameters begin what follows the second gap, and that does not begin with a blank
      have hhead : ∀ c ∈ (params ++ '>' :: rest).head?, Text.isBlank c = false := by
        rw [Text.append_of_cut hparams]
        exact Text.head?_cut _ _
      refine ⟨Text.all_of_cut hbefore, Text.all_cut _ _, ?_,
        fun hm => absurd (Text.all_of_cut hparams '>' hm) (by decide)⟩
      intro c hc
      apply hhead c
      rw [List.head?_append, Option.mem_def.mp hc]
      rfl
    · exact absurd h (by simp)
  · exact absurd h (by simp)

theorem read?_body {t : Token} (h : t.WellFormed) (rest : List Char) : read? (t.body ++ rest) = some (t, rest) := by
  obtain ⟨keyword, gapBefore, gapAfter, params⟩ := t
  have hword : Text.cut isWordChar
      (keyword.word.toList ++ (gapBefore ++ ':' :: ':' :: (gapAfter ++ (params ++ '>' :: rest)))) =
      (keyword.word.toList, gapBefore ++ ':' :: ':' :: (gapAfter ++ (params ++ '>' :: rest))) := by
    refine Text.cut_append_of_head isWordChar_of_mem_word ?_
    intro c hc
    cases gapBefore with
    | nil =>
      rw [← Option.some.inj hc]
      decide
    | cons d gap =>
      rw [← Option.some.inj hc]
      exact isWordChar_eq_false_of_isBlank (h.gapBefore d List.mem_cons_self)
  have hbefore : Text.cut Text.isBlank (gapBefore ++ ':' :: ':' :: (gapAfter ++ (params ++ '>' :: rest))) =
      (gapBefore, ':' :: ':' :: (gapAfter ++ (params ++ '>' :: rest))) := by
    refine Text.cut_append_of_head h.gapBefore ?_
    intro c hc
    rw [← Option.some.inj hc]
    decide
  have hafter : Text.cut Text.isBlank (gapAfter ++ (params ++ '>' :: rest)) = (gapAfter, params ++ '>' :: rest) := by
    refine Text.cut_append_of_head h.gapAfter ?_
    intro c hc
    cases params with
    | nil =>
      rw [← Option.some.inj hc]
      decide
    | cons d params => exact h.params_head c hc
  have hparams : Text.cut (· ≠ '>') (params ++ '>' :: rest) = (params, '>' :: rest) := by
    refine Text.cut_append_of_head ?_ ?_
    · intro c hc
      simpa using fun he : c = '>' => h.close_notMem (he ▸ hc)
    · intro c hc
      rw [← Option.some.inj hc]
      decide
  rw [read?, body]
  simp only [List.append_assoc, List.cons_append, List.nil_append, hword, hbefore, hafter, hparams,
    Keyword.ofWord?_word]

/-- A token is read exactly where the grammar has one. -/
theorem read?_eq_some_iff {text rest : List Char} {t : Token} :
    read? text = some (t, rest) ↔ t.WellFormed ∧ text = t.body ++ rest := by
  constructor
  · exact fun h => ⟨wellFormed_of_read? h, body_of_read? h⟩
  · rintro ⟨h, rfl⟩
    exact read?_body h rest

/-- The text starts with the token, and the rest follows it. -/
def Starts (t : Token) (rest text : List Char) : Prop := t.WellFormed ∧ text = t.lexeme ++ rest

theorem starts_cons_iff {t : Token} {rest text : List Char} {c : Char} :
    t.Starts rest (c :: text) ↔ c = '<' ∧ read? text = some (t, rest) := by
  rw [Starts, read?_eq_some_iff, lexeme, List.cons_append, List.cons.injEq, and_left_comm]

theorem Starts.unique {t t' : Token} {rest rest' text : List Char} (h : t.Starts rest text)
    (h' : t'.Starts rest' text) : t = t' ∧ rest = rest' := by
  obtain ⟨hw, rfl⟩ := h
  obtain ⟨-, hread⟩ := starts_cons_iff.mp h'
  exact Prod.mk.inj (Option.some.inj ((read?_body hw rest).symm.trans hread))

end Token

/-- No token starts the text. -/
def Tokenless (text : List Char) : Prop := ∀ t rest, ¬Token.Starts t rest text

theorem tokenless_cons {c : Char} (h : c ≠ '<') (text : List Char) : Tokenless (c :: text) :=
  fun _ _ hs => h (Token.starts_cons_iff.mp hs).1

theorem tokenless_open_iff {text : List Char} : Tokenless ('<' :: text) ↔ Token.read? text = none := by
  unfold Tokenless
  simp only [Token.starts_cons_iff, true_and, Option.eq_none_iff_forall_ne_some, Prod.forall, ne_eq]

/-- A property of all texts, proved along the tokens of a text: a token is taken whole, and one character where
no token starts. -/
@[elab_as_elim]
theorem scan_induction {P : List Char → Prop} (nil : P [])
    (token : ∀ t rest, Token.WellFormed t → P rest → P (t.lexeme ++ rest))
    (plain : ∀ c text, Tokenless (c :: text) → P text → P (c :: text)) (text : List Char) : P text := by
  induction hn : text.length using Nat.strongRecOn generalizing text with
  | ind n ih =>
    cases text with
    | nil => exact nil
    | cons c text =>
      subst hn
      by_cases hs : ∃ t rest, Token.Starts t rest (c :: text)
      · obtain ⟨t, rest, hw, htext⟩ := hs
        rw [htext]
        refine token t rest hw (ih rest.length ?_ rest rfl)
        rw [htext, Token.lexeme, List.cons_append, List.length_cons, List.length_append]
        omega
      · have hp : Tokenless (c :: text) := fun t rest h => hs ⟨t, rest, h⟩
        exact plain c text hp (ih text.length (by simp) text rfl)

theorem scanFrom_token {t : Token} (h : t.WellFormed) (before rest : List Char) :
    scanFrom before (t.lexeme ++ rest) = .plain before.reverse :: .token t :: scan rest := by
  rw [Token.lexeme, List.cons_append, scanFrom, if_pos rfl]
  split
  · next u rest' hread =>
    obtain ⟨rfl, rfl⟩ := Prod.mk.inj (Option.some.inj ((Token.read?_body h rest).symm.trans hread))
    rfl
  · next hread => exact absurd ((Token.read?_body h rest).symm.trans hread) (by simp)

theorem scanFrom_plain {c : Char} {text : List Char} (h : Tokenless (c :: text)) (before : List Char) :
    scanFrom before (c :: text) = scanFrom (c :: before) text := by
  rw [scanFrom]
  split
  · next hc =>
    subst hc
    split
    · next t rest hread => exact absurd (tokenless_open_iff.mp h) (by simp [hread])
    · rfl
  · rfl

end Chronicle
