import Chronicle.Proofs.OwnSnapshots
import Chronicle.Proofs.Rescheduling
import Chronicle.Proofs.TokenSpans

/-!
# Commands that a removal assembles

Taking the tokens out of a text joins what stood on their two sides. A token that is found afterwards starts in a head
that was unfinished right before a token that has been taken out, and where there is no such head nothing is left to
be found. So a message without them is processed once and for all.
-/

namespace Chronicle

namespace Token

/-- The word, the blanks and the separator of a token, cut off before the separator is complete. -/
def Unfinished (head : List Char) : Prop :=
  ∃ (keyword : Keyword) (gap : List Char), (∀ c ∈ gap, Text.isBlank c = true) ∧
    head <+: keyword.word.toList ++ (gap ++ [':'])

/-- After a complete head the first closing bracket ends a token. -/
theorem exists_body (keyword : Keyword) {gap tail : List Char} (hgap : ∀ c ∈ gap, Text.isBlank c = true)
    (hclose : '>' ∈ tail) : ∃ (t : Token) (rest : List Char), t.WellFormed ∧
      keyword.word.toList ++ (gap ++ ':' :: ':' :: tail) = t.body ++ rest := by
  obtain ⟨before, rest, rfl, hbefore⟩ := List.eq_append_cons_of_mem hclose
  refine ⟨⟨keyword, gap, (Text.cut Text.isBlank before).1, (Text.cut Text.isBlank before).2⟩, rest,
    ⟨hgap, Text.all_cut _ _, Text.head?_cut _ _, ?_⟩, ?_⟩
  · exact fun hm => hbefore (Text.cut_append Text.isBlank before ▸ List.mem_append_right _ hm)
  · have hcut := Text.cut_append Text.isBlank before
    simp only [body, List.append_assoc, List.cons_append, List.nil_append]
    rw [← List.append_assoc _ _ ('>' :: rest), hcut]

theorem getLast?_lexeme (t : Token) : t.lexeme.getLast? = some '>' := by
  have hlexeme : t.lexeme =
      '<' :: (t.keyword.word.toList ++ (t.gapBefore ++ ':' :: ':' :: (t.gapAfter ++ t.params))) ++ ['>'] := by
    simp [lexeme, body]
  rw [hlexeme, List.getLast?_concat]

/-- A run that another ending completes to a token, though its own does not, has not reached the end of the head. -/
theorem unfinished_of_tokenless {run tail left rest : List Char} {u : Token} (hu : u.WellFormed)
    (h : run ++ left = u.body ++ rest) (ht : Tokenless ('<' :: (run ++ tail))) (hclose : '>' ∈ tail) :
    Unfinished run := by
  have hbody : u.body ++ rest = (u.keyword.word.toList ++ (u.gapBefore ++ [':', ':'])) ++
      (u.gapAfter ++ (u.params ++ '>' :: rest)) := by simp [body]
  have hnone : ∀ more, run ≠ (u.keyword.word.toList ++ (u.gapBefore ++ [':', ':'])) ++ more := by
    rintro more rfl
    obtain ⟨t, rest, hw, he⟩ := exists_body u.keyword hu.gapBefore (List.mem_append_right more hclose)
    apply ht t rest ⟨hw, ?_⟩
    rw [lexeme, List.cons_append, ← he]
    simp
  rw [hbody] at h
  rcases List.append_eq_append_iff.mp h with ⟨mid, hhead, -⟩ | ⟨mid, hrun, -⟩
  · refine ⟨u.keyword, u.gapBefore, hu.gapBefore, ?_⟩
    have hmid : mid ≠ [] := by
      rintro rfl
      exact hnone [] (by rw [hhead, List.append_nil, List.append_nil])
    have hlast : mid.dropLast ++ [mid.getLast hmid] = mid := List.dropLast_concat_getLast hmid
    have hsplit : (u.keyword.word.toList ++ (u.gapBefore ++ [':'])) ++ [':'] =
        (run ++ mid.dropLast) ++ [mid.getLast hmid] := by
      rw [List.append_assoc run, hlast, ← hhead]
      simp
    exact ⟨mid.dropLast, (List.append_inj_left' hsplit rfl).symm⟩
  · exact absurd hrun (hnone mid)

end Token

/-- The text that pieces leave when the tokens are taken out. -/
def Piece.kept (pieces : List Piece) : List Char :=
  pieces.flatMap fun
    | .plain text => text
    | .token _ => []

/-- An unfinished head stands right before a token, and what is left after the token completes it. -/
def Assembles (text : List Char) : Prop :=
  ∃ earlier run head t later, scan text = earlier ++ .plain (run ++ '<' :: head) :: .token t :: later ∧
    Token.Unfinished head ∧ (Token.read? (head ++ Piece.kept later)).isSome = true

section Scans

variable {text : List Char}

theorem scan_plain {c : Char} (h : Tokenless (c :: text)) :
    ∃ run pieces, scan text = .plain run :: pieces ∧ scan (c :: text) = .plain (c :: run) :: pieces := by
  obtain ⟨run, pieces, hscan⟩ := exists_scanFrom text
  refine ⟨run, pieces, hscan [], ?_⟩
  rw [scan, scanFrom_plain h, hscan]
  rfl

/-- A scan finds no token, or it cuts the text at the first one and goes on after it. -/
theorem scan_cases (text : List Char) : scan text = [.plain text] ∨ ∃ run t rest, t.WellFormed ∧
    text = run ++ (t.lexeme ++ rest) ∧ scan text = .plain run :: .token t :: scan rest := by
  induction text using scan_induction with
  | nil => exact Or.inl (by rw [scan, scanFrom]; rfl)
  | token t rest ht _ => exact Or.inr ⟨[], t, rest, ht, rfl, scanFrom_token ht [] rest⟩
  | plain c text hp ih =>
    obtain ⟨run, pieces, hscan, hnext⟩ := scan_plain hp
    rw [hnext]
    rcases ih with h | ⟨first, t, rest, ht, htext, h⟩
    · obtain ⟨hrun, rfl⟩ := List.cons.inj (hscan.symm.trans h)
      rw [Piece.plain.inj hrun]
      exact Or.inl rfl
    · obtain ⟨hrun, rfl⟩ := List.cons.inj (hscan.symm.trans h)
      rw [Piece.plain.inj hrun]
      exact Or.inr ⟨c :: first, t, rest, ht, by rw [htext]; rfl, rfl⟩

theorem tokens_eq_nil_iff : tokens text = [] ↔ ∀ t : Token, t.WellFormed → ¬t.lexeme <:+: text := by
  rw [← map_locatedTokens, List.map_eq_nil_iff]
  constructor
  · rintro h t ht ⟨before, after, htext⟩
    have hfound := mem_locatedFrom_or_inside ht 0 (htext.symm.trans (List.append_assoc _ _ _))
    rw [show locatedFrom 0 text = [] from h] at hfound
    simp at hfound
  · intro h
    rw [List.eq_nil_iff_forall_not_mem]
    rintro ⟨t, first, last⟩ hmem
    have hmem : (t, first, last) ∈ locatedFrom 0 text := hmem
    obtain ⟨ht, before, after, htext, -⟩ := exists_of_mem_locatedFrom hmem
    exact h t ht ⟨before, after, by rw [htext, List.append_assoc]⟩

theorem tokens_eq_nil_of_part {part : List Char} (h : tokens text = []) (hpart : part <:+: text) : tokens part = [] :=
  tokens_eq_nil_iff.mpr fun t ht hin => tokens_eq_nil_iff.mp h t ht (hin.trans hpart)

theorem withoutTokens_sublist (text : List Char) : (withoutTokens text).Sublist text := by
  induction text using scan_induction with
  | nil => simp [withoutTokens_nil]
  | token t rest ht ih =>
    rw [withoutTokens_token ht]
    exact ih.trans (List.sublist_append_right _ _)
  | plain c text hp ih =>
    rw [withoutTokens_plain hp]
    exact ih.cons_cons c

theorem withoutTokens_eq_self_iff : withoutTokens text = text ↔ tokens text = [] := by
  rcases scan_cases text with hscan | ⟨run, t, rest, ht, htext, hscan⟩
  · simp [withoutTokens, tokens, hscan]
  · have hwithout : withoutTokens text = run ++ withoutTokens rest := by
      rw [withoutTokens, hscan]
      rfl
    have htokens : tokens text = t :: tokens rest := by
      rw [tokens, hscan]
      rfl
    rw [hwithout, htokens]
    refine ⟨fun h => ?_, fun h => absurd h (by simp)⟩
    rw [htext, List.append_cancel_left_eq] at h
    have hle := (withoutTokens_sublist rest).length_le
    rw [h, List.length_append, Token.lexeme, List.length_cons] at hle
    omega

theorem Assembles.token {t : Token} {rest : List Char} (ht : t.WellFormed) (h : Assembles rest) :
    Assembles (t.lexeme ++ rest) := by
  obtain ⟨earlier, run, head, u, later, hscan, hassembled⟩ := h
  refine ⟨.plain [] :: .token t :: earlier, run, head, u, later, ?_, hassembled⟩
  rw [scan, scanFrom_token ht, hscan]
  rfl

theorem Assembles.plain {c : Char} (hp : Tokenless (c :: text)) (h : Assembles text) : Assembles (c :: text) := by
  obtain ⟨earlier, run, head, t, later, hcut, hassembled⟩ := h
  obtain ⟨first, pieces, hscan, hnext⟩ := scan_plain hp
  rw [hscan] at hcut
  cases earlier with
  | nil =>
    obtain ⟨hrun, rfl⟩ := List.cons.inj hcut
    refine ⟨[], c :: run, head, t, later, ?_, hassembled⟩
    rw [hnext, Piece.plain.inj hrun]
    rfl
  | cons p earlier =>
    obtain ⟨-, rfl⟩ := List.cons.inj hcut
    exact ⟨.plain (c :: first) :: earlier, run, head, t, later, hnext, hassembled⟩

/-- A token that starts with the first character once the tokens are taken out, and did not before, has a head that
runs into one of them. -/
theorem assembles_of_open {t : Token} {after : List Char} (ht : t.WellFormed) (hp : Tokenless ('<' :: text))
    (h : withoutTokens text = t.body ++ after) : Assembles ('<' :: text) := by
  obtain ⟨first, pieces, hscan, hnext⟩ := scan_plain hp
  rcases scan_cases text with hplain | ⟨run, u, rest, hu, htext, hcut⟩
  · have hself : withoutTokens text = text := by simp [withoutTokens, hplain]
    rw [hself] at h
    exact absurd ⟨ht, congrArg ('<' :: ·) h⟩ (hp t after)
  · have hwithout : withoutTokens text = run ++ Piece.kept (scan rest) := by
      rw [withoutTokens, hcut]
      rfl
    rw [hwithout] at h
    rw [htext] at hp
    obtain ⟨hrun, rfl⟩ := List.cons.inj (hscan.symm.trans hcut)
    refine ⟨[], [], run, u, scan rest, ?_, ?_, ?_⟩
    · rw [hnext, Piece.plain.inj hrun]
      rfl
    · exact Token.unfinished_of_tokenless ht h hp (List.mem_append_left rest (List.mem_of_getLast? u.getLast?_lexeme))
    · rw [h, Token.read?_body ht]
      rfl

theorem assembles_of_occurs {t : Token} (ht : t.WellFormed) (h : t.lexeme <:+: withoutTokens text) : Assembles text := by
  obtain ⟨before, after, h⟩ := h
  rw [List.append_assoc] at h
  induction text using scan_induction generalizing before with
  | nil =>
    rw [withoutTokens_nil] at h
    exact absurd (List.append_eq_nil_iff.mp (List.append_eq_nil_iff.mp h).2).1 (List.cons_ne_nil _ _)
  | token u rest hu ih =>
    rw [withoutTokens_token hu] at h
    exact (ih before h).token hu
  | plain c text hp ih =>
    rw [withoutTokens_plain hp] at h
    cases before with
    | nil =>
      obtain ⟨rfl, hleft⟩ := List.cons.inj h.symm
      exact assembles_of_open ht hp hleft
    | cons d before => exact (ih before (List.cons.inj h).2).plain hp

theorem not_assembles_iff : tokens (withoutTokens text) = [] ↔ ¬Assembles text := by
  rw [tokens_eq_nil_iff]
  constructor
  · rintro h ⟨earlier, run, head, t, later, hscan, -, hread⟩
    obtain ⟨⟨u, rest⟩, hread⟩ := Option.isSome_iff_exists.mp hread
    obtain ⟨hu, hhead⟩ := Token.read?_eq_some_iff.mp hread
    refine h u hu ⟨Piece.kept earlier ++ run, rest, ?_⟩
    have hwithout : withoutTokens text = Piece.kept (earlier ++ .plain (run ++ '<' :: head) :: .token t :: later) := by
      rw [← hscan]
      rfl
    rw [hwithout, List.append_assoc, Token.lexeme, List.cons_append, ← hhead]
    simp [Piece.kept]
  · exact fun h t ht hin => h (assembles_of_occurs ht hin)

end Scans

theorem tokens_stripCommands_iff (text : String) :
    tokens (stripCommands text).toList = [] ↔ ¬Assembles text.toList := by
  have hstrip : (stripCommands text).toList = withoutTokens text.toList := String.toList_ofList
  rw [hstrip, not_assembles_iff]

theorem stripCommands_eq_self_iff (text : String) : stripCommands text = text ↔ tokens text.toList = [] := by
  have hstrip : (stripCommands text).toList = withoutTokens text.toList := String.toList_ofList
  rw [← withoutTokens_eq_self_iff, ← hstrip, String.toList_inj]

theorem Command.parseAll_of_tokens {text : String} (h : tokens text.toList = []) : Command.parseAll text = [] := by
  rw [Command.parseAll, h]
  rfl

/-- What is read of a narrative in whose place it was embedded is a part of it, or the narrative with line breaks. -/
theorem Block.tokens_strip_embed {narrative : String} (s : State) (h : ¬HasBlock narrative)
    (ht : tokens narrative.toList = []) : tokens (strip (embed narrative s)).toList = [] := by
  have hself := strip_eq_self_of_not_hasBlock h
  by_cases hs : startMarker <:+: (strip narrative).toList
  · obtain ⟨before, after, htrim, -, he⟩ := strip_embed_of_infix s hs
    rw [he, String.toList_ofList]
    rw [hself] at htrim
    refine tokens_eq_nil_of_part ht (List.IsInfix.trans ?_ (Text.trim_infix _))
    exact ⟨[], startMarker ++ after, by rw [htrim]; rfl⟩
  · rw [strip_embed s hs, String.toList_ofList, hself, tokens_eq_nil_iff]
    intro t hw hin
    have hnarrow := Text.infix_of_append_right_of_getLast? t.getLast?_lexeme (by decide) hin
    exact tokens_eq_nil_iff.mp ht t hw (hnarrow.trans (Text.trim_infix _))

namespace Controller

variable {options : Options} {w w' : World} {i : Nat} {m : Message} {report : Report}

/-- The writes that are due when a message is processed. -/
def dueAt (w : World) (index : Nat) : List Command :=
  (((State.ofStored? w.host.chat.store).getD .initial).promoteDue
    ⟨(lastOf w.host.chat.messages.length).getD index, w.clock⟩).1

theorem commands_turnAt (options : Options) (w : World) (i : Nat) (m : Message) :
    (turnAt options w i m).report.map (·.1) = dueAt w i ++ Command.parseAll (Block.strip m.activeText) :=
  State.commands_apply _ _ _

theorem tokens_turnAt (w : World) (i : Nat) (hkeep : options.keepCommands = false)
    (ha : ¬Assembles (Block.strip m.activeText).toList)
    (hb : ¬Block.HasBlock (stripCommands (Block.strip m.activeText))) :
    tokens (Block.strip (turnAt options w i m).text).toList = [] := by
  have htext : (turnAt options w i m).text =
      Block.embed (stripCommands (Block.strip m.activeText)) (turnAt options w i m).state := by
    simp only [turnAt, Turn.take, hkeep]
    rfl
  rw [htext]
  exact Block.tokens_strip_embed _ hb ((tokens_stripCommands_iff _).mpr ha)

/-- A text without its commands holds a command exactly if the removal assembles one, and exactly then removing the
commands again changes it. A message from which the commands have been removed, without a command or a block being
assembled, holds no command: whenever it is processed again, only the writes that are due are applied. -/
theorem removes_for_good_iff (text : String) : (tokens (stripCommands text).toList = [] ↔ ¬Assembles text.toList) ∧
    (stripCommands (stripCommands text) = stripCommands text ↔ ¬Assembles text.toList) ∧
    ∀ (options : Options) (w w' : World) (i : Nat) (report : Report) (m : Message), options.keepCommands = false →
      ((onGenerationEnded options).exec w = (.ok (.processed i report), w') ∨
        (processMessage options i).exec w = (.ok (.processed i report), w')) →
      w.host.chat.messages[i]? = some m → Block.strip m.activeText = text →
      ¬Assembles text.toList → ¬Block.HasBlock (stripCommands text) →
      ∃ m', w'.host.chat.messages[i]? = some m' ∧ tokens (Block.strip m'.activeText).toList = [] ∧
        ∀ (options' : Options) (v v' : World) (report' : Report), v.host.chat.messages[i]? = some m' →
          (processMessage options' i).exec v = (.ok (.processed i report'), v') → report'.map (·.1) = dueAt v i := by
  refine ⟨tokens_stripCommands_iff text, ?_, ?_⟩
  · rw [stripCommands_eq_self_iff, tokens_stripCommands_iff]
  · rintro options w w' i report m hkeep hrun hm rfl ha hb
    obtain ⟨m₁, hp⟩ : ∃ m, HasProcessed options w i report w' m := by
      rcases hrun with hrun | hrun
      · exact (processed_of_onGenerationEnded hrun).2
      · exact (processed_of_processMessage hrun).2
    obtain rfl : m = m₁ := Option.some.inj (hm.symm.trans hp.message)
    have hnone := tokens_turnAt w i hkeep ha hb
    rw [← Message.activeText_setText (turnAt options w i m).text m] at hnone
    refine ⟨_, hp.getElem?, hnone, ?_⟩
    intro options' v v' report' hv hagain
    obtain ⟨-, m', hp'⟩ := processed_of_processMessage hagain
    obtain rfl := Option.some.inj (hv.symm.trans hp'.message)
    rw [hp'.report, commands_turnAt, Command.parseAll_of_tokens hnone, List.append_nil]

theorem not_assembles_chest : ¬Assembles "A chest. <SET :: gold :: 5>".toList :=
  (tokens_stripCommands_iff "A chest. <SET :: gold :: 5>").mp (by decide +kernel)

theorem removes_for_good_camp : ∃ report w' report' v',
    (onGenerationEnded campOptions).exec camp = (.ok (.processed 1 report), w') ∧
      (processMessage campOptions 1).exec w' = (.ok (.processed 1 report'), v') ∧ report'.map (·.1) = dueAt w' 1 := by
  obtain ⟨report, w', hrun⟩ := exists_processed_camp
  obtain ⟨m', hm', -, hagain⟩ := (removes_for_good_iff "A chest. <SET :: gold :: 5>").2.2 campOptions camp w' 1 report
    chest rfl (Or.inl hrun) rfl (by decide +kernel) not_assembles_chest
    fun hb => absurd hb.infix_startMarker (by decide +kernel)
  obtain ⟨-, m, hp⟩ := processed_of_onGenerationEnded hrun
  obtain rfl := Option.some.inj (hm'.symm.trans hp.getElem?)
  have hu := (Message.isUser_setText (turnAt campOptions camp 1 m).text m).trans hp.notUser
  obtain ⟨v', hrun'⟩ := exists_processMessage hp.serves hm' hu campOptions
  exact ⟨report, w', _, v', hrun, hrun', hagain campOptions w' v' _ hm' hrun'⟩

/-- The head that is left before the removed command takes the end of the other for its own. -/
theorem assembled_door : let text := "A door. <S<SET :: lock :: 0>ET :: open :: 1>"
    stripCommands text = "A door. <SET :: open :: 1>" ∧ tokens (stripCommands text).toList ≠ [] ∧
      stripCommands (stripCommands text) ≠ stripCommands text := by decide +kernel

-- a block that the removal assembles is stripped in its turn, and joins what stood on its two sides
example : let text := "<S<!--<|st<SET :: lock :: 0>ate|></|state|>-->ET :: open :: 1>"
    tokens (stripCommands text).toList = [] ∧ tokens (Block.strip (stripCommands text)).toList ≠ [] := by
  decide +kernel

end Controller

end Chronicle
