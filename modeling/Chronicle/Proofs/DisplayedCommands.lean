import Chronicle.Proofs.NumberFields
import Chronicle.Proofs.ParsedCommands

/-!
# Commands as they are displayed

A command is displayed as a token with its fields between separators. A command that has been parsed is found again in
what is displayed for it: its fields are trimmed and hold no separator, and its value is read as the same value.
-/

namespace Chronicle

namespace Text

/-- A field that can stand between separators: no blank at its ends, no separator in it, and nothing that ends the
parameters. -/
structure IsField (field : List Char) : Prop where
  trimmed : trim field = field
  undivided : ¬separator <:+: field
  unclosed : '>' ∉ field

theorem isField_flag (b : Bool) : IsField (if b then "true" else "false").toList := by
  cases b <;> exact ⟨by decide, by decide, by decide⟩

theorem isField_render (n : Num) : IsField n.render where
  trimmed := n.trim_render
  undivided := by
    have hcolon : ':' ∉ n.render := fun h => absurd (n.isNumeric_of_mem_render ':' h) (by decide)
    exact not_infix_of_notMem (by decide) hcolon
  unclosed := fun h => absurd (n.isNumeric_of_mem_render '>' h) (by decide)

theorem splitFields_blank (text : List Char) : ∃ first rest,
    splitFields text = first :: rest ∧ splitFields (' ' :: text) = (' ' :: first) :: rest := by
  have hblank : splitFields (' ' :: text) = splitFields.go [' '] text := by
    rw [splitFields, splitFields.go]
    simp
  rw [hblank, splitFields_go, splitFields, splitFields_go]
  cases breakOn? separator text with
  | none => exact ⟨text, [], rfl, rfl⟩
  | some cut => exact ⟨cut.1, splitFields cut.2, rfl, rfl⟩

end Text

namespace Command

open Piece (byteLength)

theorem fieldsOf_blank (text : List Char) : fieldsOf (' ' :: text) = fieldsOf text := by
  obtain ⟨first, rest, htext, hblank⟩ := Text.splitFields_blank text
  have htrim : Text.trim (' ' :: first) = Text.trim first := rfl
  rw [fieldsOf, fieldsOf, htext, hblank, List.map_cons, List.map_cons, htrim]

theorem fieldsOf_append {field : List Char} (h : Text.IsField field) (text : List Char) :
    fieldsOf (field ++ " :: ".toList ++ text) = .ofList field :: fieldsOf text := by
  have hsplit : field ++ " :: ".toList ++ text = (field ++ [' ']) ++ (Text.separator ++ ' ' :: text) := by
    simp [Text.separator]
  have hbefore : ¬Text.separator <:+: field ++ [' '] ++ [':'] := by
    rw [List.append_assoc, List.singleton_append, Text.infix_append_cons_iff (by decide), not_or]
    exact ⟨h.undivided, by decide⟩
  have htrim : Text.trim (field ++ [' ']) = field := by
    rw [Text.trim_append_right (List.forall_mem_singleton.mpr rfl), h.trimmed]
  have hblank := fieldsOf_blank text
  unfold fieldsOf at hblank ⊢
  rw [hsplit, Text.splitFields_append hbefore, List.map_cons, htrim, hblank]

/-- The fields of a displayed command are read as they were written. -/
theorem fieldsOf_intercalate {fields : List String} (hne : fields ≠ []) (h : ∀ f ∈ fields, Text.IsField f.toList) :
    fieldsOf (" :: ".intercalate fields).toList = fields := by
  induction fields with
  | nil => exact absurd rfl hne
  | cons f fields ih =>
    obtain ⟨hf, hrest⟩ := List.forall_mem_cons.mp h
    cases fields with
    | nil =>
      rw [String.intercalate_singleton, fieldsOf, Text.splitFields_eq_self hf.undivided, List.map_singleton,
        hf.trimmed, String.ofList_toList]
    | cons g fields =>
      rw [String.intercalate_cons_cons, String.toList_append, String.toList_append, fieldsOf_append hf,
        String.ofList_toList, ih (List.cons_ne_nil g fields) hrest]

/-- The token as which a command is displayed. -/
def token (c : Command) : Token := ⟨c.keyword, [' '], [' '], (" :: ".intercalate c.fields).toList⟩

theorem fields_ne_nil (c : Command) : c.fields ≠ [] := by cases c <;> exact List.cons_ne_nil _ _

theorem toList_render (c : Command) : c.render.toList = c.token.lexeme := by
  obtain ⟨f, fields, hf⟩ := List.exists_cons_of_ne_nil c.fields_ne_nil
  rw [render, hf, String.intercalate_cons_cons, ← hf]
  simp [Token.lexeme, Token.body, token]

/-- A command that is displayed as a token which gives the command again. -/
structure Displayable (c : Command) : Prop where
  wellFormed : c.token.WellFormed
  given : ofToken c.token = .ok c

theorem Displayable.located {c : Command} (h : c.Displayable) :
    locatedTokens c.render.toList = [(c.token, 0, byteLength c.render.toList)] := by
  change locatedFrom 0 _ = _
  rw [toList_render, ← List.append_nil c.token.lexeme, locatedFrom_token 0 h.wellFormed, locatedFrom_nil,
    List.append_nil, Nat.zero_add]

theorem Displayable.parseAll {c : Command} (h : c.Displayable) : Command.parseAll c.render = [c] := by
  rw [Command.parseAll, ← map_locatedTokens, h.located, List.map_singleton, List.filterMap_cons_some,
    List.filterMap_nil]
  rw [h.given]
  rfl

section Fields

variable {params : List Char} (hc : '>' ∉ params)

include hc

theorem isField_of_mem_fieldsOf {field : String} (h : field ∈ fieldsOf params) : Text.IsField field.toList := by
  obtain ⟨hin, hs, ht⟩ := infix_of_mem_fieldsOf h
  exact ⟨ht, hs, fun hm => hc (hin.subset hm)⟩

theorem isField_valueText {value : String} (h : value ∈ fieldsOf params) :
    Text.IsField (valueText (Json.ofText value)).toList := by
  rcases Json.ofText_cases value with ht | ⟨n, ht⟩
  · rw [ht]
    exact isField_of_mem_fieldsOf hc h
  · have htext : (valueText (.num n)).toList = n.render := String.toList_ofList
    rw [ht, htext]
    exact Text.isField_render n

end Fields

theorem notMem_intercalate {c : Char} {fields : List String} (hc : c ∉ " :: ".toList)
    (h : ∀ f ∈ fields, c ∉ f.toList) : c ∉ (" :: ".intercalate fields).toList := by
  induction fields with
  | nil => exact List.not_mem_nil
  | cons f fields ih =>
    obtain ⟨hf, hrest⟩ := List.forall_mem_cons.mp h
    cases fields with
    | nil => rwa [String.intercalate_singleton]
    | cons g fields =>
      rw [String.intercalate_cons_cons, String.toList_append, String.toList_append, List.mem_append, List.mem_append,
        not_or, not_or]
      exact ⟨⟨hf, hc⟩, ih hrest⟩

theorem head?_intercalate {f : String} (hne : f ≠ "") (fields : List String) :
    (" :: ".intercalate (f :: fields)).toList.head? = f.toList.head? := by
  have hf : f.toList ≠ [] := by simpa using hne
  obtain ⟨c, rest, hf⟩ := List.exists_cons_of_ne_nil hf
  cases fields with
  | nil => rw [String.intercalate_singleton]
  | cons g fields =>
    rw [String.intercalate_cons_cons, String.toList_append, String.toList_append, hf]
    rfl

/-- The displayed fields make a token, if the first of them is there. -/
theorem wellFormed_token {c : Command} {f : String} {fields : List String} (hf : c.fields = f :: fields) (hne : f ≠ "")
    (h : ∀ f ∈ c.fields, Text.IsField f.toList) : c.token.WellFormed where
  gapBefore := List.forall_mem_singleton.mpr (by decide)
  gapAfter := List.forall_mem_singleton.mpr (by decide)
  params_head := by
    have htrim := (h f (hf ▸ List.mem_cons_self)).trimmed
    rw [token, hf, head?_intercalate hne, ← htrim]
    exact Text.head?_trim f.toList
  close_notMem := notMem_intercalate (by decide) fun f hf => (h f hf).unclosed

theorem displayable_of_fields {c : Command} {f : String} {fields : List String} (hf : c.fields = f :: fields)
    (hne : f ≠ "") (h : ∀ f ∈ c.fields, Text.IsField f.toList)
    (hg : fieldsOf (" :: ".intercalate c.fields).toList = c.fields → ofToken c.token = .ok c) : c.Displayable :=
  ⟨wellFormed_token hf hne h, hg (fieldsOf_intercalate c.fields_ne_nil h)⟩

theorem valueText_ne_empty {value : String} (h : value ≠ "") : valueText (Json.ofText value) ≠ "" := by
  rcases Json.ofText_cases value with ht | ⟨n, ht⟩
  · rwa [ht]
  · obtain ⟨c, run, hn, -⟩ := Document.number?_eq n.number?_render
    rw [ht]
    intro he
    have htext : n.render = [] := String.ofList_eq_empty_iff.mp he
    rw [htext] at hn
    exact absurd hn.symm (List.cons_ne_nil _ _)

theorem isTrueWord_flag (b : Bool) : isTrueWord (if b then "true" else "false") = b := by cases b <;> decide

theorem displayable_of_given {params : List Char} {c : Command} (hc : '>' ∉ params) (h : Given params c) :
    c.Displayable := by
  have hfield {f : String} (hf : f ∈ fieldsOf params) : Text.IsField f.toList := isField_of_mem_fieldsOf hc hf
  cases h with
  | @set path value hp hne hv =>
    refine displayable_of_fields rfl hne ?_ fun hread => ?_
    · simp only [fields, List.forall_mem_cons]
      exact ⟨hfield hp, isField_valueText hc hv, by simp⟩
    · simp only [fields] at hread
      simp only [ofToken, token, keyword, fields, hread, Json.ofText_valueText]
  | @add path delta hp hne hd =>
    refine displayable_of_fields rfl hne ?_ fun hread => ?_
    · simp only [fields, List.forall_mem_cons]
      exact ⟨hfield hp, hfield hd, by simp⟩
    · simp only [fields] at hread
      simp only [ofToken, token, keyword, fields, hread]
  | @timedSet path value reason gameTime time hp hne hf =>
    simp only [List.forall_mem_cons] at hf
    obtain ⟨⟨hv, hvalue⟩, ⟨hr, hreason⟩, ⟨ht, htime⟩, -⟩ := hf
    refine displayable_of_fields rfl hne ?_ fun hread => ?_
    · simp only [fields, List.forall_mem_cons]
      exact ⟨hfield hp, isField_valueText hc hv, hfield hr, Text.isField_flag _, hfield ht, by simp⟩
    · have hflag : (if isTrueWord gameTime then "true" else "false") ≠ "" := by split <;> decide
      have hpresent : ¬[valueText (Json.ofText value), reason, if isTrueWord gameTime then "true" else "false",
          time].contains "" = true := by
        simp [(valueText_ne_empty hvalue).symm, hreason.symm, hflag.symm, htime.symm]
      simp only [fields] at hread
      simp only [ofToken, token, keyword, fields, hread, Json.ofText_valueText, isTrueWord_flag, if_neg hpresent]
  | responseSummary =>
    have htext : (" :: ".intercalate (responseSummary (.ofList (Text.trim params))).fields).toList =
        Text.trim params := by
      rw [fields, String.intercalate_singleton, String.toList_ofList]
    refine ⟨⟨List.forall_mem_singleton.mpr (by decide), List.forall_mem_singleton.mpr (by decide), ?_, ?_⟩, ?_⟩
    · rw [token, htext]
      exact Text.head?_trim params
    · rw [token, htext]
      exact fun hm => hc ((Text.trim_infix params).subset hm)
    · rw [ofToken, token, keyword, htext, Text.trim_trim]
  | @cancelSet identifier hi hne =>
    refine displayable_of_fields rfl hne ?_ fun hread => ?_
    · simp only [fields, List.forall_mem_cons]
      exact ⟨hfield hi, by simp⟩
    · simp only [fields] at hread
      simp only [ofToken, token, keyword, fields, hread]

/-- Displaying a parsed command and parsing it again is the identity: the displayed text is one token from its first
character to its last, and the only command in it is the command that was displayed. -/
theorem parseAll_render {text : String} {c : Command} (h : c ∈ Command.parseAll text) :
    Command.parseAll c.render = [c] ∧
      locatedTokens c.render.toList = [(c.token, 0, byteLength c.render.toList)] := by
  obtain ⟨t, ht, hg⟩ := given_of_mem_parseAll h
  have hc := displayable_of_given ht.close_notMem hg
  exact ⟨hc.parseAll, hc.located⟩

/-- The number in the field is written with an exponent, and displayed without. -/
def doorToken : Token := ⟨.set, [' '], [' ', ' '], "door.open ::1e0".toList⟩

theorem wellFormed_doorToken : doorToken.WellFormed where
  gapBefore := List.forall_mem_singleton.mpr rfl
  gapAfter := List.forall_mem_cons.mpr ⟨rfl, List.forall_mem_singleton.mpr rfl⟩
  params_head c hc := by
    rw [← Option.some.inj hc]
    decide
  close_notMem := by decide

theorem ofToken_doorToken : ofToken doorToken = .ok (.set "door.open" (.num (.int 1))) := by
  have hfields : fieldsOf "door.open ::1e0".toList = ["door.open", "1e0"] := by decide +kernel
  have hnumber : (Binary64.ofText? "1e0").map Num.ofBinary64 = some (.int 1) := by decide +kernel
  have hvalue : Json.ofText "1e0" = .num (.int 1) := by
    obtain ⟨x, hx, hn⟩ := Option.map_eq_some_iff.mp hnumber
    rw [Json.ofText, hx]
    exact congrArg Json.num hn
  have hpath : "door.open" ≠ "" := by decide
  simp only [ofToken, doorToken, hfields, hvalue]

theorem parseAll_door : Command.parseAll "A bell. <SET ::  door.open ::1e0> Silence." =
    [.set "door.open" (.num (.int 1))] := by
  have htext : "A bell. <SET ::  door.open ::1e0> Silence.".toList =
      "A bell. ".toList ++ (doorToken.lexeme ++ (" Silence.".toList ++ [])) := by decide +kernel
  have hbefore : '<' ∉ "A bell. ".toList := by decide
  have hafter : '<' ∉ " Silence.".toList := by decide
  have hlocated : locatedTokens "A bell. <SET ::  door.open ::1e0> Silence.".toList = [(doorToken, 8, 33)] := by
    change locatedFrom 0 _ = _
    rw [htext, locatedFrom_of_notMem 0 hbefore, locatedFrom_token _ wellFormed_doorToken,
      locatedFrom_of_notMem _ hafter, locatedFrom_nil]
    rfl
  rw [Command.parseAll, ← map_locatedTokens, hlocated, List.map_singleton, List.filterMap_cons_some,
    List.filterMap_nil]
  rw [ofToken_doorToken]
  rfl

theorem parseAll_render_door :
    .set "door.open" (.num (.int 1)) ∈ Command.parseAll "A bell. <SET ::  door.open ::1e0> Silence." ∧
      (Command.set "door.open" (.num (.int 1))).render = "<SET :: door.open :: 1>" ∧
      Command.parseAll "<SET :: door.open :: 1>" = [.set "door.open" (.num (.int 1))] := by
  have hmem : .set "door.open" (.num (.int 1)) ∈ Command.parseAll "A bell. <SET ::  door.open ::1e0> Silence." := by
    rw [parseAll_door]
    exact List.mem_singleton_self _
  have hrender : (Command.set "door.open" (.num (.int 1))).render = "<SET :: door.open :: 1>" := by decide +kernel
  have hparse := (parseAll_render hmem).1
  rw [hrender] at hparse
  exact ⟨hmem, hrender, hparse⟩

end Command

end Chronicle
