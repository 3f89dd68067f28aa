import Chronicle.Command.Basic
import Chronicle.Proofs.Blanks
import Chronicle.Proofs.TokenSpans

/-!
# Commands as they are parsed

The parameters of a token decide which commands it can give: the texts of a command are fields of the parameters, and
what must be there is not empty. A field is a part of the text that is split, trimmed, and holds no separator.
-/

namespace Chronicle

namespace Text

def separator : List Char := [':', ':']

theorem splitFields_go (field text : List Char) : splitFields.go field text =
    match breakOn? separator text with
    | none => [field.reverse ++ text]
    | some (before, after) => (field.reverse ++ before) :: splitFields after := by
  induction text generalizing field with
  | nil =>
    rw [breakOn?_nil, splitFields.go, List.append_nil]
    rfl
  | cons c text ih =>
    rw [breakOn?_cons]
    cases hp : separator.isPrefixOf? (c :: text) with
    | some after =>
      rw [isPrefixOf?_eq_some_iff.mp hp]
      simp only [separator, List.cons_append, List.nil_append, List.append_nil, splitFields.go]
      rfl
    | none =>
      rw [splitFields.go, ih, List.reverse_cons]
      · cases breakOn? separator text with
        | none => simp
        | some cut => simp
      · rintro rest rfl rfl
        have hstarts : separator.isPrefixOf? (':' :: ':' :: rest) = some rest := isPrefixOf?_eq_some_iff.mpr rfl
        exact absurd hp (by simp [hstarts])

theorem splitFields_eq_self {text : List Char} (h : ¬separator <:+: text) : splitFields text = [text] := by
  rw [splitFields, splitFields_go, breakOn?_eq_none_iff.mpr h]
  rfl

/-- A field ends at the first separator after it. -/
theorem splitFields_append {before : List Char} (h : ¬separator <:+: before ++ [':']) (after : List Char) :
    splitFields (before ++ (separator ++ after)) = before :: splitFields after := by
  rw [splitFields, splitFields_go, (breakOn?_eq_some_iff (by decide)).mpr ⟨rfl, h⟩]
  rfl

/-- A property of all texts, proved along the fields of a text. -/
@[elab_as_elim]
theorem fields_induction {P : List Char → Prop} (last : ∀ text, ¬separator <:+: text → P text)
    (field : ∀ before after, ¬separator <:+: before ++ [':'] → P after → P (before ++ (separator ++ after)))
    (text : List Char) : P text := by
  induction hn : text.length using Nat.strongRecOn generalizing text with
  | ind n ih =>
    cases hb : breakOn? separator text with
    | none => exact last text (breakOn?_eq_none_iff.mp hb)
    | some cut =>
      obtain ⟨before, after⟩ := cut
      obtain ⟨rfl, hbefore⟩ := (breakOn?_eq_some_iff (by decide)).mp hb
      refine field before after hbefore (ih after.length ?_ after rfl)
      simp only [← hn, separator, List.length_append, List.length_cons, List.length_nil]
      omega

theorem infix_of_mem_splitFields {text field : List Char} (h : field ∈ splitFields text) :
    field <:+: text ∧ ¬separator <:+: field := by
  induction text using fields_induction with
  | last text hs =>
    rw [splitFields_eq_self hs, List.mem_singleton] at h
    exact h.symm ▸ ⟨List.infix_refl text, hs⟩
  | field before after hs ih =>
    rw [splitFields_append hs, List.mem_cons] at h
    rcases h with rfl | h
    · exact ⟨(List.prefix_append _ _).isInfix, fun hin => hs (hin.trans (List.prefix_append _ _).isInfix)⟩
    · have hsuffix : after <:+ before ++ (separator ++ after) := ⟨before ++ separator, List.append_assoc _ _ _⟩
      exact ⟨(ih h).1.trans hsuffix.isInfix, (ih h).2⟩

end Text

theorem wellFormed_of_mem_tokens {t : Token} {text : List Char} (h : t ∈ tokens text) : t.WellFormed := by
  rw [← map_locatedTokens] at h
  obtain ⟨⟨u, start, stop⟩, hu, rfl⟩ := List.mem_map.mp h
  exact ((findsTokens text).sound u start stop hu).1

namespace Command

/-- A field is trimmed, and it is a part of the parameters without a separator. -/
theorem infix_of_mem_fieldsOf {params : List Char} {field : String} (h : field ∈ fieldsOf params) :
    field.toList <:+: params ∧ ¬Text.separator <:+: field.toList ∧ Text.trim field.toList = field.toList := by
  obtain ⟨text, htext, rfl⟩ := List.mem_map.mp h
  obtain ⟨hin, hs⟩ := Text.infix_of_mem_splitFields htext
  rw [String.toList_ofList]
  exact ⟨(Text.trim_infix text).trans hin, fun h => hs (h.trans (Text.trim_infix text)), Text.trim_trim text⟩

/-- The commands that parameters can give. -/
inductive Given (params : List Char) : Command → Prop
  | set {path value : String} (hp : path ∈ fieldsOf params) (hne : path ≠ "") (hv : value ∈ fieldsOf params) :
    Given params (.set path (.ofText value))
  | add {path delta : String} (hp : path ∈ fieldsOf params) (hne : path ≠ "") (hd : delta ∈ fieldsOf params) :
    Given params (.add path delta)
  | timedSet {path value reason gameTime time : String} (hp : path ∈ fieldsOf params) (hne : path ≠ "")
    (hf : ∀ f ∈ [value, reason, time], f ∈ fieldsOf params ∧ f ≠ "") :
    Given params (.timedSet path (.ofText value) reason (isTrueWord gameTime) time)
  | responseSummary : Given params (.responseSummary (.ofList (Text.trim params)))
  | cancelSet {identifier : String} (hi : identifier ∈ fieldsOf params) (hne : identifier ≠ "") :
    Given params (.cancelSet identifier)

theorem ofToken_set {t : Token} {path value : String} {rest : List String} (hk : t.keyword = .set)
    (hf : fieldsOf t.params = path :: value :: rest) (hp : path ≠ "") :
    ofToken t = .ok (.set path (.ofText value)) := by
  unfold ofToken
  rw [hk, hf]
  simp only

theorem given_of_ofToken {t : Token} {c : Command} (h : ofToken t = .ok c) : Given t.params c := by
  unfold ofToken at h
  split at h
  · exact Except.ok.inj h ▸ .responseSummary
  · exact absurd h (by simp)
  · exact absurd h (by simp)
  · next hne _ hfields =>
    rw [← Except.ok.inj h]
    exact .cancelSet (by simp [hfields]) hne
  · next hne _ hfields =>
    rw [← Except.ok.inj h]
    exact .set (by simp [hfields]) hne (by simp [hfields])
  · exact absurd h (by simp)
  · next hne _ hfields =>
    rw [← Except.ok.inj h]
    exact .add (by simp [hfields]) hne (by simp [hfields])
  · exact absurd h (by simp)
  · next hne _ hfields =>
    split at h
    · exact absurd h (by simp)
    · next hempty =>
      rw [← Except.ok.inj h]
      refine .timedSet (by simp [hfields]) hne ?_
      simp only [List.contains_cons, List.contains_nil, Bool.or_false, Bool.or_eq_true, beq_iff_eq, not_or] at hempty
      simp [hfields, Ne.symm hempty.1, Ne.symm hempty.2.1, Ne.symm hempty.2.2.2]
  · exact absurd h (by simp)

theorem parseAll_of_token {text : String} {t : Token} {c : Command} (ht : tokens text.toList = [t])
    (hc : ofToken t = .ok c) : parseAll text = [c] := by
  rw [parseAll, ht]
  simp [hc, Except.toOption]

theorem given_of_mem_parseAll {text : String} {c : Command} (h : c ∈ parseAll text) :
    ∃ t : Token, t.WellFormed ∧ Given t.params c := by
  obtain ⟨t, ht, hc⟩ := List.mem_filterMap.mp h
  cases hr : ofToken t with
  | error e => exact absurd hc (by simp [hr, Except.toOption])
  | ok d =>
    rw [hr] at hc
    exact ⟨t, wellFormed_of_mem_tokens ht, Option.some.inj hc ▸ given_of_ofToken hr⟩

end Command

end Chronicle
