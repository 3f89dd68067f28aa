import Chronicle.Proofs.JsonParts
import Chronicle.Proofs.NumberTexts
import Chronicle.Proofs.Occurrence
import Chronicle.State.Block

/-!
# Markers in written values

A written value holds a marker only where one of its texts does. Outside of quotes no character of the value is an
angle bracket, and what is escaped inside of quotes is no part of a marker.
-/

namespace Chronicle

namespace Text

/-- A pattern that begins with an angle bracket and has no character that divides or escapes in a written value. -/
structure Bracketed (pat : List Char) : Prop where
  opens : ∃ c rest, pat = c :: rest ∧ c ∈ ['<', '>']
  undivided : ∀ c ∈ ['"', ',', ':', '\n', '\\'], c ∉ pat

/-- No character of the text can begin a bracketed pattern. -/
def Unbracketed (text : List Char) : Prop := ∀ c ∈ text, c ∉ ['<', '>']

instance (text : List Char) : Decidable (Unbracketed text) := List.decidableBAll _ text

namespace Bracketed

variable {pat pre text : List Char} (h : Bracketed pat)

include h

theorem not_prefix_cons {c : Char} (hc : c ∉ ['<', '>']) (text : List Char) : ¬pat <+: c :: text := by
  obtain ⟨d, rest, rfl, hd⟩ := h.opens
  intro hpre
  exact hc ((List.cons_prefix_cons.mp hpre).1 ▸ hd)

theorem of_append_left (hp : Unbracketed pre) (hin : pat <:+: pre ++ text) : pat <:+: text := by
  induction pre with
  | nil => exact hin
  | cons c pre ih =>
    obtain ⟨hc, hp⟩ := List.forall_mem_cons.mp hp
    rw [List.cons_append, List.infix_cons_iff] at hin
    rcases hin with hin | hin
    · exact absurd hin (h.not_prefix_cons hc _)
    · exact ih hp hin

theorem of_cons {c : Char} (hc : c ∉ ['<', '>']) (hin : pat <:+: c :: text) : pat <:+: text := by
  have hpre : Unbracketed [c] := by simpa [Unbracketed] using hc
  exact h.of_append_left hpre hin

theorem not_infix (hp : Unbracketed text) : ¬pat <:+: text := by
  intro hin
  have hnil : pat <:+: [] := h.of_append_left hp (by rwa [List.append_nil])
  obtain ⟨c, rest, rfl, -⟩ := h.opens
  simp at hnil

theorem infix_append_cons {c : Char} {before after : List Char} (hc : c ∈ ['"', ',', ':', '\n', '\\'])
    (hin : pat <:+: before ++ c :: after) : pat <:+: before ∨ pat <:+: after :=
  (infix_append_cons_iff (h.undivided c hc)).mp hin

end Bracketed

end Text

namespace Json

open Text (Bracketed Unbracketed)

variable {pat : List Char} (h : Bracketed pat)

/-- An escape is the character itself, or a backslash and characters that begin no marker. -/
theorem escape_eq (c : Char) : escape c = [c] ∨ ∃ code, escape c = '\\' :: code ∧ Unbracketed code := by
  have hdigit : ∀ n < 16, Nat.digitChar n ∉ ['<', '>'] := by decide
  unfold escape
  repeat' split
  all_goals first
    | exact Or.inl rfl
    | exact Or.inr ⟨_, rfl, by decide⟩
    | refine Or.inr ⟨_, rfl, ?_⟩
  next hc =>
    have hhi := hdigit (c.toNat / 16) (by omega)
    have hlo := hdigit (c.toNat % 16) (by omega)
    intro d hd
    simp only [List.mem_cons, List.not_mem_nil, or_false] at hd
    rcases hd with rfl | rfl | rfl | rfl | rfl
    · decide
    · decide
    · decide
    · exact hhi
    · exact hlo

theorem prefix_of_prefix_escaped {s pre : List Char} (hb : '\\' ∉ pre) (hpre : pre <+: s.flatMap escape) :
    pre <+: s := by
  induction s generalizing pre with
  | nil => simpa using hpre
  | cons c s ih =>
    cases pre with
    | nil => exact List.nil_prefix
    | cons d pre =>
      rw [List.flatMap_cons] at hpre
      rcases escape_eq c with he | ⟨code, he, -⟩
      · rw [he, List.singleton_append, List.cons_prefix_cons] at hpre
        rw [List.cons_prefix_cons]
        exact ⟨hpre.1, ih (fun hm => hb (List.mem_cons_of_mem d hm)) hpre.2⟩
      · rw [he, List.cons_append, List.cons_prefix_cons] at hpre
        exact absurd (hpre.1 ▸ List.mem_cons_self) hb

theorem unbracketed_blanks (n : Nat) : Unbracketed (List.replicate n ' ') := by
  intro c hc
  rw [(List.mem_replicate.mp hc).2]
  decide

theorem unbracketed_newLine (level : Nat) : Unbracketed (newLine level) :=
  List.forall_mem_cons.mpr ⟨by decide, unbracketed_blanks _⟩

theorem unbracketed_render (n : Num) : Unbracketed n.render := by
  obtain ⟨c, run, ht, hc, hrun⟩ := Document.number?_eq n.number?_render
  rw [List.append_nil] at ht
  intro d hd hbracket
  simp only [List.mem_cons, List.not_mem_nil, or_false] at hbracket
  rw [ht] at hd
  rcases List.mem_cons.mp hd with rfl | hd
  · rcases hbracket with rfl | rfl <;> exact absurd hc (by decide)
  · rcases hbracket with rfl | rfl <;> exact absurd (hrun _ hd) (by decide)

include h

theorem infix_of_escaped {s : List Char} (hin : pat <:+: s.flatMap escape) : pat <:+: s := by
  induction s with
  | nil => simpa using hin
  | cons c s ih =>
    rw [List.flatMap_cons] at hin
    rcases escape_eq c with he | ⟨code, he, hc⟩
    · rw [he, List.singleton_append, List.infix_cons_iff] at hin
      rcases hin with hin | hin
      · rw [← List.singleton_append, ← he, ← List.flatMap_cons] at hin
        exact (prefix_of_prefix_escaped (h.undivided _ (by decide)) hin).isInfix
      · exact (ih hin).trans (List.suffix_cons c s).isInfix
    · rw [he, List.cons_append] at hin
      exact (ih (h.of_append_left hc (h.of_cons (by decide) hin))).trans (List.suffix_cons c s).isInfix

theorem infix_of_quote {s : String} (hin : pat <:+: quote s) : pat <:+: s.toList := by
  rcases h.infix_append_cons (by decide) (h.of_cons (by decide) hin) with hin | hin
  · exact infix_of_escaped h hin
  · exact absurd hin (h.not_infix (by decide))

theorem infix_of_prettyItems {level : Nat} {items : List Json} (hin : pat <:+: prettyItems level items) :
    ∃ v ∈ items, pat <:+: v.prettyChars level := by
  induction items with
  | nil => exact absurd hin (h.not_infix (by simp [prettyItems, Unbracketed]))
  | cons v items ih =>
    cases items with
    | nil => exact ⟨v, List.mem_cons_self, hin⟩
    | cons w items =>
      rw [prettyItems] at hin
      rcases h.infix_append_cons (by decide) hin with hin | hin
      · exact ⟨v, List.mem_cons_self, hin⟩
      · obtain ⟨u, hu, hin⟩ := ih (h.of_append_left (unbracketed_newLine level) hin)
        exact ⟨u, List.mem_cons_of_mem v hu, hin⟩

theorem infix_of_prettyFields {level : Nat} {fields : Object} (hin : pat <:+: prettyFields level fields) :
    ∃ f ∈ fields, pat <:+: f.1.toList ∨ pat <:+: f.2.prettyChars level := by
  induction fields with
  | nil => exact absurd hin (h.not_infix (by simp [prettyFields, Unbracketed]))
  | cons f fields ih =>
    cases fields with
    | nil =>
      rw [prettyFields] at hin
      exact ⟨f, List.mem_cons_self,
        (h.infix_append_cons (by decide) hin).imp (infix_of_quote h) (h.of_cons (by decide))⟩
    | cons g fields =>
      rw [prettyFields] at hin
      rcases h.infix_append_cons (by decide) hin with hin | hin
      · exact ⟨f, List.mem_cons_self, Or.inl (infix_of_quote h hin)⟩
      · rcases h.infix_append_cons (by decide) (h.of_cons (by decide) hin) with hin | hin
        · exact ⟨f, List.mem_cons_self, Or.inr hin⟩
        · obtain ⟨u, hu, hin⟩ := ih (h.of_append_left (unbracketed_newLine level) hin)
          exact ⟨u, List.mem_cons_of_mem f hu, hin⟩

/-- A written value holds a marker only if one of its texts does. -/
theorem infix_of_pretty {v : Json} {level : Nat} (hin : pat <:+: v.prettyChars level) :
    ∃ t ∈ v.texts, pat <:+: t.toList := by
  induction v using Json.induction generalizing level with
  | null => exact absurd hin (h.not_infix (by simp [prettyChars, Unbracketed]))
  | bool b => cases b <;> exact absurd hin (h.not_infix (by simp [prettyChars, Unbracketed]))
  | num n => exact absurd hin (h.not_infix (unbracketed_render n))
  | str s => exact ⟨s, mem_texts_str.mpr rfl, infix_of_quote h hin⟩
  | arr items ih =>
    cases items with
    | nil => exact absurd hin (h.not_infix (by simp [prettyChars, Unbracketed]))
    | cons v items =>
      have hin := h.of_append_left (unbracketed_newLine _) (h.of_cons (by decide) hin)
      rw [newLine, List.cons_append] at hin
      rcases h.infix_append_cons (by decide) hin with hin | hin
      · obtain ⟨u, hu, hin⟩ := infix_of_prettyItems h hin
        obtain ⟨t, ht, hin⟩ := ih u hu hin
        exact ⟨t, mem_texts_arr.mpr ⟨u, hu, ht⟩, hin⟩
      · exact absurd (h.of_append_left (unbracketed_blanks _) hin) (h.not_infix (by decide))
  | obj fields ih =>
    cases fields with
    | nil => exact absurd hin (h.not_infix (by simp [prettyChars, Unbracketed]))
    | cons f fields =>
      have hin := h.of_append_left (unbracketed_newLine _) (h.of_cons (by decide) hin)
      rw [newLine, List.cons_append] at hin
      rcases h.infix_append_cons (by decide) hin with hin | hin
      · obtain ⟨u, hu, hin | hin⟩ := infix_of_prettyFields h hin
        · exact ⟨u.1, mem_texts_obj.mpr ⟨u, hu, Or.inl rfl⟩, hin⟩
        · obtain ⟨t, ht, hin⟩ := ih u hu hin
          exact ⟨t, mem_texts_obj.mpr ⟨u, hu, Or.inr ht⟩, hin⟩
      · exact absurd (h.of_append_left (unbracketed_blanks _) hin) (h.not_infix (by decide))

end Json

namespace Block

theorem bracketed_startMarker : Text.Bracketed startMarker where
  opens := ⟨'<', _, rfl, by decide⟩
  undivided c hc := by
    simp only [List.mem_cons, List.not_mem_nil, or_false] at hc
    rcases hc with rfl | rfl | rfl | rfl | rfl <;> decide

theorem bracketed_endMarker : Text.Bracketed endMarker where
  opens := ⟨'<', _, rfl, by decide⟩
  undivided c hc := by
    simp only [List.mem_cons, List.not_mem_nil, or_false] at hc
    rcases hc with rfl | rfl | rfl | rfl | rfl <;> decide

theorem not_infix_of_notMem {text : List Char} (h : '<' ∉ text) : ¬endMarker <:+: text :=
  Text.not_infix_of_notMem (by decide) h

end Block

end Chronicle
