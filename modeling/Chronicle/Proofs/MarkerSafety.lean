import Chronicle.Proofs.AbsentCharacters
import Chronicle.Proofs.Rescheduling

/-!
# Blocks of states that commands have made

Whatever the messages of a story say, no text of the state that they lead to holds a closing bracket. Both markers end
with one, so the block of such a state has each marker once, and what is read between them is the state as it is
written.
-/

namespace Chronicle

namespace Text

variable {pat before after : List Char}

/-- The pattern is in the text, at one place only. -/
def OccursOnce (pat text : List Char) : Prop :=
  ∃ before after, ∀ before' after', text = before' ++ (pat ++ after') ↔ before' = before ∧ after' = after

/-- A pattern that does not overlap itself is once in a text that has no other on either side of it. -/
theorem occursOnce_append (hp : pat ≠ []) (hu : Unbordered pat) (hb : ¬pat <:+: before) (ha : ¬pat <:+: after) :
    OccursOnce pat (before ++ (pat ++ after)) := by
  refine ⟨before, after, fun before' after' => ⟨fun h => ?_, by rintro ⟨rfl, rfl⟩; rfl⟩⟩
  rcases List.append_eq_append_iff.mp h with ⟨u, rfl, hrest⟩ | ⟨u, rfl, hrest⟩
  · cases u with
    | nil => exact ⟨List.append_nil before, (List.append_cancel_left hrest).symm⟩
    | cons c u =>
      -- a later occurrence would begin in the rest of the first one, or after it
      obtain ⟨d, rest, rfl⟩ := List.exists_cons_of_ne_nil hp
      have htail : rest ++ after = u ++ (d :: rest ++ after') := (List.cons.inj hrest).2
      have hin : d :: rest <:+: (d :: rest).tail ++ after :=
        ⟨u, after', by rw [List.tail_cons, htail, List.append_assoc]⟩
      exact absurd ((hu.infix_tail_append_iff hp).mp hin) ha
  · cases u with
    | nil => exact ⟨(List.append_nil before').symm, List.append_cancel_left hrest⟩
    | cons c u =>
      -- an earlier one would begin before it, and end before its last character
      have hstart : c :: u ++ pat.dropLast <+: pat ++ after' := by
        rw [hrest, List.prefix_append_right_inj]
        exact (List.dropLast_prefix pat).trans (List.prefix_append _ _)
      have hlen : pat.length ≤ (c :: u ++ pat.dropLast).length := by
        simp only [List.length_append, List.length_cons, List.length_dropLast]
        omega
      have hpre := List.prefix_of_prefix_length_le (List.prefix_append pat after') hstart hlen
      have hin : pat <:+: before' ++ c :: u ++ pat.dropLast := by
        rw [List.append_assoc]
        exact hpre.isInfix.trans (List.suffix_append _ _).isInfix
      exact absurd ((hu.infix_append_dropLast_iff hp).mp hin) hb

end Text

/-- A turn of a story. The state may be stored and loaded again before it. -/
structure Scene extends Play where
  reloads : Bool

namespace State

/-- The state after a turn: the due writes are taken out of the schedule and applied, and after them the commands of
the text. -/
def next (s : State) (scene : Scene) : State :=
  let s := if scene.reloads then load s.toStored else s
  ((s.promoteDue scene.tick).2.apply scene.tick (scene.commands s)).2

/-- The state that a story leads to. -/
def after (story : List Scene) : State := story.foldl next initial

/-- The state is well formed, and no text of it holds a closing bracket. -/
structure Unclosed (s : State) : Prop where
  wellFormed : s.WellFormed
  obeys : s.Obeys (.without '>')

variable {s : State}

theorem unclosed_initial : initial.Unclosed :=
  ⟨wellFormed_initial, obeys_without_iff.mpr (by simp [initial, texts, values])⟩

theorem Unclosed.load (h : s.Unclosed) : (State.load s.toStored).Unclosed := by
  refine ⟨wellFormed_load _, ?_⟩
  rw [load_toStored h.wellFormed]
  exact ⟨h.obeys.vars, fun w hw => h.obeys.schedule w (List.mem_filter.mp hw).1, h.obeys.summaries⟩

theorem Unclosed.play (h : s.Unclosed) (p : Play) :
    ((s.promoteDue p.tick).2.apply p.tick (p.commands s)).2.Unclosed where
  wellFormed := wellFormed_turn p.tick h.wellFormed p.text
  obeys := (Policy.closed_without (by decide)).turn p.tick h.obeys fun _ => Command.obeys_of_mem_parseAll

theorem Unclosed.next (h : s.Unclosed) (scene : Scene) : (s.next scene).Unclosed := by
  unfold State.next
  split
  · exact h.load.play scene.toPlay
  · exact h.play scene.toPlay

theorem unclosed_after (story : List Scene) : (after story).Unclosed := by
  have hrun : ∀ s : State, s.Unclosed → (story.foldl State.next s).Unclosed := by
    induction story with
    | nil => exact fun s h => h
    | cons scene story ih => exact fun s h => ih _ (h.next scene)
  exact hrun initial unclosed_initial

end State

namespace Block

/-- What is read in the first block of a text. -/
def body? (text : String) : Option String := do
  let (_, rest) ← Text.breakOn? startMarker text.toList
  let (body, _) ← Text.breakOn? endMarker rest
  return .ofList (Text.trim body)

theorem parse?_eq_body? (text : String) : parse? text = (body? text).bind State.parse? := by
  unfold parse? body?
  cases Text.breakOn? startMarker text.toList with
  | none => rfl
  | some cut =>
    simp only [Option.bind_eq_bind, Option.bind_some]
    cases Text.breakOn? endMarker cut.2 with
    | none => rfl
    | some cut => rfl

variable {s : State} (h : ∀ t ∈ s.texts, '>' ∉ t.toList)

include h

theorem occursOnce_startMarker : Text.OccursOnce startMarker (render s).toList := by
  have hinner : ¬startMarker <:+: inner s :=
    not_infix_inner bracketed_startMarker fun t ht => Text.not_infix_of_notMem (by decide) (h t ht)
  have hbefore : ¬startMarker <:+: [] := by simp [startMarker_ne_nil]
  have hafter : ¬startMarker <:+: inner s ++ endMarker := by
    intro hin
    rw [inner, ← List.cons_append, List.append_assoc, List.singleton_append,
      Text.infix_append_cons_iff newline_notMem_startMarker] at hin
    rcases hin with hin | hin
    · exact hinner (hin.trans (List.prefix_append _ ['\n']).isInfix)
    · exact absurd hin (by decide +kernel)
  have honce := Text.occursOnce_append startMarker_ne_nil unbordered_startMarker hbefore hafter
  rwa [List.nil_append, ← toList_render] at honce

theorem not_infix_start_inner : ¬endMarker <:+: startMarker ++ inner s := by
  intro hin
  rw [inner, Text.infix_append_cons_iff (by decide)] at hin
  rcases hin with hin | hin
  · exact absurd hin (by decide +kernel)
  · have hinner : ¬endMarker <:+: inner s :=
      not_infix_inner bracketed_endMarker fun t ht => Text.not_infix_of_notMem (by decide) (h t ht)
    exact hinner (hin.trans (List.suffix_cons _ _).isInfix)

theorem occursOnce_endMarker : Text.OccursOnce endMarker (render s).toList := by
  have hafter : ¬endMarker <:+: [] := by simp [endMarker_ne_nil]
  have honce := Text.occursOnce_append endMarker_ne_nil unbordered_endMarker (not_infix_start_inner h) hafter
  rwa [List.append_nil, List.append_assoc, ← toList_render] at honce

theorem body?_render : body? (render s) = some s.toJson.pretty := by
  have hinner : ¬endMarker <:+: inner s := fun hin =>
    not_infix_start_inner h (hin.trans (List.suffix_append _ _).isInfix)
  have hstart : Text.breakOn? startMarker (render s).toList = some ([], inner s ++ endMarker) := by
    have hbefore : ¬startMarker <:+: [] := by simp [startMarker_ne_nil]
    rw [toList_render]
    exact Text.breakOn?_append unbordered_startMarker startMarker_ne_nil hbefore
  have hend : Text.breakOn? endMarker (inner s ++ endMarker) = some (inner s, []) := by
    have hcut : Text.breakOn? endMarker (inner s ++ (endMarker ++ [])) = some (inner s, []) :=
      Text.breakOn?_append unbordered_endMarker endMarker_ne_nil hinner
    rwa [List.append_nil] at hcut
  simp only [body?, hstart, hend, Option.bind_eq_bind, Option.bind_some, trim_inner]
  rfl

end Block

/-- Commands cannot bring a marker into the state. Whatever the messages of a story say, and whenever its state is
stored and loaded again, no text of the state that it leads to holds a closing bracket; the block of the state has each
marker once, and what is read in it is the state as it is written. -/
theorem Block.marked_once (story : List Scene) :
    (∀ t ∈ (State.after story).texts, '>' ∉ t.toList) ∧
      Text.OccursOnce startMarker (render (State.after story)).toList ∧
      Text.OccursOnce endMarker (render (State.after story)).toList ∧
      body? (render (State.after story)) = some (State.after story).toJson.pretty := by
  have h := State.obeys_without_iff.mp (State.unclosed_after story).obeys
  exact ⟨h, occursOnce_startMarker h, occursOnce_endMarker h, body?_render h⟩

end Chronicle
