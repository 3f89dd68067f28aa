import Chronicle.Proofs.Blanks
import Chronicle.Proofs.Occurrence
import Chronicle.State.Block

/-!
# Blocks in a text

Where the first block of a text is read, what stripping leaves, and what becomes of a narrative in
which a block is embedded. Reading takes the end marker next to the first start marker and stripping the
last one, so the two agree only while no start marker is left over. No block is left by stripping.
-/

namespace Chronicle.Block

theorem startMarker_ne_nil : startMarker ≠ [] := by decide

theorem endMarker_ne_nil : endMarker ≠ [] := by decide

theorem unbordered_startMarker : Text.Unbordered startMarker := by decide

theorem unbordered_endMarker : Text.Unbordered endMarker := by decide

theorem newline_notMem_startMarker : '\n' ∉ startMarker := by decide

/-- What stands between the markers of a block. -/
def inner (s : State) : List Char := '\n' :: (s.toJson.prettyChars 0 ++ ['\n'])

theorem toList_render (s : State) : (render s).toList = startMarker ++ (inner s ++ endMarker) := by
  simp [render, inner]

theorem toList_embed (text : String) (s : State) : (embed text s).toList =
    (Text.trim (strip text).toList ++ ['\n', '\n']) ++ (startMarker ++ (inner s ++ endMarker)) := by
  simp [embed, toList_render]

theorem parse?_append_left {before rest : List Char} (h : ¬startMarker <:+: before) :
    parse? (.ofList (before ++ (startMarker ++ rest))) = parse? (.ofList (startMarker ++ rest)) := by
  unfold parse?
  rw [String.toList_ofList, String.toList_ofList,
    Text.breakOn?_append unbordered_startMarker startMarker_ne_nil h]
  have h0 : ¬startMarker <:+: [] := by simp [startMarker_ne_nil]
  have he : Text.breakOn? startMarker (startMarker ++ rest) = some ([], rest) :=
    Text.breakOn?_append unbordered_startMarker startMarker_ne_nil h0
  rw [he]
  rfl

theorem parse?_block {before body : List Char} (hb : ¬startMarker <:+: before)
    (he : ¬endMarker <:+: body) (after : List Char) :
    parse? (.ofList (before ++ (startMarker ++ (body ++ (endMarker ++ after))))) =
      State.parse? (.ofList (Text.trim body)) := by
  unfold parse?
  rw [String.toList_ofList, Text.breakOn?_append unbordered_startMarker startMarker_ne_nil hb]
  simp only [Option.bind_eq_bind, Option.bind_some]
  rw [Text.breakOn?_append unbordered_endMarker endMarker_ne_nil he]
  rfl

/-- The text has a start marker, and an end marker after it. -/
def HasBlock (text : String) : Prop :=
  ∃ before body after, text.toList = before ++ (startMarker ++ (body ++ (endMarker ++ after)))

theorem HasBlock.infix_startMarker {text : String} (h : HasBlock text) : startMarker <:+: text.toList := by
  obtain ⟨before, body, after, htext⟩ := h
  exact ⟨before, body ++ (endMarker ++ after), by rw [htext, List.append_assoc]⟩

theorem HasBlock.infix_endMarker {text : String} (h : HasBlock text) : endMarker <:+: text.toList := by
  obtain ⟨before, body, after, htext⟩ := h
  exact ⟨before ++ (startMarker ++ body), after, by rw [htext]; simp⟩

theorem hasBlock_of_parse? {text : String} {s : State} (h : parse? text = some s) : HasBlock text := by
  unfold parse? at h
  obtain ⟨⟨before, rest⟩, hstart, h⟩ := Option.bind_eq_some_iff.mp h
  obtain ⟨⟨body, after⟩, hend, -⟩ := Option.bind_eq_some_iff.mp h
  have htext := ((Text.breakOn?_eq_some_iff startMarker_ne_nil).mp hstart).1
  have hrest := ((Text.breakOn?_eq_some_iff endMarker_ne_nil).mp hend).1
  exact ⟨before, body, after, by rw [htext, hrest]⟩

theorem strip_eq_self_of_not_hasBlock {text : String} (h : ¬HasBlock text) : strip text = text := by
  unfold strip
  cases hs : Text.breakOn? startMarker text.toList with
  | none => rfl
  | some cut =>
    obtain ⟨before, rest⟩ := cut
    cases he : Text.breakOnLast? endMarker rest with
    | none => simp only [he]
    | some cut =>
      obtain ⟨body, after⟩ := cut
      have htext := ((Text.breakOn?_eq_some_iff startMarker_ne_nil).mp hs).1
      have hrest := ((Text.breakOnLast?_eq_some_iff endMarker_ne_nil).mp he).1
      exact absurd ⟨before, body, after, by rw [htext, hrest]⟩ h

theorem strip_eq_self {text : String} (h : ¬startMarker <:+: text.toList) : strip text = text :=
  strip_eq_self_of_not_hasBlock fun hb => h hb.infix_startMarker

theorem strip_eq_self_of_unclosed {text : String} (h : ¬endMarker <:+: text.toList) : strip text = text :=
  strip_eq_self_of_not_hasBlock fun hb => h hb.infix_endMarker

theorem strip_block (body : List Char) {before after : List Char} (hb : ¬startMarker <:+: before)
    (ha : ¬endMarker <:+: after) :
    strip (.ofList (before ++ (startMarker ++ (body ++ (endMarker ++ after))))) = .ofList (before ++ after) := by
  unfold strip
  rw [String.toList_ofList, Text.breakOn?_append unbordered_startMarker startMarker_ne_nil hb]
  simp only
  rw [Text.breakOnLast?_append unbordered_endMarker endMarker_ne_nil ha]

theorem isBlank_lineBreaks : ∀ c ∈ ['\n', '\n'], Text.isBlank c = true := by
  intro c hc
  obtain rfl : c = '\n' := by simpa using hc
  decide

theorem isBlank_of_mem_startMarker : ∀ c ∈ startMarker, Text.isBlank c = false := by
  intro c hc
  have hall : startMarker.all (fun c => !Text.isBlank c) = true := by decide
  simpa using List.all_eq_true.mp hall c hc

theorem not_infix_narrative {text : List Char} (h : ¬startMarker <:+: text) :
    ¬startMarker <:+: Text.trim text ++ ['\n', '\n'] := by
  rw [Text.infix_append_cons_iff newline_notMem_startMarker, not_or]
  exact ⟨fun hin => h (hin.trans (Text.trim_infix text)), by decide⟩

theorem parse?_embed {text : String} (s : State) (h : ¬startMarker <:+: (strip text).toList) :
    parse? (embed text s) = parse? (render s) := by
  rw [← String.ofList_toList (s := embed text s), toList_embed, parse?_append_left (not_infix_narrative h),
    ← toList_render, String.ofList_toList]

theorem strip_embed {text : String} (s : State) (h : ¬startMarker <:+: (strip text).toList) :
    strip (embed text s) = .ofList (Text.trim (strip text).toList ++ ['\n', '\n']) := by
  have he : ¬endMarker <:+: [] := by simp [endMarker_ne_nil]
  have hs := strip_block (inner s) (not_infix_narrative h) he
  rwa [List.append_nil, List.append_nil, ← toList_embed, String.ofList_toList] at hs

/-- A start marker that stripping has left is found before the one of the embedded block, and the next
stripping takes the narrative after it away. -/
theorem strip_embed_of_infix {text : String} (s : State) (h : startMarker <:+: (strip text).toList) :
    ∃ before after, Text.trim (strip text).toList = before ++ (startMarker ++ after) ∧
      ¬startMarker <:+: before ∧ strip (embed text s) = .ofList before := by
  have hin : startMarker <:+: Text.trim (strip text).toList :=
    Text.infix_trim startMarker_ne_nil isBlank_of_mem_startMarker h
  cases hb : Text.breakOn? startMarker (Text.trim (strip text).toList) with
  | none => exact absurd hin (Text.breakOn?_eq_none_iff.mp hb)
  | some cut =>
    obtain ⟨before, after⟩ := cut
    obtain ⟨ht, hn⟩ := (Text.breakOn?_eq_some_iff startMarker_ne_nil).mp hb
    have hn : ¬startMarker <:+: before := fun hi => hn (hi.trans (List.prefix_append _ _).isInfix)
    refine ⟨before, after, ht, hn, ?_⟩
    have he : ¬endMarker <:+: [] := by simp [endMarker_ne_nil]
    have hs := strip_block (after ++ ('\n' :: '\n' :: (startMarker ++ inner s))) hn he
    have hl : (embed text s).toList = before ++ (startMarker ++
        ((after ++ ('\n' :: '\n' :: (startMarker ++ inner s))) ++ (endMarker ++ []))) := by
      rw [toList_embed, ht]
      simp only [List.append_assoc, List.cons_append, List.nil_append, List.append_nil]
    rw [← hl, String.ofList_toList, List.append_nil] at hs
    exact hs

theorem trim_strip_embed_ne {text : String} (s : State) (h : startMarker <:+: (strip text).toList) :
    Text.trim (strip (embed text s)).toList ≠ Text.trim (strip text).toList := by
  obtain ⟨before, after, ht, hn, he⟩ := strip_embed_of_infix s h
  intro htrim
  rw [he, ht, String.toList_ofList] at htrim
  have hin : startMarker <:+: Text.trim before := by
    rw [htrim]
    exact ⟨before, after, by simp⟩
  exact hn (hin.trans (Text.trim_infix before))

theorem hasBlock_embed (text : String) (s : State) : HasBlock (embed text s) :=
  ⟨_, inner s, [], by rw [toList_embed, List.append_nil]⟩

/-- A start marker of the stripped text ends after the cut, and no end marker has been left there. -/
theorem not_hasBlock_strip (text : String) : ¬HasBlock (strip text) := by
  unfold strip
  cases hs : Text.breakOn? startMarker text.toList with
  | none => exact fun hb => Text.breakOn?_eq_none_iff.mp hs hb.infix_startMarker
  | some cut =>
    obtain ⟨before, rest⟩ := cut
    have hfirst := ((Text.breakOn?_eq_some_iff startMarker_ne_nil).mp hs).2
    cases he : Text.breakOnLast? endMarker rest with
    | none =>
      simp only [he]
      rintro ⟨b, body, a, htext⟩
      obtain ⟨mid, rfl⟩ := Text.exists_of_breakOn? startMarker_ne_nil hs htext
      exact Text.breakOnLast?_eq_none_iff.mp he ⟨mid ++ body, a, by simp⟩
    | some cut =>
      obtain ⟨inside, after⟩ := cut
      have hlast := ((Text.breakOnLast?_eq_some_iff endMarker_ne_nil).mp he).2
      simp only [he]
      rintro ⟨b, body, a, htext⟩
      rw [String.toList_ofList] at htext
      have hbefore : ¬startMarker <:+: before := fun hin => hfirst (hin.trans (List.prefix_append _ _).isInfix)
      obtain ⟨mid, -, rfl⟩ := Text.exists_of_append_eq hbefore htext
      exact hlast ⟨endMarker.tail ++ (mid ++ body), a, by simp⟩

/-- Stripping leaves no block: nothing is read from the stripped text, no start marker in it has an end marker after
it, and stripping it again changes nothing. Only a text with a block is changed. -/
theorem strip_removes_blocks (text : String) : parse? (strip text) = none ∧ ¬HasBlock (strip text) ∧
    strip (strip text) = strip text ∧ (strip text = text ↔ ¬HasBlock text) := by
  have hnone := not_hasBlock_strip text
  refine ⟨?_, hnone, strip_eq_self_of_not_hasBlock hnone, ?_⟩
  · cases hp : parse? (strip text) with
    | none => rfl
    | some s => exact absurd (hasBlock_of_parse? hp) hnone
  · constructor
    · exact fun he => he ▸ hnone
    · exact strip_eq_self_of_not_hasBlock

end Chronicle.Block
