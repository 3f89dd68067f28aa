import Chronicle.Proofs.BlockText
import Chronicle.Proofs.HiddenMarkers
import Chronicle.Proofs.JsonRoundTrip
import Chronicle.Proofs.Timestamps

/-!
# States as they are written

A well-formed state is found again in its variable store, and its block is read from any text that has no
start marker in front of it. What cannot be written down is left out of `Legible`: an end marker inside a
text, a container nested too deeply, a year without four digits, a number that reads as another one.
-/

namespace Chronicle

def Target.WellFormed : Target → Prop
  | .round n => -twoTo 63 ≤ n ∧ n < twoTo 63
  | .gameTime t => t.IsValid

instance : (t : Target) → Decidable t.WellFormed
  | .round _ => inferInstanceAs (Decidable (_ ∧ _))
  | .gameTime t => inferInstanceAs (Decidable t.IsValid)

structure ScheduledWrite.WellFormed (w : ScheduledWrite) : Prop where
  value : w.value.Sorted
  target : w.target.WellFormed

/-- The objects in the state keep their keys in order, and its targets are well formed. -/
structure State.WellFormed (s : State) : Prop where
  vars : (Json.obj s.vars).Sorted
  schedule : ∀ w ∈ s.schedule, w.WellFormed

def Target.Legible : Target → Prop
  | .round _ => True
  | .gameTime t => 0 ≤ t.toCivil.date.year ∧ t.toCivil.date.year ≤ 9999

instance : (t : Target) → Decidable t.Legible
  | .round _ => inferInstanceAs (Decidable True)
  | .gameTime _ => inferInstanceAs (Decidable (_ ∧ _))

namespace State

def values (s : State) : List Json := .obj s.vars :: s.schedule.map (·.value)

def texts (s : State) : List String :=
  s.values.flatMap (·.texts) ++ s.schedule.flatMap (fun w => [w.name, w.reason]) ++ s.summaries

/-- A state that can be read from a block: no text of it ends the block, its JSON nests at most `depth`
levels, its instants have years of four digits, and its numbers read back as they are written. -/
structure Legible (depth : Nat) (s : State) : Prop where
  texts : ∀ t ∈ s.texts, ¬Block.endMarker <:+: t.toList
  depth : s.toJson.depth ≤ depth
  years : ∀ w ∈ s.schedule, w.target.Legible
  numbers : ∀ v ∈ s.values, ∀ n ∈ v.numbers, n.ReadsBack

theorem Legible.mono {s : State} {d e : Nat} (h : s.Legible d) (hd : d ≤ e) : s.Legible e :=
  ⟨h.texts, Nat.le_trans h.depth hd, h.years, h.numbers⟩

end State

theorem saturate_eq_self {n : Int} (hl : -twoTo 63 ≤ n) (hu : n < twoTo 63) : saturate n = n := by
  unfold saturate
  omega

theorem saturate_bounds (n : Int) : -twoTo 63 ≤ saturate n ∧ saturate n < twoTo 63 := by
  have hpos : 0 < twoTo 63 := by decide
  unfold saturate
  omega

theorem Target.ofJson_toJson {t : Target} (h : t.WellFormed) (hy : t.Legible) :
    Target.ofJson t.isGameTime t.toJson = .ok t := by
  cases t with
  | round n =>
    have hs : saturate n = n := saturate_eq_self h.1 h.2
    simp [isGameTime, toJson, ofJson, Json.ofInt, hs]
  | gameTime t =>
    have ht : Instant.ofText? (.ofList t.render) = some t := Instant.ofText?_render h hy.1 hy.2
    simp [isGameTime, toJson, ofJson, ht]

theorem ScheduledWrite.ofJson_toJson {w : ScheduledWrite} (h : w.target.WellFormed) (hy : w.target.Legible) :
    ScheduledWrite.ofJson w.toJson = .ok w := by
  have ht := Target.ofJson_toJson h hy
  rw [ScheduledWrite.toJson, ScheduledWrite.ofJson, ofItems]
  simp only [ht, itemText, reasonText]
  rfl

/-- The record of an object whose keys can all be read: its known fields, if none of them is there twice. -/
theorem Document.record?_named (names : List String) (fields : List (String × Document)) :
    record? names (.obj (fields.map fun f => (some f.1, f.2))) =
      let known := fields.filter fun f => names.contains f.1
      if (known.map (·.1)).Nodup then some known else none := by
  have hread : record? names (.obj (fields.map fun f => (some f.1, f.2))) =
      ((fields.map fun f => (some f.1, f.2)).mapM fun p : Option String × Document => p.1.map (·, p.2)).bind
        fun l => (guard ((l.filter fun f => names.contains f.1).map (·.1)).Nodup : Option Unit).bind fun _ =>
          some (l.filter fun f => names.contains f.1) := rfl
  have hkeys : ((fields.map fun f => (some f.1, f.2)).mapM fun p : Option String × Document => p.1.map (·, p.2)) =
      some fields := by
    clear hread
    induction fields with
    | nil => rfl
    | cons f fields ih =>
      rw [List.map_cons, List.mapM_cons, ih]
      rfl
  have hguard (p : Prop) [Decidable p] : (guard p : Option Unit) = if p then some () else none := rfl
  rw [hread, hkeys, Option.bind_some, hguard]
  by_cases hn : ((fields.filter fun f => names.contains f.1).map (·.1)).Nodup
  · simp only [hn, if_true]
    rfl
  · simp only [hn, if_false]
    rfl

/-- A record is read from an object with some of its fields, each of them once. -/
theorem Document.record?_obj (read : Json → Document) {names : List String} {fields : Object}
    (hk : ∀ f ∈ fields, names.contains f.1 = true) (hn : (fields.map (·.1)).Nodup) :
    record? names (.obj (fields.map fun f => (some f.1, read f.2))) = some (fields.map fun f => (f.1, read f.2)) := by
  have hfilter : (fields.map fun f => (f.1, read f.2)).filter (fun f => names.contains f.1) =
      fields.map fun f => (f.1, read f.2) := by
    apply List.filter_eq_self.mpr
    intro g hg
    obtain ⟨f, hf, rfl⟩ := List.mem_map.mp hg
    exact hk f hf
  have hread := record?_named names (fields.map fun f => (f.1, read f.2))
  simp only [List.map_map, hfilter] at hread
  exact hread.trans (if_pos hn)

theorem Document.record?_toDocument {names : List String} {fields : Object}
    (hk : ∀ f ∈ fields, names.contains f.1 = true) (hn : (fields.map (·.1)).Nodup) :
    record? names (Json.obj fields).toDocument = some (fields.map fun f => (f.1, f.2.toDocument)) := by
  rw [Json.toDocument, Json.fieldsToDocument_eq_map, record?_obj _ hk hn]

namespace State

variable {s : State}

theorem scheduleOf_toJson (h : ∀ w ∈ s.schedule, w.WellFormed) (hy : ∀ w ∈ s.schedule, w.target.Legible) :
    scheduleOf (.arr (s.schedule.map (·.toJson))) = s.schedule := by
  rw [scheduleOf, List.filterMap_map]
  generalize s.schedule = schedule at h hy
  induction schedule with
  | nil => rfl
  | cons w schedule ih =>
    have hrest := ih (fun v hv => h v (List.mem_cons_of_mem w hv)) (fun v hv => hy v (List.mem_cons_of_mem w hv))
    have hw : ((fun v => (ScheduledWrite.ofJson v).toOption) ∘ (·.toJson)) w = some w := by
      rw [Function.comp, ScheduledWrite.ofJson_toJson (h w List.mem_cons_self).target (hy w List.mem_cons_self)]
      rfl
    rw [List.filterMap_cons_some hw, hrest]

theorem sorted_target (t : Target) : t.toJson.Sorted := by
  cases t with
  | round n => exact Json.sorted_num _
  | gameTime t => exact Json.sorted_str _

theorem sorted_write {w : ScheduledWrite} (h : w.WellFormed) : w.toJson.Sorted := by
  rw [ScheduledWrite.toJson, Json.sorted_arr]
  simp [h.value, sorted_target]

theorem sorted_schedule (h : s.WellFormed) : (Json.arr (s.schedule.map (·.toJson))).Sorted := by
  rw [Json.sorted_arr]
  intro v hv
  obtain ⟨w, hw, rfl⟩ := List.mem_map.mp hv
  exact sorted_write (h.schedule w hw)

theorem asList?_ofStrings (l : List String) :
    Document.asList? Document.asString? (Json.ofStrings l).toDocument = some l := by
  rw [Json.ofStrings, Json.toDocument, Document.asList?]
  induction l with
  | nil => rfl
  | cons t l ih =>
    rw [List.map_cons, Json.itemsToDocument, List.mapM_cons, ih]
    rfl

theorem ofFields (hw : s.WellFormed) {schedule : List ScheduledWrite}
    (hs : scheduleOf (.arr (s.schedule.map (·.toJson))) = schedule) {d : Document} (fields : List (String × Document))
    (hf : d.record? ["static", "volatile", "responseSummary"] = some fields)
    (hstatic : fields.lookup "static" = some (Json.obj s.vars).toDocument)
    (hvolatile : fields.lookup "volatile" = some (Json.arr (s.schedule.map (·.toJson))).toDocument)
    (hsummary : fields.lookup "responseSummary" = some (Json.ofStrings s.summaries).toDocument) :
    ofDocument? d = some { s with schedule } := by
  have hvars : Document.asObject? (Json.obj s.vars).toDocument = some s.vars := by
    rw [Document.asObject?, Document.toJson?_toDocument hw.vars]
  have hsched : ((Json.arr (s.schedule.map (·.toJson))).toDocument.toJson?.map scheduleOf) = some schedule := by
    rw [Document.toJson?_toDocument (sorted_schedule hw), Option.map_some, hs]
  simp only [ofDocument?, hf, Option.bind_eq_bind, Option.bind_some, Document.optional, hstatic, hvolatile,
    hsummary, hvars, hsched, asList?_ofStrings]
  rfl

theorem ofDocument?_toJson (hw : s.WellFormed) (hy : ∀ w ∈ s.schedule, w.target.Legible) :
    ofDocument? s.toJson.toDocument = some s := by
  refine ofFields hw (scheduleOf_toJson hw.schedule hy) [("static", (Json.obj s.vars).toDocument),
    ("volatile", (Json.arr (s.schedule.map (·.toJson))).toDocument),
    ("responseSummary", (Json.ofStrings s.summaries).toDocument)] ?_ ?_ ?_ ?_
  · exact Document.record?_toDocument (by simp) (by simp)
  · simp
  · simp [List.lookup_cons]
  · simp [List.lookup_cons]

/-- From its variable store a well-formed state is read with the scheduled writes that can be read. -/
theorem ofStored?_of_scheduleOf (hw : s.WellFormed) {schedule : List ScheduledWrite}
    (hs : scheduleOf (.arr (s.schedule.map (·.toJson))) = schedule) :
    ofStored? s.toStored = some { s with schedule } := by
  refine ofFields hw hs [("responseSummary", (Json.ofStrings s.summaries).toDocument),
    ("static", (Json.obj s.vars).toDocument),
    ("volatile", (Json.arr (s.schedule.map (·.toJson))).toDocument)] ?_ ?_ ?_ ?_
  · exact Document.record?_toDocument (by simp) (by simp)
  · simp [List.lookup_cons]
  · simp [List.lookup_cons]
  · simp

/-- A well-formed state is found again in its variable store. -/
theorem ofStored?_toStored (hw : s.WellFormed) (hy : ∀ w ∈ s.schedule, w.target.Legible) :
    ofStored? s.toStored = some s :=
  ofStored?_of_scheduleOf hw (scheduleOf_toJson hw.schedule hy)

theorem mem_values {w : ScheduledWrite} (h : w ∈ s.schedule) : w.value ∈ s.values :=
  List.mem_cons_of_mem _ (List.mem_map_of_mem h)

theorem readsBack_of_mem_numbers (hw : s.WellFormed) (hn : ∀ v ∈ s.values, ∀ n ∈ v.numbers, n.ReadsBack) :
    ∀ n ∈ s.toJson.numbers, n.ReadsBack := by
  intro n hm
  simp only [toJson, Json.mem_numbers_obj, List.mem_cons, List.not_mem_nil, or_false, exists_eq_or_imp,
    exists_eq_left] at hm
  rcases hm with hm | hm | hm
  · exact hn _ List.mem_cons_self n (Json.mem_numbers_obj.mpr hm)
  · obtain ⟨_, hv, hm⟩ := Json.mem_numbers_arr.mp hm
    obtain ⟨w, hws, rfl⟩ := List.mem_map.mp hv
    simp only [ScheduledWrite.toJson, Json.mem_numbers_arr, List.mem_cons, List.not_mem_nil, or_false,
      exists_eq_or_imp, exists_eq_left, Json.numbers_str, Json.numbers_bool, false_or] at hm
    rcases hm with hm | hm
    · exact hn _ (mem_values hws) n hm
    · have ht := (hw.schedule w hws).target
      cases htarget : w.target with
      | gameTime t =>
        rw [htarget] at hm
        simp [Target.toJson] at hm
      | round k =>
        rw [htarget] at hm ht
        obtain rfl : n = .int k := Json.mem_numbers_num.mp hm
        have hlt : (twoTo 63 : Int) < twoTo 64 := by decide
        exact Num.readsBack_int ht.1 (Int.lt_trans ht.2 hlt)
  · obtain ⟨_, hv, hm⟩ := Json.mem_numbers_arr.mp hm
    obtain ⟨t, -, rfl⟩ := List.mem_map.mp hv
    simp at hm

/-- The texts of the written state: its own ones, the field names, and its instants. -/
theorem mem_texts_toJson {t : String} (h : t ∈ s.toJson.texts) : t ∈ s.texts ∨
    t ∈ ["static", "volatile", "responseSummary"] ∨ ∃ i : Instant, t = .ofList i.render := by
  have hvalue : ∀ v ∈ s.values, t ∈ v.texts → t ∈ s.texts := fun v hv hm =>
    List.mem_append_left _ (List.mem_append_left _ (List.mem_flatMap.mpr ⟨v, hv, hm⟩))
  simp only [toJson, Json.mem_texts_obj, List.mem_cons, List.not_mem_nil, or_false, exists_eq_or_imp,
    exists_eq_left] at h
  rcases h with (rfl | hm) | (rfl | hm) | (rfl | hm)
  · exact Or.inr (Or.inl (by simp))
  · exact Or.inl (hvalue _ List.mem_cons_self (Json.mem_texts_obj.mpr hm))
  · exact Or.inr (Or.inl (by simp))
  · obtain ⟨_, hv, hm⟩ := Json.mem_texts_arr.mp hm
    obtain ⟨w, hws, rfl⟩ := List.mem_map.mp hv
    have hown : t ∈ [w.name, w.reason] → t ∈ s.texts := fun hm =>
      List.mem_append_left _ (List.mem_append_right _ (List.mem_flatMap.mpr ⟨w, hws, hm⟩))
    simp only [ScheduledWrite.toJson, Json.mem_texts_arr, List.mem_cons, List.not_mem_nil, or_false,
      exists_eq_or_imp, exists_eq_left, Json.mem_texts_str, Json.texts_bool, false_or] at hm
    rcases hm with rfl | hm | hm | rfl
    · exact Or.inl (hown (by simp))
    · exact Or.inl (hvalue _ (mem_values hws) hm)
    · cases htarget : w.target with
      | round k =>
        rw [htarget] at hm
        simp [Target.toJson, Json.ofInt] at hm
      | gameTime i =>
        rw [htarget] at hm
        exact Or.inr (Or.inr ⟨i, Json.mem_texts_str.mp hm⟩)
    · exact Or.inl (hown (by simp))
  · exact Or.inr (Or.inl (by simp))
  · obtain ⟨_, hv, hm⟩ := Json.mem_texts_arr.mp hm
    obtain ⟨r, hr, rfl⟩ := List.mem_map.mp hv
    obtain rfl : t = r := Json.mem_texts_str.mp hm
    exact Or.inl (List.mem_append_right _ hr)

/-- No text of the written state holds a marker if none of its own texts does: it is in no field name and no instant
that is written with them. -/
theorem not_infix_of_mem_texts {pat : List Char} (hp : Text.Bracketed pat) (ht : ∀ t ∈ s.texts, ¬pat <:+: t.toList) :
    ∀ t ∈ s.toJson.texts, ¬pat <:+: t.toList := by
  intro t hm
  rcases mem_texts_toJson hm with hm | hm | ⟨i, rfl⟩
  · exact ht t hm
  · have hnames : ∀ name ∈ ["static", "volatile", "responseSummary"], Text.Unbracketed name.toList := by decide
    exact hp.not_infix (hnames t hm)
  · rw [String.toList_ofList]
    refine hp.not_infix fun c hc hbracket => ?_
    simp only [List.mem_cons, List.not_mem_nil, or_false] at hbracket
    rcases hbracket with rfl | rfl <;> exact absurd (Instant.mem_render hc) (by decide)

theorem parse?_pretty (hw : s.WellFormed) (hl : s.Legible 127) : State.parse? s.toJson.pretty = some s := by
  rw [parse?, Document.ofString?_pretty (readsBack_of_mem_numbers hw hl.numbers) hl.depth, Option.bind_some,
    ofDocument?_toJson hw hl.years]

end State

namespace Block

variable {s : State}

theorem pretty_eq_append (s : State) : ∃ body, s.toJson.prettyChars 0 = '{' :: (body ++ ['}']) := by
  simp only [State.toJson, Json.prettyChars, ← List.append_assoc]
  exact ⟨_, rfl⟩

theorem trim_inner (s : State) : Text.trim (inner s) = s.toJson.prettyChars 0 := by
  have hbreak : ∀ c ∈ ['\n'], Text.isBlank c = true := List.forall_mem_singleton.mpr (by decide)
  have h := Text.trim_append hbreak hbreak (s.toJson.prettyChars 0)
  rw [List.singleton_append] at h
  obtain ⟨body, hbody⟩ := pretty_eq_append s
  rw [inner, h, hbody]
  apply Text.trim_eq_self
  · intro c hc
    rw [← Option.some.inj hc]
    decide
  · intro c hc
    rw [← List.cons_append, List.getLast?_concat] at hc
    rw [← Option.some.inj hc]
    decide

theorem not_infix_inner {pat : List Char} (hp : Text.Bracketed pat) (ht : ∀ t ∈ s.texts, ¬pat <:+: t.toList) :
    ¬pat <:+: inner s := by
  intro h
  rcases hp.infix_append_cons (by decide) (hp.of_cons (by decide) h) with h | h
  · obtain ⟨t, hm, h⟩ := Json.infix_of_pretty hp h
    exact State.not_infix_of_mem_texts hp ht t hm h
  · exact absurd h (hp.not_infix (by decide))

theorem parse?_append_render (hw : s.WellFormed) (hl : s.Legible 127) {before : List Char}
    (hb : ¬startMarker <:+: before) (after : List Char) :
    parse? (.ofList (before ++ ((render s).toList ++ after))) = some s := by
  rw [toList_render, List.append_assoc, List.append_assoc, parse?_block hb (not_infix_inner bracketed_endMarker hl.texts),
    trim_inner]
  exact State.parse?_pretty hw hl

theorem parse?_render (hw : s.WellFormed) (hl : s.Legible 127) : parse? (render s) = some s := by
  have hb : ¬startMarker <:+: [] := by simp [startMarker_ne_nil]
  have h := parse?_append_render hw hl hb []
  rwa [List.nil_append, List.append_nil, String.ofList_toList] at h

/-- The block of a state is read from any text that has no start marker in front of it, whatever stands
after it. -/
theorem parse?_context (s : State) (hw : s.WellFormed) (hl : s.Legible 127) (before after : String)
    (hb : ¬startMarker <:+: before.toList) : parse? (before ++ render s ++ after) = some s := by
  have h := parse?_append_render hw hl hb after.toList
  rwa [← List.append_assoc, ← String.toList_append, ← String.toList_append, String.ofList_toList] at h

/-- A block that reads back is the one that is read from a text in which it is embedded, and the next
stripping gives the narrative back, exactly when stripping leaves no start marker in the text. -/
theorem embed_faithful_iff (text : String) (s : State) (hs : parse? (render s) = some s) :
    parse? (embed text s) = some s ∧
        Text.trim (strip (embed text s)).toList = Text.trim (strip text).toList ↔
      ¬startMarker <:+: (strip text).toList := by
  constructor
  · rintro ⟨-, htrim⟩ h
    exact trim_strip_embed_ne s h htrim
  · intro h
    refine ⟨by rw [parse?_embed s h, hs], ?_⟩
    rw [strip_embed s h, String.toList_ofList, Text.trim_append_right isBlank_lineBreaks, Text.trim_trim]

end Block

def State.newYear : State where
  vars := [("hp", .num (.int 7))]
  schedule := [⟨"gate.open", .bool true, .gameTime ⟨1704067200, 0⟩, "the bells"⟩]
  summaries := ["they rested"]

theorem State.wellFormed_newYear : newYear.WellFormed where
  vars := by simp [newYear, Object.Ascending]
  schedule := by
    intro w hw
    rw [List.mem_singleton.mp hw]
    exact ⟨Json.sorted_bool true, by decide⟩

theorem State.legible_newYear : newYear.Legible 126 where
  texts := by
    have ht : newYear.texts = ["hp", "gate.open", "the bells", "they rested"] := rfl
    intro t hm
    apply Block.not_infix_of_notMem
    rw [ht] at hm
    simp only [List.mem_cons, List.not_mem_nil, or_false] at hm
    rcases hm with rfl | rfl | rfl | rfl <;> simp
  depth := by decide
  years := by
    intro w hw
    rw [List.mem_singleton.mp hw]
    decide
  numbers := by
    intro v hv n hn
    simp only [State.values, newYear, List.map_cons, List.map_nil, List.mem_cons, List.not_mem_nil, or_false] at hv
    rcases hv with rfl | rfl
    · simp only [Json.mem_numbers_obj, List.mem_singleton, exists_eq_left, Json.mem_numbers_num] at hn
      rw [hn]
      exact Num.readsBack_int (by decide) (by decide)
    · simp at hn

theorem Block.parse?_context_newYear : State.newYear.WellFormed ∧ State.newYear.Legible 127 ∧
    ¬startMarker <:+: "Dusk. </|state|>--> ".toList ∧
    parse? ("Dusk. </|state|>--> " ++ render State.newYear ++ " <!--<|state|>") = some State.newYear :=
  have hb : ¬startMarker <:+: "Dusk. </|state|>--> ".toList := Text.not_infix_of_notMem (c := '!') (by decide) (by simp)
  ⟨State.wellFormed_newYear, State.legible_newYear.mono (by decide), hb,
    parse?_context _ State.wellFormed_newYear (State.legible_newYear.mono (by decide)) _ _ hb⟩

theorem Block.embed_faithful_newYear : parse? (render State.newYear) = some State.newYear ∧
    (parse? (embed "The road forks." State.newYear) = some State.newYear ∧
      Text.trim (strip (embed "The road forks." State.newYear)).toList = Text.trim (strip "The road forks.").toList) :=
  have hs := parse?_render State.wellFormed_newYear (State.legible_newYear.mono (by decide))
  have hn : ¬startMarker <:+: "The road forks.".toList := Text.not_infix_of_notMem (c := '!') (by decide) (by simp)
  ⟨hs, (embed_faithful_iff _ State.newYear hs).mpr (by rwa [strip_eq_self hn])⟩

/-- A start marker without an end stays in the narrative and hides the block after it. -/
theorem Block.embed_unfaithful : parse? (render State.newYear) = some State.newYear ∧
    parse? (embed "The road forks. <!--<|state|> Left it is." State.newYear) = none ∧
    Text.trim (strip (embed "The road forks. <!--<|state|> Left it is." State.newYear)).toList ≠
      Text.trim (strip "The road forks. <!--<|state|> Left it is.").toList := by
  have hl : State.newYear.Legible 127 := State.legible_newYear.mono (by decide)
  have htext : "The road forks. <!--<|state|> Left it is.".toList =
      "The road forks. ".toList ++ (startMarker ++ ' ' :: 'L' :: "eft it is.".toList) := by decide +kernel
  have hstrip : strip "The road forks. <!--<|state|> Left it is." = "The road forks. <!--<|state|> Left it is." :=
    strip_eq_self_of_unclosed (by decide +kernel)
  have hin : startMarker <:+: (strip "The road forks. <!--<|state|> Left it is.").toList := by
    rw [hstrip, htext]
    exact ⟨_, _, List.append_assoc _ _ _⟩
  refine ⟨parse?_render State.wellFormed_newYear hl, ?_, trim_strip_embed_ne State.newYear hin⟩
  have hbefore : ¬startMarker <:+: "The road forks. ".toList := by decide +kernel
  let body : List Char := ' ' :: 'L' :: ("eft it is.".toList ++ '\n' :: '\n' :: (startMarker ++ inner State.newYear))
  have hbody : ¬endMarker <:+: body := by
    intro h
    have hnarrative : ¬endMarker <:+: ' ' :: 'L' :: "eft it is.".toList := by decide +kernel
    have hstart : ¬endMarker <:+: startMarker := by decide +kernel
    rw [show body = (' ' :: 'L' :: "eft it is.".toList) ++ '\n' :: '\n' :: (startMarker ++ inner State.newYear) from rfl,
      Text.infix_append_cons_iff (by decide)] at h
    rcases h with h | h
    · exact hnarrative h
    · have h := bracketed_endMarker.of_cons (by decide) h
      rw [inner, Text.infix_append_cons_iff (by decide)] at h
      rcases h with h | h
      · exact hstart h
      · exact not_infix_inner bracketed_endMarker hl.texts (h.trans (List.suffix_cons _ _).isInfix)
  have hembed : (embed "The road forks. <!--<|state|> Left it is." State.newYear).toList =
      "The road forks. ".toList ++ (startMarker ++ (body ++ (endMarker ++ []))) := by
    have htrim : Text.trim "The road forks. <!--<|state|> Left it is.".toList =
        "The road forks. <!--<|state|> Left it is.".toList := by decide +kernel
    rw [toList_embed, hstrip, htrim, htext]
    simp only [body, List.append_assoc, List.cons_append, List.nil_append, List.append_nil]
  obtain ⟨rest, hrest⟩ : ∃ rest, Text.trim body = 'L' :: rest := Text.trim_cons (c := 'L') (by decide) _
  have hparse := parse?_block hbefore hbody []
  rw [← hembed, String.ofList_toList] at hparse
  rw [hparse, hrest, State.parse?, Document.ofString?, String.toList_ofList, Document.ofChars?,
    Document.value?_eq_none (by decide) (by decide)]
  rfl

end Chronicle
