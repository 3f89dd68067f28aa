import Chronicle.Controller.Turn
import Chronicle.Proofs.CommandInvariants
import Chronicle.Proofs.ParsedCommands
import Chronicle.Proofs.Snapshots
import Chronicle.Proofs.SortedValues

/-!
# States stay well formed

The states that are read from texts and from the variable store are well formed, and a turn keeps them
so: commands write values whose keys are in order, and schedule for rounds of 64 bits and valid instants.
-/

namespace Chronicle

namespace Command

/-- The value that the command writes keeps its keys in order. -/
def Sorted : Command → Prop
  | .set _ value | .timedSet _ value .. => value.Sorted
  | _ => True

theorem sorted_ofText (text : String) : (Json.ofText text).Sorted := by
  unfold Json.ofText
  split
  · exact Json.sorted_num _
  · exact Json.sorted_str _

theorem sorted_of_mem_parseAll {text : String} {c : Command} (h : c ∈ parseAll text) : c.Sorted := by
  obtain ⟨t, -, hg⟩ := given_of_mem_parseAll h
  cases hg with
  | set => exact sorted_ofText _
  | timedSet => exact sorted_ofText _
  | add | responseSummary | cancelSet => trivial

end Command

theorem Target.wellFormed_of_ofJson {isGameTime : Bool} {raw : Json} {t : Target}
    (h : Target.ofJson isGameTime raw = .ok t) : t.WellFormed := by
  unfold Target.ofJson at h
  split at h
  · split at h
    · next text =>
      cases ht : Instant.ofText? text with
      | none => exact absurd h (by simp [ht])
      | some i =>
        rw [ht] at h
        rw [← Except.ok.inj h]
        exact Instant.isValid_of_ofText? ht
    · exact absurd h (by simp)
  · have hround : ∀ round? : Option Int,
        round?.elim (Except.error (EntryError.roundNotNumber raw)) (fun n => .ok (.round (saturate n))) = .ok t →
          t.WellFormed := by
      intro round? h
      cases round? with
      | none => exact absurd h (by simp)
      | some n =>
        rw [← Except.ok.inj h]
        exact saturate_bounds n
    exact hround _ h

theorem ScheduledWrite.wellFormed_of_ofItems {name value kind target reason : Json} (hv : value.Sorted)
    {w : ScheduledWrite} (h : ofItems name value kind target reason = .ok w) : w.WellFormed := by
  unfold ofItems at h
  split at h
  · next isGameTime =>
    obtain ⟨t, ht, h⟩ := exists_of_bind_ok h
    rw [← Except.ok.inj h]
    exact ⟨hv, Target.wellFormed_of_ofJson ht⟩
  · exact absurd h (by simp)

theorem ScheduledWrite.sorted_of_ofFields? {fields : Object} (hf : (Json.obj fields).Sorted)
    {name reason : String} {value target : Json} {isGameTime : Bool}
    (h : ofFields? fields = some (name, value, isGameTime, target, reason)) : value.Sorted := by
  have hvalue : value = (Object.get? "value" fields).getD .null := by
    simp only [ofFields?, Option.bind_eq_bind, Option.pure_def] at h
    split at h
    · simp only [Option.bind_some] at h
      split at h
      all_goals simp [Option.bind_eq_some_iff] at h
      all_goals
        obtain ⟨_, -, h⟩ := h
        split at h
        all_goals simp at h
        all_goals exact h.2.1.symm
    · exact absurd h (by simp)
  rw [hvalue]
  exact Json.hereditary_sorted.getD_get? hf _

theorem ScheduledWrite.wellFormed_of_ofJson {v : Json} (hv : v.Sorted) {w : ScheduledWrite}
    (h : ScheduledWrite.ofJson v = .ok w) : w.WellFormed := by
  unfold ScheduledWrite.ofJson at h
  split at h
  · exact wellFormed_of_ofItems (Json.sorted_arr.mp hv _ (by simp)) h
  · exact wellFormed_of_ofItems (Json.sorted_arr.mp hv _ (by simp)) h
  · exact absurd h (by simp)
  · next fields =>
    cases hf : ofFields? fields with
    | none => exact absurd h (by simp [hf])
    | some parts =>
      obtain ⟨name, value, isGameTime, target, reason⟩ := parts
      rw [hf] at h
      obtain ⟨t, ht, h⟩ := exists_of_bind_ok h
      rw [← Except.ok.inj h]
      exact ⟨sorted_of_ofFields? hv hf, Target.wellFormed_of_ofJson ht⟩
  · exact absurd h (by simp)

namespace State

theorem wellFormed_initial : initial.WellFormed where
  vars := Json.sorted_obj_nil
  schedule := by simp [initial]

theorem wellFormed_of_mem_scheduleOf {v : Json} (hv : v.Sorted) : ∀ w ∈ scheduleOf v, w.WellFormed := by
  intro w hw
  unfold scheduleOf at hw
  split at hw
  · next items =>
    obtain ⟨u, hu, hw⟩ := List.mem_filterMap.mp hw
    cases hr : ScheduledWrite.ofJson u with
    | error e => exact absurd hw (by simp [hr, Except.toOption])
    | ok r =>
      rw [hr] at hw
      rw [← Option.some.inj hw]
      exact ScheduledWrite.wellFormed_of_ofJson (Json.sorted_arr.mp hv u hu) hr
  · exact absurd hw List.not_mem_nil

theorem wellFormed_of_ofDocument? {d : Document} {s : State} (h : ofDocument? d = some s) : s.WellFormed := by
  simp only [ofDocument?, Option.bind_eq_bind, Option.bind_eq_some_iff, Option.pure_def, Option.some.injEq] at h
  obtain ⟨fields, -, vars, hvars, schedule, hschedule, summaries, -, rfl⟩ := h
  constructor
  · unfold Document.optional at hvars
    split at hvars
    · next d _ =>
      unfold Document.asObject? at hvars
      split at hvars
      · next fields hfields =>
        rw [← Option.some.inj hvars]
        exact Document.sorted_of_toJson? hfields
      · exact absurd hvars (by simp)
    · exact Option.some.inj hvars ▸ Json.sorted_obj_nil
  · unfold Document.optional at hschedule
    split at hschedule
    · next d _ =>
      rw [Option.map_eq_some_iff] at hschedule
      obtain ⟨v, hv, rfl⟩ := hschedule
      exact wellFormed_of_mem_scheduleOf (Document.sorted_of_toJson? hv)
    · rw [← Option.some.inj hschedule]
      simp

theorem wellFormed_of_ofStored? {v : Json} {s : State} (h : ofStored? v = some s) : s.WellFormed :=
  wellFormed_of_ofDocument? h

/-- A variable store may hold anything, but what is read from it as a state is well formed. -/
theorem wellFormed_stored (v : Json) : ((ofStored? v).getD .initial).WellFormed := by
  cases hs : ofStored? v with
  | none => exact wellFormed_initial
  | some s => exact wellFormed_of_ofStored? hs

theorem wellFormed_of_parse? {text : String} {s : State} (h : Block.parse? text = some s) : s.WellFormed := by
  simp only [Block.parse?, Option.bind_eq_bind, Option.bind_eq_some_iff] at h
  obtain ⟨_, -, _, -, h⟩ := h
  obtain ⟨d, -, hd⟩ := Option.bind_eq_some_iff.mp h
  exact wellFormed_of_ofDocument? hd

theorem wellFormed_scheduleTarget {tick : Tick} {gameTime : Bool} {time : String} {t : Target}
    (h : scheduleTarget tick gameTime time = .ok t) : t.WellFormed := by
  unfold scheduleTarget at h
  split at h
  · cases ht : Instant.ofText? time with
    | none => exact absurd h (by simp [ht])
    | some i =>
      simp only [ht] at h
      rw [← Except.ok.inj h]
      exact Instant.isValid_of_ofText? ht
  · cases hn : Text.signedWord? (Text.trim time.toList) with
    | none => exact absurd h (by simp [hn])
    | some n =>
      simp only [hn] at h
      rw [← Except.ok.inj h]
      exact saturate_bounds _

/-- The policy of well-formed states: any text will do. -/
def wellFormedPolicy : Policy := ⟨fun _ => True, Json.Sorted, Target.WellFormed⟩

theorem obeys_iff_wellFormed {s : State} : s.Obeys wellFormedPolicy ↔ s.WellFormed := by
  constructor
  · rintro ⟨hvars, hschedule, -⟩
    exact ⟨hvars, fun w hw => ⟨(hschedule w hw).2.1, (hschedule w hw).2.2.1⟩⟩
  · rintro ⟨hvars, hschedule⟩
    exact ⟨hvars, fun w hw => ⟨trivial, (hschedule w hw).value, (hschedule w hw).target, trivial⟩, fun _ _ => trivial⟩

theorem obeys_iff_sorted {c : Command} : c.Obeys wellFormedPolicy ↔ c.Sorted := by
  cases c <;> simp [Command.Obeys, Command.Sorted, wellFormedPolicy]

theorem closed_wellFormedPolicy : wellFormedPolicy.Closed where
  tree := Json.hereditary_sorted
  str t _ := Json.sorted_str t
  num := Json.sorted_num
  path _ _ _ _ := ⟨trivial, fun _ _ => trivial⟩
  target _ _ _ _ := wellFormed_scheduleTarget

/-- The state after the commands of the due writes and of a text is well formed. -/
theorem wellFormed_turn (tick : Tick) {s : State} (h : s.WellFormed) (text : String) :
    ((s.promoteDue tick).2.apply tick ((s.promoteDue tick).1 ++ Command.parseAll text)).2.WellFormed :=
  obeys_iff_wellFormed.mp (closed_wellFormedPolicy.turn tick (obeys_iff_wellFormed.mpr h) fun _ hc =>
    obeys_iff_sorted.mpr (Command.sorted_of_mem_parseAll hc))

end State

/-- The state after a turn is well formed. -/
theorem Turn.wellFormed_take (options : Options) (tick : Tick) {s : State} (h : s.WellFormed) (text : String) :
    (Turn.take options tick s text).state.WellFormed :=
  State.wellFormed_turn tick h _

end Chronicle
