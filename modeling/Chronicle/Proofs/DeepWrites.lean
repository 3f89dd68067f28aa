import Chronicle.Controller.Turn
import Chronicle.Proofs.BlockText
import Chronicle.Proofs.IsolatedCommands
import Chronicle.Proofs.JsonParts
import Chronicle.Proofs.PathGrammar
import Chronicle.Proofs.PathSteps

/-!
# Writes to deep variables

A write makes the objects that are missing on its way, as many as its path has segments. A text may hold a path of
any length, so one command can nest the variables of a chat as deeply as it likes.
-/

namespace Chronicle

namespace Json

/-- An object with one field comes from a write in an empty one. -/
theorem setAt_empty {new w : Json} {s : Segment} {rest : List Segment} (h : setAt new rest .null = .ok w) :
    setAt new (s :: rest) (.obj []) = .ok (.obj [(s.toKey, w)]) :=
  setAt_cons_eq_ok_iff.mpr ⟨⟨rfl, rfl⟩, w, h, rfl⟩

/-- Where nothing stands in its way, a write puts the value into one object for each segment of its path. -/
theorem exists_setAt_null (new : Json) {segments : List Segment} (h : ∀ s ∈ segments, s.index? = none) :
    ∃ w, setAt new segments .null = .ok w ∧ w.depth = segments.length + new.depth := by
  induction segments with
  | nil => exact ⟨new, rfl, by simp⟩
  | cons s segments ih =>
    obtain ⟨hs, hrest⟩ := List.forall_mem_cons.mp h
    obtain ⟨w, hw, hd⟩ := ih hrest
    have hc : s.container .null = .obj [] := by simp [Segment.container, hs]
    refine ⟨.obj [(s.toKey, w)], ?_, ?_⟩
    · rw [setAt_container, hc]
      exact setAt_empty hw
    · simp only [depth, depthOfFields, hd, List.length_cons]
      omega

end Json

theorem Path.exists_set_nil (p : Path) (new : Json) (h : ∀ s ∈ p.rest, s.index? = none) :
    ∃ vars, p.set new [] = .ok vars ∧ (Json.obj vars).depth = p.segments.length + new.depth := by
  obtain ⟨w, hw, hd⟩ := Json.exists_setAt_null new h
  refine ⟨[(p.first.toKey, w)], set_eq_ok_iff.mpr (Json.setAt_empty hw), ?_⟩
  simp only [Json.depth, Json.depthOfFields, hd, segments, List.length_cons]
  omega

/-- A turn on a message with one command, in a state that waits for nothing. -/
theorem Turn.state_take {options : Options} {tick : Tick} {s s' : State} {text : String} {c : Command}
    {outcome : CommandOutcome} (hs : s.schedule = []) (ht : Block.strip text = text)
    (hc : Command.parseAll text = [c]) (he : s.execute tick c = .ok (outcome, s')) :
    (Turn.take options tick s text).state = s' := by
  obtain ⟨vars, schedule, summaries⟩ := s
  obtain rfl : schedule = [] := hs
  simp only [take, ht, State.promoteDue, List.filter_nil, List.map_nil, List.nil_append, hc, State.apply,
    State.applyOne, he]

theorem forall₂_replicate {R : α → β → Prop} {a : α} {b : β} (h : R a b) (n : Nat) :
    List.Forall₂ R (List.replicate n a) (List.replicate n b) := by
  induction n with
  | zero => exact .nil
  | succ n ih => exact .cons h ih

/-- The name of a variable below 125 others. -/
def deepName : List Char := 'a' :: (List.replicate 125 ['.', 'a']).flatten

/-- A message with a command that writes to the variable. -/
def hallChars : List Char := "A hall. <SET :: ".toList ++ (deepName ++ " :: 1>".toList)

theorem tokens_hall : tokens hallChars = [⟨.set, [' '], [' '], deepName ++ [' ', ':', ':', ' ', '1']⟩] := by
  decide +kernel

theorem parseAll_hall : Command.parseAll (.ofList hallChars) = [.set (.ofList deepName) (.num (.int 1))] := by
  have hfields : Command.fieldsOf (deepName ++ [' ', ':', ':', ' ', '1']) = [.ofList deepName, .ofList ['1']] := by
    have hsplit : Text.splitFields (deepName ++ [' ', ':', ':', ' ', '1']) = [deepName ++ [' '], [' ', '1']] := by
      decide +kernel
    have htrim : Text.trim (deepName ++ [' ']) = deepName := by decide +kernel
    rw [Command.fieldsOf, hsplit, List.map_cons, htrim]
    rfl
  have hname : (.ofList deepName : String) ≠ "" := by
    intro h
    have hlist := congrArg String.toList h
    rw [String.toList_ofList] at hlist
    exact List.cons_ne_nil _ _ hlist
  have ht : tokens (String.ofList hallChars).toList =
      [⟨.set, [' '], [' '], deepName ++ [' ', ':', ':', ' ', '1']⟩] := by
    rw [String.toList_ofList, tokens_hall]
  have hone : Json.ofText (.ofList ['1']) = .num (.int 1) := rfl
  exact Command.parseAll_of_token ht (hone ▸ Command.ofToken_set rfl hfields hname)

theorem ofString_deepName : Path.ofString (.ofList deepName) =
    .ok ⟨.ofList deepName, .key "a", List.replicate 125 (.key "a")⟩ := by
  have htrim : Text.trim deepName = deepName := by decide +kernel
  have hsplit : deepName.splitOn '.' = List.replicate 126 ['a'] := by decide +kernel
  have hread : Path.partSegments "a" ['a'] = .ok [.key "a"] := rfl
  have hpart : Path.IsPart ['a'] [.key "a"] := Path.partSegments_eq_ok_iff.mp hread
  rw [Path.ofString_eq_ok_iff, Path.parts, String.toList_ofList, htrim, hsplit]
  refine ⟨List.cons_ne_nil _ _, rfl, _, forall₂_replicate hpart 126, ?_⟩
  rw [List.flatten_replicate_singleton]
  rfl

theorem strip_hall : Block.strip (.ofList hallChars) = .ofList hallChars := by
  apply Block.strip_eq_self
  rw [String.toList_ofList]
  exact Text.not_infix_of_notMem (by decide : '|' ∈ Block.startMarker) (by decide +kernel)

/-- The turn that processing the message takes in a chat that is new. -/
theorem exists_state_hall (options : Options) (tick : Tick) :
    ∃ vars, (Turn.take options tick .initial (.ofList hallChars)).state = ⟨vars, [], []⟩ ∧
      (Json.obj vars).depth = 126 := by
  have hkeys : ∀ s ∈ List.replicate 125 (Segment.key "a"), s.index? = none := by
    intro s hs
    rw [(List.mem_replicate.mp hs).2]
    rfl
  obtain ⟨vars, hset, hd⟩ :=
    Path.exists_set_nil ⟨.ofList deepName, .key "a", List.replicate 125 (.key "a")⟩ (.num (.int 1)) hkeys
  refine ⟨vars, ?_, by rw [hd]; simp [Path.segments, Json.depth]⟩
  exact Turn.state_take rfl strip_hall parseAll_hall (State.execute_set ofString_deepName hset)

end Chronicle
