import Chronicle.Path.Basic
import Chronicle.Proofs.NumberFields
import Chronicle.Proofs.Success
import Chronicle.Proofs.WordTexts

/-!
# The grammar of paths

The parts of a path stand between its points. A part is a name followed by groups, and a group is an index in brackets.
A text is read as a path exactly if all its parts are of this form, and it is read as the segments that the grammar
gives. If it is not read, the leftmost part that is not of this form says why.
-/

namespace Chronicle

namespace Path

/-- A group of a path: an index in brackets, with blanks around it. -/
def IsGroup (group : List Char) (n : Nat) : Prop :=
  ∃ before number after, group = '[' :: (before ++ (number ++ after) ++ [']']) ∧
    (∀ c ∈ before, Text.isBlank c = true) ∧ (∀ c ∈ after, Text.isBlank c = true) ∧ Text.IsWord number n

/-- The segments of a name; without a name there is none. -/
def keyOf (name : List Char) : List Segment := if name = [] then [] else [.key (.ofList name)]

theorem eq_of_mem_keyOf {name : List Char} {s : Segment} (h : s ∈ keyOf name) : s = .key (.ofList name) := by
  rw [keyOf] at h
  split at h
  · exact absurd h List.not_mem_nil
  · exact List.mem_singleton.mp h

/-- A part of a path: a name, which has no bracket, and groups after it. Not both may be missing. -/
def IsPart (part : List Char) (segments : List Segment) : Prop :=
  ∃ name groups indices, part = name ++ groups.flatten ∧ '[' ∉ name ∧ List.Forall₂ IsGroup groups indices ∧
    ¬(name = [] ∧ groups = []) ∧ segments = keyOf name ++ indices.map .index

section Groups

variable {inner text group : List Char} {n : Nat} {ns : List Nat} {groups : List (List Char)}

theorem indices?_append (inner : List Char) {run : List Char} (h : ']' ∉ run) (rest : List Char) :
    indices? inner (run ++ rest) = indices? (run.reverse ++ inner) rest := by
  induction run generalizing inner with
  | nil => rfl
  | cons c run ih =>
    obtain ⟨hc, hrun⟩ := List.ne_and_not_mem_of_not_mem_cons h
    rw [List.cons_append, indices?, ih _ hrun, List.reverse_cons, List.append_assoc]
    · rfl
    · exact fun hclose => hc hclose.symm

theorem isGroup_of_word? (h : Text.word? 10 (Text.trim inner) = some n) : IsGroup ('[' :: (inner ++ [']'])) n := by
  obtain ⟨before, after, hbefore, hafter, hinner⟩ := Text.exists_of_trim inner
  refine ⟨before, Text.trim inner, after, ?_, hbefore, hafter, Text.word?_eq_some_iff.mp h⟩
  rw [← hinner]

/-- What is read as indices is a row of groups. The first of them has been read as far as `inner`. -/
theorem exists_groups (h : indices? inner text = some ns) :
    ∃ groups, List.Forall₂ IsGroup groups ns ∧ groups.flatten = '[' :: (inner.reverse ++ text) := by
  fun_induction indices? inner text generalizing ns with
  | case1 => exact absurd h (by simp)
  | case2 inner n hn =>
    -- the bracket that closes the last group
    rw [← Option.some.inj h]
    exact ⟨_, .cons (isGroup_of_word? hn) .nil, by simp⟩
  | case3 inner n rest hn ih =>
    -- the bracket that closes a group before others
    obtain ⟨later, hlater, rfl⟩ := Option.map_eq_some_iff.mp h
    obtain ⟨groups, hgroups, hflatten⟩ := ih hlater
    exact ⟨_, .cons (isGroup_of_word? hn) hgroups, by simp [hflatten]⟩
  | case4 => exact absurd h (by simp)
  | case5 inner c rest hc ih =>
    obtain ⟨groups, hgroups, hflatten⟩ := ih h
    exact ⟨groups, hgroups, by simp [hflatten]⟩

/-- A group is read whole. -/
theorem IsGroup.exists_inner (h : IsGroup group n) (rest : List Char) : ∃ inner, group = '[' :: (inner ++ [']']) ∧
    Text.word? 10 (Text.trim inner) = some n ∧
      Path.indices? [] (inner ++ (']' :: rest)) = Path.indices? inner.reverse (']' :: rest) := by
  obtain ⟨before, number, after, rfl, hbefore, hafter, hword⟩ := h
  have hnumeric := hword.isNumeric
  have htrim := Text.trim_surrounded hbefore hafter fun c hc => isBlank_of_isNumeric (hnumeric c hc)
  have hclose : ']' ∉ before ++ (number ++ after) := by
    intro hc
    rcases List.mem_append.mp hc with hc | hc
    · exact absurd (hbefore _ hc) (by decide)
    · rcases List.mem_append.mp hc with hc | hc
      · exact absurd (hnumeric _ hc) (by decide)
      · exact absurd (hafter _ hc) (by decide)
  refine ⟨before ++ (number ++ after), rfl, ?_, ?_⟩
  · rw [htrim]
    exact Text.word?_eq_some_iff.mpr hword
  · rw [indices?_append [] hclose, List.append_nil]

theorem groups_cases (h : List.Forall₂ IsGroup groups ns) : groups = [] ∨ ∃ text, groups.flatten = '[' :: text := by
  cases h with
  | nil => exact Or.inl rfl
  | cons hgroup hgroups =>
    obtain ⟨before, number, after, rfl, -⟩ := hgroup
    exact Or.inr ⟨_, by rw [List.flatten_cons, List.cons_append]⟩

theorem indices?_of_groups (h : List.Forall₂ IsGroup groups ns) (ht : groups.flatten = '[' :: text) :
    indices? [] text = some ns := by
  induction h generalizing text with
  | nil => exact absurd ht (by simp)
  | @cons group n groups ns hgroup hgroups ih =>
    obtain ⟨inner, rfl, hword, hread⟩ := hgroup.exists_inner groups.flatten
    have htext : text = inner ++ ']' :: groups.flatten := by simpa using ht.symm
    rw [htext, hread]
    rcases groups_cases hgroups with rfl | ⟨later, hlater⟩
    · cases hgroups
      simp [indices?, hword]
    · simp [indices?, hword, hlater, ih hlater]

theorem indices?_eq_some_iff :
    indices? [] text = some ns ↔ ∃ groups, List.Forall₂ IsGroup groups ns ∧ groups.flatten = '[' :: text :=
  ⟨exists_groups, fun ⟨_, hgroups, ht⟩ => indices?_of_groups hgroups ht⟩

end Groups

section Parts

variable {text : String} {part name inner : List Char} {segments : List Segment}

theorem partSegments_name (h : '[' ∉ name) (text : String) : partSegments text name =
    if name = [] then .error (.emptySegment text) else .ok (keyOf name) := by
  have hname : ∀ c ∈ name, decide (c ≠ '[') = true := fun c hc => decide_eq_true fun he => h (he ▸ hc)
  have hcut : Text.cut (· ≠ '[') (name ++ []) = (name, []) := Text.cut_append_of_head hname (by simp)
  rw [List.append_nil] at hcut
  rw [partSegments, hcut]
  simp only [keyOf, List.isEmpty_iff]

theorem partSegments_bracket (h : '[' ∉ name) (text : String) (inner : List Char) :
    partSegments text (name ++ '[' :: inner) =
      (indices? [] inner).elim (.error (.badIndex text)) fun ns => .ok (keyOf name ++ ns.map .index) := by
  have hname : ∀ c ∈ name, decide (c ≠ '[') = true := fun c hc => decide_eq_true fun he => h (he ▸ hc)
  have hcut : Text.cut (· ≠ '[') (name ++ '[' :: inner) = (name, '[' :: inner) :=
    Text.cut_append_of_head hname (by simp)
  rw [partSegments, hcut]
  simp only [keyOf, List.isEmpty_iff]
  cases indices? [] inner <;> rfl

/-- A part is a name, or a name and what begins with a bracket. -/
theorem part_cases (part : List Char) : ∃ name, '[' ∉ name ∧ (part = name ∨ ∃ inner, part = name ++ '[' :: inner) := by
  by_cases h : '[' ∈ part
  · obtain ⟨name, inner, rfl, hname⟩ := List.eq_append_cons_of_mem h
    exact ⟨name, hname, Or.inr ⟨inner, rfl⟩⟩
  · exact ⟨part, h, Or.inl rfl⟩

theorem partSegments_eq_ok_iff : partSegments text part = .ok segments ↔ IsPart part segments := by
  constructor
  · intro h
    obtain ⟨name, hname, rfl | ⟨inner, rfl⟩⟩ := part_cases part
    · rw [partSegments_name hname] at h
      split at h
      · exact absurd h (by simp)
      · next hne =>
        obtain rfl := Except.ok.inj h
        exact ⟨part, [], [], by simp, hname, .nil, fun hn => hne hn.1, by simp⟩
    · rw [partSegments_bracket hname] at h
      cases hread : indices? [] inner with
      | none => exact absurd h (by simp [hread])
      | some ns =>
        rw [hread] at h
        obtain rfl := Except.ok.inj h
        obtain ⟨groups, hgroups, ht⟩ := indices?_eq_some_iff.mp hread
        refine ⟨name, groups, ns, by rw [ht], hname, hgroups, ?_, rfl⟩
        rintro ⟨-, rfl⟩
        exact absurd ht (by simp)
  · rintro ⟨name, groups, ns, rfl, hname, hgroups, hne, rfl⟩
    rcases groups_cases hgroups with rfl | ⟨inner, ht⟩
    · cases hgroups
      have hname' : name ≠ [] := fun h => hne ⟨h, rfl⟩
      rw [List.flatten_nil, List.append_nil, partSegments_name hname, if_neg hname', List.map_nil, List.append_nil]
    · rw [ht, partSegments_bracket hname, indices?_of_groups hgroups ht, Option.elim_some]

/-- What is wrong with a part that is not of the form. -/
def flaw (text : String) (part : List Char) : PathError :=
  if part = [] then .emptySegment text else .badIndex text

theorem partSegments_eq_error_iff {e : PathError} :
    partSegments text part = .error e ↔ (¬∃ segments, IsPart part segments) ∧ e = flaw text part := by
  have hflaw {e : PathError} (h : partSegments text part = .error e) : e = flaw text part := by
    obtain ⟨name, hname, rfl | ⟨inner, rfl⟩⟩ := part_cases part
    · rw [partSegments_name hname] at h
      split at h
      · next hn => rw [flaw, if_pos hn, ← Except.error.inj h]
      · exact absurd h (by simp)
    · rw [partSegments_bracket hname] at h
      cases hread : indices? [] inner with
      | none =>
        rw [hread] at h
        rw [flaw, if_neg (by simp)]
        exact (Except.error.inj h).symm
      | some ns => exact absurd h (by simp [hread])
  have hforms : (∃ segments, IsPart part segments) ↔ ∃ segments, partSegments text part = .ok segments := by
    simp only [partSegments_eq_ok_iff]
  rw [hforms]
  cases h : partSegments text part with
  | ok segments => simp
  | error e' => simp [hflaw h, eq_comm]

theorem mapM_partSegments_eq_ok_iff {parts : List (List Char)} {segments : List (List Segment)} :
    parts.mapM (partSegments text) = .ok segments ↔ List.Forall₂ IsPart parts segments := by
  simp only [mapM_eq_ok_iff, partSegments_eq_ok_iff]

end Parts

/-- The parts of a text, which stand between its points. -/
def parts (s : String) : List (List Char) := (Text.trim s.toList).splitOn '.'

variable {s : String} {p : Path} {e : PathError}

theorem ofString_of_blank (h : Text.trim s.toList = []) : ofString s = .error .empty := by
  unfold ofString
  simp [h, bind, Except.bind, throw, throwThe, MonadExceptOf.throw]

theorem ofString_of_ne (h : Text.trim s.toList ≠ []) : ofString s =
    (parts s).mapM (partSegments (.ofList (Text.trim s.toList))) >>= fun segments =>
      match segments.flatten with
      | [] => .error .empty
      | first :: rest => .ok ⟨.ofList (Text.trim s.toList), first, rest⟩ := by
  have hempty : (Text.trim s.toList).isEmpty = false := by simpa using h
  unfold ofString
  simp only [hempty, Bool.false_eq_true, if_false]
  rfl

theorem IsPart.ne_nil {part : List Char} {segments : List Segment} (h : IsPart part segments) : segments ≠ [] := by
  obtain ⟨name, groups, ns, -, -, hgroups, hne, rfl⟩ := h
  intro hnil
  obtain ⟨hkey, hindices⟩ := List.append_eq_nil_iff.mp hnil
  have hname : name = [] := by
    by_contra hn
    exact absurd hkey (by simp [keyOf, hn])
  rw [List.map_eq_nil_iff] at hindices
  rw [hindices, List.forall₂_nil_right_iff] at hgroups
  exact hne ⟨hname, hgroups⟩

/-- Every text has a part, and every part a segment, so a path that is read has a first segment. -/
theorem flatten_ne_nil {segments : List (List Segment)} (h : List.Forall₂ IsPart (parts s) segments) :
    segments.flatten ≠ [] := by
  cases hp : parts s with
  | nil => exact absurd hp (List.splitOn_ne_nil _ _)
  | cons part rest =>
    rw [hp] at h
    cases h with
    | cons hpart hrest =>
      rw [List.flatten_cons]
      exact fun hnil => hpart.ne_nil (List.append_eq_nil_iff.mp hnil).1

theorem ofString_eq_ok_iff : ofString s = .ok p ↔ Text.trim s.toList ≠ [] ∧
    p.text = .ofList (Text.trim s.toList) ∧
      ∃ segments, List.Forall₂ IsPart (parts s) segments ∧ p.segments = segments.flatten := by
  by_cases h : Text.trim s.toList = []
  · simp [ofString_of_blank h, h]
  · rw [ofString_of_ne h]
    constructor
    · intro hread
      obtain ⟨segments, hsegments, hread⟩ := exists_of_bind_ok hread
      refine ⟨h, ?_⟩
      cases hflatten : segments.flatten with
      | nil => exact absurd hread (by simp [hflatten])
      | cons first rest =>
        rw [hflatten] at hread
        obtain rfl := Except.ok.inj hread
        exact ⟨rfl, segments, mapM_partSegments_eq_ok_iff.mp hsegments, hflatten.symm⟩
    · rintro ⟨-, htext, segments, hsegments, hflatten⟩
      obtain ⟨text, first, rest⟩ := p
      obtain rfl : text = _ := htext
      rw [mapM_partSegments_eq_ok_iff.mpr hsegments]
      simp only [bind, Except.bind, ← hflatten, Path.segments]

theorem ofString_eq_error_iff : ofString s = .error e ↔ Text.trim s.toList = [] ∧ e = .empty ∨
    Text.trim s.toList ≠ [] ∧ ∃ before part after, parts s = before ++ part :: after ∧
      (∀ other ∈ before, ∃ segments, IsPart other segments) ∧ (¬∃ segments, IsPart part segments) ∧
        e = flaw (.ofList (Text.trim s.toList)) part := by
  by_cases h : Text.trim s.toList = []
  · simp [ofString_of_blank h, h, eq_comm]
  · have hread : ofString s = .error e ↔
        (parts s).mapM (partSegments (.ofList (Text.trim s.toList))) = .error e := by
      rw [ofString_of_ne h]
      cases hm : (parts s).mapM (partSegments (.ofList (Text.trim s.toList))) with
      | error e' => simp [bind, Except.bind]
      | ok segments =>
        cases hflatten : segments.flatten with
        | nil => exact absurd hflatten (flatten_ne_nil (mapM_partSegments_eq_ok_iff.mp hm))
        | cons first rest => simp [bind, Except.bind, hflatten]
    rw [hread, mapM_eq_error_iff]
    simp only [h, partSegments_eq_ok_iff, partSegments_eq_error_iff, false_and, false_or, ne_eq, not_false_iff,
      true_and]

/-- A text is read as a path exactly if it is not blank and each of its parts is a name, which may be missing before a
group, and groups after it. Its segments are the names as keys and the indices of the groups, in the order in which
they stand. A blank text is no path, and otherwise the leftmost part that is not of this form says what is wrong with
it. A path is read again from its own text. -/
theorem ofString_exact (s : String) :
    ((∃ p, ofString s = .ok p) ↔
        Text.trim s.toList ≠ [] ∧ ∀ part ∈ parts s, ∃ segments, IsPart part segments) ∧
      (∀ p, ofString s = .ok p ↔ Text.trim s.toList ≠ [] ∧ p.text = .ofList (Text.trim s.toList) ∧
        ∃ segments, List.Forall₂ IsPart (parts s) segments ∧ p.segments = segments.flatten) ∧
      (∀ e, ofString s = .error e ↔ Text.trim s.toList = [] ∧ e = .empty ∨
        Text.trim s.toList ≠ [] ∧ ∃ before part after, parts s = before ++ part :: after ∧
          (∀ other ∈ before, ∃ segments, IsPart other segments) ∧ (¬∃ segments, IsPart part segments) ∧
            e = if part = [] then .emptySegment (.ofList (Text.trim s.toList))
              else .badIndex (.ofList (Text.trim s.toList))) ∧
      ∀ p, ofString s = .ok p → ofString p.text = .ok p := by
  refine ⟨?_, fun p => ofString_eq_ok_iff, fun e => ofString_eq_error_iff, fun p h => ?_⟩
  · constructor
    · rintro ⟨p, h⟩
      obtain ⟨hne, -, segments, hsegments, -⟩ := ofString_eq_ok_iff.mp h
      refine ⟨hne, fun part hpart => ?_⟩
      obtain ⟨read, -, hread⟩ := exists_of_mem_forall₂ hsegments part hpart
      exact ⟨read, hread⟩
    · rintro ⟨hne, hparts⟩
      cases h : ofString s with
      | ok p => exact ⟨p, rfl⟩
      | error e =>
        rcases ofString_eq_error_iff.mp h with ⟨hblank, -⟩ | ⟨-, before, part, after, heq, -, hnone, -⟩
        · exact absurd hblank hne
        · exact absurd (hparts part (heq ▸ by simp)) hnone
  · obtain ⟨hne, htext, hsegments⟩ := ofString_eq_ok_iff.mp h
    have htrim : Text.trim p.text.toList = Text.trim s.toList := by
      rw [htext, String.toList_ofList, Text.trim_trim]
    have hparts : parts p.text = parts s := by rw [parts, parts, htrim]
    rw [ofString_eq_ok_iff, htrim, hparts]
    exact ⟨hne, htext, hsegments⟩

/-- A path with a sign and a needless zero in a group, and a bracket in a name. -/
def ragged : Path := ⟨"party[ +01].na]me[2][3]", .key "party", [.index 1, .key "na]me", .index 2, .index 3]⟩

theorem ofString_exact_ragged : ofString " party[ +01].na]me[2][3]" = .ok ragged ∧
    (∀ part ∈ parts " party[ +01].na]me[2][3]", ∃ segments, IsPart part segments) ∧
      ofString ragged.text = .ok ragged := by
  have hread : ofString " party[ +01].na]me[2][3]" = .ok ragged := rfl
  obtain ⟨hforms, -, -, hagain⟩ := ofString_exact " party[ +01].na]me[2][3]"
  exact ⟨hread, (hforms.mp ⟨ragged, hread⟩).2, hagain ragged hread⟩

end Path

end Chronicle
