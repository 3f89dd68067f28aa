import Chronicle.Proofs.JsonParts
import Chronicle.Proofs.PathLens

/-!
# Writes in place

A write at a path can be done in place: the tree is copied, a place is made for each segment in turn and entered, with
the lengths of arrays reckoned in machine words, and the copy is kept if nothing stops the write. What was made on the
way is dropped with the copy of a write that fails. This is the write of `Path.set`, and the reckoning is exact.
-/

namespace Chronicle

namespace Word

/-- The difference of two machine words, unless it underflows. -/
def sub? (a b : Nat) : Option Nat := if b ≤ a then some (a - b) else none

/-- The sum of two machine words, unless it overflows. -/
def add? (a b : Nat) : Option Nat := if a + b < twoTo 64 then some (a + b) else none

end Word

/-- The length to which an array grows so that there is an item at the index, or what forbids it. None if the index
cannot be compared with the length. -/
def grownLength? (length index : Nat) : Option (Except Obstacle Nat) :=
  if length ≤ index then
    (Word.sub? index length).map fun new =>
      if maxPadding ≤ new then .error (.indexTooLarge index)
      else match Word.add? index 1 with
        | some grown => .ok grown
        | none => .error (.indexTooLarge index)
  else some (.ok length)

/-- An array that memory can hold is grown to just the length that is needed, and no index is lost to the
reckoning. -/
theorem grownLength?_eq {length : Nat} (h : length < twoTo 63) (index : Nat) : grownLength? length index =
    some (if length + maxPadding ≤ index then .error (.indexTooLarge index) else .ok (max length (index + 1))) := by
  have hmax : twoTo 63 + maxPadding < twoTo 64 := by decide
  unfold grownLength? Word.sub? Word.add?
  by_cases hle : length ≤ index
  · by_cases hfar : length + maxPadding ≤ index
    · have hnew : maxPadding ≤ index - length := by omega
      simp only [hle, hfar, hnew, if_true, Option.map_some]
    · have hnew : ¬maxPadding ≤ index - length := by omega
      have hword : index + 1 < twoTo 64 := by omega
      have hlen : max length (index + 1) = index + 1 := by omega
      simp only [hle, hfar, hnew, hword, hlen, if_true, if_false, Option.map_some]
  · have hfar : ¬length + maxPadding ≤ index := by omega
    have hlen : max length (index + 1) = length := by omega
    simp only [hle, hfar, hlen, if_false]

/-- A field for the key, null if there was none. -/
def Object.entry (key : String) (fields : Object) : Object :=
  match get? key fields with
  | some _ => fields
  | none => insert key .null fields

theorem Object.get?_entry (key : String) (fields : Object) :
    get? key (entry key fields) = some ((get? key fields).getD .null) := by
  unfold entry
  cases h : get? key fields with
  | some v => exact h
  | none => exact lookup_insert_self key .null fields

theorem Object.insert_entry (key : String) (v : Json) (fields : Object) :
    insert key v (entry key fields) = insert key v fields := by
  unfold entry
  cases get? key fields with
  | some _ => rfl
  | none => exact insert_insert key .null v fields

/-- A container with a place for the segment. -/
def Segment.withPlace? (s : Segment) : Json → Option (Except Obstacle Json)
  | .obj fields => some (.ok (.obj (Object.entry s.toKey fields)))
  | .arr items =>
    match s.index? with
    | some i => (grownLength? items.length i).map fun
      | .ok grown => .ok (.arr (items ++ List.replicate (grown - items.length) .null))
      | .error o => .error o
    | none => some (.error (.keyOnArray s.toKey))
  | _ => some (.error (.keyOnArray s.toKey))

/-- Writes where the segments lead and gives what has become of the value, also if something stops the write on the
way. None if the reckoning fails or the write looks past the end of an array. -/
def Json.writeIn? (new : Json) : List Segment → Json → Option (Json × Except Obstacle Unit)
  | [], _ => some (new, .ok ())
  | s :: rest, v => do
    match ← s.withPlace? (s.container v) with
    | .error o => return (s.container v, .error o)
    | .ok place =>
      let (below, outcome) ← writeIn? new rest (← place.child? s)
      return (setChild s below place, outcome)

/-- Writes at a path in a copy of the tree, and gives the tree afterwards. -/
def Path.write? (p : Path) (new : Json) (root : Object) : Option (Object × Except PathError Unit) := do
  let (copy, outcome) ← Json.writeIn? new p.segments (.obj root)
  match outcome, copy with
  | .ok (), .obj written => return (written, .ok ())
  | .ok (), _ => return (root, .ok ())
  | .error o, _ => return (root, .error (o.toPathError p.text))

namespace Json

variable {s : Segment} {c v w new : Json}

/-- Memory can hold every array in the value: none has `2 ^ 63` items. -/
def Addressable (v : Json) : Prop := ∀ items, .arr items ∈ v.parts → items.length < twoTo 63

theorem mem_parts_of_child? {u : Json} (h : v.child? s = some w) (hu : u ∈ w.parts) : u ∈ v.parts := by
  rcases child?_cases h with ⟨fields, rfl, hget⟩ | ⟨items, i, rfl, -, hget⟩
  · exact mem_parts_obj.mpr (Or.inr ⟨_, mem_of_lookup hget, hu⟩)
  · exact mem_parts_arr.mpr (Or.inr ⟨w, List.mem_of_getElem? hget, hu⟩)

theorem addressable_null : Json.null.Addressable := by simp [Addressable, parts]

theorem Addressable.child (h : v.Addressable) (s : Segment) : ((v.child? s).getD .null).Addressable := by
  cases hc : v.child? s with
  | none => exact addressable_null
  | some w => exact fun items hm => h items (mem_parts_of_child? hc hm)

theorem Addressable.container (h : v.Addressable) (s : Segment) : (s.container v).Addressable := by
  have hpos : 0 < twoTo 63 := by decide
  rcases s.container_cases v with ⟨fields, hc, rfl | rfl⟩ | ⟨items, hc, rfl | rfl⟩ <;> rw [hc]
  · exact h
  · simp [Addressable, parts, partsOfFields]
  · exact h
  · simp [Addressable, parts, partsOfItems, hpos]

theorem Addressable.length_lt {items : List Json} (h : (Json.arr items).Addressable) : items.length < twoTo 63 :=
  h items (mem_parts_arr.mpr (Or.inl rfl))

theorem withPlace?_of_obstacle {o : Obstacle} (ha : c.Addressable) (h : s.obstacle? c = some o) :
    s.withPlace? c = some (.error o) := by
  obtain ⟨items, rfl, hcase⟩ := Segment.obstacle?_eq_some_iff.mp h
  rcases hcase with ⟨hi, rfl⟩ | ⟨i, hi, hle, rfl⟩
  · simp only [Segment.withPlace?, hi]
  · simp only [Segment.withPlace?, hi, grownLength?_eq ha.length_lt, if_pos hle, Option.map_some]

/-- The place of a segment holds what was there, or null, and takes what is put in. -/
theorem exists_withPlace? (hp : s.Passes c) (ha : c.Addressable) : ∃ place, s.withPlace? c = some (.ok place) ∧
    place.child? s = some ((c.child? s).getD .null) ∧ ∀ w, setChild s w place = s.put w c := by
  rcases hp.cases with ⟨fields, rfl⟩ | ⟨items, i, rfl, hi, hlt⟩
  · refine ⟨.obj (Object.entry s.toKey fields), rfl, Object.get?_entry _ _, ?_⟩
    exact fun w => congrArg Json.obj (Object.insert_entry _ _ _)
  · have hgrown : items ++ List.replicate (max items.length (i + 1) - items.length) .null = padded i items := by
      have hnew : max items.length (i + 1) - items.length = i + 1 - items.length := by omega
      rw [hnew, padded]
    refine ⟨.arr (padded i items), ?_, ?_, fun w => ?_⟩
    · simp only [Segment.withPlace?, hi, grownLength?_eq ha.length_lt, if_neg (Nat.not_le.mpr hlt), Option.map_some,
        hgrown]
    · have hin : i < (padded i items).length := by
        rw [length_padded]
        omega
      have hget := getElem?_padded i i items
      rw [List.getElem?_eq_getElem hin, Option.getD_some] at hget
      simp only [child?, hi, Option.bind_some, List.getElem?_eq_getElem hin, hget]
    · simp only [setChild, Segment.put, hi, Option.elim_some]

/-- The write in place ends, with the outcome of the write by steps and in its result. -/
theorem map_writeIn? (new : Json) (segments : List Segment) (ha : v.Addressable) :
    (writeIn? new segments v).map (fun (left, outcome) => outcome.map fun _ => left) =
      some (setAt new segments v) := by
  induction segments generalizing v with
  | nil => rfl
  | cons s rest ih =>
    rw [setAt_cons]
    cases ho : s.obstacle? (s.container v) with
    | some o => simp [writeIn?, withPlace?_of_obstacle (ha.container s) ho, Except.map]
    | none =>
      obtain ⟨place, hplace, hchild, hput⟩ :=
        exists_withPlace? (Segment.passes_container ho) (ha.container s)
      have hbelow := ih ((ha.container s).child s)
      obtain ⟨⟨below, outcome⟩, hwrite, hset⟩ := Option.map_eq_some_iff.mp hbelow
      rw [← hset]
      cases outcome <;> simp [writeIn?, hplace, hchild, hwrite, hput, Except.map, Functor.map]

end Json

namespace Path

theorem write?_eq (p : Path) (new : Json) {root : Object} (ha : (Json.obj root).Addressable) :
    p.write? new root = some (match p.set new root with
      | .ok written => (written, .ok ())
      | .error e => (root, .error e)) := by
  obtain ⟨⟨copy, outcome⟩, hcopy, hset⟩ := Option.map_eq_some_iff.mp (Json.map_writeIn? new p.segments ha)
  rcases set_cases p new root with ⟨result, htree, hs⟩ | ⟨o, htree, hs⟩
  · rw [htree] at hset
    cases outcome with
    | ok _ =>
      obtain rfl := Except.ok.inj hset
      simp [write?, hcopy, hs]
    | error o => exact absurd hset (by simp [Except.map])
  · rw [htree] at hset
    cases outcome with
    | ok _ => exact absurd hset (by simp [Except.map])
    | error o' =>
      obtain rfl := Except.error.inj hset
      simp [write?, hcopy, hs]

/-- A write fails at the first array on its way that has no position for the segment, or whose end lies too far before
the position, and succeeds if it meets no such array. Done in place it gives the same outcome and leaves the tree as it
was if it fails, and the reckoning of lengths neither overflows nor underflows. -/
theorem write_fails_at_first_obstacle (p : Path) (new : Json) (root : Object) :
    (∀ key, p.set new root = .error (.keyOnArray p.text key) ↔
        ∃ items s, p.Reaches root items s ∧ s.index? = none ∧ s.toKey = key) ∧
      (∀ i, p.set new root = .error (.indexTooLarge p.text i) ↔
        ∃ items s, p.Reaches root items s ∧ s.index? = some i ∧ items.length + maxPadding ≤ i) ∧
      ((∃ written, p.set new root = .ok written) ↔
        ∀ step ∈ Json.walk p.segments (.obj root), step.2.obstacle? step.1 = none) ∧
      ((Json.obj root).Addressable → p.write? new root = some (match p.set new root with
        | .ok written => (written, .ok ())
        | .error e => (root, .error e))) ∧
      ∀ length index, length < twoTo 63 → grownLength? length index = some
        (if length + maxPadding ≤ index then .error (.indexTooLarge index) else .ok (max length (index + 1))) := by
  refine ⟨fun key => ?_, fun i => ?_, ?_, write?_eq p new, fun length index h => grownLength?_eq h index⟩
  · refine (set_eq_error_iff_reaches (.keyOnArray key)).trans ?_
    simp only [Segment.obstacle?_eq_keyOnArray_iff]
  · refine (set_eq_error_iff_reaches (.indexTooLarge i)).trans ?_
    simp only [Segment.obstacle?_eq_indexTooLarge_iff]
  · rw [exists_set_iff, Json.firstObstacle?, List.findSome?_eq_none_iff]

/-- A log with one day. -/
def diary : Object := [("log", .obj [("days", .arr [.str "rain"])])]

/-- A day in the log, given by its position. -/
def dayAt (text : String) (day : Segment) : Path := ⟨text, .key "log", [.key "days", day]⟩

theorem write_fails_diary : (Json.obj diary).Addressable ∧
    ofString "log.days[10001]" = .ok (dayAt "log.days[10001]" (.index 10001)) ∧
    (dayAt "log.days[10001]" (.index 10001)).write? .null diary =
      some (diary, .error (.indexTooLarge "log.days[10001]" 10001)) ∧
    (∃ written, (dayAt "log.days.10000" (.key "10000")).set .null diary = .ok written) ∧
    (dayAt "log.days.first" (.key "first")).write? .null diary =
      some (diary, .error (.keyOnArray "log.days.first" "first")) := by
  have ha : (Json.obj diary).Addressable := by
    have hone : 1 < twoTo 63 := by decide
    simp [diary, Json.Addressable, Json.parts, Json.partsOfItems, Json.partsOfFields, hone]
  have hfar : (dayAt "log.days[10001]" (.index 10001)).set .null diary =
      .error (.indexTooLarge "log.days[10001]" 10001) :=
    ((write_fails_at_first_obstacle _ .null diary).2.1 10001).mpr
      ⟨[.str "rain"], .index 10001, ⟨[_, _], [], rfl, by decide⟩, rfl, by decide⟩
  have hnamed : (dayAt "log.days.first" (.key "first")).set .null diary =
      .error (.keyOnArray "log.days.first" "first") :=
    ((write_fails_at_first_obstacle _ .null diary).1 "first").mpr
      ⟨[.str "rain"], .key "first", ⟨[_, _], [], rfl, by decide⟩, rfl, rfl⟩
  refine ⟨ha, rfl, ?_, (write_fails_at_first_obstacle _ .null diary).2.2.1.mpr (by decide), ?_⟩
  · rw [(write_fails_at_first_obstacle _ .null diary).2.2.2.1 ha, hfar]
  · rw [(write_fails_at_first_obstacle _ .null diary).2.2.2.1 ha, hnamed]

end Path

end Chronicle
