import Chronicle.Path.Access
import Chronicle.Proofs.Success

/-!
# The steps of a write

A write at a path makes one step for each segment: it finds the container for the segment, or makes one in place of
what is none, and goes on with what stands there. The steps depend on the tree and the path alone. The write fails at
the first step that meets an obstacle, and if there is none it succeeds.
-/

namespace Chronicle

theorem Obstacle.toPathError_inj {path : String} {o o' : Obstacle} :
    o.toPathError path = o'.toPathError path ↔ o = o' := by
  cases o <;> cases o' <;> simp [toPathError]

/-- An array filled with nulls up to a position. -/
def Json.padded (i : Nat) (items : List Json) : List Json :=
  items ++ List.replicate (i + 1 - items.length) .null

namespace Segment

/-- The container in which a segment is looked up: what is there, or an empty one in place of what is none. -/
def container (s : Segment) : Json → Json
  | .obj fields => .obj fields
  | .arr items => .arr items
  | _ => if s.index?.isSome then .arr [] else .obj []

/-- What stops a write at a segment in a container. -/
def obstacle? (s : Segment) : Json → Option Obstacle
  | .arr items =>
    match s.index? with
    | none => some (.keyOnArray s.toKey)
    | some i => if items.length + maxPadding ≤ i then some (.indexTooLarge i) else none
  | _ => none

/-- A container with a value put in at a segment. An array is filled with nulls up to the position. -/
def put (s : Segment) (new : Json) : Json → Json
  | .obj fields => .obj (Object.insert s.toKey new fields)
  | .arr items => .arr (s.index?.elim items fun i => (Json.padded i items).set i new)
  | v => v

/-- A container is there, or it is a new one. -/
theorem container_cases (s : Segment) (v : Json) :
    (∃ fields, s.container v = .obj fields ∧ (v = .obj fields ∨ fields = [])) ∨
      ∃ items, s.container v = .arr items ∧ (v = .arr items ∨ items = []) := by
  cases v with
  | obj fields => exact Or.inl ⟨fields, rfl, Or.inl rfl⟩
  | arr items => exact Or.inr ⟨items, rfl, Or.inl rfl⟩
  | null | bool b | num n | str t =>
    by_cases h : s.index?.isSome = true
    · exact Or.inr ⟨[], if_pos h, Or.inr rfl⟩
    · exact Or.inl ⟨[], if_neg h, Or.inr rfl⟩

theorem container_container (s : Segment) (v : Json) : s.container (s.container v) = s.container v := by
  rcases s.container_cases v with ⟨fields, hc, -⟩ | ⟨items, hc, -⟩
  · rw [hc]
    rfl
  · rw [hc]
    rfl

section Obstacles

variable {s : Segment} {items : List Json}

theorem obstacle?_eq_some_iff {c : Json} {o : Obstacle} : s.obstacle? c = some o ↔
    ∃ items, c = .arr items ∧ (s.index? = none ∧ o = .keyOnArray s.toKey ∨
      ∃ i, s.index? = some i ∧ items.length + maxPadding ≤ i ∧ o = .indexTooLarge i) := by
  cases c with
  | arr items =>
    cases hi : s.index? with
    | none => simp [obstacle?, hi, eq_comm]
    | some i => simp [obstacle?, hi, eq_comm]
  | obj fields | null | bool b | num n | str t => simp [obstacle?]

theorem obstacle?_eq_keyOnArray_iff {key : String} :
    s.obstacle? (.arr items) = some (.keyOnArray key) ↔ s.index? = none ∧ s.toKey = key := by
  cases hi : s.index? <;> simp [obstacle?, hi]

theorem obstacle?_eq_indexTooLarge_iff {i : Nat} :
    s.obstacle? (.arr items) = some (.indexTooLarge i) ↔ s.index? = some i ∧ items.length + maxPadding ≤ i := by
  cases hi : s.index? with
  | none => simp [obstacle?, hi]
  | some j =>
    simp only [obstacle?, hi, Option.ite_none_right_eq_some, Option.some.injEq, Obstacle.indexTooLarge.injEq]
    constructor
    · rintro ⟨h, rfl⟩
      exact ⟨rfl, h⟩
    · rintro ⟨rfl, h⟩
      exact ⟨h, rfl⟩

theorem obstacle?_eq_none_iff : s.obstacle? (.arr items) = none ↔
    ∃ i, s.index? = some i ∧ i < items.length + maxPadding := by
  rw [obstacle?]
  cases s.index? with
  | none => simp
  | some i => simp

end Obstacles

end Segment

theorem Object.map_writeField (f : Json → Except Obstacle Json) (key : String) (fields : Object) :
    Json.obj <$> writeField f key fields =
      (fun v => Json.obj (insert key v fields)) <$> f ((get? key fields).getD .null) := by
  unfold writeField
  cases f ((get? key fields).getD .null) <;> rfl

namespace Json

variable {v : Json} {s : Segment} {rest : List Segment}

theorem getElem?_padded (i j : Nat) (items : List Json) :
    (padded i items)[j]?.getD .null = items[j]?.getD .null := by
  unfold padded
  by_cases h : j < items.length
  · rw [List.getElem?_append_left h]
  · rw [List.getElem?_append_right (Nat.le_of_not_lt h), List.getElem?_eq_none (Nat.le_of_not_lt h),
      List.getElem?_replicate]
    split <;> rfl

theorem length_padded (i : Nat) (items : List Json) : (padded i items).length = max items.length (i + 1) := by
  rw [padded, List.length_append, List.length_replicate]
  omega

theorem padded_eq_self {i : Nat} {items : List Json} (h : i < items.length) : padded i items = items := by
  rw [padded, Nat.sub_eq_zero_of_le h, List.replicate_zero, List.append_nil]

theorem mem_padded {i : Nat} {items : List Json} (h : v ∈ padded i items) : v ∈ items ∨ v = .null :=
  (List.mem_append.mp h).imp_right List.eq_of_mem_replicate

theorem child?_cases {w : Json} (h : v.child? s = some w) :
    (∃ fields, v = .obj fields ∧ Object.get? s.toKey fields = some w) ∨
      ∃ items i, v = .arr items ∧ s.index? = some i ∧ items[i]? = some w := by
  cases v with
  | obj fields => exact Or.inl ⟨fields, rfl, h⟩
  | arr items =>
    obtain ⟨i, hi, hget⟩ := Option.bind_eq_some_iff.mp h
    exact Or.inr ⟨items, i, rfl, hi, hget⟩
  | null | bool b | num n | str t => exact absurd h (by simp [child?])

theorem map_writeItem (f : Json → Except Obstacle Json) {i : Nat} {items : List Json}
    (h : i < items.length + maxPadding) : Json.arr <$> writeItem f i items =
      (fun v => Json.arr ((padded i items).set i v)) <$> f (items[i]?.getD .null) := by
  unfold writeItem
  rw [if_pos h, ← getElem?_padded i i items]
  change Json.arr <$> (f ((padded i items)[i]?.getD .null) >>= fun v => pure ((padded i items).set i v)) = _
  cases f ((padded i items)[i]?.getD .null) <;> rfl

theorem writeItem_of_le (f : Json → Except Obstacle Json) {i : Nat} {items : List Json}
    (h : items.length + maxPadding ≤ i) : writeItem f i items = .error (.indexTooLarge i) := by
  unfold writeItem
  rw [if_neg (Nat.not_lt.mpr h)]
  rfl

theorem setAt_container (new : Json) (s : Segment) (rest : List Segment) (v : Json) :
    setAt new (s :: rest) v = setAt new (s :: rest) (s.container v) := by
  cases v with
  | obj fields | arr items => rfl
  | null | bool b | num n | str t =>
    simp only [setAt, Segment.container]
    cases hi : s.index? <;> simp [setAt, hi]

/-- One step of a write: it is stopped, or what stands at the segment is written further and put back. -/
theorem setAt_cons (new : Json) (s : Segment) (rest : List Segment) (v : Json) : setAt new (s :: rest) v =
    match s.obstacle? (s.container v) with
    | some o => .error o
    | none => (fun w => s.put w (s.container v)) <$> setAt new rest (((s.container v).child? s).getD .null) := by
  rw [setAt_container]
  rcases s.container_cases v with ⟨fields, hc, -⟩ | ⟨items, hc, -⟩
  · rw [hc]
    exact Object.map_writeField _ _ _
  · rw [hc]
    simp only [setAt, Segment.obstacle?, Segment.put, child?]
    cases hi : s.index? with
    | none => rfl
    | some i =>
      by_cases h : items.length + maxPadding ≤ i
      · simp only [if_pos h, writeItem_of_le _ h]
        rfl
      · simp only [if_neg h, Option.bind_some, Option.elim_some]
        exact map_writeItem _ (Nat.lt_of_not_le h)

end Json

namespace Segment

variable {s : Segment} {c v w : Json}

/-- The value is a container, and nothing stops a write in it at the segment. -/
structure Passes (s : Segment) (c : Json) : Prop where
  container : s.container c = c
  clear : s.obstacle? c = none

theorem passes_of_child? (h : v.child? s = some w) : s.Passes v := by
  rcases Json.child?_cases h with ⟨fields, rfl, -⟩ | ⟨items, i, rfl, hi, hget⟩
  · exact ⟨rfl, rfl⟩
  · have hlt := (List.getElem?_eq_some_iff.mp hget).1
    exact ⟨rfl, obstacle?_eq_none_iff.mpr ⟨i, hi, by omega⟩⟩

theorem passes_container (h : s.obstacle? (s.container v) = none) : s.Passes (s.container v) :=
  ⟨s.container_container v, h⟩

theorem Passes.cases (h : s.Passes c) : (∃ fields, c = .obj fields) ∨
    ∃ items i, c = .arr items ∧ s.index? = some i ∧ i < items.length + maxPadding := by
  rcases s.container_cases c with ⟨fields, hc, -⟩ | ⟨items, hc, -⟩
  · exact Or.inl ⟨fields, h.container.symm.trans hc⟩
  · obtain rfl := h.container.symm.trans hc
    obtain ⟨i, hi, hlt⟩ := obstacle?_eq_none_iff.mp h.clear
    exact Or.inr ⟨items, i, rfl, hi, hlt⟩

theorem setChild_eq_put (h : v.child? s = some w) (new : Json) : Json.setChild s new v = s.put new v := by
  rcases Json.child?_cases h with ⟨fields, rfl, -⟩ | ⟨items, i, rfl, hi, hget⟩
  · rfl
  · have hlt := (List.getElem?_eq_some_iff.mp hget).1
    simp only [Json.setChild, put, hi, Option.elim_some, Json.padded_eq_self hlt]

end Segment

namespace Json

variable {v : Json} {s : Segment} {rest : List Segment}

/-- A write that succeeds passes its first segment and writes the rest in what it finds there. -/
theorem setAt_cons_eq_ok_iff {new w : Json} : setAt new (s :: rest) v = .ok w ↔
    s.Passes (s.container v) ∧ ∃ below, setAt new rest (((s.container v).child? s).getD .null) = .ok below ∧
      s.put below (s.container v) = w := by
  rw [setAt_cons]
  cases ho : s.obstacle? (s.container v) with
  | some o => exact ⟨fun h => absurd h (by simp), fun h => absurd h.1.clear (by simp [ho])⟩
  | none =>
    have hp := Segment.passes_container ho
    cases hb : setAt new rest (((s.container v).child? s).getD .null) with
    | error o => simp [Functor.map, Except.map]
    | ok below => simp [Functor.map, Except.map, hp]

/-- The containers that a walk along a path meets, each with the segment that is looked up in it. -/
def walk : List Segment → Json → List (Json × Segment)
  | [], _ => []
  | s :: rest, v => (s.container v, s) :: walk rest (((s.container v).child? s).getD .null)

def firstObstacle? (segments : List Segment) (v : Json) : Option Obstacle :=
  (walk segments v).findSome? fun (container, s) => s.obstacle? container

theorem firstObstacle?_cons (s : Segment) (rest : List Segment) (v : Json) : firstObstacle? (s :: rest) v =
    (s.obstacle? (s.container v)).or (firstObstacle? rest (((s.container v).child? s).getD .null)) := by
  rw [firstObstacle?, walk, List.findSome?_cons]
  cases h : s.obstacle? (s.container v) <;> simp [h, firstObstacle?]

theorem setAt_eq_error_iff (new : Json) {segments : List Segment} {o : Obstacle} :
    setAt new segments v = .error o ↔ firstObstacle? segments v = some o := by
  induction segments generalizing v with
  | nil => simp [setAt, firstObstacle?, walk]
  | cons s rest ih =>
    rw [setAt_cons, firstObstacle?_cons]
    cases s.obstacle? (s.container v) with
    | some o' => simp
    | none =>
      rw [Option.none_or, ← ih]
      cases setAt new rest (((s.container v).child? s).getD .null) <;> simp [Functor.map, Except.map]

theorem exists_setAt_iff (new : Json) {segments : List Segment} :
    (∃ w, setAt new segments v = .ok w) ↔ firstObstacle? segments v = none := by
  cases h : setAt new segments v with
  | ok w =>
    have hnone : ∀ o, firstObstacle? segments v ≠ some o := fun o ho => by
      rw [(setAt_eq_error_iff new).mpr ho] at h
      exact absurd h (by simp)
    exact ⟨fun _ => Option.eq_none_iff_forall_ne_some.mpr hnone, fun _ => ⟨w, rfl⟩⟩
  | error o => simp [(setAt_eq_error_iff new).mp h]

end Json

namespace Path

variable {p : Path} {new : Json} {root result : Object}

theorem get?_eq (p : Path) (root : Object) : p.get? root = Json.valueAt? p.segments (.obj root) := rfl

theorem replaceAt?_obj (p : Path) (new : Json) (root : Object) :
    Json.replaceAt? new p.segments (.obj root) = (p.replace? new root).map .obj := by
  simp only [segments, Json.replaceAt?, replace?, Json.child?]
  cases Object.get? p.first.toKey root with
  | none => rfl
  | some old =>
    cases h : Json.replaceAt? new p.rest old with
    | none => simp [h]
    | some w => simp [h, Json.setChild]

theorem set_cases (p : Path) (new : Json) (root : Object) :
    (∃ result, Json.setAt new p.segments (.obj root) = .ok (.obj result) ∧ p.set new root = .ok result) ∨
      ∃ o, Json.setAt new p.segments (.obj root) = .error o ∧ p.set new root = .error (o.toPathError p.text) := by
  have hstep : Json.setAt new p.segments (.obj root) =
      Json.obj <$> Object.writeField (Json.setAt new p.rest) p.first.toKey root := rfl
  rw [hstep, set]
  cases Object.writeField (Json.setAt new p.rest) p.first.toKey root with
  | ok result => exact Or.inl ⟨result, rfl, rfl⟩
  | error o => exact Or.inr ⟨o, rfl, rfl⟩

theorem set_eq_ok_iff : p.set new root = .ok result ↔ Json.setAt new p.segments (.obj root) = .ok (.obj result) := by
  rcases set_cases p new root with ⟨tree, ha, hs⟩ | ⟨o, ha, hs⟩
  · rw [ha, hs]
    simp
  · rw [ha, hs]
    simp

theorem set_eq_error_iff {e : PathError} : p.set new root = .error e ↔
    ∃ o, Json.firstObstacle? p.segments (.obj root) = some o ∧ o.toPathError p.text = e := by
  simp only [← Json.setAt_eq_error_iff new]
  rcases set_cases p new root with ⟨tree, ha, hs⟩ | ⟨o, ha, hs⟩
  · rw [ha, hs]
    simp
  · rw [ha, hs]
    simp

theorem exists_set_iff :
    (∃ result, p.set new root = .ok result) ↔ Json.firstObstacle? p.segments (.obj root) = none := by
  rw [← Json.exists_setAt_iff new]
  rcases set_cases p new root with ⟨tree, ha, hs⟩ | ⟨o, ha, hs⟩
  · rw [ha, hs]
    simp
  · rw [ha, hs]
    simp

/-- A walk meets the array at the segment, and nothing before stops a write. -/
def Reaches (p : Path) (root : Object) (items : List Json) (s : Segment) : Prop :=
  ∃ passed behind, Json.walk p.segments (.obj root) = passed ++ (.arr items, s) :: behind ∧
    ∀ step ∈ passed, step.2.obstacle? step.1 = none

theorem firstObstacle?_eq_some_iff {o : Obstacle} :
    Json.firstObstacle? p.segments (.obj root) = some o ↔
      ∃ items s, p.Reaches root items s ∧ s.obstacle? (.arr items) = some o := by
  rw [Json.firstObstacle?, List.findSome?_eq_some_iff]
  constructor
  · rintro ⟨passed, ⟨c, s⟩, behind, hwalk, hs, hpassed⟩
    obtain ⟨items, rfl, -⟩ := Segment.obstacle?_eq_some_iff.mp hs
    exact ⟨items, s, ⟨passed, behind, hwalk, hpassed⟩, hs⟩
  · rintro ⟨items, s, ⟨passed, behind, hwalk, hpassed⟩, hs⟩
    exact ⟨passed, (.arr items, s), behind, hwalk, hs, hpassed⟩

theorem set_eq_error_iff_reaches (o : Obstacle) :
    p.set new root = .error (o.toPathError p.text) ↔
      ∃ items s, p.Reaches root items s ∧ s.obstacle? (.arr items) = some o := by
  rw [set_eq_error_iff, ← firstObstacle?_eq_some_iff]
  simp only [Obstacle.toPathError_inj, exists_eq_right]

end Path

end Chronicle
