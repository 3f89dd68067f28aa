import Chronicle.Proofs.PathLens

/-!
# Paths that part

A segment addresses a slot of the container in which it is looked up: a field of an object or an item of an array.
Paths that differ as texts may address the same slots. Two paths part where they have come through the same slots and
address different ones of a container. A write at one of them leaves what is at the other alone, and shortens no array
on its way.
-/

namespace Chronicle

/-- A place in a container. -/
inductive Slot where
  | field (key : String)
  | item (i : Nat)
deriving DecidableEq, Repr

/-- The slot that a segment addresses in a container, whether something stands there or not. -/
def Segment.slot? (s : Segment) : Json → Option Slot
  | .obj _ => some (.field s.toKey)
  | .arr _ => s.index?.map .item
  | _ => none

namespace Json

/-- What stands in a slot. -/
def at? : Json → Slot → Option Json
  | .obj fields, .field key => Object.get? key fields
  | .arr items, .item i => items[i]?
  | _, _ => none

/-- The slots that the segments address one after the other, as far as they lead into the value. -/
def slots : List Segment → Json → List Slot
  | [], _ => []
  | s :: rest, v => (s.slot? v).elim [] fun a => a :: (v.child? s).elim [] (slots rest)

/-- On their ways through the value, two lists of segments share some slots and then address different slots of one
container. -/
def Part (segments others : List Segment) (v : Json) : Prop :=
  ∃ shared a b behind behind', slots segments v = shared ++ a :: behind ∧ slots others v = shared ++ b :: behind' ∧
    a ≠ b

variable {s t : Segment} {v w new u : Json} {a b : Slot} {segments others : List Segment}

theorem child?_eq (s : Segment) (v : Json) : v.child? s = (s.slot? v).bind v.at? := by
  cases v with
  | obj fields => rfl
  | arr items =>
    rw [Segment.slot?, child?]
    cases s.index? <;> rfl
  | null | bool b | num n | str t => rfl

theorem container_of_slot? (h : s.slot? v = some a) : s.container v = v := by
  cases v with
  | obj fields | arr items => rfl
  | null | bool b | num n | str t => exact absurd h (by simp [Segment.slot?])

/-- A value that is put in leaves the container one of its kind, so it has the same slots. -/
theorem slot?_put (s t : Segment) (w v : Json) : t.slot? (s.put w v) = t.slot? v := by cases v <;> rfl

theorem slots_cons (h : s.slot? v = some a) (rest : List Segment) :
    slots (s :: rest) v = a :: (v.child? s).elim [] (slots rest) := by
  rw [slots, h, Option.elim_some]

theorem exists_slot?_of_slots {rest : List Slot} (h : slots segments v = a :: rest) :
    ∃ s behind, segments = s :: behind ∧ s.slot? v = some a ∧ (v.child? s).elim [] (slots behind) = rest := by
  cases segments with
  | nil => exact absurd h (by simp [slots])
  | cons s behind =>
    cases hs : s.slot? v with
    | none => exact absurd h (by simp [slots, hs])
    | some c =>
      rw [slots_cons hs] at h
      obtain ⟨rfl, hrest⟩ := List.cons.inj h
      exact ⟨s, behind, rfl, hs, hrest⟩

/-- Paths that part do so at their first segments, or these lead to one slot and they part in what stands there. -/
theorem Part.cases (h : Part segments others v) : ∃ s behind t behind' a b, segments = s :: behind ∧
    others = t :: behind' ∧ s.slot? v = some a ∧ t.slot? v = some b ∧
      (a ≠ b ∨ a = b ∧ ∃ c, v.child? s = some c ∧ Part behind behind' c) := by
  obtain ⟨shared, a, b, rest, rest', hs, ht, hne⟩ := h
  cases shared with
  | nil =>
    obtain ⟨s, behind, hsegments, hslot, -⟩ := exists_slot?_of_slots hs
    obtain ⟨t, behind', hothers, hslot', -⟩ := exists_slot?_of_slots ht
    exact ⟨s, behind, t, behind', a, b, hsegments, hothers, hslot, hslot', Or.inl hne⟩
  | cons d shared =>
    obtain ⟨s, behind, hsegments, hslot, hrest⟩ := exists_slot?_of_slots hs
    obtain ⟨t, behind', hothers, hslot', hrest'⟩ := exists_slot?_of_slots ht
    have hchild : v.child? t = v.child? s := by rw [child?_eq, child?_eq, hslot, hslot']
    refine ⟨s, behind, t, behind', d, d, hsegments, hothers, hslot, hslot', Or.inr ⟨rfl, ?_⟩⟩
    cases hc : v.child? s with
    | none => exact absurd hrest (by simp [hc])
    | some c =>
      rw [hc] at hrest
      rw [hchild, hc] at hrest'
      exact ⟨c, rfl, shared, a, b, rest, rest', hrest, hrest', hne⟩

/-- What is put in at a segment leaves what stands in other slots where it is. -/
theorem at?_put_of_ne (hp : s.Passes v) (hs : s.slot? v = some a) (hne : a ≠ b) (hb : v.at? b = some u) (w : Json) :
    (s.put w v).at? b = some u := by
  rcases hp.cases with ⟨fields, rfl⟩ | ⟨items, i, rfl, hi, -⟩
  · obtain rfl := Option.some.inj hs
    cases b with
    | item j => exact absurd hb (by simp [at?])
    | field key =>
      have hkey : key ≠ s.toKey := fun h => hne (congrArg Slot.field h.symm)
      exact (Object.lookup_insert_of_ne hkey w fields).trans hb
  · have ha : Slot.item i = a := by
      rw [Segment.slot?, hi] at hs
      exact Option.some.inj hs
    subst ha
    cases b with
    | field key => exact absurd hb (by simp [at?])
    | item j =>
      have hij : i ≠ j := fun h => hne (congrArg Slot.item h)
      have hj : j < items.length := (List.getElem?_eq_some_iff.mp hb).1
      -- there was an item at the position, so it is none of those with which the array is filled
      have hpadded : (padded i items)[j]? = items[j]? := List.getElem?_append_left hj
      simp only [Segment.put, hi, Option.elim_some, at?, List.getElem?_set_ne hij, hpadded]
      exact hb

theorem valueAt?_setAt_of_part (h : Part segments others v) (hset : setAt new segments v = .ok w)
    (hget : valueAt? others v = some u) : valueAt? others w = some u := by
  induction segments generalizing others v w with
  | nil =>
    obtain ⟨s, behind, t, behind', a, b, hsegments, -⟩ := h.cases
    exact absurd hsegments (by simp)
  | cons s rest ih =>
    obtain ⟨_, _, t, rest', a, b, hsegments, rfl, hs, ht, hcase⟩ := h.cases
    obtain ⟨rfl, rfl⟩ := List.cons.inj hsegments
    obtain ⟨hp, below, hbelow, rfl⟩ := setAt_cons_eq_ok_iff.mp hset
    rw [container_of_slot? hs] at hp hbelow ⊢
    obtain ⟨child, hchild, hget⟩ := Option.bind_eq_some_iff.mp hget
    rcases hcase with hne | ⟨rfl, c, hc, hpart⟩
    · -- the paths part here: what is put in at one segment is not seen at the other
      rw [child?_eq, ht, Option.bind_some] at hchild
      have hkept := at?_put_of_ne hp hs hne hchild below
      rw [valueAt?, child?_eq, slot?_put, ht, Option.bind_some, hkept]
      exact hget
    · -- they go through the same slot, and part in what has been written there
      have hsame : v.child? t = v.child? s := by rw [child?_eq, child?_eq, hs, ht]
      obtain rfl : c = child := Option.some.inj (hc.symm.trans (hsame.symm.trans hchild))
      have hput : (s.put below v).child? t = some below := by
        rw [← hp.child?_put below, child?_eq, child?_eq, slot?_put, slot?_put, hs, ht]
      rw [hc, Option.getD_some] at hbelow
      rw [valueAt?, hput]
      exact ih hpart hbelow hget

/-- An array on the way of a write is there afterwards, with the length that its next segment needs. -/
theorem exists_valueAt?_setAt {front behind : List Segment} {items : List Json}
    (hset : setAt new (front ++ s :: behind) v = .ok w) (hget : valueAt? front v = some (.arr items)) :
    ∃ i grown, s.index? = some i ∧ valueAt? front w = some (.arr grown) ∧
      grown.length = max items.length (i + 1) := by
  induction front generalizing v w with
  | nil =>
    obtain rfl := Option.some.inj hget
    obtain ⟨hp, below, -, rfl⟩ := setAt_cons_eq_ok_iff.mp hset
    obtain ⟨i, hi, -⟩ := Segment.obstacle?_eq_none_iff.mp hp.clear
    refine ⟨i, (padded i items).set i below, hi, ?_, ?_⟩
    · simp only [Segment.container, Segment.put, hi, Option.elim_some, valueAt?]
    · rw [List.length_set, length_padded]
  | cons t front ih =>
    obtain ⟨child, hchild, hget⟩ := Option.bind_eq_some_iff.mp hget
    obtain ⟨hp, below, hbelow, rfl⟩ := setAt_cons_eq_ok_iff.mp hset
    rw [(Segment.passes_of_child? hchild).container] at hp hbelow ⊢
    rw [hchild, Option.getD_some] at hbelow
    obtain ⟨i, grown, hi, hgrown, hlength⟩ := ih hbelow hget
    refine ⟨i, grown, hi, ?_, hlength⟩
    rw [valueAt?, hp.child?_put]
    exact hgrown

end Json

namespace Path

/-- A write at a path leaves what is at a path that parts from it where it is. Every array on its way is an array
afterwards, grown to the length that is needed if it was shorter. -/
theorem set_leaves_apart {p : Path} {new : Json} {root result : Object} (h : p.set new root = .ok result) :
    (∀ (q : Path) w, Json.Part p.segments q.segments (.obj root) → q.get? root = some w → q.get? result = some w) ∧
      ∀ front s behind items, p.segments = front ++ s :: behind →
        Json.valueAt? front (.obj root) = some (.arr items) →
          ∃ i grown, s.index? = some i ∧ Json.valueAt? front (.obj result) = some (.arr grown) ∧
            grown.length = max items.length (i + 1) := by
  have hset := set_eq_ok_iff.mp h
  constructor
  · intro q w hpart hget
    exact Json.valueAt?_setAt_of_part hpart hset hget
  · intro front s behind items hsegments hget
    rw [hsegments] at hset
    exact Json.exists_valueAt?_setAt hset hget

/-- A bag with two things in it. -/
def bag : Object := [("bag", .arr [.str "rope", .str "lamp"]), ("gold", .num (.int 5))]

/-- The oil in the fifth place of the bag, where there is nothing yet. -/
def oilPath : Path := ⟨"bag[4].oil", .key "bag", [.index 4, .key "oil"]⟩

def lampPath : Path := ⟨"bag.1", .key "bag", [.key "1"]⟩

theorem set_leaves_apart_bag : ofString "bag[4].oil" = .ok oilPath ∧ ofString "bag.1" = .ok lampPath ∧
    Json.Part oilPath.segments lampPath.segments (.obj bag) ∧ lampPath.get? bag = some (.str "lamp") ∧
      ∃ result, oilPath.set (.num (.int 3)) bag = .ok result ∧ lampPath.get? result = some (.str "lamp") ∧
        ∃ grown, Json.valueAt? [.key "bag"] (.obj result) = some (.arr grown) ∧ grown.length = 5 := by
  have hpart : Json.Part oilPath.segments lampPath.segments (.obj bag) :=
    ⟨[.field "bag"], .item 4, .item 1, [], [], rfl, rfl, by decide⟩
  have hget : lampPath.get? bag = some (.str "lamp") := rfl
  have hclear : Json.firstObstacle? oilPath.segments (.obj bag) = none := rfl
  obtain ⟨result, hset⟩ := exists_set_iff.mpr hclear
  obtain ⟨hkept, hgrown⟩ := set_leaves_apart hset
  obtain ⟨i, grown, hi, hvalue, hlength⟩ := hgrown [.key "bag"] (.index 4) [.key "oil"] _ rfl rfl
  obtain rfl := Option.some.inj hi
  exact ⟨rfl, rfl, hpart, hget, result, hset, hkept lampPath _ hpart hget, grown, hvalue, hlength⟩

end Path

end Chronicle
