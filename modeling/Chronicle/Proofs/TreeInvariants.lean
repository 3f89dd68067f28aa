import Chronicle.Proofs.JsonParts
import Chronicle.Proofs.PathSteps

/-!
# What writes at a path keep

A property of values that is decided part by part is kept by every write at a path, if the value that is written has
it and the keys of the path are admitted. It is enough to know what one field or one item does; the walk along the
path is the same for all such properties.
-/

namespace Chronicle

/-- A property of values that a list has if its items have it, and that an object keeps when an admitted key is
written in it. -/
structure Json.Hereditary (Key : String → Prop) (I : Json → Prop) : Prop where
  null : I .null
  arr : ∀ {items}, I (.arr items) ↔ ∀ v ∈ items, I v
  empty : I (.obj [])
  insert : ∀ {key value fields}, Key key → I value → I (.obj fields) → I (.obj (Object.insert key value fields))
  get? : ∀ {key value fields}, I (.obj fields) → Object.get? key fields = some value → I value

namespace Json.Hereditary

variable {Key : String → Prop} {I : Json → Prop} (h : Hereditary Key I) {new v w u : Json} {key : String}
  {fields result : Object} {items : List Json} {s : Segment} {segments : List Segment}

include h

theorem getD_get? (hf : I (.obj fields)) (key : String) : I ((Object.get? key fields).getD .null) := by
  cases hg : Object.get? key fields with
  | none => exact h.null
  | some value => exact h.get? hf hg

theorem child? (hv : I v) (hc : v.child? s = some u) : I u := by
  rcases child?_cases hc with ⟨fields, rfl, hget⟩ | ⟨items, i, rfl, -, hget⟩
  · exact h.get? hv hget
  · exact h.arr.mp hv u (List.mem_of_getElem? hget)

theorem getD_child? (hv : I v) (s : Segment) : I ((v.child? s).getD .null) := by
  cases hc : v.child? s with
  | none => exact h.null
  | some u => exact h.child? hv hc

theorem container (hv : I v) (s : Segment) : I (s.container v) := by
  rcases s.container_cases v with ⟨fields, hc, rfl | rfl⟩ | ⟨items, hc, rfl | rfl⟩ <;> rw [hc]
  · exact hv
  · exact h.empty
  · exact hv
  · exact h.arr.mpr fun v hv => absurd hv List.not_mem_nil

theorem put (hn : I new) (hs : Key s.toKey) (hv : I v) : I (s.put new v) := by
  cases v with
  | obj fields => exact h.insert hs hn hv
  | arr items =>
    rw [Segment.put, h.arr]
    intro u hu
    cases hi : s.index? with
    | none => exact h.arr.mp hv u (by simpa [hi] using hu)
    | some i =>
      rw [hi] at hu
      rcases List.mem_or_eq_of_mem_set hu with hu | rfl
      · rcases mem_padded hu with hu | rfl
        · exact h.arr.mp hv u hu
        · exact h.null
      · exact hn
  | null | bool b | num n | str t => exact hv

theorem setAt (hn : I new) (hk : ∀ s ∈ segments, Key s.toKey) (hv : I v) (hr : setAt new segments v = .ok w) : I w := by
  induction segments generalizing v w with
  | nil => exact Except.ok.inj hr ▸ hn
  | cons s rest ih =>
    obtain ⟨hs, hrest⟩ := List.forall_mem_cons.mp hk
    obtain ⟨-, below, hbelow, rfl⟩ := setAt_cons_eq_ok_iff.mp hr
    have hc := h.container hv s
    exact h.put (ih hrest (h.getD_child? hc s) hbelow) hs hc

theorem valueAt? (hv : I v) (hg : valueAt? segments v = some u) : I u := by
  induction segments generalizing v with
  | nil => exact Option.some.inj hg ▸ hv
  | cons s rest ih =>
    rw [Json.valueAt?, Option.bind_eq_some_iff] at hg
    obtain ⟨c, hc, hg⟩ := hg
    exact ih (h.child? hv hc) hg

theorem replaceAt? (hn : I new) (hk : ∀ s ∈ segments, Key s.toKey) (hv : I v)
    (hr : replaceAt? new segments v = some w) : I w := by
  induction segments generalizing v w with
  | nil => exact Option.some.inj hr ▸ hn
  | cons s rest ih =>
    obtain ⟨hs, hrest⟩ := List.forall_mem_cons.mp hk
    simp only [Json.replaceAt?, Option.bind_eq_bind, Option.bind_eq_some_iff, Option.pure_def,
      Option.some.injEq] at hr
    obtain ⟨old, hold, value, hvalue, rfl⟩ := hr
    rw [Segment.setChild_eq_put hold]
    exact h.put (ih hrest (h.child? hv hold) hvalue) hs hv

variable {p : Path} {root : Object}

theorem path_get? (hr : I (.obj root)) (hg : p.get? root = some v) : I v := by
  rw [Path.get?_eq] at hg
  exact h.valueAt? hr hg

theorem path_replace? (hn : I new) (hk : ∀ s ∈ p.segments, Key s.toKey) (hr : I (.obj root))
    (hw : p.replace? new root = some result) : I (.obj result) := by
  have htree : Json.replaceAt? new p.segments (.obj root) = some (.obj result) := by
    rw [Path.replaceAt?_obj, hw, Option.map_some]
  exact h.replaceAt? hn hk hr htree

theorem path_set (hn : I new) (hk : ∀ s ∈ p.segments, Key s.toKey) (hr : I (.obj root))
    (hw : p.set new root = .ok result) : I (.obj result) :=
  h.setAt hn hk hr (Path.set_eq_ok_iff.mp hw)

end Json.Hereditary

end Chronicle
