import Chronicle.Json.Document
import Chronicle.Proofs.TreeInvariants

/-!
# Keys stay in order

Objects keep their keys in order when a field is written, when a document is read as a value, and when a
value is written at a path.
-/

namespace Chronicle

namespace Object

theorem mem_insert {key : String} {value : Json} {fields : Object} {f : String × Json}
    (h : f ∈ insert key value fields) : f = (key, value) ∨ f ∈ fields := by
  induction fields with
  | nil => exact Or.inl (List.mem_singleton.mp h)
  | cons g fields ih =>
    rw [insert] at h
    split at h
    · exact (List.mem_cons.mp h)
    split at h
    · exact (List.mem_cons.mp h).imp id (List.mem_cons_of_mem g)
    · rcases List.mem_cons.mp h with rfl | h
      · exact Or.inr List.mem_cons_self
      · exact (ih h).imp id (List.mem_cons_of_mem g)

theorem ascending_insert (key : String) (value : Json) {fields : Object} (h : fields.Ascending) :
    (insert key value fields).Ascending := by
  induction fields with
  | nil => exact List.pairwise_singleton _ _
  | cons g fields ih =>
    obtain ⟨hfirst, hrest⟩ := List.pairwise_cons.mp h
    rw [insert]
    by_cases hlt : key < g.1
    · rw [if_pos hlt]
      refine List.pairwise_cons.mpr ⟨?_, h⟩
      intro f hf
      rcases List.mem_cons.mp hf with rfl | hf
      · exact hlt
      · exact String.lt_trans hlt (hfirst f hf)
    rw [if_neg hlt]
    by_cases heq : key = g.1
    · rw [if_pos heq]
      refine List.pairwise_cons.mpr ⟨?_, hrest⟩
      rw [heq]
      exact hfirst
    · rw [if_neg heq]
      refine List.pairwise_cons.mpr ⟨?_, ih hrest⟩
      intro f hf
      rcases mem_insert hf with rfl | hf
      · exact String.not_le.mp fun hle => heq (String.le_antisymm hle (String.not_lt.mp hlt))
      · exact hfirst f hf

theorem lookup_insert_self (key : String) (value : Json) (fields : Object) :
    (insert key value fields).lookup key = some value := by
  induction fields with
  | nil => exact List.lookup_cons_self
  | cons f fields ih =>
    rw [insert]
    split
    · exact List.lookup_cons_self
    split
    · exact List.lookup_cons_self
    · next hne => rw [List.lookup_cons, beq_false_of_ne hne, ih]

theorem lookup_insert_of_ne {key other : String} (h : other ≠ key) (value : Json) (fields : Object) :
    (insert key value fields).lookup other = fields.lookup other := by
  have hne : (other == key) = false := beq_false_of_ne h
  induction fields with
  | nil => rw [insert, List.lookup_cons, hne]
  | cons f fields ih =>
    obtain ⟨k, v⟩ := f
    rw [insert]
    split
    · rw [List.lookup_cons, hne]
    split
    · next hk => rw [List.lookup_cons, List.lookup_cons, ← hk, hne]
    · rw [List.lookup_cons, List.lookup_cons, ih]

theorem nodup_of_ascending {fields : Object} (h : fields.Ascending) : (fields.map (·.1)).Nodup := by
  rw [List.Nodup, List.pairwise_map]
  refine List.Pairwise.imp (fun {f g} hlt heq => ?_) h
  exact String.lt_irrefl g.1 (heq ▸ hlt)

end Object

namespace Json

theorem sorted_insert {key : String} {value : Json} {fields : Object} (hv : value.Sorted)
    (h : (Json.obj fields).Sorted) : (Json.obj (Object.insert key value fields)).Sorted := by
  obtain ⟨ha, hs⟩ := sorted_obj.mp h
  refine sorted_obj.mpr ⟨Object.ascending_insert key value ha, ?_⟩
  intro f hf
  rcases Object.mem_insert hf with rfl | hf
  · exact hv
  · exact hs f hf

theorem mem_of_lookup {key : String} {value : Json} {fields : Object} (h : fields.lookup key = some value) :
    (key, value) ∈ fields := by
  obtain ⟨a, b, rfl, -⟩ := List.lookup_eq_some_iff.mp h
  simp

theorem sorted_of_get? {key : String} {value : Json} {fields : Object} (h : (Json.obj fields).Sorted)
    (hg : Object.get? key fields = some value) : value.Sorted :=
  (sorted_obj.mp h).2 _ (mem_of_lookup hg)

end Json

namespace Document

/-- A property of all documents, proved for a container from its parts. -/
@[elab_as_elim]
theorem induction {P : Document → Prop} (unreadable : P .unreadable) (null : P .null) (bool : ∀ b, P (.bool b))
    (num : ∀ n, P (.num n)) (str : ∀ s, P (.str s)) (arr : ∀ items, (∀ d ∈ items, P d) → P (.arr items))
    (obj : ∀ fields, (∀ f ∈ fields, P f.2) → P (.obj fields)) (d : Document) : P d := by
  refine @Document.rec P (fun items => ∀ d ∈ items, P d) (fun fields => ∀ f ∈ fields, P f.2) (fun f => P f.2)
    unreadable null bool num str arr obj ?_ ?_ ?_ ?_ ?_ d
  · exact fun d h => absurd h List.not_mem_nil
  · intro d rest hd hrest e he
    rcases List.mem_cons.mp he with rfl | he
    · exact hd
    · exact hrest e he
  · exact fun f h => absurd h List.not_mem_nil
  · intro f rest hf hrest g hg
    rcases List.mem_cons.mp hg with rfl | hg
    · exact hf
    · exact hrest g hg
  · exact fun _ _ h => h

theorem sorted_of_itemsToJson? {items : List Document} (h : ∀ d ∈ items, ∀ v, d.toJson? = some v → v.Sorted)
    {values : List Json} (hr : itemsToJson? items = some values) : ∀ v ∈ values, v.Sorted := by
  induction items generalizing values with
  | nil =>
    rw [← Option.some.inj hr]
    exact fun v hv => absurd hv List.not_mem_nil
  | cons d items ih =>
    simp only [itemsToJson?, Option.bind_eq_bind, Option.bind_eq_some_iff, Option.pure_def, Option.some.injEq] at hr
    obtain ⟨v, hv, rest, hrest, rfl⟩ := hr
    intro u hu
    rcases List.mem_cons.mp hu with rfl | hu
    · exact h d List.mem_cons_self u hv
    · exact ih (fun e he => h e (List.mem_cons_of_mem d he)) hrest u hu

theorem sorted_of_fieldsToJson? {fields : List (Option String × Document)}
    (h : ∀ f ∈ fields, ∀ v, f.2.toJson? = some v → v.Sorted) {known result : Object}
    (hk : (Json.obj known).Sorted) (hr : fieldsToJson? known fields = some result) : (Json.obj result).Sorted := by
  induction fields generalizing known with
  | nil =>
    rw [← Option.some.inj hr]
    exact hk
  | cons f fields ih =>
    obtain ⟨key?, d⟩ := f
    cases key? with
    | none => exact absurd hr (by simp [fieldsToJson?])
    | some key =>
      simp only [fieldsToJson?, Option.bind_eq_bind, Option.bind_eq_some_iff] at hr
      obtain ⟨v, hv, hr⟩ := hr
      have hs := h (some key, d) List.mem_cons_self v hv
      exact ih (fun g hg => h g (List.mem_cons_of_mem _ hg)) (Json.sorted_insert hs hk) hr

theorem sorted_of_toJson? {d : Document} {v : Json} (h : d.toJson? = some v) : v.Sorted := by
  induction d using Document.induction generalizing v with
  | unreadable => exact absurd h (by simp [toJson?])
  | null => exact Option.some.inj h ▸ Json.sorted_null
  | bool b => exact Option.some.inj h ▸ Json.sorted_bool b
  | num n => exact Option.some.inj h ▸ Json.sorted_num n
  | str s => exact Option.some.inj h ▸ Json.sorted_str s
  | arr items ih =>
    simp only [toJson?, Option.map_eq_some_iff] at h
    obtain ⟨values, hr, rfl⟩ := h
    exact Json.sorted_arr.mpr (sorted_of_itemsToJson? (fun d hd v hv => ih d hd hv) hr)
  | obj fields ih =>
    simp only [toJson?, Option.map_eq_some_iff] at h
    obtain ⟨result, hr, rfl⟩ := h
    exact sorted_of_fieldsToJson? (fun f hf v hv => ih f hf hv) (by simp [Object.Ascending]) hr

end Document

namespace Json

theorem sorted_obj_nil : (Json.obj []).Sorted := by simp [Object.Ascending]

/-- Whatever its key is, a field is written in its place. -/
theorem hereditary_sorted : Hereditary (fun _ => True) Sorted where
  null := sorted_null
  arr := sorted_arr
  empty := sorted_obj_nil
  insert _ := sorted_insert
  get? := sorted_of_get?

end Json

end Chronicle
