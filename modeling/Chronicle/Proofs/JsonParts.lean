import Chronicle.Json.Basic

/-!
# The parts of a value

A value and all values inside it, the texts and numbers among them, how deeply containers nest, and
the order of the keys that plain values keep.
-/

namespace Chronicle

/-- The keys ascend by code point, so none of them is there twice. -/
def Object.Ascending (fields : Object) : Prop := fields.Pairwise fun f g => f.1 < g.1

namespace Json

/-- A property of all values, proved for a container from its parts. -/
@[elab_as_elim]
theorem induction {P : Json → Prop} (null : P .null) (bool : ∀ b, P (.bool b)) (num : ∀ n, P (.num n))
    (str : ∀ s, P (.str s)) (arr : ∀ items, (∀ v ∈ items, P v) → P (.arr items))
    (obj : ∀ fields, (∀ f ∈ fields, P f.2) → P (.obj fields)) (v : Json) : P v := by
  refine @Json.rec P (fun items => ∀ v ∈ items, P v) (fun fields => ∀ f ∈ fields, P f.2) (fun f => P f.2)
    null bool num str arr obj ?_ ?_ ?_ ?_ ?_ v
  · exact fun v h => absurd h List.not_mem_nil
  · intro v rest hv hrest u hu
    rcases List.mem_cons.mp hu with rfl | hu
    · exact hv
    · exact hrest u hu
  · exact fun f h => absurd h List.not_mem_nil
  · intro f rest hf hrest g hg
    rcases List.mem_cons.mp hg with rfl | hg
    · exact hf
    · exact hrest g hg
  · exact fun _ _ h => h

mutual

def parts : Json → List Json
  | .arr items => .arr items :: partsOfItems items
  | .obj fields => .obj fields :: partsOfFields fields
  | .null => [.null]
  | .bool b => [.bool b]
  | .num n => [.num n]
  | .str s => [.str s]

def partsOfItems : List Json → List Json
  | [] => []
  | v :: rest => v.parts ++ partsOfItems rest

def partsOfFields : List (String × Json) → List Json
  | [] => []
  | (_, v) :: rest => v.parts ++ partsOfFields rest

/-- How deeply containers nest in the value. -/
def depth : Json → Nat
  | .arr items => depthOfItems items + 1
  | .obj fields => depthOfFields fields + 1
  | _ => 0

def depthOfItems : List Json → Nat
  | [] => 0
  | v :: rest => max v.depth (depthOfItems rest)

def depthOfFields : List (String × Json) → Nat
  | [] => 0
  | (_, v) :: rest => max v.depth (depthOfFields rest)

end

/-- The texts of the value: its strings and the keys of its objects. -/
def texts (v : Json) : List String := v.parts.flatMap fun
  | .str s => [s]
  | .obj fields => fields.map (·.1)
  | _ => []

def numbers (v : Json) : List Num := v.parts.filterMap fun
  | .num n => some n
  | _ => none

/-- The keys of every object in the value ascend, as in all plain values. -/
def Sorted (v : Json) : Prop := ∀ fields, .obj fields ∈ v.parts → Object.Ascending fields

theorem mem_partsOfItems {u : Json} {items : List Json} : u ∈ partsOfItems items ↔ ∃ v ∈ items, u ∈ v.parts := by
  induction items with
  | nil => simp [partsOfItems]
  | cons v rest ih => simp [partsOfItems, ih]

theorem mem_partsOfFields {u : Json} {fields : Object} :
    u ∈ partsOfFields fields ↔ ∃ f ∈ fields, u ∈ f.2.parts := by
  induction fields with
  | nil => simp [partsOfFields]
  | cons f rest ih => simp [partsOfFields, ih]

theorem mem_parts_arr {u : Json} {items : List Json} :
    u ∈ (Json.arr items).parts ↔ u = .arr items ∨ ∃ v ∈ items, u ∈ v.parts := by
  rw [parts, List.mem_cons, mem_partsOfItems]

theorem mem_parts_obj {u : Json} {fields : Object} :
    u ∈ (Json.obj fields).parts ↔ u = .obj fields ∨ ∃ f ∈ fields, u ∈ f.2.parts := by
  rw [parts, List.mem_cons, mem_partsOfFields]

@[simp] theorem mem_texts_str {t s : String} : t ∈ (Json.str s).texts ↔ t = s := by
  simp [texts, parts]

@[simp] theorem texts_null : Json.null.texts = [] := by simp [texts, parts]

@[simp] theorem texts_bool (b : Bool) : (Json.bool b).texts = [] := by simp [texts, parts]

@[simp] theorem texts_num (n : Num) : (Json.num n).texts = [] := by simp [texts, parts]

@[simp] theorem mem_texts_arr {t : String} {items : List Json} :
    t ∈ (Json.arr items).texts ↔ ∃ v ∈ items, t ∈ v.texts := by
  simp only [texts, List.mem_flatMap, mem_parts_arr]
  constructor
  · rintro ⟨u, rfl | ⟨v, hv, hu⟩, ht⟩
    · simp at ht
    · exact ⟨v, hv, u, hu, ht⟩
  · rintro ⟨v, hv, u, hu, ht⟩
    exact ⟨u, Or.inr ⟨v, hv, hu⟩, ht⟩

@[simp] theorem mem_texts_obj {t : String} {fields : Object} :
    t ∈ (Json.obj fields).texts ↔ ∃ f ∈ fields, t = f.1 ∨ t ∈ f.2.texts := by
  simp only [texts, List.mem_flatMap, mem_parts_obj]
  constructor
  · rintro ⟨u, rfl | ⟨f, hf, hu⟩, ht⟩
    · obtain ⟨f, hf, rfl⟩ := List.mem_map.mp ht
      exact ⟨f, hf, Or.inl rfl⟩
    · exact ⟨f, hf, Or.inr ⟨u, hu, ht⟩⟩
  · rintro ⟨f, hf, rfl | ⟨u, hu, ht⟩⟩
    · exact ⟨_, Or.inl rfl, List.mem_map_of_mem hf⟩
    · exact ⟨u, Or.inr ⟨f, hf, hu⟩, ht⟩

@[simp] theorem mem_numbers_num {m n : Num} : m ∈ (Json.num n).numbers ↔ m = n := by
  simp [numbers, parts]

@[simp] theorem numbers_null : Json.null.numbers = [] := by simp [numbers, parts]

@[simp] theorem numbers_bool (b : Bool) : (Json.bool b).numbers = [] := by simp [numbers, parts]

@[simp] theorem numbers_str (s : String) : (Json.str s).numbers = [] := by simp [numbers, parts]

theorem mem_numbers {n : Num} {v : Json} : n ∈ v.numbers ↔ .num n ∈ v.parts := by
  simp only [numbers, List.mem_filterMap]
  constructor
  · rintro ⟨u, hu, h⟩
    cases u <;> simp_all
  · exact fun h => ⟨_, h, rfl⟩

@[simp] theorem mem_numbers_arr {n : Num} {items : List Json} :
    n ∈ (Json.arr items).numbers ↔ ∃ v ∈ items, n ∈ v.numbers := by
  simp [mem_numbers, mem_parts_arr]

@[simp] theorem mem_numbers_obj {n : Num} {fields : Object} :
    n ∈ (Json.obj fields).numbers ↔ ∃ f ∈ fields, n ∈ f.2.numbers := by
  simp [mem_numbers, mem_parts_obj]

@[simp] theorem sorted_arr {items : List Json} : (Json.arr items).Sorted ↔ ∀ v ∈ items, v.Sorted := by
  simp only [Sorted, mem_parts_arr]
  constructor
  · exact fun h v hv fields hf => h fields (Or.inr ⟨v, hv, hf⟩)
  · rintro h fields (hf | ⟨v, hv, hf⟩)
    · exact absurd hf (by simp)
    · exact h v hv fields hf

@[simp] theorem sorted_obj {fields : Object} :
    (Json.obj fields).Sorted ↔ Object.Ascending fields ∧ ∀ f ∈ fields, f.2.Sorted := by
  simp only [Sorted, mem_parts_obj]
  constructor
  · exact fun h => ⟨h fields (Or.inl rfl), fun f hf inner hi => h inner (Or.inr ⟨f, hf, hi⟩)⟩
  · rintro ⟨ha, h⟩ inner (hi | ⟨f, hf, hi⟩)
    · rw [Json.obj.inj hi]
      exact ha
    · exact h f hf inner hi

@[simp] theorem sorted_null : Json.null.Sorted := by simp [Sorted, parts]

@[simp] theorem sorted_bool (b : Bool) : (Json.bool b).Sorted := by simp [Sorted, parts]

@[simp] theorem sorted_num (n : Num) : (Json.num n).Sorted := by simp [Sorted, parts]

@[simp] theorem sorted_str (s : String) : (Json.str s).Sorted := by simp [Sorted, parts]

theorem depth_arr_le {items : List Json} {d : Nat} :
    (Json.arr items).depth ≤ d ↔ 0 < d ∧ ∀ v ∈ items, v.depth ≤ d - 1 := by
  have h : ∀ k, depthOfItems items ≤ k ↔ ∀ v ∈ items, v.depth ≤ k := by
    intro k
    induction items with
    | nil => simp [depthOfItems]
    | cons v rest ih => rw [depthOfItems, Nat.max_le, ih, List.forall_mem_cons]
  rw [← h, depth]
  omega

theorem depth_obj_le {fields : Object} {d : Nat} :
    (Json.obj fields).depth ≤ d ↔ 0 < d ∧ ∀ f ∈ fields, f.2.depth ≤ d - 1 := by
  have h : ∀ k, depthOfFields fields ≤ k ↔ ∀ f ∈ fields, f.2.depth ≤ k := by
    intro k
    induction fields with
    | nil => simp [depthOfFields]
    | cons f rest ih => rw [depthOfFields, Nat.max_le, ih, List.forall_mem_cons]
  rw [← h, depth]
  omega

end Json

end Chronicle
