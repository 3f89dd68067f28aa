import Chronicle.Proofs.PathSteps
import Chronicle.Proofs.SortedValues

/-!
# Paths as lenses

A value that has been written at a path is read back there, the last of two writes wins, and writing what is there
changes nothing. Where a value can be read it can be overwritten in place, with the result of a write.
-/

namespace Chronicle

namespace Object

theorem insert_insert (key : String) (v w : Json) (fields : Object) :
    insert key w (insert key v fields) = insert key w fields := by
  induction fields with
  | nil => simp [insert]
  | cons f fields ih =>
    obtain ⟨k, u⟩ := f
    by_cases hlt : key < k
    · simp [insert, hlt]
    by_cases heq : key = k
    · simp [insert, heq]
    · simp [insert, hlt, heq, ih]

theorem insert_eq_self {key : String} {v : Json} {fields : Object} (ha : fields.Ascending)
    (hg : get? key fields = some v) : insert key v fields = fields := by
  induction fields with
  | nil => exact absurd hg (by simp [get?])
  | cons f fields ih =>
    obtain ⟨k, u⟩ := f
    obtain ⟨hfirst, hrest⟩ := List.pairwise_cons.mp ha
    rw [get?, List.lookup_cons] at hg
    by_cases heq : key = k
    · subst heq
      rw [beq_self_eq_true] at hg
      simp [insert, Option.some.inj hg]
    · rw [beq_false_of_ne heq] at hg
      -- the key is one of the later ones, which are greater
      have hlt : ¬key < k := fun h =>
        String.lt_irrefl key (String.lt_trans h (hfirst _ (Json.mem_of_lookup hg)))
      simp [insert, hlt, heq, ih hrest hg]

end Object

namespace Segment

variable {s : Segment} {c v w : Json}

theorem Passes.child?_put (h : s.Passes c) (w : Json) : (s.put w c).child? s = some w := by
  rcases h.cases with ⟨fields, rfl⟩ | ⟨items, i, rfl, hi, -⟩
  · exact Object.lookup_insert_self _ _ _
  · have hlt : i < (Json.padded i items).length := by
      rw [Json.length_padded]
      omega
    simp [put, Json.child?, hi, List.getElem?_set_self hlt]

theorem Passes.put (h : s.Passes c) (w : Json) : s.Passes (s.put w c) := passes_of_child? (h.child?_put w)

theorem Passes.put_put (h : s.Passes c) (v w : Json) : s.put w (s.put v c) = s.put w c := by
  rcases h.cases with ⟨fields, rfl⟩ | ⟨items, i, rfl, hi, -⟩
  · exact congrArg Json.obj (Object.insert_insert _ _ _ _)
  · have hlt : i < ((Json.padded i items).set i v).length := by
      rw [List.length_set, Json.length_padded]
      omega
    simp only [Segment.put, hi, Option.elim_some, Json.padded_eq_self hlt, List.set_set]

theorem put_eq_self (hs : v.Sorted) (h : v.child? s = some w) : s.put w v = v := by
  rcases Json.child?_cases h with ⟨fields, rfl, hget⟩ | ⟨items, i, rfl, hi, hget⟩
  · exact congrArg Json.obj (Object.insert_eq_self (Json.sorted_obj.mp hs).1 hget)
  · obtain ⟨hlt, rfl⟩ := List.getElem?_eq_some_iff.mp hget
    simp only [put, hi, Option.elim_some, Json.padded_eq_self hlt, List.set_getElem_self]

end Segment

namespace Json

variable {segments : List Segment} {new v w : Json}

theorem valueAt?_setAt (h : setAt new segments v = .ok w) : valueAt? segments w = some new := by
  induction segments generalizing v w with
  | nil =>
    obtain rfl := Except.ok.inj h
    rfl
  | cons s rest ih =>
    obtain ⟨hp, below, hbelow, rfl⟩ := setAt_cons_eq_ok_iff.mp h
    rw [valueAt?, hp.child?_put]
    exact ih hbelow

theorem setAt_setAt {old : Json} (h : setAt old segments v = .ok w) : setAt new segments w = setAt new segments v := by
  induction segments generalizing v w with
  | nil => rfl
  | cons s rest ih =>
    obtain ⟨hp, below, hbelow, rfl⟩ := setAt_cons_eq_ok_iff.mp h
    have hput := hp.put below
    rw [setAt_cons, setAt_cons, hput.container, hput.clear, hp.clear, hp.child?_put, Option.getD_some, ih hbelow]
    simp only [hp.put_put]

/-- Where there is a value, a write succeeds and does the same as a replacement. -/
theorem exists_setAt_of_valueAt? (h : valueAt? segments v = some w) (new : Json) :
    ∃ result, setAt new segments v = .ok result ∧ replaceAt? new segments v = some result := by
  induction segments generalizing v with
  | nil => exact ⟨new, rfl, rfl⟩
  | cons s rest ih =>
    obtain ⟨old, hold, h⟩ := Option.bind_eq_some_iff.mp h
    obtain ⟨below, hset, hreplace⟩ := ih h
    have hp := Segment.passes_of_child? hold
    refine ⟨s.put below v, ?_, ?_⟩
    · refine setAt_cons_eq_ok_iff.mpr ?_
      rw [hp.container, hold]
      exact ⟨hp, below, hset, rfl⟩
    · rw [← Segment.setChild_eq_put hold]
      simp only [replaceAt?, hold, hreplace, Option.bind_eq_bind, Option.bind_some, Option.pure_def]

theorem exists_valueAt?_of_replaceAt? (h : replaceAt? new segments v = some w) :
    ∃ old, valueAt? segments v = some old := by
  induction segments generalizing v w with
  | nil => exact ⟨v, rfl⟩
  | cons s rest ih =>
    simp only [replaceAt?, Option.bind_eq_bind, Option.bind_eq_some_iff] at h
    obtain ⟨child, hchild, below, hbelow, -⟩ := h
    rw [valueAt?, hchild]
    exact ih hbelow

theorem setAt_valueAt? (hv : v.Sorted) (h : valueAt? segments v = some w) : setAt w segments v = .ok v := by
  induction segments generalizing v with
  | nil =>
    obtain rfl := Option.some.inj h
    rfl
  | cons s rest ih =>
    obtain ⟨child, hchild, h⟩ := Option.bind_eq_some_iff.mp h
    have hp := Segment.passes_of_child? hchild
    refine setAt_cons_eq_ok_iff.mpr ?_
    rw [hp.container, hchild]
    exact ⟨hp, child, ih (hereditary_sorted.child? hv hchild) h, Segment.put_eq_self hv hchild⟩

end Json

namespace Path

variable {p : Path} {root : Object}

theorem exists_set_of_get? {w : Json} (h : p.get? root = some w) (v : Json) :
    ∃ result, p.set v root = .ok result ∧ p.replace? v root = some result := by
  rw [get?_eq] at h
  obtain ⟨tree, hset, hreplace⟩ := Json.exists_setAt_of_valueAt? h v
  rw [replaceAt?_obj] at hreplace
  obtain ⟨result, hresult, rfl⟩ := Option.map_eq_some_iff.mp hreplace
  exact ⟨result, set_eq_ok_iff.mpr hset, hresult⟩

theorem get?_of_set {v : Json} {result : Object} (h : p.set v root = .ok result) : p.get? result = some v :=
  Json.valueAt?_setAt (set_eq_ok_iff.mp h)

/-- The last of two writes wins. -/
theorem set_of_set {v w : Json} {between result : Object} (h : p.set v root = .ok between)
    (hw : p.set w between = .ok result) : p.set w root = .ok result := by
  rw [set_eq_ok_iff] at h hw ⊢
  rwa [← Json.setAt_setAt h]

theorem isSome_replace? (p : Path) (v : Json) (root : Object) : (p.replace? v root).isSome = (p.get? root).isSome := by
  rw [Bool.eq_iff_iff, Option.isSome_iff_exists, Option.isSome_iff_exists]
  constructor
  · rintro ⟨result, h⟩
    have hreplace : Json.replaceAt? v p.segments (.obj root) = some (.obj result) := by
      rw [replaceAt?_obj, h, Option.map_some]
    rw [get?_eq]
    exact Json.exists_valueAt?_of_replaceAt? hreplace
  · rintro ⟨w, h⟩
    obtain ⟨result, -, hresult⟩ := exists_set_of_get? h v
    exact ⟨result, hresult⟩

/-- Writing at a path and reading there are a lens on the tree: what is written is read, the last of two writes
wins, and to write what is there changes nothing, as objects keep their keys in order. A replacement succeeds where
there is a value and does what the write does. -/
theorem lawful_lens (p : Path) (root : Object) :
    (∀ v result, p.set v root = .ok result → p.get? result = some v ∧ p.has result = true) ∧
      (∀ v₁ v₂ between, p.set v₁ root = .ok between →
        ∃ result, p.set v₂ between = .ok result ∧ p.set v₂ root = .ok result) ∧
      (∀ w, p.get? root = some w → ((Json.obj root).Sorted → p.set w root = .ok root) ∧
        ∀ v, ∃ result, p.set v root = .ok result ∧ p.replace? v root = some result) ∧
      ∀ v, (p.replace? v root).isSome = (p.get? root).isSome := by
  refine ⟨fun v result h => ?_, fun v₁ v₂ between h => ?_, fun w h => ⟨fun hs => ?_, fun v => ?_⟩, fun v => ?_⟩
  · have hget : p.get? result = some v := Json.valueAt?_setAt (set_eq_ok_iff.mp h)
    exact ⟨hget, by rw [has, hget]; rfl⟩
  · have hagain : Json.setAt v₂ p.segments (.obj between) = Json.setAt v₂ p.segments (.obj root) :=
      Json.setAt_setAt (set_eq_ok_iff.mp h)
    obtain ⟨result, hresult, -⟩ := exists_set_of_get? (Json.valueAt?_setAt (set_eq_ok_iff.mp h)) v₂
    exact ⟨result, hresult, set_eq_ok_iff.mpr (hagain ▸ set_eq_ok_iff.mp hresult)⟩
  · rw [get?_eq] at h
    exact set_eq_ok_iff.mpr (Json.setAt_valueAt? hs h)
  · exact exists_set_of_get? h v
  · exact isSome_replace? p v root

/-- The name of the second member of a party. -/
def memberName : Path := ⟨"party[1].name", .key "party", [.index 1, .key "name"]⟩

def party : Object := [("party", .arr [.null, .obj [("name", .str "Kay")]])]

theorem lawful_lens_party : ofString "party[1].name" = .ok memberName ∧ (Json.obj party).Sorted ∧
    memberName.get? party = some (.str "Kay") ∧ memberName.set (.str "Kay") party = .ok party ∧
      ∃ result, memberName.set (.str "Bo") party = .ok result ∧
        memberName.replace? (.str "Bo") party = some result ∧ memberName.get? result = some (.str "Bo") := by
  have hs : (Json.obj party).Sorted := by simp [party, Object.Ascending]
  have hget : memberName.get? party = some (.str "Kay") := rfl
  obtain ⟨hread, -, hkept, -⟩ := lawful_lens memberName party
  obtain ⟨hsame, hwritten⟩ := hkept _ hget
  obtain ⟨result, hset, hreplace⟩ := hwritten (.str "Bo")
  exact ⟨rfl, hs, hget, hsame hs, result, hset, hreplace, (hread _ _ hset).1⟩

end Path

end Chronicle
