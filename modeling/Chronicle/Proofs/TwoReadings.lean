import Chronicle.Proofs.StateInvariants

/-!
# Two ways to read a state

A state is read from a text, or from the plain value that the text holds. The record of the text and the record of
the value have the same values in all fields, as long as the text repeats none of them, and every field is read by
the value that it has.
-/

namespace Chronicle

namespace Document

theorem lookup_map (read : α → β) (fields : List (String × α)) (key : String) :
    (fields.map fun f => (f.1, read f.2)).lookup key = (fields.lookup key).map read := by
  induction fields with
  | nil => rfl
  | cons f fields ih =>
    rw [List.map_cons, List.lookup_cons, List.lookup_cons, ih]
    cases key == f.1 <;> rfl

theorem lookup_filter {names : List String} {name : String} (h : name ∈ names) (fields : List (String × α)) :
    (fields.filter fun f => names.contains f.1).lookup name = fields.lookup name := by
  induction fields with
  | nil => rfl
  | cons f fields ih =>
    rw [List.filter_cons, List.lookup_cons]
    split
    · rw [List.lookup_cons, ih]
    · next hf =>
      have hne : name ≠ f.1 := by
        rintro rfl
        exact hf (List.contains_iff_mem.mpr h)
      rw [ih, beq_false_of_ne hne]

theorem lookup_zip_map (read : α → β) (names : List String) (items : List α) (key : String) :
    ((names.zip items).lookup key).map read = (names.zip (items.map read)).lookup key := by
  have hzip : names.zip (items.map read) = (names.zip items).map fun f => (f.1, read f.2) := List.zip_map_right
  rw [hzip, lookup_map]

/-- In an object that is a plain value all keys can be read. -/
theorem exists_named {fields : List (Option String × Document)} {known result : Object}
    (h : fieldsToJson? known fields = some result) :
    ∃ named : List (String × Document), fields = named.map fun f => (some f.1, f.2) := by
  induction fields generalizing known with
  | nil => exact ⟨[], rfl⟩
  | cons f fields ih =>
    obtain ⟨key?, d⟩ := f
    cases key? with
    | none => exact absurd h (by simp [fieldsToJson?])
    | some key =>
      simp only [fieldsToJson?, Option.bind_eq_bind, Option.bind_eq_some_iff] at h
      obtain ⟨v, -, h⟩ := h
      obtain ⟨named, rfl⟩ := ih h
      exact ⟨(key, d) :: named, rfl⟩

/-- A key that is not repeated has in the plain value the value that stands at it in the text. -/
theorem lookup_of_fieldsToJson? {named : List (String × Document)} {known result : Object} {key : String}
    (h : fieldsToJson? known (named.map fun f => (some f.1, f.2)) = some result)
    (honce : (named.map (·.1)).count key ≤ 1) :
    (result.lookup key).map some = ((named.lookup key).map toJson?).or ((known.lookup key).map some) := by
  induction named generalizing known with
  | nil =>
    rw [← Option.some.inj h]
    rfl
  | cons f named ih =>
    obtain ⟨k, d⟩ := f
    simp only [List.map_cons, fieldsToJson?, Option.bind_eq_bind, Option.bind_eq_some_iff] at h
    obtain ⟨v, hv, h⟩ := h
    rw [List.map_cons, List.count_cons] at honce
    rw [ih h (by omega)]
    by_cases hk : k = key
    · subst hk
      -- the other fields have another key, so the value that has been written stays
      have hnone : named.lookup k = none := by
        rw [List.lookup_eq_none_iff]
        intro g hg
        have hcount : (named.map (·.1)).count k = 0 := by
          rw [if_pos (beq_self_eq_true k)] at honce
          omega
        have hne : k ≠ g.1 := fun he => List.count_eq_zero.mp hcount (he ▸ List.mem_map_of_mem hg)
        simpa using hne
      rw [hnone, List.lookup_cons_self, Object.lookup_insert_self, Option.map_some, Option.map_some, hv]
      rfl
    · rw [Object.lookup_insert_of_ne (Ne.symm hk), List.lookup_cons, beq_false_of_ne (Ne.symm hk)]

/-- Both records are there and have the same values in all fields, or neither is there. -/
def SameRecord (names : List String) (fields? fields?' : Option (List (String × Document))) : Prop :=
  (fields? = none ∧ fields?' = none) ∨ ∃ fields fields', fields? = some fields ∧ fields?' = some fields' ∧
    ∀ name ∈ names, (fields.lookup name).map toJson? = (fields'.lookup name).map toJson?

theorem map_of_itemsToJson? {items : List Document} {values : List Json} (h : itemsToJson? items = some values) :
    items.map toJson? = values.map some := by
  induction items generalizing values with
  | nil =>
    rw [← Option.some.inj h]
    rfl
  | cons d items ih =>
    simp only [itemsToJson?, Option.bind_eq_bind, Option.bind_eq_some_iff, Option.pure_def, Option.some.injEq] at h
    obtain ⟨v, hv, rest, hrest, rfl⟩ := h
    rw [List.map_cons, List.map_cons, hv, ih hrest]

theorem sameRecord_arr (names : List String) {items : List Document} {values : List Json}
    (h : itemsToJson? items = some values) :
    SameRecord names (record? names (.arr items)) (record? names (Json.arr values).toDocument) := by
  have hvalues : (Json.itemsToDocument values).map toJson? = values.map some := by
    rw [Json.itemsToDocument_eq_map, List.map_map]
    apply List.map_congr_left
    intro v hv
    exact toJson?_toDocument (sorted_of_itemsToJson? (fun d _ v hv => sorted_of_toJson? hv) h v hv)
  have hitems : items.map toJson? = (Json.itemsToDocument values).map toJson? :=
    (map_of_itemsToJson? h).trans hvalues.symm
  have hlength : items.length = (Json.itemsToDocument values).length := by simpa using congrArg List.length hitems
  rw [Json.toDocument, record?, record?, ← hlength]
  by_cases hle : items.length ≤ names.length
  · rw [if_pos hle, if_pos hle]
    refine Or.inr ⟨_, _, rfl, rfl, fun name _ => ?_⟩
    rw [lookup_zip_map, lookup_zip_map, hitems]
  · rw [if_neg hle, if_neg hle]
    exact Or.inl ⟨rfl, rfl⟩

theorem nodup_known {names : List String} {named : List (String × Document)}
    (h : ∀ name ∈ names, (named.map (·.1)).count name ≤ 1) :
    ((named.filter fun f => names.contains f.1).map (·.1)).Nodup := by
  rw [List.nodup_iff_count]
  intro name
  by_cases hname : name ∈ names
  · exact Nat.le_trans ((List.filter_sublist.map _).count_le name) (h name hname)
  · have hnot : name ∉ (named.filter fun f => names.contains f.1).map (·.1) := by
      intro hm
      obtain ⟨f, hf, rfl⟩ := List.mem_map.mp hm
      exact hname (List.contains_iff_mem.mp (List.mem_filter.mp hf).2)
    rw [List.count_eq_zero.mpr hnot]
    exact Nat.zero_le 1

theorem sameRecord_obj {names : List String} {fields : List (Option String × Document)} {result : Object}
    (h : fieldsToJson? [] fields = some result) (honce : ∀ name ∈ names, (fields.map (·.1)).count (some name) ≤ 1) :
    SameRecord names (record? names (.obj fields)) (record? names (Json.obj result).toDocument) := by
  obtain ⟨named, rfl⟩ := exists_named h
  have hsorted : (Json.obj result).Sorted :=
    sorted_of_fieldsToJson? (fun f _ v hv => sorted_of_toJson? hv) Json.sorted_obj_nil h
  obtain ⟨hascending, hvalues⟩ := Json.sorted_obj.mp hsorted
  have hcount : ∀ name ∈ names, (named.map (·.1)).count name ≤ 1 := by
    intro name hname
    have hsome := honce name hname
    have hcount : ((named.map fun f => (some f.1, f.2)).map (·.1)).count (some name) =
        (named.map (·.1)).count name := by
      simp only [List.count, List.countP_map]
      rfl
    rwa [hcount] at hsome
  have hown : record? names (Json.obj result).toDocument =
      some ((result.map fun f => (f.1, f.2.toDocument)).filter fun f => names.contains f.1) := by
    have hnamed := record?_named names (result.map fun f => (f.1, f.2.toDocument))
    rw [List.map_map] at hnamed
    rw [Json.toDocument, Json.fieldsToDocument_eq_map]
    refine hnamed.trans (if_pos (List.Nodup.sublist (List.filter_sublist.map _) ?_))
    rw [List.map_map]
    exact Object.nodup_of_ascending hascending
  refine Or.inr ⟨_, _, (record?_named names named).trans (if_pos (nodup_known hcount)), hown, fun name hname => ?_⟩
  rw [lookup_filter hname, lookup_filter hname, lookup_map, Option.map_map]
  have hlookup := lookup_of_fieldsToJson? h (hcount name hname)
  rw [List.lookup_nil, Option.map_none, Option.or_none] at hlookup
  rw [← hlookup]
  cases hv : result.lookup name with
  | none => rfl
  | some v => rw [Option.map_some, Option.map_some, Function.comp, toJson?_toDocument (Json.sorted_of_get? hsorted hv)]

/-- The record of a text and the record of its plain value are the same, if no field that they know is repeated. -/
theorem sameRecord_toDocument {names : List String} {d : Document} {v : Json} (h : d.toJson? = some v)
    (honce : ∀ fields, d = .obj fields → ∀ name ∈ names, (fields.map (·.1)).count (some name) ≤ 1) :
    SameRecord names (d.record? names) (v.toDocument.record? names) := by
  cases d with
  | unreadable => exact absurd h (by simp [toJson?])
  | null | bool b | num n | str s =>
    rw [← Option.some.inj h]
    exact Or.inl ⟨rfl, rfl⟩
  | arr items =>
    obtain ⟨values, hvalues, rfl⟩ := Option.map_eq_some_iff.mp h
    exact sameRecord_arr names hvalues
  | obj fields =>
    obtain ⟨result, hresult, rfl⟩ := Option.map_eq_some_iff.mp h
    exact sameRecord_obj hresult (honce fields rfl)

theorem asString?_eq_some_iff {d : Document} {s : String} : d.asString? = some s ↔ d.toJson? = some (.str s) := by
  cases d <;> simp [asString?, toJson?]

/-- A list of texts is read from the documents whose plain value is that list. -/
theorem asList?_eq_some_iff {d : Document} {l : List String} :
    asList? asString? d = some l ↔ d.toJson? = some (.ofStrings l) := by
  have hitems (items : List Document) :
      items.mapM asString? = some l ↔ itemsToJson? items = some (l.map Json.str) := by
    induction items generalizing l with
    | nil => cases l <;> simp [itemsToJson?]
    | cons d items ih =>
      cases l with
      | nil => simp [itemsToJson?, Option.bind_eq_some_iff]
      | cons s l => simp [itemsToJson?, Option.bind_eq_some_iff, asString?_eq_some_iff, ih]
  cases d <;> simp [asList?, toJson?, Json.ofStrings, hitems]

theorem optional_congr {fields fields' : List (String × Document)} {name : String} {default : α}
    {read? : Document → Option α} (hread : ∀ d e : Document, d.toJson? = e.toJson? → read? d = read? e)
    (h : (fields.lookup name).map toJson? = (fields'.lookup name).map toJson?) :
    optional fields name default read? = optional fields' name default read? := by
  unfold optional
  cases hd : fields.lookup name with
  | none =>
    rw [hd] at h
    rw [Option.map_eq_none_iff.mp h.symm]
  | some d =>
    rw [hd] at h
    obtain ⟨e, he, heq⟩ := Option.map_eq_some_iff.mp h.symm
    rw [he]
    exact hread d e heq.symm

end Document

namespace State

theorem ofDocument?_toDocument {d : Document} {v : Json} (h : d.toJson? = some v)
    (honce : ∀ fields, d = .obj fields → ∀ name ∈ ["static", "volatile", "responseSummary"],
      (fields.map (·.1)).count (some name) ≤ 1) : ofDocument? d = ofDocument? v.toDocument := by
  unfold ofDocument?
  rcases Document.sameRecord_toDocument h honce with ⟨hd, hv⟩ | ⟨fields, fields', hd, hv, hsame⟩
  · rw [hd, hv]
  · have hvars : Document.optional fields "static" [] Document.asObject? =
        Document.optional fields' "static" [] Document.asObject? :=
      Document.optional_congr (fun d e he => by rw [Document.asObject?, Document.asObject?, he])
        (hsame "static" (by simp))
    have hschedule : Document.optional fields "volatile" [] (fun d => d.toJson?.map scheduleOf) =
        Document.optional fields' "volatile" [] (fun d => d.toJson?.map scheduleOf) :=
      Document.optional_congr (fun d e he => by rw [he]) (hsame "volatile" (by simp))
    have hsummaries : Document.optional fields "responseSummary" [] (Document.asList? Document.asString?) =
        Document.optional fields' "responseSummary" [] (Document.asList? Document.asString?) :=
      Document.optional_congr
        (fun d e he => Option.ext fun l => by rw [Document.asList?_eq_some_iff, Document.asList?_eq_some_iff, he])
        (hsame "responseSummary" (by simp))
    simp only [hd, hv, Option.bind_eq_bind, Option.bind_some, hvars, hschedule, hsummaries]

/-- A text that holds a plain value is read as a state as the value is: both ways give the same state or none. Only
an object that repeats a field of states is apart. -/
theorem parse?_eq_ofStored? {text : String} {v : Json} (hv : Json.parse? text = some v)
    (honce : ∀ fields, Document.ofString? text = some (.obj fields) →
      ∀ name ∈ ["static", "volatile", "responseSummary"], (fields.map (·.1)).count (some name) ≤ 1) :
    parse? text = ofStored? v := by
  obtain ⟨d, hd, hvalue⟩ := Option.bind_eq_some_iff.mp hv
  rw [parse?, hd, Option.bind_some, ofStored?]
  exact ofDocument?_toDocument hvalue fun fields hfields => honce fields (hfields ▸ hd)

/-- A schedule with an entry that cannot be read, a key repeated among the variables, and a field that states do not
have. -/
def lodge : String :=
  "\x7b\"extra\":[\x7b\"a\":1,\"a\":2\x7d],\"volatile\":[[\"door\",1e2,false,2.5],[\"gate\"]],\"static\":\x7b\"hp\":1,\"hp\":7\x7d\x7d"

theorem parse?_eq_ofStored?_lodge :
    ∃ v s, Json.parse? lodge = some v ∧ parse? lodge = some s ∧ ofStored? v = some s := by
  have hvalue : (Json.parse? lodge).isSome = true := by decide +kernel
  have hstate : (parse? lodge).isSome = true := by decide +kernel
  have honce : (Document.ofString? lodge).all fun d => match d with
      | .obj fields => ["static", "volatile", "responseSummary"].all fun name =>
        decide ((fields.map (·.1)).count (some name) ≤ 1)
      | _ => true := by
    decide +kernel
  obtain ⟨v, hv⟩ := Option.isSome_iff_exists.mp hvalue
  obtain ⟨s, hs⟩ := Option.isSome_iff_exists.mp hstate
  refine ⟨v, s, hv, hs, (parse?_eq_ofStored? hv fun fields hfields name hname => ?_).symm.trans hs⟩
  rw [hfields] at honce
  exact of_decide_eq_true (List.all_eq_true.mp honce name hname)

end State

end Chronicle
