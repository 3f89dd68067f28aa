import Chronicle.Proofs.JsonParts
import Chronicle.Proofs.NumberTexts

/-!
# Values as they are written

What a reader makes of a value that is written over several lines: the document that the value is, but for
containers nested too deeply for the reader and numbers that read as others. The induction is on the value;
what may stand around it, the level at which it is written and the limits of the reader are left open.
-/

namespace Chronicle.Json

mutual

/-- The document as which a value is read where it has been written, by a reader with the limit `depth`. -/
def readAt (depth : Nat) : Json → Document
  | .null => .null
  | .bool b => .bool b
  | .num n => n.reading
  | .str s => .str s
  | .arr items => if depth = 0 then .unreadable else .arr (readItemsAt (depth - 1) items)
  | .obj fields => if depth = 0 then .unreadable else .obj (readFieldsAt (depth - 1) fields)

def readItemsAt (depth : Nat) : List Json → List Document
  | [] => []
  | v :: rest => v.readAt depth :: readItemsAt depth rest

def readFieldsAt (depth : Nat) : List (String × Json) → List (Option String × Document)
  | [] => []
  | (key, v) :: rest => (some key, v.readAt depth) :: readFieldsAt depth rest

end

theorem readItemsAt_eq_map (depth : Nat) (items : List Json) :
    readItemsAt depth items = items.map (·.readAt depth) := by
  induction items with
  | nil => rfl
  | cons v items ih => rw [readItemsAt, ih, List.map_cons]

theorem readFieldsAt_eq_map (depth : Nat) (fields : Object) :
    readFieldsAt depth fields = fields.map fun f => (some f.1, f.2.readAt depth) := by
  induction fields with
  | nil => rfl
  | cons f fields ih => rw [readFieldsAt, ih, List.map_cons]

theorem itemsToDocument_eq_map (items : List Json) : itemsToDocument items = items.map (·.toDocument) := by
  induction items with
  | nil => rfl
  | cons v items ih => rw [itemsToDocument, ih, List.map_cons]

theorem fieldsToDocument_eq_map (fields : Object) :
    fieldsToDocument fields = fields.map fun f => (some f.1, f.2.toDocument) := by
  induction fields with
  | nil => rfl
  | cons f fields ih => rw [fieldsToDocument, ih, List.map_cons]

/-- Within the limit of the reader, and with numbers that read back, the document is the one that the value is. -/
theorem readAt_eq_toDocument {v : Json} (hn : ∀ n ∈ v.numbers, n.ReadsBack) {depth : Nat} (hd : v.depth ≤ depth) :
    v.readAt depth = v.toDocument := by
  induction v using Json.induction generalizing depth with
  | null | bool b | str s => rfl
  | num n => exact Num.readsBack_iff.mp (hn n (mem_numbers_num.mpr rfl))
  | arr items ih =>
    obtain ⟨hpos, hd⟩ := depth_arr_le.mp hd
    rw [readAt, if_neg (by omega), toDocument, readItemsAt_eq_map, itemsToDocument_eq_map]
    refine congrArg _ (List.map_congr_left fun v hv => ?_)
    exact ih v hv (fun n hm => hn n (mem_numbers_arr.mpr ⟨v, hv, hm⟩)) (hd v hv)
  | obj fields ih =>
    obtain ⟨hpos, hd⟩ := depth_obj_le.mp hd
    rw [readAt, if_neg (by omega), toDocument, readFieldsAt_eq_map, fieldsToDocument_eq_map]
    refine congrArg _ (List.map_congr_left fun f hf => ?_)
    rw [ih f hf (fun n hm => hn n (mem_numbers_obj.mpr ⟨f, hf, hm⟩)) (hd f hf)]

end Chronicle.Json

namespace Chronicle.Document

def IsBlankRun (run : List Char) : Prop := ∀ c ∈ run, c = ' ' ∨ c = '\t' ∨ c = '\n' ∨ c = '\r'

theorem isBlankRun_newLine (level : Nat) : IsBlankRun (Json.newLine level) := by
  intro c hc
  rcases List.mem_cons.mp hc with rfl | hc
  · simp
  · exact Or.inl (List.mem_replicate.mp hc).2

theorem skipBlanks_append {run : List Char} (h : IsBlankRun run) (rest : List Char) :
    skipBlanks (run ++ rest) = skipBlanks rest :=
  List.dropWhile_append_of_pos fun c hc => by simpa [or_assoc] using h c hc

theorem skipBlanks_cons {c : Char} (h : c ∉ [' ', '\t', '\n', '\r']) (rest : List Char) :
    skipBlanks (c :: rest) = c :: rest := by
  simp only [List.mem_cons, List.not_mem_nil, or_false, not_or] at h
  simp [skipBlanks, h]

theorem endsNumber_cons {c : Char} (h : c.isDigit = false ∧ c ≠ '.' ∧ c ≠ 'e' ∧ c ≠ 'E') (rest : List Char) :
    EndsNumber (c :: rest) := by
  intro d hd
  rw [← Option.some.inj hd]
  exact h

theorem endsNumber_blankRun {run rest : List Char} (h : IsBlankRun run) (hr : EndsNumber rest) :
    EndsNumber (run ++ rest) := by
  cases run with
  | nil => exact hr
  | cons c run =>
    apply endsNumber_cons
    rcases h c List.mem_cons_self with rfl | rfl | rfl | rfl <;> decide

theorem ne_of_numeric {c d : Char} (hc : c = '-' ∨ c.isDigit = true) (hd : d.isDigit = false) (hm : d ≠ '-') :
    c ≠ d := by
  rintro rfl
  rcases hc with rfl | hc
  · exact hm rfl
  · rw [hd] at hc
    exact absurd hc (by decide)

theorem value?_number (n : Num) (fuel depth : Nat) {run rest : List Char} (hb : IsBlankRun run)
    (hr : EndsNumber rest) : value? (fuel + 1) depth (run ++ (n.render ++ rest)) = some (n.reading, rest) := by
  obtain ⟨c, ds, ht, hc, -⟩ := number?_eq n.number?_render
  rw [List.append_nil] at ht
  have hread := number?_append hr n.number?_render
  rw [ht, List.nil_append] at hread
  have hblank : c ∉ [' ', '\t', '\n', '\r'] := by
    intro hm
    simp only [List.mem_cons, List.not_mem_nil, or_false] at hm
    rcases hm with rfl | rfl | rfl | rfl <;> exact absurd hc (by decide)
  rw [value?, skipBlanks_append hb, ht, List.cons_append, skipBlanks_cons hblank]
  rw [List.cons_append] at hread
  split
  all_goals first
    | exact hread
    | next h => exact absurd (List.cons.inj h).1 (ne_of_numeric hc (by decide) (by decide))

theorem value?_eq_none {c : Char} (h : c ∉ [' ', '\t', '\n', '\r', 'n', 't', 'f', '"', '[', '{', '-'])
    (hd : c.isDigit = false) (fuel depth : Nat) (rest : List Char) : value? fuel depth (c :: rest) = none := by
  have hnumber : number? (c :: rest) = none := by
    cases hn : number? (c :: rest) with
    | none => rfl
    | some r =>
      obtain ⟨d, run, ht, hc, -⟩ := number?_eq hn
      obtain rfl : c = d := (List.cons.inj ht).1
      rcases hc with rfl | hc
      · exact absurd (by decide) h
      · rw [hd] at hc
        exact absurd hc (by decide)
  cases fuel with
  | zero => rfl
  | succ fuel =>
    have hblank : c ∉ [' ', '\t', '\n', '\r'] := fun hm => h (List.mem_append_left _ hm)
    rw [value?, skipBlanks_cons hblank]
    split
    all_goals first
      | exact hnumber
      | next he => exact absurd (by rw [(List.cons.inj he).1]; decide) h

/-- Wherever the value stands, it is read up to its end, given two steps for each of its characters. -/
def PrettyReads (v : Json) : Prop :=
  ∀ (level fuel depth : Nat) (run rest : List Char), IsBlankRun run → EndsNumber rest →
    2 * (v.prettyChars level).length ≤ fuel →
      value? fuel depth (run ++ (v.prettyChars level ++ rest)) = some (v.readAt depth, rest)

theorem prettyChars_eq_cons (v : Json) (level : Nat) :
    ∃ c cs, v.prettyChars level = c :: cs ∧ c ∉ [' ', '\t', '\n', '\r'] ∧ c ≠ ']' := by
  cases v with
  | null => exact ⟨_, _, rfl, by decide, by decide⟩
  | bool b => cases b <;> exact ⟨_, _, rfl, by decide, by decide⟩
  | num n =>
    obtain ⟨c, ds, ht, hc, -⟩ := number?_eq n.number?_render
    refine ⟨c, ds, by rw [Json.prettyChars, ht, List.append_nil], ?_, ne_of_numeric hc (by decide) (by decide)⟩
    simp only [List.mem_cons, List.not_mem_nil, or_false, not_or]
    refine ⟨?_, ?_, ?_, ?_⟩ <;> exact ne_of_numeric hc (by decide) (by decide)
  | str s => exact ⟨_, _, rfl, by decide, by decide⟩
  | arr items => cases items <;> exact ⟨_, _, rfl, by decide, by decide⟩
  | obj fields => cases fields <;> exact ⟨_, _, rfl, by decide, by decide⟩

theorem pos_of_pretty {v : Json} (level : Nat) {fuel : Nat} (hf : 2 * (v.prettyChars level).length ≤ fuel) :
    0 < fuel := by
  obtain ⟨c, cs, hv, -⟩ := prettyChars_eq_cons v level
  rw [hv, List.length_cons] at hf
  omega

theorem items?_pretty {items : List Json} (h : ∀ v ∈ items, PrettyReads v) (hne : items ≠ [])
    (level fuel depth : Nat) {run close : List Char} (rest : List Char) (hb : IsBlankRun run)
    (hc : IsBlankRun close) (hf : 2 * (Json.prettyItems level items).length + 1 ≤ fuel) :
    items? fuel depth (run ++ (Json.prettyItems level items ++ (close ++ ']' :: rest))) =
      some (Json.readItemsAt depth items, rest) := by
  induction items generalizing fuel run with
  | nil => exact absurd rfl hne
  | cons v items ih =>
    obtain ⟨fuel, rfl⟩ : ∃ n, fuel = n + 1 := ⟨fuel - 1, by omega⟩
    have hv := h v List.mem_cons_self
    cases items with
    | nil =>
      have hr : EndsNumber (close ++ ']' :: rest) := endsNumber_blankRun hc (endsNumber_cons (by decide) rest)
      rw [Json.prettyItems] at hf ⊢
      rw [items?, hv level fuel depth run _ hb hr (by omega)]
      simp only [skipBlanks_append hc]
      rw [skipBlanks_cons (by decide)]
      rfl
    | cons w items =>
      have hlen : (Json.prettyItems level (v :: w :: items)).length = (v.prettyChars level).length + 1 +
          (Json.newLine level).length + (Json.prettyItems level (w :: items)).length := by
        simp only [Json.prettyItems, List.length_append, List.length_cons]
        omega
      have hrest := ih (fun u hu => h u (List.mem_cons_of_mem v hu)) (by simp) fuel
        (isBlankRun_newLine level) (by omega)
      have hr : EndsNumber (',' :: (Json.newLine level ++
          (Json.prettyItems level (w :: items) ++ (close ++ ']' :: rest)))) := endsNumber_cons (by decide) _
      rw [Json.prettyItems, List.append_assoc, List.cons_append, List.append_assoc, items?,
        hv level fuel depth run _ hb hr (by omega)]
      simp only
      rw [skipBlanks_cons (by decide)]
      simp only [hrest, Option.map_some]
      rfl

/-- One field: its key and value are read, and what follows decides how the object goes on. -/
theorem fields?_field {v : Json} (hv : PrettyReads v) (key : String) {level fuel depth : Nat} {run tail : List Char}
    (hb : IsBlankRun run) (ht : EndsNumber tail) (hf : 2 * (v.prettyChars level).length ≤ fuel) :
    fields? (fuel + 1) depth (run ++ (Json.quote key ++ ':' :: ' ' :: (v.prettyChars level ++ tail))) =
      match skipBlanks tail with
      | ',' :: rest => (fields? fuel depth rest).map fun (l, rest) => ((some key, v.readAt depth) :: l, rest)
      | '}' :: rest => some ([(some key, v.readAt depth)], rest)
      | _ => none := by
  have hsp : IsBlankRun [' '] := fun c hm => Or.inl (List.mem_singleton.mp hm)
  have hread := hv level fuel depth [' '] tail hsp ht hf
  rw [List.cons_append, List.nil_append] at hread
  rw [Json.quote, List.cons_append, List.append_assoc, List.cons_append, List.nil_append, fields?,
    skipBlanks_append hb, skipBlanks_cons (by decide)]
  simp only [string?_escaped]
  rw [skipBlanks_cons (by decide)]
  simp only
  rewrite [hread]
  rfl

theorem fields?_pretty {fields : Object} (h : ∀ f ∈ fields, PrettyReads f.2) (hne : fields ≠ [])
    (level fuel depth : Nat) {run close : List Char} (rest : List Char) (hb : IsBlankRun run)
    (hc : IsBlankRun close) (hf : 2 * (Json.prettyFields level fields).length + 1 ≤ fuel) :
    fields? fuel depth (run ++ (Json.prettyFields level fields ++ (close ++ '}' :: rest))) =
      some (Json.readFieldsAt depth fields, rest) := by
  induction fields generalizing fuel run with
  | nil => exact absurd rfl hne
  | cons f fields ih =>
    obtain ⟨key, v⟩ := f
    obtain ⟨fuel, rfl⟩ : ∃ n, fuel = n + 1 := ⟨fuel - 1, by omega⟩
    have hv : PrettyReads v := h (key, v) List.mem_cons_self
    cases fields with
    | nil =>
      have hr : EndsNumber (close ++ '}' :: rest) := endsNumber_blankRun hc (endsNumber_cons (by decide) rest)
      simp only [Json.prettyFields, List.length_append, List.length_cons] at hf
      rw [Json.prettyFields, List.append_assoc, List.cons_append, List.cons_append,
        fields?_field hv key hb hr (by omega), skipBlanks_append hc, skipBlanks_cons (by decide)]
      rfl
    | cons g fields =>
      simp only [Json.prettyFields, List.length_append, List.length_cons] at hf
      have hrest := ih (fun u hu => h u (List.mem_cons_of_mem _ hu)) (by simp) fuel
        (isBlankRun_newLine level) (by omega)
      have hr : EndsNumber (',' :: (Json.newLine level ++
          (Json.prettyFields level (g :: fields) ++ (close ++ '}' :: rest)))) := endsNumber_cons (by decide) _
      rw [Json.prettyFields, List.append_assoc, List.cons_append, List.cons_append, List.append_assoc,
        List.cons_append, List.append_assoc, fields?_field hv key hb hr (by omega),
        skipBlanks_cons (by decide)]
      simp only [hrest, Option.map_some]
      rfl

theorem prettyReads_arr {items : List Json} (h : ∀ v ∈ items, PrettyReads v) : PrettyReads (.arr items) := by
  intro level fuel depth run rest hb hr hf
  cases items with
  | nil =>
    obtain ⟨fuel, rfl⟩ : ∃ n, fuel = n + 1 := ⟨fuel - 1, by simp [Json.prettyChars] at hf; omega⟩
    rw [Json.prettyChars, List.cons_append, List.cons_append, value?, skipBlanks_append hb,
      skipBlanks_cons (by decide)]
    simp only
    rw [skipBlanks_cons (by decide)]
    rfl
  | cons v items =>
    have hread := items?_pretty h (by simp) (level + 1) (fuel - 1) (depth - 1) rest
      (isBlankRun_newLine (level + 1)) (isBlankRun_newLine level)
      (by simp only [Json.prettyChars, List.length_append, List.length_cons] at hf; omega)
    obtain ⟨c, cs, hv, hblank, hclose⟩ : ∃ c cs, Json.prettyItems (level + 1) (v :: items) = c :: cs ∧
        c ∉ [' ', '\t', '\n', '\r'] ∧ c ≠ ']' := by
      obtain ⟨c, cs, hv, hblank, hclose⟩ := prettyChars_eq_cons v (level + 1)
      cases items with
      | nil => exact ⟨c, cs, by rw [Json.prettyItems, hv], hblank, hclose⟩
      | cons w items => exact ⟨c, _, by rw [Json.prettyItems, hv, List.cons_append], hblank, hclose⟩
    obtain ⟨fuel, rfl⟩ : ∃ n, fuel = n + 1 := ⟨fuel - 1, by simp [Json.prettyChars] at hf; omega⟩
    rw [Json.prettyChars, List.cons_append, List.append_assoc, List.append_assoc, List.append_assoc,
      List.cons_append, List.nil_append, value?, skipBlanks_append hb, skipBlanks_cons (by decide)]
    rw [Nat.add_sub_cancel] at hread
    simp only [hread]
    rw [skipBlanks_append (isBlankRun_newLine (level + 1)), hv, List.cons_append, skipBlanks_cons hblank]
    split
    · next he => exact absurd (List.cons.inj he).1 hclose
    · rfl

theorem prettyReads_obj {fields : Object} (h : ∀ f ∈ fields, PrettyReads f.2) : PrettyReads (.obj fields) := by
  intro level fuel depth run rest hb hr hf
  cases fields with
  | nil =>
    obtain ⟨fuel, rfl⟩ : ∃ n, fuel = n + 1 := ⟨fuel - 1, by simp [Json.prettyChars] at hf; omega⟩
    rw [Json.prettyChars, List.cons_append, List.cons_append, value?, skipBlanks_append hb,
      skipBlanks_cons (by decide)]
    simp only
    rw [skipBlanks_cons (by decide)]
    rfl
  | cons f fields =>
    have hread := fields?_pretty h (by simp) (level + 1) (fuel - 1) (depth - 1) rest
      (isBlankRun_newLine (level + 1)) (isBlankRun_newLine level)
      (by simp only [Json.prettyChars, List.length_append, List.length_cons] at hf; omega)
    obtain ⟨cs, hv⟩ : ∃ cs, Json.prettyFields (level + 1) (f :: fields) = '"' :: cs := by
      cases fields <;> exact ⟨_, rfl⟩
    obtain ⟨fuel, rfl⟩ : ∃ n, fuel = n + 1 := ⟨fuel - 1, by simp [Json.prettyChars] at hf; omega⟩
    rw [Json.prettyChars, List.cons_append, List.append_assoc, List.append_assoc, List.append_assoc,
      List.cons_append, List.nil_append, value?, skipBlanks_append hb, skipBlanks_cons (by decide)]
    rw [Nat.add_sub_cancel] at hread
    simp only [hread]
    rw [skipBlanks_append (isBlankRun_newLine (level + 1)), hv, List.cons_append, skipBlanks_cons (by decide)]
    rfl

/-- Wherever a value stands, it is read up to its end. -/
theorem prettyReads (v : Json) : PrettyReads v := by
  induction v using Json.induction with
  | null =>
    intro level fuel depth run rest hb hr hf
    obtain ⟨fuel, rfl⟩ := Nat.exists_eq_add_one.mpr (pos_of_pretty level hf)
    rw [value?, skipBlanks_append hb]
    rfl
  | bool b =>
    intro level fuel depth run rest hb hr hf
    obtain ⟨fuel, rfl⟩ := Nat.exists_eq_add_one.mpr (pos_of_pretty level hf)
    rw [value?, skipBlanks_append hb]
    cases b <;> rfl
  | num n =>
    intro level fuel depth run rest hb hr hf
    obtain ⟨fuel, rfl⟩ := Nat.exists_eq_add_one.mpr (pos_of_pretty level hf)
    exact value?_number n fuel depth hb hr
  | str s =>
    intro level fuel depth run rest hb hr hf
    obtain ⟨fuel, rfl⟩ := Nat.exists_eq_add_one.mpr (pos_of_pretty level hf)
    rw [Json.prettyChars, Json.quote, List.cons_append, List.append_assoc, List.cons_append, List.nil_append,
      value?, skipBlanks_append hb, skipBlanks_cons (by decide)]
    simp only [string?_escaped]
    rfl
  | arr items ih => exact prettyReads_arr ih
  | obj fields ih => exact prettyReads_obj ih

/-- A value that is written over several lines is read as one document. -/
theorem ofString?_pretty_eq (v : Json) : ofString? v.pretty = some (v.readAt 127) := by
  have hread := prettyReads v 0 (2 * (v.prettyChars 0).length + 2) 127 [] [] (by simp [IsBlankRun])
    endsNumber_nil (by omega)
  rw [List.append_nil, List.nil_append] at hread
  rw [ofString?, Json.pretty, String.toList_ofList, ofChars?, hread]
  rfl

theorem ofString?_pretty {v : Json} (h : ∀ n ∈ v.numbers, n.ReadsBack) (hd : v.depth ≤ 127) :
    ofString? v.pretty = some v.toDocument := by
  rw [ofString?_pretty_eq, Json.readAt_eq_toDocument h hd]

end Chronicle.Document

namespace Chronicle

theorem Object.insert_eq_append {key : String} {value : Json} {known : Object} (h : ∀ f ∈ known, f.1 < key) :
    Object.insert key value known = known ++ [(key, value)] := by
  induction known with
  | nil => rfl
  | cons f known ih =>
    have hlt : f.1 < key := h f List.mem_cons_self
    have hne : key ≠ f.1 := fun he => String.lt_irrefl key (he ▸ hlt)
    rw [Object.insert, if_neg (String.lt_asymm hlt), if_neg hne, ih (fun g hg => h g (List.mem_cons_of_mem f hg))]
    rfl

namespace Document

theorem exists_of_mapM {g : α → Option β} {l : List α} {r : List β} (h : l.mapM g = some r) :
    ∀ a ∈ l, ∃ b, g a = some b := by
  induction l generalizing r with
  | nil => exact fun a ha => absurd ha List.not_mem_nil
  | cons a l ih =>
    simp only [List.mapM_cons, Option.bind_eq_bind, Option.bind_eq_some_iff] at h
    obtain ⟨b, hb, rest, hrest, -⟩ := h
    exact List.forall_mem_cons.mpr ⟨⟨b, hb⟩, ih hrest⟩

theorem mapM_eq_some_self {g : α → Option α} {l : List α} : l.mapM g = some l ↔ ∀ a ∈ l, g a = some a := by
  induction l with
  | nil => simp
  | cons a l ih =>
    simp only [List.mapM_cons, Option.bind_eq_bind, Option.bind_eq_some_iff, Option.pure_def, Option.some.injEq,
      List.cons.injEq, List.forall_mem_cons, ← ih]
    constructor
    · rintro ⟨_, ha, _, hl, rfl, rfl⟩
      exact ⟨ha, hl⟩
    · rintro ⟨ha, hl⟩
      exact ⟨a, ha, l, hl, rfl, rfl⟩

theorem itemsToJson?_eq_mapM (items : List Document) : itemsToJson? items = items.mapM toJson? := by
  induction items with
  | nil => rfl
  | cons d items ih => rw [itemsToJson?, List.mapM_cons, ih]

/-- Fields whose keys ascend are read one after the other, and all of them stay. -/
theorem fieldsToJson?_eq_mapM (read : Json → Document) {fields : Object} (known : Object)
    (ha : (known.map (·.1) ++ fields.map (·.1)).Pairwise (· < ·)) :
    fieldsToJson? known (fields.map fun f => (some f.1, read f.2)) =
      (fields.mapM fun f => (read f.2).toJson?.map (f.1, ·)).map (known ++ ·) := by
  induction fields generalizing known with
  | nil => simp [fieldsToJson?]
  | cons f fields ih =>
    rw [List.map_cons, fieldsToJson?, List.mapM_cons]
    cases hv : (read f.2).toJson? with
    | none => rfl
    | some v =>
      have hlast : ∀ g ∈ known, g.1 < f.1 := fun g hg =>
        (List.pairwise_append.mp ha).2.2 g.1 (List.mem_map_of_mem hg) f.1 List.mem_cons_self
      have hrest := ih (known ++ [(f.1, v)]) (by simpa using ha)
      simp only [Option.bind_eq_bind, Option.bind_some, Option.map_some]
      rw [Object.insert_eq_append hlast, hrest]
      cases fields.mapM fun f => (read f.2).toJson?.map (f.1, ·) <;> simp

theorem toJson?_arr (read : Json → Document) (items : List Json) :
    (Document.arr (items.map read)).toJson? = (items.mapM fun v => (read v).toJson?).map .arr := by
  rw [toJson?, itemsToJson?_eq_mapM, List.mapM_map]
  rfl

theorem toJson?_obj (read : Json → Document) {fields : Object} (ha : fields.Ascending) :
    (Document.obj (fields.map fun f => (some f.1, read f.2))).toJson? =
      (fields.mapM fun f => (read f.2).toJson?.map (f.1, ·)).map .obj := by
  have hkeys : ((([] : Object).map (·.1)) ++ fields.map (·.1)).Pairwise (· < ·) := by
    simpa [List.pairwise_map, Object.Ascending] using ha
  rw [toJson?, fieldsToJson?_eq_mapM read [] hkeys, Option.map_map]
  rfl

theorem toJson?_toDocument {v : Json} (h : v.Sorted) : v.toDocument.toJson? = some v := by
  induction v using Json.induction with
  | null => rfl
  | bool b => rfl
  | num n => rfl
  | str s => rfl
  | arr items ih =>
    have hs := Json.sorted_arr.mp h
    rw [Json.toDocument, Json.itemsToDocument_eq_map, toJson?_arr,
      mapM_eq_some_self.mpr fun v hv => ih v hv (hs v hv)]
    rfl
  | obj fields ih =>
    obtain ⟨ha, hs⟩ := Json.sorted_obj.mp h
    rw [Json.toDocument, Json.fieldsToDocument_eq_map, toJson?_obj _ ha,
      mapM_eq_some_self.mpr fun f hf => by rw [ih f hf (hs f hf)]; rfl]
    rfl

/-- A value that is read as any value at all does not nest deeper than the reader follows. -/
theorem depth_le_of_toJson?_readAt {v u : Json} (hs : v.Sorted) {depth : Nat}
    (h : (v.readAt depth).toJson? = some u) : v.depth ≤ depth := by
  induction v using Json.induction generalizing depth u with
  | null | bool b | num n | str s => exact Nat.zero_le _
  | arr items ih =>
    by_cases hd : depth = 0
    · rw [Json.readAt, if_pos hd] at h
      exact absurd h (by simp [toJson?])
    · rw [Json.readAt, if_neg hd, Json.readItemsAt_eq_map, toJson?_arr] at h
      obtain ⟨us, hus, -⟩ := Option.map_eq_some_iff.mp h
      refine Json.depth_arr_le.mpr ⟨Nat.pos_of_ne_zero hd, fun v hv => ?_⟩
      obtain ⟨w, hw⟩ := exists_of_mapM hus v hv
      exact ih v hv (Json.sorted_arr.mp hs v hv) hw
  | obj fields ih =>
    obtain ⟨ha, hs⟩ := Json.sorted_obj.mp hs
    by_cases hd : depth = 0
    · rw [Json.readAt, if_pos hd] at h
      exact absurd h (by simp [toJson?])
    · rw [Json.readAt, if_neg hd, Json.readFieldsAt_eq_map, toJson?_obj _ ha] at h
      obtain ⟨us, hus, -⟩ := Option.map_eq_some_iff.mp h
      refine Json.depth_obj_le.mpr ⟨Nat.pos_of_ne_zero hd, fun f hf => ?_⟩
      obtain ⟨w, hw⟩ := exists_of_mapM hus f hf
      obtain ⟨u, hu, -⟩ := Option.map_eq_some_iff.mp hw
      exact ih f hf (hs f hf) hu

theorem eq_num_of_toJson? {d : Document} {n : Num} (h : d.toJson? = some (.num n)) : d = .num n := by
  cases d with
  | num m =>
    obtain rfl : m = n := Json.num.inj (Option.some.inj h)
    rfl
  | _ => exact absurd h (by simp [toJson?])

theorem readsBack_of_toJson?_readAt {v : Json} (hs : v.Sorted) {depth : Nat}
    (h : (v.readAt depth).toJson? = some v) : ∀ n ∈ v.numbers, n.ReadsBack := by
  induction v using Json.induction generalizing depth with
  | null | bool b | str s => simp
  | num n =>
    intro m hm
    rw [Json.mem_numbers_num.mp hm, Num.readsBack_iff]
    exact eq_num_of_toJson? h
  | arr items ih =>
    by_cases hd : depth = 0
    · rw [Json.readAt, if_pos hd] at h
      exact absurd h (by simp [toJson?])
    · rw [Json.readAt, if_neg hd, Json.readItemsAt_eq_map, toJson?_arr] at h
      obtain ⟨us, hus, he⟩ := Option.map_eq_some_iff.mp h
      obtain rfl := Json.arr.inj he
      intro n hn
      obtain ⟨v, hv, hn⟩ := Json.mem_numbers_arr.mp hn
      exact ih v hv (Json.sorted_arr.mp hs v hv) (mapM_eq_some_self.mp hus v hv) n hn
  | obj fields ih =>
    obtain ⟨ha, hs⟩ := Json.sorted_obj.mp hs
    by_cases hd : depth = 0
    · rw [Json.readAt, if_pos hd] at h
      exact absurd h (by simp [toJson?])
    · rw [Json.readAt, if_neg hd, Json.readFieldsAt_eq_map, toJson?_obj _ ha] at h
      obtain ⟨us, hus, he⟩ := Option.map_eq_some_iff.mp h
      obtain rfl := Json.obj.inj he
      intro n hn
      obtain ⟨f, hf, hn⟩ := Json.mem_numbers_obj.mp hn
      obtain ⟨u, hu, hfu⟩ := Option.map_eq_some_iff.mp (mapM_eq_some_self.mp hus f hf)
      obtain rfl : u = f.2 := (Prod.mk.inj hfu).2
      exact ih f hf (hs f hf) hu n hn

/-- What is read as the value itself: one that nests as deeply as the reader follows, with numbers that read back. -/
theorem toJson?_readAt_iff {v : Json} (hs : v.Sorted) {depth : Nat} :
    (v.readAt depth).toJson? = some v ↔ v.depth ≤ depth ∧ ∀ n ∈ v.numbers, n.ReadsBack := by
  constructor
  · exact fun h => ⟨depth_le_of_toJson?_readAt hs h, readsBack_of_toJson?_readAt hs h⟩
  · rintro ⟨hd, hn⟩
    rw [Json.readAt_eq_toDocument hn hd, toJson?_toDocument hs]

end Document

/-- A value written over several lines reads back. -/
theorem Json.parse?_pretty {v : Json} (hs : v.Sorted) (hn : ∀ n ∈ v.numbers, n.ReadsBack) (hd : v.depth ≤ 127) :
    Json.parse? v.pretty = some v := by
  rw [Json.parse?, Document.ofString?_pretty hn hd, Option.bind_some, Document.toJson?_toDocument hs]

end Chronicle
