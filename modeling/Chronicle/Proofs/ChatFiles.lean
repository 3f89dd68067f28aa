import Chronicle.Chat.Host
import Chronicle.Proofs.DiskSaves
import Chronicle.Proofs.SortedValues
import Chronicle.Proofs.Snapshots

/-!
# Chats as they are written

What is read from the file of a chat that has been written: its messages as they are, and in its store what a
reader makes of the store inside the chat. So the chat itself is read exactly if it is `Storable`.
-/

namespace Chronicle

namespace Document

theorem lt_of_asCount? {d : Document} {n : Nat} (h : d.asCount? = some n) : n < twoTo 64 := by
  unfold asCount? at h
  split at h
  · split at h
    · next hn =>
      rw [← Option.some.inj h]
      omega
    · exact absurd h (by simp)
  · exact absurd h (by simp)

theorem asCount?_ofNat {n : Nat} (h : n < twoTo 64) : (Json.ofNat n).toDocument.asCount? = some n := by
  have hn : (0 : Int) ≤ n ∧ (n : Int) < twoTo 64 := by omega
  rw [Json.ofNat, Json.toDocument, asCount?, if_pos hn, Int.toNat_natCast]

theorem exists_of_mem_asList? {item? : Document → Option α} {d : Document} {l : List α} (h : asList? item? d = some l) :
    ∀ a ∈ l, ∃ d, item? d = some a := by
  cases d with
  | arr items =>
    rw [asList?] at h
    induction items generalizing l with
    | nil =>
      rw [← Option.some.inj h]
      exact fun a ha => absurd ha List.not_mem_nil
    | cons d items ih =>
      simp only [List.mapM_cons, Option.bind_eq_bind, Option.bind_eq_some_iff, Option.pure_def, Option.some.injEq] at h
      obtain ⟨a, ha, rest, hrest, rfl⟩ := h
      exact List.forall_mem_cons.mpr ⟨⟨d, ha⟩, ih hrest⟩
  | _ => exact absurd h (by simp [asList?])

end Document

theorem Num.readsBack_ofNat {n : Nat} (h : n < twoTo 64) : (Num.int n).ReadsBack := by
  have hpos : 0 < twoTo 63 := by decide
  exact readsBack_int (by omega) (by omega)

namespace Message

/-- The counts in the message have 64 bits. -/
structure Bounded (m : Message) : Prop where
  id : m.id < twoTo 64
  swipeId : ∀ k ∈ m.swipeId, k < twoTo 64

variable {m : Message}

theorem ofDocument?_role (role : Role) : Role.ofDocument? (Json.str role.name).toDocument = some role := by
  cases role <;> rfl

theorem countOrNull?_ofNat {n : Nat} (h : n < twoTo 64) : countOrNull? (Json.ofNat n).toDocument = some (some n) := by
  have hcount := Document.asCount?_ofNat h
  rw [Json.ofNat, Json.toDocument] at hcount ⊢
  rw [countOrNull?, hcount]
  · rfl
  · simp

/-- A message is read from the documents of its fields. -/
theorem ofDocument?_of_record? {d idDoc roleDoc textDoc swipesDoc : Document} {swipeIdDoc : Nat → Document}
    (hid : idDoc.asCount? = some m.id) (hrole : Role.ofDocument? roleDoc = some m.role)
    (htext : textDoc.asString? = some m.text)
    (hswipes : Document.asList? Document.asString? swipesDoc = some m.swipes)
    (hswipeId : ∀ k ∈ m.swipeId, countOrNull? (swipeIdDoc k) = some (some k))
    (hd : d.record? ["message_id", "role", "message", "swipes", "swipe_id"] =
      some ([("message_id", idDoc), ("role", roleDoc), ("message", textDoc)] ++
        (if m.swipes.isEmpty then [] else [("swipes", swipesDoc)]) ++
        m.swipeId.toList.map fun k => ("swipe_id", swipeIdDoc k))) : ofDocument? d = some m := by
  obtain ⟨id, role, text, swipes, swipeId⟩ := m
  rw [ofDocument?, hd]
  cases swipeId with
  | none =>
    cases swipes <;> simp [Document.required, Document.optional, List.lookup_cons, hid, hrole, htext, hswipes]
  | some k =>
    have hk := hswipeId k rfl
    cases swipes <;> simp [Document.required, Document.optional, List.lookup_cons, hid, hrole, htext, hswipes, hk]

theorem ofDocument?_toJson (h : m.Bounded) : ofDocument? m.toJson.toDocument = some m := by
  have htext : (Json.str m.text).toDocument.asString? = some m.text := rfl
  refine ofDocument?_of_record? (Document.asCount?_ofNat h.id) (ofDocument?_role m.role) htext
    (State.asList?_ofStrings m.swipes) (fun k hk => countOrNull?_ofNat (h.swipeId k hk)) ?_
  rw [toJson, Document.record?_toDocument]
  · cases m.swipeId <;> cases m.swipes <;> rfl
  · cases m.swipeId <;> cases m.swipes <;> simp
  · cases m.swipeId <;> cases m.swipes <;> simp

theorem lt_of_countOrNull? {d : Document} {k : Nat} (h : countOrNull? d = some (some k)) : k < twoTo 64 := by
  unfold countOrNull? at h
  split at h
  · exact absurd h (by simp)
  · obtain ⟨n, hn, he⟩ := Option.map_eq_some_iff.mp h
    rw [← Option.some.inj he]
    exact Document.lt_of_asCount? hn

theorem bounded_of_ofDocument? {d : Document} (h : ofDocument? d = some m) : m.Bounded := by
  simp only [ofDocument?, Document.required, Option.bind_eq_bind, Option.bind_eq_some_iff, Option.pure_def,
    Option.some.injEq] at h
  obtain ⟨fields, -, id, ⟨_, -, hid⟩, role, -, text, -, swipes, -, swipeId, hk, rfl⟩ := h
  refine ⟨Document.lt_of_asCount? hid, ?_⟩
  rintro k rfl
  unfold Document.optional at hk
  split at hk
  · exact lt_of_countOrNull? hk
  · exact absurd hk (by simp)

/-- The values in the message, as it is written. -/
theorem mem_toJson {f : String × Json} {fields : Object} (h : m.toJson = .obj fields) (hf : f ∈ fields) :
    (∃ s, f.2 = .str s) ∨ (∃ l, f.2 = .ofStrings l) ∨ f.2 = .ofNat m.id ∨ ∃ k ∈ m.swipeId, f.2 = .ofNat k := by
  rw [toJson, Json.obj.injEq] at h
  rw [← h] at hf
  rcases List.mem_append.mp hf with hf | hf
  · rcases List.mem_append.mp hf with hf | hf
    · simp only [List.mem_cons, List.not_mem_nil, or_false] at hf
      rcases hf with rfl | rfl | rfl
      · exact Or.inr (Or.inr (Or.inl rfl))
      · exact Or.inl ⟨_, rfl⟩
      · exact Or.inl ⟨_, rfl⟩
    · split at hf
      · exact absurd hf List.not_mem_nil
      · rw [List.mem_singleton.mp hf]
        exact Or.inr (Or.inl ⟨_, rfl⟩)
  · obtain ⟨k, hk, rfl⟩ := List.mem_map.mp hf
    exact Or.inr (Or.inr (Or.inr ⟨k, Option.mem_toList.mp hk, rfl⟩))

theorem numbers_ofStrings (l : List String) : ∀ n, n ∉ (Json.ofStrings l).numbers := by
  simp [Json.ofStrings]

theorem depth_ofStrings (l : List String) : (Json.ofStrings l).depth ≤ 1 := by
  rw [Json.ofStrings, Json.depth_arr_le]
  refine ⟨by decide, fun v hv => ?_⟩
  obtain ⟨s, -, rfl⟩ := List.mem_map.mp hv
  exact Nat.le_refl 0

theorem readAt_toJson (h : m.Bounded) {depth : Nat} (hd : 2 ≤ depth) :
    m.toJson.readAt depth = m.toJson.toDocument := by
  obtain ⟨fields, hfields⟩ : ∃ fields, m.toJson = .obj fields := ⟨_, rfl⟩
  rw [hfields]
  apply Json.readAt_eq_toDocument
  · intro n hn
    obtain ⟨f, hf, hn⟩ := Json.mem_numbers_obj.mp hn
    rcases mem_toJson hfields hf with ⟨s, hs⟩ | ⟨l, hl⟩ | hid | ⟨k, hk, hswipe⟩
    · rw [hs] at hn
      exact absurd hn (by simp)
    · rw [hl] at hn
      exact absurd hn (numbers_ofStrings l n)
    · rw [hid] at hn
      rw [Json.mem_numbers_num.mp hn]
      exact Num.readsBack_ofNat h.id
    · rw [hswipe] at hn
      rw [Json.mem_numbers_num.mp hn]
      exact Num.readsBack_ofNat (h.swipeId k hk)
  · refine Json.depth_obj_le.mpr ⟨by omega, fun f hf => ?_⟩
    rcases mem_toJson hfields hf with ⟨s, hs⟩ | ⟨l, hl⟩ | hid | ⟨k, hk, hswipe⟩
    · rw [hs]
      exact Nat.zero_le _
    · rw [hl]
      exact Nat.le_trans (depth_ofStrings l) (by omega)
    · rw [hid]
      exact Nat.zero_le _
    · rw [hswipe]
      exact Nat.zero_le _

end Message

namespace Transcript

variable {c : Transcript}

/-- A chat that is read from its file as it has been written: its counts have 64 bits, its store leaves room for
the container around it, and the numbers in it read back. -/
structure Storable (c : Transcript) : Prop where
  messages : ∀ m ∈ c.messages, m.Bounded
  depth : c.stored.depth ≤ 126
  numbers : ∀ n ∈ c.stored.numbers, n.ReadsBack

theorem asList?_messages (h : ∀ m ∈ c.messages, m.Bounded) :
    Document.asList? Message.ofDocument? ((Json.arr (c.messages.map (·.toJson))).readAt 126) = some c.messages := by
  rw [Json.readAt, if_neg (by decide), Json.readItemsAt_eq_map, Document.asList?, List.map_map, List.mapM_map]
  apply Document.mapM_eq_some_self.mpr
  intro m hm
  rw [Function.comp, Function.comp, Message.readAt_toJson (h m hm) (by decide), Message.ofDocument?_toJson (h m hm)]

/-- A chat is read from the documents of its fields. -/
theorem ofDocument?_of_record? {d messagesDoc storedDoc : Document} {id : String}
    (hd : d.record? ["id", "messages", "variables"] =
      some [("id", .str id), ("messages", messagesDoc), ("variables", storedDoc)]) :
    ofDocument? d = (Document.asList? Message.ofDocument? messagesDoc).bind fun messages =>
      storedDoc.toJson?.map fun stored => ⟨id, messages, stored⟩ := by
  rw [ofDocument?, hd]
  simp only [Option.bind_eq_bind, Option.bind_some, Document.required, Document.optional, List.lookup_cons_self,
    Document.asString?]
  have hmessages : List.lookup "messages"
      [("id", Document.str id), ("messages", messagesDoc), ("variables", storedDoc)] = some messagesDoc := rfl
  have hstored : List.lookup "variables"
      [("id", Document.str id), ("messages", messagesDoc), ("variables", storedDoc)] = some storedDoc := rfl
  simp only [hmessages, hstored, Option.map_eq_bind]
  rfl

/-- What is read where a chat has been written. -/
theorem parse?_pretty_eq (c : Transcript) : parse? c.toJson.pretty =
    (Document.asList? Message.ofDocument? ((Json.arr (c.messages.map (·.toJson))).readAt 126)).bind fun messages =>
      (c.stored.readAt 126).toJson?.map fun stored => ⟨c.id, messages, stored⟩ := by
  rw [parse?, Document.ofString?_pretty_eq, Option.bind_some]
  have hread : c.toJson.readAt 127 = .obj ([("id", .str c.id), ("messages", .arr (c.messages.map (·.toJson))),
      ("variables", c.stored)].map fun f => (some f.1, f.2.readAt 126)) := by
    rw [← Json.readFieldsAt_eq_map]
    rfl
  rw [hread]
  exact ofDocument?_of_record? (Document.record?_obj (Json.readAt 126) (by simp) (by simp))

theorem parse?_of_bounded (h : ∀ m ∈ c.messages, m.Bounded) :
    parse? c.toJson.pretty = (c.stored.readAt 126).toJson?.map fun stored => { c with stored } := by
  rw [parse?_pretty_eq, asList?_messages h, Option.bind_some]

/-- What is read from a file at all has counts of 64 bits, and keys that ascend. -/
theorem of_parse? {text : String} (h : parse? text = some c) :
    (∀ m ∈ c.messages, m.Bounded) ∧ c.stored.Sorted := by
  simp only [parse?, Option.bind_eq_some_iff, ofDocument?, Document.required, Option.bind_eq_bind, Option.pure_def,
    Option.some.injEq] at h
  obtain ⟨d, -, fields, -, id, -, messages, hmessages, stored, hstored, rfl⟩ := h
  unfold Document.optional at hmessages hstored
  constructor
  · split at hmessages
    · intro m hm
      obtain ⟨d, hd⟩ := Document.exists_of_mem_asList? hmessages m hm
      exact Message.bounded_of_ofDocument? hd
    · rw [← Option.some.inj hmessages]
      exact fun m hm => absurd hm List.not_mem_nil
  · split at hstored
    · exact Document.sorted_of_toJson? hstored
    · rw [← Option.some.inj hstored]
      simp [Object.Ascending]

theorem parse?_pretty_iff (hs : c.stored.Sorted) : parse? c.toJson.pretty = some c ↔ c.Storable := by
  constructor
  · intro h
    have hb := (of_parse? h).1
    rw [parse?_of_bounded hb] at h
    obtain ⟨stored, hstored, he⟩ := Option.map_eq_some_iff.mp h
    obtain rfl : stored = c.stored := congrArg Transcript.stored he
    obtain ⟨hd, hn⟩ := (Document.toJson?_readAt_iff hs).mp hstored
    exact ⟨hb, hd, hn⟩
  · rintro ⟨hb, hd, hn⟩
    rw [parse?_of_bounded hb, (Document.toJson?_readAt_iff hs).mpr ⟨hd, hn⟩]
    rfl

/-- A chat whose store nests too deeply is not read from its file at all. -/
theorem parse?_pretty_of_deep (hs : c.stored.Sorted) (hd : 126 < c.stored.depth) : parse? c.toJson.pretty = none := by
  have hnone : (c.stored.readAt 126).toJson? = none := by
    cases hstored : (c.stored.readAt 126).toJson? with
    | none => rfl
    | some v => exact absurd (Document.depth_le_of_toJson?_readAt hs hstored) (by omega)
  rw [parse?_pretty_eq, hnone]
  exact Option.bind_eq_none_iff.mpr fun _ _ => rfl

end Transcript

namespace Host

variable {h : Host} {disk : Disk} {path : String}

theorem openFile_of_read {text : String} (hr : disk.read path = .ok text) : openFile disk path =
    (Transcript.parse? text).elim (.error (.file (.unparsable path))) fun chat => .ok ⟨chat, some path, disk, []⟩ := by
  unfold openFile
  rw [hr]
  simp only
  cases Transcript.parse? text <;> rfl

theorem openFile_of_storable {c : Transcript} (hr : disk.read path = .ok c.toJson.pretty) (hs : c.stored.Sorted)
    (hc : c.Storable) : openFile disk path = .ok ⟨c, some path, disk, []⟩ := by
  rw [openFile_of_read hr, (Transcript.parse?_pretty_iff hs).mpr hc]
  rfl

/-- What has been opened is as it stands on the disk, and nothing is refused. -/
theorem of_openFile (ho : openFile disk path = .ok h) :
    h = ⟨h.chat, some path, disk, []⟩ ∧ (∀ m ∈ h.chat.messages, m.Bounded) ∧ h.chat.stored.Sorted := by
  unfold openFile at ho
  split at ho
  · split at ho
    · next hp =>
      rw [← Except.ok.inj ho]
      exact ⟨rfl, Transcript.of_parse? hp⟩
    · exact absurd ho (by simp)
  · rw [← Except.ok.inj ho]
    exact ⟨rfl, by simp [Transcript.empty], by simp [Transcript.empty, Object.Ascending]⟩
  · exact absurd ho (by simp)

section Written

variable (hp : h.path? = some path) (hw : h.Written) (hs : h.chat.stored.Sorted)
include hp hw hs

/-- A chat that has been written is found again on opening exactly if it is storable. -/
theorem openFile_written_iff : (∃ h', openFile h.disk path = .ok h' ∧ h'.chat = h.chat) ↔ h.chat.Storable := by
  rw [openFile_of_read (hw path hp), ← Transcript.parse?_pretty_iff hs]
  cases Transcript.parse? h.chat.toJson.pretty <;> simp

theorem openFile_written_of_deep (hd : 126 < h.chat.stored.depth) :
    openFile h.disk path = .error (.file (.unparsable path)) := by
  rw [openFile_of_read (hw path hp), Transcript.parse?_pretty_of_deep hs hd]
  rfl

end Written

end Host

end Chronicle
