import Chronicle.Proofs.PathLens
import Chronicle.Proofs.WordTexts

/-!
# Steps with two spellings

An index may be written in brackets or as a key that holds it in canonical decimal. The two spellings of a step address
the same field of an object and the same item of an array, and make the same containers. So it makes no difference to
reading or writing at a path which of them each of its steps has.
-/

namespace Chronicle

namespace Segment

/-- A key is a position exactly if it holds the position in canonical decimal. -/
theorem index?_key_eq_some_iff {k : String} {n : Nat} :
    (Segment.key k).index? = some n ↔ k = n.repr ∧ n < twoTo 64 := by
  have hrepr : k = n.repr ↔ k.toList = Nat.toDigits 10 n := by
    rw [← String.toList_inj, Nat.toList_repr]
  rw [index?, hrepr]
  split
  · next hzero =>
    rw [hzero]
    constructor
    · intro h
      rw [← Option.some.inj h]
      exact ⟨rfl, by decide⟩
    · rintro ⟨h, -⟩
      have hvalue := congrArg (fun digits => Nat.ofDigitChars 10 digits 0) h
      rw [Nat.ofDigitChars_ten_toDigits] at hvalue
      exact congrArg some hvalue
  · next rest hlong hzero =>
    -- a needless zero: no number has one in front of its digits
    refine iff_of_false (by simp) ?_
    rintro ⟨h, -⟩
    by_cases hn : n = 0
    · subst hn
      have hrest : '0' :: rest = ['0'] := hzero.symm.trans h
      exact hlong (List.cons.inj hrest).2
    · exact Document.head?_toDigits_ne_zero (Nat.pos_of_ne_zero hn) '0' (by rw [← h, hzero]; rfl) rfl
  · next rest hplus =>
    refine iff_of_false (by simp) ?_
    rintro ⟨h, -⟩
    have hmem : '+' ∈ Nat.toDigits 10 n := by
      rw [← h, hplus]
      exact List.mem_cons_self
    exact absurd (Document.isDigit_of_mem_toDigits hmem) (by decide)
  · next hone hzero hplus =>
    rw [Text.word?_eq_some_iff]
    constructor
    · rintro ⟨digits, htext | htext, hne, hdigits, rfl, hlt⟩
      · obtain ⟨c, rest, rfl⟩ := List.exists_cons_of_ne_nil hne
        have hc : c ≠ '0' := fun hc => hzero rest (hc ▸ htext)
        exact ⟨by rw [htext, Text.toDigits_of_canonical hdigits hc], hlt⟩
      · exact absurd htext (hplus digits)
    · rintro ⟨htext, hlt⟩
      rw [htext]
      exact Text.isWord_toDigits hlt

/-- Two spellings of one step: they are the same, or one is an index and the other the key that holds it. -/
def Respelled (s t : Segment) : Prop :=
  s = t ∨ ∃ n < twoTo 64, s = .index n ∧ t = .key n.repr ∨ s = .key n.repr ∧ t = .index n

variable {s t : Segment}

theorem Respelled.index?_eq (h : s.Respelled t) : s.index? = t.index? := by
  rcases h with rfl | ⟨n, hn, ⟨rfl, rfl⟩ | ⟨rfl, rfl⟩⟩
  · rfl
  · exact (index?_key_eq_some_iff.mpr ⟨rfl, hn⟩).symm
  · exact index?_key_eq_some_iff.mpr ⟨rfl, hn⟩

theorem Respelled.toKey_eq (h : s.Respelled t) : s.toKey = t.toKey := by
  rcases h with rfl | ⟨n, -, ⟨rfl, rfl⟩ | ⟨rfl, rfl⟩⟩ <;> rfl

theorem Respelled.container_eq (h : s.Respelled t) (v : Json) : s.container v = t.container v := by
  cases v <;> simp only [container, h.index?_eq]

theorem Respelled.obstacle?_eq (h : s.Respelled t) (v : Json) : s.obstacle? v = t.obstacle? v := by
  cases v <;> simp only [obstacle?, h.index?_eq, h.toKey_eq]

theorem Respelled.put_eq (h : s.Respelled t) (new v : Json) : s.put new v = t.put new v := by
  cases v <;> simp only [put, h.index?_eq, h.toKey_eq]

theorem Respelled.child?_eq (h : s.Respelled t) (v : Json) : v.child? s = v.child? t := by
  cases v <;> simp only [Json.child?, h.index?_eq, h.toKey_eq]

theorem Respelled.setChild_eq (h : s.Respelled t) (new v : Json) : Json.setChild s new v = Json.setChild t new v := by
  cases v <;> simp only [Json.setChild, h.index?_eq, h.toKey_eq]

end Segment

namespace Json

variable {segments others : List Segment}

theorem valueAt?_respelled (h : List.Forall₂ Segment.Respelled segments others) :
    valueAt? segments = valueAt? others := by
  induction h with
  | nil => rfl
  | cons hstep _ ih =>
    funext v
    rw [valueAt?, valueAt?, hstep.child?_eq, ih]

theorem replaceAt?_respelled (new : Json) (h : List.Forall₂ Segment.Respelled segments others) :
    replaceAt? new segments = replaceAt? new others := by
  induction h with
  | nil => rfl
  | cons hstep _ ih =>
    funext v
    simp only [replaceAt?, hstep.child?_eq, hstep.setChild_eq, ih]

theorem setAt_respelled (new : Json) (h : List.Forall₂ Segment.Respelled segments others) :
    setAt new segments = setAt new others := by
  induction h with
  | nil => rfl
  | cons hstep _ ih =>
    funext v
    simp only [setAt_cons, hstep.container_eq, hstep.obstacle?_eq, hstep.child?_eq, hstep.put_eq, ih]

end Json

namespace Path

/-- The spellings of the steps of a path change neither what is read, found or replaced at it nor what is written: a
write gives the same tree, or is stopped by the same obstacle. -/
theorem respelling_changes_nothing {p q : Path} (h : List.Forall₂ Segment.Respelled p.segments q.segments)
    (new : Json) (root : Object) :
    p.get? root = q.get? root ∧ p.has root = q.has root ∧ p.replace? new root = q.replace? new root ∧
      ((∃ written, p.set new root = .ok written ∧ q.set new root = .ok written) ∨
        ∃ o : Obstacle, p.set new root = .error (o.toPathError p.text) ∧
          q.set new root = .error (o.toPathError q.text)) := by
  have hget : p.get? root = q.get? root := by rw [get?_eq, get?_eq, Json.valueAt?_respelled h]
  refine ⟨hget, by rw [has, has, hget], ?_, ?_⟩
  · have hobj : Function.Injective Json.obj := fun _ _ h => Json.obj.inj h
    apply Option.map_injective hobj
    rw [← replaceAt?_obj, ← replaceAt?_obj, Json.replaceAt?_respelled new h]
  · have hset := congrFun (Json.setAt_respelled new h) (.obj root)
    rcases set_cases p new root with ⟨written, hp, hpset⟩ | ⟨o, hp, hpset⟩
    · rw [hp] at hset
      exact Or.inl ⟨written, hpset, set_eq_ok_iff.mpr hset.symm⟩
    · rw [hp] at hset
      refine Or.inr ⟨o, hpset, set_eq_error_iff.mpr ⟨o, ?_, rfl⟩⟩
      exact (Json.setAt_eq_error_iff new).mp hset.symm

/-- A hall with two guests. -/
def guestHall : Object := [("guests", .arr [.str "Ann", .obj [("name", .str "Bo")]])]

/-- The name of the second guest, with the guest given by a step. -/
def guestName (text : String) (guest : Segment) : Path := ⟨text, .key "guests", [guest, .key "name"]⟩

/-- The greatest word is a position in both spellings, and one that no array here reaches. -/
theorem respelling_changes_nothing_guests :
    ofString "guests[1].name" = .ok (guestName "guests[1].name" (.index 1)) ∧
    ofString "guests.1.name" = .ok (guestName "guests.1.name" (.key "1")) ∧
    (guestName "guests[1].name" (.index 1)).get? guestHall = some (.str "Bo") ∧
    (guestName "guests.1.name" (.key "1")).get? guestHall = some (.str "Bo") ∧
    ∃ o : Obstacle,
      (guestName "guests[18446744073709551615].name" (.index 18446744073709551615)).set .null guestHall =
        .error (o.toPathError "guests[18446744073709551615].name") ∧
      (guestName "guests.18446744073709551615.name" (.key "18446744073709551615")).set .null guestHall =
        .error (o.toPathError "guests.18446744073709551615.name") := by
  have hstep (n : Nat) (hn : n < twoTo 64) (text other : String) :
      List.Forall₂ Segment.Respelled (guestName text (.index n)).segments (guestName other (.key n.repr)).segments :=
    .cons (Or.inl rfl) (.cons (Or.inr ⟨n, hn, Or.inl ⟨rfl, rfl⟩⟩) (.cons (Or.inl rfl) .nil))
  have hread := respelling_changes_nothing (hstep 1 (by decide) "guests[1].name" "guests.1.name") .null guestHall
  have hwrite := respelling_changes_nothing (hstep 18446744073709551615 (by decide)
    "guests[18446744073709551615].name" "guests.18446744073709551615.name") .null guestHall
  have hget : (guestName "guests[1].name" (.index 1)).get? guestHall = some (.str "Bo") := rfl
  have hfar : (guestName "guests[18446744073709551615].name" (.index 18446744073709551615)).set .null guestHall =
      .error (.indexTooLarge "guests[18446744073709551615].name" 18446744073709551615) := rfl
  refine ⟨rfl, rfl, hget, hread.1.symm.trans hget, ?_⟩
  rcases hwrite.2.2.2 with ⟨written, hset, -⟩ | hstopped
  · exact absurd (hset.symm.trans hfar) (by simp)
  · exact hstopped

end Path

end Chronicle
