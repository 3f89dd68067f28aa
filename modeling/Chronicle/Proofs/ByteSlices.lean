import Chronicle.Proofs.TokenGrammar

/-!
# Slices of a text by byte offsets

A text is addressed by its bytes in UTF-8. An offset past the end or inside a character cuts nothing, so a slice
that succeeds has its two ends on character boundaries, and only one part of the text can be it.
-/

namespace Chronicle

namespace Piece

@[simp] theorem byteLength_nil : byteLength [] = 0 := rfl

theorem foldl_utf8Size (start : Nat) (text : List Char) :
    text.foldl (fun n c => n + c.utf8Size) start = start + byteLength text := by
  induction text generalizing start with
  | nil => rfl
  | cons c text ih =>
    rw [byteLength, List.foldl_cons, List.foldl_cons, ih, ih (0 + c.utf8Size)]
    omega

@[simp] theorem byteLength_cons (c : Char) (text : List Char) :
    byteLength (c :: text) = c.utf8Size + byteLength text := by
  rw [byteLength, List.foldl_cons, foldl_utf8Size, Nat.zero_add]

@[simp] theorem byteLength_append (a b : List Char) : byteLength (a ++ b) = byteLength a + byteLength b := by
  rw [byteLength, List.foldl_append, foldl_utf8Size]
  rfl

theorem byteLength_pos {text : List Char} (h : text ≠ []) : 0 < byteLength text := by
  cases text with
  | nil => exact absurd rfl h
  | cons c text =>
    rw [byteLength_cons]
    have := c.utf8Size_pos
    omega

/-- Two cuts of one text: the longer start has the shorter one in it. -/
theorem exists_of_append_eq {a b a' b' : List Char} (h : a ++ b = a' ++ b') (hle : byteLength a ≤ byteLength a') :
    ∃ mid, a' = a ++ mid ∧ b = mid ++ b' := by
  rcases List.append_eq_append_iff.mp h with ⟨mid, ha, hb⟩ | ⟨mid, rfl, rfl⟩
  · exact ⟨mid, ha, hb⟩
  · cases mid with
    | nil => exact ⟨[], by simp, rfl⟩
    | cons c mid =>
      have hpos := byteLength_pos (List.cons_ne_nil c mid)
      rw [byteLength_append] at hle
      omega

end Piece

namespace Text

open Piece (byteLength)

/-- The text before and after a byte offset. -/
def splitAt? (offset : Nat) : List Char → Option (List Char × List Char)
  | [] => if offset = 0 then some ([], []) else none
  | c :: text =>
    if offset = 0 then some ([], c :: text)
    else if c.utf8Size ≤ offset then (splitAt? (offset - c.utf8Size) text).map fun (a, b) => (c :: a, b)
    else none

theorem splitAt?_append (a b : List Char) : splitAt? (byteLength a) (a ++ b) = some (a, b) := by
  induction a with
  | nil => cases b <;> rfl
  | cons c a ih =>
    have hc := c.utf8Size_pos
    rw [List.cons_append, splitAt?, Piece.byteLength_cons, if_neg (by omega), if_pos (by omega),
      Nat.add_sub_cancel_left, ih]
    rfl

theorem of_splitAt? {offset : Nat} {text a b : List Char} (h : splitAt? offset text = some (a, b)) :
    text = a ++ b ∧ byteLength a = offset := by
  induction text generalizing offset a with
  | nil =>
    unfold splitAt? at h
    split at h
    · next h0 =>
      obtain ⟨rfl, rfl⟩ := Prod.mk.inj (Option.some.inj h)
      exact ⟨rfl, h0.symm⟩
    · simp at h
  | cons c text ih =>
    unfold splitAt? at h
    split at h
    · next h0 =>
      obtain ⟨rfl, rfl⟩ := Prod.mk.inj (Option.some.inj h)
      exact ⟨rfl, h0.symm⟩
    · split at h
      · next hle =>
        obtain ⟨⟨a', b'⟩, hrest, he⟩ := Option.map_eq_some_iff.mp h
        obtain ⟨rfl, rfl⟩ := Prod.mk.inj he
        obtain ⟨rfl, ha⟩ := ih hrest
        refine ⟨rfl, ?_⟩
        rw [Piece.byteLength_cons]
        omega
      · simp at h

theorem splitAt?_eq_some_iff {offset : Nat} {text a b : List Char} :
    splitAt? offset text = some (a, b) ↔ text = a ++ b ∧ byteLength a = offset := by
  constructor
  · exact of_splitAt?
  · rintro ⟨rfl, rfl⟩
    exact splitAt?_append a b

/-- The text from one byte offset to another, and none if an offset is out of range or inside a character. -/
def slice? (start stop : Nat) (text : List Char) : Option (List Char) := do
  let (_, rest) ← splitAt? start text
  if stop < start then none
  let (part, _) ← splitAt? (stop - start) rest
  some part

theorem slice?_eq_some_iff {start stop : Nat} {text part : List Char} : slice? start stop text = some part ↔
    ∃ before after, text = before ++ (part ++ after) ∧ byteLength before = start ∧
      start + byteLength part = stop := by
  unfold slice?
  simp only [Option.bind_eq_bind, Option.bind_eq_some_iff, Prod.exists, splitAt?_eq_some_iff]
  constructor
  · rintro ⟨before, rest, ⟨rfl, hbefore⟩, h⟩
    split at h
    · simp at h
    · next hle =>
      obtain ⟨part', after, ⟨rfl, hpart⟩, rfl⟩ : ∃ part' after, (rest = part' ++ after ∧
          byteLength part' = stop - start) ∧ part' = part := by
        simpa only [Option.bind_some, Option.bind_eq_some_iff, Prod.exists, splitAt?_eq_some_iff,
          Option.some.injEq] using h
      exact ⟨before, after, rfl, hbefore, by omega⟩
  · rintro ⟨before, after, rfl, hbefore, hstop⟩
    refine ⟨before, part ++ after, ⟨rfl, hbefore⟩, ?_⟩
    rw [if_neg (by omega)]
    simp only [Option.bind_eq_some_iff, Prod.exists, splitAt?_eq_some_iff, Option.some.injEq]
    exact ⟨part, after, ⟨rfl, by omega⟩, rfl⟩

theorem slice?_append (before part after : List Char) :
    slice? (byteLength before) (byteLength before + byteLength part) (before ++ (part ++ after)) = some part :=
  slice?_eq_some_iff.mpr ⟨before, after, rfl, rfl, rfl⟩

/-- The byte offset at which a character first occurs. -/
def find? (c : Char) (text : List Char) : Option Nat :=
  match cut (· ≠ c) text with
  | (_, []) => none
  | (before, _ :: _) => some (byteLength before)

theorem find?_cases (c : Char) (text : List Char) : (find? c text = none ∧ c ∉ text) ∨
    ∃ before after, text = before ++ c :: after ∧ c ∉ before ∧ find? c text = some (byteLength before) := by
  have hall : c ∉ (cut (· ≠ c) text).1 := fun hc => absurd (all_cut _ text c hc) (by simp)
  have hhead := head?_cut (· ≠ c) text
  unfold find?
  cases hcut : cut (· ≠ c) text with
  | mk before rest =>
    rw [hcut] at hall hhead
    rw [← append_of_cut hcut]
    cases rest with
    | nil => exact Or.inl ⟨rfl, by rwa [List.append_nil]⟩
    | cons d after =>
      obtain rfl : d = c := by simpa using hhead d rfl
      exact Or.inr ⟨before, after, rfl, hall, rfl⟩

def bytes (text : List Char) : List UInt8 := text.flatMap String.utf8EncodeChar

end Text

namespace Token

open Piece (byteLength)

/-- An ASCII letter or digit, or an underscore. -/
def isWordByte (b : UInt8) : Bool :=
  let n := b.toNat
  (65 ≤ n && n ≤ 90) || (97 ≤ n && n ≤ 122) || (48 ≤ n && n ≤ 57) || n == 95

theorem isWordByte_ofNat {c : Char} (h : c.toNat ≤ 127) : isWordByte (UInt8.ofNat c.toNat) = isWordChar c := by
  have hn : (UInt8.ofNat c.toNat).toNat = c.toNat := by
    rw [UInt8.toNat_ofNat']
    omega
  have hu : c = '_' ↔ c.toNat = 95 := ⟨fun hc => hc ▸ rfl, fun hc => Char.toNat_inj.mp hc⟩
  rw [Bool.eq_iff_iff, isWordChar_iff, isWordByte, hn, hu]
  simp only [Bool.or_eq_true, Bool.and_eq_true, decide_eq_true_eq, beq_iff_eq, or_assoc]

/-- The first byte of a character tells whether it belongs to a word. -/
theorem isWordByte_head (c : Char) :
    ∃ b rest, String.utf8EncodeChar c = b :: rest ∧ isWordByte b = isWordChar c := by
  by_cases hc : c.toNat ≤ 127
  · refine ⟨UInt8.ofNat c.toNat, [], ?_, isWordByte_ofNat hc⟩
    have hval : c.val.toNat ≤ 127 := hc
    simp only [String.utf8EncodeChar, hval, if_true]
    rfl
  · have hword : isWordChar c = false := by
      rw [Bool.eq_false_iff]
      intro hw
      rcases isWordChar_iff.mp hw with hw | hw | hw | rfl
      · omega
      · omega
      · omega
      · exact hc (by decide)
    have hlead : ∀ n, 192 ≤ n → n < 256 → isWordByte (UInt8.ofNat n) = false := by
      intro n hlow hhigh
      have hn : (UInt8.ofNat n).toNat = n := by
        rw [UInt8.toNat_ofNat']
        omega
      rw [Bool.eq_false_iff, ne_eq, isWordByte, hn]
      simp only [Bool.or_eq_true, Bool.and_eq_true, decide_eq_true_eq, beq_iff_eq]
      omega
    have hval : ¬c.val.toNat ≤ 127 := hc
    rw [hword]
    simp only [String.utf8EncodeChar, hval, if_false]
    split
    · exact ⟨_, _, rfl, hlead _ (by omega) (by omega)⟩
    · split
      · exact ⟨_, _, rfl, hlead _ (by omega) (by omega)⟩
      · exact ⟨_, _, rfl, hlead _ (by omega) (by omega)⟩

theorem utf8Size_of_isWordChar {c : Char} (h : isWordChar c = true) : c.utf8Size = 1 := by
  have hc : c.toNat ≤ 127 := by
    rcases isWordChar_iff.mp h with h | h | h | rfl
    · omega
    · omega
    · omega
    · decide
  exact Char.utf8Size_eq_one_iff.mpr (UInt32.le_iff_toNat_le.mpr hc)

/-- The word at the start of a text, counted by bytes. -/
theorem length_takeWhile_bytes (text : List Char) :
    ((Text.bytes text).takeWhile isWordByte).length = byteLength (text.takeWhile isWordChar) := by
  induction text with
  | nil => rfl
  | cons c text ih =>
    obtain ⟨b, more, hbytes, hword⟩ := isWordByte_head c
    rw [Text.bytes, List.flatMap_cons, hbytes, List.cons_append]
    by_cases hc : isWordChar c = true
    · have hmore : more = [] := by
        have hlen := String.length_utf8EncodeChar c
        rw [hbytes, utf8Size_of_isWordChar hc, List.length_cons] at hlen
        exact List.eq_nil_of_length_eq_zero (by omega)
      rw [hmore, List.nil_append, List.takeWhile_cons_of_pos (hword.trans hc), List.takeWhile_cons_of_pos hc,
        List.length_cons, Piece.byteLength_cons, utf8Size_of_isWordChar hc, Nat.add_comm, ← ih]
      rfl
    · rw [List.takeWhile_cons_of_neg (by rw [hword]; exact hc), List.takeWhile_cons_of_neg hc]
      rfl

end Token

end Chronicle
