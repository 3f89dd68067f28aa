import Chronicle.Proofs.RoundedResults
import Chronicle.Proofs.Snapshots

/-!
# Rounds of scheduled writes

The round for which a write is scheduled may be written as any number. It is rounded up to an integer of 64 bits when it
is read. As the rounds of the chat are such integers, the write is due in the same rounds as before.
-/

namespace Chronicle

/-- The rational number that a number stands for. -/
def Num.value : Num → ℚ
  | .int n => n
  | .float x => x.value

section Saturation

variable {n r : Int}

/-- Below the greatest integer of 64 bits, an integer and what it saturates to have the same bounds. -/
theorem saturate_le_iff (hl : -2 ^ 63 ≤ r) (hu : r < 2 ^ 63 - 1) : saturate n ≤ r ↔ n ≤ r := by
  have hword : twoTo 63 = 2 ^ 63 := rfl
  unfold saturate
  omega

/-- An integer that is too large for a round may be read in the binary format as well, where it is too large, too. -/
theorem saturate_ceil_of_ofInt (hn : 2 ^ 63 ≤ n) {x : Binary64} (hx : Binary64.ofInt n = .finite x) :
    saturate x.ceil = saturate n := by
  have hword : twoTo 63 = 2 ^ 63 := rfl
  have hceil : 2 ^ 63 ≤ x.ceil := by
    obtain ⟨y, hy⟩ : ∃ y : Binary64, y.value = 2 ^ 63 := Binary64.exists_value_pow (by decide) false
    have hle : y.value ≤ n := hy.trans_le (by exact_mod_cast hn)
    have hpow : ((2 ^ 63 : Int) : ℚ) ≤ x.value := by
      rw [Int.cast_pow, Int.cast_ofNat]
      exact hy.symm.trans_le (((Binary64.correctlyRounded_ofInt n).nearest x hx).le_value hle)
    rw [Binary64.ceil_eq]
    exact_mod_cast hpow.trans (Int.le_ceil _)
  unfold saturate
  omega

end Saturation

/-- The round that a number stands for, as it is found with machine arithmetic: an integer of 64 bits is kept, and any
other number goes through the binary format, where it is rounded up and saturates. -/
def Num.round? : Num → Option Int
  | .int n => if -2 ^ 63 ≤ n ∧ n < 2 ^ 63 then some n else (Binary64.ofInt n).toOption.map fun x => saturate x.ceil
  | .float x => some (saturate x.ceil)

theorem Num.round?_eq {n : Num} (h : ∀ m, n = .int m → -2 ^ 63 ≤ m ∧ m < 2 ^ 64) :
    n.round? = some (saturate ⌈n.value⌉) := by
  cases n with
  | float x => rw [round?, value, Binary64.ceil_eq]
  | int m =>
    obtain ⟨hl, hu⟩ := h m rfl
    rw [round?, value, Int.ceil_intCast]
    split
    · next hm => rw [saturate_eq_self hm.1 hm.2]
    · next hm =>
      have hsmall : m.natAbs < twoTo 64 := by
        have hword : twoTo 64 = 2 ^ 64 := rfl
        omega
      obtain ⟨x, hx⟩ := (Binary64.correctlyRounded_ofInt m).exists_finite (by decide) hsmall
      rw [hx, ← saturate_ceil_of_ofInt (by omega) hx]
      rfl

theorem Target.ofJson_num (n : Num) : Target.ofJson false (.num n) = .ok (.round (saturate ⌈n.value⌉)) := by
  cases n with
  | int n => simp [ofJson, Num.value]
  | float x => simp [ofJson, Num.value, Binary64.ceil_eq]

theorem Target.ofJson_num_eq_round? {n : Num} (h : ∀ m, n = .int m → -2 ^ 63 ≤ m ∧ m < 2 ^ 64) :
    Target.ofJson false (.num n) = n.round?.elim (.error (.roundNotNumber (.num n))) fun r => .ok (.round r) := by
  rw [ofJson_num, Num.round?_eq h, Option.elim_some]

namespace ScheduledWrite

/-- An entry of a schedule that waits for a round, as a list or with named fields, and the number of the round. -/
inductive RoundEntry : Json → Num → Prop
  | unreasoned (name value : Json) (n : Num) : RoundEntry (.arr [name, value, .bool false, .num n]) n
  | reasoned (name value reason : Json) (n : Num) : RoundEntry (.arr [name, value, .bool false, .num n, reason]) n
  | named {fields : Object} {name : String} {n : Num} (hname : fields.lookup "varName" = some (.str name))
    (hkind : ∀ v ∈ fields.lookup "isGameTime", v = .bool false) (htime : fields.lookup "targetTime" = some (.num n))
    (hreason : ∀ v ∈ fields.lookup "reason", ∃ text, v = .str text) : RoundEntry (.obj fields) n

variable {item : Json} {n : Num}

theorem ofItems_round (name value reason : Json) (n : Num) : ofItems name value (.bool false) (.num n) reason =
    .ok ⟨itemText name, value, .round (saturate ⌈n.value⌉), reasonText reason⟩ := by
  rw [ofItems, Target.ofJson_num]
  rfl

theorem exists_ofFields? {fields : Object} {name : String} (hname : fields.lookup "varName" = some (.str name))
    (hkind : ∀ v ∈ fields.lookup "isGameTime", v = .bool false) (htime : fields.lookup "targetTime" = some (.num n))
    (hreason : ∀ v ∈ fields.lookup "reason", ∃ text, v = .str text) :
    ∃ value reason, ofFields? fields = some (name, value, false, .num n, reason) := by
  have hfalse : fields.lookup "isGameTime" = none ∨ fields.lookup "isGameTime" = some (.bool false) := by
    cases hk : fields.lookup "isGameTime" with
    | none => exact Or.inl rfl
    | some v => exact Or.inr (by rw [hkind v hk])
  refine ⟨(fields.lookup "value").getD .null, ?_⟩
  cases hr : fields.lookup "reason" with
  | none =>
    refine ⟨"", ?_⟩
    rcases hfalse with hk | hk <;> simp [ofFields?, hname, hk, htime, hr]
  | some v =>
    obtain ⟨text, rfl⟩ := hreason v hr
    refine ⟨text, ?_⟩
    rcases hfalse with hk | hk <;> simp [ofFields?, hname, hk, htime, hr]

theorem RoundEntry.exists_ofJson (h : RoundEntry item n) :
    ∃ w, ofJson item = .ok w ∧ w.target = .round (saturate ⌈n.value⌉) := by
  cases h with
  | unreasoned name value => exact ⟨_, ofItems_round name value .null n, rfl⟩
  | reasoned name value reason => exact ⟨_, ofItems_round name value reason n, rfl⟩
  | @named fields name _ hname hkind htime hreason =>
    obtain ⟨value, reason, hread⟩ := exists_ofFields? hname hkind htime hreason
    refine ⟨⟨name, value, .round (saturate ⌈n.value⌉), reason⟩, ?_, rfl⟩
    rw [ofJson, hread]
    simp only [Target.ofJson_num]
    rfl

/-- To round a target up to an integer of 64 bits does not shift the rounds in which the write is due, and the entry is
the same when it has been written and read again. -/
theorem rounds_due_exactly (h : RoundEntry item n) : ∃ w, ofJson item = .ok w ∧
    (∀ tick : Tick, -2 ^ 63 ≤ tick.round → tick.round < 2 ^ 63 - 1 → (w.isDue tick = true ↔ n.value ≤ tick.round)) ∧
      ofJson w.toJson = .ok w := by
  obtain ⟨w, hw, htarget⟩ := h.exists_ofJson
  refine ⟨w, hw, fun tick hl hu => ?_, ?_⟩
  · rw [isDue, htarget, Target.isDue, decide_eq_true_eq, saturate_le_iff hl hu, Int.ceil_le]
  · refine ofJson_toJson ?_ ?_
    · rw [htarget]
      exact saturate_bounds _
    · rw [htarget]
      trivial

/-- Two and a half rounds before the first one. -/
def tuning : Binary64 := ⟨true, 5 * 2 ^ 50, -51, by decide⟩

def overture : Json := .obj [("targetTime", .num (.float tuning)), ("varName", .str "music")]

theorem rounds_due_exactly_overture : Num.value (.float tuning) = -5 / 2 ∧ ∃ w, ofJson overture = .ok w ∧
    w.isDue ⟨-2, ⟨0, 0⟩⟩ = true ∧ w.isDue ⟨-3, ⟨0, 0⟩⟩ = false ∧ ofJson w.toJson = .ok w := by
  have hvalue : Num.value (.float tuning) = -5 / 2 := by
    norm_num [Num.value, tuning, Binary64.value, Binary64.magnitude, withSign]
  have hentry : RoundEntry overture (.float tuning) :=
    .named rfl (by simp [List.lookup_cons]) rfl (by simp [List.lookup_cons])
  obtain ⟨w, hw, hdue, hagain⟩ := rounds_due_exactly hentry
  rw [hvalue] at hdue
  refine ⟨hvalue, w, hw, ?_, ?_, hagain⟩
  · exact (hdue _ (by decide) (by decide)).mpr (by norm_num)
  · rw [← Bool.not_eq_true, hdue _ (by decide) (by decide)]
    norm_num

end ScheduledWrite

end Chronicle
