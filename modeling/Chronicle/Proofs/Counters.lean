import Mathlib.Data.List.Infix
import Mathlib.Data.List.Perm.Basic
import Chronicle.Proofs.IntegerFields

/-!
# Counters

A variable that integers are added to counts exactly, as long as what is added and what is counted stay below `2 ^ 53`.
The numbers are rounded to the binary format where they are read and where they are summed, but integers of this size
are values of the format, and rounding does not change them.
-/

namespace Chronicle

/-- A command that adds an integer to the value at a path. -/
def Command.Adds (p : Path) (c : Command) (d : Int) : Prop :=
  ∃ path delta, c = .add path delta ∧ Path.ofString path = .ok p ∧ Decimal.IsInteger delta.toList d

theorem Command.rightUnique_adds (p : Path) : Relator.RightUnique (Adds p) := by
  rintro _ d e ⟨path, delta, rfl, -, hd⟩ ⟨_, _, heq, -, he⟩
  obtain ⟨-, rfl⟩ := Command.add.inj heq
  exact hd.unique he

/-- All partial sums stay below `2 ^ 53`. -/
def SumsBelow (a : Int) (ds : List Int) : Prop := ∀ front ∈ ds.inits, (a + front.sum).natAbs < 2 ^ 53

instance (a : Int) (ds : List Int) : Decidable (SumsBelow a ds) := inferInstanceAs (Decidable (∀ front ∈ ds.inits, _))

theorem sumsBelow_cons {a d : Int} {ds : List Int} :
    SumsBelow a (d :: ds) ↔ a.natAbs < 2 ^ 53 ∧ SumsBelow (a + d) ds := by
  simp [SumsBelow, add_assoc]

theorem SumsBelow.start {a : Int} {ds : List Int} (h : SumsBelow a ds) : a.natAbs < 2 ^ 53 := by
  simpa using h [] (by simp)

namespace State

/-- What has been counted at a path: the integer there, or zero where there is nothing and a value can be written. -/
inductive Counts (s : State) (p : Path) : Int → Prop
  | present {a : Int} (h : p.get? s.vars = some (.num (.int a))) : Counts s p a
  | absent {v : Json} {vars : Object} (h : p.get? s.vars = none) (hw : p.set v s.vars = .ok vars) : Counts s p 0

variable {s : State} {p : Path} {a d : Int} {delta : String}

theorem Counts.get?_of_has (h : s.Counts p a) (hs : p.has s.vars = true) : p.get? s.vars = some (.num (.int a)) := by
  cases h with
  | present h => exact h
  | absent h _ => exact absurd hs (by simp [Path.has, h])

theorem Counts.exists_set (h : s.Counts p a) (v : Json) : ∃ vars, p.set v s.vars = .ok vars := by
  cases h with
  | present h =>
    obtain ⟨vars, hset, -⟩ := Path.exists_set_of_get? h v
    exact ⟨vars, hset⟩
  | absent _ hw => exact Path.exists_set_iff.mpr (Path.exists_set_iff.mp ⟨_, hw⟩)

/-- A sum of numbers is written where the first of them has been read. -/
theorem addAt_eq_setVar {x y z : Binary64} (hne : ∀ items, p.get? s.vars ≠ some (.arr items))
    (hx : (p.get? s.vars).elim (some (.zero false)) Json.reading? = some x) (hy : Binary64.ofText? delta = some y)
    (hz : x.add y = .finite z) : s.addAt p delta = s.setVar p (.num (.ofBinary64 z)) := by
  unfold addAt
  split
  · next items hget => exact absurd hget (hne items)
  · simp only [hx, hy, hz]

theorem Counts.addAt (h : s.Counts p a) (ha : a.natAbs < 2 ^ 53) (hdelta : Decimal.IsInteger delta.toList d)
    (hd : d.natAbs < 2 ^ 53) (hsum : (a + d).natAbs < 2 ^ 53) :
    s.addAt p delta = s.setVar p (.num (.int (a + d))) := by
  obtain ⟨x, hne, hx, hvalue⟩ : ∃ x, (∀ items, p.get? s.vars ≠ some (.arr items)) ∧
      (p.get? s.vars).elim (some (.zero false)) Json.reading? = some x ∧ x.value = a := by
    cases h with
    | present h =>
      obtain ⟨x, hx, hvalue, -⟩ := (Binary64.correctlyRounded_ofInt a).exists_int ha
      refine ⟨x, by simp [h], ?_, hvalue⟩
      rw [h, Option.elim_some, Json.reading?, Num.toBinary64?, hx]
      rfl
    | absent h _ =>
      refine ⟨.zero false, by simp [h], by rw [h, Option.elim_none], ?_⟩
      rw [Binary64.value_zero, Int.cast_zero]
  obtain ⟨y, hy, hvalue', -⟩ := Binary64.exists_ofText?_of_natAbs_lt hdelta hd
  have hround := Binary64.correctlyRounded_add x y
  rw [hvalue, hvalue', ← Int.cast_add] at hround
  obtain ⟨z, hz, -, hint⟩ := hround.exists_int hsum
  rw [addAt_eq_setVar hne hx hy hz, hint]

/-- What a command that adds to a counter does to the state. -/
theorem Counts.applyOne {c : Command} (h : s.Counts p a) (hc : c.Adds p d) (ha : a.natAbs < 2 ^ 53)
    (hd : d.natAbs < 2 ^ 53) (hsum : (a + d).natAbs < 2 ^ 53) (tick : Tick) :
    ∃ vars, p.set (.num (.int (a + d))) s.vars = .ok vars ∧ s.applyOne tick c = (.applied, { s with vars }) := by
  obtain ⟨path, delta, rfl, hp, hdelta⟩ := hc
  obtain ⟨vars, hset⟩ := h.exists_set (.num (.int (a + d)))
  have hexec : s.execute tick (.add path delta) = .ok (.applied, { s with vars }) := by
    simp only [execute, parsePath_eq_ok hp, h.addAt ha hdelta hd hsum, setVar_eq_ok hset, bind, Except.bind]
  exact ⟨vars, hset, by rw [State.applyOne, hexec]⟩

/-- What a batch that adds to a counter does to the state: it writes the sum, if anything is added at all. -/
theorem Counts.apply {cs : List Command} {ds : List Int} (h : s.Counts p a) (hc : List.Forall₂ (Command.Adds p) cs ds)
    (hd : ∀ d ∈ ds, d.natAbs < 2 ^ 53) (hsum : SumsBelow a ds) (tick : Tick) :
    (s.apply tick cs).1 = cs.map (·, .applied) ∧ (cs = [] ∨
      ∃ vars, p.set (.num (.int (a + ds.sum))) s.vars = .ok vars ∧ (s.apply tick cs).2 = { s with vars }) := by
  induction hc generalizing s a with
  | nil => exact ⟨rfl, Or.inl rfl⟩
  | @cons c d cs ds hcd hrest ih =>
    obtain ⟨ha, hsum⟩ := sumsBelow_cons.mp hsum
    obtain ⟨hd, hds⟩ := List.forall_mem_cons.mp hd
    obtain ⟨vars, hset, hone⟩ := h.applyOne hcd ha hd hsum.start tick
    have hnext : State.Counts { s with vars } p (a + d) := .present (Path.get?_of_set hset)
    obtain ⟨hreport, hstate⟩ := ih hnext hds hsum
    rw [apply_cons, hone, List.map_cons, List.sum_cons, ← add_assoc]
    refine ⟨congrArg _ hreport, Or.inr ?_⟩
    rcases hstate with rfl | ⟨result, hresult, hstate⟩
    · cases hrest
      exact ⟨vars, by rwa [List.sum_nil, add_zero], rfl⟩
    · exact ⟨result, Path.set_of_set hset hresult, hstate⟩

/-- Integers below `2 ^ 53` are added to a counter exactly while the partial sums stay below it too. All commands are
applied, the sum is the integer that is stored, and in any order in which the partial sums stay below `2 ^ 53` the
commands end in the same state. -/
theorem counts_exactly {cs : List Command} {ds : List Int} (h : s.Counts p a)
    (hc : List.Forall₂ (Command.Adds p) cs ds) (hd : ∀ d ∈ ds, d.natAbs < 2 ^ 53) (hsum : SumsBelow a ds)
    (tick : Tick) : (s.apply tick cs).1 = cs.map (·, .applied) ∧
      (cs ≠ [] ∨ p.has s.vars = true → p.get? (s.apply tick cs).2.vars = some (.num (.int (a + ds.sum)))) ∧
      ∀ cs' ds', cs'.Perm cs → List.Forall₂ (Command.Adds p) cs' ds' → SumsBelow a ds' →
        (s.apply tick cs').2 = (s.apply tick cs).2 := by
  obtain ⟨hreport, hstate⟩ := h.apply hc hd hsum tick
  refine ⟨hreport, fun hne => ?_, fun cs' ds' hperm hc' hsum' => ?_⟩
  · rcases hstate with rfl | ⟨vars, hset, hstate⟩
    · obtain rfl := List.forall₂_nil_left_iff.mp hc
      rw [List.sum_nil, add_zero]
      exact h.get?_of_has (hne.resolve_left fun hnil => hnil rfl)
    · rw [hstate]
      exact Path.get?_of_set hset
  · have hds : ds'.Perm ds := List.rel_perm_imp (Command.rightUnique_adds p) hc' hc hperm
    obtain ⟨-, hstate'⟩ := h.apply hc' (fun d hm => hd d (hds.mem_iff.mp hm)) hsum' tick
    rcases hstate with rfl | ⟨vars, hset, hstate⟩
    · rw [hperm.eq_nil]
    · rcases hstate' with rfl | ⟨vars', hset', hstate'⟩
      · rw [hperm.symm.eq_nil]
      · rw [hds.sum_eq, hset] at hset'
        rw [hstate, hstate', Except.ok.inj hset']

/-- A gain and a loss of gold. -/
def wages : List Command := [.add "gold" "+20", .add " gold" "-007"]

theorem counts_exactly_wages : (initial.apply ⟨0, ⟨0, 0⟩⟩ wages).1.map (·.2) = [.applied, .applied] ∧
    Path.get? ⟨"gold", .key "gold", []⟩ (initial.apply ⟨0, ⟨0, 0⟩⟩ wages).2.vars = some (.num (.int 13)) ∧
      (initial.apply ⟨0, ⟨0, 0⟩⟩ wages.reverse).2 = (initial.apply ⟨0, ⟨0, 0⟩⟩ wages).2 := by
  have hgain : Command.Adds ⟨"gold", .key "gold", []⟩ (.add "gold" "+20") 20 :=
    ⟨_, _, rfl, rfl, .mk .plus (by decide) (by decide : Decimal.IsDigits ['2', '0'])⟩
  have hloss : Command.Adds ⟨"gold", .key "gold", []⟩ (.add " gold" "-007") (-7) :=
    ⟨_, _, rfl, rfl, .mk .minus (by decide) (by decide : Decimal.IsDigits ['0', '0', '7'])⟩
  have hstart : initial.Counts ⟨"gold", .key "gold", []⟩ 0 := .absent (v := .null) rfl rfl
  have hadds : List.Forall₂ (Command.Adds ⟨"gold", .key "gold", []⟩) wages [20, -7] := .cons hgain (.cons hloss .nil)
  obtain ⟨hreport, hvalue, horder⟩ := counts_exactly hstart hadds (by decide) (by decide) ⟨0, ⟨0, 0⟩⟩
  refine ⟨by rw [hreport]; rfl, hvalue (Or.inl (List.cons_ne_nil _ _)), ?_⟩
  exact horder _ [-7, 20] wages.reverse_perm (.cons hloss (.cons hgain .nil)) (by decide)

end State

end Chronicle
