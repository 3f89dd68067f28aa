import Chronicle.Command.Interpreter
import Chronicle.Proofs.TreeInvariants

/-!
# What commands keep

A policy says which texts, values and targets a state may hold. If it allows what commands make themselves (the keys
of a path, a sum, the target of a scheduled write), then a state keeps to it while commands are applied that do, and
so do the commands of its due writes.
-/

namespace Chronicle

structure Policy where
  Text : String → Prop
  Value : Json → Prop
  Target : Chronicle.Target → Prop

/-- The state holds only what the policy allows. -/
structure State.Obeys (π : Policy) (s : State) : Prop where
  vars : π.Value (.obj s.vars)
  schedule : ∀ w ∈ s.schedule, π.Text w.name ∧ π.Value w.value ∧ π.Target w.target ∧ π.Text w.reason
  summaries : ∀ t ∈ s.summaries, π.Text t

def Command.Obeys (π : Policy) : Command → Prop
  | .set path value => π.Text path ∧ π.Value value
  | .add path delta => π.Text path ∧ π.Text delta
  | .timedSet path value reason .. => π.Text path ∧ π.Value value ∧ π.Text reason
  | .responseSummary text => π.Text text
  | .cancelSet _ => True

/-- The policy allows what commands that obey it make. -/
structure Policy.Closed (π : Policy) : Prop where
  tree : Json.Hereditary π.Text π.Value
  str : ∀ t, π.Text t → π.Value (.str t)
  num : ∀ n, π.Value (.num n)
  path : ∀ t p, π.Text t → Path.ofString t = .ok p → π.Text p.text ∧ ∀ s ∈ p.segments, π.Text s.toKey
  target : ∀ tick gameTime time t, State.scheduleTarget tick gameTime time = .ok t → π.Target t

namespace Policy.Closed

variable {π : Policy} (h : π.Closed) {tick : Tick} {s s' : State} {outcome : CommandOutcome}

include h

theorem setVar (hs : s.Obeys π) {p : Path} {value : Json} (hp : ∀ s ∈ p.segments, π.Text s.toKey) (hv : π.Value value)
    (hr : s.setVar p value = .ok (outcome, s')) : s'.Obeys π := by
  obtain ⟨vars, hset, hr⟩ := exists_of_bind_ok hr
  rw [← (Prod.mk.inj (Except.ok.inj hr)).2]
  exact ⟨h.tree.path_set hv hp hs.vars (ok_of_mapError_ok hset), hs.schedule, hs.summaries⟩

theorem addAt (hs : s.Obeys π) {p : Path} {delta : String} (hp : ∀ s ∈ p.segments, π.Text s.toKey)
    (hd : π.Text delta) (hr : s.addAt p delta = .ok (outcome, s')) : s'.Obeys π := by
  unfold State.addAt at hr
  split at hr
  · next items hget =>
    have hitems := h.tree.arr.mp (h.tree.path_get? hs.vars hget)
    have hnew : π.Value (.arr (items ++ [.str delta])) := by
      rw [h.tree.arr]
      intro v hv
      rcases List.mem_append.mp hv with hv | hv
      · exact hitems v hv
      · exact List.mem_singleton.mp hv ▸ h.str delta hd
    rw [← (Prod.mk.inj (Except.ok.inj hr)).2]
    refine ⟨?_, hs.schedule, hs.summaries⟩
    cases hset : p.replace? (.arr (items ++ [.str delta])) s.vars with
    | none => exact hs.vars
    | some vars => exact h.tree.path_replace? hnew hp hs.vars hset
  · split at hr
    · exact (Prod.mk.inj (Except.ok.inj hr)).2 ▸ hs
    · exact (Prod.mk.inj (Except.ok.inj hr)).2 ▸ hs
    · split at hr
      · exact h.setVar hs hp (h.num _) hr
      · exact absurd hr (throw_ne_ok _ _)

omit h in
theorem cancel (hs : s.Obeys π) (identifier : String) : (s.cancel identifier).2.Obeys π := by
  unfold State.cancel
  split
  · exact hs
  · split
    · exact ⟨hs.vars, fun w hw => hs.schedule w (List.mem_of_mem_eraseIdx hw), hs.summaries⟩
    · split
      · exact ⟨hs.vars, fun w hw => hs.schedule w (List.mem_filter.mp hw).1, hs.summaries⟩
      · exact hs

theorem execute (hs : s.Obeys π) {c : Command} (hc : c.Obeys π) (hr : s.execute tick c = .ok (outcome, s')) :
    s'.Obeys π := by
  cases c with
  | set path value =>
    obtain ⟨p, hp, hr⟩ := exists_of_bind_ok hr
    exact h.setVar hs (h.path path p hc.1 (ok_of_mapError_ok hp)).2 hc.2 hr
  | add path delta =>
    obtain ⟨p, hp, hr⟩ := exists_of_bind_ok hr
    exact h.addAt hs (h.path path p hc.1 (ok_of_mapError_ok hp)).2 hc.2 hr
  | timedSet path value reason gameTime time =>
    obtain ⟨p, hp, hr⟩ := exists_of_bind_ok hr
    obtain ⟨t, ht, hr⟩ := exists_of_bind_ok hr
    have hname := (h.path path p hc.1 (ok_of_mapError_ok hp)).1
    rw [← (Prod.mk.inj (Except.ok.inj hr)).2]
    refine ⟨hs.vars, ?_, hs.summaries⟩
    intro w hw
    rcases List.mem_append.mp hw with hw | hw
    · exact hs.schedule w hw
    · exact List.mem_singleton.mp hw ▸ ⟨hname, hc.2.1, h.target _ _ _ _ ht, hc.2.2⟩
  | responseSummary text =>
    rw [← (Prod.mk.inj (Except.ok.inj hr)).2]
    refine ⟨hs.vars, hs.schedule, ?_⟩
    intro t ht
    rcases List.mem_append.mp ht with ht | ht
    · exact hs.summaries t ht
    · exact List.mem_singleton.mp ht ▸ hc
  | cancelSet identifier =>
    have hcancel := cancel hs identifier
    rwa [Except.ok.inj hr] at hcancel

theorem applyOne (tick : Tick) (hs : s.Obeys π) {c : Command} (hc : c.Obeys π) : (s.applyOne tick c).2.Obeys π := by
  unfold State.applyOne
  split
  · next result hr => exact h.execute hs hc hr
  · exact hs

theorem apply (tick : Tick) (hs : s.Obeys π) {commands : List Command} (hc : ∀ c ∈ commands, c.Obeys π) :
    (s.apply tick commands).2.Obeys π := by
  induction commands generalizing s with
  | nil => exact hs
  | cons c commands ih =>
    rw [State.apply]
    exact ih (h.applyOne tick hs (hc c List.mem_cons_self)) fun d hd => hc d (List.mem_cons_of_mem c hd)

end Policy.Closed

namespace State.Obeys

variable {π : Policy} {s : State} (hs : s.Obeys π) (tick : Tick)

include hs

theorem promoteDue : (s.promoteDue tick).2.Obeys π :=
  ⟨hs.vars, fun w hw => hs.schedule w (List.mem_filter.mp hw).1, hs.summaries⟩

theorem of_mem_promoteDue : ∀ c ∈ (s.promoteDue tick).1, c.Obeys π := by
  intro c hc
  obtain ⟨w, hw, rfl⟩ := List.mem_map.mp hc
  have hwrite := hs.schedule w (List.mem_filter.mp hw).1
  exact ⟨hwrite.1, hwrite.2.1⟩

end State.Obeys

/-- A turn applies the commands of the due writes, and then others. -/
theorem Policy.Closed.turn {π : Policy} (h : π.Closed) (tick : Tick) {s : State} (hs : s.Obeys π)
    {commands : List Command} (hc : ∀ c ∈ commands, c.Obeys π) :
    ((s.promoteDue tick).2.apply tick ((s.promoteDue tick).1 ++ commands)).2.Obeys π := by
  apply h.apply tick (hs.promoteDue tick)
  intro c hm
  exact (List.mem_append.mp hm).elim (hs.of_mem_promoteDue tick c) (hc c)

end Chronicle
