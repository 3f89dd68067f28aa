import Chronicle.Proofs.Regeneration
import Chronicle.Proofs.UnfailingRuns
import Mathlib.Data.List.Induction
import Mathlib.Order.Bounds.Basic

/-!
# The newest snapshot

A chat is loaded from the newest message at or before a target that is not the user's and carries a state that can
be read. The ways to load differ in the target only: a message that is asked for, the last one, or the last one that
is not the user's.
-/

namespace Chronicle

/-- The last item of a list to which `g` gives something, with its place. -/
def lastSome (g : α → Option β) (l : List α) : Option (Nat × β) :=
  l.zipIdx.reverse.findSome? fun (a, i) => (g a).map (i, ·)

theorem lastSome_concat (g : α → Option β) (l : List α) (a : α) :
    lastSome g (l ++ [a]) = ((g a).map (l.length, ·)).or (lastSome g l) := by
  rw [lastSome, List.zipIdx_append, List.reverse_append]
  cases h : g a <;> simp [lastSome, h]

theorem lastSome_spec (g : α → Option β) (l : List α) :
    (∀ i b, lastSome g l = some (i, b) → ∃ a, l[i]? = some a ∧ g a = some b) ∧
      ∀ k a b, l[k]? = some a → g a = some b → ∃ i b', lastSome g l = some (i, b') ∧ k ≤ i := by
  induction l using List.reverseRecOn with
  | nil => exact ⟨fun i b h => absurd h (by simp [lastSome]), fun k a b h => absurd h (by simp)⟩
  | append_singleton l a ih =>
    obtain ⟨hgiven, hlast⟩ := ih
    rw [lastSome_concat]
    constructor
    · intro i b h
      rcases Option.or_eq_some_iff.mp h with h | ⟨-, h⟩
      · obtain ⟨b', hb, h⟩ := Option.map_eq_some_iff.mp h
        obtain ⟨rfl, rfl⟩ := Prod.mk.inj h
        exact ⟨a, by simp, hb⟩
      · obtain ⟨a', ha, hb⟩ := hgiven i b h
        exact ⟨a', by rw [List.getElem?_append_left (List.getElem?_eq_some_iff.mp ha).1, ha], hb⟩
    · intro k a' b hk hb
      by_cases hlt : k < l.length
      · rw [List.getElem?_append_left hlt] at hk
        obtain ⟨i, b', hi, hki⟩ := hlast k a' b hk hb
        cases hg : g a with
        | none => exact ⟨i, b', hi, hki⟩
        | some c => exact ⟨l.length, c, rfl, hlt.le⟩
      · -- past the other items stands the last one, and it gives something itself
        rw [List.getElem?_append_right (Nat.le_of_not_lt hlt)] at hk
        have hplace := (List.getElem?_eq_some_iff.mp hk).1
        obtain rfl := List.mem_singleton.mp (List.mem_of_getElem? hk)
        rw [hb]
        exact ⟨l.length, b, rfl, by simp at hplace; omega⟩

/-- The state for which a message is loaded: a message of the user has none, whatever it carries. -/
def Message.state? (m : Message) : Option State := if m.isUser then none else Block.parse? m.activeText

theorem findState_eq (history : List Message) : findState history = lastSome Message.state? history := by
  unfold findState lastSome Message.state?
  congr 1
  funext ⟨m, i⟩
  by_cases hu : m.isUser = true <;> simp [hu]

namespace Transcript

/-- The places at or before a target whose messages have a state. -/
def stateful (c : Transcript) (target : Option Nat) : Set Nat :=
  {k | (∃ t ∈ target, k ≤ t) ∧ ∃ m s, c.messages[k]? = some m ∧ m.state? = some s}

/-- The state of the greatest of these places, or none if there is no such place. -/
def Newest (c : Transcript) (target : Option Nat) : Option (Nat × State) → Prop
  | some (j, s) => IsGreatest (c.stateful target) j ∧ ∃ m, c.messages[j]? = some m ∧ m.state? = some s
  | none => c.stateful target = ∅

/-- The greatest place of a message that is not the user's, or none if there is no such message. -/
def LastGenerated (c : Transcript) : Option Nat → Prop
  | some i => IsGreatest {k | ∃ m, c.messages[k]? = some m ∧ m.isUser = false} i
  | none => ∀ m ∈ c.messages, m.isUser = true

def lastGenerated (c : Transcript) : Option Nat :=
  (c.messages.zipIdx.reverse.find? fun (m, _) => !m.isUser).map (·.2)

def markAt (c : Transcript) (i : Nat) : Option Watermark := c.messages[i]?.map fun m => .of i m.activeText

variable {c : Transcript}

theorem getElem?_slice_succ (t k : Nat) : (c.slice 0 (t + 1))[k]? = if k ≤ t then c.messages[k]? else none := by
  rw [slice, List.drop_zero, List.getElem?_take]
  simp only [Nat.lt_succ_iff]

theorem newest_slice (c : Transcript) (t : Nat) : c.Newest (some t) (findState (c.slice 0 (t + 1))) := by
  obtain ⟨hgiven, hlast⟩ := lastSome_spec Message.state? (c.slice 0 (t + 1))
  rw [findState_eq]
  have hplaces {k : Nat} (hk : k ∈ c.stateful (some t)) :
      ∃ j s, lastSome Message.state? (c.slice 0 (t + 1)) = some (j, s) ∧ k ≤ j := by
    obtain ⟨⟨t', ht, hle⟩, m, s, hm, hs⟩ := hk
    obtain rfl := Option.some.inj ht
    exact hlast k m s (by rw [getElem?_slice_succ, if_pos hle, hm]) hs
  cases hf : lastSome Message.state? (c.slice 0 (t + 1)) with
  | none =>
    refine Set.eq_empty_of_forall_notMem fun k hk => ?_
    obtain ⟨j, s, hj, -⟩ := hplaces hk
    exact absurd (hf.symm.trans hj) (by simp)
  | some found =>
    obtain ⟨j, s⟩ := found
    obtain ⟨m, hm, hs⟩ := hgiven j s hf
    rw [getElem?_slice_succ] at hm
    split at hm
    · next hle =>
      refine ⟨⟨⟨⟨t, rfl, hle⟩, m, s, hm, hs⟩, fun k hk => ?_⟩, m, hm, hs⟩
      obtain ⟨j', s', hj, hle'⟩ := hplaces hk
      rw [(Prod.mk.inj (Option.some.inj (hf.symm.trans hj))).1]
      exact hle'
    · exact absurd hm (by simp)

theorem newest_none : c.Newest none none :=
  Set.eq_empty_of_forall_notMem fun _ hk => absurd hk.1.choose_spec.1 (by simp)

theorem slice_all (c : Transcript) : c.slice 0 c.messages.length = c.messages := by
  rw [slice, List.take_length, List.drop_zero]

theorem newest_messages (c : Transcript) : c.Newest (lastOf c.messages.length) (findState c.messages) := by
  by_cases hn : c.messages.length = 0
  · rw [lastOf, if_pos hn, List.length_eq_zero_iff.mp hn]
    exact newest_none
  · have hnewest := c.newest_slice (c.messages.length - 1)
    rw [Nat.sub_add_cancel (Nat.pos_of_ne_zero hn), slice_all] at hnewest
    rwa [lastOf, if_neg hn]

theorem newest_history (start : Option Nat) : c.Newest (c.target start) (findState (c.history start)) := by
  unfold history
  cases c.target start with
  | none => exact newest_none
  | some t => exact newest_slice c t

/-- There is one newest state for all targets with the same stateful places before them. -/
theorem Newest.unique {target target' : Option Nat} {found found' : Option (Nat × State)}
    (h : c.Newest target found) (h' : c.Newest target' found') (he : c.stateful target = c.stateful target') :
    found = found' := by
  unfold Newest at h h'
  rw [← he] at h'
  cases found with
  | none =>
    cases found' with
    | none => rfl
    | some found' => exact absurd (h ▸ h'.1.1) (Set.notMem_empty _)
  | some found =>
    cases found' with
    | none => exact absurd (h' ▸ h.1.1) (Set.notMem_empty _)
    | some found' =>
      obtain ⟨hj, m, hm, hs⟩ := h
      obtain ⟨hj', m', hm', hs'⟩ := h'
      have hplace : found.1 = found'.1 := hj.unique hj'
      rw [hplace, hm', Option.some.injEq] at hm
      rw [← hm, hs', Option.some.injEq] at hs
      exact congrArg some (Prod.ext hplace hs.symm)

theorem mark_eq_markAt (start : Option Nat) : c.mark start =
    if (findState (c.history start)).map (·.1) = c.target start then (c.target start).bind c.markAt else none := by
  unfold mark history
  cases c.target start with
  | none => simp [findState]
  | some t =>
    rw [Option.bind_some, Option.bind_some, getElem?_slice_succ, if_pos (Nat.le_refl t)]
    rfl

theorem find?_zipIdx_reverse (l : List Message) : (l.zipIdx.reverse.find? fun (m, _) => !m.isUser).map (·.2) =
    (lastSome (fun m => if m.isUser then none else some m) l).map (·.1) := by
  induction l using List.reverseRecOn with
  | nil => rfl
  | append_singleton l m ih =>
    rw [lastSome_concat, List.zipIdx_append, List.reverse_append]
    by_cases hu : m.isUser = true <;> simp [hu, ih]

theorem lastGenerated_spec (c : Transcript) : c.LastGenerated c.lastGenerated := by
  have hnotUser {m : Message} (h : m.isUser = false) : (if m.isUser then none else some m) = some m := by simp [h]
  obtain ⟨hgiven, hlast⟩ := lastSome_spec (fun m : Message => if m.isUser then none else some m) c.messages
  rw [lastGenerated, find?_zipIdx_reverse]
  cases hf : lastSome (fun m : Message => if m.isUser then none else some m) c.messages with
  | none =>
    intro m hm
    obtain ⟨k, hk⟩ := List.mem_iff_getElem?.mp hm
    rw [← Bool.not_eq_false]
    intro hu
    obtain ⟨i, m', hi, -⟩ := hlast k m m hk (hnotUser hu)
    exact absurd (hf.symm.trans hi) (by simp)
  | some found =>
    obtain ⟨i, m⟩ := found
    obtain ⟨m', hm', hu⟩ := hgiven i m hf
    refine ⟨⟨m', hm', ?_⟩, ?_⟩
    · rw [← Bool.not_eq_true]
      exact fun hu' => absurd hu (by simp [hu'])
    · rintro k ⟨m'', hk, hu'⟩
      obtain ⟨i', m₁, hi, hle⟩ := hlast k m'' m'' hk (hnotUser hu')
      rw [hf] at hi
      exact (Prod.mk.inj (Option.some.inj hi)).1 ▸ hle

theorem LastGenerated.target_eq {start : Option Nat} (h : c.LastGenerated start) : c.target start = start := by
  cases start with
  | none => exact Option.bind_fun_none _
  | some i =>
    obtain ⟨m, hm, -⟩ := h.1
    exact target_of_getElem? hm

theorem stateful_lastOf : c.stateful (lastOf c.messages.length) =
    {k | ∃ m s, c.messages[k]? = some m ∧ m.state? = some s} := by
  ext k
  refine ⟨fun hk => hk.2, ?_⟩
  rintro ⟨m, s, hm, hs⟩
  have hlt := length_of_getElem? hm
  have hlast : lastOf c.messages.length = some (c.messages.length - 1) := if_neg (by omega)
  exact ⟨⟨_, hlast, by omega⟩, m, s, hm, hs⟩

/-- The messages after the last one that is not the user's have no states. -/
theorem LastGenerated.stateful_eq {target : Option Nat} (h : c.LastGenerated target) :
    c.stateful target = c.stateful (lastOf c.messages.length) := by
  rw [stateful_lastOf]
  ext k
  refine ⟨fun hk => hk.2, ?_⟩
  rintro ⟨m, s, hm, hs⟩
  have hu : m.isUser = false := by
    rw [← Bool.not_eq_true]
    exact fun hu => absurd hs (by simp [Message.state?, hu])
  refine ⟨?_, m, s, hm, hs⟩
  cases target with
  | none => exact absurd (h m (List.mem_of_getElem? hm)) (by simp [hu])
  | some i => exact ⟨i, rfl, h.2 ⟨m, hm, hu⟩⟩

end Transcript

/-- A way to load a state. -/
inductive Loading where
  | reloadFrom (index : Nat)
  | swiped (index : Nat)
  | edited (index : Nat)
  | chatChanged

namespace Loading

/-- What must hold of a chat to be loaded: after an edit, that its last message is not the user's. -/
def Applies (c : Transcript) : Loading → Prop
  | edited _ => ∃ m, c.messages.getLast? = some m ∧ m.isUser = false
  | _ => True

/-- The message from which on a state is looked for. -/
def Targets (c : Transcript) : Loading → Option Nat → Prop
  | reloadFrom i, target | swiped i, target =>
    target = if c.messages = [] then none else some (min i (c.messages.length - 1))
  | edited _, target => target = some (c.messages.length - 1)
  | chatChanged, target => c.LastGenerated target

def program (options : Options) : Loading → HostProgram Outcome
  | reloadFrom i => Controller.reloadFrom i
  | swiped i => Controller.onSwipe options i
  | edited _ => Controller.onEdit
  | chatChanged => Controller.onChatChanged

end Loading

namespace Controller
open SessionProgram HostProgram

variable {options : Options} {s : Session} {w w' : World} {start : Option Nat}

theorem exec_reload_of_unfailing (h : (reload start).unfailing s w = true) :
    CallKind.length ∉ w.host.refused ∧ ∃ disk, (reload start).exec s w =
      ((.ok (.reloaded (w.host.chat.target start) ((findState (w.host.chat.history start)).map (·.1))),
        { s with watermark := w.host.chat.mark start }), w.saved (w.host.chat.loaded start) disk) := by
  have hsettle (hlength : CallKind.length ∉ w.host.refused)
      (hlisted : w.host.chat.target start = none ∨ CallKind.messages ∉ w.host.refused) {w' : World}
      (hwrite : (writeStore ((findState (w.host.chat.history start)).elim State.initial (·.2)).toStored).exec w =
        (.ok (), w')) : ∃ disk, (reload start).exec s w =
      ((.ok (.reloaded (w.host.chat.target start) ((findState (w.host.chat.history start)).map (·.1))),
        { s with watermark := w.host.chat.mark start }), w.saved (w.host.chat.loaded start) disk) := by
    obtain ⟨-, disk, rfl, -⟩ := writeStore_ok hwrite
    rw [exec_reload hlength hlisted, settle, exec_bind_lift_ok hwrite, exec_bind_ok (exec_modify _ _ _), exec_pure]
    exact ⟨disk, rfl⟩
  unfold reload at h
  obtain ⟨hlength, _, hok, h⟩ := exists_of_unfailing_read answers_length (exec_length w) h
  obtain rfl := Except.ok.inj hok
  refine ⟨hlength, ?_⟩
  cases ht : w.host.chat.target start with
  | none =>
    have htarget : (lastOf w.host.chat.messages.length).bind (fun last => start.map (min · last)) = none := ht
    have hhistory : w.host.chat.history start = [] := by rw [Transcript.history, ht]
    simp only [htarget] at h
    have hsearched := unfailing_of_bind_ok h (exec_pure [] s w)
    obtain ⟨_, w', hwrite, -⟩ := exists_of_unfailing_lift (answers_writeStore _) hsearched
    rw [← ht]
    exact hsettle hlength (Or.inl ht) (by rw [hhistory]; exact hwrite)
  | some t =>
    have htarget : (lastOf w.host.chat.messages.length).bind (fun last => start.map (min · last)) = some t := ht
    have hhistory : w.host.chat.history start = w.host.chat.slice 0 (t + 1) := by rw [Transcript.history, ht]
    simp only [htarget] at h
    obtain ⟨hlisted, _, hok, h⟩ := exists_of_unfailing_read (answers_messages 0 (t + 1)) (exec_messages 0 (t + 1) w) h
    obtain rfl := Except.ok.inj hok
    obtain ⟨_, w', hwrite, -⟩ := exists_of_unfailing_lift (answers_writeStore _) h
    rw [← ht]
    exact hsettle hlength (Or.inr hlisted) (by rw [hhistory]; exact hwrite)

/-- A run has loaded the state that is looked for from a message on. -/
structure HasLoaded (w : World) (start : Option Nat) (run : Except HostError Outcome × World) : Prop where
  result : run.1 = .ok (.reloaded (w.host.chat.target start) ((findState (w.host.chat.history start)).map (·.1)))
  chat : run.2.host.chat = w.host.chat.loaded start
  watermark : (run.2.session w.host.chat.id).watermark = w.host.chat.mark start
  refused : run.2.host.refused = w.host.refused

theorem hasLoaded_withSession {p : SessionProgram Outcome} (hid : CallKind.conversationId ∉ w.host.refused)
    (hp : p.exec (w.session w.host.chat.id) w = (reload start).exec s w) (h : (reload start).unfailing s w = true) :
    HasLoaded w start ((withSession p).exec w) := by
  obtain ⟨-, disk, hreload⟩ := exec_reload_of_unfailing h
  rw [exec_withSession_eq hid, hp, hreload]
  exact ⟨rfl, rfl, congrArg Session.watermark (World.session_withSession _ _ _), rfl⟩

theorem hasLoaded_reload (h : (withSession (reload start)).unfailing w = true) :
    HasLoaded w start ((withSession (reload start)).exec w) := by
  obtain ⟨hid, h⟩ := unfailing_of_withSession h
  exact hasLoaded_withSession hid rfl h

theorem hasLoaded_onSwipe {i : Nat} (h : (onSwipe options i).unfailing w = true) :
    HasLoaded w (some i) ((onSwipe options i).exec w) := by
  rw [exec_onSwipe]
  apply hasLoaded_reload
  unfold onSwipe at h
  split at h
  · rw [unfailing_bind_lift, Bool.and_eq_true] at h
    exact h.2
  · exact h

theorem hasLoaded_onEdit {i : Nat} {m : Message} (hlast : i + 1 = w.host.chat.messages.length)
    (hm : w.host.chat.messages[i]? = some m) (hu : m.isUser = false) (h : onEdit.unfailing w = true) :
    HasLoaded w (some i) (onEdit.exec w) := by
  obtain ⟨hid, h⟩ := unfailing_of_withSession h
  obtain ⟨hlength, _, hok, h⟩ := exists_of_unfailing_read answers_lastIndex (exec_lastIndex w) h
  obtain rfl := Except.ok.inj hok
  simp only [lastOf_eq hlast] at h
  obtain ⟨hread, m', hok, h⟩ := exists_of_unfailing_read (answers_message i) (exec_message i w) h
  obtain rfl := Option.some.inj (hm.symm.trans (message_eq_ok_iff.mp hok))
  rw [if_neg (by simp [hu])] at h
  refine hasLoaded_withSession hid ?_ h
  rw [exec_read hlength (exec_lastIndex w) rfl, lastOf_eq hlast]
  simp only
  rw [exec_read hread (exec_message i w) (message_eq_ok_iff.mpr hm), if_neg (by simp [hu])]

theorem hasLoaded_onChatChanged (h : onChatChanged.unfailing w = true) :
    HasLoaded w w.host.chat.lastGenerated (onChatChanged.exec w) ∧ CallKind.length ∉ w.host.refused ∧
      CallKind.messages ∉ w.host.refused := by
  obtain ⟨hid, h⟩ := unfailing_of_withSession h
  have hemptied := unfailing_of_bind_ok h (exec_set .empty _ w)
  obtain ⟨hlength, _, hok, hcounted⟩ := exists_of_unfailing_read answers_length (exec_length w) hemptied
  obtain rfl := Except.ok.inj hok
  obtain ⟨hlisted, _, hok, hlist⟩ :=
    exists_of_unfailing_read (answers_messages 0 _) (exec_messages 0 _ w) hcounted
  obtain rfl := Except.ok.inj hok
  have hmarked := unfailing_of_bind_ok hlist (exec_modify _ _ w)
  rw [Transcript.slice_all] at hmarked
  refine ⟨hasLoaded_withSession hid ?_ hmarked, hlength, hlisted⟩
  rw [exec_bind_ok (exec_set _ _ _), exec_read hlength (exec_length w) rfl, exec_read hlisted (exec_messages _ _ w) rfl,
    exec_bind_ok (exec_modify _ _ _), Transcript.slice_all]
  rfl

theorem exec_latestState_of_ok (hlength : CallKind.length ∉ w.host.refused)
    (hlisted : CallKind.messages ∉ w.host.refused) :
    latestState.exec w = (.ok (findState w.host.chat.messages), w) := by
  rw [latestState, HostProgram.exec_bind, exec_length, World.reply_of_notMem hlength]
  simp only
  rw [HostProgram.exec_bind, exec_messages, World.reply_of_notMem hlisted, Transcript.slice_all]
  rfl

/-- Each way to load a state looks for it from a message on. -/
theorem exists_hasLoaded (l : Loading) (h : (l.program options).unfailing w = true) (hl : l.Applies w.host.chat) :
    ∃ start, HasLoaded w start ((l.program options).exec w) ∧ l.Targets w.host.chat (w.host.chat.target start) := by
  have htarget (i : Nat) : w.host.chat.target (some i) =
      if w.host.chat.messages = [] then none else some (min i (w.host.chat.messages.length - 1)) := by
    split
    · next hnil => rw [Transcript.target, hnil]; rfl
    · next hne => exact Transcript.target_some hne i
  cases l with
  | reloadFrom i => exact ⟨some i, hasLoaded_reload h, htarget i⟩
  | swiped i => exact ⟨some i, hasLoaded_onSwipe h, htarget i⟩
  | edited =>
    obtain ⟨m, hm, hu⟩ := hl
    rw [List.getLast?_eq_getElem?] at hm
    have hlt := Transcript.length_of_getElem? hm
    exact ⟨_, hasLoaded_onEdit (by omega) hm hu h, Transcript.target_of_getElem? hm⟩
  | chatChanged =>
    refine ⟨_, (hasLoaded_onChatChanged h).1, ?_⟩
    rw [(Transcript.lastGenerated_spec _).target_eq]
    exact Transcript.lastGenerated_spec _

/-- Whichever way a chat is loaded without failures, its messages stay as they are and its store gets the newest
state at or before the target, or the initial state if no message there has one. The target counts as handled exactly
if the state is its own. After a change of the chat the state is the newest one of the whole chat. -/
theorem loads_newest (options : Options) (l : Loading) (w : World) (h : (l.program options).unfailing w = true)
    (hl : l.Applies w.host.chat) : ∃ target found w',
      (l.program options).exec w = (.ok (.reloaded target (found.map (·.1))), w') ∧
      l.Targets w.host.chat target ∧ w.host.chat.Newest target found ∧
      w'.host.chat = { w.host.chat with stored := (found.elim State.initial (·.2)).toStored } ∧
      (w'.session w.host.chat.id).watermark =
        (if found.map (·.1) = target then target.bind w.host.chat.markAt else none) ∧
      (l = .chatChanged → latestState.exec w' = (.ok found, w')) := by
  obtain ⟨start, hloaded, htargets⟩ := exists_hasLoaded l h hl
  refine ⟨_, findState (w.host.chat.history start), _, Prod.ext hloaded.result rfl, htargets,
    Transcript.newest_history start, hloaded.chat, ?_, ?_⟩
  · rw [hloaded.watermark, Transcript.mark_eq_markAt]
  · rintro rfl
    obtain ⟨-, hlength, hlisted⟩ := hasLoaded_onChatChanged h
    have hsame : findState (w.host.chat.history start) = findState w.host.chat.messages :=
      (Transcript.newest_history start).unique (Transcript.newest_messages _) htargets.stateful_eq
    rw [exec_latestState_of_ok (by rwa [hloaded.refused]) (by rwa [hloaded.refused]), hloaded.chat, hsame]
    rfl

def paid : State := ⟨[("gold", .num (.int 7))], [], []⟩

/-- A chat whose last message carries no state. -/
def ferry : World := freshWorld (.inMemory ⟨"ferry", [.plain 0 .assistant (Block.embed "They pay." paid),
  .plain 1 .user "Onward.", .plain 2 .assistant "They cross."], .obj []⟩) ⟨0, 0⟩

theorem findState_ferry : findState (ferry.host.chat.slice 0 3) = some (0, paid) := by
  have hfound : (findState (ferry.host.chat.slice 0 3)).any (fun (j, s) => j == 0 && s.holdsOnly "gold" (.int 7)) := by
    decide +kernel
  obtain ⟨⟨j, s⟩, hf, h⟩ := (Option.any_eq_true _ _).mp hfound
  rw [Bool.and_eq_true, beq_iff_eq] at h
  rw [hf, h.1, State.eq_of_holdsOnly h.2, paid]

theorem loads_newest_ferry : ∃ w', onEdit.exec ferry = (.ok (.reloaded (some 2) (some 0)), w') ∧
    w'.host.chat = { ferry.host.chat with stored := paid.toStored } ∧ (w'.session "ferry").watermark = none := by
  obtain ⟨target, found, w', hrun, htarget, hnewest, hchat, hmark, -⟩ :=
    loads_newest campOptions (.edited 2) ferry (by decide +kernel) ⟨_, rfl, rfl⟩
  obtain rfl : target = some 2 := htarget
  obtain rfl : found = some (0, paid) := (hnewest.unique (Transcript.newest_slice _ 2) rfl).trans findState_ferry
  exact ⟨w', hrun, hchat, hmark⟩

end Controller

end Chronicle
