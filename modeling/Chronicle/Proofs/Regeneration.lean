import Chronicle.Proofs.Watermarks

/-!
# Generating a message anew

A new swipe of the last message takes the place of the old one and of all that had come of it. The swipe is
loaded and the generation is ended; what the chat holds then is told by the messages before and the new text.
-/

namespace Chronicle

namespace Message

theorem activeText_addSwipe (text : String) (m : Message) : (m.addSwipe text).activeText = text := by
  simp [addSwipe, activeText, activeIndex]

end Message

theorem findState_concat_of_none {history : List Message} {m : Message} (h : Block.parse? m.activeText = none) :
    findState (history ++ [m]) = findState history := by
  rw [findState, List.zipIdx_append, List.reverse_append]
  cases hu : m.isUser <;> simp [findState, h, hu]

theorem lt_of_findState {history : List Message} {j : Nat} {s : State} (h : findState history = some (j, s)) :
    j < history.length := by
  obtain ⟨⟨m, k⟩, hmem, hk⟩ := List.exists_of_findSome?_eq_some h
  have hlt := List.mem_zipIdx (List.mem_reverse.mp hmem)
  simp only at hk
  split at hk
  · simp at hk
  · obtain ⟨s', -, he⟩ := Option.map_eq_some_iff.mp hk
    rw [← (Prod.mk.inj he).1]
    omega

theorem State.store_toStored {c : Transcript} {s : State} (h : c.stored = s.toStored) : c.store = s.toStored := by
  rw [Transcript.store, h]
  rfl

namespace Host

theorem addSwipe_ok {h h' : Host} {i k : Nat} {text : String} (ha : h.addSwipe i text = (.ok k, h')) :
    ∃ m disk, h.chat.messages[i]? = some m ∧
      h' = { h with chat := { h.chat with messages := h.chat.messages.set i (m.addSwipe text) }, disk } ∧ h'.Kept := by
  obtain ⟨chat, disk, hf, rfl, hk⟩ := ok_of_update ha
  unfold Transcript.update at hf
  cases hm : h.chat.message i with
  | error e =>
    rw [hm] at hf
    exact absurd hf (by simp)
  | ok m =>
    rw [hm] at hf
    exact ⟨m, disk, HostProgram.message_eq_ok_iff.mp hm, by rw [← (Prod.mk.inj hf).2], hk⟩

end Host

namespace Transcript

variable {c : Transcript} {i : Nat} {m : Message}

theorem history_of_getElem? (hm : c.messages[i]? = some m) : c.history (some i) = c.messages.take i ++ [m] :=
  history_eq (target_of_getElem? hm) hm

/-- A message without a state of its own is not marked by loading from it. -/
theorem mark_eq_none (hm : c.messages[i]? = some m) (hb : Block.parse? m.activeText = none) :
    c.mark (some i) = none := by
  have hne : (findState (c.messages.take i)).map (·.1) ≠ some i := by
    intro h
    obtain ⟨⟨j, s⟩, hfind, rfl⟩ := Option.map_eq_some_iff.mp h
    have hlt := lt_of_findState hfind
    rw [List.length_take] at hlt
    omega
  rw [mark, target_of_getElem? hm, history_of_getElem? hm, findState_concat_of_none hb, Option.bind_some, if_neg hne]

end Transcript

namespace Controller
open SessionProgram HostProgram

variable {options : Options} {w : World} {i : Nat} {m : Message}

/-- What a chat holds after its last message has been generated anew: the state that the text carries, or the one
that its commands make of the newest state before it. -/
def regenerated (options : Options) (tick : Tick) (earlier : List Message) (text : String) : State × String :=
  match Block.parse? text with
  | some s => (s, text)
  | none =>
    let before := (findState earlier).elim State.initial (·.2)
    let turn := Turn.take options tick ((State.ofStored? before.toStored).getD .initial) text
    (turn.state, turn.text)

/-- The last message of a chat, not the user's, has been loaded and has its mark if it carries a state. -/
structure HasReloaded (w : World) (i : Nat) (m : Message) : Prop where
  serves : w.Serves
  last : i + 1 = w.host.chat.messages.length
  message : w.host.chat.messages[i]? = some m
  notUser : m.isUser = false
  stored : w.host.chat.stored = ((findState (w.host.chat.history (some i))).elim State.initial (·.2)).toStored
  marked : (w.session w.host.chat.id).watermark = w.host.chat.mark (some i)

theorem HasReloaded.of_onSwipe (options : Options) (h : w.Serves) (hl : ¬w.Unlisted)
    (hlast : i + 1 = w.host.chat.messages.length) (hm : w.host.chat.messages[i]? = some m) (hu : m.isUser = false) :
    ∃ target found w', (onSwipe options i).exec w = (.ok (.reloaded target found), w') ∧ HasReloaded w' i m ∧
      w'.host.chat.messages = w.host.chat.messages := by
  obtain ⟨disk, hrun, hs⟩ := exec_withSession_reload h hl (some i)
  rw [← exec_onSwipe options] at hrun
  refine ⟨_, _, _, hrun, ⟨⟨hs.refused, hs.kept⟩, hlast, hm, hu, rfl, ?_⟩, rfl⟩
  exact congrArg Session.watermark (World.session_withSession _ _ _)

theorem HasReloaded.heldAt_eq (h : HasReloaded w i m) (options : Options) : heldAt options w i m =
    ((regenerated options ⟨i, w.clock⟩ (w.host.chat.messages.take i) m.activeText).1.toStored,
      (regenerated options ⟨i, w.clock⟩ (w.host.chat.messages.take i) m.activeText).2) := by
  have hstored := h.stored
  have hmark := h.marked
  rw [Transcript.history_of_getElem? h.message] at hstored
  unfold heldAt regenerated
  cases hb : Block.parse? m.activeText with
  | some s =>
    rw [findState_concat h.notUser hb] at hstored
    rw [Transcript.mark_eq (Transcript.target_of_getElem? h.message) h.message h.notUser hb] at hmark
    have hcovers : (w.session w.host.chat.id).covers i m.activeText = true := by simp [Session.covers, hmark]
    rw [if_pos hcovers, hstored]
    rfl
  | none =>
    rw [findState_concat_of_none hb] at hstored
    rw [Transcript.mark_eq_none h.message hb] at hmark
    have hcovers : ¬(w.session w.host.chat.id).covers i m.activeText = true := by simp [Session.covers, hmark]
    have hturn : turnAt options w i m = Turn.take options ⟨i, w.clock⟩
        ((State.ofStored? ((findState (w.host.chat.messages.take i)).elim State.initial (·.2)).toStored).getD .initial)
        m.activeText := by
      rw [turnAt, lastOf_eq h.last, State.store_toStored hstored]
      rfl
    rw [if_neg hcovers, hturn]

/-- A run that nowhere fails and leaves a state in the store and a text in a message. -/
structure EndsWith (i : Nat) (s : State) (text : String) (run : List Outcome × World) : Prop where
  unfailed : ∀ e, Outcome.failed e ∉ run.1
  holds : Holds run.2 i (s.toStored, text)

theorem endsWith_regenerated (options : Options) (clock clock' : Instant) (h : w.Serves) (hl : ¬w.Unlisted)
    (hlast : i + 1 = w.host.chat.messages.length) (hm : w.host.chat.messages[i]? = some m) (hu : m.isUser = false) :
    let held := regenerated options ⟨i, clock'⟩ (w.host.chat.messages.take i) m.activeText
    EndsWith i held.1 held.2
      (handleAt options [(clock, .messageSwiped i), (clock', .generationEnded)] w) := by
  obtain ⟨target, found, v, hswipe, hreloaded, hmessages⟩ :=
    HasReloaded.of_onSwipe options (w := { w with clock }) ⟨h.refused, h.kept⟩ hl hlast hm hu
  have hclock : HasReloaded { v with clock := clock' } i m :=
    ⟨⟨hreloaded.serves.refused, hreloaded.serves.kept⟩, hreloaded.last, hreloaded.message, hreloaded.notUser,
      hreloaded.stored, hreloaded.marked⟩
  obtain ⟨ended, v', hended, hunfailed, hholds⟩ :=
    holds_onGenerationEnded hclock.serves hclock.last hclock.message hclock.notUser options
  have hrun : handleAt options [(clock, .messageSwiped i), (clock', .generationEnded)] w =
      ([.reloaded target found, ended], v') := by
    simp only [handleAt, run_handle, handler, hswipe, hended, Outcome.ofResult]
  have hearlier : v.host.chat.messages = w.host.chat.messages := hmessages
  rw [hclock.heldAt_eq] at hholds
  simp only [hearlier] at hholds
  rw [hrun]
  refine ⟨?_, hholds⟩
  intro e he
  rcases List.mem_cons.mp he with he | he
  · exact absurd he (by simp)
  · exact hunfailed e (List.mem_singleton.mp he).symm

theorem endsWith_of_addSwipe (options : Options) (clock clock' : Instant) {text : String} {k : Nat} {host : Host}
    (hr : w.host.refused = []) (hlast : i + 1 = w.host.chat.messages.length)
    (hm : w.host.chat.messages[i]? = some m) (hu : m.isUser = false) (hs : w.host.addSwipe i text = (.ok k, host)) :
    let held := regenerated options ⟨i, clock'⟩ (w.host.chat.messages.take i) text
    EndsWith i held.1 held.2
      (handleAt options [(clock, .messageSwiped i), (clock', .generationEnded)] { w with host }) := by
  obtain ⟨m', disk, hm', rfl, hk⟩ := Host.addSwipe_ok hs
  obtain rfl : m = m' := Option.some.inj (hm.symm.trans hm')
  let chat : Transcript := { w.host.chat with messages := w.host.chat.messages.set i (m.addSwipe text) }
  let v : World := { w with host := { w.host with chat, disk } }
  have hserves : v.Serves := ⟨by simp [v, hr], hk⟩
  have hlisted : ¬v.Unlisted := by simp [World.Unlisted, v, hr]
  have hlength : i + 1 = v.host.chat.messages.length := by simpa [v, chat] using hlast
  have hmessage : v.host.chat.messages[i]? = some (m.addSwipe text) :=
    List.getElem?_set_self (Transcript.length_of_getElem? hm)
  have hends := endsWith_regenerated options clock clock' hserves hlisted hlength hmessage hu
  have hearlier : v.host.chat.messages.take i = w.host.chat.messages.take i := List.take_set_of_le (Nat.le_refl i)
  rwa [hearlier, Message.activeText_addSwipe] at hends

/-- Generating the last message anew forgets the old generation. Two chats with the same messages before it, whatever
the last message, the stores and the sessions were, hold the same state and the same text once the new text has been
added as a swipe, the swipe has been loaded and the generation has been ended; and none of this fails. -/
theorem regeneration_forgets (options : Options) (clock clock' : Instant) (i : Nat) (text : String) (w w' : World)
    (m m' : Message) (k k' : Nat) (host host' : Host) (hr : w.host.refused = []) (hr' : w'.host.refused = [])
    (hbefore : w.host.chat.messages.take i = w'.host.chat.messages.take i)
    (hlast : i + 1 = w.host.chat.messages.length) (hlast' : i + 1 = w'.host.chat.messages.length)
    (hm : w.host.chat.messages[i]? = some m) (hm' : w'.host.chat.messages[i]? = some m') (hu : m.isUser = false)
    (hu' : m'.isUser = false) (hs : w.host.addSwipe i text = (.ok k, host))
    (hs' : w'.host.addSwipe i text = (.ok k', host')) : ∃ s text',
      EndsWith i s text' (handleAt options [(clock, .messageSwiped i), (clock', .generationEnded)] { w with host }) ∧
      EndsWith i s text'
        (handleAt options [(clock, .messageSwiped i), (clock', .generationEnded)] { w' with host := host' }) := by
  have hends := endsWith_of_addSwipe options clock clock' hr hlast hm hu hs
  have hends' := endsWith_of_addSwipe options clock clock' hr' hlast' hm' hu' hs'
  rw [← hbefore] at hends'
  exact ⟨_, _, hends, hends'⟩

/-- The chat of `camp` with another last message, a store that is not empty, and a mark on that message. -/
def wornCamp : World where
  host := .inMemory ⟨"camp", [.plain 0 .assistant "They rest.", ⟨1, .assistant, "A pit.", ["A trap.", "A pit."], some 1⟩],
    .obj [("static", .obj [("gold", .num (.int 99))])]⟩
  clock := ⟨7, 0⟩
  sessions := [("camp", ⟨some (.of 1 "A pit."), some 1⟩)]

theorem regeneration_forgets_coin : ∃ s text,
    EndsWith 1 s text (handleAt campOptions [(⟨60, 0⟩, .messageSwiped 1), (⟨61, 0⟩, .generationEnded)]
      { camp with host := (camp.host.addSwipe 1 "A coin. <ADD :: gold :: 1>").2 }) ∧
    EndsWith 1 s text (handleAt campOptions [(⟨60, 0⟩, .messageSwiped 1), (⟨61, 0⟩, .generationEnded)]
      { wornCamp with host := (wornCamp.host.addSwipe 1 "A coin. <ADD :: gold :: 1>").2 }) :=
  regeneration_forgets campOptions ⟨60, 0⟩ ⟨61, 0⟩ 1 "A coin. <ADD :: gold :: 1>" camp wornCamp chest
    ⟨1, .assistant, "A pit.", ["A trap.", "A pit."], some 1⟩ 1 2 _ _ rfl rfl rfl rfl rfl rfl rfl rfl rfl rfl rfl

end Controller

end Chronicle
