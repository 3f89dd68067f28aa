import Chronicle.Proofs.Reopening

/-!
# Watermarks

The session marks the message that was handled last. Once the last message of a chat has been processed, it stays
as it is as long as no generation ends while the mark is on another message. Loading from an earlier message, as
a swipe of it does, takes the mark away; loading from the last one gives it back.
-/

namespace Chronicle

namespace Event

def endsGeneration : Event → Bool
  | generationEnded | generationStopped => true
  | _ => false

/-- Whether the mark is on the last message, at `i`, after an event. A host that does not list messages keeps
swipes and edits from moving the mark, and a change of the chat from setting it. -/
def marks (unlisted : Bool) (i : Nat) (marked : Bool) : Event → Bool
  | messageSwiped j => if unlisted then marked else i ≤ j
  | messageEdited _ => if unlisted then marked else true
  | chatChanged => !unlisted
  | generationStarted | generationEnded | generationStopped => marked

/-- Whether a generation ends while the mark is not on the last message. -/
def endsUnmarked (unlisted : Bool) (i : Nat) (marked : Bool) : List Event → Bool
  | [] => false
  | e :: events => (e.endsGeneration && !marked) || endsUnmarked unlisted i (e.marks unlisted i marked) events

end Event

def Outcome.ofResult : Except HostError Outcome → Outcome
  | .ok outcome => outcome
  | .error e => .failed e

theorem Outcome.eq_ok_of_ofResult {r : Except HostError Outcome} {k : Nat} {report : Report}
    (h : Outcome.ofResult r = .processed k report) : r = .ok (.processed k report) := by
  cases r with
  | ok outcome => exact congrArg Except.ok h
  | error e => exact absurd h (by simp [ofResult])

namespace Controller
open SessionProgram HostProgram

def handler (options : Options) : Event → HostProgram Outcome
  | .generationStarted => onGenerationStarted
  | .generationEnded | .generationStopped => onGenerationEnded options
  | .messageSwiped index => onSwipe options index
  | .messageEdited _ => onEdit
  | .chatChanged => onChatChanged

theorem run_handle (options : Options) (e : Event) (w : World) : (handle options e).run w =
    (Outcome.ofResult ((handler options e).exec w).1, ((handler options e).exec w).2) := by
  have hrun : (handle options e).run w = Program.run (ExceptT.run (handler options e) >>= fun result =>
      match result with
      | .ok outcome => pure outcome
      | .error e => pure (.failed e)) w := by cases e <;> rfl
  rw [hrun, Program.run_bind]
  unfold HostProgram.exec
  cases (Program.run (ExceptT.run (handler options e)) w).1 <;> rfl

/-- Handles events one after the other, each at its own time. -/
def handleAt (options : Options) : List (Instant × Event) → World → List Outcome × World
  | [], w => ([], w)
  | (clock, e) :: events, w =>
    let (outcome, w) := (handle options e).run { w with clock }
    let (outcomes, w) := handleAt options events w
    (outcome :: outcomes, w)

/-- Events that are handled at once are handled at the time that it is. -/
theorem handleAll_eq_handleAt (options : Options) (events : List Event) (w : World) :
    handleAll options events w = handleAt options (events.map (w.clock, ·)) w := by
  induction events generalizing w with
  | nil => rfl
  | cons e events ih =>
    have hrest := ih ((handle options e).run w).2
    rw [Program.clock_run] at hrest
    cases hrun : (handle options e).run w with
    | mk outcome w' =>
      rw [hrun] at hrest
      simp only [handleAll, List.map_cons, handleAt, hrun, hrest]

/-- A host that serves holds a last message that carries a state, and the session marks it or not. -/
structure Holding (unlisted : Bool) (i : Nat) (m : Message) (marked : Bool) (w : World) : Prop where
  serves : w.Serves
  listing : decide w.Unlisted = unlisted
  last : i + 1 = w.host.chat.messages.length
  message : w.host.chat.messages[i]? = some m
  notUser : m.isUser = false
  block : (Block.parse? m.activeText).isSome
  covered : (w.session w.host.chat.id).covers i m.activeText = marked

/-- A run that processes nothing and leaves the last message as it is, with or without the mark. -/
structure Leaves (unlisted : Bool) (i : Nat) (m : Message) (marked : Bool) (run : Except HostError Outcome × World) :
    Prop where
  unprocessed : ∀ k report, run.1 ≠ .ok (.processed k report)
  holding : Holding unlisted i m marked run.2

namespace Holding

variable {unlisted marked : Bool} {i : Nat} {m : Message} {w : World}

theorem of_eq (h : Holding unlisted i m marked w) {w' : World} {b : Bool} (hr : w'.host.refused = w.host.refused)
    (hk : w'.host.Kept) (hm : w'.host.chat.messages = w.host.chat.messages)
    (hc : (w'.session w'.host.chat.id).covers i m.activeText = b) : Holding unlisted i m b w' where
  serves := ⟨by rw [hr]; exact h.serves.refused, hk⟩
  listing := by rw [← h.listing]; exact decide_eq_decide.mpr (by rw [World.unlisted_iff, World.unlisted_iff, hr])
  last := by rw [hm, h.last]
  message := by rw [hm, h.message]
  notUser := h.notUser
  block := h.block
  covered := hc

theorem set_session (h : Holding unlisted i m marked w) {s : Session} {b : Bool} (hs : s.covers i m.activeText = b) :
    Holding unlisted i m b (w.withSession w.host.chat.id s) := by
  refine h.of_eq rfl h.serves.kept rfl ?_
  have hsession : (w.withSession w.host.chat.id s).session w.host.chat.id = s := World.session_withSession _ _ _
  rw [← hs]
  exact congrArg (Session.covers · i m.activeText) hsession

theorem target (h : Holding unlisted i m marked w) (j : Nat) : w.host.chat.target (some j) = some (min j i) := by
  have hlast := h.last
  have hne : w.host.chat.messages ≠ [] := List.length_pos_iff.mp (by omega)
  rw [Transcript.target_some hne, ← hlast, Nat.add_sub_cancel]

theorem covers_mark (h : Holding unlisted i m marked w) (j : Nat) (start : Option Nat) :
    Session.covers ⟨w.host.chat.mark (some j), start⟩ i m.activeText = decide (i ≤ j) := by
  have htarget := h.target j
  by_cases hj : i ≤ j
  · obtain ⟨s, hs⟩ := Option.isSome_iff_exists.mp h.block
    rw [Nat.min_eq_right hj] at htarget
    rw [Transcript.mark_eq htarget h.message h.notUser hs]
    simp [Session.covers, hj]
  · -- a search from an earlier message on may mark that message, but not the last one
    rw [Nat.min_eq_left (by omega)] at htarget
    have hindex : w.host.chat.mark (some j) ≠ some (.of i m.activeText) := by
      intro hmark
      have heq : i = j := Transcript.index_of_mark htarget hmark
      omega
    simp [Session.covers, hindex, hj]

theorem leaves_reload (h : Holding unlisted i m marked w) {p : SessionProgram Outcome} {j : Nat} {s : Session}
    (hp : p.exec (w.session w.host.chat.id) w = (reload (some j)).exec s w) :
    Leaves unlisted i m (if unlisted then s.covers i m.activeText else i ≤ j) ((withSession p).exec w) := by
  have hlength : CallKind.length ∉ w.host.refused := h.serves.answers (by decide)
  rw [exec_withSession_eq (h.serves.answers (by decide)), hp]
  by_cases hu : w.Unlisted
  · have hunlisted : unlisted = true := by rw [← h.listing]; simpa using hu
    rw [exec_reload_of_unlisted hlength hu (h.target j), if_pos hunlisted]
    exact ⟨by simp, h.set_session rfl⟩
  · have hunlisted : ¬unlisted = true := by rw [← h.listing]; simpa using hu
    obtain ⟨disk, hsettle, hs⟩ := exec_settle h.serves (some j) s
    have hloaded : Holding unlisted i m marked (w.saved (w.host.chat.loaded (some j)) disk) :=
      h.of_eq rfl hs.kept rfl h.covered
    rw [exec_reload hlength (Or.inr hu), hsettle, if_neg hunlisted]
    exact ⟨by simp, hloaded.set_session (h.covers_mark j _)⟩

theorem leaves_onGenerationEnded (h : Holding unlisted i m true w) (options : Options) :
    Leaves unlisted i m true ((onGenerationEnded options).exec w) := by
  rw [exec_onGenerationEnded_of_covers h.serves h.last h.message options rfl h.covered]
  exact ⟨by simp, h.set_session h.covered⟩

theorem leaves_onChatChanged (h : Holding unlisted i m marked w) :
    Leaves unlisted i m (!unlisted) (onChatChanged.exec w) := by
  by_cases hu : w.Unlisted
  · obtain rfl : unlisted = true := by rw [← h.listing]; simpa using hu
    have hempty : Session.empty.covers i m.activeText = false := by simp [Session.covers, Session.empty]
    rw [exec_onChatChanged_of_unlisted h.serves hu]
    exact ⟨by simp, h.set_session hempty⟩
  · obtain rfl : unlisted = false := by rw [← h.listing]; simpa using hu
    have hreload := h.leaves_reload (exec_bind_ok (f := fun _ => reload (some i)) (exec_set ⟨none, some i⟩ _ w))
    rw [exec_onChatChanged h.serves h.last h.message h.notUser hu]
    simpa using hreload

/-- An event leaves the last message as it is, unless it ends a generation while the mark is not on it. -/
theorem leaves_handler (h : Holding unlisted i m marked w) (options : Options) {e : Event}
    (he : (e.endsGeneration && !marked) = false) :
    Leaves unlisted i m (e.marks unlisted i marked) ((handler options e).exec w) := by
  cases e with
  | generationStarted =>
    rw [handler, exec_onGenerationStarted h.serves rfl]
    exact ⟨by simp, h.set_session h.covered⟩
  | generationEnded | generationStopped =>
    obtain rfl : marked = true := by simpa [Event.endsGeneration] using he
    exact h.leaves_onGenerationEnded options
  | messageSwiped j =>
    have hreload := h.leaves_reload (p := reload (some j)) rfl
    rw [h.covered] at hreload
    rw [handler, exec_onSwipe]
    exact hreload
  | messageEdited j =>
    have hreload := h.leaves_reload (p := reload (some i)) rfl
    rw [handler, exec_onEdit h.serves h.last h.message h.notUser]
    simpa [h.covered, Event.marks] using hreload
  | chatChanged => exact h.leaves_onChatChanged

theorem processed_handler (h : Holding unlisted i m false w) (options : Options) {e : Event}
    (he : e.endsGeneration = true) : ∃ report w', (handler options e).exec w = (.ok (.processed i report), w') := by
  have hended := exec_onGenerationEnded_of_not_covers h.serves h.last h.message options rfl h.notUser h.covered
  cases e with
  | generationEnded | generationStopped => exact hended
  | generationStarted | messageSwiped j | messageEdited j | chatChanged => exact absurd he Bool.false_ne_true

theorem at_clock (h : Holding unlisted i m marked w) (clock : Instant) :
    Holding unlisted i m marked { w with clock } :=
  h.of_eq rfl h.serves.kept rfl h.covered

/-- Events leave the last message as it is if no generation ends while the mark is not on it. -/
theorem handleAt_of_endsUnmarked_eq_false (h : Holding unlisted i m marked w) (options : Options)
    {events : List (Instant × Event)} (he : Event.endsUnmarked unlisted i marked (events.map (·.2)) = false) :
    (∀ outcome ∈ (handleAt options events w).1, ∀ k report, outcome ≠ .processed k report) ∧
      ∃ marked', Holding unlisted i m marked' (handleAt options events w).2 := by
  -- `Holding` goes from each world to the next one, with the mark as the event leaves it
  induction events generalizing marked w with
  | nil => exact ⟨by simp [handleAt], marked, h⟩
  | cons event events ih =>
    obtain ⟨clock, e⟩ := event
    obtain ⟨hfirst, hrest⟩ := Bool.or_eq_false_iff.mp he
    have hleaves := (h.at_clock clock).leaves_handler options hfirst
    obtain ⟨hunprocessed, hholding⟩ := ih hleaves.holding hrest
    rw [handleAt, run_handle]
    refine ⟨?_, hholding⟩
    intro outcome hm
    rcases List.mem_cons.mp hm with rfl | hm
    · exact fun k report hp => hleaves.unprocessed k report (Outcome.eq_ok_of_ofResult hp)
    · exact hunprocessed outcome hm

theorem handleAt_of_endsUnmarked (h : Holding unlisted i m marked w) (options : Options)
    {events : List (Instant × Event)} (he : Event.endsUnmarked unlisted i marked (events.map (·.2)) = true) :
    ∃ k report, Outcome.processed k report ∈ (handleAt options events w).1 := by
  induction events generalizing marked w with
  | nil => exact absurd he (by simp [Event.endsUnmarked])
  | cons event events ih =>
    obtain ⟨clock, e⟩ := event
    rw [handleAt, run_handle]
    cases hfirst : e.endsGeneration && !marked with
    | true =>
      obtain ⟨hends, hmarked⟩ := Bool.and_eq_true_iff.mp hfirst
      obtain rfl : marked = false := by simpa using hmarked
      obtain ⟨report, w', hrun⟩ := (h.at_clock clock).processed_handler options hends
      rw [hrun]
      exact ⟨i, report, List.mem_cons_self⟩
    | false =>
      have hleaves := (h.at_clock clock).leaves_handler options hfirst
      have hrest : Event.endsUnmarked unlisted i (e.marks unlisted i marked) (events.map (·.2)) = true := by
        rwa [List.map_cons, Event.endsUnmarked, hfirst, Bool.false_or] at he
      obtain ⟨k, report, hm⟩ := ih hleaves.holding hrest
      exact ⟨k, report, List.mem_cons_of_mem _ hm⟩

end Holding

theorem HasProcessed.holding {options : Options} {w w' : World} {i : Nat} {m : Message} {report : Report}
    (h : HasProcessed options w i report w' m) (hlast : i + 1 = w.host.chat.messages.length)
    (hb : ∀ m', w'.host.chat.messages[i]? = some m' → (Block.parse? m'.activeText).isSome) :
    Holding (decide w'.Unlisted) i (m.setText (turnAt options w i m).text) true w' := by
  have hmessage : w'.host.chat.messages[i]? = some (m.setText (turnAt options w i m).text) := by
    rw [h.chat]
    exact List.getElem?_set_self (Transcript.length_of_getElem? h.message)
  refine ⟨h.serves, rfl, ?_, hmessage, ?_, hb _ hmessage, ?_⟩
  · rw [h.chat, processedChat, List.length_set]
    exact hlast
  · rw [Message.isUser_setText, h.notUser]
  · obtain ⟨disk, start, rfl⟩ := h.world
    have hsession := World.session_withSession (w.saved (processedChat options w i m) disk) w.host.chat.id
      ⟨some (.of i (turnAt options w i m).text), start⟩
    rw [Message.activeText_setText]
    refine (congrArg (Session.covers · i _) hsession).trans ?_
    simp [Session.covers]

/-- Once the last message has been processed, it is not processed again and keeps its text whatever events
follow, exactly if no generation ends while the mark is not on it. -/
theorem handled_once_iff (options : Options) (w w' : World) (i : Nat) (report : Report)
    (h : (onGenerationEnded options).exec w = (.ok (.processed i report), w'))
    (hb : ∀ m, w'.host.chat.messages[i]? = some m → (Block.parse? m.activeText).isSome)
    (events : List (Instant × Event)) :
    ((∀ outcome ∈ (handleAt options events w').1, ∀ k report, outcome ≠ .processed k report) ∧
        (handleAt options events w').2.host.chat.messages[i]?.map (·.activeText) =
          w'.host.chat.messages[i]?.map (·.activeText)) ↔
      Event.endsUnmarked w'.Unlisted i true (events.map (·.2)) = false := by
  obtain ⟨hlast, m, hp⟩ := processed_of_onGenerationEnded h
  have hholding := hp.holding hlast hb
  constructor
  · rintro ⟨hnone, -⟩
    apply Bool.eq_false_iff.mpr
    intro he
    obtain ⟨k, report, hm⟩ := hholding.handleAt_of_endsUnmarked options he
    exact hnone _ hm k report rfl
  · intro he
    obtain ⟨hnone, marked, hend⟩ := hholding.handleAt_of_endsUnmarked_eq_false options he
    exact ⟨hnone, by rw [hend.message, hholding.message]⟩

theorem exists_settled_camp : ∃ report w',
    (onGenerationEnded campOptions).exec camp = (.ok (.processed 1 report), w') ∧
      HasProcessed campOptions camp 1 report w' chest ∧
      ∃ m, w'.host.chat.Settled 1 m ⟨[("gold", .num (.int 5))], [], []⟩ := by
  obtain ⟨report, w', hrun⟩ := exists_processed_camp
  obtain ⟨-, m, hp⟩ := processed_of_onGenerationEnded hrun
  obtain rfl : chest = m := Option.some.inj hp.message
  have hs := hp.settled narrative_camp (by rw [state_camp]; exact legible_camp.mono (by decide))
  rw [state_camp] at hs
  exact ⟨report, w', hrun, hp, _, hs⟩

theorem isSome_of_settled {c : Transcript} {i : Nat} {m : Message} {s : State} (h : c.Settled i m s) :
    ∀ m', c.messages[i]? = some m' → (Block.parse? m'.activeText).isSome := by
  intro m' hm
  rw [← Option.some.inj (h.message.symm.trans hm), h.block]
  rfl

theorem handled_once_camp : ∃ report w',
    (onGenerationEnded campOptions).exec camp = (.ok (.processed 1 report), w') ∧
      (∀ m, w'.host.chat.messages[1]? = some m → (Block.parse? m.activeText).isSome) ∧
      (∀ outcome ∈ (handleAt campOptions [(⟨60, 0⟩, .messageSwiped 1), (⟨61, 0⟩, .generationEnded)] w').1,
        ∀ k report, outcome ≠ .processed k report) ∧
      (handleAt campOptions [(⟨60, 0⟩, .messageSwiped 1), (⟨61, 0⟩, .generationEnded)]
        w').2.host.chat.messages[1]?.map (·.activeText) = w'.host.chat.messages[1]?.map (·.activeText) := by
  obtain ⟨report, w', hrun, -, m, hs⟩ := exists_settled_camp
  have h := handled_once_iff campOptions camp w' 1 report hrun (isSome_of_settled hs)
    [(⟨60, 0⟩, .messageSwiped 1), (⟨61, 0⟩, .generationEnded)]
  have hkept : Event.endsUnmarked w'.Unlisted 1 true [.messageSwiped 1, .generationEnded] = false := by
    cases decide w'.Unlisted <;> rfl
  exact ⟨report, w', hrun, isSome_of_settled hs, h.mpr hkept⟩

def swipeBack : List (Instant × Event) := [(⟨60, 0⟩, .messageSwiped 0), (⟨61, 0⟩, .generationEnded)]

theorem ofStored?_swipeBack : State.ofStored? (handleAt campOptions swipeBack
    ((onGenerationEnded campOptions).exec camp).2).2.host.chat.store = some .initial := by
  have h : (State.ofStored? (handleAt campOptions swipeBack
      ((onGenerationEnded campOptions).exec camp).2).2.host.chat.store).any
        (fun s => s.vars.isEmpty && s.schedule.isEmpty && s.summaries.isEmpty) = true := by decide +kernel
  obtain ⟨s, hs, hempty⟩ := (Option.any_eq_true _ _).mp h
  obtain ⟨⟨hv, hw⟩, hr⟩ := by simpa only [Bool.and_eq_true, List.isEmpty_iff] using hempty
  rw [hs, State.initial, ← hv, ← hw, ← hr]

/-- After a swipe of an earlier message the last one is processed again, and what it had set is lost. -/
theorem handled_again_camp : ∃ report w',
    (onGenerationEnded campOptions).exec camp = (.ok (.processed 1 report), w') ∧
      (∀ m, w'.host.chat.messages[1]? = some m → (Block.parse? m.activeText).isSome) ∧
      State.ofStored? w'.host.chat.store = some ⟨[("gold", .num (.int 5))], [], []⟩ ∧
      (∃ k report', Outcome.processed k report' ∈ (handleAt campOptions swipeBack w').1) ∧
      State.ofStored? (handleAt campOptions swipeBack w').2.host.chat.store = some .initial := by
  obtain ⟨report, w', hrun, hp, m, hs⟩ := exists_settled_camp
  have hlisted : ¬w'.Unlisted := by
    obtain ⟨disk, start, rfl⟩ := hp.world
    exact List.not_mem_nil
  have hends : Event.endsUnmarked (decide w'.Unlisted) 1 true (swipeBack.map (·.2)) = true := by
    rw [decide_eq_false hlisted]
    rfl
  have hstore : State.ofStored? w'.host.chat.store = some ⟨[("gold", .num (.int 5))], [], []⟩ := by
    apply ofStored?_of_settled hs _ (legible_camp.mono (by decide))
    rw [← state_camp]
    exact wellFormed_turnAt campOptions camp 1 chest
  have hafter := ofStored?_swipeBack
  rw [hrun] at hafter
  have hagain := (hp.holding rfl (isSome_of_settled hs)).handleAt_of_endsUnmarked campOptions hends
  exact ⟨report, w', hrun, isSome_of_settled hs, hstore, hagain, hafter⟩

end Controller

end Chronicle
