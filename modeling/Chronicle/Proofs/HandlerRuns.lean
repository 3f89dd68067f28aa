import Chronicle.Controller.Handlers
import Chronicle.Proofs.HostCalls

/-!
# Messages that have been processed

What processing a message has done to the chat and to the session of the controller, read off a run that has
succeeded, on whatever host.
-/

namespace Chronicle

namespace Message

theorem activeText_setText (text : String) (m : Message) : (m.setText text).activeText = text := by
  unfold activeText setText activeIndex
  by_cases h : m.swipeId.getD 0 < m.swipes.length
  · simp [List.getElem?_set_self h]
  · have hlength : (m.swipes.set (m.swipeId.getD 0) text).length ≤ m.swipeId.getD 0 := by simpa using h
    simp [List.getElem?_eq_none hlength]

theorem isUser_setText (text : String) (m : Message) : (m.setText text).isUser = m.isUser := rfl

end Message

theorem lastOf_eq {i length : Nat} (h : i + 1 = length) : lastOf length = some i := by
  rw [lastOf, if_neg (by omega), ← h, Nat.add_sub_cancel]

namespace Controller
open SessionProgram HostProgram

/-- The turn that processing a message takes in a world. -/
def turnAt (options : Options) (w : World) (index : Nat) (m : Message) : Turn :=
  Turn.take options ⟨(lastOf w.host.chat.messages.length).getD index, w.clock⟩
    ((State.ofStored? w.host.chat.store).getD .initial) m.activeText

/-- The chat after a message has been processed: the state is in the store and in the message. -/
def processedChat (options : Options) (w : World) (index : Nat) (m : Message) : Transcript :=
  { w.host.chat with
    stored := (turnAt options w index m).state.toStored
    messages := w.host.chat.messages.set index (m.setText (turnAt options w index m).text) }

variable {options : Options} {s s' : Session} {w w' : World}

theorem process_ok {index j : Nat} {m : Message} {report : Report}
    (hm : w.host.chat.messages[index]? = some m)
    (h : (process options index m).exec s w = ((.ok (.processed j report), s'), w')) :
    j = index ∧ m.isUser = false ∧ report = (turnAt options w index m).report ∧
      (∃ disk, w' = w.saved (processedChat options w index m) disk) ∧ w'.host.Kept ∧
      s' = { s with watermark := some (.of index (turnAt options w index m).text) } ∧
      ∀ k ∈ [CallKind.readStore, .length, .writeStore, .setMessage], k ∉ w.host.refused := by
  unfold process at h
  by_cases hu : m.isUser = true
  · rw [if_pos hu] at h
    exact absurd h (by simp [exec_pure])
  · rw [if_neg hu] at h
    obtain ⟨hread, store, hstore, hlast⟩ := exists_of_exec_read (exec_readStore w) h
    obtain rfl := Except.ok.inj hstore
    obtain ⟨hlength, last, hl, hnow⟩ := exists_of_exec_read (exec_lastIndex w) hlast
    obtain rfl := Except.ok.inj hl
    rw [exec_bind_ok (exec_now s w)] at hnow
    obtain ⟨_, _, hwrite, hset⟩ := exists_of_exec_lift hnow
    obtain ⟨hwritten, disk, rfl, -⟩ := writeStore_ok hwrite
    obtain ⟨_, _, hmessage, hmark⟩ := exists_of_exec_lift hset
    obtain ⟨hput, m', disk', hm', rfl, hk⟩ := setMessage_ok hmessage
    obtain rfl : m = m' := Option.some.inj (hm.symm.trans hm')
    rw [exec_bind_ok (exec_modify _ _ _), exec_pure] at hmark
    simp only [Prod.mk.injEq, Except.ok.injEq, Outcome.processed.injEq] at hmark
    obtain ⟨⟨⟨rfl, rfl⟩, rfl⟩, rfl⟩ := hmark
    refine ⟨rfl, by simpa using hu, rfl, ⟨disk', rfl⟩, hk, rfl, ?_⟩
    simp only [List.mem_cons, List.not_mem_nil, or_false, forall_eq_or_imp, forall_eq]
    exact ⟨hread, hlength, hwritten, hput⟩

/-- What has happened to the world when a message has been processed. -/
structure HasProcessed (options : Options) (w : World) (index : Nat) (report : Report) (w' : World) (m : Message) :
    Prop where
  message : w.host.chat.messages[index]? = some m
  notUser : m.isUser = false
  report : report = (turnAt options w index m).report
  world : ∃ disk start, w' = (w.saved (processedChat options w index m) disk).withSession w.host.chat.id
    ⟨some (.of index (turnAt options w index m).text), start⟩
  serves : w'.Serves

theorem HasProcessed.chat {index : Nat} {report : Report} {m : Message} (h : HasProcessed options w index report w' m) :
    w'.host.chat = processedChat options w index m := by
  obtain ⟨disk, start, rfl⟩ := h.world
  rfl

theorem processed_of_process {index j : Nat} {m : Message} {report : Report}
    (hm : w.host.chat.messages[index]? = some m) (hid : CallKind.conversationId ∉ w.host.refused)
    (hread : CallKind.message ∉ w.host.refused)
    (h : (process options index m).exec s w = ((.ok (.processed j report), s'), w')) :
    j = index ∧ HasProcessed options w j report (w'.withSession w.host.chat.id s') m := by
  obtain ⟨rfl, hu, hreport, ⟨disk, rfl⟩, hk, rfl, hcalls⟩ := process_ok hm h
  refine ⟨rfl, hm, hu, hreport, ⟨disk, s.generationStart, rfl⟩, ?_, hk⟩
  intro k hk
  cases k with
  | conversationId => exact absurd hk hid
  | message => exact absurd hk hread
  | messages => rfl
  | length | setMessage | readStore | writeStore => exact absurd hk (hcalls _ (by simp))

theorem processed_of_onGenerationEnded {index : Nat} {report : Report}
    (h : (onGenerationEnded options).exec w = (.ok (.processed index report), w')) :
    index + 1 = w.host.chat.messages.length ∧ ∃ m, HasProcessed options w index report w' m := by
  obtain ⟨hid, s', w'', hrun, rfl⟩ := exists_of_withSession h
  rw [exec_bind_ok (exec_get _ _), exec_bind_ok (exec_modify _ _ _)] at hrun
  obtain ⟨-, last?, hl, hrun⟩ := exists_of_exec_read (exec_lastIndex w) hrun
  obtain rfl := Except.ok.inj hl
  by_cases hn : w.host.chat.messages.length = 0
  · rw [lastOf, if_pos hn] at hrun
    exact absurd hrun (by simp [exec_pure])
  · rw [lastOf, if_neg hn] at hrun
    obtain ⟨hread, m, hm, hrun⟩ := exists_of_exec_read (exec_message _ w) hrun
    rw [message_eq_ok_iff] at hm
    rw [exec_bind_ok (exec_get _ _)] at hrun
    split at hrun
    · split at hrun <;> exact absurd hrun (by simp [exec_pure])
    · obtain ⟨rfl, hp⟩ := processed_of_process hm hid hread hrun
      exact ⟨by omega, m, hp⟩

theorem processed_of_processMessage {i index : Nat} {report : Report}
    (h : (processMessage options i).exec w = (.ok (.processed index report), w')) :
    index = i ∧ ∃ m, HasProcessed options w index report w' m := by
  obtain ⟨hid, s', w'', hrun, rfl⟩ := exists_of_withSession h
  obtain ⟨m?, s₁, w₁, hm, hrun⟩ := exists_of_exec_bind hrun
  rw [exec_tryCatch, exec_map, SessionProgram.exec_lift, exec_message] at hm
  cases hr : w.reply .message (w.host.chat.message i) with
  | error e =>
    rw [hr] at hm
    simp only [Except.map] at hm
    split at hm
    · rw [exec_pure] at hm
      simp only [Prod.mk.injEq, Except.ok.injEq] at hm
      obtain ⟨⟨rfl, rfl⟩, rfl⟩ := hm
      exact absurd hrun (by simp [exec_pure])
    · have herror := (Prod.mk.inj (Prod.mk.inj hm).1).1
      exact absurd herror (by simp)
  | ok m =>
    rw [hr] at hm
    simp only [Except.map, Prod.mk.injEq, Except.ok.injEq] at hm
    obtain ⟨⟨rfl, rfl⟩, rfl⟩ := hm
    obtain ⟨hm, hread⟩ := World.ok_of_reply hr
    obtain ⟨rfl, hp⟩ := processed_of_process (message_eq_ok_iff.mp hm) hid hread hrun
    exact ⟨rfl, m, hp⟩

/-- The message at a place, if there is one. -/
def messageAt? (i : Nat) : SessionProgram (Option Message) := do
  try some <$> message i catch
    | .messageOutOfRange .. => pure none
    | e => throw e

theorem processMessage_eq (options : Options) (i : Nat) : processMessage options i = withSession (messageAt? i >>= fun
    | some m => process options i m
    | none => return .skipped (.noMessage i)) := rfl

theorem reads_messageAt? (i : Nat) : (messageAt? i).Reads := by
  have hthrow (e : HostError) : Reads (throw e : SessionProgram (Option Message)) := fun _ _ => ⟨rfl, rfl⟩
  refine ((reads_message i).map some).tryCatch fun e => ?_
  split
  · exact reads_pure _
  · exact hthrow _

/-- The end of processing, after a turn has been taken. -/
def conclude (index : Nat) (turn : Turn) : SessionProgram Outcome := do
  writeStore turn.state.toStored
  setMessage index turn.text
  modify fun session => { session with watermark := some (.of index turn.text) }
  return .processed index turn.report

theorem exec_process (h : w.Serves) {m : Message} (hu : m.isUser = false) (options : Options) (index : Nat)
    (s : Session) : (process options index m).exec s w = (conclude index (turnAt options w index m)).exec s w := by
  have hread : CallKind.readStore ∉ w.host.refused := h.answers (by decide)
  have hlength : CallKind.length ∉ w.host.refused := h.answers (by decide)
  rw [process, if_neg (by simp [hu]), exec_read hread (exec_readStore w) rfl,
    exec_read hlength (exec_lastIndex w) rfl, exec_bind_ok (exec_now s w)]
  rfl

theorem exec_conclude (h : w.Serves) {index : Nat} {m : Message} (hm : w.host.chat.messages[index]? = some m)
    (turn : Turn) (s : Session) :
    ∃ s' w', (conclude index turn).exec s w = ((.ok (.processed index turn.report), s'), w') := by
  obtain ⟨disk, hwrite, hs⟩ := exec_writeStore h turn.state.toStored
  obtain ⟨disk', hput, -⟩ := exec_setMessage hs hm turn.text
  rw [conclude, exec_bind_lift_ok hwrite, exec_bind_lift_ok hput, exec_bind_ok (exec_modify _ _ _), exec_pure]
  exact ⟨_, _, rfl⟩

def skipReason (s : Session) (index : Nat) : HandlerSkip :=
  (s.generationStart.filter (index ≤ ·)).elim (.alreadyHandled index) .noNewMessage

/-- What is done with the last message when a generation has ended. -/
def handleLast (options : Options) (s : Session) (index : Nat) (m : Message) : SessionProgram Outcome :=
  if s.covers index m.activeText then return .skipped (skipReason s index) else process options index m

section Ended

variable (h : w.Serves) {index : Nat} {m : Message} (hlast : index + 1 = w.host.chat.messages.length)
  (hm : w.host.chat.messages[index]? = some m) (options : Options) (hs : w.session w.host.chat.id = s)
include h hlast hm hs

theorem exec_onGenerationEnded : (onGenerationEnded options).exec w =
    (((handleLast options s index m).exec { s with generationStart := none } w).1.1,
      ((handleLast options s index m).exec { s with generationStart := none } w).2.withSession w.host.chat.id
        ((handleLast options s index m).exec { s with generationStart := none } w).1.2) := by
  have hid : CallKind.conversationId ∉ w.host.refused := h.answers (by decide)
  have hlength : CallKind.length ∉ w.host.refused := h.answers (by decide)
  have hread : CallKind.message ∉ w.host.refused := h.answers (by decide)
  rw [onGenerationEnded, exec_withSession_eq hid, hs, exec_bind_ok (exec_get _ _), exec_bind_ok (exec_modify _ _ _),
    exec_read hlength (exec_lastIndex w) rfl, lastOf_eq hlast]
  simp only
  rw [exec_read hread (exec_message index w) (message_eq_ok_iff.mpr hm), exec_bind_ok (exec_get _ _)]
  have hcovers : Session.covers { s with generationStart := none } index m.activeText =
      s.covers index m.activeText := rfl
  rw [hcovers]
  unfold handleLast skipReason
  cases s.generationStart.filter (index ≤ ·) <;> rfl

theorem exec_onGenerationEnded_of_covers (hc : s.covers index m.activeText = true) :
    (onGenerationEnded options).exec w = (.ok (.skipped (skipReason s index)),
      w.withSession w.host.chat.id { s with generationStart := none }) := by
  rw [exec_onGenerationEnded h hlast hm options hs, handleLast, if_pos hc, exec_pure]

theorem exec_onGenerationEnded_of_not_covers (hu : m.isUser = false) (hc : s.covers index m.activeText = false) :
    ∃ report w', (onGenerationEnded options).exec w = (.ok (.processed index report), w') := by
  obtain ⟨s', w', hrun⟩ := exec_conclude h hm (turnAt options w index m) { s with generationStart := none }
  rw [exec_onGenerationEnded h hlast hm options hs, handleLast, if_neg (by simp [hc]), exec_process h hu, hrun]
  exact ⟨_, _, rfl⟩

end Ended

/-- What is in the store and in the last message when a generation has ended: what was there if the message was
handled before, and otherwise what its turn makes. -/
def heldAt (options : Options) (w : World) (index : Nat) (m : Message) : Json × String :=
  if (w.session w.host.chat.id).covers index m.activeText then (w.host.chat.stored, m.activeText)
  else ((turnAt options w index m).state.toStored, (turnAt options w index m).text)

theorem heldAt_of_not_covers {index : Nat} {m : Message}
    (hc : (w.session w.host.chat.id).covers index m.activeText = false) :
    heldAt options w index m = ((turnAt options w index m).state.toStored, (turnAt options w index m).text) := by
  rw [heldAt, if_neg (by simp [hc])]

/-- The chat of a world holds this in its store and in a message. -/
structure Holds (w : World) (index : Nat) (held : Json × String) : Prop where
  stored : w.host.chat.stored = held.1
  message : w.host.chat.messages[index]?.map (·.activeText) = some held.2

theorem holds_onGenerationEnded (h : w.Serves) {index : Nat} {m : Message}
    (hlast : index + 1 = w.host.chat.messages.length) (hm : w.host.chat.messages[index]? = some m)
    (hu : m.isUser = false) (options : Options) : ∃ outcome w', (onGenerationEnded options).exec w = (.ok outcome, w') ∧
      (∀ e, outcome ≠ .failed e) ∧ Holds w' index (heldAt options w index m) := by
  unfold heldAt
  cases hc : (w.session w.host.chat.id).covers index m.activeText with
  | true =>
    exact ⟨_, _, exec_onGenerationEnded_of_covers h hlast hm options rfl hc, by simp, rfl,
      congrArg (Option.map (·.activeText)) hm⟩
  | false =>
    obtain ⟨report, w', hrun⟩ := exec_onGenerationEnded_of_not_covers h hlast hm options rfl hu hc
    obtain ⟨-, m', hp⟩ := processed_of_onGenerationEnded hrun
    obtain rfl : m = m' := Option.some.inj (hm.symm.trans hp.message)
    refine ⟨_, _, hrun, by simp, ?_, ?_⟩
    · rw [hp.chat]
      rfl
    · rw [hp.chat, processedChat, List.getElem?_set_self (by omega)]
      exact congrArg some (Message.activeText_setText _ m)

end Controller

end Chronicle
