import Chronicle.Proofs.HandlerRuns

/-!
# Loading

Loading puts the newest state at or before a message into the store of the chat and does nothing else to the
chat. The message counts as handled afterwards exactly if the state is its own.
-/

namespace Chronicle

theorem findState_concat {history : List Message} {m : Message} (hm : m.isUser = false) {s : State}
    (hs : Block.parse? m.activeText = some s) : findState (history ++ [m]) = some (history.length, s) := by
  rw [findState, List.zipIdx_append, List.reverse_append]
  simp [hm, hs]

namespace Transcript

theorem length_of_getElem? {c : Transcript} {i : Nat} {m : Message} (h : c.messages[i]? = some m) :
    i < c.messages.length := (List.getElem?_eq_some_iff.mp h).1

theorem slice_succ {c : Transcript} {i : Nat} {m : Message} (h : c.messages[i]? = some m) :
    c.slice 0 (i + 1) = c.messages.take i ++ [m] := by
  rw [slice, List.drop_zero, List.take_add_one, h]
  rfl

theorem length_take_of_getElem? {c : Transcript} {i : Nat} {m : Message} (h : c.messages[i]? = some m) :
    (c.messages.take i).length = i := by
  rw [List.length_take, Nat.min_eq_left (Nat.le_of_lt (length_of_getElem? h))]

theorem find?_zipIdx_slice {c : Transcript} {i : Nat} {m : Message} (hlast : i + 1 = c.messages.length)
    (hm : c.messages[i]? = some m) (hu : m.isUser = false) :
    ((c.slice 0 c.messages.length).zipIdx.reverse.find? fun (m, _) => !m.isUser) = some (m, i) := by
  rw [← hlast, slice_succ hm, List.zipIdx_append, List.reverse_append, length_take_of_getElem? hm]
  simp [hu]

/-- The message from which on a state is searched. -/
def target (c : Transcript) (start : Option Nat) : Option Nat :=
  (lastOf c.messages.length).bind fun last => start.map (min · last)

def history (c : Transcript) (start : Option Nat) : List Message :=
  match c.target start with
  | some t => c.slice 0 (t + 1)
  | none => []

/-- The chat with the newest state loaded into its store. -/
def loaded (c : Transcript) (start : Option Nat) : Transcript :=
  { c with stored := ((findState (c.history start)).elim State.initial (·.2)).toStored }

/-- The mark of the message that loading counts as handled. -/
def mark (c : Transcript) (start : Option Nat) : Option Watermark :=
  (c.target start).bind fun t =>
    if (findState (c.history start)).map (·.1) = some t then
      ((c.history start)[t]?).map fun m => Watermark.of t m.activeText
    else none

variable {c : Transcript}

theorem target_some (h : c.messages ≠ []) (j : Nat) : c.target (some j) = some (min j (c.messages.length - 1)) := by
  have hn : ¬c.messages.length = 0 := by rwa [List.length_eq_zero_iff]
  rw [target, lastOf, if_neg hn]
  rfl

theorem history_eq {start : Option Nat} {t : Nat} {m : Message} (ht : c.target start = some t)
    (hm : c.messages[t]? = some m) : c.history start = c.messages.take t ++ [m] := by
  rw [history, ht]
  exact slice_succ hm

theorem findState_history {start : Option Nat} {t : Nat} {m : Message} (ht : c.target start = some t)
    (hm : c.messages[t]? = some m) (hu : m.isUser = false) {s : State}
    (hs : Block.parse? m.activeText = some s) : findState (c.history start) = some (t, s) := by
  rw [history_eq ht hm, findState_concat hu hs, length_take_of_getElem? hm]

theorem mark_eq {start : Option Nat} {t : Nat} {m : Message} (ht : c.target start = some t)
    (hm : c.messages[t]? = some m) (hu : m.isUser = false) {s : State}
    (hs : Block.parse? m.activeText = some s) : c.mark start = some (.of t m.activeText) := by
  have hlen := length_take_of_getElem? hm
  have hlast : (c.messages.take t ++ [m])[t]? = some m := by
    rw [List.getElem?_append_right (by omega), hlen]
    simp
  rw [mark, findState_history ht hm hu hs, ht, history_eq ht hm]
  simp [hlast]

theorem index_of_mark {start : Option Nat} {t : Nat} (ht : c.target start = some t) {w : Watermark}
    (h : c.mark start = some w) : w.index = t := by
  rw [mark, ht, Option.bind_some] at h
  split at h
  · obtain ⟨m, -, rfl⟩ := Option.map_eq_some_iff.mp h
    rfl
  · exact absurd h (by simp)

/-- The chat holds a state in its store and in a message. -/
structure Settled (c : Transcript) (i : Nat) (m : Message) (s : State) : Prop where
  message : c.messages[i]? = some m
  notUser : m.isUser = false
  block : Block.parse? m.activeText = some s
  stored : c.stored = s.toStored

theorem target_of_getElem? {i : Nat} {m : Message} (h : c.messages[i]? = some m) : c.target (some i) = some i := by
  have hlt := length_of_getElem? h
  rw [target_some (List.length_pos_iff.mp (by omega)) i, Nat.min_eq_left (by omega)]

theorem Settled.loaded_eq {i : Nat} {m : Message} {s : State} (h : c.Settled i m s) : c.loaded (some i) = c := by
  rw [loaded, findState_history (target_of_getElem? h.message) h.message h.notUser h.block]
  simp only [Option.elim_some, ← h.stored]

theorem Settled.mark_eq {i : Nat} {m : Message} {s : State} (h : c.Settled i m s) :
    c.mark (some i) = some (.of i m.activeText) :=
  Transcript.mark_eq (target_of_getElem? h.message) h.message h.notUser h.block

end Transcript

namespace Controller
open SessionProgram HostProgram

/-- The end of loading, after the messages have been read. -/
def settle (c : Transcript) (start : Option Nat) : SessionProgram Outcome := do
  writeStore ((findState (c.history start)).elim State.initial (·.2)).toStored
  modify fun session => { session with watermark := c.mark start }
  return .reloaded (c.target start) ((findState (c.history start)).map (·.1))

variable {s : Session} {w : World}

theorem exec_reload {start : Option Nat} (hlength : CallKind.length ∉ w.host.refused)
    (hlisted : w.host.chat.target start = none ∨ CallKind.messages ∉ w.host.refused) :
    (reload start).exec s w = (settle w.host.chat start).exec s w := by
  unfold reload
  rw [exec_read hlength (exec_length w) rfl]
  cases ht : w.host.chat.target start with
  | none =>
    have htarget : (lastOf w.host.chat.messages.length).bind (fun last => start.map (min · last)) = none := ht
    have hhistory : w.host.chat.history start = [] := by rw [Transcript.history, ht]
    simp only [htarget]
    rw [exec_bind_ok (exec_pure [] s w), settle, ht, hhistory, Transcript.mark, ht]
    rfl
  | some t =>
    have htarget : (lastOf w.host.chat.messages.length).bind (fun last => start.map (min · last)) = some t := ht
    have hhistory : w.host.chat.history start = w.host.chat.slice 0 (t + 1) := by rw [Transcript.history, ht]
    have hm : CallKind.messages ∉ w.host.refused := hlisted.resolve_left (by simp [ht])
    simp only [htarget]
    rw [exec_read hm (exec_messages 0 (t + 1) w) rfl, settle, ht, hhistory, Transcript.mark, ht, hhistory]

theorem exec_reload_of_unlisted {start : Option Nat} {t : Nat} (hlength : CallKind.length ∉ w.host.refused)
    (hu : w.Unlisted) (ht : w.host.chat.target start = some t) :
    (reload start).exec s w = ((.error CallKind.messages.refusal, s), w) := by
  have htarget : (lastOf w.host.chat.messages.length).bind (fun last => start.map (min · last)) = some t := ht
  unfold reload
  rw [exec_read hlength (exec_length w) rfl]
  simp only [htarget]
  exact exec_read_of_refused hu (exec_messages 0 (t + 1) w) s

theorem chat_settle (c : Transcript) (start : Option Nat) (s : Session) (w : World) (hc : w.host.chat = c) :
    ((settle c start).exec s w).2.host.chat = c ∨ ((settle c start).exec s w).2.host.chat = c.loaded start := by
  have hwrite := chat_writeStore ((findState (c.history start)).elim State.initial (·.2)).toStored w
  rw [settle, SessionProgram.exec_bind, SessionProgram.exec_lift]
  rw [hc] at hwrite
  split
  · next heq =>
    obtain ⟨⟨-, rfl⟩, rfl⟩ := by simpa only [Prod.mk.injEq] using heq
    exact hwrite
  · next heq =>
    obtain ⟨⟨-, rfl⟩, rfl⟩ := by simpa only [Prod.mk.injEq] using heq
    exact hwrite

/-- Loading changes nothing in the chat, or it puts the newest state into the store. -/
theorem chat_reload (start : Option Nat) (s : Session) (w : World) :
    ((reload start).exec s w).2.host.chat = w.host.chat ∨
      ((reload start).exec s w).2.host.chat = w.host.chat.loaded start := by
  by_cases hlength : CallKind.length ∈ w.host.refused
  · refine Or.inl ?_
    unfold reload
    rw [exec_read_of_refused hlength (exec_length w)]
  · cases ht : w.host.chat.target start with
    | none =>
      rw [exec_reload hlength (Or.inl ht)]
      exact chat_settle _ _ _ _ rfl
    | some t =>
      by_cases hu : w.Unlisted
      · rw [exec_reload_of_unlisted hlength hu ht]
        exact Or.inl rfl
      · rw [exec_reload hlength (Or.inr hu)]
        exact chat_settle _ _ _ _ rfl

theorem exec_settle (h : w.Serves) (start : Option Nat) (s : Session) :
    ∃ disk, (settle w.host.chat start).exec s w =
        ((.ok (.reloaded (w.host.chat.target start) ((findState (w.host.chat.history start)).map (·.1))),
          { s with watermark := w.host.chat.mark start }), w.saved (w.host.chat.loaded start) disk) ∧
      (w.saved (w.host.chat.loaded start) disk).Serves := by
  obtain ⟨disk, hwrite, hs⟩ :=
    exec_writeStore h ((findState (w.host.chat.history start)).elim State.initial (·.2)).toStored
  refine ⟨disk, ?_, hs⟩
  rw [settle, exec_bind_lift_ok hwrite, exec_bind_ok (exec_modify _ _ _), exec_pure]
  rfl

theorem exec_withSession_reload (h : w.Serves) (hl : ¬w.Unlisted) (start : Option Nat) :
    ∃ disk, (withSession (reload start)).exec w =
        (.ok (.reloaded (w.host.chat.target start) ((findState (w.host.chat.history start)).map (·.1))),
          (w.saved (w.host.chat.loaded start) disk).withSession w.host.chat.id
            { w.session w.host.chat.id with watermark := w.host.chat.mark start }) ∧
      (w.saved (w.host.chat.loaded start) disk).Serves := by
  obtain ⟨disk, hsettle, hs⟩ := exec_settle h start (w.session w.host.chat.id)
  refine ⟨disk, ?_, hs⟩
  rw [exec_withSession_eq (h.answers (by decide)), exec_reload (h.answers (by decide)) (Or.inr hl), hsettle]

theorem chat_reloadFrom (i : Nat) (w : World) : ((reloadFrom i).exec w).2.host.chat = w.host.chat ∨
    ((reloadFrom i).exec w).2.host.chat = w.host.chat.loaded (some i) := by
  by_cases hid : CallKind.conversationId ∈ w.host.refused
  · exact Or.inl (by rw [reloadFrom, exec_withSession_of_refused hid])
  · rw [reloadFrom, exec_withSession_eq hid]
    exact chat_reload _ _ _

theorem exec_onGenerationStarted (h : w.Serves) (hs : w.session w.host.chat.id = s) :
    onGenerationStarted.exec w = (.ok (.marked (lastOf w.host.chat.messages.length)),
      w.withSession w.host.chat.id { s with generationStart := lastOf w.host.chat.messages.length }) := by
  rw [onGenerationStarted, exec_withSession_eq (h.answers (by decide)), hs,
    exec_read (h.answers (by decide)) (exec_lastIndex w) rfl, exec_bind_ok (exec_modify _ _ _), exec_pure]

theorem exec_onSwipe (options : Options) (j : Nat) (w : World) :
    (onSwipe options j).exec w = (withSession (reload (some j))).exec w := by
  unfold onSwipe
  split
  · rw [HostProgram.exec_bind, HostProgram.exec_lift]
    rfl
  · rfl

/-- A change of the chat empties the session at first, even if the host refuses to list the messages then. -/
theorem exec_onChatChanged_of_unlisted (h : w.Serves) (hl : w.Unlisted) : onChatChanged.exec w =
    (.error CallKind.messages.refusal, w.withSession w.host.chat.id .empty) := by
  have hid : CallKind.conversationId ∉ w.host.refused := h.answers (by decide)
  have hlength : CallKind.length ∉ w.host.refused := h.answers (by decide)
  rw [onChatChanged, exec_withSession_eq hid, exec_bind_ok (exec_set _ _ _), exec_read hlength (exec_length w) rfl,
    exec_read_of_refused hl (exec_messages _ _ w)]

section LastMessage

variable (h : w.Serves) {i : Nat} {m : Message} (hlast : i + 1 = w.host.chat.messages.length)
  (hm : w.host.chat.messages[i]? = some m) (hu : m.isUser = false)
include h hlast hm hu

theorem exec_onEdit : onEdit.exec w = (withSession (reload (some i))).exec w := by
  have hid : CallKind.conversationId ∉ w.host.refused := h.answers (by decide)
  have hlength : CallKind.length ∉ w.host.refused := h.answers (by decide)
  have hread : CallKind.message ∉ w.host.refused := h.answers (by decide)
  rw [onEdit, exec_withSession_eq hid, exec_withSession_eq hid, exec_read hlength (exec_lastIndex w) rfl,
    lastOf_eq hlast]
  simp only
  rw [exec_read hread (exec_message i w) (message_eq_ok_iff.mpr hm), if_neg (by simp [hu])]

theorem exec_onChatChanged (hl : ¬w.Unlisted) : onChatChanged.exec w =
    (withSession do set (⟨none, some i⟩ : Session); reload (some i)).exec w := by
  have hid : CallKind.conversationId ∉ w.host.refused := h.answers (by decide)
  have hlength : CallKind.length ∉ w.host.refused := h.answers (by decide)
  rw [onChatChanged, exec_withSession_eq hid, exec_withSession_eq hid, exec_bind_ok (exec_set _ _ _),
    exec_bind_ok (exec_set _ _ _), exec_read hlength (exec_length w) rfl, exec_read hl (exec_messages _ _ w) rfl,
    exec_bind_ok (exec_modify _ _ _), lastOf_eq hlast, Transcript.find?_zipIdx_slice hlast hm hu]
  rfl

end LastMessage

end Controller

end Chronicle
