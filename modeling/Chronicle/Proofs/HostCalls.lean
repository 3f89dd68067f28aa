import Chronicle.Proofs.ProgramRuns

/-!
# Calls of the host

What the calls of a program answer. A call that reads leaves the world as it is, and fails only if the
host refuses it. A call that writes changes the chat and saves it.
-/

namespace Chronicle

namespace World

/-- What a reading call answers: an error if the host refuses it. -/
def reply (w : World) (k : CallKind) (r : Except HostError α) : Except HostError α :=
  if w.host.refused.contains k then .error k.refusal else r

def saved (w : World) (chat : Transcript) (disk : Disk) : World :=
  { w with host := { w.host with chat, disk } }

/-- The host can save the chat and refuses no call, unless it be the one for a range of messages. -/
structure Serves (w : World) : Prop where
  refused : ∀ k ∈ w.host.refused, k = .messages
  kept : w.host.Kept

def Unlisted (w : World) : Prop := CallKind.messages ∈ w.host.refused

instance (w : World) : Decidable w.Unlisted := inferInstanceAs (Decidable (_ ∈ _))

theorem unlisted_iff {w : World} : w.Unlisted ↔ CallKind.messages ∈ w.host.refused := Iff.rfl

theorem reply_of_notMem {w : World} {k : CallKind} (h : k ∉ w.host.refused) (r : Except HostError α) :
    w.reply k r = r := by
  simp [reply, h]

theorem Serves.answers {w : World} (h : w.Serves) {k : CallKind} (hk : k ≠ .messages) : k ∉ w.host.refused :=
  fun hm => hk (h.refused k hm)

theorem ok_of_reply {w : World} {k : CallKind} {r : Except HostError α} {a : α} (h : w.reply k r = .ok a) :
    r = .ok a ∧ k ∉ w.host.refused := by
  unfold reply at h
  split at h
  · exact absurd h (by simp)
  · next hk => exact ⟨h, by simpa using hk⟩

theorem serve_read (w : World) (k : CallKind) (f : Transcript → Except HostError α) :
    (w.serve k fun h => (f h.chat, h)) = (w.reply k (f w.host.chat), w) := by
  unfold serve Host.guarded reply
  by_cases h : w.host.refused.contains k = true
  · simp only [if_pos h]
  · simp only [if_neg h]

end World

namespace SessionProgram

variable {q : HostProgram α} {f : α → SessionProgram β} {w w' : World} {k : CallKind}

/-- A program that goes on after a reading call has got an answer and is in the same world. -/
theorem exists_of_exec_read {s s' : Session} {r : Except HostError α} {b : β} (hq : q.exec w = (w.reply k r, w))
    (h : exec (liftM q >>= f) s w = ((.ok b, s'), w')) :
    k ∉ w.host.refused ∧ ∃ a, r = .ok a ∧ exec (f a) s w = ((.ok b, s'), w') := by
  obtain ⟨a, w₁, hr, hf⟩ := exists_of_exec_lift h
  rw [hq] at hr
  obtain ⟨ha, rfl⟩ := Prod.mk.inj hr
  exact ⟨(World.ok_of_reply ha).2, a, (World.ok_of_reply ha).1, hf⟩

theorem exec_read {r : Except HostError α} {a : α} (hk : k ∉ w.host.refused) (hq : q.exec w = (w.reply k r, w))
    (hr : r = .ok a) (s : Session) : exec (liftM q >>= f) s w = exec (f a) s w := by
  rw [World.reply_of_notMem hk, hr] at hq
  exact exec_bind_lift_ok hq

theorem exec_read_of_refused {r : Except HostError α} (hk : k ∈ w.host.refused) (hq : q.exec w = (w.reply k r, w))
    (s : Session) : exec (liftM q >>= f) s w = ((.error k.refusal, s), w) := by
  rw [World.reply, if_pos (by simpa using hk)] at hq
  exact exec_bind_error (by rw [exec_lift, hq])

end SessionProgram

namespace Transcript

variable {c : Transcript} {i : Nat}

theorem update_of_none (f : Message → Except HostError α × Message) (hm : c.messages[i]? = none) :
    c.update i f = (.error (.messageOutOfRange i c.messages.length), c) := by
  rw [update, message, hm]
  rfl

theorem update_of_some {m : Message} (f : Message → Except HostError α × Message) (hm : c.messages[i]? = some m) :
    c.update i f = ((f m).1, { c with messages := c.messages.set i (f m).2 }) := by
  rw [update, message, hm]
  rfl

theorem set_eq_self_iff {m m' : Message} (hm : c.messages[i]? = some m) :
    ({ c with messages := c.messages.set i m' } : Transcript) = c ↔ m' = m := by
  obtain ⟨hi, hget⟩ := List.getElem?_eq_some_iff.mp hm
  constructor
  · intro h
    have hmessages : c.messages.set i m' = c.messages := congrArg Transcript.messages h
    rw [← hmessages, List.getElem?_set_self hi] at hm
    exact Option.some.inj hm
  · rintro rfl
    rw [← hget, List.set_getElem_self]

end Transcript

namespace HostProgram

variable {w w' : World}

theorem exec_conversationId (w : World) :
    conversationId.exec w = (w.reply .conversationId (.ok w.host.chat.id), w) :=
  w.serve_read .conversationId fun c => .ok c.id

theorem exec_length (w : World) : length.exec w = (w.reply .length (.ok w.host.chat.messages.length), w) :=
  w.serve_read .length fun c => .ok c.messages.length

theorem exec_lastIndex (w : World) :
    lastIndex.exec w = (w.reply .length (.ok (lastOf w.host.chat.messages.length)), w) := by
  rw [lastIndex, exec_bind, exec_length]
  unfold World.reply
  by_cases h : w.host.refused.contains .length = true
  · simp only [if_pos h]
  · simp only [if_neg h]
    rfl

theorem exec_message (i : Nat) (w : World) : (message i).exec w = (w.reply .message (w.host.chat.message i), w) :=
  w.serve_read .message fun c => c.message i

theorem exec_messages (start stop : Nat) (w : World) :
    (messages start stop).exec w = (w.reply .messages (.ok (w.host.chat.slice start stop)), w) :=
  w.serve_read .messages fun c => .ok (c.slice start stop)

theorem exec_readStore (w : World) : readStore.exec w = (w.reply .readStore (.ok w.host.chat.store), w) :=
  w.serve_read .readStore fun c => .ok c.store

theorem reads_lastIndex : SessionProgram.Reads (liftM lastIndex) :=
  SessionProgram.reads_lift fun w => by rw [exec_lastIndex]

theorem reads_length : SessionProgram.Reads (liftM length) := SessionProgram.reads_lift fun w => by rw [exec_length]

theorem reads_message (i : Nat) : SessionProgram.Reads (liftM (message i)) :=
  SessionProgram.reads_lift fun w => by rw [exec_message]

theorem reads_messages (start stop : Nat) : SessionProgram.Reads (liftM (messages start stop)) :=
  SessionProgram.reads_lift fun w => by rw [exec_messages]

theorem reads_readStore : SessionProgram.Reads (liftM readStore) :=
  SessionProgram.reads_lift fun w => by rw [exec_readStore]

theorem exec_withSession_eq {p : SessionProgram α} (hid : CallKind.conversationId ∉ w.host.refused) :
    (withSession p).exec w = ((p.exec (w.session w.host.chat.id) w).1.1,
      (p.exec (w.session w.host.chat.id) w).2.withSession w.host.chat.id
        (p.exec (w.session w.host.chat.id) w).1.2) := by
  apply exec_withSession
  rw [exec_conversationId, World.reply_of_notMem hid]

theorem exec_withSession_of_refused {p : SessionProgram α} (hid : CallKind.conversationId ∈ w.host.refused) :
    (withSession p).exec w = (.error CallKind.conversationId.refusal, w) := by
  rw [withSession, exec_bind, exec_conversationId, World.reply, if_pos (by simpa using hid)]

theorem exists_of_withSession {p : SessionProgram α} {a : α} (h : (withSession p).exec w = (.ok a, w')) :
    CallKind.conversationId ∉ w.host.refused ∧ ∃ s' w'',
      p.exec (w.session w.host.chat.id) w = ((.ok a, s'), w'') ∧ w' = w''.withSession w.host.chat.id s' := by
  by_cases hid : CallKind.conversationId ∈ w.host.refused
  · rw [exec_withSession_of_refused hid] at h
    exact absurd h (by simp)
  · rw [exec_withSession_eq hid] at h
    obtain ⟨ha, hw⟩ := Prod.mk.inj h
    exact ⟨hid, _, _, Prod.ext (Prod.ext ha rfl) rfl, hw.symm⟩

theorem update_of_serve {k : CallKind} {f : Transcript → Except HostError α × Transcript} {a : α}
    (h : w.serve k (Host.update · f) = (.ok a, w')) :
    k ∉ w.host.refused ∧ w.host.update f = (.ok a, w'.host) ∧ w' = { w with host := w'.host } := by
  unfold World.serve Host.guarded at h
  by_cases hr : w.host.refused.contains k = true
  · rw [if_pos hr] at h
    exact absurd h (by simp)
  · rw [if_neg hr] at h
    obtain ⟨hu, rfl⟩ := Prod.mk.inj h
    exact ⟨by simpa using hr, Prod.ext hu rfl, rfl⟩

theorem saved_of_update {k : CallKind} {f : Transcript → Except HostError α × Transcript} {a : α}
    (h : w.serve k (Host.update · f) = (.ok a, w')) :
    k ∉ w.host.refused ∧ ∃ chat disk, f w.host.chat = (.ok a, chat) ∧ w' = w.saved chat disk ∧ w'.host.Kept := by
  obtain ⟨hr, hu, hw⟩ := update_of_serve h
  obtain ⟨chat, disk, hf, hhost, hk⟩ := Host.ok_of_update hu
  exact ⟨hr, chat, disk, hf, by rw [hw, hhost]; rfl, hk⟩

theorem update_of_serves (h : w.Serves) {k : CallKind} (hk : k ≠ .messages)
    {f : Transcript → Except HostError α × Transcript} {a : α} {chat : Transcript}
    (hf : f w.host.chat = (.ok a, chat)) :
    ∃ disk, w.serve k (Host.update · f) = (.ok a, w.saved chat disk) ∧ (w.saved chat disk).Serves := by
  obtain ⟨disk, hu, hkept⟩ := Host.update_of_kept h.kept hf
  have hr : ¬w.host.refused.contains k = true := by simpa using h.answers hk
  refine ⟨disk, ?_, h.refused, hkept⟩
  simp only [World.serve, Host.guarded, if_neg hr, hu]
  rfl

theorem writeStore_ok {v : Json} (h : (writeStore v).exec w = (.ok (), w')) :
    CallKind.writeStore ∉ w.host.refused ∧
      ∃ disk, w' = w.saved { w.host.chat with stored := v } disk ∧ w'.host.Kept := by
  obtain ⟨hr, chat, disk, hf, rfl, hk⟩ := saved_of_update h
  exact ⟨hr, disk, by rw [(Prod.mk.inj hf).2], hk⟩

theorem message_eq_ok_iff {c : Transcript} {i : Nat} {m : Message} :
    c.message i = .ok m ↔ c.messages[i]? = some m := by
  unfold Transcript.message
  cases c.messages[i]? <;> simp

theorem setMessage_ok {i : Nat} {text : String} (h : (setMessage i text).exec w = (.ok (), w')) :
    CallKind.setMessage ∉ w.host.refused ∧ ∃ m disk, w.host.chat.messages[i]? = some m ∧
      w' = w.saved { w.host.chat with messages := w.host.chat.messages.set i (m.setText text) } disk ∧
      w'.host.Kept := by
  obtain ⟨hr, chat, disk, hf, rfl, hk⟩ := saved_of_update h
  cases hm : w.host.chat.messages[i]? with
  | none =>
    rw [Transcript.update_of_none _ hm] at hf
    exact absurd hf (by simp)
  | some m =>
    rw [Transcript.update_of_some _ hm] at hf
    exact ⟨hr, m, disk, rfl, by rw [← (Prod.mk.inj hf).2], hk⟩

theorem chat_serve_update (k : CallKind) (f : Transcript → Except HostError α × Transcript) (w : World) :
    (w.serve k (Host.update · f)).2.host.chat = w.host.chat ∨
      (w.serve k (Host.update · f)).2.host.chat = (f w.host.chat).2 := by
  rw [World.serve, Host.guarded]
  by_cases hr : w.host.refused.contains k = true
  · rw [if_pos hr]
    exact Or.inl rfl
  · rw [if_neg hr]
    exact Or.inr (Host.chat_update f w.host)

/-- Writing the store changes nothing else in the chat, whether it succeeds or not. -/
theorem chat_writeStore (v : Json) (w : World) : ((writeStore v).exec w).2.host.chat = w.host.chat ∨
    ((writeStore v).exec w).2.host.chat = { w.host.chat with stored := v } :=
  chat_serve_update .writeStore _ w

theorem chat_setMessage (i : Nat) (text : String) (w : World) :
    ((setMessage i text).exec w).2.host.chat = w.host.chat ∨ ∃ m, w.host.chat.messages[i]? = some m ∧
      ((setMessage i text).exec w).2.host.chat =
        { w.host.chat with messages := w.host.chat.messages.set i (m.setText text) } := by
  rcases chat_serve_update .setMessage (fun c => c.update i fun m => (.ok (), m.setText text)) w with h | h
  · exact Or.inl h
  · cases hm : w.host.chat.messages[i]? with
    | none => exact Or.inl (h.trans (by rw [Transcript.update_of_none _ hm]))
    | some m => exact Or.inr ⟨m, rfl, h.trans (by rw [Transcript.update_of_some _ hm])⟩

/-- What a call may do to the chat: only a call that writes does anything to it. -/
theorem chat_answer (c : Call) (w : World) : (w.answer c).2.host.chat = w.host.chat ∨
    (∃ v, c = .writeStore v ∧ (w.answer c).2.host.chat = { w.host.chat with stored := v }) ∨
    ∃ i text m, c = .setMessage i text ∧ w.host.chat.messages[i]? = some m ∧ (w.answer c).2.host.chat =
      { w.host.chat with messages := w.host.chat.messages.set i (m.setText text) } := by
  cases c with
  | setMessage i text =>
    refine (chat_setMessage i text w).imp_right fun ⟨m, hm, h⟩ => Or.inr ⟨i, text, m, rfl, hm, h⟩
  | writeStore v => exact (chat_writeStore v w).imp_right fun h => Or.inl ⟨v, rfl, h⟩
  | conversationId => exact Or.inl (congrArg (·.2.host.chat) (exec_conversationId w))
  | length => exact Or.inl (congrArg (·.2.host.chat) (exec_length w))
  | message i => exact Or.inl (congrArg (·.2.host.chat) (exec_message i w))
  | messages start stop => exact Or.inl (congrArg (·.2.host.chat) (exec_messages start stop w))
  | readStore => exact Or.inl (congrArg (·.2.host.chat) (exec_readStore w))
  | now | lock | unlock | pause => exact Or.inl rfl

theorem id_answer (c : Call) (w : World) : (w.answer c).2.host.chat.id = w.host.chat.id := by
  rcases chat_answer c w with h | ⟨v, -, h⟩ | ⟨i, text, m, -, -, h⟩ <;> rw [h]

theorem exec_writeStore (h : w.Serves) (v : Json) :
    ∃ disk, (writeStore v).exec w = (.ok (), w.saved { w.host.chat with stored := v } disk) ∧
      (w.saved { w.host.chat with stored := v } disk).Serves :=
  update_of_serves h (by decide) rfl

theorem exec_setMessage (h : w.Serves) {i : Nat} {m : Message} (hm : w.host.chat.messages[i]? = some m)
    (text : String) :
    ∃ disk, (setMessage i text).exec w =
        (.ok (), w.saved { w.host.chat with messages := w.host.chat.messages.set i (m.setText text) } disk) ∧
      (w.saved { w.host.chat with messages := w.host.chat.messages.set i (m.setText text) } disk).Serves :=
  update_of_serves h (by decide) (Transcript.update_of_some _ hm)

end HostProgram

end Chronicle
