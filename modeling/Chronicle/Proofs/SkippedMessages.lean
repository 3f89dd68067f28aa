import Chronicle.Proofs.Watermarks

/-!
# Messages that are skipped

The session of a chat marks a message only when its text carries a block: because the block was just written, or
because the newest state was found there. So a generated message without a block is never taken for one that
was handled, whatever has happened to the chat meanwhile, as long as no two texts have one digest.
-/

namespace Chronicle

theorem of_findState {history : List Message} {i : Nat} {s : State} (h : findState history = some (i, s)) :
    ∃ m, history[i]? = some m ∧ Block.parse? m.activeText = some s := by
  obtain ⟨⟨m, j⟩, hmem, hm⟩ := List.exists_of_findSome?_eq_some h
  rw [List.mem_reverse, List.mem_zipIdx_iff_getElem?] at hmem
  by_cases hu : m.isUser = true
  · exact absurd hm (by simp [hu])
  · simp only [if_neg hu, Option.map_eq_some_iff, Prod.mk.injEq] at hm
    obtain ⟨_, hs, rfl, rfl⟩ := hm
    exact ⟨m, hmem, hs⟩

/-- The mark of the text of a message with a block, which is one of the given texts. -/
def Watermark.Blocked (texts : List String) (k : Watermark) : Prop :=
  ∃ i t, k = .of i t ∧ t ∈ texts ∧ Block.HasBlock t

theorem Watermark.Blocked.mono {texts texts' : List String} {k : Watermark} (h : k.Blocked texts)
    (hs : texts ⊆ texts') : k.Blocked texts' := by
  obtain ⟨i, t, hk, ht, hb⟩ := h
  exact ⟨i, t, hk, hs ht, hb⟩

namespace Transcript

def texts (c : Transcript) : List String := c.messages.map (·.activeText)

theorem blocked_mark {c : Transcript} {start : Option Nat} {k : Watermark} (h : c.mark start = some k) :
    k.Blocked c.texts := by
  unfold mark at h
  obtain ⟨t, ht, h⟩ := Option.bind_eq_some_iff.mp h
  split at h
  · next hfound =>
    obtain ⟨m, hm, rfl⟩ := Option.map_eq_some_iff.mp h
    obtain ⟨⟨_, s⟩, hs, rfl⟩ := Option.map_eq_some_iff.mp hfound
    obtain ⟨m', hm', hparse⟩ := of_findState hs
    obtain rfl : m = m' := Option.some.inj (hm.symm.trans hm')
    refine ⟨_, m.activeText, rfl, ?_, Block.hasBlock_of_parse? hparse⟩
    simp only [history, ht, slice, List.drop_zero] at hm
    exact List.mem_map_of_mem (List.mem_of_mem_take (List.mem_of_getElem? hm))
  · exact absurd h (by simp)

end Transcript

namespace SessionProgram

variable {p : SessionProgram α} {f : α → SessionProgram β}

/-- The program leaves the session and all stored ones as they are. -/
def Quiet (p : SessionProgram α) : Prop := ∀ s w, (p.exec s w).1.2 = s ∧ (p.exec s w).2.sessions = w.sessions

theorem quiet_lift {q : HostProgram α} (hq : ∀ w, (q.exec w).2.sessions = w.sessions) : Quiet (liftM q) := by
  intro s w
  rw [exec_lift]
  exact ⟨rfl, hq w⟩

/-- The program stores no session, and every mark that it sets is of a text with a block, among the texts that
`texts` gives for the world after it. -/
structure MarksWithin (texts : World → List String) (p : SessionProgram α) : Prop where
  sessions : ∀ s w, (p.exec s w).2.sessions = w.sessions
  mark : ∀ s w k, (p.exec s w).1.2.watermark = some k → s.watermark = some k ∨ k.Blocked (texts (p.exec s w).2)

theorem marksWithin_pure (texts : World → List String) (a : α) : MarksWithin texts (pure a) :=
  ⟨fun _ _ => rfl, fun _ _ _ hk => Or.inl hk⟩

theorem Quiet.bind_marksWithin {texts : World → List String} (hp : p.Quiet) (hf : ∀ a, MarksWithin texts (f a)) :
    MarksWithin texts (p >>= f) := by
  constructor
  · intro s w
    rcases exec_bind_cases p f s w with ⟨e, h⟩ | ⟨a, -, h⟩
    · rw [h, (hp s w).2]
    · rw [h, (hf a).sessions, (hp s w).2]
  · intro s w k hk
    rcases exec_bind_cases p f s w with ⟨e, h⟩ | ⟨a, -, h⟩
    · rw [h, (hp s w).1] at hk
      exact Or.inl hk
    · rw [h, (hp s w).1] at hk ⊢
      exact (hf a).mark s _ k hk

/-- Every mark that the program sets is of a text with a block, which the chat holds before or after it. -/
structure MarksBlocks (p : SessionProgram α) : Prop where
  sessions : ∀ s w, (p.exec s w).2.sessions = w.sessions
  mark : ∀ s w k, (p.exec s w).1.2.watermark = some k →
    s.watermark = some k ∨ k.Blocked (w.host.chat.texts ++ (p.exec s w).2.host.chat.texts)

theorem MarksWithin.marksBlocks (h : MarksWithin (·.host.chat.texts) p) : p.MarksBlocks where
  sessions := h.sessions
  mark s w k hk := (h.mark s w k hk).imp_right (·.mono (List.subset_append_right _ _))

theorem marksBlocks_pure (a : α) : MarksBlocks (pure a) := (marksWithin_pure _ a).marksBlocks

theorem Reads.bind_marksBlocks (hp : p.Reads) (hf : ∀ a, (f a).MarksBlocks) : MarksBlocks (p >>= f) := by
  constructor
  · intro s w
    obtain ⟨hs, hw⟩ := hp s w
    rcases exec_bind_cases p f s w with ⟨e, h⟩ | ⟨a, -, h⟩
    · rw [h, hw]
    · rw [h, (hf a).sessions, hw]
  · intro s w k hk
    obtain ⟨hs, hw⟩ := hp s w
    rcases exec_bind_cases p f s w with ⟨e, h⟩ | ⟨a, -, h⟩
    · rw [h, hs] at hk
      exact Or.inl hk
    · rw [h, hs, hw] at hk ⊢
      exact (hf a).mark s w k hk

/-- A first step that changes the session only, and sets no mark. -/
theorem marksBlocks_bind_of_exec {a : α} {g : Session → Session} (hp : ∀ s w, p.exec s w = ((.ok a, g s), w))
    (hg : ∀ s k, (g s).watermark = some k → s.watermark = some k) (hf : (f a).MarksBlocks) :
    MarksBlocks (p >>= f) where
  sessions s w := by rw [exec_bind_ok (hp s w), hf.sessions]
  mark s w k hk := by
    rw [exec_bind_ok (hp s w)] at hk ⊢
    exact (hf.mark (g s) w k hk).imp_left (hg s k)

end SessionProgram

namespace Controller
open SessionProgram HostProgram

variable {options : Options} {s : Session} {w : World}

theorem mem_texts_of_setMessage {w' : World} {i : Nat} {text : String}
    (h : (setMessage i text).exec w = (.ok (), w')) : text ∈ w'.host.chat.texts := by
  obtain ⟨-, m, disk, hm, rfl, -⟩ := setMessage_ok h
  have hset : (w.host.chat.messages.set i (m.setText text))[i]? = some (m.setText text) :=
    List.getElem?_set_self (Transcript.length_of_getElem? hm)
  have hmem := List.mem_map_of_mem (f := Message.activeText) (List.mem_of_getElem? hset)
  rwa [Message.activeText_setText] at hmem

theorem quiet_lastIndex : Quiet (liftM lastIndex) := quiet_lift fun w => by rw [exec_lastIndex]

theorem quiet_writeStore (v : Json) : Quiet (liftM (writeStore v)) := quiet_lift fun _ => rfl

/-- The end of processing marks the text that was written. -/
theorem marksWithin_conclude (i : Nat) (turn : Turn) (ht : Block.HasBlock turn.text) :
    MarksWithin (·.host.chat.texts) (conclude i turn) := by
  refine (quiet_writeStore _).bind_marksWithin fun _ => ?_
  constructor
  · intro s w
    rcases exec_bind_cases (liftM (setMessage i turn.text)) _ s w with ⟨e, h⟩ | ⟨a, -, h⟩
    · rw [h, SessionProgram.exec_lift]
      rfl
    · rw [h, SessionProgram.exec_lift]
      rfl
  · intro s w k hk
    rcases exec_bind_cases (liftM (setMessage i turn.text)) _ s w with ⟨e, h⟩ | ⟨a, ha, h⟩
    · rw [h, SessionProgram.exec_lift] at hk
      exact Or.inl hk
    · rw [SessionProgram.exec_lift] at ha
      rw [h, SessionProgram.exec_lift, exec_bind_ok (exec_modify _ _ _), exec_pure] at hk ⊢
      exact Or.inr ⟨i, turn.text, (Option.some.inj hk).symm, mem_texts_of_setMessage (Prod.ext ha rfl), ht⟩

theorem marksBlocks_process (options : Options) (i : Nat) (m : Message) : (process options i m).MarksBlocks := by
  apply MarksWithin.marksBlocks
  unfold process
  by_cases hu : m.isUser = true
  · rw [if_pos hu]
    exact marksWithin_pure _ _
  · rw [if_neg hu]
    refine Quiet.bind_marksWithin (quiet_lift fun _ => rfl) fun _ => ?_
    refine quiet_lastIndex.bind_marksWithin fun _ => ?_
    refine Quiet.bind_marksWithin (fun _ _ => ⟨rfl, rfl⟩) fun _ => ?_
    exact marksWithin_conclude i (Turn.take _ _ _ _) (Block.hasBlock_embed _ _)

theorem marksWithin_settle (c : Transcript) (start : Option Nat) :
    MarksWithin (fun _ => c.texts) (settle c start) := by
  refine (quiet_writeStore _).bind_marksWithin fun _ => ⟨fun _ _ => rfl, ?_⟩
  intro s w k hk
  rw [exec_bind_ok (exec_modify _ _ _), exec_pure] at hk
  exact Or.inr (Transcript.blocked_mark hk)

theorem marksBlocks_reload (start : Option Nat) : (reload start).MarksBlocks := by
  have hcases (s : Session) (w : World) : (∃ e, (reload start).exec s w = ((.error e, s), w)) ∨
      (reload start).exec s w = (settle w.host.chat start).exec s w := by
    by_cases hlength : CallKind.length ∈ w.host.refused
    · exact Or.inl ⟨_, exec_read_of_refused hlength (exec_length w) s⟩
    · by_cases hlisted : w.host.chat.target start = none ∨ CallKind.messages ∉ w.host.refused
      · exact Or.inr (exec_reload hlength hlisted)
      · obtain ⟨htarget, hmessages⟩ := not_or.mp hlisted
        obtain ⟨t, ht⟩ := Option.ne_none_iff_exists'.mp htarget
        exact Or.inl ⟨_, exec_reload_of_unlisted hlength (Decidable.not_not.mp hmessages) ht⟩
  constructor
  · intro s w
    rcases hcases s w with ⟨e, h⟩ | h
    · rw [h]
    · rw [h, (marksWithin_settle _ _).sessions]
  · intro s w k hk
    rcases hcases s w with ⟨e, h⟩ | h
    · rw [h] at hk
      exact Or.inl hk
    · rw [h] at hk
      exact ((marksWithin_settle _ _).mark s w k hk).imp_right (·.mono (List.subset_append_left _ _))

/-- Every mark in a stored session was there before, or is of a text with a block that the chat holds before or
after the program. -/
def StoresBlocks (q : HostProgram α) : Prop :=
  ∀ w, ∀ entry ∈ (q.exec w).2.sessions, ∀ k, entry.2.watermark = some k →
    (∃ entry ∈ w.sessions, entry.2.watermark = some k) ∨
      k.Blocked (w.host.chat.texts ++ (q.exec w).2.host.chat.texts)

theorem exists_mem_of_session {id : String} {k : Watermark} (h : (w.session id).watermark = some k) :
    ∃ entry ∈ w.sessions, entry.2.watermark = some k := by
  unfold World.session at h
  cases hl : w.sessions.lookup id with
  | none =>
    rw [hl] at h
    exact absurd h (by simp [Session.empty])
  | some s =>
    rw [hl] at h
    obtain ⟨a, b, hs, -⟩ := List.lookup_eq_some_iff.mp hl
    exact ⟨(id, s), by simp [hs], h⟩

theorem storesBlocks_withSession {p : SessionProgram α} (hp : p.MarksBlocks) : StoresBlocks (withSession p) := by
  intro w entry hentry k hk
  by_cases hid : CallKind.conversationId ∈ w.host.refused
  · rw [exec_withSession_of_refused hid] at hentry
    exact Or.inl ⟨entry, hentry, hk⟩
  · rw [exec_withSession_eq hid] at hentry ⊢
    rcases List.mem_cons.mp hentry with rfl | hentry
    · exact (hp.mark _ _ _ hk).imp_left exists_mem_of_session
    · rw [hp.sessions] at hentry
      exact Or.inl ⟨entry, (List.mem_filter.mp hentry).1, hk⟩

theorem storesBlocks_onGenerationEnded (options : Options) : StoresBlocks (onGenerationEnded options) := by
  apply storesBlocks_withSession
  refine reads_get.bind_marksBlocks fun _ => ?_
  refine marksBlocks_bind_of_exec (exec_modify _) (fun _ _ hk => hk) ?_
  refine reads_lastIndex.bind_marksBlocks fun last? => ?_
  cases last? with
  | none => exact marksBlocks_pure _
  | some last =>
    refine (reads_message last).bind_marksBlocks fun m => reads_get.bind_marksBlocks fun s => ?_
    split
    · split <;> exact marksBlocks_pure _
    · exact marksBlocks_process options last m

theorem storesBlocks_onChatChanged : StoresBlocks onChatChanged := by
  apply storesBlocks_withSession
  refine marksBlocks_bind_of_exec (exec_set .empty) (fun _ _ hk => nomatch hk) ?_
  refine reads_length.bind_marksBlocks fun count => (reads_messages 0 count).bind_marksBlocks fun _ => ?_
  exact marksBlocks_bind_of_exec (exec_modify _) (fun _ _ hk => hk) (marksBlocks_reload _)

theorem storesBlocks_onEdit : StoresBlocks onEdit := by
  refine storesBlocks_withSession (reads_lastIndex.bind_marksBlocks fun last? => ?_)
  cases last? with
  | none => exact marksBlocks_pure _
  | some last =>
    refine (reads_message last).bind_marksBlocks fun m => ?_
    split
    · exact marksBlocks_pure _
    · exact marksBlocks_reload _

theorem storesBlocks_handler (options : Options) (e : Event) : StoresBlocks (handler options e) := by
  cases e with
  | generationStarted =>
    refine storesBlocks_withSession (reads_lastIndex.bind_marksBlocks fun _ => ?_)
    exact marksBlocks_bind_of_exec (exec_modify _) (fun _ _ hk => hk) (marksBlocks_pure _)
  | generationEnded | generationStopped => exact storesBlocks_onGenerationEnded options
  | messageSwiped i =>
    intro w
    have hreload := storesBlocks_withSession (marksBlocks_reload (some i)) w
    rwa [← exec_onSwipe options i w] at hreload
  | messageEdited i => exact storesBlocks_onEdit
  | chatChanged => exact storesBlocks_onChatChanged

theorem storesBlocks_processMessage (options : Options) (i : Nat) : StoresBlocks (processMessage options i) := by
  rw [processMessage_eq]
  refine storesBlocks_withSession ((reads_messageAt? i).bind_marksBlocks fun m? => ?_)
  cases m? with
  | none => exact marksBlocks_pure _
  | some m => exact marksBlocks_process options i m

theorem exec_latestState (w : World) : ∃ r, latestState.exec w = (r, w) := by
  rw [latestState, HostProgram.exec_bind, exec_length]
  cases w.reply .length (.ok w.host.chat.messages.length) with
  | error e => exact ⟨_, rfl⟩
  | ok n =>
    simp only
    rw [HostProgram.exec_bind, exec_messages]
    cases w.reply .messages (.ok (w.host.chat.slice 0 n)) <;> exact ⟨_, rfl⟩

/-- Something that happens to a chat: an event, an operation of the controller, or a change from outside. -/
inductive Move where
  | event (e : Event)
  | processMessage (index : Nat)
  | reloadFrom (index : Nat)
  | latestState
  /-- Whatever is done to the host by others, as adding, editing and swiping messages, taking the last one away,
  replacing the store, opening another chat, or refusing calls. -/
  | change (f : Host → Host)
  | tick (now : Instant)

namespace Move

def make (options : Options) : Move → World → World
  | event e, w => ((handle options e).run w).2
  | processMessage index, w => ((Controller.processMessage options index).exec w).2
  | reloadFrom index, w => ((Controller.reloadFrom index).exec w).2
  | latestState, w => (Controller.latestState.exec w).2
  | change f, w => { w with host := f w.host }
  | tick now, w => { w with clock := now }

/-- The worlds through which moves lead, the first one included. -/
def worlds (options : Options) : List Move → World → List World
  | [], w => [w]
  | move :: moves, w => w :: worlds options moves (move.make options w)

def after (options : Options) (moves : List Move) (w : World) : World :=
  moves.foldl (fun w move => move.make options w) w

/-- The active texts of all messages that a run sees. -/
def texts (options : Options) (moves : List Move) (w : World) : List String :=
  (worlds options moves w).flatMap (·.host.chat.texts)

end Move

/-- All marks in the sessions are of texts with blocks, among the given ones. -/
def Blocked (texts : List String) (w : World) : Prop :=
  ∀ entry ∈ w.sessions, ∀ k, entry.2.watermark = some k → k.Blocked texts

variable {texts : List String}

theorem StoresBlocks.blocked {q : HostProgram α} (hq : StoresBlocks q) (h : Blocked texts w)
    (hw : w.host.chat.texts ⊆ texts) (hw' : (q.exec w).2.host.chat.texts ⊆ texts) : Blocked texts (q.exec w).2 := by
  intro entry hentry k hk
  rcases hq w entry hentry k hk with ⟨entry', hentry', hk'⟩ | hb
  · exact h entry' hentry' k hk'
  · exact hb.mono (List.append_subset.mpr ⟨hw, hw'⟩)

/-- A step of a run keeps all marks on texts with blocks. -/
theorem blocked_make (move : Move) (h : Blocked texts w) (hw : w.host.chat.texts ⊆ texts)
    (hw' : (move.make options w).host.chat.texts ⊆ texts) : Blocked texts (move.make options w) := by
  cases move with
  | event e =>
    rw [Move.make, run_handle] at hw' ⊢
    exact (storesBlocks_handler options e).blocked h hw hw'
  | processMessage index => exact (storesBlocks_processMessage options index).blocked h hw hw'
  | reloadFrom index => exact (storesBlocks_withSession (marksBlocks_reload (some index))).blocked h hw hw'
  | latestState =>
    obtain ⟨r, hr⟩ := exec_latestState w
    rwa [Move.make, hr]
  | change f => exact h
  | tick now => exact h

theorem texts_subset (options : Options) (moves : List Move) (w : World) :
    w.host.chat.texts ⊆ Move.texts options moves w := by
  cases moves <;> exact List.subset_append_left _ _

theorem blocked_after (options : Options) (moves : List Move) (h : Blocked texts w)
    (ht : Move.texts options moves w ⊆ texts) :
    Blocked texts (Move.after options moves w) ∧ (Move.after options moves w).host.chat.texts ⊆ texts := by
  induction moves generalizing w with
  | nil => exact ⟨h, List.Subset.trans (texts_subset options [] w) ht⟩
  | cons move moves ih =>
    obtain ⟨hw, hrest⟩ := List.append_subset.mp ht
    exact ih (blocked_make move h hw (List.Subset.trans (texts_subset options moves _) hrest)) hrest

theorem processed_of_process_ok {i : Nat} {m : Message} (hu : m.isUser = false) {outcome : Outcome} {s' : Session}
    {w' : World} (h : (process options i m).exec s w = ((.ok outcome, s'), w')) :
    ∃ report, outcome = .processed i report := by
  rw [process, if_neg (by simp [hu])] at h
  obtain ⟨_, _, -, h⟩ := exists_of_exec_lift h
  obtain ⟨_, _, -, h⟩ := exists_of_exec_lift h
  rw [exec_bind_ok (exec_now _ _)] at h
  obtain ⟨_, _, -, h⟩ := exists_of_exec_lift h
  obtain ⟨_, _, -, h⟩ := exists_of_exec_lift h
  rw [exec_bind_ok (exec_modify _ _ _), exec_pure] at h
  exact ⟨_, (Except.ok.inj (Prod.mk.inj (Prod.mk.inj h).1).1).symm⟩

/-- A last message that is not the user's is skipped only if the session marks it. -/
theorem covers_of_skipped {reason : HandlerSkip} {w' : World} {m : Message}
    (h : (onGenerationEnded options).exec w = (.ok (.skipped reason), w'))
    (hm : w.host.chat.messages.getLast? = some m) (hu : m.isUser = false) :
    (w.session w.host.chat.id).watermark = some (.of (w.host.chat.messages.length - 1) m.activeText) := by
  obtain ⟨-, s', w'', hrun, -⟩ := exists_of_withSession h
  rw [exec_bind_ok (exec_get _ _), exec_bind_ok (exec_modify _ _ _)] at hrun
  obtain ⟨-, last?, hl, hrun⟩ := exists_of_exec_read (exec_lastIndex w) hrun
  obtain rfl := Except.ok.inj hl
  have hlength : w.host.chat.messages.length ≠ 0 := by
    rw [List.getLast?_eq_getElem?] at hm
    exact Nat.pos_iff_ne_zero.mp (Nat.zero_lt_of_lt (Transcript.length_of_getElem? hm))
  rw [lastOf, if_neg hlength] at hrun
  obtain ⟨-, m', hm', hrun⟩ := exists_of_exec_read (exec_message _ w) hrun
  rw [message_eq_ok_iff, ← List.getLast?_eq_getElem?, hm, Option.some.injEq] at hm'
  subst hm'
  rw [exec_bind_ok (exec_get _ _)] at hrun
  split at hrun
  · next hcovers => simpa [Session.covers] using hcovers
  · obtain ⟨report, hprocessed⟩ := processed_of_process_ok hu hrun
    exact absurd hprocessed (by simp)

/-- No generated message without a block is skipped. Whatever has happened to a chat since its controller started,
if the end of a generation is skipped and the last message is not the user's, then this message carries a block,
unless two texts of the run have one digest. -/
theorem hasBlock_of_skipped (options : Options) (host : Host) (clock : Instant) (moves : List Move)
    (hdigest : ∀ t ∈ Move.texts options moves (freshWorld host clock),
      ∀ t' ∈ Move.texts options moves (freshWorld host clock),
        Sha256.digest t.toUTF8 = Sha256.digest t'.toUTF8 → t = t')
    (reason : HandlerSkip) (w' : World)
    (h : (onGenerationEnded options).exec (Move.after options moves (freshWorld host clock)) =
      (.ok (.skipped reason), w'))
    (m : Message) (hm : (Move.after options moves (freshWorld host clock)).host.chat.messages.getLast? = some m)
    (hu : m.isUser = false) : Block.HasBlock m.activeText := by
  have hstart : Blocked (Move.texts options moves (freshWorld host clock)) (freshWorld host clock) :=
    fun _ hentry => absurd hentry List.not_mem_nil
  obtain ⟨hblocked, htexts⟩ := blocked_after options moves hstart (List.Subset.refl _)
  obtain ⟨entry, hentry, hk⟩ := exists_mem_of_session (covers_of_skipped h hm hu)
  obtain ⟨i, t, heq, ht, hb⟩ := hblocked entry hentry _ hk
  have hlast : m.activeText ∈ (Move.after options moves (freshWorld host clock)).host.chat.texts :=
    List.mem_map_of_mem (List.mem_of_getLast? hm)
  rw [hdigest _ (htexts hlast) t ht (Watermark.mk.inj heq).2]
  exact hb

/-- A chat with one message, which carries the state that is in the store. -/
def inn (m : Message) (s : State) : Host := .inMemory ⟨"inn", [m], s.toStored⟩

/-- A chat is opened, the user asks something and takes it back, and a minute goes by. -/
def asked : List Move :=
  [.event .chatChanged, .change fun h => (h.push .user "Where are we?").2, .change fun h => h.pop.2, .tick ⟨60, 0⟩]

section Inn

variable {m : Message} {held : State} (hu : m.isUser = false) (hb : Block.parse? m.activeText = some held)
  (options : Options)
include hu hb

theorem after_asked : ∃ disk, (freshWorld { inn m held with disk } ⟨60, 0⟩).Serves ∧
    Move.texts options asked (freshWorld (inn m held) ⟨0, 0⟩) =
      [m.activeText, m.activeText, m.activeText, "Where are we?", m.activeText, m.activeText] ∧
    Move.after options asked (freshWorld (inn m held) ⟨0, 0⟩) =
      (freshWorld { inn m held with disk } ⟨60, 0⟩).withSession "inn" ⟨some (.of 0 m.activeText), some 0⟩ := by
  have hs : (inn m held).chat.Settled 0 m held := ⟨rfl, hu, hb, rfl⟩
  obtain ⟨outcome, disk, hload, hserves⟩ :=
    exec_onChatChanged_of_settled (inn m held) hs rfl (fun _ h => nomatch h) rfl ⟨0, 0⟩
  have hfirst : Move.make options (.event .chatChanged) (freshWorld (inn m held) ⟨0, 0⟩) =
      (freshWorld { inn m held with disk } ⟨0, 0⟩).withSession "inn" ⟨some (.of 0 m.activeText), some 0⟩ := by
    rw [Move.make, run_handle, handler, hload]
    rfl
  refine ⟨disk, ⟨hserves.refused, hserves.kept⟩, ?_, ?_⟩
  · rw [asked, Move.texts, Move.worlds, hfirst]
    rfl
  · rw [asked, Move.after, List.foldl_cons, hfirst]
    rfl

theorem skipped_asked : ∃ reason w',
    (onGenerationEnded options).exec (Move.after options asked (freshWorld (inn m held) ⟨0, 0⟩)) =
        (.ok (.skipped reason), w') ∧
      (Move.after options asked (freshWorld (inn m held) ⟨0, 0⟩)).host.chat.messages.getLast? = some m := by
  obtain ⟨disk, hserves, -, hafter⟩ := after_asked hu hb options
  let v : World := (freshWorld { inn m held with disk } ⟨60, 0⟩).withSession "inn" ⟨some (.of 0 m.activeText), some 0⟩
  have hsession : v.session "inn" = ⟨some (.of 0 m.activeText), some 0⟩ := World.session_withSession _ _ _
  have hv : v.Serves := ⟨hserves.refused, hserves.kept⟩
  have hc : Session.covers ⟨some (.of 0 m.activeText), some 0⟩ 0 m.activeText = true := by simp [Session.covers]
  rw [hafter]
  exact ⟨_, _, exec_onGenerationEnded_of_covers hv rfl rfl options hsession hc, rfl⟩

theorem eq_of_digest_asked (hd : Sha256.digest m.activeText.toUTF8 ≠ Sha256.digest "Where are we?".toUTF8) :
    ∀ t ∈ Move.texts options asked (freshWorld (inn m held) ⟨0, 0⟩),
      ∀ t' ∈ Move.texts options asked (freshWorld (inn m held) ⟨0, 0⟩),
        Sha256.digest t.toUTF8 = Sha256.digest t'.toUTF8 → t = t' := by
  obtain ⟨disk, -, htexts, -⟩ := after_asked hu hb options
  have hmem : ∀ t ∈ Move.texts options asked (freshWorld (inn m held) ⟨0, 0⟩),
      t = m.activeText ∨ t = "Where are we?" := by
    rw [htexts]
    simp
  intro t ht t' ht' heq
  rcases hmem t ht with h | h
  all_goals
    rcases hmem t' ht' with h' | h'
    all_goals rw [h, h'] at heq ⊢
  · exact absurd heq hd
  · exact absurd heq.symm hd

end Inn

def rested : Message := .plain 0 .assistant "They rest. <!--<|state|>{}</|state|>-->"

theorem hasBlock_of_skipped_asked : ∃ host reason w',
    (onGenerationEnded campOptions).exec (Move.after campOptions asked (freshWorld host ⟨0, 0⟩)) =
        (.ok (.skipped reason), w') ∧
      (∀ t ∈ Move.texts campOptions asked (freshWorld host ⟨0, 0⟩),
        ∀ t' ∈ Move.texts campOptions asked (freshWorld host ⟨0, 0⟩),
          Sha256.digest t.toUTF8 = Sha256.digest t'.toUTF8 → t = t') ∧
      (Move.after campOptions asked (freshWorld host ⟨0, 0⟩)).host.chat.messages.getLast? = some rested ∧
      Block.HasBlock rested.activeText := by
  have hparse : (Block.parse? rested.activeText).isSome = true := by decide +kernel
  obtain ⟨held, hb⟩ := Option.isSome_iff_exists.mp hparse
  have hd : Sha256.digest rested.activeText.toUTF8 ≠ Sha256.digest "Where are we?".toUTF8 := by decide +kernel
  have hdigest := eq_of_digest_asked rfl hb campOptions hd
  obtain ⟨reason, w', hrun, hlast⟩ := skipped_asked rfl hb campOptions
  exact ⟨inn rested held, reason, w', hrun, hdigest, hlast,
    hasBlock_of_skipped campOptions (inn rested held) ⟨0, 0⟩ asked hdigest reason w' hrun rested hlast rfl⟩

end Controller

end Chronicle
