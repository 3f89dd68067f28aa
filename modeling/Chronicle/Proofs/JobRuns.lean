import Chronicle.Cli.Run
import Chronicle.Proofs.NewestSnapshots

/-!
# Runs of jobs

How the jobs of the program run: a job after another one starts with the console that this one leaves, and a program
of a handler runs on the world of the console. Selecting a chat comes to saving it with the newest state of its
messages in its store. In a chat that has been saved swipes and edits never fail.
-/

namespace Chronicle

namespace Transcript

/-- The chat with the newest state of its messages in its store. -/
def selected (c : Transcript) : Transcript :=
  { c with stored := ((findState c.messages).elim State.initial (·.2)).toStored }

/-- The last message that is not the user's is as good a place to look for a state from as the end of the chat. -/
theorem loaded_lastGenerated (c : Transcript) : c.loaded c.lastGenerated = c.selected := by
  have hl := c.lastGenerated_spec
  have hfound : findState (c.history c.lastGenerated) = findState c.messages :=
    (newest_history c.lastGenerated).unique c.newest_messages (by rw [hl.target_eq, hl.stateful_eq])
  rw [loaded, hfound, selected]

end Transcript

namespace Host

def loaded (start : Option Nat) (h : Host) : Host := { h with chat := h.chat.loaded start }

def selected (h : Host) : Host := { h with chat := h.chat.selected }

theorem writeStore_eq (v : Json) (h : Host) :
    h.writeStore v = save { h with chat := { h.chat with stored := v } } := by
  rw [writeStore, update]
  simp only
  rcases save _ with ⟨e | u, h'⟩ <;> rfl

end Host

namespace Controller
open SessionProgram HostProgram

variable {w : World}

theorem exec_writeStore_eq (hr : CallKind.writeStore ∉ w.host.refused) (v : Json) :
    (writeStore v).exec w = ((w.host.writeStore v).1, { w with host := (w.host.writeStore v).2 }) := by
  have hserve : (writeStore v).exec w = w.serve .writeStore (Host.writeStore v) := rfl
  rw [hserve, World.serve, Host.guarded, if_neg (by simpa using hr)]

/-- Loading ends as the save of the loaded chat does. -/
theorem exists_exec_settle (hr : CallKind.writeStore ∉ w.host.refused) (start : Option Nat) (s : Session) :
    ∃ outcome s', (settle w.host.chat start).exec s w =
      (((w.host.loaded start).save.1.map fun _ => outcome, s'), { w with host := (w.host.loaded start).save.2 }) := by
  have hwrite : (writeStore ((findState (w.host.chat.history start)).elim State.initial (·.2)).toStored).exec w =
      ((w.host.loaded start).save.1, { w with host := (w.host.loaded start).save.2 }) := by
    rw [exec_writeStore_eq hr, Host.writeStore_eq]
    rfl
  rw [settle]
  rcases hs : (w.host.loaded start).save with ⟨e | u, h'⟩ <;> rw [hs] at hwrite
  · rw [exec_bind_error (by rw [SessionProgram.exec_lift, hwrite])]
    exact ⟨.reloaded none none, s, rfl⟩
  · rw [exec_bind_lift_ok hwrite, exec_bind_ok (exec_modify _ _ _), exec_pure]
    exact ⟨_, _, rfl⟩

/-- A change of the chat on a host that refuses nothing ends as the save of the selected chat does. -/
theorem exists_exec_onChatChanged (hr : w.host.refused = []) : ∃ outcome sessions, onChatChanged.exec w =
    (w.host.selected.save.1.map fun _ => outcome, ⟨w.host.selected.save.2, w.clock, sessions⟩) := by
  have hk (k : CallKind) : k ∉ w.host.refused := by simp [hr]
  obtain ⟨outcome, s', hsettle⟩ := exists_exec_settle (hk .writeStore) w.host.chat.lastGenerated
    ⟨none, lastOf w.host.chat.messages.length⟩
  rw [Host.loaded, Transcript.loaded_lastGenerated, ← exec_reload (hk _) (Or.inr (hk _))] at hsettle
  have hreload : onChatChanged.exec w = (withSession do
      set (⟨none, lastOf w.host.chat.messages.length⟩ : Session)
      reload w.host.chat.lastGenerated).exec w := by
    rw [onChatChanged, exec_withSession_eq (hk _), exec_withSession_eq (hk _), exec_bind_ok (exec_set _ _ _),
      exec_bind_ok (exec_set _ _ _), exec_read (hk _) (exec_length w) rfl, exec_read (hk _) (exec_messages _ _ w) rfl,
      exec_bind_ok (exec_modify _ _ _), Transcript.slice_all]
    rfl
  rw [hreload, exec_withSession_eq (hk _), exec_bind_ok (exec_set _ _ _), hsettle]
  exact ⟨outcome, _, rfl⟩

theorem exists_onSwipe (h : w.Serves) (hl : ¬w.Unlisted) (options : Options) (i : Nat) :
    ∃ outcome w', (onSwipe options i).exec w = (.ok outcome, w') := by
  obtain ⟨disk, hrun, -⟩ := exec_withSession_reload h hl (some i)
  exact ⟨_, _, (exec_onSwipe options i w).trans hrun⟩

theorem exists_onEdit (h : w.Serves) (hl : ¬w.Unlisted) : ∃ outcome w', onEdit.exec w = (.ok outcome, w') := by
  have hid : CallKind.conversationId ∉ w.host.refused := h.answers (by decide)
  have hlength : CallKind.length ∉ w.host.refused := h.answers (by decide)
  have hread : CallKind.message ∉ w.host.refused := h.answers (by decide)
  by_cases hn : w.host.chat.messages.length = 0
  · rw [onEdit, exec_withSession_eq hid, exec_read hlength (exec_lastIndex w) rfl, lastOf, if_pos hn]
    exact ⟨_, _, rfl⟩
  · obtain ⟨last, hlast⟩ := Nat.exists_eq_add_one_of_ne_zero hn
    have hm : w.host.chat.messages[last]? = some (w.host.chat.messages[last]) := List.getElem?_eq_getElem (by omega)
    cases hu : (w.host.chat.messages[last]).isUser with
    | true =>
      rw [onEdit, exec_withSession_eq hid, exec_read hlength (exec_lastIndex w) rfl, lastOf_eq hlast.symm]
      simp only
      rw [exec_read hread (exec_message last w) (message_eq_ok_iff.mpr hm), if_pos hu]
      exact ⟨_, _, rfl⟩
    | false =>
      obtain ⟨disk, hrun, -⟩ := exec_withSession_reload h hl (some last)
      exact ⟨_, _, (exec_onEdit h hlast.symm hm hu).trans hrun⟩

end Controller

namespace Cli

namespace Job
open Controller

variable {j : Job α} {f : α → Job β} {c c' : Console}

/-- The result of a job and the console after it. -/
def exec (j : Job α) (c : Console) : Except Failure α × Console := j.run.run c

theorem exec_bind (j : Job α) (f : α → Job β) (c : Console) : (j >>= f).exec c = match j.exec c with
    | (.ok a, c) => (f a).exec c
    | (.error e, c) => (.error e, c) := by
  unfold exec
  rw [ExceptT.run_bind, StateT.run_bind]
  rcases j.run.run c with ⟨e | a, c'⟩ <;> rfl

theorem exec_bind_ok {a : α} (h : j.exec c = (.ok a, c')) : (j >>= f).exec c = (f a).exec c' := by
  rw [exec_bind, h]

theorem exec_bind_error {e : Failure} (h : j.exec c = (.error e, c')) : (j >>= f).exec c = (.error e, c') := by
  rw [exec_bind, h]

theorem exec_get (c : Console) : (get : Job Console).exec c = (.ok c, c) := rfl

theorem exec_perform (failure : HostError → Failure) (p : HostProgram α) (c : Console) : (perform failure p).exec c =
    ((p.exec c.world).1.mapError failure, { c with world := (p.exec c.world).2 }) := by
  rw [perform, exec_bind_ok (exec_get c), HostProgram.exec]
  rcases Program.run (ExceptT.run p) c.world with ⟨e | a, w⟩ <;> rfl

theorem exec_onHost (f : Host → Except HostError α × Host) (c : Console) : (onHost f).exec c =
    ((f c.world.host).1.mapError .host, { c with world := { c.world with host := (f c.world.host).2 } }) := by
  rw [onHost, exec_bind_ok (exec_get c)]
  rcases f c.world.host with ⟨e | a, h⟩ <;> rfl

/-- The job only prints something. -/
def Prints (j : Job Unit) : Prop := ∀ c, ∃ printed, j.exec c = (.ok (), { c with printed })

theorem prints_printLine (text : String) : Prints (printLine text) := fun _ => ⟨_, rfl⟩

theorem Prints.seq {j k : Job Unit} (hj : Prints j) (hk : Prints k) : Prints (j >>= fun _ => k) := by
  intro c
  obtain ⟨printed, hj⟩ := hj c
  rw [exec_bind_ok hj]
  exact hk _

/-- A loop only prints if each of its steps does. -/
theorem prints_forIn {l : List α} {f : α → Unit → Job (ForInStep Unit)}
    (hf : ∀ a c, ∃ printed, (f a ()).exec c = (.ok (.yield ()), { c with printed })) : Prints (forIn l () f) := by
  induction l with
  | nil => exact fun c => ⟨c.printed, rfl⟩
  | cons a l ih =>
    intro c
    obtain ⟨printed, ha⟩ := hf a c
    rw [List.forIn_cons, exec_bind_ok ha]
    exact ih _

theorem prints_report (o : Outcome) : Prints (report o) := by
  unfold report
  split
  · refine (prints_printLine _).seq ((prints_forIn fun entry _ => ?_).seq fun c => ⟨c.printed, rfl⟩)
    obtain ⟨command, outcome⟩ := entry
    exact ⟨_, rfl⟩
  all_goals exact prints_printLine _

theorem exec_handled {p : HostProgram Outcome} {o : Outcome} {w : World} (h : p.exec c.world = (.ok o, w)) :
    ∃ printed, (handled p).exec c = (.ok (), ⟨printed, w⟩) := by
  rw [handled, exec_bind_ok (show exec _ c = (.ok o, { c with world := w }) by rw [exec_perform, h]; rfl)]
  exact prints_report o _

/-- Selecting a chat ends as its save does. -/
theorem exec_select (hr : c.world.host.refused = []) : ∃ sessions, select.exec c =
    (c.world.host.selected.save.1.mapError .handler,
      { c with world := ⟨c.world.host.selected.save.2, c.world.clock, sessions⟩ }) := by
  obtain ⟨outcome, sessions, hrun⟩ := exists_exec_onChatChanged hr
  refine ⟨sessions, ?_⟩
  have hperform := exec_perform .handler onChatChanged c
  rw [hrun] at hperform
  rw [select, exec_bind, hperform]
  rcases c.world.host.selected.save with ⟨e | u, h⟩ <;> rfl

theorem exec_indexOr (hr : c.world.host.refused = []) (chat : String) (index : Option Nat) :
    (indexOr chat index).exec c = ((index.or (lastOf c.world.host.chat.messages.length)).elim
      (.error (.noMessages chat)) .ok, c) := by
  have hlast : (perform .host HostProgram.lastIndex).exec c =
      (.ok (lastOf c.world.host.chat.messages.length), c) := by
    rw [exec_perform, HostProgram.exec_lastIndex, World.reply_of_notMem (by simp [hr])]
    rfl
  rw [indexOr, exec_bind_ok hlast]
  cases index.or (lastOf c.world.host.chat.messages.length) <;> rfl

end Job

end Cli

end Chronicle
