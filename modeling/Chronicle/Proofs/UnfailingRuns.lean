import Chronicle.Proofs.HostCalls

/-!
# Runs in which no call fails

A run of a program goes without failures if every call that it makes of the host is answered. What a host refuses
does not matter as long as the program does not ask for it.
-/

namespace Chronicle

/-- Whether a call has been answered without an error. -/
def Call.answered : (c : Call) → c.Answer → Bool
  | .conversationId, r => r.isOk
  | .length, r => r.isOk
  | .message _, r => r.isOk
  | .messages .., r => r.isOk
  | .setMessage .., r => r.isOk
  | .readStore, r => r.isOk
  | .writeStore _, r => r.isOk
  | .now, _ | .lock _, _ | .unlock .., _ | .pause, _ => true

/-- Whether no call that a run makes fails. -/
def Program.unfailing : Program α → World → Bool
  | done _, _ => true
  | call c next, w => c.answered (w.answer c).1 && unfailing (next (w.answer c).1) (w.answer c).2

theorem Program.unfailing_bind (p : Program α) (f : α → Program β) (w : World) :
    (p >>= f).unfailing w = (p.unfailing w && (f (p.run w).1).unfailing (p.run w).2) := by
  induction p generalizing w with
  | done a => rfl
  | call c next ih =>
    have hnext := ih (w.answer c).1 (w.answer c).2
    exact (congrArg (c.answered (w.answer c).1 && ·) hnext).trans (Bool.and_assoc _ _ _).symm

def HostProgram.unfailing (q : HostProgram α) (w : World) : Bool := Program.unfailing (ExceptT.run q) w

def SessionProgram.unfailing (p : SessionProgram α) (s : Session) (w : World) : Bool :=
  Program.unfailing (StateT.run (ExceptT.run p) s) w

namespace HostProgram

variable {q : HostProgram α} {w w' : World}

/-- The program gives a result unless a call that it makes fails. -/
def Answers (q : HostProgram α) : Prop := ∀ w, q.unfailing w = true → ∃ a, (q.exec w).1 = .ok a

theorem answers_ask {c : Call} {answer : c.Answer → Except HostError α} (hq : q.run = .call c fun r => .done (answer r))
    (hc : ∀ r, c.answered r = true → ∃ a, answer r = .ok a) : q.Answers := by
  intro w h
  rw [unfailing, hq, Program.unfailing, Bool.and_eq_true] at h
  rw [exec, hq]
  exact hc _ h.1

theorem answers_conversationId : conversationId.Answers := answers_ask rfl fun _ => exists_ok_of_isOk

theorem answers_length : length.Answers := answers_ask rfl fun _ => exists_ok_of_isOk

theorem answers_message (i : Nat) : (message i).Answers := answers_ask rfl fun _ => exists_ok_of_isOk

theorem answers_messages (start stop : Nat) : (messages start stop).Answers := answers_ask rfl fun _ => exists_ok_of_isOk

theorem answers_writeStore (v : Json) : (writeStore v).Answers := answers_ask rfl fun _ => exists_ok_of_isOk

theorem answers_lastIndex : lastIndex.Answers := by
  refine answers_ask run_lastIndex fun r h => ?_
  obtain ⟨n, rfl⟩ := exists_ok_of_isOk h
  exact ⟨lastOf n, rfl⟩

theorem exists_of_unfailing_bind (hq : q.Answers) {f : α → HostProgram β} (h : (q >>= f).unfailing w = true) :
    ∃ a w', q.exec w = (.ok a, w') ∧ (f a).unfailing w' = true := by
  unfold unfailing at h
  rw [ExceptT.run_bind, Program.unfailing_bind, Bool.and_eq_true] at h
  obtain ⟨hfirst, hrest⟩ := h
  obtain ⟨a, ha⟩ := hq w hfirst
  have hrun : (Program.run (ExceptT.run q) w).1 = .ok a := ha
  rw [hrun] at hrest
  exact ⟨a, _, Prod.ext ha rfl, hrest⟩

theorem unfailing_bind_lift (q : Program α) (f : α → HostProgram β) (w : World) :
    ((liftM q : HostProgram α) >>= f).unfailing w = (q.unfailing w && (f (q.run w).1).unfailing (q.run w).2) := by
  rw [unfailing, run_bind_lift]
  exact Program.unfailing_bind q _ w

/-- A program on a session that goes through without failures does so on the session of the open chat. -/
theorem unfailing_of_withSession {p : SessionProgram α} (h : (withSession p).unfailing w = true) :
    CallKind.conversationId ∉ w.host.refused ∧ p.unfailing (w.session w.host.chat.id) w = true := by
  obtain ⟨id, w', hid, h⟩ := exists_of_unfailing_bind answers_conversationId h
  rw [exec_conversationId] at hid
  obtain ⟨hr, rfl⟩ := Prod.mk.inj hid
  obtain ⟨hok, hrefused⟩ := World.ok_of_reply hr
  obtain rfl := Except.ok.inj hok
  rw [unfailing_bind_lift, unfailing_bind_lift, Bool.and_eq_true, Bool.and_eq_true] at h
  exact ⟨hrefused, h.2.1⟩

end HostProgram

namespace SessionProgram

variable {q : HostProgram α} {p : SessionProgram α} {s s' : Session} {w w' : World} {k : CallKind}

theorem unfailing_of_bind_ok {f : α → SessionProgram β} {a : α} (h : (p >>= f).unfailing s w = true)
    (hp : p.exec s w = ((.ok a, s'), w')) : (f a).unfailing s' w' = true := by
  unfold unfailing at h
  rw [ExceptT.run_bind, StateT.run_bind, Program.unfailing_bind, Bool.and_eq_true] at h
  have hrest := h.2
  rw [show Program.run (StateT.run (ExceptT.run p) s) w = ((.ok a, s'), w') from hp] at hrest
  exact hrest

theorem exists_of_unfailing_lift (hq : q.Answers) {f : α → SessionProgram β}
    (h : (liftM q >>= f).unfailing s w = true) :
    ∃ a w', q.exec w = (.ok a, w') ∧ (f a).unfailing s w' = true := by
  have hfirst : q.unfailing w = true := by
    unfold unfailing at h
    rw [ExceptT.run_bind, StateT.run_bind, Program.unfailing_bind, Bool.and_eq_true] at h
    have hlift := h.1
    have hrun : StateT.run (ExceptT.run (liftM q : SessionProgram α)) s = ExceptT.run q >>= fun r => .done (r, s) := rfl
    rw [hrun, Program.unfailing_bind, Bool.and_eq_true] at hlift
    exact hlift.1
  obtain ⟨a, ha⟩ := hq w hfirst
  have hexec : q.exec w = (.ok a, (q.exec w).2) := Prod.ext ha rfl
  exact ⟨a, _, hexec, unfailing_of_bind_ok h (by rw [exec_lift, hexec])⟩

/-- A call that reads is answered from the chat, and the rest of the program goes on in the same world. -/
theorem exists_of_unfailing_read (hq : q.Answers) {r : Except HostError α} (he : q.exec w = (w.reply k r, w))
    {f : α → SessionProgram β} (h : (liftM q >>= f).unfailing s w = true) :
    k ∉ w.host.refused ∧ ∃ a, r = .ok a ∧ (f a).unfailing s w = true := by
  obtain ⟨a, w', hexec, hrest⟩ := exists_of_unfailing_lift hq h
  rw [he] at hexec
  obtain ⟨hr, rfl⟩ := Prod.mk.inj hexec
  exact ⟨(World.ok_of_reply hr).2, a, (World.ok_of_reply hr).1, hrest⟩

end SessionProgram

end Chronicle
