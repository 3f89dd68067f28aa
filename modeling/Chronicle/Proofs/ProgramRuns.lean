import Chronicle.Controller.Program
import Chronicle.Proofs.DiskSaves

/-!
# Runs of programs

How programs run step by step: a program after another one starts in the world that this one leaves, and a
program on a session also in the session that this one leaves. Calls of a host that serves all of them
answer from its chat, and writing changes the chat and the disk.
-/

namespace Chronicle

theorem Program.run_bind (p : Program α) (f : α → Program β) (w : World) :
    (p >>= f).run w = (f (p.run w).1).run (p.run w).2 := by
  induction p generalizing w with
  | done a => rfl
  | call c next ih => exact ih _ _

theorem World.clock_answer (w : World) (c : Call) : (w.answer c).2.clock = w.clock := by
  cases c <;> rfl

theorem Program.clock_run (p : Program α) (w : World) : (p.run w).2.clock = w.clock := by
  induction p generalizing w with
  | done a => rfl
  | call c next ih => exact (ih _ _).trans (w.clock_answer c)

/-- The result of a program and the world after it. -/
def HostProgram.exec (p : HostProgram α) (w : World) : Except HostError α × World := Program.run (ExceptT.run p) w

/-- The result of a program on a session, the session and the world after it. -/
def SessionProgram.exec (p : SessionProgram α) (s : Session) (w : World) :
    (Except HostError α × Session) × World :=
  Program.run (StateT.run (ExceptT.run p) s) w

namespace SessionProgram

variable {p : SessionProgram α} {f : α → SessionProgram β} {s s' : Session} {w w' : World}

theorem exec_bind (p : SessionProgram α) (f : α → SessionProgram β) (s : Session) (w : World) :
    exec (p >>= f) s w = match exec p s w with
      | ((.ok a, s), w) => exec (f a) s w
      | ((.error e, s), w) => ((.error e, s), w) := by
  unfold exec
  rw [ExceptT.run_bind, StateT.run_bind, Program.run_bind]
  obtain ⟨⟨r, s'⟩, w'⟩ := Program.run (StateT.run (ExceptT.run p) s) w
  cases r <;> rfl

theorem exec_bind_ok {a : α} (h : exec p s w = ((.ok a, s'), w')) : exec (p >>= f) s w = exec (f a) s' w' := by
  rw [exec_bind, h]

theorem exec_bind_error {e : HostError} (h : exec p s w = ((.error e, s'), w')) :
    exec (p >>= f) s w = ((.error e, s'), w') := by
  rw [exec_bind, h]

theorem exists_of_exec_bind {b : β} {s'' : Session} {w'' : World} (h : exec (p >>= f) s w = ((.ok b, s''), w'')) :
    ∃ a s' w', exec p s w = ((.ok a, s'), w') ∧ exec (f a) s' w' = ((.ok b, s''), w'') := by
  rw [exec_bind] at h
  split at h
  · next a s' w' hp => exact ⟨a, s', w', hp, h⟩
  · exact absurd h (by simp)

theorem exec_pure (a : α) (s : Session) (w : World) : exec (pure a) s w = ((.ok a, s), w) := rfl

theorem exec_get (s : Session) (w : World) : exec get s w = ((.ok s, s), w) := rfl

theorem exec_set (t s : Session) (w : World) : exec (set t) s w = ((.ok (), t), w) := rfl

theorem exec_modify (g : Session → Session) (s : Session) (w : World) :
    exec (modify g) s w = ((.ok (), g s), w) := rfl

theorem exec_map (g : α → β) (p : SessionProgram α) (s : Session) (w : World) :
    exec (g <$> p) s w = (((exec p s w).1.1.map g, (exec p s w).1.2), (exec p s w).2) := by
  unfold exec
  simp only [Functor.map, ExceptT.map, ExceptT.run, ExceptT.mk, StateT.run_bind]
  rw [Program.run_bind]
  obtain ⟨⟨r, s'⟩, w'⟩ := Program.run (StateT.run p s) w
  cases r <;> rfl

theorem exec_lift (q : HostProgram α) (s : Session) (w : World) :
    exec (liftM q) s w = (((q.exec w).1, s), (q.exec w).2) :=
  Program.run_bind (ExceptT.run q) _ w

theorem exec_bind_lift_ok {q : HostProgram α} {a : α} (h : q.exec w = (.ok a, w')) :
    exec (liftM q >>= f) s w = exec (f a) s w' :=
  exec_bind_ok (by rw [exec_lift, h])

theorem exists_of_exec_lift {q : HostProgram α} {b : β} {s'' : Session} {w'' : World}
    (h : exec (liftM q >>= f) s w = ((.ok b, s''), w'')) :
    ∃ a w', q.exec w = (.ok a, w') ∧ exec (f a) s w' = ((.ok b, s''), w'') := by
  obtain ⟨a, s', w', hq, hf⟩ := exists_of_exec_bind h
  rw [exec_lift] at hq
  simp only [Prod.mk.injEq] at hq
  obtain ⟨⟨hr, rfl⟩, rfl⟩ := hq
  exact ⟨a, _, Prod.ext hr rfl, hf⟩

theorem exec_now (s : Session) (w : World) :
    exec (liftM (Program.ask .now : Program Instant)) s w = ((.ok w.clock, s), w) := rfl

theorem exec_tryCatch (p : SessionProgram α) (g : HostError → SessionProgram α) (s : Session) (w : World) :
    exec (tryCatch p g) s w = match exec p s w with
      | ((.ok a, s), w) => ((.ok a, s), w)
      | ((.error e, s), w) => exec (g e) s w := by
  unfold exec
  simp only [tryCatch, tryCatchThe, MonadExceptOf.tryCatch, ExceptT.tryCatch, ExceptT.run, ExceptT.mk, StateT.run_bind]
  rw [Program.run_bind]
  obtain ⟨⟨r, s'⟩, w'⟩ := Program.run (StateT.run p s) w
  cases r <;> rfl

theorem exec_bind_cases (p : SessionProgram α) (f : α → SessionProgram β) (s : Session) (w : World) :
    (∃ e, (p >>= f).exec s w = ((.error e, (p.exec s w).1.2), (p.exec s w).2)) ∨
      ∃ a, (p.exec s w).1.1 = .ok a ∧ (p >>= f).exec s w = (f a).exec (p.exec s w).1.2 (p.exec s w).2 := by
  cases hr : (p.exec s w).1.1 with
  | error e => exact Or.inl ⟨e, exec_bind_error (Prod.ext (Prod.ext hr rfl) rfl)⟩
  | ok a => exact Or.inr ⟨a, rfl, exec_bind_ok (Prod.ext (Prod.ext hr rfl) rfl)⟩

/-- The program leaves the session and the world as they are. -/
def Reads (p : SessionProgram α) : Prop := ∀ s w, (p.exec s w).1.2 = s ∧ (p.exec s w).2 = w

theorem reads_pure (a : α) : Reads (pure a) := fun _ _ => ⟨rfl, rfl⟩

theorem reads_get : Reads get := fun _ _ => ⟨rfl, rfl⟩

theorem reads_lift {q : HostProgram α} (hq : ∀ w, (q.exec w).2 = w) : Reads (liftM q) := by
  intro s w
  rw [exec_lift]
  exact ⟨rfl, hq w⟩

theorem Reads.map (hp : p.Reads) (g : α → β) : Reads (g <$> p) := by
  intro s w
  rw [exec_map]
  exact hp s w

theorem Reads.tryCatch (hp : p.Reads) {g : HostError → SessionProgram α} (hg : ∀ e, (g e).Reads) :
    Reads (tryCatch p g) := by
  intro s w
  obtain ⟨hs, hw⟩ := hp s w
  rw [exec_tryCatch]
  generalize p.exec s w = run at hs hw ⊢
  obtain ⟨⟨r, t⟩, v⟩ := run
  subst hs hw
  cases r with
  | ok a => exact ⟨rfl, rfl⟩
  | error e => exact hg e t v

end SessionProgram

namespace HostProgram

theorem exec_bind (p : HostProgram α) (f : α → HostProgram β) (w : World) :
    exec (p >>= f) w = match exec p w with
      | (.ok a, w) => exec (f a) w
      | (.error e, w) => (.error e, w) := by
  unfold exec
  rw [ExceptT.run_bind, Program.run_bind]
  obtain ⟨r, w'⟩ := Program.run (ExceptT.run p) w
  cases r <;> rfl

theorem exec_lift (q : Program α) (w : World) :
    exec (liftM q : HostProgram α) w = (.ok (q.run w).1, (q.run w).2) :=
  Program.run_bind q _ w

theorem run_lastIndex : lastIndex.run = .call .length fun r => .done (r.map lastOf) :=
  congrArg (Program.call .length) (funext fun r => by cases r <;> rfl)

theorem run_bind_lift (q : Program α) (f : α → HostProgram β) :
    ((liftM q : HostProgram α) >>= f).run = q >>= fun a => (f a).run := by
  have hlift : (liftM q : HostProgram α).run = q >>= fun a => .done (.ok a) := rfl
  rw [ExceptT.run_bind, hlift]
  induction q with
  | done a => rfl
  | call c next ih => exact congrArg (Program.call c) (funext fun r => ih r rfl)

/-- A program on a session asks for the open chat first, then takes the session of this chat, and gives it back in the
end, whether it has failed or not. -/
theorem run_withSession (p : SessionProgram α) : (withSession p).run = .call .conversationId fun
    | .ok id => .call (.lock id) fun s =>
        StateT.run (ExceptT.run p) s >>= fun r => .call (.unlock id r.2) fun _ => .done r.1
    | .error e => .done (.error e) := by
  refine congrArg (Program.call .conversationId) (funext fun r => ?_)
  cases r with
  | error e => rfl
  | ok id => exact congrArg (Program.call (.lock id)) (funext fun s => run_bind_lift _ _)

end HostProgram

def World.withSession (w : World) (id : String) (s : Session) : World :=
  { w with sessions := (id, s) :: w.sessions.filter (·.1 ≠ id) }

theorem World.session_withSession (w : World) (id : String) (s : Session) :
    (w.withSession id s).session id = s := by
  simp [session, World.withSession]

/-- A program on the session of the open chat runs on that session, which is stored after it. -/
theorem exec_withSession (p : SessionProgram α) {w w' : World} {id : String}
    (h : HostProgram.conversationId.exec w = (.ok id, w')) :
    (withSession p).exec w = (((p.exec (w'.session id) w').1.1),
      (p.exec (w'.session id) w').2.withSession id (p.exec (w'.session id) w').1.2) := by
  rw [Chronicle.withSession, HostProgram.exec_bind, h]
  simp only [HostProgram.exec_bind, HostProgram.exec_lift]
  rfl

end Chronicle
