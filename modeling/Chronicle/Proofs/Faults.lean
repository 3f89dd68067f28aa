import Chronicle.Proofs.HostCalls

/-!
# Runs in which a call fails

A single call of the host may fail: it answers with an error and changes nothing. The calls before it and those
after it are answered.
-/

namespace Chronicle

/-- The call that fails is told by its kind and the number of calls of this kind before it. -/
structure Fault where
  kind : CallKind
  before : Nat
  error : HostError

/-- What becomes of a fault at a call of a kind: the call gets the error, or the fault is still to come. -/
def Fault.meet (k : CallKind) (f : Fault) : HostError ⊕ Fault :=
  if f.kind = k then
    match f.before with
    | 0 => .inl f.error
    | n + 1 => .inr { f with before := n }
  else .inr f

theorem Fault.kind_of_meet_error {f : Fault} {k : CallKind} {e : HostError} (h : f.meet k = .inl e) : f.kind = k := by
  unfold meet at h
  split at h
  · next hk => exact hk
  · exact absurd h (by simp)

theorem Fault.kind_of_meet {f f' : Fault} {k : CallKind} (h : f.meet k = .inr f') : f'.kind = f.kind := by
  unfold meet at h
  split at h
  · split at h
    · exact absurd h (by simp)
    · rw [← Sum.inr.inj h]
  · rw [Sum.inr.inj h]

/-- The kind of a call of the host, and its answer when it fails. -/
def Call.failing? : (c : Call) → Option (CallKind × (HostError → c.Answer))
  | .conversationId => some (.conversationId, .error)
  | .length => some (.length, .error)
  | .message _ => some (.message, .error)
  | .messages .. => some (.messages, .error)
  | .setMessage .. => some (.setMessage, .error)
  | .readStore => some (.readStore, .error)
  | .writeStore _ => some (.writeStore, .error)
  | .now | .lock _ | .unlock .. | .pause => none

def World.answerFaulty (f? : Option Fault) (w : World) (c : Call) : c.Answer × Option Fault × World :=
  match f?, c.failing? with
  | some f, some (k, fail) =>
    match f.meet k with
    | .inl e => (fail e, none, w)
    | .inr f => ((w.answer c).1, some f, (w.answer c).2)
  | f?, _ => ((w.answer c).1, f?, (w.answer c).2)

namespace World

variable {w : World} {c : Call} {k : CallKind} {fail : HostError → c.Answer} {f : Fault}

theorem answerFaulty_of_meet {f' : Fault} (hc : c.failing? = some (k, fail)) (h : f.meet k = .inr f') :
    w.answerFaulty (some f) c = ((w.answer c).1, some f', (w.answer c).2) := by
  unfold answerFaulty
  simp only [hc, h]

theorem answerFaulty_of_meet_error {e : HostError} (hc : c.failing? = some (k, fail)) (h : f.meet k = .inl e) :
    w.answerFaulty (some f) c = (fail e, none, w) := by
  unfold answerFaulty
  simp only [hc, h]

end World

/-- A run with a fault that is still to come, if there is one. -/
def Program.runFaulty : Program α → Option Fault → World → α × Option Fault × World
  | done a, f?, w => (a, f?, w)
  | call c next, f?, w =>
    let (r, f?, w) := w.answerFaulty f? c
    runFaulty (next r) f? w

theorem Program.runFaulty_bind (p : Program α) (g : α → Program β) (f? : Option Fault) (w : World) :
    (p >>= g).runFaulty f? w =
      (g (p.runFaulty f? w).1).runFaulty (p.runFaulty f? w).2.1 (p.runFaulty f? w).2.2 := by
  induction p generalizing f? w with
  | done a => rfl
  | call c next ih => exact ih _ _ _

/-- Without a fault a run is as it is on a host that works. -/
theorem Program.runFaulty_none (p : Program α) (w : World) :
    p.runFaulty none w = ((p.run w).1, none, (p.run w).2) := by
  induction p generalizing w with
  | done a => rfl
  | call c next ih => exact ih _ _

def HostProgram.execFaulty (p : HostProgram α) (f? : Option Fault) (w : World) :
    Except HostError α × Option Fault × World :=
  Program.runFaulty (ExceptT.run p) f? w

def SessionProgram.execFaulty (p : SessionProgram α) (s : Session) (f? : Option Fault) (w : World) :
    (Except HostError α × Session) × Option Fault × World :=
  Program.runFaulty (StateT.run (ExceptT.run p) s) f? w

namespace HostProgram

variable {q : HostProgram α} {k : CallKind} {f f' : Fault} {e : HostError}

/-- The program is one call of a kind, and an error of the call is its own. -/
def IsCall (k : CallKind) (q : HostProgram α) : Prop :=
  ∃ (c : Call) (fail : HostError → c.Answer) (g : c.Answer → Except HostError α),
    c.failing? = some (k, fail) ∧ q.run = .call c (fun r => .done (g r)) ∧ ∀ e, g (fail e) = .error e

theorem isCall_conversationId : IsCall .conversationId conversationId :=
  ⟨.conversationId, .error, id, rfl, rfl, fun _ => rfl⟩

theorem isCall_length : IsCall .length length := ⟨.length, .error, id, rfl, rfl, fun _ => rfl⟩

theorem isCall_lastIndex : IsCall .length lastIndex :=
  ⟨.length, .error, Except.map lastOf, rfl, run_lastIndex, fun _ => rfl⟩

theorem isCall_message (i : Nat) : IsCall .message (message i) := ⟨.message i, .error, id, rfl, rfl, fun _ => rfl⟩

theorem isCall_messages (start stop : Nat) : IsCall .messages (messages start stop) :=
  ⟨.messages start stop, .error, id, rfl, rfl, fun _ => rfl⟩

theorem isCall_readStore : IsCall .readStore readStore := ⟨.readStore, .error, id, rfl, rfl, fun _ => rfl⟩

theorem isCall_writeStore (v : Json) : IsCall .writeStore (writeStore v) :=
  ⟨.writeStore v, .error, id, rfl, rfl, fun _ => rfl⟩

theorem isCall_setMessage (i : Nat) (text : String) : IsCall .setMessage (setMessage i text) :=
  ⟨.setMessage i text, .error, id, rfl, rfl, fun _ => rfl⟩

theorem IsCall.execFaulty_of_meet (hq : q.IsCall k) (h : f.meet k = .inr f') (w : World) :
    q.execFaulty (some f) w = ((q.exec w).1, some f', (q.exec w).2) := by
  obtain ⟨c, fail, g, hc, hrun, -⟩ := hq
  rw [execFaulty, exec, hrun, Program.runFaulty, World.answerFaulty_of_meet hc h]
  rfl

theorem IsCall.execFaulty_of_meet_error (hq : q.IsCall k) (h : f.meet k = .inl e) (w : World) :
    q.execFaulty (some f) w = (.error e, none, w) := by
  obtain ⟨c, fail, g, hc, hrun, hfail⟩ := hq
  rw [execFaulty, hrun, Program.runFaulty, World.answerFaulty_of_meet_error hc h]
  simp only [Program.runFaulty, hfail]

end HostProgram

namespace SessionProgram

variable {p : SessionProgram α} {g : α → SessionProgram β} {s s' : Session} {f? f'? : Option Fault} {w w' w₁ : World}

theorem execFaulty_bind (p : SessionProgram α) (g : α → SessionProgram β) (s : Session) (f? : Option Fault)
    (w : World) :
    execFaulty (p >>= g) s f? w = match execFaulty p s f? w with
      | ((.ok a, s), f?, w) => execFaulty (g a) s f? w
      | ((.error e, s), f?, w) => ((.error e, s), f?, w) := by
  unfold execFaulty
  rw [ExceptT.run_bind, StateT.run_bind, Program.runFaulty_bind]
  obtain ⟨⟨r, s'⟩, f'?, w'⟩ := Program.runFaulty (StateT.run (ExceptT.run p) s) f? w
  cases r <;> rfl

theorem execFaulty_bind_ok {a : α} (h : execFaulty p s f? w = ((.ok a, s'), f'?, w')) :
    execFaulty (p >>= g) s f? w = execFaulty (g a) s' f'? w' := by
  rw [execFaulty_bind, h]

theorem execFaulty_bind_error {e : HostError} (h : execFaulty p s f? w = ((.error e, s'), f'?, w')) :
    execFaulty (p >>= g) s f? w = ((.error e, s'), f'?, w') := by
  rw [execFaulty_bind, h]

theorem execFaulty_lift (q : HostProgram α) (s : Session) (f? : Option Fault) (w : World) :
    execFaulty (liftM q) s f? w = (((q.execFaulty f? w).1, s), (q.execFaulty f? w).2) :=
  Program.runFaulty_bind (ExceptT.run q) _ f? w

theorem execFaulty_pure (a : α) (s : Session) (f? : Option Fault) (w : World) :
    execFaulty (pure a) s f? w = ((.ok a, s), f?, w) := rfl

theorem execFaulty_get (s : Session) (f? : Option Fault) (w : World) :
    execFaulty get s f? w = ((.ok s, s), f?, w) := rfl

theorem execFaulty_modify (g : Session → Session) (s : Session) (f? : Option Fault) (w : World) :
    execFaulty (modify g) s f? w = ((.ok (), g s), f?, w) := rfl

theorem execFaulty_now (s : Session) (f? : Option Fault) (w : World) :
    execFaulty (liftM (Program.ask .now : Program Instant)) s f? w = ((.ok w.clock, s), f?, w) := by
  cases f? <;> rfl

/-- A run that ends with an error goes past a call that succeeds otherwise, or the call has failed. -/
theorem failed_bind_lift {q : HostProgram α} {k : CallKind} {f : Fault} {a : α} {e : HostError} (hq : q.IsCall k)
    (hok : q.exec w = (.ok a, w'))
    (h : execFaulty (liftM q >>= g) s (some f) w = ((.error e, s'), f'?, w₁)) :
    (f.kind = k ∧ s' = s ∧ w₁ = w) ∨
      ∃ f', f'.kind = f.kind ∧ execFaulty (g a) s (some f') w' = ((.error e, s'), f'?, w₁) := by
  cases hmeet : f.meet k with
  | inl e' =>
    have hlift : execFaulty (liftM q) s (some f) w = ((.error e', s), none, w) := by
      rw [execFaulty_lift, hq.execFaulty_of_meet_error hmeet]
    rw [execFaulty_bind_error hlift] at h
    simp only [Prod.mk.injEq] at h
    exact Or.inl ⟨Fault.kind_of_meet_error hmeet, h.1.2.symm, h.2.2.symm⟩
  | inr f' =>
    have hlift : execFaulty (liftM q) s (some f) w = ((.ok a, s), some f', w') := by
      rw [execFaulty_lift, hq.execFaulty_of_meet hmeet, hok]
    rw [execFaulty_bind_ok hlift] at h
    exact Or.inr ⟨f', Fault.kind_of_meet hmeet, h⟩

end SessionProgram

namespace HostProgram

theorem execFaulty_bind (p : HostProgram α) (g : α → HostProgram β) (f? : Option Fault) (w : World) :
    execFaulty (p >>= g) f? w = match execFaulty p f? w with
      | (.ok a, f?, w) => execFaulty (g a) f? w
      | (.error e, f?, w) => (.error e, f?, w) := by
  unfold execFaulty
  rw [ExceptT.run_bind, Program.runFaulty_bind]
  obtain ⟨r, f'?, w'⟩ := Program.runFaulty (ExceptT.run p) f? w
  cases r <;> rfl

theorem execFaulty_lift (q : Program α) (f? : Option Fault) (w : World) :
    execFaulty (liftM q : HostProgram α) f? w = (.ok (q.runFaulty f? w).1, (q.runFaulty f? w).2) :=
  Program.runFaulty_bind q _ f? w

/-- A call that is none of the host's does not fail. -/
theorem runFaulty_ask {c : Call} (hc : c.failing? = none) (f? : Option Fault) (w : World) :
    (Program.ask c).runFaulty f? w = ((w.answer c).1, f?, (w.answer c).2) := by
  have hanswer : w.answerFaulty f? c = ((w.answer c).1, f?, (w.answer c).2) := by
    unfold World.answerFaulty
    rw [hc]
    cases f? <;> rfl
  rw [Program.ask, Program.runFaulty, hanswer]
  rfl

/-- A program on a session fails before the session is held, or as it does on that session. -/
theorem failed_withSession {p : SessionProgram α} {f : Fault} {f'? : Option Fault} {e : HostError} {w w₁ : World}
    (hid : CallKind.conversationId ∉ w.host.refused)
    (h : (withSession p).execFaulty (some f) w = (.error e, f'?, w₁)) :
    (f.kind = .conversationId ∧ w₁ = w) ∨ ∃ f' s' w', f'.kind = f.kind ∧
      p.execFaulty (w.session w.host.chat.id) (some f') w = ((.error e, s'), f'?, w') ∧
      w₁ = w'.withSession w.host.chat.id s' := by
  have hcall : conversationId.exec w = (.ok w.host.chat.id, w) := by
    rw [exec_conversationId, World.reply_of_notMem hid]
  rw [withSession, execFaulty_bind] at h
  cases hmeet : f.meet .conversationId with
  | inl e' =>
    rw [isCall_conversationId.execFaulty_of_meet_error hmeet] at h
    exact Or.inl ⟨Fault.kind_of_meet_error hmeet, (Prod.mk.inj (Prod.mk.inj h).2).2.symm⟩
  | inr f' =>
    rw [isCall_conversationId.execFaulty_of_meet hmeet, hcall] at h
    simp only [execFaulty_bind, execFaulty_lift] at h
    rw [runFaulty_ask (c := .lock _) rfl, runFaulty_ask (c := .unlock _ _) rfl] at h
    obtain ⟨he, hw⟩ := Prod.mk.inj h
    obtain ⟨hf, hw⟩ := Prod.mk.inj hw
    exact Or.inr ⟨f', _, _, Fault.kind_of_meet hmeet, Prod.ext (Prod.ext he rfl) (Prod.ext hf rfl), hw.symm⟩

end HostProgram

end Chronicle
