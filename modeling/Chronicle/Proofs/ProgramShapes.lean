import Chronicle.Proofs.Watermarks

/-!
# Shapes of programs

Which calls a program makes and which results it gives, whatever the calls answer. Everything that is done with a
session at hand reads the chat, writes the store or writes one message; sessions are taken and given back outside.
-/

namespace Chronicle

/-- Every call that a program can make satisfies `P`, and every result that it can give satisfies `Q`. -/
def Program.All (P : Call → Prop) (Q : α → Prop) : Program α → Prop
  | done a => Q a
  | call c next => P c ∧ ∀ r, All P Q (next r)

theorem Program.All.bind {P : Call → Prop} {Q : α → Prop} {R : β → Prop} {p : Program α} {f : α → Program β}
    (hp : p.All P Q) (hf : ∀ a, Q a → (f a).All P R) : (p >>= f).All P R := by
  induction p with
  | done a => exact hf a hp
  | call c next ih => exact ⟨hp.1, fun r => ih r (hp.2 r)⟩

theorem Program.All.imp {P P' : Call → Prop} {Q Q' : α → Prop} {p : Program α} (h : p.All P Q)
    (hP : ∀ c, P c → P' c) (hQ : ∀ a, Q a → Q' a) : p.All P' Q' := by
  induction p with
  | done a => exact hQ a h
  | call c next ih => exact ⟨hP c h.1, fun r => ih r (h.2 r)⟩

namespace Call

/-- A call that is made with a session at hand, and that writes no other message than the one at a place. -/
def Within (place? : Option Nat) : Call → Prop
  | conversationId | lock _ | unlock .. | pause => False
  | setMessage i _ => place? = some i
  | length | message _ | messages .. | readStore | writeStore _ | now => True

/-- A call that is made with a session at hand. -/
def Inner (c : Call) : Prop := ∃ place?, c.Within place?

theorem Within.of_none {place? : Option Nat} {c : Call} (h : c.Within none) : c.Within place? := by
  cases c with
  | setMessage i text => exact absurd h (by simp [Within])
  | _ => exact h

end Call

/-- Every call that a program on a session can make satisfies `P`, and every result that it can give without an error
satisfies `Q`, whatever the session. -/
def SessionProgram.All (P : Call → Prop) (Q : α → Prop) (p : SessionProgram α) : Prop :=
  ∀ s, Program.All P (fun r => ∀ a, r.1 = .ok a → Q a) (StateT.run (ExceptT.run p) s)

namespace SessionProgram

variable {P : Call → Prop} {Q : α → Prop} {R : β → Prop} {p : SessionProgram α} {f : α → SessionProgram β}

theorem all_pure {a : α} (h : Q a) : All P Q (pure a) := by
  rintro s a' ha
  rwa [← Except.ok.inj ha]

theorem All.bind (hp : p.All P Q) (hf : ∀ a, Q a → (f a).All P R) : (p >>= f).All P R := by
  intro s
  rw [ExceptT.run_bind, StateT.run_bind]
  refine (hp s).bind ?_
  rintro ⟨r, s'⟩ hr
  cases r with
  | ok a => exact hf a (hr a rfl) s'
  | error e => exact fun b hb => nomatch hb

theorem All.imp {P' : Call → Prop} (h : p.All P Q) (hP : ∀ c, P c → P' c) : p.All P' fun _ => True :=
  fun s => (h s).imp hP fun _ _ _ _ => trivial

theorem all_get : All P (fun _ => True) get := fun _ _ _ => trivial

theorem all_set (s : Session) : All P (fun _ => True) (set s) := fun _ _ _ => trivial

theorem all_modify (g : Session → Session) : All P (fun _ => True) (modify g) := fun _ _ _ => trivial

theorem all_ask {c : Call} (hc : P c) : All P (fun _ => True) (liftM (Program.ask c) : SessionProgram c.Answer) :=
  fun _ => ⟨hc, fun _ _ _ => trivial⟩

/-- A program that is one call of the host. -/
theorem all_lift_call {c : Call} {g : c.Answer → Except HostError α} {q : HostProgram α}
    (hq : q.run = .call c fun r => .done (g r)) (hc : P c) : All P (fun _ => True) (liftM q : SessionProgram α) := by
  intro s
  have hrun : StateT.run (ExceptT.run (liftM q : SessionProgram α)) s = ExceptT.run q >>= fun r => .done (r, s) := rfl
  rw [hrun, hq]
  exact ⟨hc, fun _ _ _ => trivial⟩

end SessionProgram

namespace Controller
open SessionProgram HostProgram

variable {options : Options} {i : Nat} {m : Message}

theorem all_setMessage (i : Nat) (text : String) :
    All (Call.Within (some i)) (fun _ => True) (liftM (setMessage i text)) :=
  all_lift_call (c := .setMessage i text) rfl rfl

theorem all_process (options : Options) (i : Nat) (hu : m.isUser = false) :
    (process options i m).All (Call.Within (some i)) fun outcome => ∃ report, outcome = .processed i report := by
  rw [process, if_neg (by simp [hu])]
  refine (all_lift_call rfl trivial).bind fun store _ => ?_
  refine (all_lift_call run_lastIndex trivial).bind fun last _ => ?_
  refine (all_ask trivial).bind fun now _ => ?_
  refine (all_lift_call rfl trivial).bind fun _ _ => ?_
  refine (all_setMessage i _).bind fun _ _ => ?_
  exact (all_modify _).bind fun _ _ => all_pure ⟨_, rfl⟩

theorem all_process_user (options : Options) (i : Nat) (hu : m.isUser = true) :
    (process options i m).All (Call.Within none) fun outcome => outcome = .skipped (.fromUser i) := by
  rw [process, if_pos hu]
  exact all_pure rfl

theorem all_reload (start : Option Nat) :
    (reload start).All (Call.Within none) fun outcome => ∃ target foundAt, outcome = .reloaded target foundAt := by
  refine (all_lift_call rfl trivial).bind fun length _ => ?_
  cases (lastOf length).bind fun last => start.map (min · last) with
  | none =>
    refine (all_pure (Q := fun _ => True) trivial).bind fun _ _ => ?_
    refine (all_lift_call rfl trivial).bind fun _ _ => ?_
    exact (all_modify _).bind fun _ _ => all_pure ⟨_, _, rfl⟩
  | some target =>
    refine (all_lift_call rfl trivial).bind fun _ _ => ?_
    refine (all_lift_call rfl trivial).bind fun _ _ => ?_
    exact (all_modify _).bind fun _ _ => all_pure ⟨_, _, rfl⟩

theorem run_messageAt? (i : Nat) (s : Session) : StateT.run (ExceptT.run (messageAt? i)) s =
    .call (.message i) fun
      | .ok m => .done (.ok (some m), s)
      | .error (.messageOutOfRange ..) => .done (.ok none, s)
      | .error e => .done (.error e, s) := by
  refine congrArg (Program.call (.message i)) (funext fun r => ?_)
  cases r with
  | ok m => rfl
  | error e => cases e <;> rfl

/-- What is done with a session at hand: calls that write no message, and in the end a message may be processed that is
the one in the chat by what is known of the messages. -/
inductive Body (options : Options) : (List Message → Prop) → SessionProgram Outcome → Prop
  | ends {known : List Message → Prop} {p : SessionProgram Outcome} {Q : Outcome → Prop}
      (hp : p.All (Call.Within none) Q) (hQ : ∀ i report, ¬Q (.processed i report)) : Body options known p
  | quiet {known : List Message → Prop} {α : Type} {p : SessionProgram α} {f : α → SessionProgram Outcome}
      (hp : p.All (Call.Within none) fun _ => True) (hf : ∀ a, Body options known (f a)) : Body options known (p >>= f)
  | reads {known : List Message → Prop} {f : Message → SessionProgram Outcome} (i : Nat)
      (hf : ∀ m, Body options (fun l => l[i]? = some m) (f m)) : Body options known (liftM (message i) >>= f)
  | looksFor {known : List Message → Prop} {f : Option Message → SessionProgram Outcome} (i : Nat)
      (hsome : ∀ m, Body options (fun l => l[i]? = some m) (f (some m))) (hnone : Body options known (f none)) :
      Body options known (messageAt? i >>= f)
  | processes {i : Nat} {m : Message} : Body options (fun l => l[i]? = some m) (process options i m)

namespace Body

variable {known : List Message → Prop}

theorem skips (reason : HandlerSkip) : Body options known (pure (.skipped reason)) :=
  ends (all_pure (Q := (· = .skipped reason)) rfl) fun _ _ => by simp

theorem reloads (start : Option Nat) : Body options known (reload start) := ends (all_reload start) fun _ _ => by simp

theorem counts {f : Option Nat → SessionProgram Outcome} (hf : ∀ last?, Body options known (f last?)) :
    Body options known (liftM lastIndex >>= f) :=
  quiet (all_lift_call run_lastIndex trivial) hf

/-- A body that is chosen by the last message, if there is one. -/
theorem withLast {f : Nat → SessionProgram Outcome} (hf : ∀ last, Body options known (f last)) :
    Body options known (liftM lastIndex >>= fun
      | none => pure (.skipped .emptyChat)
      | some last => f last) := by
  refine counts fun last? => ?_
  cases last? with
  | none => exact skips _
  | some last => exact hf last

end Body

theorem exists_body_event (options : Options) (e : Event) : ∃ body, Body options (fun _ => True) body ∧
    (handler options e = withSession body ∨
      handler options e = (liftM (Program.ask .pause) >>= fun _ => withSession body)) := by
  cases e with
  | generationStarted =>
    refine ⟨_, Body.counts fun index => Body.quiet (all_modify _) fun _ => ?_, Or.inl rfl⟩
    exact Body.ends (all_pure (Q := (· = .marked index)) rfl) fun _ _ => by simp
  | generationEnded | generationStopped =>
    refine ⟨_, Body.quiet all_get fun _ => Body.quiet (all_modify _) fun _ => Body.withLast fun last => ?_, Or.inl rfl⟩
    refine Body.reads last fun m => Body.quiet all_get fun session => ?_
    split
    · split <;> exact Body.skips _
    · exact Body.processes
  | messageSwiped i =>
    refine ⟨_, Body.reloads (some i), ?_⟩
    simp only [handler, onSwipe]
    split
    · exact Or.inr rfl
    · exact Or.inl rfl
  | messageEdited =>
    refine ⟨_, Body.withLast fun last => Body.reads last fun m => ?_, Or.inl rfl⟩
    split
    · exact Body.skips _
    · exact Body.reloads _
  | chatChanged =>
    refine ⟨_, Body.quiet (all_set _) fun _ => ?_, Or.inl rfl⟩
    refine Body.quiet (all_lift_call rfl trivial) fun count => ?_
    refine Body.quiet (all_lift_call rfl trivial) fun history => ?_
    exact Body.quiet (all_modify _) fun _ => Body.reloads _

theorem all_messageAt? (i : Nat) : (messageAt? i).All (Call.Within none) fun _ => True := by
  intro s
  rw [run_messageAt?]
  refine ⟨trivial, fun r => ?_⟩
  rcases r with (_ | _ | _ | _) | m <;> exact fun _ _ => trivial

/-- All that a body does is done with the session at hand. -/
theorem Body.inner {known : List Message → Prop} {p : SessionProgram Outcome} (h : Body options known p) :
    p.All Call.Inner fun _ => True := by
  have hinner {place? : Option Nat} : ∀ c : Call, c.Within place? → c.Inner := fun c hc => ⟨place?, hc⟩
  induction h with
  | ends hp _ => exact hp.imp hinner
  | quiet hp _ ih => exact (hp.imp hinner).bind fun a _ => ih a
  | reads i _ ih => exact (all_lift_call rfl ⟨none, trivial⟩).bind fun m _ => ih m
  | looksFor i _ _ hsome hnone =>
    refine ((all_messageAt? i).imp hinner).bind fun m? _ => ?_
    cases m? with
    | none => exact hnone
    | some m => exact hsome m
  | @processes i m =>
    cases hu : m.isUser with
    | true => exact (all_process_user options i hu).imp hinner
    | false => exact (all_process options i hu).imp hinner

end Controller

/-- What the controller can be asked to do with a chat. -/
inductive Operation where
  | event (e : Event)
  | processMessage (index : Nat)
  | reloadFrom (index : Nat)

namespace Operation

def handler (options : Options) : Operation → HostProgram Outcome
  | event e => Controller.handler options e
  | processMessage index => Controller.processMessage options index
  | reloadFrom index => Controller.reloadFrom index

/-- Everything that the controller does is done with the session of the open chat, after a pause perhaps. -/
theorem exists_body (options : Options) (o : Operation) : ∃ body, Controller.Body options (fun _ => True) body ∧
    (o.handler options = withSession body ∨
      o.handler options = (liftM (Program.ask .pause) >>= fun _ => withSession body)) := by
  cases o with
  | event e => exact Controller.exists_body_event options e
  | processMessage i =>
    refine ⟨_, .looksFor i (fun m => ?_) ?_, Or.inl (Controller.processMessage_eq options i)⟩
    · exact .processes
    · exact .skips _
  | reloadFrom i => exact ⟨_, .reloads (some i), Or.inl rfl⟩

/-- The whole of an operation. An error is an outcome. -/
def program (options : Options) (o : Operation) : Program Outcome := Outcome.ofResult <$> (o.handler options).run

theorem program_event (options : Options) (e : Event) : program options (.event e) = Controller.handle options e := by
  cases e <;> exact congrArg (Program.bind _) (funext fun r => by cases r <;> rfl)

end Operation

end Chronicle
