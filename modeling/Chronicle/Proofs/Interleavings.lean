import Chronicle.Proofs.ProgramShapes

/-!
# Handlers that run at once

Handlers run at once on one host, each of them call by call, while other chats are opened in between. A handler holds
the session of the chat that was open when it asked, and no two handlers hold one session. But its calls go to
whatever chat is open when they are made.
-/

namespace Chronicle

namespace Call

/-- A call that changes the open chat. -/
def writes : Call → Bool
  | setMessage .. | writeStore _ => true
  | _ => false

theorem inner_of_writes {c : Call} (h : c.writes = true) : c.Inner := by
  cases c with
  | setMessage i text => exact ⟨some i, rfl⟩
  | writeStore v => exact ⟨none, trivial⟩
  | _ => exact absurd h (by simp [writes])

/-- The chat for which a handler works after a call, if it asks for the open one. -/
def askedAfter (opened : String) (asked : Option String) : Call → Option String
  | conversationId => some opened
  | _ => asked

/-- The chat whose session is held after a call. -/
def heldAfter (held : Option String) : Call → Option String
  | lock id => some id
  | unlock .. => none
  | _ => held

theorem Inner.askedAfter_eq {c : Call} (h : c.Inner) (opened : String) (asked : Option String) :
    c.askedAfter opened asked = asked := by
  obtain ⟨place?, h⟩ := h
  cases c with
  | conversationId => exact h.elim
  | _ => rfl

theorem Inner.heldAfter_eq {c : Call} (h : c.Inner) (held : Option String) : c.heldAfter held = held := by
  obtain ⟨place?, h⟩ := h
  cases c with
  | lock | unlock => exact h.elim
  | _ => rfl

end Call

/-- What is left of a handler that keeps to one session: it asks for the open chat, takes the session of the chat that
it has been told, makes its calls with this session at hand, and gives it back. -/
inductive Program.Orderly {α : Type} : Program α → Option String → Option String → Prop
  | done (a : α) (asked : Option String) : Orderly (.done a) asked none
  | pausing {next : Unit → Program α} (h : ∀ r, Orderly (next r) none none) : Orderly (.call .pause next) none none
  | asking {next : Except HostError String → Program α} (hid : ∀ id, Orderly (next (.ok id)) (some id) none)
      (herror : ∀ e id, Orderly (next (.error e)) (some id) none) : Orderly (.call .conversationId next) none none
  | waiting {next : Session → Program α} {id : String} (h : ∀ s, Orderly (next s) (some id) (some id)) :
      Orderly (.call (.lock id) next) (some id) none
  | working {c : Call} {next : c.Answer → Program α} {id : String} (hc : c.Inner)
      (h : ∀ r, Orderly (next r) (some id) (some id)) : Orderly (.call c next) (some id) (some id)
  | leaving {id : String} {s : Session} {next : Unit → Program α} (h : ∀ r, Orderly (next r) (some id) none) :
      Orderly (.call (.unlock id s) next) (some id) (some id)

namespace Program

variable {p : Program α} {asked held : Option String} {id : String}

theorem Orderly.map {β : Type} (g : α → β) (h : p.Orderly asked held) : (g <$> p).Orderly asked held := by
  induction h with
  | done a asked => exact .done (g a) asked
  | pausing _ ih => exact .pausing ih
  | asking _ _ hid herror => exact .asking hid herror
  | waiting _ ih => exact .waiting ih
  | working hc _ ih => exact .working hc ih
  | leaving _ ih => exact .leaving ih

theorem Orderly.answered {c : Call} {next : c.Answer → Program α} (h : Orderly (.call c next) asked held) (w : World) :
    Orderly (next (w.answer c).1) (c.askedAfter w.host.chat.id asked) (c.heldAfter held) := by
  cases h with
  | pausing h => exact h _
  | asking hid herror =>
    have hanswer : (w.answer .conversationId).1 = w.reply .conversationId (.ok w.host.chat.id) :=
      congrArg Prod.fst (HostProgram.exec_conversationId w)
    rw [hanswer, World.reply]
    split
    · exact herror _ _
    · exact hid _
  | waiting h => exact h _
  | working hc h =>
    rw [hc.askedAfter_eq, hc.heldAfter_eq]
    exact h _
  | leaving h => exact h _

theorem Orderly.held_eq {c : Call} {next : c.Answer → Program α} (h : Orderly (.call c next) asked held)
    (hc : c.Inner) : held = asked ∧ held.isSome := by
  obtain ⟨place?, hc⟩ := hc
  cases h with
  | working => exact ⟨rfl, rfl⟩
  | pausing | asking | waiting | leaving => exact hc.elim

theorem orderly_bind {β : Type} {Q : α → Prop} {f : α → Program β} (hp : p.All Call.Inner Q)
    (hf : ∀ a, (f a).Orderly (some id) (some id)) : (p >>= f).Orderly (some id) (some id) := by
  induction p with
  | done a => exact hf a
  | call c next ih => exact .working hp.1 fun r => ih r (hp.2 r)

theorem orderly_withSession {p : SessionProgram α} {Q : α → Prop} (hp : p.All Call.Inner Q) :
    Orderly (ExceptT.run (withSession p)) none none := by
  rw [HostProgram.run_withSession]
  refine .asking (fun id => ?_) fun e id => .done _ _
  exact .waiting fun s => orderly_bind (hp s) fun r => .leaving fun _ => .done _ _

end Program

theorem Operation.orderly (options : Options) (o : Operation) : (o.program options).Orderly none none := by
  obtain ⟨body, hbody, he | he⟩ := o.exists_body options
  · rw [program, he]
    exact (Program.orderly_withSession hbody.inner).map _
  · rw [program, he, HostProgram.run_bind_lift]
    exact Program.Orderly.pausing fun _ => (Program.orderly_withSession hbody.inner).map _

namespace Interleaving

/-- A handler under way: what is left of it, the chat that was open when it asked, and the chat whose session it holds. -/
structure Task where
  rest : Program Outcome
  asked : Option String
  held : Option String

def Task.next? (t : Task) : Option Call :=
  match t.rest with
  | .done _ => none
  | .call c _ => some c

/-- Handlers that run at once. -/
structure System where
  world : World
  tasks : List Task

inductive Step where
  /-- A handler makes its next call, unless it has to wait for a session. -/
  | advance (i : Nat)
  /-- Something is done to the host from outside, such as opening another chat. -/
  | change (f : Host → Host)

namespace System

def start (options : Options) (os : List Operation) (w : World) : System :=
  ⟨w, os.map fun o => ⟨o.program options, none, none⟩⟩

def opened (σ : System) : String := σ.world.host.chat.id

def held (σ : System) (i : Nat) : Option String := σ.tasks[i]?.bind (·.held)

def asked (σ : System) (i : Nat) : Option String := σ.tasks[i]?.bind (·.asked)

/-- The call that a handler makes next. -/
def next? (σ : System) (i : Nat) : Option Call := σ.tasks[i]?.bind Task.next?

/-- A session that is held has to be waited for. -/
def waits (σ : System) : Call → Bool
  | .lock id => σ.tasks.any fun t => t.held = some id
  | _ => false

/-- A handler makes a call. -/
def call (σ : System) (i : Nat) (t : Task) (c : Call) (next : c.Answer → Program Outcome) : System :=
  let (r, world) := σ.world.answer c
  ⟨world, σ.tasks.set i ⟨next r, c.askedAfter σ.opened t.asked, c.heldAfter t.held⟩⟩

def advance (σ : System) (i : Nat) (t : Task) : System :=
  match t.rest with
  | .done _ => σ
  | .call c next => if σ.waits c then σ else σ.call i t c next

def step (σ : System) : Step → System
  | .advance i => (σ.tasks[i]?).elim σ (σ.advance i)
  | .change f => { σ with world := { σ.world with host := f σ.world.host } }

def after (σ : System) (steps : List Step) : System := steps.foldl step σ

/-- The steps of a run, each with the system in which it is made. -/
def trace (σ : System) : List Step → List (System × Step)
  | [] => []
  | step :: steps => (σ, step) :: trace (σ.step step) steps

/-- A handler holds the session of the open chat, and no other handler does. -/
structure Owns (σ : System) (i : Nat) : Prop where
  held : σ.held i = some σ.opened
  alone : ∀ j, j ≠ i → σ.held j ≠ some σ.opened

/-- A step in which a handler makes a call with a session at hand. -/
def Works (σ : System) (s : Step) (i : Nat) : Prop := s = .advance i ∧ ∃ c, σ.next? i = some c ∧ c.Inner

/-- A step in which a handler changes the open chat. -/
def Writes (σ : System) (s : Step) (i : Nat) : Prop := s = .advance i ∧ ∃ c, σ.next? i = some c ∧ c.writes = true

/-- A handler has asked for the open chat and is not yet through. -/
def UnderWay (σ : System) (i : Nat) : Prop := (σ.asked i).isSome ∧ (σ.next? i).isSome

/-- The same chat stays open while a handler is under way. -/
def Calm (σ : System) (steps : List Step) : Prop :=
  ∀ τ f, (τ, .change f) ∈ σ.trace steps → (∃ i, τ.UnderWay i) → (f τ.world.host).chat.id = τ.opened

/-- The handlers keep to their sessions, and no session is held twice. -/
structure Orderly (σ : System) : Prop where
  tasks : ∀ t ∈ σ.tasks, t.rest.Orderly t.asked t.held
  exclusive : ∀ i j id, σ.held i = some id → σ.held j = some id → i = j

variable {σ τ : System} {i : Nat} {t : Task} {c : Call} {next : c.Answer → Program Outcome}

theorem orderly_start (options : Options) (os : List Operation) (w : World) : (start options os w).Orderly where
  tasks t ht := by
    obtain ⟨o, -, rfl⟩ := List.mem_map.mp ht
    exact o.orderly options
  exclusive i j id hi _ := by
    obtain ⟨t, ht, hheld⟩ := Option.bind_eq_some_iff.mp hi
    obtain ⟨o, -, rfl⟩ := List.mem_map.mp (List.mem_of_getElem? ht)
    exact absurd hheld (by simp)

theorem lt_of_getElem? (ht : σ.tasks[i]? = some t) : i < σ.tasks.length := (List.getElem?_eq_some_iff.mp ht).1

theorem bind_call (ht : σ.tasks[i]? = some t) (g : Task → Option β) (j : Nat) :
    (σ.call i t c next).tasks[j]?.bind g =
      if j = i then g ⟨next (σ.world.answer c).1, c.askedAfter σ.opened t.asked, c.heldAfter t.held⟩
      else σ.tasks[j]?.bind g := by
  by_cases hj : j = i
  · subst hj
    rw [if_pos rfl]
    exact congrArg (Option.bind · g) (List.getElem?_set_self (lt_of_getElem? ht))
  · rw [if_neg hj]
    exact congrArg (Option.bind · g) (List.getElem?_set_ne (Ne.symm hj))

theorem held_of_getElem? (ht : σ.tasks[i]? = some t) : σ.held i = t.held := by rw [held, ht, Option.bind_some]

/-- A session that is held after a call was held before, or nobody has held it. -/
theorem free_or_held {id : String} (hfree : σ.waits c = false) {held : Option String}
    (h : c.heldAfter held = some id) : (∀ j, σ.held j ≠ some id) ∨ held = some id := by
  cases c with
  | lock id' =>
    obtain rfl := Option.some.inj h
    refine Or.inl fun j hj => ?_
    obtain ⟨t, ht, hheld⟩ := Option.bind_eq_some_iff.mp hj
    have hwaits : σ.waits (.lock id') = true :=
      List.any_eq_true.mpr ⟨t, List.mem_of_getElem? ht, decide_eq_true hheld⟩
    exact absurd (hfree.symm.trans hwaits) (by simp)
  | unlock => exact absurd h (by simp [Call.heldAfter])
  | _ => exact Or.inr h

theorem orderly_call (h : σ.Orderly) (ht : σ.tasks[i]? = some t) (hrest : t.rest = .call c next)
    (hfree : σ.waits c = false) : (σ.call i t c next).Orderly where
  tasks u hu := by
    rcases List.mem_or_eq_of_mem_set hu with hu | rfl
    · exact h.tasks u hu
    · have ho := h.tasks t (List.mem_of_getElem? ht)
      rw [hrest] at ho
      exact ho.answered σ.world
  exclusive j k id hj hk := by
    have hother (l : Nat) (hnew : c.heldAfter t.held = some id) (hl : σ.held l = some id) : l = i := by
      rcases free_or_held hfree hnew with hnobody | hheld
      · exact absurd hl (hnobody l)
      · exact h.exclusive l i id hl ((held_of_getElem? ht).trans hheld)
    rw [held, bind_call ht] at hj hk
    split at hj <;> split at hk
    · next hji hki => rw [hji, hki]
    · next hji _ => rw [hji, hother k hj hk]
    · next _ hki => rw [hki, hother j hk hj]
    · exact h.exclusive j k id hj hk

/-- A handler that is alone and left in peace does what running it does. -/
theorem exists_after_alone (p : Program Outcome) {asked held : Option String} (h : p.Orderly asked held) (w : World) :
    ∃ n asked' held', System.after ⟨w, [⟨p, asked, held⟩]⟩ (List.replicate n (.advance 0)) =
      ⟨(p.run w).2, [⟨.done (p.run w).1, asked', held'⟩]⟩ := by
  induction p generalizing asked held w with
  | done a => exact ⟨0, asked, held, rfl⟩
  | call c next ih =>
    have hfree : System.waits ⟨w, [⟨.call c next, asked, held⟩]⟩ c = false := by
      cases h with
      | waiting => simp [waits]
      | working hc => obtain ⟨place?, hc⟩ := hc; cases c <;> first | rfl | exact hc.elim
      | _ => rfl
    obtain ⟨n, asked', held', hrun⟩ := ih (w.answer c).1 (h.answered w) (w.answer c).2
    refine ⟨n + 1, asked', held', ?_⟩
    rw [List.replicate_succ, after, List.foldl_cons]
    simp only [step, List.getElem?_cons_zero, Option.elim_some, advance, hfree]
    exact hrun

theorem orderly_step (h : σ.Orderly) (s : Step) : (σ.step s).Orderly := by
  cases s with
  | change f => exact ⟨h.tasks, h.exclusive⟩
  | advance i =>
    rw [step]
    cases ht : σ.tasks[i]? with
    | none => exact h
    | some t =>
      rw [Option.elim_some, advance]
      split
      · exact h
      · next c next hrest =>
        split
        · exact h
        · next hfree => exact orderly_call h ht hrest (Bool.eq_false_iff.mpr hfree)

theorem orderly_trace (h : σ.Orderly) (steps : List Step) {s : Step} (hτ : (τ, s) ∈ σ.trace steps) : τ.Orderly := by
  induction steps generalizing σ with
  | nil => exact absurd hτ List.not_mem_nil
  | cons first steps ih =>
    rcases List.mem_cons.mp hτ with he | hτ
    · rw [(Prod.mk.inj he).1]
      exact h
    · exact ih (orderly_step h first) hτ

/-- A handler that has a session at hand holds the session of the chat for which it has asked. -/
theorem Orderly.held_eq_asked (h : σ.Orderly) (hnext : σ.next? i = some c) (hc : c.Inner) :
    σ.held i = σ.asked i ∧ (σ.held i).isSome := by
  obtain ⟨t, ht, hcall⟩ := Option.bind_eq_some_iff.mp hnext
  have ho := h.tasks t (List.mem_of_getElem? ht)
  rw [held, asked, ht, Option.bind_some, Option.bind_some]
  unfold Task.next? at hcall
  split at hcall
  · exact absurd hcall (by simp)
  · next c' next hrest =>
    obtain rfl := Option.some.inj hcall
    rw [hrest] at ho
    exact ho.held_eq hc

theorem Orderly.owns_iff (h : σ.Orderly) (hnext : σ.next? i = some c) (hc : c.Inner) :
    σ.Owns i ↔ σ.asked i = some σ.opened := by
  obtain ⟨heq, -⟩ := h.held_eq_asked hnext hc
  rw [← heq]
  exact ⟨fun ho => ho.held, fun hheld => ⟨hheld, fun j hj hother => hj (h.exclusive j i _ hother hheld)⟩⟩

/-- The chat that is open is the one for which all handlers under way have asked. -/
def Settled (σ : System) : Prop := ∀ i, σ.UnderWay i → σ.asked i = some σ.opened

theorem settled_start (options : Options) (os : List Operation) (w : World) : (start options os w).Settled := by
  rintro i ⟨hasked, -⟩
  obtain ⟨id, hid⟩ := Option.isSome_iff_exists.mp hasked
  obtain ⟨t, ht, he⟩ := Option.bind_eq_some_iff.mp hid
  obtain ⟨o, -, rfl⟩ := List.mem_map.mp (List.mem_of_getElem? ht)
  exact absurd he (by simp)

theorem settled_call (h : σ.Settled) (ht : σ.tasks[i]? = some t) (hrest : t.rest = .call c next) :
    (σ.call i t c next).Settled := by
  have hopened : (σ.call i t c next).opened = σ.opened := HostProgram.id_answer c σ.world
  rintro j ⟨hasked, hnext⟩
  rw [asked, bind_call ht] at hasked ⊢
  rw [hopened]
  by_cases hj : j = i
  · rw [if_pos hj] at hasked ⊢
    have hunder (he : c.askedAfter σ.opened t.asked = t.asked) : c.askedAfter σ.opened t.asked = some σ.opened := by
      have haskedi : σ.asked i = t.asked := by rw [asked, ht, Option.bind_some]
      rw [he] at hasked ⊢
      rw [← haskedi] at hasked ⊢
      exact h i ⟨hasked, by rw [next?, ht, Option.bind_some, Task.next?, hrest]; rfl⟩
    cases c with
    | conversationId => rfl
    | _ => exact hunder rfl
  · rw [if_neg hj] at hasked ⊢
    rw [next?, bind_call ht, if_neg hj] at hnext
    exact h j ⟨hasked, hnext⟩

theorem settled_step (h : σ.Settled) {s : Step}
    (hcalm : ∀ f, s = .change f → (∃ i, σ.UnderWay i) → (f σ.world.host).chat.id = σ.opened) : (σ.step s).Settled := by
  cases s with
  | change f =>
    intro i hi
    have hopened : (σ.step (.change f)).opened = σ.opened := hcalm f rfl ⟨i, hi⟩
    rw [hopened]
    exact h i hi
  | advance i =>
    rw [step]
    cases ht : σ.tasks[i]? with
    | none => exact h
    | some t =>
      rw [Option.elim_some, advance]
      split
      · exact h
      · next c next hrest =>
        split
        · exact h
        · exact settled_call h ht hrest

theorem settled_trace (h : σ.Settled) (steps : List Step) (hcalm : σ.Calm steps) {s : Step}
    (hτ : (τ, s) ∈ σ.trace steps) : τ.Settled := by
  induction steps generalizing σ with
  | nil => exact absurd hτ List.not_mem_nil
  | cons first steps ih =>
    rcases List.mem_cons.mp hτ with he | hτ
    · rw [(Prod.mk.inj he).1]
      exact h
    · have hfirst := settled_step h fun f hf => hcalm σ f (by rw [← hf]; exact List.mem_cons_self)
      exact ih hfirst (fun τ f hmem => hcalm τ f (List.mem_cons_of_mem _ hmem)) hτ

/-- However the calls of handlers that run at once follow each other, and whatever is done to the host in between:
no two handlers hold one session, and a handler makes its calls with the session of the chat that was open when it
asked. So all that is written goes to the chats whose sessions are held, each by its one holder, exactly if at every
write the chat is open for which the handler has asked. That is so if no other chat is opened while a handler is
under way, and then the same holds for all that is read. -/
theorem writes_owned_iff (options : Options) (os : List Operation) (w : World) (steps : List Step) :
    (∀ τ s, (τ, s) ∈ (start options os w).trace steps →
      (∀ i j id, τ.held i = some id → τ.held j = some id → i = j) ∧
        ∀ i, τ.Works s i → τ.held i = τ.asked i ∧ (τ.held i).isSome) ∧
      ((∀ τ s i, (τ, s) ∈ (start options os w).trace steps → τ.Writes s i → τ.Owns i) ↔
        ∀ τ s i, (τ, s) ∈ (start options os w).trace steps → τ.Writes s i → τ.asked i = some τ.opened) ∧
      ((start options os w).Calm steps →
        ∀ τ s i, (τ, s) ∈ (start options os w).trace steps → τ.Works s i → τ.Owns i) := by
  have horderly {τ : System} {s : Step} (hτ : (τ, s) ∈ (start options os w).trace steps) : τ.Orderly :=
    orderly_trace (orderly_start options os w) steps hτ
  refine ⟨fun τ s hτ => ⟨(horderly hτ).exclusive, ?_⟩, ?_, ?_⟩
  · rintro i ⟨-, c, hnext, hc⟩
    exact (horderly hτ).held_eq_asked hnext hc
  · refine forall₄_congr fun τ s i hτ => forall_congr' ?_
    rintro ⟨-, c, hnext, hc⟩
    exact (horderly hτ).owns_iff hnext (Call.inner_of_writes hc)
  · rintro hcalm τ s i hτ ⟨-, c, hnext, hc⟩
    obtain ⟨heq, hsome⟩ := (horderly hτ).held_eq_asked hnext hc
    have hunder : τ.UnderWay i := ⟨by rwa [← heq], by rw [hnext]; rfl⟩
    exact ((horderly hτ).owns_iff hnext hc).mpr (settled_trace (settled_start options os w) steps hcalm hτ i hunder)

theorem trace_append (σ : System) (before later : List Step) :
    σ.trace (before ++ later) = σ.trace before ++ (σ.after before).trace later := by
  induction before generalizing σ with
  | nil => rfl
  | cons first before ih => exact congrArg ((σ, first) :: ·) (ih (σ.step first))

theorem mem_trace (σ : System) (before : List Step) (s : Step) (later : List Step) :
    (σ.after before, s) ∈ σ.trace (before ++ s :: later) := by
  rw [trace_append]
  exact List.mem_append_right _ List.mem_cons_self

theorem mem_of_mem_trace {steps : List Step} {s : Step} (h : (τ, s) ∈ σ.trace steps) : s ∈ steps := by
  induction steps generalizing σ with
  | nil => exact absurd h List.not_mem_nil
  | cons first steps ih =>
    rcases List.mem_cons.mp h with he | h
    · rw [(Prod.mk.inj he).2]
      exact List.mem_cons_self
    · exact List.mem_cons_of_mem _ (ih h)

theorem calm_of_no_change {steps : List Step} (h : ∀ f, Step.change f ∉ steps) : σ.Calm steps :=
  fun _ f hτ => absurd (mem_of_mem_trace hτ) (h f)

theorem Calm.append {before later : List Step} (h : σ.Calm before) (h' : (σ.after before).Calm later) :
    σ.Calm (before ++ later) := by
  intro τ f hτ
  rw [trace_append] at hτ
  exact (List.mem_append.mp hτ).elim (h τ f) (h' τ f)

/-- Anything may be done to the host while no handler is under way. -/
theorem Calm.change {f : Host → Host} {later : List Step} (hidle : ∀ i, ¬σ.UnderWay i)
    (h : (σ.step (.change f)).Calm later) : σ.Calm (.change f :: later) := by
  intro τ g hτ hunder
  rcases List.mem_cons.mp hτ with he | hτ
  · obtain ⟨i, hi⟩ := hunder
    exact absurd ((Prod.mk.inj he).1 ▸ hi) (hidle i)
  · exact h τ g hτ hunder

theorem not_underWay_of_all (h : σ.tasks.all (fun t => t.asked.isNone || t.next?.isNone) = true) (i : Nat) :
    ¬σ.UnderWay i := by
  rintro ⟨hasked, hnext⟩
  rw [asked, next?] at *
  cases ht : σ.tasks[i]? with
  | none => exact absurd hasked (by simp [ht])
  | some t =>
    rw [ht, Option.bind_some] at hasked hnext
    have hidle := List.all_eq_true.mp h t (List.mem_of_getElem? ht)
    simp [Option.isSome_iff_ne_none.mp hasked, Option.isSome_iff_ne_none.mp hnext] at hidle

theorem Writes.works {s : Step} (h : σ.Writes s i) : σ.Works s i := by
  obtain ⟨hs, c, hnext, hc⟩ := h
  exact ⟨hs, c, hnext, Call.inner_of_writes hc⟩

theorem writes_of_any (h : (σ.next? i).any Call.writes = true) : σ.Writes (.advance i) i := by
  obtain ⟨c, hnext, hc⟩ := (Option.any_eq_true _ _).mp h
  exact ⟨rfl, c, hnext, hc⟩

def tavern : World := ⟨.inMemory ⟨"tavern", [.plain 0 .assistant "A coin. <ADD :: gold :: 5>"], .obj []⟩, ⟨0, 0⟩, []⟩

def meadow : Transcript := ⟨"meadow", [.plain 0 .assistant "They rest."], .obj []⟩

/-- Two generations end. The tavern is open when the first handler starts. -/
def guests : System := start Controller.campOptions [.event .generationEnded, .event .generationEnded] tavern

/-- A handler goes on until it is about to write the store. -/
def upToStore (i : Nat) : List Step := List.replicate 7 (.advance i)

/-- The first handler goes on to its end, the meadow is opened, and the second handler is about to write the store. -/
def inTurn : List Step :=
  upToStore 0 ++ List.replicate 3 (.advance 0) ++ .change (fun h => (h.switchTo meadow).2) :: upToStore 1

theorem calm_inTurn : guests.Calm (inTurn ++ [.advance 1]) := by
  have hfirst : guests.Calm (upToStore 0 ++ List.replicate 3 (.advance 0)) :=
    calm_of_no_change (by simp [upToStore])
  have hidle : ∀ i, ¬(guests.after (upToStore 0 ++ List.replicate 3 (.advance 0))).UnderWay i :=
    not_underWay_of_all (by decide +kernel)
  rw [inTurn, List.append_assoc]
  exact hfirst.append (.change hidle (calm_of_no_change (by simp [upToStore])))

/-- Both handlers write the chats that are theirs. -/
theorem writes_owned_tavern : guests.Calm (inTurn ++ [.advance 1]) ∧
    (guests.after (upToStore 0)).opened = "tavern" ∧ (guests.after (upToStore 0)).Writes (.advance 0) 0 ∧
    (guests.after (upToStore 0)).Owns 0 ∧ (guests.after inTurn).opened = "meadow" ∧
    (guests.after inTurn).Writes (.advance 1) 1 ∧ (guests.after inTurn).Owns 1 := by
  have hwrites : (guests.after (upToStore 0)).Writes (.advance 0) 0 := writes_of_any (by decide +kernel)
  have hwrites' : (guests.after inTurn).Writes (.advance 1) 1 := writes_of_any (by decide +kernel)
  obtain ⟨-, -, howns⟩ := writes_owned_iff Controller.campOptions [.event .generationEnded, .event .generationEnded]
    tavern (inTurn ++ [.advance 1])
  exact ⟨calm_inTurn, by decide +kernel, hwrites,
    howns calm_inTurn _ _ _ (mem_trace guests (upToStore 0) (.advance 0) _) hwrites.works, by decide +kernel, hwrites',
    howns calm_inTurn _ _ _ (mem_trace guests inTurn (.advance 1) []) hwrites'.works⟩

/-- Both handlers go on until the second one has written the store, and the first one is about to. -/
def moveOn : List Step :=
  upToStore 0 ++ .change (fun h => (h.switchTo meadow).2) :: upToStore 1 ++ [.advance 1]

def partWays : List Step := [.advance 0, .advance 1, .advance 1, .advance 0, .advance 0]

/-- A handler that holds the session of the tavern writes the meadow while another one is writing it. The coins of the
tavern are in the store of the meadow then, and its message is lost. -/
theorem writes_unowned_meadow :
    (guests.after moveOn, .advance 0) ∈ guests.trace (moveOn ++ partWays) ∧
      (guests.after moveOn).Writes (.advance 0) 0 ∧ (guests.after moveOn).Writes (.advance 1) 1 ∧
      (guests.after moveOn).opened = "meadow" ∧ (guests.after moveOn).held 0 = some "tavern" ∧
      (guests.after moveOn).held 1 = some "meadow" ∧ ¬(guests.after moveOn).Owns 0 ∧
      (guests.after (moveOn ++ partWays)).opened = "meadow" ∧
      State.ofStored? (guests.after (moveOn ++ partWays)).world.host.chat.store =
        some ⟨[("gold", .num (.int 5))], [], []⟩ ∧
      ((guests.after (moveOn ++ partWays)).world.host.chat.messages[0]?.bind fun m => Block.parse? m.activeText) =
        some ⟨[("gold", .num (.int 5))], [], []⟩ := by
  refine ⟨mem_trace guests moveOn (.advance 0) _, writes_of_any (by decide +kernel), writes_of_any (by decide +kernel),
    by decide +kernel, by decide +kernel, by decide +kernel, fun h => absurd h.held (by decide +kernel),
    by decide +kernel, ?_, ?_⟩
  · exact State.eq_some_of_any_holdsOnly (by decide +kernel)
  · exact State.eq_some_of_any_holdsOnly (by decide +kernel)

end System

end Interleaving

end Chronicle
