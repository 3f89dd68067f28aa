import Chronicle.Proofs.Faults
import Chronicle.Proofs.ProgramShapes

/-!
# What the controller touches

Whatever the controller is asked to do with a chat, and whichever calls of the host fail meanwhile, it writes the text
of one message at most, and never one of the user's. All else in the messages stays as it is.
-/

namespace Chronicle

/-- What may come of a call. Besides being served, a call of the host may fail with any error, either before it has done
anything or after it. -/
def World.MayAnswer (w : World) (c : Call) (r : c.Answer) (w' : World) : Prop :=
  (r, w') = w.answer c ∨
    ∃ k fail e, c.failing? = some (k, fail) ∧ r = fail e ∧ (w' = w ∨ w' = (w.answer c).2)

/-- A run of a program in which calls of the host may fail. -/
inductive Program.Runs : Program α → World → α → World → Prop
  | done (a : α) (w : World) : Runs (.done a) w a w
  | call {c : Call} {next : c.Answer → Program α} {w w' w'' : World} {r : c.Answer} {a : α}
      (hcall : w.MayAnswer c r w') (hrest : Runs (next r) w' a w'') : Runs (.call c next) w a w''

namespace Program

theorem runs_run (p : Program α) (w : World) : p.Runs w (p.run w).1 (p.run w).2 := by
  induction p generalizing w with
  | done a => exact .done a w
  | call c next ih => exact .call (.inl rfl) (ih _ _)

theorem exists_of_runs_call {c : Call} {next : c.Answer → Program α} {w w'' : World} {a : α}
    (h : (Program.call c next).Runs w a w'') : ∃ r w', w.MayAnswer c r w' ∧ (next r).Runs w' a w'' := by
  obtain _ | ⟨hcall, hrest⟩ := h
  exact ⟨_, _, hcall, hrest⟩

theorem exists_of_runs_bind {p : Program α} {f : α → Program β} {w w'' : World} {b : β}
    (h : (p >>= f).Runs w b w'') : ∃ a w', p.Runs w a w' ∧ (f a).Runs w' b w'' := by
  induction p generalizing w with
  | done a => exact ⟨a, w, .done a w, h⟩
  | call c next ih =>
    obtain ⟨r, w₁, hcall, hrest⟩ := exists_of_runs_call h
    obtain ⟨a, w', hfirst, hsecond⟩ := ih r hrest
    exact ⟨a, w', .call hcall hfirst, hsecond⟩

end Program

/-- A message whose text may have been written anew, unless it is the user's. Its other swipes are as they were. -/
structure Message.Reworded (m m' : Message) : Prop where
  id : m'.id = m.id
  role : m'.role = m.role
  swipeId : m'.swipeId = m.swipeId
  count : m'.swipes.length = m.swipes.length
  swipes : ∀ k, k ≠ m.activeIndex → m'.swipes[k]? = m.swipes[k]?
  user : m.isUser = true → m' = m

namespace Message

variable {m m' m'' : Message}

theorem Reworded.refl (m : Message) : m.Reworded m := ⟨rfl, rfl, rfl, rfl, fun _ _ => rfl, fun _ => rfl⟩

theorem Reworded.isUser_eq (h : m.Reworded m') : m'.isUser = m.isUser := by rw [isUser, isUser, h.role]

theorem Reworded.trans (h : m.Reworded m') (h' : m'.Reworded m'') : m.Reworded m'' where
  id := h'.id.trans h.id
  role := h'.role.trans h.role
  swipeId := h'.swipeId.trans h.swipeId
  count := h'.count.trans h.count
  swipes k hk := (h'.swipes k (by rwa [activeIndex, h.swipeId])).trans (h.swipes k hk)
  user hu := (h'.user (h.isUser_eq.trans hu)).trans (h.user hu)

theorem reworded_setText (hu : m.isUser = false) (text : String) : m.Reworded (m.setText text) where
  id := rfl
  role := rfl
  swipeId := rfl
  count := List.length_set
  swipes k hk := List.getElem?_set_ne hk.symm
  user h := absurd h (by simp [hu])

end Message

/-- A chat in which only texts of messages that are not the user's have been written anew. -/
structure Transcript.Reworded (c c' : Transcript) : Prop where
  id : c'.id = c.id
  length : c'.messages.length = c.messages.length
  message : ∀ (k : Nat) (m : Message), c.messages[k]? = some m → ∃ m', c'.messages[k]? = some m' ∧ m.Reworded m'

/-- Only the message at a place has been written anew, or none. -/
structure Transcript.RewordedAt (place? : Option Nat) (c c' : Transcript) : Prop extends c.Reworded c' where
  others : ∀ k : Nat, place? ≠ some k → c'.messages[k]? = c.messages[k]?

namespace Transcript

variable {place? : Option Nat} {c c' c'' : Transcript}

theorem Reworded.trans (h : c.Reworded c') (h' : c'.Reworded c'') : c.Reworded c'' where
  id := h'.id.trans h.id
  length := h'.length.trans h.length
  message k m hm := by
    obtain ⟨m', hm', hr⟩ := h.message k m hm
    obtain ⟨m'', hm'', hr'⟩ := h'.message k m' hm'
    exact ⟨m'', hm'', hr.trans hr'⟩

theorem reworded_of_messages_eq (hid : c'.id = c.id) (hm : c'.messages = c.messages) : c.Reworded c' :=
  ⟨hid, by rw [hm], fun k m h => ⟨m, by rw [hm, h], .refl m⟩⟩

theorem rewordedAt_of_messages_eq (hid : c'.id = c.id) (hm : c'.messages = c.messages) : c.RewordedAt place? c' :=
  ⟨reworded_of_messages_eq hid hm, fun k _ => by rw [hm]⟩

theorem RewordedAt.trans (h : c.RewordedAt place? c') (h' : c'.RewordedAt place? c'') : c.RewordedAt place? c'' :=
  ⟨h.toReworded.trans h'.toReworded, fun k hk => (h'.others k hk).trans (h.others k hk)⟩

theorem RewordedAt.messages_eq (h : c.RewordedAt none c') : c'.messages = c.messages :=
  List.ext_getElem? fun k => h.others k (by simp)

theorem RewordedAt.of_none (h : c.RewordedAt none c') : c.RewordedAt place? c' :=
  rewordedAt_of_messages_eq h.id h.messages_eq

theorem rewordedAt_set {i : Nat} {m : Message} (hm : c.messages[i]? = some m) (hu : m.isUser = false) (text : String) :
    c.RewordedAt (some i) { c with messages := c.messages.set i (m.setText text) } where
  id := rfl
  length := List.length_set
  message k m' hk := by
    by_cases hki : i = k
    · subst hki
      obtain rfl := Option.some.inj (hm.symm.trans hk)
      exact ⟨_, List.getElem?_set_self (length_of_getElem? hm), Message.reworded_setText hu text⟩
    · exact ⟨m', (List.getElem?_set_ne hki).trans hk, .refl m'⟩
  others k hk := List.getElem?_set_ne fun h => hk (congrArg some h)

/-- There is no message of the user's at the place. -/
def NotUser (c : Transcript) (place? : Option Nat) : Prop :=
  ∀ (i : Nat) (m : Message), place? = some i → c.messages[i]? = some m → m.isUser = false

theorem Reworded.notUser (h : c.Reworded c') (hu : c.NotUser place?) : c'.NotUser place? := by
  intro i m hi hm
  have hlt : i < c.messages.length := h.length ▸ length_of_getElem? hm
  obtain ⟨m', hm', hr⟩ := h.message i _ (List.getElem?_eq_getElem hlt)
  obtain rfl := Option.some.inj (hm.symm.trans hm')
  rw [hr.isUser_eq]
  exact hu i _ hi (List.getElem?_eq_getElem hlt)

end Transcript

namespace World

variable {place? : Option Nat} {w w' : World} {c : Call} {r : c.Answer}

theorem rewordedAt_answer (hc : ∀ i text, c = .setMessage i text → place? = some i) (hu : w.host.chat.NotUser place?) :
    w.host.chat.RewordedAt place? (w.answer c).2.host.chat := by
  rcases HostProgram.chat_answer c w with h | ⟨v, -, h⟩ | ⟨i, text, m, he, hm, h⟩
  · rw [h]
    exact Transcript.rewordedAt_of_messages_eq rfl rfl
  · rw [h]
    exact Transcript.rewordedAt_of_messages_eq rfl rfl
  · obtain rfl := hc i text he
    rw [h]
    exact Transcript.rewordedAt_set hm (hu i m rfl hm) text

theorem MayAnswer.rewordedAt (h : w.MayAnswer c r w') (hc : ∀ i text, c = .setMessage i text → place? = some i)
    (hu : w.host.chat.NotUser place?) : w.host.chat.RewordedAt place? w'.host.chat := by
  have hdone := rewordedAt_answer hc hu
  rcases h with h | ⟨-, -, -, -, -, rfl | rfl⟩
  · rwa [← h] at hdone
  · exact Transcript.rewordedAt_of_messages_eq rfl rfl
  · exact hdone

/-- A call that writes no message leaves all of them as they are, however it is answered. -/
theorem MayAnswer.unchanged (h : w.MayAnswer c r w') (hc : ∀ i text, c ≠ .setMessage i text) :
    w.host.chat.RewordedAt none w'.host.chat :=
  h.rewordedAt (fun i text he => absurd he (hc i text)) fun _ _ hi => nomatch hi

/-- A message that is read is the one in the chat. -/
theorem MayAnswer.message {i : Nat} {m : Message} (h : w.MayAnswer (.message i) (.ok m) w') :
    w.host.chat.messages[i]? = some m := by
  rcases h with h | ⟨k, fail, e, hf, hr, -⟩
  · have hread : (.ok m, w') = (HostProgram.message i).exec w := h
    rw [HostProgram.exec_message] at hread
    exact HostProgram.message_eq_ok_iff.mp (ok_of_reply (Prod.mk.inj hread).1.symm).1
  · obtain ⟨-, rfl⟩ := Prod.mk.inj (Option.some.inj hf)
    exact absurd hr (by simp)

end World

theorem Program.Runs.rewordedAt {p : Program α} {place? : Option Nat} {Q : α → Prop} {w w' : World} {a : α}
    (h : p.Runs w a w') (hp : p.All (Call.Within place?) Q) (hu : w.host.chat.NotUser place?) :
    Q a ∧ w.host.chat.RewordedAt place? w'.host.chat := by
  induction h with
  | done => exact ⟨hp, Transcript.rewordedAt_of_messages_eq rfl rfl⟩
  | call hcall hrest ih =>
    obtain ⟨hc, hnext⟩ := hp
    have hstep := hcall.rewordedAt (fun i text he => by rw [he] at hc; exact hc) hu
    obtain ⟨hq, hrun⟩ := ih (hnext _) (hstep.notUser hu)
    exact ⟨hq, hstep.trans hrun⟩

/-- What an operation comes to tells which message it has written: the one that it has processed, and none unless it
has failed. -/
structure Accounted (c : Transcript) (outcome : Outcome) (c' : Transcript) (place? : Option Nat) : Prop where
  chat : c.RewordedAt place? c'
  processed : ∀ i report, outcome = .processed i report → place? = some i
  told : ∀ i, place? = some i → (∃ report, outcome = .processed i report) ∨ ∃ e, outcome = .failed e

theorem Accounted.between {c c₁ c₂ c₃ : Transcript} {outcome : Outcome} {place? : Option Nat}
    (h : Accounted c₁ outcome c₂ place?) (hbefore : c.RewordedAt none c₁) (hafter : c₂.RewordedAt none c₃) :
    Accounted c outcome c₃ place? :=
  ⟨(hbefore.of_none.trans h.chat).trans hafter.of_none, h.processed, h.told⟩

theorem accounted_failed {c c' : Transcript} (h : c.RewordedAt none c') (e : HostError) :
    Accounted c (.failed e) c' none :=
  ⟨h, fun _ _ hp => absurd hp (by simp), fun _ hi => absurd hi (by simp)⟩

namespace SessionProgram

variable {known : List Message → Prop} {p : SessionProgram α} {f : α → SessionProgram Outcome}

/-- The program writes no message, and what is known of the messages tells something of its result. -/
def Learns (known : List Message → Prop) (p : SessionProgram α) (learnt : α → List Message → Prop) : Prop :=
  ∀ s w r w', known w.host.chat.messages → Program.Runs (StateT.run (ExceptT.run p) s) w r w' →
    w.host.chat.RewordedAt none w'.host.chat ∧ ∀ a, r.1 = .ok a → learnt a w.host.chat.messages

/-- The outcome of the program tells which message it has written, if this is known of the messages before. -/
def Accounts (known : List Message → Prop) (p : SessionProgram Outcome) : Prop :=
  ∀ s w r w', known w.host.chat.messages → Program.Runs (StateT.run (ExceptT.run p) s) w r w' →
    ∃ place?, Accounted w.host.chat (Outcome.ofResult r.1) w'.host.chat place?

theorem Accounts.of_imp {p : SessionProgram Outcome} {known' : List Message → Prop} (h : p.Accounts known)
    (hk : ∀ l, known' l → known l) : p.Accounts known' := fun s w r w' hknown => h s w r w' (hk _ hknown)

theorem notUser_none (c : Transcript) : c.NotUser none := fun _ _ hi => nomatch hi

theorem learns_of_all {Q : α → Prop} (hp : p.All (Call.Within none) Q) : p.Learns known fun _ => known := by
  intro s w r w' hk hrun
  exact ⟨(hrun.rewordedAt (hp s) (notUser_none _)).2, fun _ _ => hk⟩

theorem learns_message (i : Nat) : Learns known (liftM (HostProgram.message i)) fun m l => l[i]? = some m := by
  intro s w r w' _ hrun
  obtain ⟨_, _, hcall, ⟨⟩⟩ := Program.exists_of_runs_call hrun
  refine ⟨hcall.unchanged (by simp), fun m hm => ?_⟩
  obtain rfl := hm
  exact hcall.message

theorem accounts_bind {learnt : α → List Message → Prop} (hp : p.Learns known learnt)
    (hf : ∀ a, Accounts (learnt a) (f a)) : Accounts known (p >>= f) := by
  intro s w r w'' hk hrun
  rw [ExceptT.run_bind, StateT.run_bind] at hrun
  obtain ⟨⟨r₁, s'⟩, w', hfirst, hrest⟩ := Program.exists_of_runs_bind hrun
  obtain ⟨hsame, hlearnt⟩ := hp s w _ w' hk hfirst
  cases r₁ with
  | error e =>
    obtain ⟨⟩ := hrest
    exact ⟨none, accounted_failed hsame e⟩
  | ok a =>
    have hknown : learnt a w'.host.chat.messages := hsame.messages_eq ▸ hlearnt a rfl
    obtain ⟨place?, h⟩ := hf a s' w' r w'' hknown hrest
    exact ⟨place?, h.between hsame (Transcript.rewordedAt_of_messages_eq rfl rfl)⟩

theorem accounts_of_all {p : SessionProgram Outcome} {Q : Outcome → Prop} (hp : p.All (Call.Within none) Q)
    (hQ : ∀ i report, ¬Q (.processed i report)) : Accounts known p := by
  intro s w r w' _ hrun
  obtain ⟨hq, hsame⟩ := hrun.rewordedAt (hp s) (notUser_none _)
  exact ⟨none, hsame, fun i report h => absurd (hq _ (Outcome.eq_ok_of_ofResult h)) (hQ i report),
    fun _ hi => absurd hi (by simp)⟩

end SessionProgram

/-- The outcome of the program tells which message it has written. -/
def HostProgram.Accounts (q : HostProgram Outcome) : Prop :=
  ∀ w r w', Program.Runs (ExceptT.run q) w r w' →
    ∃ place?, Accounted w.host.chat (Outcome.ofResult r) w'.host.chat place?

namespace Controller
open SessionProgram HostProgram

variable {known : List Message → Prop}

theorem accounts_process (options : Options) (i : Nat) (m : Message) :
    SessionProgram.Accounts (fun l => l[i]? = some m) (process options i m) := by
  cases hu : m.isUser with
  | true => exact accounts_of_all (all_process_user options i hu) fun _ _ => by simp
  | false =>
    intro s w r w' hm hrun
    have hnot : w.host.chat.NotUser (some i) := by
      intro j m' hj hm'
      obtain rfl := Option.some.inj hj
      rwa [← Option.some.inj (hm.symm.trans hm')]
    obtain ⟨hq, hchat⟩ := hrun.rewordedAt (all_process options i hu s) hnot
    refine ⟨some i, hchat, ?_, ?_⟩
    · intro j report hj
      obtain ⟨report', h⟩ := hq _ (Outcome.eq_ok_of_ofResult hj)
      exact congrArg some (Outcome.processed.inj h).1.symm
    · intro j hj
      obtain rfl := Option.some.inj hj
      obtain ⟨r, s'⟩ := r
      cases r with
      | ok outcome => exact Or.inl (hq outcome rfl)
      | error e => exact Or.inr ⟨e, rfl⟩

theorem learns_messageAt? (i : Nat) :
    Learns known (messageAt? i) fun m? l => known l ∧ ∀ m, m? = some m → l[i]? = some m := by
  intro s w r w' hk hrun
  rw [run_messageAt?] at hrun
  obtain ⟨answer, _, hcall, hrest⟩ := Program.exists_of_runs_call hrun
  have hsame := hcall.unchanged (by simp)
  cases answer with
  | ok m =>
    obtain ⟨⟩ := hrest
    refine ⟨hsame, fun m? hm => ⟨hk, fun m' hr => ?_⟩⟩
    obtain rfl := Option.some.inj ((Except.ok.inj hm).trans hr)
    exact hcall.message
  | error e =>
    cases e with
    | messageOutOfRange =>
      obtain ⟨⟩ := hrest
      refine ⟨hsame, fun m? hm => ⟨hk, fun m hr => ?_⟩⟩
      exact absurd ((Except.ok.inj hm).trans hr) (by simp)
    | _ =>
      obtain ⟨⟩ := hrest
      exact ⟨hsame, fun m? hm => absurd hm (by simp)⟩

theorem accounts_withSession {p : SessionProgram Outcome} (hp : SessionProgram.Accounts (fun _ => True) p) :
    HostProgram.Accounts (withSession p) := by
  intro w r w' hrun
  rw [run_withSession] at hrun
  obtain ⟨asked, _, hasked, hrun⟩ := Program.exists_of_runs_call hrun
  have hbefore := hasked.unchanged (by simp)
  cases asked with
  | ok id =>
    obtain ⟨_, _, hlock, hheld⟩ := Program.exists_of_runs_call hrun
    obtain ⟨_, _, hwork, hend⟩ := Program.exists_of_runs_bind hheld
    obtain ⟨_, _, hunlock, ⟨⟩⟩ := Program.exists_of_runs_call hend
    obtain ⟨place?, h⟩ := hp _ _ _ _ trivial hwork
    exact ⟨place?, h.between (hbefore.trans (hlock.unchanged (by simp))) (hunlock.unchanged (by simp))⟩
  | error e =>
    obtain ⟨⟩ := hrun
    exact ⟨none, accounted_failed hbefore e⟩

theorem Body.accounts {options : Options} {p : SessionProgram Outcome} (h : Body options known p) :
    SessionProgram.Accounts known p := by
  induction h with
  | ends hp hQ => exact accounts_of_all hp hQ
  | quiet hp _ ih => exact accounts_bind (learns_of_all hp) ih
  | reads i _ ih => exact accounts_bind (learns_message i) ih
  | looksFor i _ _ hsome hnone =>
    refine accounts_bind (learns_messageAt? i) fun m? => ?_
    cases m? with
    | none => exact hnone.of_imp fun _ h => h.1
    | some m => exact (hsome m).of_imp fun _ h => h.2 m rfl
  | processes => exact accounts_process options _ _

theorem accounts_handler (options : Options) (o : Operation) : HostProgram.Accounts (o.handler options) := by
  obtain ⟨body, hbody, he | he⟩ := o.exists_body options
  · rw [he]
    exact accounts_withSession hbody.accounts
  · intro w r w' hrun
    rw [he, run_bind_lift] at hrun
    obtain ⟨_, _, hpause, hrun⟩ := Program.exists_of_runs_call hrun
    obtain ⟨place?, h⟩ := accounts_withSession hbody.accounts _ _ _ hrun
    exact ⟨place?, h.between (hpause.unchanged (by simp)) (Transcript.rewordedAt_of_messages_eq rfl rfl)⟩

end Controller

namespace Operation

/-- Operations one after the other. In between time may pass, and the host may begin or cease to refuse calls, but the
chat is left alone. -/
inductive RunsAll (options : Options) : List Operation → World → World → Prop
  | nil (w : World) : RunsAll options [] w w
  | cons {o : Operation} {os : List Operation} {w w₁ w₂ w₃ : World} {outcome : Outcome}
      (hfirst : (o.program options).Runs w outcome w₁) (hchat : w₂.host.chat = w₁.host.chat)
      (hrest : RunsAll options os w₂ w₃) : RunsAll options (o :: os) w w₃

variable {options : Options} {o : Operation} {os : List Operation} {w w' : World} {outcome : Outcome}

theorem accounted_of_runs (h : (o.program options).Runs w outcome w') :
    ∃ place?, Accounted w.host.chat outcome w'.host.chat place? := by
  obtain ⟨r, w₁, hrun, ⟨⟩⟩ := Program.exists_of_runs_bind h
  exact Controller.accounts_handler options o w r w' hrun

theorem reworded_of_runsAll (h : RunsAll options os w w') : w.host.chat.Reworded w'.host.chat := by
  induction h with
  | nil w => exact Transcript.reworded_of_messages_eq rfl rfl
  | cons hfirst hchat hrest ih =>
    obtain ⟨place?, h⟩ := accounted_of_runs hfirst
    rw [hchat] at ih
    exact h.chat.toReworded.trans ih

/-- Whatever the controller is asked to do with a chat, one thing after the other, and whichever calls of the host fail:
there are the same messages after it as before, those of the user are untouched, and of the others only the active
texts may be different. Each single operation writes one message at most, the one that it says it has processed. -/
theorem rewords_own (options : Options) :
    (∀ os w w', RunsAll options os w w' → w.host.chat.Reworded w'.host.chat) ∧
      ∀ o w outcome w', (program options o).Runs w outcome w' →
        ∃ place?, Accounted w.host.chat outcome w'.host.chat place? :=
  ⟨fun _ _ _ => reworded_of_runsAll, fun _ _ _ _ => accounted_of_runs⟩

/-- The end of a generation writes the last message, and the one before it stays as it is. -/
theorem rewords_own_camp : ∃ report w',
    (program Controller.campOptions (.event .generationEnded)).Runs Controller.camp (.processed 1 report) w' ∧
      w'.host.chat.messages.length = 2 ∧
      w'.host.chat.messages[0]? = Controller.camp.host.chat.messages[0]? := by
  obtain ⟨report, w', hexec⟩ := Controller.exists_processed_camp
  have hrun := Program.runs_run (program Controller.campOptions (.event .generationEnded)) Controller.camp
  rw [program_event, Controller.run_handle, Controller.handler, hexec] at hrun
  rw [← program_event] at hrun
  obtain ⟨hall, hone⟩ := rewords_own Controller.campOptions
  obtain ⟨place?, h⟩ := hone _ _ _ _ hrun
  have hlength := (hall _ _ _ (.cons hrun rfl (.nil w'))).length
  exact ⟨report, w', hrun, hlength, h.chat.others 0 (by simp [h.processed 1 report rfl])⟩

end Operation

end Chronicle
