import Chronicle.Proofs.FileContents
import Chronicle.Proofs.JobRuns
import Chronicle.Proofs.Persistence

/-!
# Commands that fail

A swipe or an edit on the command line selects its chat first, as a host does: the chat is saved with the newest state
of its messages in its store. Only then the message is looked for. So a command that fails leaves nothing of its own
in the file of the chat, but it may leave the chat there as it has been selected. A disk stores what is written over
a file that is there: the only saves that fail are those of a chat without a file, whose file cannot be made.
-/

namespace Chronicle

namespace Host

variable {h : Host} {i : Nat}

theorem update_message_of_none (f : Message → Except HostError α × Message) (hm : h.chat.messages[i]? = none) :
    h.update (·.update i f) = (.error (.messageOutOfRange i h.chat.messages.length), h) := by
  rw [update, Transcript.update_of_none f hm]

theorem update_message_of_error {f : Message → Except HostError α × Message} {m : Message} {e : HostError}
    (hm : h.chat.messages[i]? = some m) (hf : f m = (.error e, m)) : h.update (·.update i f) = (.error e, h) := by
  rw [update, Transcript.update_of_some f hm, hf, Transcript.set_eq_self_iff hm |>.mpr rfl]

theorem exists_update_message {f : Message → Except HostError α × Message} {m m' : Message} {a : α} (hk : h.Kept)
    (hm : h.chat.messages[i]? = some m) (hf : f m = (.ok a, m')) :
    ∃ chat disk, h.update (·.update i f) = (.ok a, { h with chat, disk }) ∧ ({ h with chat, disk } : Host).Kept := by
  have hchange : h.chat.update i f = (.ok a, { h.chat with messages := h.chat.messages.set i m' }) := by
    rw [Transcript.update_of_some f hm, hf]
  obtain ⟨disk, hu, hdisk⟩ := update_of_kept (f := (·.update i f)) hk hchange
  exact ⟨_, disk, hu, hdisk⟩

end Host

namespace Cli

namespace Action

/-- The chat of a swipe or an edit, and the index if one is given. -/
def revised? : Action → Option (String × Option Nat)
  | swipe chat index _ | edit chat index _ => some (chat, index)
  | _ => none

/-- What is done to the chat before the event is handled, if anything. -/
def change (i : Nat) : Action → Host → Except HostError Unit × Host
  | swipe _ _ (some k), h => h.requireSwipe i k
  | edit _ _ (some text), h => h.setMessage i text
  | _, h => (.ok (), h)

def handler (options : Options) (i : Nat) : Action → HostProgram Outcome
  | swipe .. => Controller.onSwipe options i
  | _ => Controller.onEdit

/-- What follows once the chat has been selected. -/
def carryOut (options : Options) (chat : String) (index : Option Nat) (a : Action) : Job Unit := do
  let i ← Job.indexOr chat index
  Job.onHost (a.change i)
  Job.handled (a.handler options i)

theorem chatJob?_eq (options : Options) {a : Action} {chat : String} {index : Option Nat}
    (h : a.revised? = some (chat, index)) :
    chatJob? options a = some (chat, do Job.select; a.carryOut options chat index) := by
  cases a with
  | swipe chat' index' choice =>
    obtain ⟨rfl, rfl⟩ := Prod.mk.inj (Option.some.inj h)
    cases choice <;> rfl
  | edit chat' index' text =>
    obtain ⟨rfl, rfl⟩ := Prod.mk.inj (Option.some.inj h)
    cases text <;> rfl
  | _ => exact absurd h (by simp [revised?])

/-- What is wrong with a swipe or an edit of the message at a place: there is no message, or not the swipe in it. -/
def fault? (c : Transcript) (i : Nat) : Action → Option HostError
  | swipe _ _ (some k) =>
    match c.messages[i]? with
    | none => some (.messageOutOfRange i c.messages.length)
    | some m => if k < m.swipes.length then none else some (.storage s!"message {i} has no swipe {k}")
  | edit _ _ (some _) => if i < c.messages.length then none else some (.messageOutOfRange i c.messages.length)
  | _ => none

/-- How a swipe or an edit of a chat fails, if it does: no index is given and the chat has no messages, or there is
something wrong with the message. -/
def obstacle? (c : Transcript) (a : Action) : Option Failure :=
  a.revised?.bind fun (chat, index) =>
    (index.or (lastOf c.messages.length)).elim (some (.noMessages chat)) fun i => (a.fault? c i).map .host

variable {a : Action} {h : Host} {i : Nat} {e : HostError}

/-- A change is made and saved, or it fails for what is wrong with the message and does nothing. -/
theorem change_cases (hk : h.Kept) (i : Nat) (a : Action) :
    (∃ e, a.fault? h.chat i = some e ∧ a.change i h = (.error e, h)) ∨
      (a.fault? h.chat i = none ∧
        ∃ chat disk, a.change i h = (.ok (), { h with chat, disk }) ∧ ({ h with chat, disk } : Host).Kept) := by
  have hnothing : ∃ chat disk, ((.ok (), h) : Except HostError Unit × Host) = (.ok (), { h with chat, disk }) ∧
      ({ h with chat, disk } : Host).Kept := ⟨h.chat, h.disk, rfl, hk⟩
  cases a with
  | swipe chat index choice =>
    cases choice with
    | none => exact Or.inr ⟨rfl, hnothing⟩
    | some k =>
      cases hm : h.chat.messages[i]? with
      | none => exact Or.inl ⟨_, by simp only [fault?, hm], Host.update_message_of_none _ hm⟩
      | some m =>
        by_cases hlt : k < m.swipes.length
        · have hswipe : m.selectSwipe? k = some { m with text := m.swipes[k], swipeId := some k } := by
            rw [Message.selectSwipe?, List.getElem?_eq_getElem hlt, Option.map_some]
          exact Or.inr ⟨by simp only [fault?, hm, if_pos hlt], Host.exists_update_message hk hm (by rw [hswipe])⟩
        · have hswipe : m.selectSwipe? k = none := by
            rw [Message.selectSwipe?, List.getElem?_eq_none (by omega), Option.map_none]
          exact Or.inl ⟨.storage s!"message {i} has no swipe {k}", by simp only [fault?, hm, if_neg hlt],
            Host.update_message_of_error hm (by rw [hswipe])⟩
  | edit chat index text =>
    cases text with
    | none => exact Or.inr ⟨rfl, hnothing⟩
    | some text =>
      by_cases hlt : i < h.chat.messages.length
      · exact Or.inr ⟨if_pos hlt, Host.exists_update_message hk (List.getElem?_eq_getElem hlt) rfl⟩
      · exact Or.inl ⟨_, if_neg hlt, Host.update_message_of_none _ (List.getElem?_eq_none (by omega))⟩
  | _ => exact Or.inr ⟨rfl, hnothing⟩

theorem exists_handler {w : World} (hs : w.Serves) (hl : ¬w.Unlisted) (options : Options) (i : Nat) (a : Action) :
    ∃ outcome w', (a.handler options i).exec w = (.ok outcome, w') := by
  cases a with
  | swipe => exact Controller.exists_onSwipe hs hl options i
  | _ => exact Controller.exists_onEdit hs hl

variable {c : Console} {h' : Host} {chat : String} {index : Option Nat}

/-- In a chat that has been saved an action is carried out, or it fails at an obstacle and does nothing. -/
theorem exec_carryOut (hr : c.world.host.refused = []) (hk : c.world.host.Kept)
    (ha : a.revised? = some (chat, index)) (options : Options) :
    (∃ f, a.obstacle? c.world.host.chat = some f ∧ (a.carryOut options chat index).exec c = (.error f, c)) ∨
      (a.obstacle? c.world.host.chat = none ∧ ∃ c', (a.carryOut options chat index).exec c = (.ok (), c')) := by
  have hplace := Job.exec_indexOr hr chat index
  simp only [obstacle?, ha, Option.bind_some]
  cases hi : index.or (lastOf c.world.host.chat.messages.length) with
  | none =>
    rw [hi] at hplace
    exact Or.inl ⟨_, rfl, Job.exec_bind_error hplace⟩
  | some i =>
    rw [hi] at hplace
    rw [carryOut, Job.exec_bind_ok hplace]
    have hchange := Job.exec_onHost (a.change i) c
    rcases change_cases hk i a with ⟨e, hf, hc⟩ | ⟨hf, chat', disk, hc, hk'⟩
    · -- a change that fails leaves the host, so the console is the same
      rw [hc] at hchange
      exact Or.inl ⟨.host e, congrArg (Option.map Failure.host) hf, Job.exec_bind_error hchange⟩
    · rw [hc] at hchange
      refine Or.inr ⟨congrArg (Option.map Failure.host) hf, ?_⟩
      rw [Job.exec_bind_ok hchange]
      have hserves : (c.world.saved chat' disk).Serves := ⟨fun k hk => absurd hk (by simp [World.saved, hr]), hk'⟩
      have hlisted : ¬(c.world.saved chat' disk).Unlisted := by simp [World.Unlisted, World.saved, hr]
      obtain ⟨outcome, w', hrun⟩ := exists_handler hserves hlisted options i a
      obtain ⟨printed, hhandled⟩ := Job.exec_handled (c := ⟨c.printed, c.world.saved chat' disk⟩) hrun
      exact ⟨_, hhandled⟩

end Action

/-- A command line does not get as far as the messages of a chat: it cannot be read, its configuration or the chat
cannot be read, or the chat has no file yet and none can be made for it when it is selected. No save of a chat that
has a file is among these. -/
inductive Unbegun (env : Environment) (args : List String) (chat : String) : Prop where
  | arguments : parse (env.lookup "SAM_CONFIG") args = .error .usage → Unbegun env args chat
  | config {i : Invocation} {e : ConfigError} : parse (env.lookup "SAM_CONFIG") args = .ok i →
      Config.loadWith env.lookup env.disk (i.configPath.getD (defaultConfigPath env)) = .error e →
      Unbegun env args chat
  | file {e : HostError} : Host.openFile env.disk chat = .error e → Unbegun env args chat
  | save {h h' : Host} {e : HostError} : env.disk.file? chat = none → Host.openFile env.disk chat = .ok h →
      h.selected.save = (.error e, h') → Unbegun env args chat

theorem act_eq {env : Environment} {c : Config} {a : Action} {chat : String} {index : Option Nat}
    (ha : a.revised? = some (chat, index)) : act env c a = match Host.openFile env.disk chat with
      | .error e => failed (.host e) env.disk ""
      | .ok host =>
        let (r, console) := Job.exec (do Job.select; a.carryOut c.options chat index) ⟨"", ⟨host, env.now, []⟩⟩
        match r with
        | .ok () => ⟨0, console.printed, "", console.world.host.disk⟩
        | .error f => failed f console.world.host.disk console.printed := by
  have hjob := Action.chatJob?_eq c.options ha
  cases a with
  | swipe | edit =>
    simp only [act, hjob]
    rfl
  | _ => exact absurd ha (by simp [Action.revised?])

/-- What a swipe or an edit of a chat that has been opened comes to. -/
theorem act_cases {env : Environment} (c : Config) {a : Action} {chat : String} {index : Option Nat} {h : Host}
    (ha : a.revised? = some (chat, index)) (ho : Host.openFile env.disk chat = .ok h) :
    (∃ e h', h.selected.save = (.error e, h') ∧ (act env c a).disk = h'.disk) ∨
    (∃ f h', h.selected.save = (.ok (), h') ∧ a.obstacle? h.chat = some f ∧
      (act env c a).stderr = "Error: " ++ f.diagnostic ++ "\n" ∧ (act env c a).disk = h'.disk) ∨
    (act env c a).code = 0 := by
  have hopened := (Host.of_openFile ho).1
  have hr : h.refused = [] := congrArg Host.refused hopened
  obtain ⟨sessions, hselect⟩ := Job.exec_select (c := ⟨"", ⟨h, env.now, []⟩⟩) hr
  rw [act_eq ha, ho]
  simp only
  -- the save of the selected chat is the last thing that an action which fails does to the disk
  rcases hs : h.selected.save with ⟨e | u, h'⟩
  · rw [hs] at hselect
    rw [Job.exec_bind_error hselect]
    exact Or.inl ⟨e, h', rfl, rfl⟩
  · rw [hs] at hselect
    rw [Job.exec_bind_ok hselect]
    obtain ⟨disk, rfl, hk⟩ := Host.kept_of_save hs
    rcases Action.exec_carryOut (c := ⟨"", ⟨{ h.selected with disk }, env.now, sessions⟩⟩) hr hk ha c.options with
      ⟨f, hf, hrun⟩ | ⟨-, c', hrun⟩
    · refine Or.inr (Or.inl ⟨f, _, rfl, hf, ?_⟩)
      rw [hrun]
      exact ⟨rfl, rfl⟩
    · rw [hrun]
      exact Or.inr (Or.inr rfl)

theorem run_eq {env : Environment} {args : List String} {i : Invocation} {c : Config}
    (hp : parse (env.lookup "SAM_CONFIG") args = .ok i)
    (hc : Config.loadWith env.lookup env.disk (i.configPath.getD (defaultConfigPath env)) = .ok c) :
    run env args = act env c i.action := by
  simp only [run, hp, hc]

/-- A swipe or an edit that fails saves nothing of itself. If it does not get as far as the messages of the chat, the
file of the chat is as it was, and it is not there if it was not. Otherwise it has met an obstacle, and the file holds
the chat that was read, with the newest state of its messages in its store. -/
theorem failed_saves_selected (env : Environment) (args : List String) (chat : String)
    (hr : ∀ i, parse (env.lookup "SAM_CONFIG") args = .ok i → ∃ index, i.action.revised? = some (chat, index))
    (hf : (run env args).code ≠ 0) :
    (Unbegun env args chat ∧ (run env args).disk.file? chat = env.disk.file? chat) ∨
      ∃ i h f, parse (env.lookup "SAM_CONFIG") args = .ok i ∧ Host.openFile env.disk chat = .ok h ∧
        i.action.obstacle? h.chat = some f ∧ (run env args).stderr = "Error: " ++ f.diagnostic ++ "\n" ∧
        (run env args).disk.file? chat = some (some h.chat.selected.toJson.pretty) := by
  cases hp : parse (env.lookup "SAM_CONFIG") args with
  | error stop =>
    simp only [run, hp] at hf ⊢
    cases stop with
    | version => exact absurd rfl hf
    | help => exact absurd rfl hf
    | usage => exact Or.inl ⟨.arguments hp, rfl⟩
  | ok i =>
    obtain ⟨index, ha⟩ := hr i hp
    cases hc : Config.loadWith env.lookup env.disk (i.configPath.getD (defaultConfigPath env)) with
    | error e => exact Or.inl ⟨.config hp hc, by simp only [run, hp, hc, failed]⟩
    | ok c =>
      rw [run_eq hp hc] at hf ⊢
      cases ho : Host.openFile env.disk chat with
      | error e =>
        refine Or.inl ⟨.file ho, ?_⟩
        rw [act_eq ha, ho]
        rfl
      | ok h =>
        have hopened := (Host.of_openFile ho).1
        have hpath : h.selected.path? = some chat := congrArg Host.path? hopened
        have hdisk : h.selected.disk = env.disk := congrArg Host.disk hopened
        rcases act_cases c ha ho with ⟨e, h', hs, hd⟩ | ⟨f, h', hs, hobstacle, herror, hd⟩ | hzero
        · obtain ⟨hbefore, hafter⟩ := Host.file?_of_save_error hpath hs
          rw [hdisk] at hbefore
          exact Or.inl ⟨.save hbefore ho hs, by rw [hd, hafter, hbefore]⟩
        · exact Or.inr ⟨i, h, f, rfl, rfl, hobstacle, herror, by rw [hd, Host.file?_of_save hpath hs]; rfl⟩
        · exact absurd hzero hf

/-- A program started on a disk, with no input and no variables. -/
def alone (disk : Disk) : Environment := ⟨disk, .error .missing, fun _ => none, ⟨0, 0⟩⟩

/-- A chat that is as it is when it has been selected: no message carries a state, and the first one is in the store. -/
def lodge : Transcript := ⟨"lodge", [.plain 0 .assistant "Welcome."], State.initial.toStored⟩

/-- The chat in a file. -/
def lodgeHost : Host := ⟨lodge, some "lodge.json", ⟨[(["lodge.json"], .file (some lodge.toJson.pretty))]⟩, []⟩

theorem openFile_lodge : Host.openFile lodgeHost.disk "lodge.json" = .ok lodgeHost := by
  have hread : lodgeHost.disk.read "lodge.json" = .ok lodge.toJson.pretty := rfl
  have hstorable : lodge.Storable := by
    refine ⟨?_, by decide, by simp [lodge, State.toStored, State.initial, Json.ofStrings]⟩
    intro m hm
    rw [List.mem_singleton.mp hm]
    exact ⟨by decide, by simp [Message.plain]⟩
  exact Host.openFile_of_storable hread (State.sorted_toStored State.wellFormed_initial) hstorable

theorem failed_saves_selected_lodge : (run (alone lodgeHost.disk) ["swipe", "lodge.json", "--to", "2"]).code ≠ 0 ∧
    (run (alone lodgeHost.disk) ["swipe", "lodge.json", "--to", "2"]).disk.file? "lodge.json" =
      some (some lodge.toJson.pretty) := by
  have hp : parse none ["swipe", "lodge.json", "--to", "2"] =
      .ok ⟨false, none, .swipe "lodge.json" none (some 2)⟩ := by decide +kernel
  have hc : Config.loadWith (fun _ => none) lodgeHost.disk (defaultConfigPath (alone lodgeHost.disk)) =
      .ok .default := by decide +kernel
  have ho : Host.openFile (alone lodgeHost.disk).disk "lodge.json" = .ok lodgeHost := openFile_lodge
  have hr (i : Invocation) (hi : parse none ["swipe", "lodge.json", "--to", "2"] = .ok i) :
      ∃ index, i.action.revised? = some ("lodge.json", index) := by
    obtain rfl := Except.ok.inj (hp.symm.trans hi)
    exact ⟨none, rfl⟩
  have hf : (run (alone lodgeHost.disk) ["swipe", "lodge.json", "--to", "2"]).code ≠ 0 := by
    rw [run_eq hp hc, act_eq rfl, ho]
    decide +kernel
  have hselected : lodge.selected = lodge := rfl
  refine ⟨hf, ?_⟩
  rcases failed_saves_selected _ _ "lodge.json" hr hf with ⟨-, hsame⟩ | ⟨i, h, f, -, ho', -, -, hsaved⟩
  · exact hsame.trans (by decide +kernel)
  · obtain rfl := Except.ok.inj (ho.symm.trans ho')
    exact hsaved.trans (by rw [lodgeHost, hselected])

/-- A command on a chat that is not there fails for want of messages, and its file is there afterwards. -/
theorem failed_creates_new : (run (alone .empty) ["edit", "new.json"]).code ≠ 0 ∧
    Disk.empty.file? "new.json" = none ∧ (run (alone .empty) ["edit", "new.json"]).disk.file? "new.json" ≠ none := by
  have hp : parse none ["edit", "new.json"] = .ok ⟨false, none, .edit "new.json" none none⟩ := by decide +kernel
  have hc : Config.loadWith (fun _ => none) .empty (defaultConfigPath (alone .empty)) = .ok .default := by
    decide +kernel
  rw [run_eq hp hc]
  decide +kernel

end Cli

end Chronicle
