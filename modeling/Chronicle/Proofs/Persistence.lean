import Chronicle.Proofs.ChatFiles
import Chronicle.Proofs.DeepWrites
import Chronicle.Proofs.FileContents
import Chronicle.Proofs.Reopening
import Chronicle.Proofs.ScaledNumbers
import Chronicle.Proofs.SkippedMessages

/-!
# Chats that are kept in files

Whatever is done to a chat in a file, as long as it succeeds, the file holds the chat as it is written then. So
the chat is found again on opening the file exactly if it is storable. The controller keeps the keys of the store
in order, but lets commands nest it as deeply as they like, and add up to numbers that are read as others.
-/

namespace Chronicle

/-- How a host goes on from another one: it is the same, or its chat has been written to the same file since. -/
structure Host.Continues (h h' : Host) : Prop where
  path : h'.path? = h.path?
  sorted : h.chat.stored.Sorted → h'.chat.stored.Sorted
  written : h' = h ∨ h'.Written

namespace Host.Continues

variable {h h' h'' : Host}

theorem refl (h : Host) : h.Continues h := ⟨rfl, id, Or.inl rfl⟩

theorem trans (hc : h.Continues h') (hc' : h'.Continues h'') : h.Continues h'' where
  path := hc'.path.trans hc.path
  sorted hs := hc'.sorted (hc.sorted hs)
  written := by
    rcases hc'.written with rfl | hw
    · exact hc.written
    · exact Or.inr hw

theorem of_update {f : Transcript → Except HostError α × Transcript} {a : α} (hu : h.update f = (.ok a, h'))
    (hf : ∀ c, f h.chat = (.ok a, c) → h.chat.stored.Sorted → c.stored.Sorted) : h.Continues h' := by
  have hw := Host.written_of_update hu
  obtain ⟨chat, disk, hchat, rfl, -⟩ := Host.ok_of_update hu
  exact ⟨rfl, hf chat hchat, Or.inr hw⟩

end Host.Continues

theorem Transcript.stored_of_update {c c' : Transcript} {i : Nat} {f : Message → Except HostError α × Message}
    {r : Except HostError α} (h : c.update i f = (r, c')) : c'.stored = c.stored := by
  unfold Transcript.update at h
  split at h
  · rw [← (Prod.mk.inj h).2]
  · rw [← (Prod.mk.inj h).2]

theorem State.sorted_toStored {s : State} (h : s.WellFormed) : s.toStored.Sorted := by
  have hkeys : ["responseSummary", "static", "volatile"].Pairwise (· < ·) := by decide
  rw [State.toStored, Json.sorted_obj]
  refine ⟨List.pairwise_map.mp hkeys, ?_⟩
  simp only [List.forall_mem_cons, List.not_mem_nil, false_imp_iff, implies_true, and_true]
  exact ⟨by simp [Json.ofStrings], h.vars, State.sorted_schedule h⟩

namespace SessionProgram

variable {p : SessionProgram α} {f : α → SessionProgram β}

/-- A run of the program that succeeds leaves no change of the chat unwritten. -/
def Saves (p : SessionProgram α) : Prop :=
  ∀ s w a s' w', p.exec s w = ((.ok a, s'), w') → w.host.Continues w'.host

theorem saves_of_world (hp : ∀ s w, (p.exec s w).2 = w) : p.Saves := by
  intro s w a s' w' h
  have hw := hp s w
  rw [h] at hw
  exact hw ▸ .refl _

theorem Reads.saves (hp : p.Reads) : p.Saves := saves_of_world fun s w => (hp s w).2

theorem saves_pure (a : α) : Saves (pure a) := (reads_pure a).saves

theorem Saves.bind (hp : p.Saves) (hf : ∀ a, (f a).Saves) : (p >>= f).Saves := by
  intro s w b s'' w'' h
  obtain ⟨a, s', w', hrun, hrest⟩ := exists_of_exec_bind h
  exact (hp s w a s' w' hrun).trans (hf a s' w' b s'' w'' hrest)

theorem saves_modify (g : Session → Session) : Saves (modify g) := saves_of_world fun _ _ => rfl

end SessionProgram

namespace Controller
open SessionProgram HostProgram

theorem saves_writeStore {v : Json} (hv : v.Sorted) : Saves (liftM (writeStore v)) := by
  intro s w a s' w' h
  rw [SessionProgram.exec_lift] at h
  obtain ⟨⟨hr, rfl⟩, rfl⟩ := by simpa only [Prod.mk.injEq] using h
  obtain ⟨-, hu, -⟩ := update_of_serve (Prod.ext hr rfl : (writeStore v).exec w = (.ok a, _))
  refine .of_update hu fun c hc _ => ?_
  rw [← (Prod.mk.inj hc).2]
  exact hv

theorem saves_setMessage (i : Nat) (text : String) : Saves (liftM (setMessage i text)) := by
  intro s w a s' w' h
  rw [SessionProgram.exec_lift] at h
  obtain ⟨⟨hr, rfl⟩, rfl⟩ := by simpa only [Prod.mk.injEq] using h
  obtain ⟨-, hu, -⟩ := update_of_serve (Prod.ext hr rfl : (setMessage i text).exec w = (.ok a, _))
  refine .of_update hu fun c hc hs => ?_
  rw [Transcript.stored_of_update hc]
  exact hs

theorem saves_conclude (i : Nat) {turn : Turn} (ht : turn.state.WellFormed) : (conclude i turn).Saves :=
  (saves_writeStore (State.sorted_toStored ht)).bind fun _ => (saves_setMessage i turn.text).bind fun _ =>
    (saves_modify _).bind fun _ => saves_pure _

theorem saves_process (options : Options) (i : Nat) (m : Message) : (process options i m).Saves := by
  unfold process
  by_cases hu : m.isUser = true
  · rw [if_pos hu]
    exact saves_pure _
  · rw [if_neg hu]
    refine reads_readStore.saves.bind fun v => reads_lastIndex.saves.bind fun last? => ?_
    refine (saves_of_world fun _ _ => rfl).bind fun now => ?_
    exact saves_conclude i (Turn.wellFormed_take options _ (State.wellFormed_stored v) m.activeText)

theorem wellFormed_found (history : List Message) : ((findState history).elim State.initial (·.2)).WellFormed := by
  cases hf : findState history with
  | none => exact State.wellFormed_initial
  | some found =>
    obtain ⟨m, -, hm⟩ := of_findState hf
    exact State.wellFormed_of_parse? hm

theorem saves_reload (start : Option Nat) : (reload start).Saves := by
  unfold reload
  refine reads_length.saves.bind fun count => ?_
  have hrest (history : List Message) {mark : Option Watermark} {outcome : Outcome} :
      Saves (do
        writeStore ((findState history).elim State.initial (·.2)).toStored
        modify fun session => { session with watermark := mark }
        return outcome) :=
    (saves_writeStore (State.sorted_toStored (wellFormed_found history))).bind fun _ =>
      (saves_modify _).bind fun _ => saves_pure _
  cases (lastOf count).bind fun last => start.map (min · last) with
  | none => exact (reads_pure _).saves.bind fun history => hrest history
  | some t => exact (reads_messages 0 (t + 1)).saves.bind fun history => hrest history

/-- A run that succeeds leaves no change of the chat unwritten. -/
def HandlerSaves (q : HostProgram α) : Prop := ∀ w a w', q.exec w = (.ok a, w') → w.host.Continues w'.host

theorem saves_withSession {p : SessionProgram α} (hp : p.Saves) : HandlerSaves (withSession p) := by
  intro w a w' h
  obtain ⟨-, s', w'', hrun, rfl⟩ := exists_of_withSession h
  exact hp _ w a s' w'' hrun

theorem saves_onGenerationEnded (options : Options) : HandlerSaves (onGenerationEnded options) := by
  apply saves_withSession
  refine reads_get.saves.bind fun _ => (saves_modify _).bind fun _ => reads_lastIndex.saves.bind fun last? => ?_
  cases last? with
  | none => exact saves_pure _
  | some last =>
    refine (reads_message last).saves.bind fun m => reads_get.saves.bind fun s => ?_
    split
    · split <;> exact saves_pure _
    · exact saves_process options last m

theorem saves_onEdit : HandlerSaves onEdit := by
  refine saves_withSession (reads_lastIndex.saves.bind fun last? => ?_)
  cases last? with
  | none => exact saves_pure _
  | some last =>
    refine (reads_message last).saves.bind fun m => ?_
    split
    · exact saves_pure _
    · exact saves_reload _

theorem saves_onChatChanged : HandlerSaves onChatChanged := by
  refine saves_withSession (Saves.bind (saves_of_world fun _ _ => rfl) fun _ => reads_length.saves.bind fun count => ?_)
  exact (reads_messages 0 count).saves.bind fun _ => (saves_modify _).bind fun _ => saves_reload _

theorem saves_handler (options : Options) (e : Event) : HandlerSaves (handler options e) := by
  cases e with
  | generationStarted =>
    exact saves_withSession (reads_lastIndex.saves.bind fun _ => (saves_modify _).bind fun _ => saves_pure _)
  | generationEnded | generationStopped => exact saves_onGenerationEnded options
  | messageSwiped i =>
    intro w a w' h
    rw [handler, exec_onSwipe] at h
    exact saves_withSession (saves_reload (some i)) w a w' h
  | messageEdited i => exact saves_onEdit
  | chatChanged => exact saves_onChatChanged

theorem saves_processMessage (options : Options) (i : Nat) : HandlerSaves (processMessage options i) := by
  rw [processMessage_eq]
  refine saves_withSession ((reads_messageAt? i).saves.bind fun m? => ?_)
  cases m? with
  | none => exact saves_pure _
  | some m => exact saves_process options i m

end Controller

/-- Something that is done to an open chat: by the controller, by the user who writes, swipes and edits messages and
takes the last one away, or by time that passes. -/
inductive Use where
  | event (options : Options) (e : Event)
  | processMessage (options : Options) (index : Nat)
  | reloadFrom (index : Nat)
  | push (role : Role) (text : String)
  | setMessage (index : Nat) (text : String)
  | addSwipe (index : Nat) (text : String)
  | selectSwipe (index swipe : Nat)
  | pop
  | tick (now : Instant)

namespace Use
open Controller

/-- The world after a call on the host that succeeds. -/
def change (call : Host → Except HostError α × Host) (w : World) : Except HostError World :=
  (fun _ => { w with host := (call w.host).2 }) <$> (call w.host).1

/-- The world after a program that succeeds. -/
def finish (q : HostProgram α) (w : World) : Except HostError World :=
  (fun _ => (q.exec w).2) <$> (q.exec w).1

def make : Use → World → Except HostError World
  | event options e, w => finish (handler options e) w
  | processMessage options index, w => finish (Controller.processMessage options index) w
  | reloadFrom index, w => finish (Controller.reloadFrom index) w
  | push role text, w => change (Host.push role text) w
  | setMessage index text, w => change (Host.setMessage index text) w
  | addSwipe index text, w => change (Host.addSwipe index text) w
  | selectSwipe index swipe, w => change (Host.selectSwipe index swipe) w
  | pop, w => change Host.pop w
  | tick now, w => .ok { w with clock := now }

/-- The world after uses of a chat, each of which succeeds. -/
def run (uses : List Use) (w : World) : Except HostError World := uses.foldlM (fun w use => use.make w) w

variable {w w' : World}

theorem continues_of_finish {q : HostProgram α} (hq : HandlerSaves q) (h : finish q w = .ok w') :
    w.host.Continues w'.host := by
  obtain ⟨a, ha, rfl⟩ := exists_of_map_ok h
  exact hq w a _ (Prod.ext ha rfl)

theorem continues_of_change {f : Transcript → Except HostError α × Transcript}
    (hf : ∀ c c' a, f c = (.ok a, c') → c'.stored = c.stored) (h : change (Host.update · f) w = .ok w') :
    w.host.Continues w'.host := by
  obtain ⟨a, ha, rfl⟩ := exists_of_map_ok h
  have hu : w.host.update f = (.ok a, (w.host.update f).2) := Prod.ext ha rfl
  exact .of_update hu fun c hc hs => by rwa [hf _ c a hc]

/-- One use leaves no change of the chat unwritten. -/
theorem continues_of_make {use : Use} (h : use.make w = .ok w') : w.host.Continues w'.host := by
  cases use with
  | event options e => exact continues_of_finish (saves_handler options e) h
  | processMessage options index => exact continues_of_finish (saves_processMessage options index) h
  | reloadFrom index => exact continues_of_finish (saves_withSession (saves_reload (some index))) h
  | push role text =>
    refine continues_of_change (fun c c' a hc => ?_) h
    rw [← (Prod.mk.inj hc).2]
    rfl
  | setMessage index text => exact continues_of_change (fun c c' a hc => Transcript.stored_of_update hc) h
  | addSwipe index text => exact continues_of_change (fun c c' a hc => Transcript.stored_of_update hc) h
  | selectSwipe index swipe => exact continues_of_change (fun c c' a hc => Transcript.stored_of_update hc) h
  | pop =>
    refine continues_of_change (fun c c' a hc => ?_) h
    rw [← (Prod.mk.inj hc).2]
  | tick now =>
    rw [← Except.ok.inj h]
    exact .refl _

/-- Neither do all of them, one after the other. -/
theorem continues_of_run {uses : List Use} (h : run uses w = .ok w') : w.host.Continues w'.host := by
  induction uses generalizing w with
  | nil =>
    rw [← Except.ok.inj h]
    exact .refl _
  | cons use uses ih =>
    rw [run, List.foldlM_cons] at h
    obtain ⟨w₁, hmake, hrun⟩ := exists_of_bind_ok h
    exact (continues_of_make hmake).trans (ih hrun)

end Use

namespace Host.Continues

variable {disk : Disk} {path : String} {host h : Host} (ho : Host.openFile disk path = .ok host) (hc : host.Continues h)
include ho hc

theorem path_of_openFile : h.path? = some path := by
  rw [hc.path, (Host.of_openFile ho).1]

theorem sorted_of_openFile : h.chat.stored.Sorted := hc.sorted (Host.of_openFile ho).2.2

/-- A host that goes on from an opened one finds its chat again if the chat is storable or nothing has changed. -/
theorem found_iff :
    (∃ h', Host.openFile h.disk path = .ok h' ∧ h'.chat = h.chat) ↔ h = host ∨ h.chat.Storable := by
  by_cases hsame : h = host
  · subst hsame
    have hdisk : h.disk = disk := by rw [(Host.of_openFile ho).1]
    rw [hdisk]
    exact ⟨fun _ => Or.inl rfl, fun _ => ⟨h, ho, rfl⟩⟩
  · have hw := hc.written.resolve_left hsame
    rw [Host.openFile_written_iff (path_of_openFile ho hc) hw (sorted_of_openFile ho hc)]
    exact ⟨Or.inr, fun hs => hs.resolve_left hsame⟩

theorem unparsable_of_deep (hne : h ≠ host) (hd : 126 < h.chat.stored.depth) :
    Host.openFile h.disk path = .error (.file (.unparsable path)) :=
  Host.openFile_written_of_deep (path_of_openFile ho hc) (hc.written.resolve_left hne) (sorted_of_openFile ho hc) hd

end Host.Continues

namespace Use
open Controller

/-- The chat in a file, after whatever has been done to it with success since the file was opened, is found again on
opening the file exactly if nothing has been done to it or it is storable. If commands have nested its store too
deeply, the file holds no chat that can be read. -/
theorem reopens_iff_storable (disk : Disk) (path : String) (host : Host) (clock : Instant) (uses : List Use) (w : World)
    (ho : Host.openFile disk path = .ok host) (hr : run uses (freshWorld host clock) = .ok w) :
    ((∃ h, Host.openFile w.host.disk path = .ok h ∧ h.chat = w.host.chat) ↔ w.host = host ∨ w.host.chat.Storable) ∧
      (w.host ≠ host → 126 < w.host.chat.stored.depth →
        Host.openFile w.host.disk path = .error (.file (.unparsable path))) := by
  have hc : host.Continues w.host := continues_of_run hr
  exact ⟨hc.found_iff ho, hc.unparsable_of_deep ho⟩

/-- A chat that has a file can be changed and saved. -/
theorem serves_of_openFile {disk : Disk} {path text : String} {host : Host} (hread : disk.read path = .ok text)
    (ho : Host.openFile disk path = .ok host) (clock : Instant) : (freshWorld host clock).Serves := by
  rw [(Host.of_openFile ho).1]
  refine ⟨by simp [freshWorld], fun path' hp => ?_⟩
  obtain rfl : path = path' := Option.some.inj hp
  exact Disk.holds_iff.mpr (Option.isSome_iff_exists.mpr ⟨_, Disk.file?_of_read hread⟩)

/-- The end of the generation of the only message in a chat that has a file. -/
theorem exists_run_generationEnded {disk : Disk} {path text : String} {host : Host} {clock : Instant} {m : Message}
    (hread : disk.read path = .ok text) (ho : Host.openFile disk path = .ok host) (hm : host.chat.messages = [m])
    (hu : m.isUser = false) (options : Options) :
    ∃ w, run [.event options .generationEnded] (freshWorld host clock) = .ok w ∧
      w.host.chat.stored = (turnAt options (freshWorld host clock) 0 m).state.toStored := by
  have hs : (freshWorld host clock).Serves := serves_of_openFile hread ho clock
  have hlast : 0 + 1 = (freshWorld host clock).host.chat.messages.length := (congrArg List.length hm).symm
  have hfirst : (freshWorld host clock).host.chat.messages[0]? = some m := congrArg (·[0]?) hm
  obtain ⟨report, w, hexec⟩ := exec_onGenerationEnded_of_not_covers hs hlast hfirst options rfl hu
    (by simp [freshWorld, World.session, Session.covers, Session.empty])
  obtain ⟨-, m', hp⟩ := processed_of_onGenerationEnded hexec
  obtain rfl := Option.some.inj (hfirst.symm.trans hp.message)
  refine ⟨w, ?_, by rw [hp.chat]; rfl⟩
  have hfinish : finish (handler options .generationEnded) (freshWorld host clock) = .ok w := by
    rw [finish, handler, hexec]
    rfl
  rw [run, List.foldlM_cons, make, hfinish]
  rfl

/-! A chat with a command that writes to a deep variable. -/

def hallMessage : Message := .plain 0 .assistant (.ofList hallChars)

def hall : Transcript := ⟨"hall", [hallMessage], .obj []⟩

/-- The chat in a file. -/
def hallHost : Host := ⟨hall, some "hall.json", ⟨[(["hall.json"], .file (some hall.toJson.pretty))]⟩, []⟩

def hallOptions : Options := ⟨false, false⟩

theorem storable_hall : hall.Storable := by
  refine ⟨?_, by decide, by simp [hall]⟩
  intro m hm
  rw [List.mem_singleton.mp hm]
  exact ⟨by decide, by simp [hallMessage, Message.plain]⟩

theorem openFile_hall : Host.openFile hallHost.disk "hall.json" = .ok hallHost := by
  have hread : hallHost.disk.read "hall.json" = .ok hall.toJson.pretty := by rfl
  exact Host.openFile_of_storable hread (by simp [hall, Object.Ascending]) storable_hall

theorem depth_hall : (turnAt hallOptions (freshWorld hallHost ⟨0, 0⟩) 0 hallMessage).state.toStored.depth = 127 := by
  obtain ⟨vars, hstate, hd⟩ := exists_state_hall hallOptions ⟨0, ⟨0, 0⟩⟩
  have hturn : (turnAt hallOptions (freshWorld hallHost ⟨0, 0⟩) 0 hallMessage).state = ⟨vars, [], []⟩ := hstate
  rw [hturn]
  simp only [Json.depth] at hd
  simp only [State.toStored, Json.ofStrings, List.map_nil, Json.depth, Json.depthOfFields, Json.depthOfItems, hd]
  rfl

/-- The generation ends, and the store nests a level deeper than the file can be read. -/
theorem exists_run_hall : ∃ w, run [.event hallOptions .generationEnded] (freshWorld hallHost ⟨0, 0⟩) = .ok w ∧
    w.host.chat.stored.depth = 127 := by
  obtain ⟨w, hr, hstored⟩ := exists_run_generationEnded rfl openFile_hall rfl rfl hallOptions
  exact ⟨w, hr, hstored ▸ depth_hall⟩

theorem ne_hall_of_depth {w : World} (h : w.host.chat.stored.depth = 127) : w.host ≠ hallHost := by
  intro he
  rw [he] at h
  exact absurd h (by decide)

/-- The file cannot be read any more. -/
theorem unreadable_hall : ∃ host w, Host.openFile hallHost.disk "hall.json" = .ok host ∧
    run [.event hallOptions .generationEnded] (freshWorld host ⟨0, 0⟩) = .ok w ∧
    Host.openFile w.host.disk "hall.json" = .error (.file (.unparsable "hall.json")) := by
  obtain ⟨w, hr, hd⟩ := exists_run_hall
  exact ⟨hallHost, w, openFile_hall, hr,
    (continues_of_run hr).unparsable_of_deep openFile_hall (ne_hall_of_depth hd) (by omega)⟩

theorem reopens_iff_storable_hall : ∃ w,
    run [.event hallOptions .generationEnded] (freshWorld hallHost ⟨0, 0⟩) = .ok w ∧
    ¬∃ h, Host.openFile w.host.disk "hall.json" = .ok h ∧ h.chat = w.host.chat := by
  obtain ⟨w, hr, hd⟩ := exists_run_hall
  refine ⟨w, hr, fun hfound => ?_⟩
  rcases (reopens_iff_storable hallHost.disk "hall.json" hallHost ⟨0, 0⟩ [.event hallOptions .generationEnded] w
    openFile_hall hr).1.mp hfound with hsame | hs
  · exact ne_hall_of_depth hd hsame
  · exact absurd hs.depth (by omega)

/-! A chat with a command that adds up to a number that does not read back. -/

def fare : Binary64 := ⟨false, 5854679515581645, -52, by decide⟩

def tollMessage : Message := .plain 0 .assistant "A bridge. <ADD :: due :: 0.1>"

def toll : Transcript := ⟨"toll", [tollMessage], State.toStored ⟨[("due", .num (.float fare))], [], []⟩⟩

/-- The chat in a file. -/
def tollHost : Host := ⟨toll, some "toll.json", ⟨[(["toll.json"], .file (some toll.toJson.pretty))]⟩, []⟩

theorem mem_numbers_due {x : Binary64} {n : Num} :
    n ∈ (State.toStored ⟨[("due", .num (.float x))], [], []⟩).numbers ↔ n = .float x := by
  simp [State.toStored, Json.ofStrings, Json.mem_numbers_obj]

theorem storable_toll : toll.Storable where
  messages m hm := by
    rw [List.mem_singleton.mp hm]
    exact ⟨by decide, by simp [tollMessage, Message.plain]⟩
  depth := by decide
  numbers n hn := by
    rw [mem_numbers_due.mp hn]
    exact Num.readsBack_float (by decide +kernel)

theorem openFile_toll : Host.openFile tollHost.disk "toll.json" = .ok tollHost := by
  have hread : tollHost.disk.read "toll.json" = .ok toll.toJson.pretty := by rfl
  exact Host.openFile_of_storable hread (State.sorted_toStored ⟨by simp [Object.Ascending], by simp⟩) storable_toll

theorem state_toll : (turnAt hallOptions (freshWorld tollHost ⟨0, 0⟩) 0 tollMessage).state =
    ⟨[("due", .num (.float dues))], [], []⟩ :=
  State.eq_of_holdsOnly (by decide +kernel)

/-- The chat is not found again, since what is owed is read as another number. -/
theorem altered_toll : ∃ w, run [.event hallOptions .generationEnded] (freshWorld tollHost ⟨0, 0⟩) = .ok w ∧
    ¬∃ h, Host.openFile w.host.disk "toll.json" = .ok h ∧ h.chat = w.host.chat := by
  obtain ⟨w, hr, hstored⟩ := exists_run_generationEnded rfl openFile_toll rfl rfl hallOptions
  rw [state_toll] at hstored
  refine ⟨w, hr, fun hfound => ?_⟩
  have hstorable : w.host.chat.Storable := by
    rcases ((continues_of_run hr).found_iff openFile_toll).mp hfound with hsame | hs
    · exact hsame ▸ storable_toll
    · exact hs
  refine Num.not_readsBack_dues (hstorable.numbers _ ?_)
  rw [hstored]
  exact mem_numbers_due.mpr rfl

end Use

end Chronicle
