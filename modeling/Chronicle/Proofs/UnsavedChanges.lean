import Chronicle.Proofs.ChatFiles
import Chronicle.Proofs.FileContents
import Chronicle.Proofs.HostCalls

/-!
# Changes that are not saved

A host over a file makes a change in memory first and saves the chat after that. The change may fail halfway, and the
save may fail at any time; nothing takes back then what has been changed. So the chat that is served is the one that
was saved last exactly as long as no call fails that has changed anything.
-/

namespace Chronicle

namespace Host

/-- A call on a host that changes its chat: a new text for a message, a new store, or a change of any kind. -/
inductive Request where
  | setMessage (index : Nat) (text : String)
  | writeStore (v : Json)
  | update {α : Type} (f : Transcript → Except HostError α × Transcript)

/-- What stops a save: the error in which it ends, and the disk that it leaves. -/
structure SaveFault where
  error : HostError
  disk : Disk

def saveFaulty : Option SaveFault → Host → Except HostError Unit × Host
  | none, h => h.save
  | some f, h => (.error f.error, { h with disk := f.disk })

/-- Changes the chat and saves it, with a fault at the save if there is one. -/
def updateFaulty (f? : Option SaveFault) (f : Transcript → Except HostError α × Transcript) (h : Host) :
    Except HostError α × Host :=
  match f h.chat with
  | (.error e, chat) => (.error e, { h with chat })
  | (.ok a, chat) =>
    match saveFaulty f? { h with chat } with
    | (.ok (), h) => (.ok a, h)
    | (.error e, h) => (.error e, h)

/-- Without a fault the chat is changed as on a host that works. -/
theorem updateFaulty_none (f : Transcript → Except HostError α × Transcript) (h : Host) :
    updateFaulty none f h = h.update f := rfl

theorem exists_disk_saveFaulty (f? : Option SaveFault) (h : Host) : ∃ disk, (saveFaulty f? h).2 = { h with disk } := by
  cases f? with
  | none => exact exists_disk_save h
  | some f => exact ⟨f.disk, rfl⟩

/-- What a call with a fault comes to: its change is made as far as it goes, and the disk is left to the save. -/
theorem updateFaulty_cases (f? : Option SaveFault) (f : Transcript → Except HostError α × Transcript) (h : Host) :
    (∃ e chat, f h.chat = (.error e, chat) ∧ updateFaulty f? f h = (.error e, { h with chat })) ∨
      ∃ a chat, f h.chat = (.ok a, chat) ∧ updateFaulty f? f h =
        ((saveFaulty f? { h with chat }).1.map fun _ => a, (saveFaulty f? { h with chat }).2) := by
  unfold updateFaulty
  obtain ⟨r, chat⟩ := f h.chat
  cases r with
  | error e => exact Or.inl ⟨e, chat, rfl, rfl⟩
  | ok a =>
    refine Or.inr ⟨a, chat, rfl, ?_⟩
    simp only
    obtain ⟨r, h'⟩ := saveFaulty f? { h with chat }
    cases r <;> rfl

theorem updateFaulty_map (f? : Option SaveFault) (f : Transcript → Except HostError α × Transcript) (g : α → β)
    (h : Host) : updateFaulty f? (fun c => ((f c).1.map g, (f c).2)) h =
      ((updateFaulty f? f h).1.map g, (updateFaulty f? f h).2) := by
  rcases hf : f h.chat with ⟨e | a, chat⟩
  · simp only [updateFaulty, hf]
    rfl
  · rcases hs : saveFaulty f? { h with chat } with ⟨e | u, h'⟩ <;> simp only [updateFaulty, hf, Except.map, hs]

/-- Whatever a call answers, its change has been made as far as it went. -/
theorem exists_disk_updateFaulty (f? : Option SaveFault) (f : Transcript → Except HostError α × Transcript) (h : Host) :
    ∃ disk, (updateFaulty f? f h).2 = { h with chat := (f h.chat).2, disk } := by
  rcases updateFaulty_cases f? f h with ⟨e, chat, hf, hu⟩ | ⟨a, chat, hf, hu⟩
  · rw [hu, hf]
    exact ⟨h.disk, rfl⟩
  · rw [hu, hf]
    exact exists_disk_saveFaulty f? { h with chat }

/-- The file that is left by a call: the chat if the call succeeds, and otherwise the old file. -/
theorem file?_updateFaulty {f? : Option SaveFault} {path : String} (f : Transcript → Except HostError α × Transcript)
    {h : Host} (hp : h.path? = some path) (hf : ∀ fault ∈ f?, fault.disk.file? path = h.disk.file? path) :
    (updateFaulty f? f h).2.disk.file? path = if (updateFaulty f? f h).1.isOk then
      some (some (updateFaulty f? f h).2.chat.toJson.pretty) else h.disk.file? path := by
  rcases updateFaulty_cases f? f h with ⟨e, chat, -, hu⟩ | ⟨a, chat, -, hu⟩
  · rw [hu]
    rfl
  · rw [hu]
    cases f? with
    | some fault => exact hf fault rfl
    | none =>
      have hpath : ({ h with chat } : Host).path? = some path := hp
      rcases hs : saveFaulty none { h with chat } with ⟨e | u, h'⟩
      · obtain ⟨hbefore, hafter⟩ := file?_of_save_error hpath hs
        exact hafter.trans hbefore.symm
      · rw [file?_of_save hpath hs]
        obtain ⟨disk, rfl, -⟩ := ok_of_save hs
        rfl

namespace Request

/-- The change that is asked for. What it gives does not matter here, only whether it fails. -/
def change : Request → Transcript → Except HostError Unit × Transcript
  | setMessage i text, c => c.update i fun m => (.ok (), m.setText text)
  | writeStore v, c => (.ok (), { c with stored := v })
  | update f, c => ((f c).1.map fun _ => (), (f c).2)

def perform (r : Request) (f? : Option SaveFault) (h : Host) : Except HostError Unit × Host :=
  updateFaulty f? r.change h

/-- Without a fault a request is the call of the host. -/
theorem perform_none (r : Request) (h : Host) : r.perform none h = match r with
    | setMessage i text => Host.setMessage i text h
    | writeStore v => Host.writeStore v h
    | update f => ((h.update f).1.map fun _ => (), (h.update f).2) := by
  cases r with
  | setMessage i text => exact updateFaulty_none _ h
  | writeStore v => exact updateFaulty_none _ h
  | update f => exact updateFaulty_map none f _ h

theorem chat_perform (r : Request) (f? : Option SaveFault) (h : Host) :
    (r.perform f? h).2.chat = (r.change h.chat).2 := by
  obtain ⟨disk, hd⟩ := exists_disk_updateFaulty f? r.change h
  rw [perform, hd]

theorem path_perform (r : Request) (f? : Option SaveFault) (h : Host) : (r.perform f? h).2.path? = h.path? := by
  obtain ⟨disk, hd⟩ := exists_disk_updateFaulty f? r.change h
  rw [perform, hd]

/-- The change would leave a chat as it is. -/
def Keeps : Request → Transcript → Prop
  | setMessage i text, c => ∀ m, c.messages[i]? = some m → m.setText text = m
  | writeStore v, c => c.stored = v
  | update f, c => (f c).2 = c

theorem keeps_iff {r : Request} {c : Transcript} : r.Keeps c ↔ (r.change c).2 = c := by
  cases r with
  | setMessage i text =>
    rw [Keeps, change]
    cases hm : c.messages[i]? with
    | none => simp [Transcript.update_of_none _ hm]
    | some m =>
      rw [Transcript.update_of_some _ hm, Transcript.set_eq_self_iff hm]
      simp
  | writeStore v =>
    constructor
    · rintro rfl
      rfl
    · intro h
      exact (congrArg Transcript.stored h).symm
  | update f => exact Iff.rfl

end Request

/-- A call in a run: the request, the fault at its save, the host before and after it, its answer, and the chat that
the run has saved last by then. -/
structure Moment where
  request : Request
  fault? : Option SaveFault
  before : Host
  answer : Except HostError Unit
  after : Host
  saved? : Option Transcript

namespace Moment

/-- A call on a host, after a run that has saved a chat last. -/
def of (r : Request) (fault? : Option SaveFault) (saved? : Option Transcript) (h : Host) : Moment where
  request := r
  fault? := fault?
  before := h
  answer := (r.perform fault? h).1
  after := (r.perform fault? h).2
  saved? := if (r.perform fault? h).1.isOk then some (r.perform fault? h).2.chat else saved?

def Failed (m : Moment) : Prop := m.answer.isOk = false

instance (m : Moment) : Decidable m.Failed := inferInstanceAs (Decidable (_ = false))

/-- A fault leaves the old file. -/
def LeavesFile (m : Moment) (path : String) : Prop :=
  ∀ fault ∈ m.fault?, fault.disk.file? path = m.before.disk.file? path

variable {r : Request} {fault? : Option SaveFault} {saved? : Option Transcript} {h : Host}

/-- If the chat that was saved last is served, it still is after a call, unless this fails and has changed it. -/
theorem served_of_iff {opened : Transcript} (r : Request) (fault? : Option SaveFault)
    (hs : h.chat = saved?.getD opened) : (of r fault? saved? h).after.chat = (of r fault? saved? h).saved?.getD opened ↔
      ((of r fault? saved? h).Failed → r.Keeps h.chat) := by
  simp only [of, Failed]
  cases (r.perform fault? h).1.isOk with
  | true => simp
  | false =>
    simp only [Bool.false_eq_true, if_false, forall_const]
    rw [Request.keeps_iff, Request.chat_perform, ← hs]

theorem file?_of {path : String} {old? : Option (Option String)} (hp : h.path? = some path)
    (hfile : h.disk.file? path = saved?.elim old? fun c => some (some c.toJson.pretty))
    (hl : (of r fault? saved? h).LeavesFile path) :
    (of r fault? saved? h).after.disk.file? path =
      (of r fault? saved? h).saved?.elim old? fun c => some (some c.toJson.pretty) := by
  have hleft : (r.perform fault? h).2.disk.file? path = if (r.perform fault? h).1.isOk then
      some (some (r.perform fault? h).2.chat.toJson.pretty) else h.disk.file? path :=
    file?_updateFaulty r.change hp hl
  simp only [of, hleft]
  split
  · rfl
  · exact hfile

end Moment

/-- The calls of a run, one after the other. -/
def moments : List (Request × Option SaveFault) → Option Transcript → Host → List Moment
  | [], _, _ => []
  | (r, fault?) :: rest, saved?, h =>
    let m := Moment.of r fault? saved? h
    m :: moments rest m.saved? m.after

variable {requests : List (Request × Option SaveFault)} {saved? : Option Transcript} {h : Host}

theorem forall_moments_cons {P : Moment → Prop} (r : Request) (fault? : Option SaveFault) :
    (∀ m ∈ moments ((r, fault?) :: requests) saved? h, P m) ↔ P (.of r fault? saved? h) ∧
      ∀ m ∈ moments requests (Moment.of r fault? saved? h).saved? (r.perform fault? h).2, P m := by
  rw [moments, List.forall_mem_cons]
  rfl

/-- A call leaves the chat in memory as it was exactly if its change does. -/
theorem chat_eq_iff_keeps : ∀ m ∈ moments requests saved? h,
    m.after.chat = m.before.chat ↔ m.request.Keeps m.before.chat := by
  induction requests generalizing saved? h with
  | nil => simp [moments]
  | cons head rest ih =>
    obtain ⟨r, fault?⟩ := head
    rw [forall_moments_cons]
    refine ⟨?_, ih⟩
    rw [Request.keeps_iff]
    exact Eq.congr_left (Request.chat_perform r fault? h)

/-- A host that serves what was saved last goes on to do so exactly as long as each call that fails keeps the chat. -/
theorem served_iff {opened : Transcript} (hs : h.chat = saved?.getD opened) :
    (∀ m ∈ moments requests saved? h, m.after.chat = m.saved?.getD opened) ↔
      ∀ m ∈ moments requests saved? h, m.Failed → m.request.Keeps m.before.chat := by
  induction requests generalizing saved? h with
  | nil => simp [moments]
  | cons head rest ih =>
    obtain ⟨r, fault?⟩ := head
    have hstep := Moment.served_of_iff r fault? hs
    rw [forall_moments_cons, forall_moments_cons]
    constructor
    · rintro ⟨hhead, hrest⟩
      exact ⟨hstep.mp hhead, (ih hhead).mp hrest⟩
    · rintro ⟨hhead, hrest⟩
      exact ⟨hstep.mpr hhead, (ih (hstep.mpr hhead)).mpr hrest⟩

/-- The file holds what was saved last, as long as the faults leave it. -/
theorem file?_of_moments {path : String} {old? : Option (Option String)} (hp : h.path? = some path)
    (hfile : h.disk.file? path = saved?.elim old? fun c => some (some c.toJson.pretty))
    (hl : ∀ m ∈ moments requests saved? h, m.LeavesFile path) : ∀ m ∈ moments requests saved? h,
      m.after.disk.file? path = m.saved?.elim old? fun c => some (some c.toJson.pretty) := by
  induction requests generalizing saved? h with
  | nil => simp [moments]
  | cons head rest ih =>
    obtain ⟨r, fault?⟩ := head
    rw [forall_moments_cons] at hl ⊢
    have hstep := Moment.file?_of hp hfile hl.1
    exact ⟨hstep, ih ((r.path_perform fault? h).trans hp) hstep hl.2⟩

/-- A chat in a file is opened, and calls change it, any of which may fail at its change or at its save. A call that
fails leaves the chat in memory as it was exactly if its change keeps the chat. If this is so for every call that
fails, and only then, what is served after each call is the chat that has been saved last, or the one that was opened.
The file holds this chat, whatever is served, as long as a save that fails leaves the old file. -/
theorem serves_saved_iff (disk : Disk) (path : String) (opened : Host) (requests : List (Request × Option SaveFault))
    (ho : openFile disk path = .ok opened) :
    (∀ m ∈ moments requests none opened, m.Failed →
      (m.after.chat = m.before.chat ↔ m.request.Keeps m.before.chat)) ∧
    ((∀ m ∈ moments requests none opened, m.after.chat = m.saved?.getD opened.chat) ↔
      ∀ m ∈ moments requests none opened, m.Failed → m.request.Keeps m.before.chat) ∧
    ((∀ m ∈ moments requests none opened, m.LeavesFile path) → ∀ m ∈ moments requests none opened,
      m.after.disk.file? path = m.saved?.elim (disk.file? path) fun c => some (some c.toJson.pretty)) := by
  have hopened := (of_openFile ho).1
  have hp : opened.path? = some path := congrArg Host.path? hopened
  have hd : opened.disk = disk := congrArg Host.disk hopened
  exact ⟨fun m hm _ => chat_eq_iff_keeps m hm, served_iff rfl, file?_of_moments hp (congrArg (·.file? path) hd)⟩

def purse : Json := .obj [("gold", .num (.int 5))]

/-- A new chat in a file that is not there yet. -/
def inn : Host := ⟨.empty "inn", some "inn.json", .empty, []⟩

/-- A store is written. A message that is not there gets a text, and the store is written again when there is no more
room: both calls fail, and neither would have changed anything. -/
def innRequests : List (Request × Option SaveFault) :=
  [(.writeStore purse, none), (.setMessage 0 "Who is there?", none),
    (.writeStore purse, some ⟨.storage "No space left on device", (inn.writeStore purse).2.disk⟩)]

theorem keeps_inn : ∀ m ∈ moments innRequests none inn, m.Failed → m.request.Keeps m.before.chat := by
  have hwritten : ((Request.writeStore purse).perform none inn).2.chat = { inn.chat with stored := purse } :=
    Request.chat_perform _ _ _
  rw [innRequests, forall_moments_cons, forall_moments_cons, forall_moments_cons, moments]
  refine ⟨fun hf => absurd hf (by decide +kernel), fun _ => ?_, fun _ => ?_, by simp⟩
  · show Request.Keeps _ ((Request.writeStore purse).perform none inn).2.chat
    rw [hwritten]
    exact fun m hm => absurd hm (by simp [inn, Transcript.empty])
  · show (Request.writeStore purse).Keeps
      ((Request.setMessage 0 "Who is there?").perform none ((Request.writeStore purse).perform none inn).2).2.chat
    rw [Request.chat_perform, hwritten]
    rfl

theorem serves_saved_inn : openFile .empty "inn.json" = .ok inn ∧
    (∀ m ∈ moments innRequests none inn, m.after.chat = m.saved?.getD inn.chat) ∧
    ∀ m ∈ moments innRequests none inn, m.after.disk.file? "inn.json" =
      m.saved?.elim none fun c => some (some c.toJson.pretty) := by
  have ho : openFile .empty "inn.json" = .ok inn := rfl
  obtain ⟨-, hserved, hfile⟩ := serves_saved_iff .empty "inn.json" inn innRequests ho
  refine ⟨ho, hserved.mpr keeps_inn, hfile ?_⟩
  rw [innRequests, forall_moments_cons, forall_moments_cons, forall_moments_cons, moments]
  refine ⟨by simp [Moment.LeavesFile, Moment.of], by simp [Moment.LeavesFile, Moment.of], ?_, by simp⟩
  intro fault hfault
  obtain rfl := Option.some.inj hfault
  decide +kernel

/-- A path that ends in a slash: the chat is opened as a new one, and it can never be saved. -/
def porch : Host := ⟨.empty "x", some "x/", .empty, []⟩

theorem serves_unsaved_porch : openFile .empty "x/" = .ok porch ∧
    ∃ m ∈ moments [(.writeStore purse, none)] none porch, m.Failed ∧
      m.after.chat ≠ m.before.chat ∧ m.after.chat ≠ m.saved?.getD porch.chat := by
  have hne : Json.obj [] ≠ purse := by simp [purse]
  refine ⟨rfl, _, List.mem_cons_self, by decide +kernel, fun h => ?_, fun h => ?_⟩
  · exact hne (congrArg Transcript.stored h).symm
  · exact hne (congrArg Transcript.stored h).symm

end Host

end Chronicle
