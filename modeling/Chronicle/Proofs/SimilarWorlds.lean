import Chronicle.Proofs.HostCalls

/-!
# Worlds that differ in one message

Two runs of a program that does not read a certain message go the same way in two worlds that differ in that
message only. A host over a file has written other texts then, but to the same files.
-/

namespace Chronicle

/-- Two runs give the same result, and what they leave is related. -/
structure SameRuns (R : σ → σ → Prop) (run run' : α × σ) : Prop where
  result : run.1 = run'.1
  state : R run.2 run'.2

theorem SameRuns.exists_eq {R : σ → σ → Prop} {run run' : α × σ} (h : SameRuns R run run') :
    ∃ a s s', run = (a, s) ∧ run' = (a, s') ∧ R s s' :=
  ⟨run.1, run.2, run'.2, rfl, Prod.ext h.result.symm rfl, h.state⟩

def Entry.isDirectory : Entry → Bool
  | .directory => true
  | .file _ => false

namespace Disk

variable {d d' : Disk}

/-- Whether a directory or a file stands at a place, or why there is nothing. -/
def kind (d : Disk) (p : Place) : Except DiskError Bool := (d.lookup p).map Entry.isDirectory

/-- The disks hold the same directories and files, whatever the texts of the files. -/
def Alike (d d' : Disk) : Prop := ∀ p, d.kind p = d'.kind p

/-- Two attempts to write give disks that are alike, or they fail for the same reason. -/
def AlikeResults (r r' : Except DiskError Disk) : Prop :=
  (∃ d d', r = .ok d ∧ r' = .ok d' ∧ d.Alike d') ∨ ∃ e, r = .error e ∧ r' = .error e

theorem kind_put_self (d d' : Disk) (p : Place) {e e' : Entry} (he : e.isDirectory = e'.isDirectory) :
    (d.put p e).kind p = (d'.put p e').kind p := by
  unfold kind lookup put
  rw [List.lookup_cons_self, List.lookup_cons_self]
  split
  · rfl
  split
  · rfl
  · exact congrArg Except.ok he

theorem Alike.put (h : d.Alike d') (p : Place) {e e' : Entry} (he : e.isDirectory = e'.isDirectory) :
    (d.put p e).Alike (d'.put p e') := by
  intro q
  by_cases hq : q = p
  · rw [hq]
    exact kind_put_self d d' p he
  · have hkind := h q
    unfold kind at hkind ⊢
    rwa [lookup_put_of_ne hq, lookup_put_of_ne hq]

theorem kind_cases (d : Disk) (p : Place) :
    (d.lookup p = .ok .directory ∧ d.kind p = .ok true) ∨
      (∃ text?, d.lookup p = .ok (.file text?) ∧ d.kind p = .ok false) ∨
      ∃ e, d.lookup p = .error e ∧ d.kind p = .error e := by
  unfold kind
  cases d.lookup p with
  | error e => exact Or.inr (Or.inr ⟨e, rfl, rfl⟩)
  | ok entry =>
    cases entry with
    | directory => exact Or.inl ⟨rfl, rfl⟩
    | file text? => exact Or.inr (Or.inl ⟨text?, rfl, rfl⟩)

/-- At a place of two disks that are alike there are two directories, two files, or nothing for one reason. -/
theorem Alike.lookup_cases (h : d.Alike d') (p : Place) :
    (d.lookup p = .ok .directory ∧ d'.lookup p = .ok .directory) ∨
      (∃ text? text?', d.lookup p = .ok (.file text?) ∧ d'.lookup p = .ok (.file text?')) ∨
      ∃ e, d.lookup p = .error e ∧ d'.lookup p = .error e := by
  have hkind := h p
  rcases kind_cases d p with ⟨hd, hk⟩ | ⟨text?, hd, hk⟩ | ⟨e, hd, hk⟩
  all_goals
    rcases kind_cases d' p with ⟨hd', hk'⟩ | ⟨text?', hd', hk'⟩ | ⟨e', hd', hk'⟩
    all_goals rw [hk, hk'] at hkind
  · exact Or.inl ⟨hd, hd'⟩
  · simp at hkind
  · simp at hkind
  · simp at hkind
  · exact Or.inr (Or.inl ⟨_, _, hd, hd'⟩)
  · simp at hkind
  · simp at hkind
  · simp at hkind
  · exact Or.inr (Or.inr ⟨e, hd, by rw [hd', Except.error.inj hkind]⟩)

theorem Alike.step (h : d.Alike d') : d.step = d'.step := by
  funext p name
  unfold Disk.step
  rcases h.lookup_cases p with ⟨hd, hd'⟩ | ⟨_, _, hd, hd'⟩ | ⟨e, hd, hd'⟩
  · rw [hd, hd']
  · rw [hd, hd']
    rfl
  · rw [hd, hd']

theorem Alike.walk (h : d.Alike d') (path : String) : d.walk path = d'.walk path := by
  unfold Disk.walk
  rw [h.step]

theorem Alike.write (h : d.Alike d') (path text text' : String) :
    AlikeResults (d.write path text) (d'.write path text') := by
  unfold Disk.write
  rw [h.walk]
  cases d'.walk path with
  | error e => exact Or.inr ⟨e, rfl, rfl⟩
  | ok p =>
    cases endsInSlash path with
    | true => exact Or.inr ⟨.isDirectory, rfl, rfl⟩
    | false =>
      simp only [bind, Except.bind, Bool.false_eq_true, if_false]
      have hput : (d.put p (.file text)).Alike (d'.put p (.file text')) := h.put p rfl
      rcases h.lookup_cases p with ⟨hd, hd'⟩ | ⟨_, _, hd, hd'⟩ | ⟨e, hd, hd'⟩
      · rw [hd, hd']
        exact Or.inr ⟨.isDirectory, rfl, rfl⟩
      · rw [hd, hd']
        exact Or.inl ⟨_, _, rfl, rfl, hput⟩
      · rw [hd, hd']
        cases e
        case missing => exact Or.inl ⟨_, _, rfl, rfl, hput⟩
        all_goals exact Or.inr ⟨_, rfl, rfl⟩

theorem Alike.makeDirectory (h : d.Alike d') (way : List String) :
    AlikeResults (d.makeDirectory way) (d'.makeDirectory way) := by
  unfold Disk.makeDirectory
  rw [h.step]
  cases List.foldlM d'.step [] way.reverse with
  | error e => exact Or.inr ⟨e, rfl, rfl⟩
  | ok p =>
    simp only [bind, Except.bind]
    rcases h.lookup_cases p with ⟨hd, hd'⟩ | ⟨_, _, hd, hd'⟩ | ⟨e, hd, hd'⟩
    · rw [hd, hd']
      exact Or.inl ⟨d, d', rfl, rfl, h⟩
    · rw [hd, hd']
      exact Or.inr ⟨.occupied, rfl, rfl⟩
    · rw [hd, hd']
      cases e
      case missing => exact Or.inl ⟨_, _, rfl, rfl, h.put p rfl⟩
      all_goals exact Or.inr ⟨_, rfl, rfl⟩

theorem Alike.makeDirectories (h : d.Alike d') (way : List String) :
    SameRuns Alike (d.makeDirectories way) (d'.makeDirectories way) := by
  induction way with
  | nil => exact ⟨rfl, h⟩
  | cons name above ih =>
    rw [Disk.makeDirectories, Disk.makeDirectories]
    rcases h.makeDirectory (name :: above) with ⟨e, e', hd, hd', he⟩ | ⟨e, hd, hd'⟩
    · rw [hd, hd']
      exact ⟨rfl, he⟩
    · rw [hd, hd']
      cases e
      case missing =>
        obtain ⟨r, e, e', ha, ha', he⟩ := ih.exists_eq
        rw [ha, ha']
        cases r with
        | error _ => exact ⟨rfl, he⟩
        | ok =>
          simp only
          rcases he.makeDirectory (name :: above) with ⟨f, f', hd, hd', hf⟩ | ⟨_, hd, hd'⟩
          · rw [hd, hd']
            exact ⟨rfl, hf⟩
          · rw [hd, hd']
            exact ⟨rfl, he⟩
      all_goals exact ⟨rfl, h⟩

theorem Alike.makeParent (h : d.Alike d') (path : String) : SameRuns Alike (d.makeParent path) (d'.makeParent path) :=
  h.makeDirectories _

end Disk

namespace Transcript

variable {i : Nat} {c c' : Transcript}

/-- The chats differ at most in the message at one place. -/
structure SameBut (i : Nat) (c c' : Transcript) : Prop where
  id : c.id = c'.id
  stored : c.stored = c'.stored
  length : c.messages.length = c'.messages.length
  message : ∀ j ≠ i, c.messages[j]? = c'.messages[j]?

theorem SameBut.update (h : c.SameBut i c') {f f' : Message → Except HostError α × Message}
    (hf : ∀ m m', (f m).1 = (f' m').1) : SameRuns (SameBut i) (c.update i f) (c'.update i f') := by
  have hlength := h.length
  unfold Transcript.update Transcript.message
  by_cases hi : i < c'.messages.length
  · rw [List.getElem?_eq_getElem hi, List.getElem?_eq_getElem (hlength ▸ hi)]
    refine ⟨hf _ _, h.id, h.stored, by simp [hlength], ?_⟩
    intro j hj
    simp [List.getElem?_set_ne (Ne.symm hj), h.message j hj]
  · rw [List.getElem?_eq_none (hlength ▸ Nat.le_of_not_lt hi), List.getElem?_eq_none (Nat.le_of_not_lt hi), hlength]
    exact ⟨rfl, h⟩

end Transcript

namespace Host

variable {i : Nat} {h h' : Host}

structure SameBut (i : Nat) (h h' : Host) : Prop where
  chat : h.chat.SameBut i h'.chat
  path? : h.path? = h'.path?
  disk : h.disk.Alike h'.disk
  refused : h.refused = h'.refused

theorem SameBut.save (hh : h.SameBut i h') : SameRuns (SameBut i) h.save h'.save := by
  have hwith {d d' : Disk} (hd : d.Alike d') : SameBut i { h with disk := d } { h' with disk := d' } :=
    ⟨hh.chat, hh.path?, hd, hh.refused⟩
  unfold Host.save
  cases hp : h.path? with
  | none =>
    rw [← hh.path?, hp]
    exact ⟨rfl, hh⟩
  | some path =>
    obtain ⟨r, d, d', hd, hd', hparent⟩ := (hh.disk.makeParent path).exists_eq
    simp only [← hh.path?, hp, hd, hd']
    rw [← hh.path?, hp] at hwith
    cases r with
    | error e => exact ⟨rfl, hwith hparent⟩
    | ok =>
      simp only
      rcases hparent.write path h.chat.toJson.pretty h'.chat.toJson.pretty with ⟨_, _, hw, hw', he⟩ | ⟨_, hw, hw'⟩
      · rw [hw, hw']
        exact ⟨rfl, hwith he⟩
      · rw [hw, hw']
        exact ⟨rfl, hwith hparent⟩

theorem SameBut.update (hh : h.SameBut i h') {f f' : Transcript → Except HostError α × Transcript}
    (hf : SameRuns (Transcript.SameBut i) (f h.chat) (f' h'.chat)) :
    SameRuns (SameBut i) (h.update f) (h'.update f') := by
  obtain ⟨r, chat, chat', hc, hc', hchat⟩ := hf.exists_eq
  have hwith : SameBut i { h with chat } { h' with chat := chat' } := ⟨hchat, hh.path?, hh.disk, hh.refused⟩
  unfold Host.update
  rw [hc, hc']
  cases r with
  | error e => exact ⟨rfl, hwith⟩
  | ok a =>
    obtain ⟨r, _, _, hs, hs', hsaved⟩ := hwith.save.exists_eq
    simp only [hs, hs']
    cases r with
    | error e => exact ⟨rfl, hsaved⟩
    | ok => exact ⟨rfl, hsaved⟩

theorem SameBut.writeStore (hh : h.SameBut i h') (v : Json) :
    SameRuns (SameBut i) (h.writeStore v) (h'.writeStore v) :=
  hh.update ⟨rfl, hh.chat.id, rfl, hh.chat.length, hh.chat.message⟩

theorem SameBut.setMessage (hh : h.SameBut i h') (text : String) :
    SameRuns (SameBut i) (h.setMessage i text) (h'.setMessage i text) :=
  hh.update (hh.chat.update fun _ _ => rfl)

end Host

namespace World

variable {i : Nat} {w w' : World}

structure SameBut (i : Nat) (w w' : World) : Prop where
  host : w.host.SameBut i w'.host
  clock : w.clock = w'.clock
  sessions : w.sessions = w'.sessions

theorem SameBut.serve (h : w.SameBut i w') (k : CallKind) {call call' : Host → Except HostError α × Host}
    (hc : SameRuns (Host.SameBut i) (call w.host) (call' w'.host)) :
    SameRuns (SameBut i) (w.serve k call) (w'.serve k call') := by
  unfold World.serve Host.guarded
  rw [h.host.refused]
  by_cases hk : w'.host.refused.contains k = true
  · rw [if_pos hk, if_pos hk]
    exact ⟨rfl, h⟩
  · rw [if_neg hk, if_neg hk]
    exact ⟨hc.result, hc.state, h.clock, h.sessions⟩

theorem SameBut.reply (h : w.SameBut i w') (k : CallKind) (r : Except HostError α) : w.reply k r = w'.reply k r := by
  unfold World.reply
  rw [h.host.refused]

theorem SameBut.session (h : w.SameBut i w') (id : String) : w.session id = w'.session id := by
  unfold World.session
  rw [h.sessions]

theorem SameBut.withSession (h : w.SameBut i w') (id : String) (s : Session) :
    (w.withSession id s).SameBut i (w'.withSession id s) := by
  refine ⟨h.host, h.clock, ?_⟩
  unfold World.withSession
  rw [h.sessions]

end World

/-- The program gives the same result in worlds that differ in the message at one place, and leaves such worlds. -/
def HostProgram.Agrees (i : Nat) (q : HostProgram α) : Prop :=
  ∀ w w' : World, w.SameBut i w' → SameRuns (World.SameBut i) (q.exec w) (q.exec w')

def SessionProgram.Agrees (i : Nat) (p : SessionProgram α) : Prop :=
  ∀ (s : Session) (w w' : World), w.SameBut i w' → SameRuns (World.SameBut i) (p.exec s w) (p.exec s w')

namespace HostProgram

variable {i : Nat}

theorem agrees_of_read {q : HostProgram α} {k : CallKind} {f : Transcript → Except HostError α}
    (hq : ∀ w, q.exec w = (w.reply k (f w.host.chat), w))
    (hf : ∀ c c' : Transcript, c.SameBut i c' → f c = f c') : q.Agrees i := by
  intro w w' h
  rw [hq, hq, hf _ _ h.host.chat, h.reply]
  exact ⟨rfl, h⟩

theorem agrees_readStore : readStore.Agrees i := by
  apply agrees_of_read (f := fun c => .ok c.store) exec_readStore
  intro c c' h
  rw [Transcript.store, Transcript.store, h.stored]

theorem agrees_lastIndex : lastIndex.Agrees i :=
  agrees_of_read (f := fun c => .ok (lastOf c.messages.length)) exec_lastIndex fun _ _ h => by rw [h.length]

theorem agrees_writeStore (v : Json) : (writeStore v).Agrees i :=
  fun _ _ h => h.serve .writeStore (h.host.writeStore v)

theorem agrees_setMessage (text : String) : (setMessage i text).Agrees i :=
  fun _ _ h => h.serve .setMessage (h.host.setMessage text)

theorem exec_withSession_of_sameBut {w w' : World} (h : w.SameBut i w') {p p' : SessionProgram α}
    (hp : ∀ s, SameRuns (World.SameBut i) (p.exec s w) (p'.exec s w')) :
    SameRuns (World.SameBut i) ((withSession p).exec w) ((withSession p').exec w') := by
  by_cases hid : CallKind.conversationId ∈ w.host.refused
  · rw [exec_withSession_of_refused hid, exec_withSession_of_refused (h.host.refused ▸ hid)]
    exact ⟨rfl, h⟩
  · rw [exec_withSession_eq hid, exec_withSession_eq (h.host.refused ▸ hid), h.session, h.host.chat.id]
    obtain ⟨⟨r, s⟩, v, v', hv, hv', hrun⟩ := (hp (w'.session w'.host.chat.id)).exists_eq
    rw [hv, hv']
    exact ⟨rfl, hrun.withSession _ s⟩

end HostProgram

namespace SessionProgram

variable {i : Nat} {p : SessionProgram α} {f : α → SessionProgram β}

theorem agrees_pure (a : α) : Agrees i (pure a) := fun _ _ _ h => ⟨rfl, h⟩

theorem agrees_modify (g : Session → Session) : Agrees i (modify g) := fun _ _ _ h => ⟨rfl, h⟩

theorem agrees_now : Agrees i (liftM (Program.ask .now : Program Instant)) := by
  intro s w w' h
  rw [exec_now, exec_now, h.clock]
  exact ⟨rfl, h⟩

theorem agrees_lift {q : HostProgram α} (hq : q.Agrees i) : Agrees i (liftM q) := by
  intro s w w' h
  rw [exec_lift, exec_lift, (hq w w' h).result]
  exact ⟨rfl, (hq w w' h).state⟩

theorem Agrees.bind (hp : p.Agrees i) (hf : ∀ a, (f a).Agrees i) : Agrees i (p >>= f) := by
  intro s w w' h
  obtain ⟨⟨r, t⟩, v, v', hv, hv', hrun⟩ := (hp s w w' h).exists_eq
  rw [exec_bind, exec_bind, hv, hv']
  cases r with
  | error e => exact ⟨rfl, hrun⟩
  | ok a => exact hf a t v v' hrun

end SessionProgram

end Chronicle
