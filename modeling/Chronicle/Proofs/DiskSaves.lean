import Chronicle.Chat.Host
import Chronicle.Proofs.Success

/-!
# Saving again

Where a chat has been saved once it can be saved again: its directories stay directories and its file
stays a file, whatever is written to it.
-/

namespace Chronicle

namespace Disk

variable {d d' : Disk}

theorem lookup_entries_put_of_ne {p q : Place} (h : q ≠ p) (e : Entry) (entries : List (Place × Entry)) :
    ((p, e) :: entries.filter (·.1 ≠ p)).lookup q = entries.lookup q := by
  have hq : (q == p) = false := by simpa using h
  rw [List.lookup_cons, hq]
  simp only
  induction entries with
  | nil => rfl
  | cons f entries ih =>
    obtain ⟨r, g⟩ := f
    by_cases hr : r = p
    · subst hr
      rw [List.filter_cons_of_neg (by simp), ih, List.lookup_cons, hq]
    · rw [List.filter_cons_of_pos (by simpa using hr), List.lookup_cons, List.lookup_cons, ih]

theorem lookup_put_of_ne {p q : Place} (h : q ≠ p) (e : Entry) : (d.put p e).lookup q = d.lookup q := by
  rw [lookup, lookup, put, lookup_entries_put_of_ne h]

/-- A place where a file can be written: there is one, or nothing. -/
def Free (d : Disk) (p : Place) : Prop := d.lookup p = .error .missing ∨ ∃ text?, d.lookup p = .ok (.file text?)

theorem lookup_put_self {p : Place} (h : d.Free p) (e : Entry) : (d.put p e).lookup p = .ok e := by
  unfold Free lookup at h
  rw [lookup, put]
  split at h
  · simp at h
  · next hfixed =>
    split at h
    · simp at h
    · next hname =>
      rw [if_neg hfixed, if_neg hname, List.lookup_cons_self]
      rfl

/-- The directories of the first disk are directories of the second one. -/
def Keeps (d d' : Disk) : Prop := ∀ p, d.lookup p = .ok .directory → d'.lookup p = .ok .directory

theorem keeps_put {p : Place} (h : d.Free p) (e : Entry) : d.Keeps (d.put p e) := by
  intro q hq
  have hne : q ≠ p := by
    rintro rfl
    rcases h with h | ⟨text?, h⟩
    · rw [h] at hq
      exact absurd hq (by simp)
    · rw [h] at hq
      exact absurd hq (by simp)
  rw [lookup_put_of_ne hne, hq]

theorem step_eq_ok_iff {p q : Place} {name : String} :
    d.step p name = .ok q ↔ d.lookup p = .ok .directory ∧ p.go name = q := by
  unfold step
  cases h : d.lookup p with
  | error e => simp [bind, Except.bind]
  | ok e =>
    cases e with
    | directory => simp [bind, Except.bind, pure, Except.pure]
    | file text? => simp [bind, Except.bind, throw, throwThe, MonadExceptOf.throw]

theorem Keeps.foldlM_step (h : d.Keeps d') {way : List String} {p q : Place} (hw : way.foldlM d.step p = .ok q) :
    way.foldlM d'.step p = .ok q := by
  induction way generalizing p with
  | nil => exact hw
  | cons name way ih =>
    rw [List.foldlM_cons] at hw ⊢
    obtain ⟨r, hs, hw⟩ := exists_of_bind_ok hw
    obtain ⟨hp, hr⟩ := step_eq_ok_iff.mp hs
    rw [step_eq_ok_iff.mpr ⟨h p hp, hr⟩]
    exact ih hw

/-- Steps, the last one first, lead to a directory. -/
def HasDirectory (d : Disk) (way : List String) : Prop :=
  ∃ p, way.reverse.foldlM d.step [] = .ok p ∧ d.lookup p = .ok .directory

theorem HasDirectory.keeps {way : List String} (h : d.HasDirectory way) (hk : d.Keeps d') : d'.HasDirectory way := by
  obtain ⟨p, hw, hp⟩ := h
  exact ⟨p, hk.foldlM_step hw, hk p hp⟩

theorem hasDirectory_of_makeDirectory {way : List String} (h : d.makeDirectory way = .ok d') :
    d'.HasDirectory way := by
  obtain ⟨p, hw, h⟩ := exists_of_bind_ok h
  split at h
  · next hp => exact Except.ok.inj h ▸ ⟨p, hw, hp⟩
  · exact absurd h (throw_ne_ok _ _)
  · next hp =>
    rw [← Except.ok.inj h]
    exact ⟨p, (keeps_put (Or.inl hp) .directory).foldlM_step hw, lookup_put_self (Or.inl hp) .directory⟩
  · exact absurd h (throw_ne_ok _ _)

theorem hasDirectory_of_makeDirectories {way : List String} (h : d.makeDirectories way = (.ok (), d')) :
    d'.HasDirectory way := by
  cases way with
  | nil => exact ⟨[], rfl, rfl⟩
  | cons name above =>
    rw [makeDirectories] at h
    split at h
    · next hm => exact (Prod.mk.inj h).2 ▸ hasDirectory_of_makeDirectory hm
    · split at h
      · exact absurd h (by simp)
      · split at h
        · next hm => exact (Prod.mk.inj h).2 ▸ hasDirectory_of_makeDirectory hm
        · exact absurd h (by simp)
    · exact absurd h (by simp)

theorem makeDirectory_of_hasDirectory {way : List String} (h : d.HasDirectory way) : d.makeDirectory way = .ok d := by
  obtain ⟨p, hw, hp⟩ := h
  simp only [makeDirectory, hw, hp, bind, Except.bind]
  rfl

theorem makeDirectories_of_hasDirectory {way : List String} (h : d.HasDirectory way) :
    d.makeDirectories way = (.ok (), d) := by
  cases way with
  | nil => rfl
  | cons name above => rw [makeDirectories, makeDirectory_of_hasDirectory h]

theorem Keeps.walk (h : d.Keeps d') {path : String} {p : Place} (hw : d.walk path = .ok p) : d'.walk path = .ok p := by
  unfold Disk.walk at hw ⊢
  split at hw
  · exact absurd hw (by simp)
  split at hw
  · exact absurd hw (by simp)
  split at hw
  · exact absurd hw (by simp)
  · next h₁ h₂ h₃ =>
    rw [if_neg h₁, if_neg h₂, if_neg h₃]
    exact h.foldlM_step hw

/-- The file at a path is there, and so is the directory above it. -/
structure Holds (d : Disk) (path : String) : Prop where
  parent : d.HasDirectory (components path).dropLast.reverse
  slash : endsInSlash path = false
  file : ∃ p text?, d.walk path = .ok p ∧ d.lookup p = .ok (.file text?)

theorem write_eq {path text : String} (h : d.write path text = .ok d') :
    ∃ p, d.walk path = .ok p ∧ endsInSlash path = false ∧ d.Free p ∧ d' = d.put p (.file text) := by
  obtain ⟨p, hw, h⟩ := exists_of_bind_ok h
  cases hs : endsInSlash path with
  | true => exact absurd h (by simp [hs, throw, throwThe, MonadExceptOf.throw, bind, Except.bind])
  | false =>
    simp only [hs, Bool.false_eq_true, if_false] at h
    refine ⟨p, hw, rfl, ?_⟩
    split at h
    · exact absurd h (throw_ne_ok _ _)
    · next text? hf => exact ⟨Or.inr ⟨text?, hf⟩, (Except.ok.inj h).symm⟩
    · next hf => exact ⟨Or.inl hf, (Except.ok.inj h).symm⟩
    · exact absurd h (throw_ne_ok _ _)

/-- What has been written to a file is read from it. -/
theorem read_of_write {path text : String} (h : d.write path text = .ok d') : d'.read path = .ok text := by
  obtain ⟨p, hw, hs, hf, rfl⟩ := write_eq h
  have hwalk := (keeps_put hf (.file text)).walk hw
  simp [read, hwalk, lookup_put_self hf, hs, bind, Except.bind, pure, Except.pure]

theorem holds_of_write {path text : String} (hp : d.HasDirectory (components path).dropLast.reverse)
    (h : d.write path text = .ok d') : d'.Holds path := by
  obtain ⟨p, hw, hs, hf, rfl⟩ := write_eq h
  have hk := keeps_put hf (.file text)
  exact ⟨hp.keeps hk, hs, p, text, hk.walk hw, lookup_put_self hf _⟩

theorem exists_write_of_holds {path : String} (h : d.Holds path) (text : String) :
    ∃ d', d.write path text = .ok d' ∧ d'.Holds path := by
  obtain ⟨p, text?, hw, hf⟩ := h.file
  have hwrite : d.write path text = .ok (d.put p (.file text)) := by
    simp [write, hw, h.slash, hf, bind, Except.bind, pure, Except.pure]
  exact ⟨_, hwrite, holds_of_write h.parent hwrite⟩

end Disk

namespace Host

variable {h h' : Host}

/-- The chat has been saved to its file, if it is kept in one. -/
def Kept (h : Host) : Prop := ∀ path, h.path? = some path → h.disk.Holds path

theorem chat_save (h : Host) : h.save.2.chat = h.chat := by
  unfold save
  split
  · rfl
  · split
    · rfl
    · split <;> rfl

/-- A change of the chat is made whether it can be saved or not. -/
theorem chat_update (f : Transcript → Except HostError α × Transcript) (h : Host) :
    (h.update f).2.chat = (f h.chat).2 := by
  unfold update
  split
  · next hf => rw [hf]
  · next chat hf =>
    have hs := chat_save { h with chat }
    rw [hf]
    split
    · next hs' => rw [hs'] at hs; exact hs
    · next hs' => rw [hs'] at hs; exact hs

/-- The file of the chat, if it is kept in one, holds the chat as it is written. -/
def Written (h : Host) : Prop := ∀ path, h.path? = some path → h.disk.read path = .ok h.chat.toJson.pretty

theorem ok_of_save (hs : h.save = (.ok (), h')) : ∃ disk, h' = { h with disk } ∧
    ∀ path, h.path? = some path → ∃ d, h.disk.makeParent path = (.ok (), d) ∧
      d.write path h.chat.toJson.pretty = .ok disk := by
  unfold save at hs
  split at hs
  · next hp => exact ⟨h.disk, (Prod.mk.inj hs).2.symm, fun path hpath => absurd (hp.symm.trans hpath) (by simp)⟩
  · next path hp =>
    split at hs
    · exact absurd hs (by simp)
    · next d hparent =>
      split at hs
      · next disk hwrite =>
        refine ⟨disk, (Prod.mk.inj hs).2.symm, fun path' hpath => ?_⟩
        obtain rfl : path = path' := Option.some.inj (hp.symm.trans hpath)
        exact ⟨d, hparent, hwrite⟩
      · exact absurd hs (by simp)

theorem kept_of_save (hs : h.save = (.ok (), h')) : ∃ disk, h' = { h with disk } ∧ h'.Kept := by
  obtain ⟨disk, rfl, hwrite⟩ := ok_of_save hs
  refine ⟨disk, rfl, fun path hpath => ?_⟩
  obtain ⟨d, hparent, hwrite⟩ := hwrite path hpath
  exact Disk.holds_of_write (Disk.hasDirectory_of_makeDirectories hparent) hwrite

theorem written_of_save (hs : h.save = (.ok (), h')) : h'.Written := by
  obtain ⟨disk, rfl, hwrite⟩ := ok_of_save hs
  intro path hpath
  obtain ⟨d, -, hwrite⟩ := hwrite path hpath
  exact Disk.read_of_write hwrite

theorem save_of_update {f : Transcript → Except HostError α × Transcript} {a : α} (hu : h.update f = (.ok a, h')) :
    ∃ chat, f h.chat = (.ok a, chat) ∧ save { h with chat } = (.ok (), h') := by
  unfold update at hu
  cases hf : f h.chat with
  | mk r chat =>
    rw [hf] at hu
    cases r with
    | error e => exact absurd hu (by simp)
    | ok b =>
      simp only at hu
      cases hs : save { h with chat } with
      | mk r host =>
        rw [hs] at hu
        cases r with
        | error e => exact absurd hu (by simp)
        | ok u =>
          simp only [Prod.mk.injEq, Except.ok.injEq] at hu
          obtain ⟨rfl, rfl⟩ := hu
          exact ⟨chat, rfl, hs⟩

theorem ok_of_update {f : Transcript → Except HostError α × Transcript} {a : α} (hu : h.update f = (.ok a, h')) :
    ∃ chat disk, f h.chat = (.ok a, chat) ∧ h' = { h with chat, disk } ∧ h'.Kept := by
  obtain ⟨chat, hf, hs⟩ := save_of_update hu
  obtain ⟨disk, rfl, hk⟩ := kept_of_save hs
  exact ⟨chat, disk, hf, rfl, hk⟩

theorem written_of_update {f : Transcript → Except HostError α × Transcript} {a : α}
    (hu : h.update f = (.ok a, h')) : h'.Written := by
  obtain ⟨chat, -, hs⟩ := save_of_update hu
  exact written_of_save hs

/-- A chat that has been saved can be saved again. -/
theorem exists_save_of_kept (hk : h.Kept) :
    ∃ disk, h.save = (.ok (), { h with disk }) ∧ ({ h with disk } : Host).Kept := by
  obtain ⟨chat, path?, disk, refused⟩ := h
  cases path? with
  | none => exact ⟨disk, rfl, hk⟩
  | some path =>
    have hholds : disk.Holds path := hk path rfl
    obtain ⟨disk', hwrite, hdisk⟩ := Disk.exists_write_of_holds hholds chat.toJson.pretty
    refine ⟨disk', ?_, ?_⟩
    · simp only [save, Disk.makeParent, Disk.makeDirectories_of_hasDirectory hholds.parent, hwrite]
    · intro path' hpath
      rw [← Option.some.inj hpath]
      exact hdisk

theorem update_of_kept {f : Transcript → Except HostError α × Transcript} {a : α} {chat : Transcript} (hk : h.Kept)
    (hf : f h.chat = (.ok a, chat)) :
    ∃ disk, h.update f = (.ok a, { h with chat, disk }) ∧ ({ h with chat, disk } : Host).Kept := by
  have hkept : ({ h with chat } : Host).Kept := hk
  obtain ⟨disk, hs, hdisk⟩ := exists_save_of_kept hkept
  exact ⟨disk, by simp only [update, hf, hs], hdisk⟩

end Host

end Chronicle
