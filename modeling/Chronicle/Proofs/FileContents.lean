import Chronicle.Proofs.DiskSaves

/-!
# Files at a path

The file to which a path leads. Where there is one, the directory above it is there too, so the chat in it can be
saved: a save that fails has found no file, and it leaves none.
-/

namespace Chronicle

namespace Disk

variable {d d' : Disk} {path : String}

/-- The file to which a path leads, by its text. A path that ends in a slash leads to no file. -/
def file? (d : Disk) (path : String) : Option (Option String) :=
  match d.walk path with
  | .error _ => none
  | .ok p =>
    match d.lookup p with
    | .ok (.file text?) => if endsInSlash path then none else some text?
    | _ => none

theorem file?_eq_some_iff {text? : Option String} : d.file? path = some text? ↔
    endsInSlash path = false ∧ ∃ p, d.walk path = .ok p ∧ d.lookup p = .ok (.file text?) := by
  unfold file?
  cases hw : d.walk path with
  | error e => simp
  | ok p =>
    cases hl : d.lookup p with
    | error e => simp [hl]
    | ok e =>
      cases e with
      | directory => simp [hl]
      | file t? => cases endsInSlash path <;> simp [hl]

theorem file?_of_read {text : String} (h : d.read path = .ok text) : d.file? path = some (some text) := by
  obtain ⟨p, hw, h⟩ := exists_of_bind_ok h
  obtain ⟨e, hl, h⟩ := exists_of_bind_ok h
  cases e with
  | directory => exact absurd h (throw_ne_ok _ _)
  | file text? =>
    simp only at h
    split at h
    · exact absurd h (throw_ne_ok _ _)
    · next hs =>
      cases text? with
      | none => exact absurd h (throw_ne_ok _ _)
      | some t =>
        obtain rfl : t = text := Except.ok.inj h
        exact file?_eq_some_iff.mpr ⟨by simpa using hs, p, hw, hl⟩

/-- Steps that stay where they are may be left out. -/
theorem foldlM_step_filter {way : List String} {p q : Place} (h : way.foldlM d.step p = .ok q) :
    (way.filter (· ≠ ".")).foldlM d.step p = .ok q := by
  induction way generalizing p with
  | nil => exact h
  | cons name way ih =>
    rw [List.foldlM_cons] at h
    obtain ⟨r, hs, h⟩ := exists_of_bind_ok h
    by_cases hname : name = "."
    · obtain ⟨-, hgo⟩ := step_eq_ok_iff.mp hs
      rw [hname, Place.go, if_pos rfl] at hgo
      rw [List.filter_cons_of_neg (by simpa using hname), hgo]
      exact ih h
    · rw [List.filter_cons_of_pos (by simpa using hname), List.foldlM_cons, hs]
      exact ih h

theorem walk_eq_ok {p : Place} (h : d.walk path = .ok p) : (steps path).foldlM d.step [] = .ok p := by
  unfold walk at h
  split at h
  · exact absurd h (by simp)
  split at h
  · exact absurd h (by simp)
  split at h
  · exact absurd h (by simp)
  · exact h

/-- A file stands in a directory. -/
theorem hasDirectory_of_file {p : Place} {text? : Option String} (hw : d.walk path = .ok p)
    (hl : d.lookup p = .ok (.file text?)) : d.HasDirectory (components path).dropLast.reverse := by
  have hwalk := walk_eq_ok hw
  unfold HasDirectory components
  rw [List.reverse_reverse]
  rcases List.eq_nil_or_concat (steps path) with hnil | ⟨way, name, hsteps⟩
  · rw [hnil]
    exact ⟨[], rfl, rfl⟩
  rw [hsteps, List.concat_eq_append, List.foldlM_append] at hwalk
  obtain ⟨q, hway, hname⟩ := exists_of_bind_ok hwalk
  rw [List.foldlM_cons] at hname
  obtain ⟨r, hs, hr⟩ := exists_of_bind_ok hname
  obtain rfl : r = p := Except.ok.inj hr
  obtain ⟨hq, hgo⟩ := step_eq_ok_iff.mp hs
  -- the last step leads away from a directory, so it is one of the components
  have hdot : name ≠ "." := by
    rintro rfl
    rw [Place.go, if_pos rfl] at hgo
    rw [hgo, hl] at hq
    exact absurd hq (by simp)
  rw [hsteps, List.concat_eq_append]
  cases way with
  | nil => exact ⟨[], rfl, rfl⟩
  | cons first rest =>
    rw [List.foldlM_cons] at hway
    obtain ⟨r, hfirst, hrest⟩ := exists_of_bind_ok hway
    refine ⟨q, ?_, hq⟩
    simp only [List.cons_append]
    rw [List.filter_append, List.filter_cons_of_pos (by simpa using hdot), List.filter_nil, ← List.cons_append,
      List.dropLast_concat, List.foldlM_cons, hfirst]
    exact foldlM_step_filter hrest

theorem holds_iff : d.Holds path ↔ (d.file? path).isSome := by
  rw [Option.isSome_iff_exists]
  constructor
  · rintro ⟨-, hs, p, text?, hw, hl⟩
    exact ⟨text?, file?_eq_some_iff.mpr ⟨hs, p, hw, hl⟩⟩
  · rintro ⟨text?, h⟩
    obtain ⟨hs, p, hw, hl⟩ := file?_eq_some_iff.mp h
    exact ⟨hasDirectory_of_file hw hl, hs, p, text?, hw, hl⟩

theorem file?_of_not_holds (h : ¬d.Holds path) : d.file? path = none := by
  rwa [holds_iff, Option.not_isSome_iff_eq_none] at h

/-- A directory stands in a directory. -/
theorem HasDirectory.above {name : String} {above : List String} (h : d.HasDirectory (name :: above)) :
    d.HasDirectory above := by
  obtain ⟨p, hw, -⟩ := h
  rw [List.reverse_cons, List.foldlM_append] at hw
  obtain ⟨q, hway, hname⟩ := exists_of_bind_ok hw
  rw [List.foldlM_cons] at hname
  obtain ⟨r, hs, -⟩ := exists_of_bind_ok hname
  exact ⟨q, hway, (step_eq_ok_iff.mp hs).1⟩

/-- Directories that cannot be made are not there in the end, whatever was made on the way to them. -/
theorem not_hasDirectory_of_makeDirectories {way : List String} {e : DiskError}
    (h : d.makeDirectories way = (.error e, d')) : ¬d'.HasDirectory way := by
  induction way generalizing e d' with
  | nil => exact absurd h (by simp [makeDirectories])
  | cons name above ih =>
    rw [makeDirectories] at h
    have hfail {d₁ : Disk} {e' : DiskError} (hm : d₁.makeDirectory (name :: above) = .error e') :
        ¬d₁.HasDirectory (name :: above) := by
      intro hd
      rw [makeDirectory_of_hasDirectory hd] at hm
      exact absurd hm (by simp)
    split at h
    · exact absurd h (by simp)
    · split at h
      · next habove =>
        obtain ⟨-, rfl⟩ := Prod.mk.inj h
        exact fun hd => ih habove hd.above
      · split at h
        · exact absurd h (by simp)
        · next hm =>
          obtain ⟨-, rfl⟩ := Prod.mk.inj h
          exact hfail hm
    · next hm =>
      obtain ⟨-, rfl⟩ := Prod.mk.inj h
      exact hfail hm

end Disk

namespace Host

variable {h h' : Host} {path : String}

theorem exists_disk_save (h : Host) : ∃ disk, h.save.2 = { h with disk } := by
  unfold save
  split
  · exact ⟨h.disk, rfl⟩
  · split
    · exact ⟨_, rfl⟩
    · split <;> exact ⟨_, rfl⟩

theorem file?_of_save (hp : h.path? = some path) (hs : h.save = (.ok (), h')) :
    h'.disk.file? path = some (some h.chat.toJson.pretty) := by
  have hw := written_of_save hs
  obtain ⟨disk, rfl, -⟩ := ok_of_save hs
  exact Disk.file?_of_read (hw path hp)

/-- A save that fails has found no file and leaves none. -/
theorem file?_of_save_error {e : HostError} (hp : h.path? = some path) (hs : h.save = (.error e, h')) :
    h.disk.file? path = none ∧ h'.disk.file? path = none := by
  constructor
  · refine Disk.file?_of_not_holds fun hholds => ?_
    have hk : h.Kept := fun path' hp' => Option.some.inj (hp.symm.trans hp') ▸ hholds
    obtain ⟨disk, hok, -⟩ := exists_save_of_kept hk
    exact absurd (hok.symm.trans hs) (by simp)
  · refine Disk.file?_of_not_holds fun hholds => ?_
    simp only [save, hp] at hs
    split at hs
    · next hm =>
      obtain ⟨-, rfl⟩ := Prod.mk.inj hs
      exact Disk.not_hasDirectory_of_makeDirectories hm hholds.parent
    · split at hs
      · exact absurd hs (by simp)
      · next hwrite =>
        obtain ⟨-, rfl⟩ := Prod.mk.inj hs
        obtain ⟨disk, hok, -⟩ := Disk.exists_write_of_holds hholds h.chat.toJson.pretty
        exact absurd (hok.symm.trans hwrite) (by simp)

end Host

end Chronicle
