import Gridcalc.Proofs.Storage.Append

/-! # Folders that are there

Once a folder has been made it can be entered, and it stays. In such a folder a file can be
written and found, provided its name and its path are not too long.
-/

namespace Gridcalc

/-- Whether a file system takes the path and the name of a file. -/
def Path.Fits (p : Path) : Prop := p.isTooLong = false ∧ p.name.utf8ByteSize ≤ Path.longestName

instance (p : Path) : Decidable p.Fits := inferInstanceAs (Decidable (_ ∧ _))

namespace Disk

variable {d d' : Disk} {place next : Place} {names : List String} {folder p : Path} {name : String}

/-- The way to a folder can be gone, and the folder is at its end. -/
structure HasFolder (d : Disk) (p : Path) : Prop where
  short : p.isTooLong = false
  follow : d.follow (Place.start p) p.parts = .ok (Place.ofPath p)
  folder : d.entryAt (Place.ofPath p) = some .folder

/-- No folder of the first disk is anything else on the second one. -/
def FoldersStay (d d' : Disk) : Prop :=
  ∀ place, d.entryAt place = some .folder → d'.entryAt place = some .folder

theorem Widens.foldersStay (h : Widens d d') : FoldersStay d d' := fun _ => h.entryAt_eq

theorem step_eq_ok_iff :
    d.step place name = .ok next ↔
      d.entryAt place = some .folder ∧ name.utf8ByteSize ≤ Path.longestName ∧
        place.enter name = next := by
  rw [step]
  split
  · rename_i h
    simp [h]
  · rename_i h
    split
    · rename_i hlong
      simp [Nat.not_le.mpr hlong]
    · rename_i hlong
      simp [h, Nat.not_lt.mp hlong]
  · rename_i hfolder h
    simp [h]
    exact fun heq => (hfolder heq).elim

theorem follow_cons_eq_ok_iff {last : Place} :
    d.follow place (name :: names) = .ok last ↔
      ∃ next, d.step place name = .ok next ∧ d.follow next names = .ok last := by
  rw [follow]
  split
  · rename_i h
    simp [h]
  · rename_i h
    simp [h]

theorem follow_of_foldersStay (h : FoldersStay d d') (hfollow : d.follow place names = .ok next) :
    d'.follow place names = .ok next := by
  induction names generalizing place with
  | nil => exact hfollow
  | cons name names ih =>
    obtain ⟨mid, hstep, hrest⟩ := follow_cons_eq_ok_iff.mp hfollow
    obtain ⟨hfolder, hname⟩ := step_eq_ok_iff.mp hstep
    exact follow_cons_eq_ok_iff.mpr ⟨mid, step_eq_ok_iff.mpr ⟨h place hfolder, hname⟩, ih hrest⟩

theorem follow_append (names' : List String) :
    d.follow place (names ++ names') =
      match d.follow place names with
      | .ok next => d.follow next names'
      | .error fault => .error fault := by
  induction names generalizing place with
  | nil => rfl
  | cons name names ih =>
    rw [List.cons_append, follow, follow]
    split
    · rfl
    · exact ih

theorem HasFolder.of_foldersStay (hd : d.HasFolder p) (h : FoldersStay d d') : d'.HasFolder p where
  short := hd.short
  follow := follow_of_foldersStay h hd.follow
  folder := h _ hd.folder

theorem entryAt_start (d : Disk) (p : Path) : d.entryAt (Place.start p) = some .folder := by
  rw [entryAt, if_pos]
  rw [Place.start]
  split <;> rfl

theorem entryAt_put_folder (d : Disk) (place : Place) :
    (d.put place .folder).entryAt place = some .folder := by
  rw [entryAt_put]
  split
  · rfl
  · rw [if_pos rfl]

theorem follow_makeAlong {missing : Bool} (hfolder : d.entryAt place = some .folder)
    (h : (d.makeAlong missing place names).2 = .ok next) :
    (d.makeAlong missing place names).1.follow place names = .ok next ∧
      (d.makeAlong missing place names).1.entryAt next = some .folder := by
  induction names generalizing d place missing with
  | nil =>
    obtain rfl := Except.ok.inj h
    exact ⟨rfl, hfolder⟩
  | cons name names ih =>
    -- The first step can be taken on any disk that came later.
    have hfirst : ∀ mid d', d.step place name = .ok mid → FoldersStay d d' →
        d'.follow mid names = .ok next → d'.follow place (name :: names) = .ok next := by
      intro mid d' hstep hstay hrest
      obtain ⟨hplace, hname⟩ := step_eq_ok_iff.mp hstep
      exact follow_cons_eq_ok_iff.mpr ⟨mid, step_eq_ok_iff.mpr ⟨hstay _ hplace, hname⟩, hrest⟩
    rw [makeAlong] at h ⊢
    split at h
    · cases h
    · rename_i mid hstep
      split at h
      · rename_i hnone
        have hwidens := (Widens.put_folder hnone).trans (Widens.makeAlong names _ true mid)
        obtain ⟨hrest, hend⟩ := ih (entryAt_put_folder d mid) h
        exact ⟨hfirst mid _ hstep hwidens.foldersStay hrest, hend⟩
      · rename_i hmid
        have hwidens := Widens.makeAlong names d missing mid
        obtain ⟨hrest, hend⟩ := ih hmid h
        exact ⟨hfirst mid _ hstep hwidens.foldersStay hrest, hend⟩
      · cases h

theorem hasFolder_of_makeFolder (h : (d.makeFolder p).2 = .ok place) :
    (d.makeFolder p).1.HasFolder p := by
  obtain rfl := place_of_makeFolder h
  rw [makeFolder] at h ⊢
  split at h
  · cases h
  · rename_i hshort
    rw [if_neg hshort]
    obtain ⟨hfollow, hend⟩ := follow_makeAlong (d.entryAt_start p) h
    exact ⟨by simpa using hshort, hfollow, hend⟩

/-- There is nothing to make on a way that can be gone. -/
theorem makeAlong_of_follow {missing : Bool} (h : d.follow place names = .ok next)
    (hend : d.entryAt next = some .folder) :
    d.makeAlong missing place names = (d, .ok next) := by
  induction names generalizing place with
  | nil =>
    obtain rfl := Except.ok.inj h
    rfl
  | cons name names ih =>
    obtain ⟨mid, hstep, hrest⟩ := follow_cons_eq_ok_iff.mp h
    have hmid : d.entryAt mid = some .folder := by
      cases names with
      | nil =>
        obtain rfl := Except.ok.inj hrest
        exact hend
      | cons name' names =>
        obtain ⟨_, hstep', -⟩ := follow_cons_eq_ok_iff.mp hrest
        exact (step_eq_ok_iff.mp hstep').1
    rw [makeAlong, hstep]
    dsimp only
    rw [hmid]
    exact ih hrest

theorem HasFolder.makeFolder_eq (h : d.HasFolder p) :
    d.makeFolder p = (d, .ok (Place.ofPath p)) := by
  rw [makeFolder, if_neg (by simp [h.short])]
  exact makeAlong_of_follow h.follow h.folder

theorem HasFolder.step_eq (h : d.HasFolder folder) (hfits : (folder.child name).Fits) :
    d.step (Place.ofPath folder) name = .ok (Place.ofPath (folder.child name)) := by
  rw [step_eq_ok_iff, Place.ofPath_child]
  exact ⟨h.folder, by simpa using hfits.2, rfl⟩

theorem HasFolder.find?_eq (h : d.HasFolder folder) (hfits : (folder.child name).Fits) :
    d.find? (folder.child name) = .ok (d.entryAt (Place.ofPath (folder.child name))) := by
  have hfollow : d.follow (Place.start (folder.child name)) (folder.child name).parts =
      .ok (Place.ofPath (folder.child name)) := by
    have hstart : Place.start (folder.child name) = Place.start folder := rfl
    rw [hstart, Path.child, follow_append, h.follow]
    exact follow_cons_eq_ok_iff.mpr ⟨_, h.step_eq hfits, rfl⟩
  rw [find?, if_neg (by simp [hfits.1]), hfollow]

theorem longestName_lt_of_not_fits (hfits : ¬ (folder.child name).Fits)
    (hshort : ¬ (folder.child name).isTooLong = true) :
    Path.longestName < name.utf8ByteSize := by
  rw [Path.Fits, Path.name_child, not_and, Nat.not_le] at hfits
  exact hfits (by simpa using hshort)

theorem HasFolder.find?_of_not_fits (h : d.HasFolder folder) (hfits : ¬ (folder.child name).Fits) :
    d.find? (folder.child name) = .error .nameTooLong := by
  rw [find?]
  split
  · rfl
  · rename_i hshort
    have hlong := longestName_lt_of_not_fits hfits hshort
    have hstart : Place.start (folder.child name) = Place.start folder := rfl
    have hstep : d.follow (Place.ofPath folder) [name] = .error .nameTooLong := by
      rw [Disk.follow, Disk.step, h.folder]
      simp only [if_pos hlong]
    rw [hstart, Path.child, follow_append, h.follow]
    simp only [hstep]

theorem HasFolder.append_eq (h : d.HasFolder folder) (hfits : (folder.child name).Fits)
    (octets : List UInt8) :
    d.append (folder.child name) octets =
      d.appendAt (Place.ofPath (folder.child name)) octets := by
  rw [append, Path.parent_child, Path.name_child, h.makeFolder_eq]
  dsimp only
  rw [if_neg (by simp [hfits.1]), h.step_eq hfits]

theorem HasFolder.append_of_not_fits (h : d.HasFolder folder)
    (hfits : ¬ (folder.child name).Fits) (octets : List UInt8) :
    d.append (folder.child name) octets = (d, .error .nameTooLong) := by
  rw [append, Path.parent_child, Path.name_child, h.makeFolder_eq]
  dsimp only
  split
  · rfl
  · rename_i hshort
    have hlong := longestName_lt_of_not_fits hfits hshort
    rw [step, h.folder]
    simp only [if_pos hlong]

end Disk

end Gridcalc
