import Mathlib
import Gridcalc.Storage.Disk

/-! # Appending

What an append does to the disk as a whole: folders come into being where nothing was, and one
file gets longer if the append succeeds. Everything else stays as it is.
-/

namespace Gridcalc

namespace Place

def within (place : Place) : String := if place = [] then "" else place.key ++ "/"

theorem key_cons (name : String) (place : Place) : key (name :: place) = place.within ++ name := by
  rw [key, within, List.reverse_cons]
  split
  · rename_i h
    simp [h]
  · rename_i h
    rw [String.intercalate_append_of_ne_nil (by simpa using h) (List.cons_ne_nil name []), key]
    simp

theorem within_cons (name : String) (place : Place) :
    within (name :: place) = place.within ++ name ++ "/" := by
  rw [within, if_neg (List.cons_ne_nil _ _), key_cons]

theorem key_cons_inj {name name' : String} {place : Place} :
    key (name :: place) = key (name' :: place) ↔ name = name' := by
  rw [key_cons, key_cons, String.append_right_inj]

theorem enter_of_ne {name : String} (hdot : name ≠ ".") (hdots : name ≠ "..") (place : Place) :
    place.enter name = name :: place := by
  simp [enter, hdot, hdots]

theorem ofPath_child (p : Path) (name : String) :
    ofPath (p.child name) = (ofPath p).enter name := by
  simp only [ofPath, Path.child, List.foldl_append, List.foldl_cons, List.foldl_nil]
  rfl

end Place

namespace Path

@[simp] theorem parent_child (p : Path) (name : String) : (p.child name).parent = p := by
  simp [child, parent]

@[simp] theorem name_child (p : Path) (name : String) : (p.child name).name = name := by
  simp [child, Path.name]

end Path

namespace Disk

variable {d d' : Disk} {place : Place} {e : Entry}

/-- What is in the file at a place. Where there is none, there is nothing in it. -/
def contentAt (d : Disk) (place : Place) : List UInt8 := ((d.entryAt place).map Entry.octets).getD []

def content (d : Disk) (p : Path) : List UInt8 := d.contentAt (Place.ofPath p)

theorem entryAt_put (d : Disk) (place place' : Place) (e : Entry) :
    (d.put place e).entryAt place' =
      if place'.isGiven then some .folder
      else if place.key = place'.key then some e else d.entryAt place' := by
  simp only [entryAt, put, Std.TreeMap.getElem?_insert, Std.LawfulEqCmp.compare_eq_iff_eq]
  split
  · rfl
  · split <;> rfl

theorem contentAt_of_entryAt {d : Disk} {place : Place} {e : Entry}
    (h : d.entryAt place = some e) : d.contentAt place = e.octets := by
  simp [contentAt, h]

/-- The second disk has everything that the first one has, and beyond that only folders. -/
def Widens (d d' : Disk) : Prop :=
  ∀ place, d'.entryAt place = d.entryAt place ∨
    d.entryAt place = none ∧ d'.entryAt place = some .folder

namespace Widens

theorem refl (d : Disk) : Widens d d := fun _ => .inl rfl

theorem trans {d d' d'' : Disk} (h : Widens d d') (h' : Widens d' d'') : Widens d d'' := by
  intro place
  rcases h' place with hsame | ⟨hnone, hfolder⟩
  · rw [hsame]
    exact h place
  · rcases h place with hsame | ⟨-, hfolder'⟩
    · exact .inr ⟨hsame ▸ hnone, hfolder⟩
    · rw [hfolder'] at hnone
      cases hnone

theorem entryAt_eq (h : Widens d d') (hentry : d.entryAt place = some e) :
    d'.entryAt place = some e := by
  rcases h place with hsame | ⟨hnone, -⟩
  · rw [hsame, hentry]
  · rw [hnone] at hentry
    cases hentry

theorem contentAt_eq (h : Widens d d') (place : Place) : d'.contentAt place = d.contentAt place := by
  rcases h place with hsame | ⟨hnone, hfolder⟩
  · rw [contentAt, contentAt, hsame]
  · rw [contentAt, contentAt, hnone, hfolder]
    rfl

theorem put_folder (h : d.entryAt place = none) : Widens d (d.put place .folder) := by
  intro place'
  rw [entryAt_put]
  split
  · rename_i hgiven
    simp [entryAt, hgiven]
  · rename_i hgiven
    split
    · rename_i hkey
      have hplace : ¬ place.isGiven = true := by
        intro hplace
        simp [entryAt, hplace] at h
      rw [entryAt, if_neg hplace, hkey] at h
      exact .inr ⟨by rw [entryAt, if_neg hgiven, h], rfl⟩
    · exact .inl rfl

theorem makeAlong (names : List String) (d : Disk) (missing : Bool) (place : Place) :
    Widens d (d.makeAlong missing place names).1 := by
  induction names generalizing d missing place with
  | nil => exact refl d
  | cons name names ih =>
    rw [Disk.makeAlong]
    split
    · exact refl d
    · split
      · rename_i hnone
        exact (put_folder hnone).trans (ih _ true _)
      · exact ih d missing _
      · exact refl d

theorem makeFolder (d : Disk) (p : Path) : Widens d (d.makeFolder p).1 := by
  rw [Disk.makeFolder]
  split
  · exact refl d
  · exact makeAlong p.parts d false _

end Widens

theorem place_of_step {d : Disk} {place next : Place} {name : String}
    (h : d.step place name = .ok next) : next = place.enter name := by
  rw [step] at h
  split at h
  · cases h
  · split at h
    · cases h
    · exact (Except.ok.inj h).symm
  · cases h

theorem place_of_makeAlong {names : List String} {d : Disk} {missing : Bool} {place next : Place}
    (h : (d.makeAlong missing place names).2 = .ok next) : next = names.foldl Place.enter place := by
  induction names generalizing d missing place with
  | nil => exact (Except.ok.inj h).symm
  | cons name names ih =>
    rw [makeAlong] at h
    split at h
    · cases h
    · rename_i hstep
      rw [List.foldl_cons, ← place_of_step hstep]
      split at h
      · exact ih h
      · exact ih h
      · cases h

theorem place_of_makeFolder {d : Disk} {p : Path} {next : Place}
    (h : (d.makeFolder p).2 = .ok next) : next = Place.ofPath p := by
  rw [makeFolder] at h
  split at h
  · cases h
  · exact place_of_makeAlong h

/-- The octets were put at the end of what is at a place. -/
structure Appended (d : Disk) (place : Place) (octets : List UInt8) (d' : Disk) : Prop where
  at_place : d'.contentAt place = d.contentAt place ++ octets
  elsewhere : ∀ place' : Place, place.key ≠ place'.key → d'.contentAt place' = d.contentAt place'
  folders : ∀ place', d.entryAt place' = some .folder → d'.entryAt place' = some .folder

theorem Appended.of_widens {d mid d' : Disk} {place : Place} {octets : List UInt8}
    (h : Appended mid place octets d') (hwidens : Widens d mid) : Appended d place octets d' where
  at_place := by rw [h.at_place, hwidens.contentAt_eq]
  elsewhere place' hkey := by rw [h.elsewhere place' hkey, hwidens.contentAt_eq]
  folders place' hfolder := h.folders place' (hwidens.entryAt_eq hfolder)

theorem appendAt_of_not_folder {d : Disk} {place : Place} (octets : List UInt8)
    (h : d.entryAt place ≠ some .folder) :
    ∃ before, d.appendAt place octets = (d.put place (.file (octets :: before)), .ok ()) ∧
      before.reverse.flatten = d.contentAt place := by
  rw [appendAt, contentAt]
  split
  · rename_i hfolder
    exact absurd hfolder h
  · rename_i before hfile
    exact ⟨before, rfl, by simp [hfile, Entry.octets]⟩
  · rename_i hfolder hfile
    refine ⟨[], rfl, ?_⟩
    cases hentry : d.entryAt place with
    | none => rfl
    | some e =>
      cases e with
      | folder => exact absurd hentry hfolder
      | file before => exact absurd hentry (hfile before)
      | document content => rfl

theorem appended_put {d : Disk} {place : Place} (octets : List UInt8)
    {before : List (List UInt8)} (h : d.entryAt place ≠ some .folder)
    (hbefore : before.reverse.flatten = d.contentAt place) :
    Appended d place octets (d.put place (.file (octets :: before))) := by
  have hgiven : ¬ place.isGiven = true := fun hgiven => h (by simp [entryAt, hgiven])
  constructor
  · rw [contentAt, entryAt_put, if_neg hgiven, if_pos rfl, ← hbefore]
    simp [Entry.octets]
  · intro place' hkey
    rw [contentAt, contentAt, entryAt_put, if_neg hkey]
    split
    · rename_i hgiven'
      simp [entryAt, hgiven']
    · rfl
  · intro place' hfolder
    rw [entryAt_put]
    split
    · rfl
    · rename_i hgiven'
      split
      · rename_i hkey
        rw [entryAt, if_neg hgiven', ← hkey] at hfolder
        rw [entryAt, if_neg hgiven] at h
        exact absurd hfolder h
      · exact hfolder

/-- The folder of a file may be made in vain. -/
theorem append_cases (d : Disk) (folder : Path) (name : String) (octets : List UInt8) :
    ((d.append (folder.child name) octets).2 ≠ .ok () ∧
      Widens d (d.append (folder.child name) octets).1) ∨
    ((d.append (folder.child name) octets).2 = .ok () ∧
      Appended d ((Place.ofPath folder).enter name) octets
        (d.append (folder.child name) octets).1) := by
  rw [append, Path.parent_child, Path.name_child]
  have hwidens := Widens.makeFolder d folder
  rcases hmade : d.makeFolder folder with ⟨mid, fault | next⟩ <;> rw [hmade] at hwidens
  · exact .inl ⟨by simp, hwidens⟩
  · obtain rfl := place_of_makeFolder (congrArg Prod.snd hmade)
    dsimp only
    split
    · exact .inl ⟨by simp, hwidens⟩
    · split
      · exact .inl ⟨by simp, hwidens⟩
      · rename_i hstep
        obtain rfl := place_of_step hstep
        by_cases hfolder : mid.entryAt ((Place.ofPath folder).enter name) = some .folder
        · rw [appendAt, hfolder]
          exact .inl ⟨by simp, hwidens⟩
        · obtain ⟨before, happend, hbefore⟩ := appendAt_of_not_folder octets hfolder
          rw [happend]
          exact .inr ⟨rfl, (appended_put octets hfolder hbefore).of_widens hwidens⟩

/-- An append during which some files cannot be opened, each for a reason of its own. The folders
on the way are made before that shows. -/
def appendFacing (fault? : Path → Option DiskFault) (d : Disk) (p : Path) (octets : List UInt8) :
    Disk × Except DiskFault Unit :=
  match fault? p with
  | none => d.append p octets
  | some fault =>
    let (d, made) := d.makeFolder p.parent
    (d, made.bind fun _ => .error fault)

theorem appendFacing_cases (fault? : Path → Option DiskFault) (d : Disk) (folder : Path)
    (name : String) (octets : List UInt8) :
    ((d.appendFacing fault? (folder.child name) octets).2 ≠ .ok () ∧
      Widens d (d.appendFacing fault? (folder.child name) octets).1) ∨
    ((d.appendFacing fault? (folder.child name) octets).2 = .ok () ∧
      Appended d ((Place.ofPath folder).enter name) octets
        (d.appendFacing fault? (folder.child name) octets).1) := by
  rw [appendFacing]
  split
  · exact append_cases d folder name octets
  · refine .inl ⟨?_, ?_⟩
    · rcases d.makeFolder (folder.child name).parent with ⟨mid, fault | next⟩ <;>
        simp [Except.bind]
    · exact Widens.makeFolder d _

end Disk

end Gridcalc
