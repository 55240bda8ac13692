import Gridcalc.Journal.Basic
import Gridcalc.Proofs.Storage.Append

/-! # Runs of writes

A write is two appends, and either can fail; what the first one wrote is not taken back. Over a
run of such writes the file of a sheet holds the lines of its own writes that went well, and they
are all in the common file.
-/

namespace Gridcalc.Journal

structure Call where
  event : Event
  sheet : Option String := none

def Call.octets (c : Call) : List UInt8 := Text.Utf8.encode c.event.lineChars

structure Attempt extends Call where
  fault? : Path → Option DiskFault

variable {j : Journal} {d : Disk} {a : Attempt} {id : String}

def attempt (j : Journal) (d : Disk) (a : Attempt) : Disk × Except WriteFault Unit :=
  j.writeBy (Disk.appendFacing a.fault?) d a.event a.sheet

theorem attempt_freely (j : Journal) (d : Disk) (c : Call) :
    j.attempt d ⟨c, fun _ => none⟩ = j.write d c.event c.sheet := rfl

def run (j : Journal) (d : Disk) (as : List Attempt) : Disk :=
  as.foldl (fun d a => (j.attempt d a).1) d

def appendCommon (j : Journal) (d : Disk) (a : Attempt) : Disk × Except DiskFault Unit :=
  d.appendFacing a.fault? j.commonFile a.octets

def appendOwn (j : Journal) (id : String) (d : Disk) (a : Attempt) :
    Disk × Except DiskFault Unit :=
  (j.appendCommon d a).1.appendFacing a.fault? (j.sheetFile id) a.octets

/-- Whether the append to the common file is made, and goes well. -/
def entersCommon (j : Journal) (d : Disk) (a : Attempt) : Bool :=
  !j.refuses a.event && decide ((j.appendCommon d a).2 = .ok ())

/-- Whether the call is about the sheet `id` and both its appends are made, and go well. -/
def entersSheet (j : Journal) (id : String) (d : Disk) (a : Attempt) : Bool :=
  decide (a.sheet = some id) && isSafe id && j.entersCommon d a &&
    decide ((j.appendOwn id d a).2 = .ok ())

/-- The attempts of a run that pass a test in the state in which they are made. -/
def those (j : Journal) (test : Disk → Attempt → Bool) : Disk → List Attempt → List Attempt
  | _, [] => []
  | d, a :: as =>
    if test d a then a :: j.those test (j.attempt d a).1 as else j.those test (j.attempt d a).1 as

theorem those_sublist {test test' : Disk → Attempt → Bool}
    (himp : ∀ d a, test d a = true → test' d a = true) (d : Disk) (as : List Attempt) :
    (j.those test d as).Sublist (j.those test' d as) := by
  induction as generalizing d with
  | nil => exact .slnil
  | cons a as ih =>
    rw [those, those]
    split
    · rename_i h
      rw [if_pos (himp d a h)]
      exact (ih _).cons_cons a
    · split
      · exact (ih _).cons a
      · exact ih _

theorem ofPath_commonFile (j : Journal) :
    Place.ofPath j.commonFile = "events.ndjson" :: Place.ofPath j.folder := by
  rw [commonFile, Place.ofPath_child, Place.enter_of_ne (by decide) (by decide)]

theorem enter_sheetName (place : Place) (id : String) :
    place.enter (id ++ ".ndjson") = (id ++ ".ndjson") :: place := by
  apply Place.enter_of_ne <;>
  · intro h
    have hlength := congrArg String.length h
    simp [String.length_append, show ".ndjson".length = 7 from rfl, show ".".length = 1 from rfl,
      show "..".length = 2 from rfl] at hlength

theorem ofPath_sheetFile (j : Journal) (id : String) :
    Place.ofPath (j.sheetFile id) = (id ++ ".ndjson") :: "sheets" :: Place.ofPath j.folder := by
  rw [sheetFile, Place.ofPath_child, enter_sheetName, sheetFolder, Place.ofPath_child,
    Place.enter_of_ne (by decide) (by decide)]

theorem key_sheetFile_inj {id id' : String} :
    (Place.ofPath (j.sheetFile id)).key = (Place.ofPath (j.sheetFile id')).key ↔ id = id' := by
  rw [ofPath_sheetFile, ofPath_sheetFile, Place.key_cons_inj, String.append_left_inj]

theorem key_commonFile_ne (j : Journal) (id : String) :
    (Place.ofPath j.commonFile).key ≠ (Place.ofPath (j.sheetFile id)).key := by
  rw [ofPath_commonFile, ofPath_sheetFile, Place.key_cons, Place.key_cons,
    Place.within_cons, String.append_assoc, String.append_assoc, ne_eq, String.append_right_inj]
  intro h
  have hhead := congrArg (fun s : String => s.toList.head?) h
  simp at hhead

theorem appendCommon_cases (j : Journal) (d : Disk) (a : Attempt) :
    ((j.appendCommon d a).2 ≠ .ok () ∧ d.Widens (j.appendCommon d a).1) ∨
    ((j.appendCommon d a).2 = .ok () ∧
      d.Appended (Place.ofPath j.commonFile) a.octets (j.appendCommon d a).1) := by
  rw [commonFile, Place.ofPath_child]
  exact d.appendFacing_cases a.fault? j.folder "events.ndjson" a.octets

theorem appendOwn_cases (j : Journal) (id : String) (d : Disk) (a : Attempt) :
    ((j.appendOwn id d a).2 ≠ .ok () ∧
      (j.appendCommon d a).1.Widens (j.appendOwn id d a).1) ∨
    ((j.appendOwn id d a).2 = .ok () ∧
      (j.appendCommon d a).1.Appended (Place.ofPath (j.sheetFile id)) a.octets
        (j.appendOwn id d a).1) := by
  rw [sheetFile, Place.ofPath_child]
  exact (j.appendCommon d a).1.appendFacing_cases a.fault? j.sheetFolder (id ++ ".ndjson") a.octets

/-- What an attempt does. -/
theorem attempt_eq (j : Journal) (d : Disk) (a : Attempt) :
    j.attempt d a =
      if j.refuses a.event then (d, .error .refused)
      else
        match (j.appendCommon d a).2 with
        | .error fault => ((j.appendCommon d a).1, .error (.disk fault))
        | .ok () =>
          match a.sheet.filter isSafe with
          | none => ((j.appendCommon d a).1, .ok ())
          | some id => ((j.appendOwn id d a).1, (j.appendOwn id d a).2.mapError .disk) := by
  have happend : d.appendFacing a.fault? j.commonFile (Text.Utf8.encode a.event.lineChars) =
    j.appendCommon d a := rfl
  rw [attempt, writeBy]
  split
  · rfl
  · simp only [happend, appendOwn]
    rcases j.appendCommon d a with ⟨mid, fault | ⟨⟩⟩
    · rfl
    · cases a.sheet.filter isSafe <;> rfl

theorem entersCommon_of_entersSheet (h : j.entersSheet id d a = true) :
    j.entersCommon d a = true := by
  simp only [entersSheet, Bool.and_eq_true] at h
  exact h.1.2

theorem filter_isSafe_eq_some_iff {sheet : Option String} :
    sheet.filter isSafe = some id ↔ sheet = some id ∧ isSafe id = true := by
  rw [Option.filter_eq_some_iff]

/-- The ways an attempt can go. The second append is tried only if the first one succeeds. -/
inductive Went (j : Journal) (d : Disk) (a : Attempt) : Prop where
  | nowhere (hcommon : j.entersCommon d a = false) (hsheet : ∀ id, j.entersSheet id d a = false)
      (hfails : (j.attempt d a).2 ≠ .ok ()) (hdisk : d.Widens (j.attempt d a).1)
  | common (mid : Disk) (hcommon : j.entersCommon d a = true)
      (hsheet : ∀ id, j.entersSheet id d a = false)
      (hok : (j.attempt d a).2 = .ok () ↔ ∀ id, a.sheet = some id → isSafe id = false)
      (hmid : d.Appended (Place.ofPath j.commonFile) a.octets mid)
      (hdisk : mid.Widens (j.attempt d a).1)
  | both (mid : Disk) (id : String) (hcommon : j.entersCommon d a = true)
      (hsheet : ∀ id', j.entersSheet id' d a = true ↔ id' = id)
      (hcall : a.sheet = some id) (hok : (j.attempt d a).2 = .ok ())
      (hmid : d.Appended (Place.ofPath j.commonFile) a.octets mid)
      (hdisk : mid.Appended (Place.ofPath (j.sheetFile id)) a.octets (j.attempt d a).1)

theorem attempt_of_not_entersCommon (h : j.entersCommon d a = false) :
    (j.attempt d a).2 ≠ .ok () ∧ d.Widens (j.attempt d a).1 := by
  rw [attempt_eq]
  split
  · exact ⟨by simp, .refl d⟩
  · rename_i hrefused
    rcases j.appendCommon_cases d a with ⟨-, hwidens⟩ | ⟨hdone, -⟩
    · split
      · exact ⟨by simp, hwidens⟩
      · rename_i hdone
        simp [entersCommon, hrefused, hdone] at h
    · simp [entersCommon, hrefused, hdone] at h

theorem attempt_of_entersCommon (h : j.entersCommon d a = true) :
    d.Appended (Place.ofPath j.commonFile) a.octets (j.appendCommon d a).1 ∧
    j.attempt d a =
      match a.sheet.filter isSafe with
      | none => ((j.appendCommon d a).1, .ok ())
      | some id => ((j.appendOwn id d a).1, (j.appendOwn id d a).2.mapError .disk) := by
  simp only [entersCommon, Bool.and_eq_true, Bool.not_eq_true', decide_eq_true_eq] at h
  obtain ⟨hrefused, hdone⟩ := h
  constructor
  · rcases j.appendCommon_cases d a with ⟨hfails, -⟩ | ⟨-, happended⟩
    · exact absurd hdone hfails
    · exact happended
  · rw [attempt_eq, hrefused, hdone]
    rfl

theorem went (j : Journal) (d : Disk) (a : Attempt) : Went j d a := by
  cases hcommon : j.entersCommon d a with
  | false =>
    obtain ⟨hfails, hdisk⟩ := attempt_of_not_entersCommon hcommon
    exact .nowhere hcommon (fun id => by simp [entersSheet, hcommon]) hfails hdisk
  | true =>
    obtain ⟨hmid, hattempt⟩ := attempt_of_entersCommon hcommon
    cases hsheet : a.sheet.filter isSafe with
    | none =>
      rw [hsheet] at hattempt
      have hunsafe : ∀ id, a.sheet = some id → isSafe id = false := by simpa using hsheet
      refine .common (j.appendCommon d a).1 hcommon (fun id => ?_) ?_ hmid ?_
      · by_cases hid : a.sheet = some id
        · simp [entersSheet, hunsafe id hid]
        · simp [entersSheet, hid]
      · exact iff_of_true (by rw [hattempt]) hunsafe
      · rw [hattempt]
        exact .refl _
    | some id =>
      rw [hsheet] at hattempt
      obtain ⟨hcall, hsafe⟩ := filter_isSafe_eq_some_iff.mp hsheet
      rcases j.appendOwn_cases id d a with ⟨hfails, hwidens⟩ | ⟨hown, hdisk⟩
      · refine .common (j.appendCommon d a).1 hcommon (fun id' => ?_) ?_ hmid ?_
        · by_cases hid : id = id'
          · simp [entersSheet, ← hid, hfails]
          · simp [entersSheet, hcall, hid]
        · refine iff_of_false ?_ fun h => by simp [h id hcall] at hsafe
          rw [hattempt]
          cases hwritten : (j.appendOwn id d a).2 with
          | ok => exact absurd hwritten hfails
          | error fault => simp [hwritten, Except.mapError]
        · rw [hattempt]
          exact hwidens
      · refine .both (j.appendCommon d a).1 id hcommon (fun id' => ?_) hcall ?_ hmid ?_
        · by_cases hid : id = id'
          · simp [entersSheet, ← hid, hcall, hsafe, hcommon, hown]
          · simp [entersSheet, hcall, hid, Ne.symm hid]
        · simp [hattempt, hown, Except.mapError]
        · rw [hattempt]
          exact hdisk

/-- A write raises nothing exactly if every append that it has to make goes well. -/
theorem attempt_ok_iff (j : Journal) (d : Disk) (a : Attempt) :
    (j.attempt d a).2 = .ok () ↔
      j.entersCommon d a = true ∧
        ∀ id, a.sheet = some id → isSafe id = true → j.entersSheet id d a = true := by
  cases j.went d a with
  | nowhere hcommon hsheet hfails hdisk => simp [hfails, hcommon]
  | common mid hcommon hsheet hok hmid hdisk => simp [hok, hcommon, hsheet]
  | both mid id hcommon hsheet hcall hok hmid hdisk => simp [hok, hcommon, hsheet, hcall]

theorem content_commonFile_attempt (j : Journal) (d : Disk) (a : Attempt) :
    (j.attempt d a).1.content j.commonFile =
      d.content j.commonFile ++ if j.entersCommon d a then a.octets else [] := by
  simp only [Disk.content]
  cases j.went d a with
  | nowhere hcommon hsheet hfails hdisk => simp [hcommon, hdisk.contentAt_eq]
  | common mid hcommon hsheet hok hmid hdisk =>
    simp [hcommon, hdisk.contentAt_eq, hmid.at_place]
  | both mid id hcommon hsheet hcall hok hmid hdisk =>
    rw [hdisk.elsewhere _ (j.key_commonFile_ne id).symm, hmid.at_place, hcommon, if_pos rfl]

theorem content_sheetFile_attempt (j : Journal) (id : String) (d : Disk) (a : Attempt) :
    (j.attempt d a).1.content (j.sheetFile id) =
      d.content (j.sheetFile id) ++ if j.entersSheet id d a then a.octets else [] := by
  simp only [Disk.content]
  cases j.went d a with
  | nowhere hcommon hsheet hfails hdisk => simp [hsheet, hdisk.contentAt_eq]
  | common mid hcommon hsheet hok hmid hdisk =>
    simp [hsheet, hdisk.contentAt_eq, hmid.elsewhere _ (j.key_commonFile_ne id)]
  | both mid id' hcommon hsheet hcall hok hmid hdisk =>
    have hbefore := hmid.elsewhere _ (j.key_commonFile_ne id)
    by_cases hid : id = id'
    · subst hid
      rw [hdisk.at_place, hbefore, (hsheet id).mpr rfl, if_pos rfl]
    · have hnot : ¬ j.entersSheet id d a = true := fun h => hid ((hsheet id).mp h)
      rw [if_neg hnot, List.append_nil, ← hbefore]
      exact hdisk.elsewhere _ fun hkey => hid (key_sheetFile_inj.mp hkey).symm

theorem content_run {p : Path} {test : Disk → Attempt → Bool}
    (hstep : ∀ d a, (j.attempt d a).1.content p = d.content p ++ if test d a then a.octets else [])
    (d : Disk) (as : List Attempt) :
    (j.run d as).content p = d.content p ++ (j.those test d as).flatMap (·.octets) := by
  induction as generalizing d with
  | nil => simp [run, those]
  | cons a as ih =>
    have hrun : j.run d (a :: as) = j.run (j.attempt d a).1 as := rfl
    rw [hrun, ih, hstep, those]
    split <;> simp

theorem content_commonFile_run (j : Journal) (d : Disk) (as : List Attempt) :
    (j.run d as).content j.commonFile =
      d.content j.commonFile ++ (j.those j.entersCommon d as).flatMap (·.octets) :=
  content_run j.content_commonFile_attempt d as

theorem content_sheetFile_run (j : Journal) (id : String) (d : Disk) (as : List Attempt) :
    (j.run d as).content (j.sheetFile id) =
      d.content (j.sheetFile id) ++ (j.those (j.entersSheet id) d as).flatMap (·.octets) :=
  content_run (j.content_sheetFile_attempt id) d as

/-- Whatever fails in between: the file of a sheet gets the lines of the writes about it of which
both appends go well, all of these are in the common file in the same order, and a write about
another sheet leaves it alone. -/
theorem sheetFile_within_commonFile (j : Journal) (id : String) (d : Disk) (as : List Attempt) :
    (j.run d as).content (j.sheetFile id) =
      d.content (j.sheetFile id) ++ (j.those (j.entersSheet id) d as).flatMap (·.octets) ∧
    (j.run d as).content j.commonFile =
      d.content j.commonFile ++ (j.those j.entersCommon d as).flatMap (·.octets) ∧
    (j.those (j.entersSheet id) d as).Sublist (j.those j.entersCommon d as) ∧
    ∀ d a, a.sheet ≠ some id →
      (j.attempt d a).1.content (j.sheetFile id) = d.content (j.sheetFile id) := by
  refine ⟨j.content_sheetFile_run id d as, j.content_commonFile_run d as,
    those_sublist (fun d a => entersCommon_of_entersSheet) d as, fun d a hother => ?_⟩
  have hnot : ¬ j.entersSheet id d a = true := by simp [entersSheet, hother]
  rw [content_sheetFile_attempt, if_neg hnot, List.append_nil]

/-- The second write cannot open the sheet's file, the third one not even the common file. -/
theorem sheetFile_after_failures :
    ∃ (j : Journal) (as : List Attempt),
      as.map (fun a => (a.event.message, a.sheet)) =
        [("one", some "a"), ("two", some "a"), ("three", some "a"), ("four", some "b"),
          ("five", some "a")] ∧
      (j.those (j.entersSheet "a") .empty as).map (·.event.message) = ["one", "five"] ∧
      (j.those j.entersCommon .empty as).map (·.event.message) = ["one", "two", "four", "five"] ∧
      (j.run .empty as).content (j.sheetFile "a") =
        (j.those (j.entersSheet "a") .empty as).flatMap (·.octets) := by
  let j : Journal := { folder := Path.ofText "logs", tailBytes := 100000 }
  let call (message sheet : String) (blocked : List Path) : Attempt :=
    ⟨⟨{ stamp := "", level := .info, kind := .cellUpdated, message := message }, some sheet⟩,
      fun p => if p ∈ blocked then some .isFolder else none⟩
  let as := [call "one" "a" [], call "two" "a" [j.sheetFile "a"], call "three" "a" [j.commonFile],
    call "four" "b" [], call "five" "a" [j.sheetFile "b"]]
  refine ⟨j, as, rfl, by decide +kernel, by decide +kernel, ?_⟩
  have hempty : Disk.empty.content (j.sheetFile "a") = [] := by decide +kernel
  rw [(j.sheetFile_within_commonFile "a" .empty as).1, hempty, List.nil_append]

end Gridcalc.Journal
