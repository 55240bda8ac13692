import Gridcalc.Proofs.Journal.Line
import Gridcalc.Proofs.Journal.Run
import Gridcalc.Proofs.Storage.Folder

/-! # What was written is read back

A journal whose folders are there takes every event that it does not refuse, and gives the events
back: all of them by the common file, those of a sheet by its own.
-/

namespace Gridcalc.Journal

variable {j : Journal} {d : Disk} {c : Call} {calls : List Call} {id : String} {p : Path}

def IsLog (j : Journal) (p : Path) : Prop := p = j.commonFile ∨ ∃ id, p = j.sheetFile id

/-- The folders of the journal are there, and no folder stands in the place of a file. -/
structure Ready (j : Journal) (d : Disk) : Prop where
  folder : d.HasFolder j.folder
  sheets : d.HasFolder j.sheetFolder
  logs : ∀ p, j.IsLog p → d.entryAt (Place.ofPath p) ≠ some .folder

/-- A call that nothing stands against: the context is a JSON object, the event is not refused, and
the sheet, if there is one, can have a file. -/
structure Takes (j : Journal) (c : Call) : Prop where
  plain : c.event.Plain
  accepted : j.refuses c.event = false
  sheet : ∀ id, c.sheet = some id → isSafe id = true ∧ (j.sheetFile id).Fits

def writeAll (j : Journal) : Disk → List Call → Disk
  | d, [] => d
  | d, c :: cs => j.writeAll (j.write d c.event c.sheet).1 cs

def outcomes (j : Journal) : Disk → List Call → List (Except WriteFault Unit)
  | _, [] => []
  | d, c :: cs =>
    (j.write d c.event c.sheet).2 :: j.outcomes (j.write d c.event c.sheet).1 cs

theorem ready_of_start (h : (j.start d).2 = .ok ())
    (hnew : ∀ p, j.IsLog p → (j.start d).1.entryAt (Place.ofPath p) = none) :
    j.Ready (j.start d).1 := by
  have hlogs : ∀ p, j.IsLog p → (j.start d).1.entryAt (Place.ofPath p) ≠ some .folder := by
    intro p hp
    simp [hnew p hp]
  rw [start] at h hlogs ⊢
  rcases hmade : d.makeFolder j.folder with ⟨mid, fault | place⟩
  · rw [hmade] at h
    cases h
  · rw [hmade] at h hlogs
    dsimp only at h hlogs ⊢
    have hfolder : mid.HasFolder j.folder := by
      have hhas := Disk.hasFolder_of_makeFolder (p := j.folder) (congrArg Prod.snd hmade)
      rwa [hmade] at hhas
    cases hsheets : (mid.makeFolder j.sheetFolder).2 with
    | error fault =>
      rw [hsheets] at h
      cases h
    | ok place =>
      exact ⟨hfolder.of_foldersStay (Disk.Widens.makeFolder mid _).foldersStay,
        Disk.hasFolder_of_makeFolder hsheets, hlogs⟩

theorem Ready.append (h : j.Ready d) {folder : Path} {name : String} (hfolder : d.HasFolder folder)
    (hfits : (folder.child name).Fits) (hlog : j.IsLog (folder.child name))
    (octets : List UInt8) :
    ∃ d', d.append (folder.child name) octets = (d', .ok ()) ∧ j.Ready d' := by
  have hnot := h.logs _ hlog
  obtain ⟨before, happend, hbefore⟩ := Disk.appendAt_of_not_folder octets hnot
  have hstay : d.FoldersStay _ := (Disk.appended_put octets hnot hbefore).folders
  refine ⟨_, by rw [hfolder.append_eq hfits, happend], h.folder.of_foldersStay hstay,
    h.sheets.of_foldersStay hstay, fun p hp => ?_⟩
  rw [Disk.entryAt_put]
  have hother := h.logs p hp
  split
  · rename_i hgiven
    simp [Disk.entryAt, hgiven] at hother
  · split
    · simp
    · exact hother

theorem write_of_takes (h : j.Ready d) (hcommon : j.commonFile.Fits) (hc : j.Takes c) :
    (j.write d c.event c.sheet).2 = .ok () ∧ j.Ready (j.write d c.event c.sheet).1 := by
  obtain ⟨mid, hmid, hready⟩ := h.append h.folder hcommon (.inl rfl)
    (Text.Utf8.encode c.event.lineChars)
  rw [write, writeBy, if_neg (by simp [hc.accepted])]
  simp only [show d.append j.commonFile _ = (mid, .ok ()) from hmid]
  cases hsheet : c.sheet.filter isSafe with
  | none => exact ⟨rfl, hready⟩
  | some id =>
    obtain ⟨hcall, hsafe⟩ := filter_isSafe_eq_some_iff.mp hsheet
    obtain ⟨last, hlast, hready'⟩ := hready.append hready.sheets (hc.sheet id hcall).2
      (.inr ⟨id, rfl⟩) (Text.Utf8.encode c.event.lineChars)
    simp only [show mid.append (j.sheetFile id) _ = (last, .ok ()) from hlast]
    exact ⟨rfl, hready'⟩

theorem content_write (h : j.Ready d) (hcommon : j.commonFile.Fits) (hc : j.Takes c) :
    (j.write d c.event c.sheet).1.content j.commonFile = d.content j.commonFile ++ c.octets ∧
    ∀ id, (j.write d c.event c.sheet).1.content (j.sheetFile id) =
      d.content (j.sheetFile id) ++ if c.sheet = some id then c.octets else [] := by
  rw [← attempt_freely]
  obtain ⟨henters, hsheet⟩ := (j.attempt_ok_iff d ⟨c, fun _ => none⟩).mp (write_of_takes h hcommon hc).1
  refine ⟨by rw [content_commonFile_attempt, henters, if_pos rfl], fun id => ?_⟩
  rw [content_sheetFile_attempt]
  by_cases hid : c.sheet = some id
  · rw [hsheet id hid (hc.sheet id hid).1, if_pos rfl, if_pos hid]
  · have hnot : ¬ j.entersSheet id d ⟨c, fun _ => none⟩ = true := by simp [entersSheet, hid]
    rw [if_neg hnot, if_neg hid]

theorem writeAll_of_takes (h : j.Ready d) (hcommon : j.commonFile.Fits)
    (hcalls : ∀ c ∈ calls, j.Takes c) :
    j.Ready (j.writeAll d calls) ∧ (∀ r ∈ j.outcomes d calls, r = .ok ()) ∧
    (j.writeAll d calls).content j.commonFile =
      d.content j.commonFile ++ calls.flatMap Call.octets ∧
    ∀ id, (j.writeAll d calls).content (j.sheetFile id) =
      d.content (j.sheetFile id) ++
        (calls.filter fun c => decide (c.sheet = some id)).flatMap Call.octets := by
  induction calls generalizing d with
  | nil => exact ⟨h, by simp [outcomes], by simp [writeAll], by simp [writeAll]⟩
  | cons c calls ih =>
    have hc := hcalls c List.mem_cons_self
    obtain ⟨hok, hready⟩ := write_of_takes h hcommon hc
    obtain ⟨hcommonFile, hsheetFile⟩ := content_write h hcommon hc
    obtain ⟨hready', houtcomes, hcommonFile', hsheetFile'⟩ :=
      ih hready fun c' hc' => hcalls c' (List.mem_cons_of_mem c hc')
    refine ⟨hready', ?_, ?_, fun id => ?_⟩
    · rw [outcomes]
      exact List.forall_mem_cons.mpr ⟨hok, houtcomes⟩
    · rw [writeAll, hcommonFile', hcommonFile, List.flatMap_cons, List.append_assoc]
    · rw [writeAll, hsheetFile', hsheetFile, List.filter_cons]
      by_cases hid : c.sheet = some id
      · simp [hid]
      · simp [hid]

theorem valuesAt_eq_tail (hfind : d.find? p = .ok (d.entryAt (Place.ofPath p)))
    (hnot : d.entryAt (Place.ofPath p) ≠ some .folder) (hbytes : 0 ≤ j.tailBytes) :
    j.valuesAt d p =
      .ok (valuesIn (Text.Utf8.decode (tail j.tailBytes.toNat (d.content p)))) := by
  rw [valuesAt, hfind]
  cases hentry : d.entryAt (Place.ofPath p) with
  | none =>
    have hempty : d.content p = [] := by simp [Disk.content, Disk.contentAt, hentry]
    have hnone : ∀ e ∈ ([] : List Event), e.Plain := by simp
    have hnothing : valuesIn (Text.Utf8.decode []) = [] := valuesIn_decode hnone
    have htail : tail j.tailBytes.toNat [] = [] := if_pos (Nat.zero_le _)
    rw [hempty, htail, hnothing]
  | some e =>
    have hoctets : d.content p = e.octets := Disk.contentAt_of_entryAt hentry
    have hwindow : j.window e.octets = .ok (tail j.tailBytes.toNat (d.content p)) := by
      rw [window, if_pos hbytes, hoctets]
    cases e with
    | folder => exact absurd hentry hnot
    | file appended =>
      dsimp only
      rw [hwindow]
      rfl
    | document content =>
      dsimp only
      rw [hwindow]
      rfl

theorem valuesAt_of_content {es : List Event} (hfind : d.find? p = .ok (d.entryAt (Place.ofPath p)))
    (hnot : d.entryAt (Place.ofPath p) ≠ some .folder) (hplain : ∀ e ∈ es, e.Plain)
    (hcontent : d.content p = es.flatMap fun e => Text.Utf8.encode e.lineChars)
    (htail : ((d.content p).length : Int) ≤ j.tailBytes) :
    j.valuesAt d p = .ok (es.map Event.written) := by
  rw [valuesAt_eq_tail hfind hnot (by omega), tail, if_pos (by omega), hcontent,
    valuesIn_decode hplain]

theorem find?_log (h : j.Ready d) (hp : j.IsLog p) (hfits : p.Fits) :
    d.find? p = .ok (d.entryAt (Place.ofPath p)) := by
  rcases hp with rfl | ⟨id, rfl⟩
  · exact h.folder.find?_eq hfits
  · exact h.sheets.find?_eq hfits

theorem readCommon_of_values {es : List Event} {q : Query} (hplain : ∀ e ∈ es, e.Plain)
    (hlimit : 0 ≤ q.limit) (hvalues : j.valuesAt d j.commonFile = .ok (es.map Event.written)) :
    j.readCommon d q =
      .ok (((es.filter q.wants).reverse.take (min q.limit 2000).toNat).map Event.written) := by
  have hkinds : ∀ e ∈ (es.filter fun e => Query.passes q.level (some e.level.label)).filter
      fun e => Query.passes q.kind (some e.kind.label), e.Plain :=
    fun e he => hplain e (List.mem_of_mem_filter (List.mem_of_mem_filter he))
  have hwants : ((es.filter fun e => Query.passes q.level (some e.level.label)).filter
      fun e => Query.passes q.kind (some e.kind.label)).filter
      (fun e => Query.passes q.cell e.cell?) = es.filter q.wants := by
    simp only [List.filter_filter]
    refine List.filter_congr fun e _ => ?_
    rw [Query.wants, Bool.and_comm, Bool.and_comm (Query.passes q.kind _)]
  rw [readCommon, hvalues]
  simp only [bind, Except.bind, select_level, select_kind, select_cell hkinds, cut_written hlimit,
    hwants]
  rfl

/-- A journal that is ready and has nothing in its files. -/
structure Blank (j : Journal) (d : Disk) : Prop where
  ready : j.Ready d
  nothing : ∀ p, j.IsLog p → d.content p = []

theorem blank_of_start (h : (j.start d).2 = .ok ())
    (hnew : ∀ p, j.IsLog p → (j.start d).1.entryAt (Place.ofPath p) = none) :
    j.Blank (j.start d).1 where
  ready := ready_of_start h hnew
  nothing p hp := by simp [Disk.content, Disk.contentAt, hnew p hp]

theorem plain_of_takes (h : ∀ c ∈ calls, j.Takes c) : ∀ e ∈ calls.map (·.event), e.Plain := by
  intro e he
  obtain ⟨c, hc, rfl⟩ := List.mem_map.mp he
  exact (h c hc).plain

theorem readCommon_writeAll (h : j.Blank d) (hcommon : j.commonFile.Fits)
    (hcalls : ∀ c ∈ calls, j.Takes c)
    (htail : (((j.writeAll d calls).content j.commonFile).length : Int) ≤ j.tailBytes)
    {q : Query} (hlimit : 0 ≤ q.limit) :
    j.readCommon (j.writeAll d calls) q =
      .ok ((((calls.map (·.event)).filter q.wants).reverse.take
        (min q.limit 2000).toNat).map Event.written) := by
  obtain ⟨hready, -, hcontent, -⟩ := writeAll_of_takes h.ready hcommon hcalls
  rw [h.nothing _ (.inl rfl), List.nil_append] at hcontent
  have hplain := plain_of_takes hcalls
  refine readCommon_of_values hplain hlimit (valuesAt_of_content
    (find?_log hready (.inl rfl) hcommon) (hready.logs _ (.inl rfl)) hplain ?_ htail)
  rw [hcontent, List.flatMap_map]
  rfl

theorem readSheet_writeAll (h : j.Blank d) (hcommon : j.commonFile.Fits)
    (hcalls : ∀ c ∈ calls, j.Takes c)
    (htail : (((j.writeAll d calls).content j.commonFile).length : Int) ≤ j.tailBytes)
    (hsafe : isSafe id = true) (hfits : (j.sheetFile id).Fits) :
    j.readSheet (j.writeAll d calls) id =
      .ok (((calls.filter fun c => decide (c.sheet = some id)).map (·.event)).map
        Event.written) := by
  obtain ⟨hready, -, hcommonFile, hsheetFile⟩ := writeAll_of_takes h.ready hcommon hcalls
  have hlog : j.IsLog (j.sheetFile id) := .inr ⟨id, rfl⟩
  have hcontent := hsheetFile id
  rw [h.nothing _ (.inl rfl), List.nil_append] at hcommonFile
  rw [h.nothing _ hlog, List.nil_append] at hcontent
  -- The lines of one sheet are no more than all lines.
  have hlength : ((j.writeAll d calls).content (j.sheetFile id)).length ≤
      ((j.writeAll d calls).content j.commonFile).length := by
    rw [hcontent, hcommonFile]
    exact (List.filter_sublist.flatMap _).length_le
  rw [readSheet, if_pos hsafe]
  refine valuesAt_of_content (find?_log hready hlog hfits) (hready.logs _ hlog)
    (plain_of_takes fun c hc => hcalls c (List.mem_of_mem_filter hc)) ?_ (by omega)
  rw [hcontent, List.flatMap_map]
  rfl

def inLogs : Journal := { folder := folderOf .here }

theorem new_inLogs : (inLogs.start .empty).2 = .ok () ∧
    ∀ p, inLogs.IsLog p → (inLogs.start .empty).1.entryAt (Place.ofPath p) = none := by
  have hdisk : (inLogs.start .empty).1 =
      (Disk.empty.put ["logs"] .folder).put ["sheets", "logs"] .folder := by
    rfl
  refine ⟨by decide +kernel, ?_⟩
  rintro p (rfl | ⟨id, rfl⟩)
  · have hnone : ((inLogs.start .empty).1.entryAt (Place.ofPath inLogs.commonFile)).isNone = true := by
      decide +kernel
    exact Option.isNone_iff_eq_none.mp hnone
  · have hplace : Place.ofPath (inLogs.sheetFile id) = [id ++ ".ndjson", "sheets", "logs"] := by
      rw [ofPath_sheetFile]
      exact congrArg (fun place => (id ++ ".ndjson") :: "sheets" :: place)
        (show Place.ofPath inLogs.folder = ["logs"] by decide +kernel)
    have hgiven : ¬ Place.isGiven [id ++ ".ndjson", "sheets", "logs"] = true := by
      simp [Place.isGiven]
    have hkey : ∀ place : Place, place.key.length < 12 →
        place.key ≠ Place.key [id ++ ".ndjson", "sheets", "logs"] := by
      intro place hshort h
      rw [h, Place.key_cons, String.length_append,
        show (Place.within ["sheets", "logs"]).length = 12 by decide +kernel] at hshort
      omega
    rw [hdisk, hplace, Disk.entryAt_put, if_neg hgiven, if_neg (hkey _ (by decide)), Disk.entryAt_put,
      if_neg hgiven, if_neg (hkey _ (by decide)), Disk.entryAt, if_neg hgiven]
    simp [Disk.empty]

theorem new_of_folder_eq (j j' : Journal) (hfolder : j.folder = j'.folder)
    (h : (j'.start d).2 = .ok () ∧
      ∀ p, j'.IsLog p → (j'.start d).1.entryAt (Place.ofPath p) = none) :
    (j.start d).2 = .ok () ∧ ∀ p, j.IsLog p → (j.start d).1.entryAt (Place.ofPath p) = none := by
  obtain ⟨folder, tailBytes, forced, refuses⟩ := j
  obtain ⟨folder', tailBytes', forced', refuses'⟩ := j'
  cases hfolder
  exact h

theorem readSheet_of_not_fits (h : j.Ready d) (hsafe : isSafe id = true)
    (hfits : ¬ (j.sheetFile id).Fits) : j.readSheet d id = .error (.disk .nameTooLong) := by
  rw [readSheet, if_pos hsafe, valuesAt, sheetFile, h.sheets.find?_of_not_fits hfits]

/-- What calls write into a new journal is read back: from the common file the wanted events, the
latest first and no more than the limit allows, and from the file of a sheet those about it. -/
theorem reads_back (j : Journal) (d : Disk) (calls : List Call)
    (hstart : (j.start d).2 = .ok ())
    (hnew : ∀ p, j.IsLog p → (j.start d).1.entryAt (Place.ofPath p) = none)
    (hcommon : j.commonFile.Fits) (hcalls : ∀ c ∈ calls, j.Takes c)
    (htail : (((j.writeAll (j.start d).1 calls).content j.commonFile).length : Int) ≤ j.tailBytes) :
    (∀ r ∈ j.outcomes (j.start d).1 calls, r = .ok ()) ∧
    (∀ q : Query, 0 ≤ q.limit →
      j.readCommon (j.writeAll (j.start d).1 calls) q =
        .ok ((((calls.map (·.event)).filter q.wants).reverse.take
          (min q.limit 2000).toNat).map Event.written)) ∧
    ∀ id, isSafe id = true → (j.sheetFile id).Fits →
      j.readSheet (j.writeAll (j.start d).1 calls) id =
        .ok (((calls.filter fun c => decide (c.sheet = some id)).map (·.event)).map
          Event.written) := by
  have hblank := blank_of_start hstart hnew
  exact ⟨(writeAll_of_takes hblank.ready hcommon hcalls).2.1,
    fun q hlimit => readCommon_writeAll hblank hcommon hcalls htail hlimit,
    fun id hsafe hfits => readSheet_writeAll hblank hcommon hcalls htail hsafe hfits⟩

/-- The first message has line breaks of two kinds in it, the second one quotes and a character
beyond the basic plane. -/
theorem reads_back_breaks :
    ∃ first second third : Call,
      first.event.message = "a\nb\u2028c" ∧ second.event.message = "\"\\\"😀" ∧
      first.sheet = some "a" ∧ third.sheet = some "a" ∧
      inLogs.readCommon (inLogs.writeAll (inLogs.start .empty).1 [first, second, third])
        { kind := some "cell_updated", cell := some "A1", limit := 1 } =
          .ok [second.event.written] ∧
      inLogs.readSheet (inLogs.writeAll (inLogs.start .empty).1 [first, second, third]) "a" =
        .ok [first.event.written, third.event.written] := by
  let call (kind : NoticeKind) (message : String) (sheet : Option String) : Call :=
    ⟨{ stamp := "", level := .info, kind, message, context := [("cell", .text "A1")] }, sheet⟩
  let first := call .cellUpdated "a\nb\u2028c" (some "a")
  let second := call .cellUpdated "\"\\\"😀" none
  let third := call .cellCleared "" (some "a")
  have hplain : ∀ kind message sheet, (call kind message sheet).event.Plain := fun kind message sheet =>
    show ([("cell", Json.text "A1")].map Prod.fst).Nodup ∧ Json.MembersDistinct _ from
      ⟨List.nodup_singleton _, trivial, trivial⟩
  have hcalls : ∀ c ∈ [first, second, third], inLogs.Takes c := by
    have hsheet : isSafe "a" = true ∧ (inLogs.sheetFile "a").Fits := by decide +kernel
    have htakes : ∀ kind message sheet, (sheet = none ∨ sheet = some "a") →
        inLogs.Takes (call kind message sheet) := by
      rintro kind message sheet h
      refine ⟨hplain kind message sheet, rfl, fun id hid => ?_⟩
      rcases h with rfl | rfl
      · cases hid
      · cases hid
        exact hsheet
    simp only [List.forall_mem_cons, List.not_mem_nil, false_imp_iff, implies_true, and_true]
    exact ⟨htakes _ _ _ (.inr rfl), htakes _ _ _ (.inl rfl), htakes _ _ _ (.inr rfl)⟩
  have hfits : inLogs.commonFile.Fits := by decide +kernel
  have hblank := blank_of_start new_inLogs.1 new_inLogs.2
  have htail : (((inLogs.writeAll (inLogs.start .empty).1 [first, second, third]).content
      inLogs.commonFile).length : Int) ≤ inLogs.tailBytes := by
    rw [(writeAll_of_takes hblank.ready hfits hcalls).2.2.1, hblank.nothing _ (.inl rfl)]
    decide +kernel
  obtain ⟨-, hcommon, hsheet⟩ := reads_back inLogs .empty [first, second, third] new_inLogs.1
    new_inLogs.2 hfits hcalls htail
  refine ⟨first, second, third, rfl, rfl, rfl, rfl, ?_, ?_⟩
  · exact hcommon { kind := some "cell_updated", cell := some "A1", limit := 1 } (by decide)
  · exact hsheet "a" (by decide) (by decide +kernel)

/-- A list in a list, so many levels further down. -/
def nested : Nat → Json
  | 0 => .list []
  | depth + 1 => .list [nested depth]

theorem distinctKeys_nested : ∀ depth, Json.DistinctKeys (nested depth)
  | 0 => trivial
  | depth + 1 => ⟨distinctKeys_nested depth, trivial⟩

/-- A writer of lines that goes down 255 levels refuses an event with one more. A sheet can have a
name that is too long for a file; then reading its events fails. The empty text as a filter passes
every event. -/
theorem not_read_back_beyond_limits :
    ∃ (j : Journal) (deep about : Event) (id : String),
      (j.start .empty).2 = .ok () ∧ deep.context = [("x", nested 255)] ∧ deep.Plain ∧
      j.readCommon (j.writeAll (j.start .empty).1 [⟨deep, none⟩]) {} ≠ .ok [deep.written] ∧
      isSafe id = true ∧ j.readSheet (j.start .empty).1 id ≠ .ok [] ∧
      about.cell? = some "A1" ∧
      j.readCommon (j.writeAll (j.start .empty).1 [⟨about, none⟩]) { cell := some "" } ≠ .ok [] := by
  let j : Journal :=
    { inLogs with refuses := fun e => decide (255 < Json.membersDepth e.context) }
  let deep : Event :=
    { stamp := "", level := .info, kind := .cellUpdated, context := [("x", nested 255)] }
  let about : Event :=
    { stamp := "", level := .info, kind := .cellUpdated, context := [("cell", .text "A1")] }
  let id := String.ofList (List.replicate 250 'a')
  have hsafe : isSafe id = true := by
    rw [isSafe, String.toList_ofList]
    decide +kernel
  obtain ⟨hstart, hnew⟩ := new_of_folder_eq j inLogs rfl new_inLogs
  refine ⟨j, deep, about, id, hstart, rfl,
    ⟨List.nodup_singleton _, distinctKeys_nested 255, trivial⟩, ?_, hsafe, ?_, rfl, ?_⟩
  · have hnothing : (j.readCommon (j.writeAll (j.start .empty).1 [⟨deep, none⟩])
        {}).toOption.map List.length = some 0 := by
      decide +kernel
    intro h
    rw [h] at hnothing
    cases hnothing
  · have hlong : ¬ (j.sheetFile id).Fits := by
      rw [Path.Fits, not_and, sheetFile, Path.name_child, String.utf8ByteSize_append,
        String.utf8ByteSize_ofList]
      exact fun _ => by decide +kernel
    rw [readSheet_of_not_fits (ready_of_start hstart hnew) hsafe hlong]
    intro h
    cases h
  · have htakes : ∀ c ∈ [(⟨about, none⟩ : Call)], j.Takes c := by
      rw [List.forall_mem_singleton]
      exact ⟨⟨List.nodup_singleton _, trivial, trivial⟩, rfl, fun id hid => by cases hid⟩
    intro h
    rw [readCommon_writeAll (blank_of_start hstart hnew) (by decide +kernel) htakes
      (by decide +kernel) (by decide)] at h
    have hone := congrArg (fun r => r.toOption.map List.length) h
    cases hone

end Gridcalc.Journal
