import Gridcalc.Proofs.Journal.ReadBack

/-! # The end of a file

A file is read from so many octets before its end, and the line in which the reading begins is
dropped. That leaves the events whose lines lie within these octets, unless the reading begins
just where a line does: then this line is dropped too, although none of it is missing.
-/

namespace Gridcalc

variable {n : Nat} {e : Event} {es : List Event}

namespace Event

def octets (e : Event) : List UInt8 := Text.Utf8.encode e.lineChars

theorem ne_lineFeed_of_mem_encodeChar {c : Char} (h : Json.isPrintable c = true) :
    (0x0a : UInt8) ∉ String.utf8EncodeChar c := by
  have hlow : 0x20 ≤ c.toNat := by
    simp only [Json.isPrintable, Bool.and_eq_true, decide_eq_true_eq, Char.le_def,
      UInt32.le_iff_toNat_le] at h
    exact h.1
  have hhigh := Journal.toNat_lt_of_isPrintable h
  rw [Text.Utf8.encodeChar_ascii hhigh, List.mem_singleton]
  intro heq
  have hnat := congrArg UInt8.toNat heq
  rw [UInt8.toNat_ofNat', Nat.mod_eq_of_lt (by omega)] at hnat
  have hfeed : (0x0a : UInt8).toNat = 10 := rfl
  omega

theorem exists_octets (e : Event) : ∃ body, e.octets = body ++ [0x0a] ∧ (0x0a : UInt8) ∉ body := by
  refine ⟨Text.Utf8.encode e.toJson.sorted.lineChars, ?_, fun hmem => ?_⟩
  · rw [octets, lineChars, Text.Utf8.encode, List.flatMap_append]
    rfl
  · obtain ⟨c, hc, hmem⟩ := List.mem_flatMap.mp hmem
    exact ne_lineFeed_of_mem_encodeChar
      (List.all_eq_true.mp e.toJson.sorted.all_lineChars c hc) hmem

end Event

namespace Journal

/-- The events of a file, each with the number of octets from the beginning of its line to the end
of the file. -/
def placed : List Event → List (Event × Nat)
  | [] => []
  | e :: es => (e, ((e :: es).flatMap Event.octets).length) :: placed es

/-- The events whose whole lines lie within the last `n` octets. -/
def within (n : Nat) (es : List Event) : List Event :=
  ((placed es).filter fun x => decide (x.2 ≤ n)).map (·.1)

/-- Whether there are more than `n` octets, and a line begins `n` octets before the end. -/
def beginsAt (n : Nat) (es : List Event) : Bool :=
  decide (n < (es.flatMap Event.octets).length) && (placed es).any fun x => x.2 == n

theorem placed_le : ∀ x ∈ placed es, x.2 ≤ (es.flatMap Event.octets).length := by
  induction es with
  | nil => simp [placed]
  | cons e es ih =>
    intro x hx
    rcases List.mem_cons.mp hx with rfl | hx
    · exact Nat.le_refl _
    · refine (ih x hx).trans ?_
      rw [List.flatMap_cons, List.length_append]
      exact Nat.le_add_left _ _

theorem within_eq_self (h : (es.flatMap Event.octets).length ≤ n) : within n es = es := by
  have hall : (placed es).filter (fun x => decide (x.2 ≤ n)) = placed es :=
    List.filter_eq_self.mpr fun x hx => decide_eq_true ((placed_le x hx).trans h)
  rw [within, hall]
  clear hall h
  induction es with
  | nil => rfl
  | cons e es ih => rw [placed, List.map_cons, ih]

theorem within_cons (h : n < ((e :: es).flatMap Event.octets).length) :
    within n (e :: es) = within n es := by
  rw [within, placed, List.filter_cons_of_neg (by simpa using h)]
  rfl

theorem afterLineBreak_append {body rest : List UInt8} (h : (0x0a : UInt8) ∉ body) :
    afterLineBreak (body ++ 0x0a :: rest) = rest := by
  have hdrop : (body ++ 0x0a :: rest).dropWhile (· != 0x0a) = 0x0a :: rest := by
    rw [List.dropWhile_append_of_pos]
    · rfl
    · intro b hb
      rw [bne_iff_ne]
      rintro rfl
      exact h hb
  rw [afterLineBreak, hdrop]

theorem afterLineBreak_flatMap (es : List Event) :
    afterLineBreak (es.flatMap Event.octets) = es.tail.flatMap Event.octets := by
  cases es with
  | nil => rfl
  | cons e es =>
    obtain ⟨body, hbody, hfeed⟩ := e.exists_octets
    rw [List.flatMap_cons, hbody, List.append_assoc, List.singleton_append,
      afterLineBreak_append hfeed, List.tail_cons]

theorem afterLineBreak_drop {k : Nat} (hk : k < e.octets.length) (rest : List UInt8) :
    afterLineBreak ((e.octets ++ rest).drop k) = rest := by
  obtain ⟨body, hbody, hfeed⟩ := e.exists_octets
  rw [hbody, List.length_append, List.length_singleton] at hk
  rw [hbody, List.append_assoc, List.singleton_append, List.drop_append_of_le_length (by omega)]
  exact afterLineBreak_append fun hmem => hfeed (List.mem_of_mem_drop hmem)

theorem beginsAt_cons (h : n < ((e :: es).flatMap Event.octets).length) :
    beginsAt n (e :: es) = (placed es).any fun x => x.2 == n := by
  have hfirst : (((e :: es).flatMap Event.octets).length == n) = false := by
    rw [beq_eq_false_iff_ne]
    omega
  rw [beginsAt, decide_eq_true h, Bool.true_and, placed, List.any_cons, hfirst, Bool.false_or]

theorem any_placed_of_lt (h : (es.flatMap Event.octets).length < n) :
    ((placed es).any fun x => x.2 == n) = false := by
  rw [List.any_eq_false]
  intro x hx
  rw [beq_iff_eq]
  exact Nat.ne_of_lt ((placed_le x hx).trans_lt h)

def leftBy (n : Nat) (es : List Event) : List Event :=
  if beginsAt n es then (within n es).tail else within n es

theorem tail_flatMap (n : Nat) (es : List Event) :
    tail n (es.flatMap Event.octets) = (leftBy n es).flatMap Event.octets := by
  induction es with
  | nil => rfl
  | cons e es ih =>
    by_cases hall : ((e :: es).flatMap Event.octets).length ≤ n
    · rw [tail, if_pos hall, leftBy, beginsAt, decide_eq_false (Nat.not_lt.mpr hall),
        Bool.false_and, if_neg Bool.false_ne_true, within_eq_self hall]
    · rw [tail, if_neg hall]
      rw [not_le] at hall
      rw [leftBy, beginsAt_cons hall, within_cons hall]
      rw [List.flatMap_cons, List.length_append] at hall ⊢
      -- The reading begins behind the first line, or with the second one, or within the first.
      rcases Nat.lt_trichotomy n (es.flatMap Event.octets).length with hless | rfl | hmore
      · have hdrop : e.octets.length + (es.flatMap Event.octets).length - n =
            e.octets.length + ((es.flatMap Event.octets).length - n) := by omega
        rw [hdrop, List.drop_length_add_append]
        rw [tail, if_neg (Nat.not_le.mpr hless), leftBy, beginsAt, decide_eq_true hless,
          Bool.true_and] at ih
        exact ih
      · rw [Nat.add_sub_cancel, List.drop_left, afterLineBreak_flatMap,
          within_eq_self (Nat.le_refl _)]
        cases es with
        | nil => rfl
        | cons e' es => rw [placed, List.any_cons, beq_self_eq_true, Bool.true_or, if_pos rfl]
      · rw [afterLineBreak_drop (by omega), any_placed_of_lt hmore, if_neg Bool.false_ne_true,
          within_eq_self hmore.le]

theorem within_ne_nil (h : beginsAt n es = true) : within n es ≠ [] := by
  rw [beginsAt, Bool.and_eq_true, List.any_eq_true] at h
  obtain ⟨-, x, hx, hn⟩ := h
  rw [beq_iff_eq] at hn
  have hmem : x.1 ∈ within n es :=
    List.mem_map_of_mem (List.mem_filter.mpr ⟨hx, decide_eq_true hn.le⟩)
  exact List.ne_nil_of_mem hmem

/-- All of the events come back exactly if no line begins where the reading does. -/
theorem map_leftBy_eq_iff {α : Type} (f : Event → α) (n : Nat) (es : List Event) :
    (leftBy n es).map f = (within n es).map f ↔ beginsAt n es = false := by
  rw [leftBy]
  cases hbegins : beginsAt n es with
  | false => simp
  | true =>
    have hsome := List.length_pos_of_ne_nil (within_ne_nil hbegins)
    refine iff_of_false (fun hsame => ?_) (by simp)
    have hlength := congrArg List.length hsame
    rw [if_pos rfl, List.length_map, List.length_map, List.length_tail] at hlength
    omega

theorem leftBy_subset (n : Nat) (es : List Event) : ∀ e ∈ leftBy n es, e ∈ es := by
  have hplaced : ∀ x ∈ placed es, x.1 ∈ es := by
    induction es with
    | nil => simp [placed]
    | cons e es ih =>
      rw [placed]
      exact List.forall_mem_cons.mpr
        ⟨List.mem_cons_self, fun x hx => List.mem_cons_of_mem e (ih x hx)⟩
  intro e he
  have hwithin : e ∈ within n es := by
    rw [leftBy] at he
    split at he
    · exact List.mem_of_mem_tail he
    · exact he
  obtain ⟨x, hx, rfl⟩ := List.mem_map.mp hwithin
  exact hplaced x (List.mem_of_mem_filter hx)

variable {j : Journal} {d : Disk} {p : Path}

theorem valuesAt_of_lines (hfind : d.find? p = .ok (d.entryAt (Place.ofPath p)))
    (hnot : d.entryAt (Place.ofPath p) ≠ some .folder) (hbytes : 0 ≤ j.tailBytes)
    (hplain : ∀ e ∈ es, e.Plain) (hcontent : d.content p = es.flatMap Event.octets) :
    j.valuesAt d p = .ok ((leftBy j.tailBytes.toNat es).map Event.written) := by
  rw [valuesAt_eq_tail hfind hnot hbytes, hcontent, tail_flatMap]
  exact congrArg Except.ok (valuesIn_decode fun e he => hplain e (leftBy_subset _ _ e he))

theorem Ready.appendFacing (h : j.Ready d) {folder : Path} {name : String}
    (hfolder : d.HasFolder folder) (hlog : j.IsLog (folder.child name))
    (fault? : Path → Option DiskFault) (octets : List UInt8) :
    j.Ready (d.appendFacing fault? (folder.child name) octets).1 := by
  rw [Disk.appendFacing]
  split
  · by_cases hfits : (folder.child name).Fits
    · obtain ⟨d', happend, hready⟩ := h.append hfolder hfits hlog octets
      rwa [happend]
    · rwa [hfolder.append_of_not_fits hfits]
  · rw [Path.parent_child, hfolder.makeFolder_eq]
    exact h

theorem Ready.attempt (h : j.Ready d) (a : Attempt) : j.Ready (j.attempt d a).1 := by
  have hcommon : j.Ready (j.appendCommon d a).1 := h.appendFacing h.folder (.inl rfl) _ _
  rw [attempt_eq]
  split
  · exact h
  · split
    · exact hcommon
    · split
      · exact hcommon
      · exact hcommon.appendFacing hcommon.sheets (.inr ⟨_, rfl⟩) _ _

theorem Ready.run (h : j.Ready d) (as : List Attempt) : j.Ready (j.run d as) := by
  induction as generalizing d with
  | nil => exact h
  | cons a as ih => exact ih (h.attempt a)

/-- What the reading of the last `n` octets of a file with the lines of the events comes to. -/
structure FromEnd (n : Nat) (es : List Event) (read : Except ReadFault (List Json)) : Prop where
  values : read = .ok ((leftBy n es).map Event.written)
  complete_iff : read = .ok ((within n es).map Event.written) ↔ beginsAt n es = false

theorem fromEnd_of_ready (h : j.Ready d) (hlog : j.IsLog p) (hfits : p.Fits)
    (hbytes : 0 ≤ j.tailBytes) (hplain : ∀ e ∈ es, e.Plain)
    (hcontent : d.content p = es.flatMap Event.octets) :
    FromEnd j.tailBytes.toNat es (j.valuesAt d p) := by
  have hvalues := valuesAt_of_lines (find?_log h hlog hfits) (h.logs p hlog) hbytes hplain hcontent
  refine ⟨hvalues, ?_⟩
  rw [hvalues, Except.ok.injEq, map_leftBy_eq_iff]

def eventsOf (j : Journal) (test : Disk → Attempt → Bool) (d : Disk) (as : List Attempt) :
    List Event :=
  (j.those test d as).map (·.event)

theorem mem_of_mem_those {test : Disk → Attempt → Bool} {as : List Attempt} {a : Attempt}
    (h : a ∈ j.those test d as) : a ∈ as := by
  induction as generalizing d with
  | nil => exact h
  | cons b as ih =>
    rw [those] at h
    split at h
    · rcases List.mem_cons.mp h with rfl | h
      · exact List.mem_cons_self
      · exact List.mem_cons_of_mem b (ih h)
    · exact List.mem_cons_of_mem b (ih h)

theorem plain_of_mem_eventsOf {test : Disk → Attempt → Bool} {as : List Attempt}
    (h : ∀ a ∈ as, a.event.Plain) : ∀ e ∈ j.eventsOf test d as, e.Plain := by
  intro e he
  obtain ⟨a, ha, rfl⟩ := List.mem_map.mp he
  exact h a (mem_of_mem_those ha)

/-- A file written by any calls is read from so many octets before its end on. What comes back are
the events whose lines lie within them, except for the first of these if its line begins just
there and the file is longer; so exactly then an event is lost. -/
theorem read_from_end (j : Journal) (d : Disk) (as : List Attempt)
    (hstart : (j.start d).2 = .ok ())
    (hnew : ∀ p, j.IsLog p → (j.start d).1.entryAt (Place.ofPath p) = none)
    (hplain : ∀ a ∈ as, a.event.Plain) (hbytes : 0 ≤ j.tailBytes) :
    (j.commonFile.Fits →
      FromEnd j.tailBytes.toNat (j.eventsOf j.entersCommon (j.start d).1 as)
        (j.valuesAt (j.run (j.start d).1 as) j.commonFile)) ∧
    ∀ id, isSafe id = true → (j.sheetFile id).Fits →
      FromEnd j.tailBytes.toNat (j.eventsOf (j.entersSheet id) (j.start d).1 as)
        (j.readSheet (j.run (j.start d).1 as) id) := by
  obtain ⟨hready, hnothing⟩ := blank_of_start hstart hnew
  have hrun := hready.run as
  constructor
  · intro hfits
    refine fromEnd_of_ready hrun (.inl rfl) hfits hbytes (plain_of_mem_eventsOf hplain) ?_
    rw [content_commonFile_run, hnothing _ (.inl rfl), List.nil_append, eventsOf, List.flatMap_map]
    rfl
  · intro id hsafe hfits
    rw [readSheet, if_pos hsafe]
    refine fromEnd_of_ready hrun (.inr ⟨id, rfl⟩) hfits hbytes (plain_of_mem_eventsOf hplain) ?_
    rw [content_sheetFile_run, hnothing _ (.inr ⟨id, rfl⟩), List.nil_append, eventsOf,
      List.flatMap_map]
    rfl

theorem leftBy_pair (e : Event) :
    within e.octets.length [e, e] = [e] ∧ leftBy e.octets.length [e, e] = [] ∧
      (1 < e.octets.length → leftBy (e.octets.length + 1) [e, e] = [e]) := by
  obtain ⟨body, hbody, -⟩ := e.exists_octets
  have hpos : 0 < e.octets.length := by simp [hbody]
  have hlast : ([e].flatMap Event.octets).length = e.octets.length := by simp
  have hboth : ([e, e].flatMap Event.octets).length = e.octets.length + e.octets.length := by simp
  have hone : within e.octets.length [e, e] = [e] := by
    rw [within_cons (by omega), within_eq_self hlast.le]
  refine ⟨hone, ?_, fun hlong => ?_⟩
  · have hbegins : beginsAt e.octets.length [e, e] = true := by
      rw [beginsAt_cons (by omega), placed, hlast, List.any_cons, beq_self_eq_true, Bool.true_or]
    rw [leftBy, hbegins, if_pos rfl, hone, List.tail_cons]
  · have hnot : beginsAt (e.octets.length + 1) [e, e] = false := by
      rw [beginsAt_cons (by omega), any_placed_of_lt (by omega)]
    rw [leftBy, hnot, if_neg Bool.false_ne_true, within_cons (by omega), within_eq_self (by omega)]

/-- The reading begins with the last octet of the first of the two lines. -/
theorem read_from_end_within_line :
    ∃ (e : Event) (j : Journal), j.tailBytes = e.octets.length + 1 ∧
      j.valuesAt (j.run (j.start .empty).1 [⟨⟨e, none⟩, fun _ => none⟩, ⟨⟨e, none⟩, fun _ => none⟩])
        j.commonFile = .ok [e.written] := by
  let e : Event := { stamp := "2024-01-02T03:04:05.000000Z", level := .info, kind := .cellUpdated }
  let j : Journal := { inLogs with tailBytes := e.octets.length + 1 }
  let a : Attempt := ⟨⟨e, none⟩, fun _ => none⟩
  have hplain : ∀ b ∈ [a, a], b.event.Plain := by
    have he : e.Plain := ⟨List.nodup_nil, trivial⟩
    simpa using he
  have hnew := new_of_folder_eq j inLogs rfl new_inLogs
  have hfirst : j.entersCommon (j.start .empty).1 a = true := by decide +kernel
  have hsecond : j.entersCommon (j.attempt (j.start .empty).1 a).1 a = true := by decide +kernel
  have hevents : j.eventsOf j.entersCommon (j.start .empty).1 [a, a] = [e, e] := by
    simp only [eventsOf, those, hfirst, hsecond, if_true]
    rfl
  obtain ⟨hcommon, -⟩ := read_from_end j .empty [a, a] hnew.1 hnew.2 hplain (Int.natCast_nonneg _)
  have hread := (hcommon (by decide +kernel)).values
  rw [hevents, show j.tailBytes.toNat = e.octets.length + 1 from rfl,
    (leftBy_pair e).2.2 (by decide +kernel)] at hread
  exact ⟨e, j, rfl, hread⟩

/-- The reading begins between the two lines, and nothing is left of the second one. -/
theorem line_lost_between_lines :
    ∃ (e : Event) (j : Journal), j.tailBytes = e.octets.length ∧
      within e.octets.length [e, e] = [e] ∧
      (j.run (j.start .empty).1 [⟨⟨e, none⟩, fun _ => none⟩, ⟨⟨e, none⟩, fun _ => none⟩]).content
        j.commonFile = [e, e].flatMap Event.octets ∧
      j.valuesAt (j.run (j.start .empty).1 [⟨⟨e, none⟩, fun _ => none⟩, ⟨⟨e, none⟩, fun _ => none⟩])
        j.commonFile = .ok [] := by
  let e : Event := { stamp := "2024-01-02T03:04:05.000000Z", level := .info, kind := .cellUpdated }
  let j : Journal := { inLogs with tailBytes := e.octets.length }
  let a : Attempt := ⟨⟨e, none⟩, fun _ => none⟩
  have he : e.Plain := ⟨List.nodup_nil, trivial⟩
  have hnew := new_of_folder_eq j inLogs rfl new_inLogs
  obtain ⟨hready, hnothing⟩ := blank_of_start hnew.1 hnew.2
  have hfirst : j.entersCommon (j.start .empty).1 a = true := by decide +kernel
  have hsecond : j.entersCommon (j.attempt (j.start .empty).1 a).1 a = true := by decide +kernel
  have hcontent : (j.run (j.start .empty).1 [a, a]).content j.commonFile =
      [e, e].flatMap Event.octets := by
    rw [content_commonFile_run, hnothing _ (.inl rfl), List.nil_append]
    simp only [those, hfirst, hsecond, if_true]
    rfl
  have hread := (fromEnd_of_ready (hready.run [a, a]) (.inl rfl) (by decide +kernel)
    (Int.natCast_nonneg _) (by simpa using he) hcontent).values
  obtain ⟨hwithin, hleft, -⟩ := leftBy_pair e
  rw [show j.tailBytes.toNat = e.octets.length from rfl, hleft] at hread
  exact ⟨e, j, rfl, hwithin, hcontent, hread⟩

end Journal
end Gridcalc
