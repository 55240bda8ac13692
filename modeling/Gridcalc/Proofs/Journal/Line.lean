import Gridcalc.Journal.Read
import Gridcalc.Proofs.Json.Printable
import Gridcalc.Proofs.Text.Blank
import Gridcalc.Proofs.Text.Lines

/-! # Lines of a journal

Each event is one line, so the values in a file are those of the events written into it, in their
order. A filter sees in a line what the event has.
-/

namespace Gridcalc

namespace Event

variable {e : Event}

/-- The value on the line of an event: its JSON form, all members in the order of their keys. -/
def written (e : Event) : Json := e.toJson.sorted

/-- No object in the context has two members with one key. -/
def Plain (e : Event) : Prop := Json.DistinctKeys (.object e.context)

def text? : Json → Option String
  | .text s => some s
  | _ => none

def cell? (e : Event) : Option String := (Json.member? "cell" e.context).bind text?

theorem exists_members (e : Event) :
    ∃ ms, e.toJson = .object ms ∧ (ms.map Prod.fst).Nodup ∧
      (e.Plain → Json.MembersDistinct ms) ∧
      Json.member? "context" ms = some (.object e.context) ∧
      Json.member? "event_type" ms = some (.text e.kind.label) ∧
      Json.member? "level" ms = some (.text e.level.label) := by
  have hkeys : ["context", "error_code", "event_type", "level", "message", "schema_version",
      "ts"].Nodup := by
    decide
  refine ⟨_, rfl, hkeys, fun hplain => ?_, rfl, rfl, rfl⟩
  have hcode : Json.DistinctKeys ((e.code.map .text).getD .null) := by
    cases e.code <;> trivial
  exact ⟨hplain, hcode, trivial, trivial, trivial, trivial, trivial, trivial⟩

theorem distinctKeys_written (h : e.Plain) : Json.DistinctKeys e.written := by
  obtain ⟨ms, hms, hkeys, hdistinct, -⟩ := e.exists_members
  rw [written, hms]
  exact Json.distinctKeys_sorted ⟨hkeys, hdistinct h⟩

theorem exists_written (e : Event) :
    ∃ ms, e.written = .object ms ∧
      Json.member? "context" ms = some (.object (Json.sortedMembers e.context)) ∧
      Json.member? "event_type" ms = some (.text e.kind.label) ∧
      Json.member? "level" ms = some (.text e.level.label) := by
  obtain ⟨ms, hms, hkeys, -, hcontext, hkind, hlevel⟩ := e.exists_members
  refine ⟨Json.sortedMembers ms, by rw [written, hms, Json.sorted], ?_⟩
  simp only [Json.member?_sortedMembers hkeys, hcontext, hkind, hlevel, Option.map_some, Json.sorted,
    and_self]

end Event

namespace Journal

theorem not_isLineBreak_of_isPrintable {c : Char} (h : Json.isPrintable c = true) :
    Text.isLineBreak c = false := by
  simp only [Json.isPrintable, Bool.and_eq_true, decide_eq_true_eq, Char.le_def,
    UInt32.le_iff_toNat_le] at h
  by_contra hbreak
  rw [Bool.not_eq_false] at hbreak
  simp only [Text.isLineBreak, Bool.or_eq_true, Bool.and_eq_true, decide_eq_true_eq, beq_iff_eq,
    Char.le_def, UInt32.le_iff_toNat_le] at hbreak
  rcases hbreak with (((⟨-, hhigh⟩ | ⟨-, hhigh⟩) | rfl) | rfl) | rfl
  · exact absurd (Nat.le_trans h.1 hhigh) (by decide)
  · exact absurd (Nat.le_trans h.1 hhigh) (by decide)
  · exact absurd h.2 (by decide)
  · exact absurd h.2 (by decide)
  · exact absurd h.2 (by decide)

theorem toNat_lt_of_isPrintable {c : Char} (h : Json.isPrintable c = true) : c.toNat < 0x80 := by
  simp only [Json.isPrintable, Bool.and_eq_true, decide_eq_true_eq, Char.le_def,
    UInt32.le_iff_toNat_le] at h
  exact Nat.lt_of_le_of_lt h.2 (by decide)

theorem trimChars_line {j : Json} {ms : List (String × Json)} (h : j = .object ms) :
    Text.trimChars j.lineChars = j.lineChars := by
  rw [h, Json.lineChars]
  refine Text.trimChars_eq_self ?_ ?_
  · exact Text.stops_cons (by decide)
  · rw [List.reverse_append]
    exact Text.stops_cons (by decide)

theorem valuesIn_flatMap {js : List Json}
    (h : ∀ j ∈ js, Json.DistinctKeys j ∧ ∃ ms, j = .object ms) :
    valuesIn (js.flatMap fun j => j.lineChars ++ ['\n']) = js := by
  have hbreak : ∀ l ∈ js.map Json.lineChars, ∀ c ∈ l, Text.isLineBreak c = false := by
    intro l hl c hc
    obtain ⟨j, -, rfl⟩ := List.mem_map.mp hl
    exact not_isLineBreak_of_isPrintable (List.all_eq_true.mp j.all_lineChars c hc)
  have hlines : Text.lines (js.flatMap fun j => j.lineChars ++ ['\n']) =
      js.map Json.lineChars ++ [[]] := by
    rw [← Text.lines_flatMap hbreak, List.flatMap_map]
  have hread : ∀ j ∈ js, Json.parse? (String.ofList (Text.trimChars j.lineChars)) = some j := by
    intro j hj
    obtain ⟨hdistinct, ms, hms⟩ := h j hj
    rw [trimChars_line hms]
    exact Json.parse?_line hdistinct
  have hend : Json.parse? (String.ofList (Text.trimChars [])) = none := Json.parse?_empty
  have hvalues : (js.map Json.lineChars).filterMap
      (fun line => Json.parse? (String.ofList (Text.trimChars line))) = js := by
    rw [List.filterMap_map]
    exact (List.filterMap_congr hread).trans List.filterMap_some
  rw [valuesIn, hlines, List.filterMap_append, hvalues]
  simp [hend]

/-- What is read of a file that holds the lines of some events. -/
theorem valuesIn_decode {es : List Event} (h : ∀ e ∈ es, e.Plain) :
    valuesIn (Text.Utf8.decode (es.flatMap fun e => Text.Utf8.encode e.lineChars)) =
      es.map Event.written := by
  have hencode : es.flatMap (fun e => Text.Utf8.encode e.lineChars) =
      Text.Utf8.encode (es.flatMap Event.lineChars) := by
    rw [Text.Utf8.encode, List.flatMap_assoc]
    rfl
  have hascii : ∀ c ∈ es.flatMap Event.lineChars, c.toNat < 0x80 := by
    intro c hc
    obtain ⟨e, -, hc⟩ := List.mem_flatMap.mp hc
    rcases List.mem_append.mp hc with hc | hc
    · exact toNat_lt_of_isPrintable (List.all_eq_true.mp e.toJson.sorted.all_lineChars c hc)
    · rw [List.mem_singleton.mp hc]
      decide
  have hlines : es.flatMap Event.lineChars =
      (es.map Event.written).flatMap fun j => j.lineChars ++ ['\n'] := by
    rw [List.flatMap_map]
    rfl
  rw [hencode, Text.Utf8.decode_encode hascii, hlines, valuesIn_flatMap]
  intro j hj
  obtain ⟨e, he, rfl⟩ := List.mem_map.mp hj
  obtain ⟨ms, hms, -⟩ := e.exists_written
  exact ⟨Event.distinctKeys_written (h e he), ms, hms⟩

theorem filterM_map {α β ε : Type} {test : β → Except ε Bool} {f : α → β} {p : α → Bool}
    {l : List α} (h : ∀ a ∈ l, test (f a) = .ok (p a)) :
    (l.map f).filterM test = .ok ((l.filter p).map f) := by
  have haux : ∀ before, List.filterAuxM test (l.map f) before =
      .ok (((l.filter p).map f).reverse ++ before) := by
    induction l with
    | nil => exact fun before => rfl
    | cons a l ih =>
      intro before
      rw [List.map_cons, List.filterAuxM, h a List.mem_cons_self]
      have hrest := ih fun b hb => h b (List.mem_cons_of_mem a hb)
      cases hp : p a with
      | true => simpa [hp, bind, Except.bind] using hrest (f a :: before)
      | false => simpa [hp, bind, Except.bind] using hrest before
  rw [List.filterM, haux]
  simp [bind, Except.bind, pure, Except.pure]

theorem hasMember_level (s : String) (e : Event) :
    hasMember "level" s e.written = .ok (some e.level.label == some s) := by
  obtain ⟨ms, hms, -, -, hlevel⟩ := e.exists_written
  rw [hms, hasMember, hlevel]
  simp [isText, eq_comm]

theorem hasMember_kind (s : String) (e : Event) :
    hasMember "event_type" s e.written = .ok (some e.kind.label == some s) := by
  obtain ⟨ms, hms, -, hkind, -⟩ := e.exists_written
  rw [hms, hasMember, hkind]
  simp [isText, eq_comm]

theorem isText_sorted (s : String) (j : Json) : isText s j.sorted = isText s j := by
  cases j <;> rfl

theorem isAbout_written {e : Event} (h : e.Plain) (s : String) :
    isAbout s e.written = .ok (e.cell? == some s) := by
  obtain ⟨ms, hms, hcontext, -⟩ := e.exists_written
  have hvalue : isText s ((Json.member? "cell" (Json.sortedMembers e.context)).getD .null) =
      (e.cell? == some s) := by
    rw [Json.member?_sortedMembers h.1, Event.cell?]
    cases Json.member? "cell" e.context with
    | none => rfl
    | some j =>
      rw [Option.map_some, Option.getD_some, isText_sorted]
      cases j <;> simp [isText, Event.text?, eq_comm]
  rw [hms, isAbout, hcontext, Option.getD_some, hasMember, hvalue]

end Journal

namespace Query

/-- Whether a filter lets a value pass. No filter and the empty text let everything pass. -/
def passes (filter value : Option String) : Bool := filter.all fun s => s == "" || value == some s

def wants (q : Query) (e : Event) : Bool :=
  passes q.level (some e.level.label) && passes q.kind (some e.kind.label) && passes q.cell e.cell?

end Query

namespace Journal

theorem select_written {wanted : Option String} {test : String → Json → Except ReadFault Bool}
    {value : Event → Option String} {es : List Event}
    (h : ∀ e ∈ es, ∀ s, test s e.written = .ok (value e == some s)) :
    select wanted test (es.map Event.written) =
      .ok ((es.filter fun e => Query.passes wanted (value e)).map Event.written) := by
  rw [select]
  split
  · rename_i hnone
    have hpass : ∀ e ∈ es, Query.passes wanted (value e) = true := by
      intro e he
      cases wanted with
      | none => rfl
      | some s =>
        have hs : s = "" := by simpa [Option.filter] using hnone
        simp [Query.passes, hs]
    rw [List.filter_eq_self.mpr hpass]
  · rename_i s hsome
    obtain ⟨rfl, hne⟩ := Option.filter_eq_some_iff.mp hsome
    have hs : (s == "") = false := by simpa using hne
    rw [filterM_map fun e he => h e he s]
    have hpasses : ∀ e, Query.passes (some s) (value e) = (value e == some s) := by
      intro e
      rw [Query.passes, Option.all_some, hs, Bool.false_or]
    simp only [hpasses]

theorem select_level (wanted : Option String) (es : List Event) :
    select wanted (hasMember "level") (es.map Event.written) =
      .ok ((es.filter fun e => Query.passes wanted (some e.level.label)).map Event.written) :=
  select_written fun e _ s => hasMember_level s e

theorem select_kind (wanted : Option String) (es : List Event) :
    select wanted (hasMember "event_type") (es.map Event.written) =
      .ok ((es.filter fun e => Query.passes wanted (some e.kind.label)).map Event.written) :=
  select_written fun e _ s => hasMember_kind s e

theorem select_cell {es : List Event} (h : ∀ e ∈ es, e.Plain) (wanted : Option String) :
    select wanted isAbout (es.map Event.written) =
      .ok ((es.filter fun e => Query.passes wanted e.cell?).map Event.written) :=
  select_written fun e he s => isAbout_written (h e he) s

theorem cut_written {es : List Event} {limit : Int} (h : 0 ≤ limit) :
    cut (min limit mostEvents) (es.map Event.written).reverse =
      (es.reverse.take (min limit mostEvents).toNat).map Event.written := by
  have hnonneg : 0 ≤ min limit mostEvents := le_min h (by decide)
  rw [cut, if_pos hnonneg, ← List.map_reverse, List.map_take]

end Journal

end Gridcalc
