import Gridcalc.Proofs.Limits.Ends
import Gridcalc.Proofs.Limits.Formula
import Gridcalc.Proofs.Sheet.Edit

/-! # Edits within ample limits

Within limits that are large enough for it, an edit whose targets are cells of the grid is done to
its end, step by step as at once. What is large enough depends on the edit and the sheet: every pair
of parentheses costs calls, so no limits are enough for all.
-/

namespace Gridcalc

open Filter Limits

namespace Session

variable {σ : Session} {s t : Sheet} {notices notices' : List Notice}

@[simp] theorem sheet_became : (σ.became s notices).sheet = s := rfl

@[simp] theorem became_became :
    (σ.became s notices).became t notices' = σ.became t (notices ++ notices') := by
  simp [became, Recorder.recordNotices]

end Session

namespace Sheet

theorem eventually_lookup (s : Sheet) (ref : String) :
    ∀ᶠ l in ample, s.lookupWithin l ref = .ok (s.lookup ref) := by
  filter_upwards [eventually_keyOfReference? ref] with l hkey
  rw [lookupWithin, lookup, hkey]
  cases keyOfReference? ref with
  | none => rfl
  | some k => cases hcell : s.cells.find? k <;> simp only [hcell]

theorem eventually_process (s : Sheet) (raw : String) (a : Address) :
    ∀ᶠ l in ample, s.processWithin l raw a = .ok (s.process raw a) := by
  have hcompute := Formula.eventually_compute s.eventually_lookup (Text.trim raw)
  generalize he : Formula.compute (fun ref => .ok (s.lookup ref)) (Text.trim raw) = e at hcompute
  filter_upwards [eventually_key a, eventually_a1 a, hcompute,
    eventually_readKeys e.references] with l hkey hname hcompute hkeys
  have hformula : s.processFormulaWithin l (Text.trim raw) a =
      .ok (s.processFormula (Text.trim raw) a) := by
    rw [processFormulaWithin, processFormula, hkey, hname, hcompute, he]
    change ((l.readKeys e.references).mapError EditFault.overrun >>= _) = _
    rw [hkeys]
    rfl
  rw [processWithin, process, hformula]
  split
  · rfl
  · split <;> rfl

end Sheet

namespace Editing

variable {σ : Session} {raw k : String} {a source : Address} {target : Target}
  {notices : List Notice}

theorem pure_run {α : Type} (v : α) : (pure v : Editing α) σ = .ok v σ := rfl

theorem change_run (f : Sheet → Sheet) : change f σ = .ok () (σ.became (f σ.sheet) []) := rfl

theorem report_run : report notices σ = .ok () (σ.became σ.sheet notices) := rfl

theorem report_became {s : Sheet} (before : List Notice) :
    report notices (σ.became s before) = .ok () (σ.became s (before ++ notices)) := by
  rw [report_run, Session.became_became]
  rfl

theorem bounded_run {α : Type} {y : Except Overrun α} {v : α} (h : y = .ok v) :
    bounded y σ = .ok v σ := by
  rw [h]
  rfl

theorem attempt_run {α : Type} {y : Except EditFault α} {v : α} (h : y = .ok v) :
    attempt y σ = .ok v σ := by
  rw [h]
  rfl

theorem eventually_process (raw : String) (a : Address) (σ : Session) :
    ∀ᶠ l in ample, process l raw a σ = .ok (σ.sheet.process raw a).cell
      (σ.became { σ.sheet with graph := (σ.sheet.process raw a).graph }
        (σ.sheet.process raw a).notices) := by
  filter_upwards [σ.sheet.eventually_process raw a] with l hprocess
  rw [process, bind_of_ok get_run, bind_of_ok (attempt_run hprocess), bind_of_ok (change_run _),
    bind_of_ok report_run, pure_run, Session.became_became, List.nil_append, Session.sheet_became]

theorem eventually_store (raw : String) (a : Address) (σ : Session) :
    ∀ᶠ l in ample, store l raw a σ = .ok (σ.sheet.store raw a).cell
      (σ.became (σ.sheet.store raw a).sheet (σ.sheet.store raw a).notices) := by
  filter_upwards [eventually_process raw a σ] with l hprocess
  rw [store, bind_of_ok hprocess, bind_of_ok (change_run _), bind_of_ok (change_run _), pure_run,
    Sheet.store]
  simp only [Session.became_became, Session.sheet_became, List.append_nil]
  rfl

theorem eventually_replay (ks : List String) (σ : Session) :
    ∀ᶠ l in ample, replay l ks σ = .ok (σ.sheet.replay ks).updated
      (σ.became (σ.sheet.replay ks).sheet (σ.sheet.replay ks).notices) := by
  induction ks generalizing σ with
  | nil => exact .of_forall fun _ => rfl
  | cons k ks ih =>
    have haddress := eventually_addressOfKey? k
    cases hraw : (σ.sheet.cells.find? k).bind Cell.raw? with
    | none =>
      filter_upwards [haddress, ih σ] with l haddress hrest
      rw [replay, Sheet.replay, bind_of_ok get_run, bind_of_ok (bounded_run haddress), hraw]
      exact hrest
    | some raw =>
      cases ha : Address.ofKey? k with
      | none =>
        filter_upwards [haddress, ih σ] with l haddress hrest
        rw [replay, Sheet.replay, bind_of_ok get_run, bind_of_ok (bounded_run haddress), hraw, ha]
        exact hrest
      | some a =>
        by_cases hempty : raw = ""
        · filter_upwards [haddress, ih σ] with l haddress hrest
          rw [replay, Sheet.replay, bind_of_ok get_run, bind_of_ok (bounded_run haddress), hraw, ha]
          simp only [if_pos hempty]
          exact hrest
        · filter_upwards [haddress, eventually_process raw a σ, ih (Session.became _ _ _)] with l
            haddress hprocess hrest
          rw [replay, Sheet.replay, bind_of_ok get_run, bind_of_ok (bounded_run haddress), hraw, ha]
          simp only [if_neg hempty]
          rw [bind_of_ok hprocess, bind_of_ok (change_run _), bind_of_ok hrest]
          simp only [Session.became_became, Session.sheet_became, List.append_nil]
          rfl

theorem eventually_recalculateDependents (changed : List String) (σ : Session) :
    ∀ᶠ l in ample, recalculateDependents l changed σ =
      .ok (σ.sheet.recalculateDependents changed).updated
        (σ.became (σ.sheet.recalculateDependents changed).sheet
          (σ.sheet.recalculateDependents changed).notices) := by
  filter_upwards [eventually_replay (σ.sheet.graph.recalculationOrder changed) σ] with l hreplay
  rw [recalculateDependents, bind_of_ok get_run]
  rw [bind_of_ok hreplay, bind_of_ok report_run]
  simp only [Session.became_became]
  rfl

theorem eventually_finish (s : Sheet) (k : String) (before : List Notice) (σ : Session) :
    ∀ᶠ l in ample, finish l k (σ.became s before) = .ok (s.finish k before).keys
      (σ.became (s.finish k before).sheet (s.finish k before).notices) := by
  filter_upwards [eventually_recalculateDependents [k] (σ.became s before)] with l hdependents
  rw [finish, bind_of_ok hdependents, Session.became_became]
  rfl

theorem eventually_resolve (h : σ.sheet.resolve target = .ok a) :
    ∀ᶠ l in ample, resolve l target σ = .ok a σ := by
  filter_upwards [eventually_readable target] with l hreadable
  exact resolve_of_ok (Sheet.resolveWithin_eq_ok_iff.mpr ⟨h, hreadable⟩)

theorem eventually_setCell (raw : String) (h : σ.sheet.resolve target = .ok a) :
    ∀ᶠ l in ample, setCell l target raw σ = .ok (σ.sheet.write a raw).keys
      (σ.became (σ.sheet.write a raw).sheet (σ.sheet.write a raw).notices) := by
  filter_upwards [eventually_resolve h, eventually_key a, eventually_store raw a σ, eventually_a1 a,
    eventually_finish _ a.key _ σ] with l hresolve hkey hstore hname hfinish
  rw [setCell, bind_of_ok hresolve, bind_of_ok (bounded_run hkey), bind_of_ok hstore,
    bind_of_ok (bounded_run hname), bind_of_ok (report_became _), hfinish]
  rfl

theorem eventually_clearCell (h : σ.sheet.resolve target = .ok a) :
    ∀ᶠ l in ample, clearCell l target σ = .ok (σ.sheet.wipe a).keys
      (σ.became (σ.sheet.wipe a).sheet (σ.sheet.wipe a).notices) := by
  filter_upwards [eventually_resolve h, eventually_key a, eventually_store "" a σ, eventually_a1 a,
    eventually_finish _ a.key _ σ] with l hresolve hkey hstore hname hfinish
  rw [clearCell, bind_of_ok hresolve, bind_of_ok (bounded_run hkey), bind_of_ok hstore,
    bind_of_ok (change_run _), Session.became_became, List.append_nil,
    bind_of_ok (bounded_run hname), bind_of_ok (report_became _), hfinish]
  rfl

theorem eventually_fillTexts (text : String) (source : Address) (targets : List Address)
    (σ : Session) : ∀ᶠ l in ample, fillTexts l text source targets σ =
      .ok ((targets.map fun target => (target, fillText text source target)).map
        fun e => (e.1.key, e.2)) σ := by
  induction targets with
  | nil => exact .of_forall fun _ => rfl
  | cons target targets ih =>
    have hcopy : ∀ᶠ l in ample,
        fillTextWithin l text source target = .ok (fillText text source target) := by
      filter_upwards [Formula.eventually_shiftText text (target.row - source.row)
        (target.column - source.column)] with l hshift
      rw [fillTextWithin, fillText, hshift]
      split <;> rfl
    filter_upwards [eventually_key target, hcopy, ih] with l hkey hcopy hrest
    rw [fillTexts, bind_of_ok (bounded_run hkey), bind_of_ok (attempt_run hcopy), bind_of_ok hrest,
      pure_run, List.map_cons, List.map_cons]

theorem eventually_setAll {plan : List (Address × String)}
    (hsource : source.InGrid σ.sheet.rows σ.sheet.columns)
    (hplan : ∀ e ∈ plan, e.1.InGrid σ.sheet.rows σ.sheet.columns) :
    ∀ᶠ l in ample, setAll l source.key (plan.map fun e => (e.1.key, e.2)) σ =
      .ok (σ.sheet.carryOut source plan).keys
        (σ.became (σ.sheet.carryOut source plan).sheet (σ.sheet.carryOut source plan).notices) := by
  induction plan generalizing σ with
  | nil => exact .of_forall fun _ => rfl
  | cons e plan ih =>
    obtain ⟨target, text⟩ := e
    have htarget : target.InGrid σ.sheet.rows σ.sheet.columns := hplan _ List.mem_cons_self
    have hrest : ∀ e ∈ plan, e.1.InGrid σ.sheet.rows σ.sheet.columns := fun e he =>
      hplan e (List.mem_cons_of_mem _ he)
    have hkey : target.key = source.key ↔ target = source :=
      ⟨Address.key_injective_of_nonneg htarget.2.2.1 htarget.1 hsource.2.2.1 hsource.1,
        congrArg Address.key⟩
    by_cases hsame : target = source
    · filter_upwards [ih hsource hrest] with l hrest
      rw [List.map_cons, setAll, Sheet.carryOut, if_pos (hkey.mpr hsame), if_pos hsame]
      exact hrest
    · obtain ⟨hrows, hcolumns⟩ := Sheet.size_write σ.sheet target text
      have hnext := ih (σ := σ.became (σ.sheet.write target text).sheet
        (σ.sheet.write target text).notices)
      simp only [Session.sheet_became, hrows, hcolumns] at hnext
      filter_upwards [eventually_setCell text (Sheet.resolve_key htarget), hnext hsource hrest] with
        l hset hrest
      rw [List.map_cons, setAll, Sheet.carryOut, if_neg (mt hkey.mp hsame), if_neg hsame,
        bind_of_ok hset, bind_of_ok hrest, Session.became_became]
      rfl

theorem eventually_fill {source first last : Target} {b c : Address}
    (ha : σ.sheet.resolve source = .ok a) (hb : σ.sheet.resolve first = .ok b)
    (hc : σ.sheet.resolve last = .ok c) :
    ∃ e, σ.sheet.fill source first last = .ok e ∧
      ∀ᶠ l in ample, fill l source first last σ = .ok e.keys (σ.became e.sheet e.notices) := by
  have hplan : ∀ e ∈ fillPlan ((σ.sheet.cellAt a).raw?.getD "") a b c,
      e.1.InGrid σ.sheet.rows σ.sheet.columns := fun e he =>
    Sheet.inGrid_of_mem_fillPlan (Sheet.inGrid_of_resolve ha) (Sheet.inGrid_of_resolve hb)
      (Sheet.inGrid_of_resolve hc) he
  obtain ⟨e, he⟩ : ∃ e, σ.sheet.fill source first last = .ok e := by
    rw [Sheet.fill, ha, hb, hc]
    exact ⟨_, rfl⟩
  refine ⟨e, he, ?_⟩
  rw [Sheet.fill, ha, hb, hc] at he
  cases he
  filter_upwards [eventually_resolve ha, eventually_resolve hb, eventually_resolve hc,
    eventually_key a, eventually_fillTexts _ a (fillTargets a b c) σ,
    eventually_setAll (Sheet.inGrid_of_resolve ha) hplan, eventually_a1 a, eventually_a1 b,
    eventually_a1 c] with l hsource hfirst hlast hkey htexts hset hname hfirstName hlastName
  rw [fillPlan] at hset
  rw [fill, bind_of_ok hsource, bind_of_ok hfirst, bind_of_ok hlast, bind_of_ok (bounded_run hkey),
    bind_of_ok get_run, bind_of_ok htexts, bind_of_ok hset, bind_of_ok (bounded_run hname),
    bind_of_ok (bounded_run hfirstName), bind_of_ok (bounded_run hlastName),
    bind_of_ok (report_became _), List.length_map]
  rfl

end Editing

namespace Request

variable {request : Request} {σ : Session}

theorem eventually_perform (h : ∀ target ∈ request.targets, σ.sheet.Has target) :
    ∃ e, request.edit σ.sheet = .ok e ∧
      ∀ᶠ l in ample, request.perform l σ = .ok e.keys (σ.became e.sheet e.notices) := by
  have hresolve : ∀ target ∈ request.targets, ∃ a, σ.sheet.resolve target = .ok a :=
    fun target htarget => Sheet.exists_resolve_iff.mpr (h target htarget)
  cases request with
  | set target raw =>
    obtain ⟨a, ha⟩ := hresolve target List.mem_cons_self
    refine ⟨σ.sheet.write a raw, ?_, Editing.eventually_setCell raw ha⟩
    rw [edit, Sheet.setCell, ha]
    rfl
  | clear target =>
    obtain ⟨a, ha⟩ := hresolve target List.mem_cons_self
    refine ⟨σ.sheet.wipe a, ?_, Editing.eventually_clearCell ha⟩
    rw [edit, Sheet.clearCell, ha]
    rfl
  | fill source first last =>
    obtain ⟨a, ha⟩ := hresolve source (by simp [targets])
    obtain ⟨b, hb⟩ := hresolve first (by simp [targets])
    obtain ⟨c, hc⟩ := hresolve last (by simp [targets])
    exact Editing.eventually_fill ha hb hc

/-- Whatever the limits are, an edit fails with a target that is no cell of the grid or has a number
too long to read, and nothing has changed, or else it completes or is broken off by a limit. Within
all limits that are large enough for the edit, it completes as the edit at once exactly if its
targets are cells of the grid. -/
theorem perform_ends (request : Request) (σ : Session) :
    (∀ l : Limits,
      ((∃ target ∈ request.targets, ¬ (σ.sheet.Has target ∧ target.readable l = true)) ↔
        ∃ fault, request.perform l σ = .error (.target fault) σ) ∧
      ((∀ target ∈ request.targets, σ.sheet.Has target ∧ target.readable l = true) ↔
        (∃ keys τ, request.perform l σ = .ok keys τ) ∨
          ∃ o τ, request.perform l σ = .error (.overrun o) τ)) ∧
    ∃ depth digits, ∀ l : Limits, depth ≤ l.depth → digits ≤ l.digits →
      ((∀ target ∈ request.targets, σ.sheet.Has target) ↔
        ∃ e, request.edit σ.sheet = .ok e ∧
          request.perform l σ = .ok e.keys (σ.became e.sheet e.notices)) ∧
      ((∃ target ∈ request.targets, ¬ σ.sheet.Has target) ↔
        ∃ fault, request.perform l σ = .error (.target fault) σ) := by
  refine ⟨fun l => perform_cases l request σ, eventually_ample_iff.mp ?_⟩
  by_cases h : ∀ target ∈ request.targets, σ.sheet.Has target
  · obtain ⟨e, hedit, hperform⟩ := eventually_perform h
    filter_upwards [hperform] with l hperform
    refine ⟨iff_of_true h ⟨e, hedit, hperform⟩, iff_of_false ?_ ?_⟩
    · rintro ⟨target, htarget, hnot⟩
      exact hnot (h target htarget)
    · rintro ⟨fault, hfault⟩
      rw [hperform] at hfault
      cases hfault
  · obtain ⟨target, htarget, hnot⟩ : ∃ target ∈ request.targets, ¬ σ.sheet.Has target := by
      simpa only [not_forall, exists_prop] using h
    refine .of_forall fun l => ?_
    obtain ⟨fault, hperform⟩ := (perform_cases l request σ).1.mp
      ⟨target, htarget, fun hhas => hnot hhas.1⟩
    refine ⟨iff_of_false h ?_, iff_of_true ⟨target, htarget, hnot⟩ ⟨fault, hperform⟩⟩
    rintro ⟨e, -, hdone⟩
    rw [hperform] at hdone
    cases hdone

/-- A text that cannot be taken within the limits changes nothing when it is typed. -/
theorem perform_set_of_fault {l : Limits} {target : Target} {a : Address} {k raw : String}
    {fault : EditFault} (ha : σ.sheet.resolveWithin l target = .ok a) (hk : l.key a = .ok k)
    (h : σ.sheet.processWithin l raw a = .error fault) :
    (Request.set target raw).perform l σ = .error fault σ := by
  have hprocess : Editing.process l raw a σ = .error fault σ := by
    rw [Editing.process, Editing.bind_of_ok Editing.get_run]
    refine Editing.bind_of_error ?_
    rw [h]
    rfl
  rw [perform, Editing.setCell, Editing.bind_of_ok (Editing.resolve_of_ok ha),
    Editing.bind_of_ok (Editing.bounded_run hk)]
  refine Editing.bind_of_error ?_
  rw [Editing.store]
  exact Editing.bind_of_error hprocess

theorem processWithin_nested {l : Limits} {s : Sheet} {a : Address} {k name : String} {m : Nat}
    (hdepth : l.depth ≤ 4 * m) (hk : l.key a = .ok k) (hname : l.a1 a = .ok name) :
    s.processWithin l (Formula.nested m) a = .error (.overrun .depth) := by
  have htrim : Text.trim (Formula.nested m) = Formula.nested m :=
    Formula.trim_equals (Formula.compact_nestedChars m)
  have hformula : isFormulaText (Formula.nested m) = true := by
    rw [isFormulaText, htrim, Formula.nested, String.toList_ofList]
    rfl
  have hne : Text.trim (Formula.nested m) ≠ "" := trim_ne_empty_of_isFormulaText hformula
  rw [Sheet.processWithin]
  simp only [if_neg hne, if_pos hformula]
  rw [htrim, Sheet.processFormulaWithin, hk, hname, Formula.computeWithin,
    (Formula.parseWithin_nested hdepth).2]
  rfl

/-- A formula of 250 pairs of parentheses is not taken with a thousand calls; and with numbers of
three digits at most, a fill stops after its first copy, which makes a formula read a column too
far away. -/
theorem broken_off_beyond_limits :
    (∃ σ : Session, σ.sheet = Sheet.typed [] ∧
      (Request.set (.text "A1") (Formula.nested 250)).perform { depth := 1000, digits := 4300 } σ =
        .error (.overrun .depth) σ) ∧
    ∃ σ τ : Session, σ.sheet = Sheet.typed [("E1", "=1/C1+AAAAA1"), ("A1", "5")] ∧
      (∀ target ∈ (Request.fill (.text "A1") (.text "B1") (.text "D1")).targets,
        σ.sheet.Has target) ∧
      (Request.fill (.text "A1") (.text "B1") (.text "D1")).perform { depth := 60, digits := 3 } σ =
        .error (.overrun .digits) τ ∧
      (τ.sheet.cells.find? "r0c1").isSome = true ∧ τ.sheet.cells.find? "r0c3" = none := by
  let σ (texts : List (String × String)) : Session :=
    ⟨Sheet.typed texts, { disk := .empty }, none, ""⟩
  refine ⟨⟨σ [], rfl, ?_⟩, ?_⟩
  · have hresolve : (σ []).sheet.resolveWithin { depth := 1000, digits := 4300 } (.text "A1") =
        .ok ⟨0, 0⟩ := by
      decide +kernel
    have hkey : Limits.key { depth := 1000, digits := 4300 } ⟨0, 0⟩ = .ok "r0c0" := by
      decide +kernel
    have hname : Limits.a1 { depth := 1000, digits := 4300 } ⟨0, 0⟩ = .ok "A1" := by
      decide +kernel
    exact perform_set_of_fault hresolve hkey (processWithin_nested (by decide) hkey hname)
  · let request : Request := .fill (.text "A1") (.text "B1") (.text "D1")
    let τ := σ [("E1", "=1/C1+AAAAA1"), ("A1", "5")]
    have hhas : ∀ target ∈ request.targets, (τ.sheet.resolve target).isOk = true := by
      decide +kernel
    have hbroken : (match request.perform { depth := 60, digits := 3 } τ with
        | .error fault υ => decide (fault = .overrun .digits) &&
          (υ.sheet.cells.find? "r0c1").isSome && (υ.sheet.cells.find? "r0c3").isNone
        | _ => false) = true := by
      decide +kernel
    split at hbroken
    · rename_i fault υ hperform
      simp only [Bool.and_eq_true, decide_eq_true_eq, Option.isNone_iff_eq_none] at hbroken
      obtain ⟨⟨rfl, hfirst⟩, hlast⟩ := hbroken
      refine ⟨τ, υ, rfl, fun target htarget => ?_, hperform, hfirst, hlast⟩
      rw [← Sheet.exists_resolve_iff]
      have hok := hhas target htarget
      cases h : τ.sheet.resolve target with
      | ok a => exact ⟨a, rfl⟩
      | error fault =>
        rw [h] at hok
        cases hok
    · cases hbroken

end Request

end Gridcalc
