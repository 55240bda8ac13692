import Gridcalc.Proofs.Limits.Parse
import Gridcalc.Proofs.Limits.Target
import Gridcalc.Proofs.Sheet.History

/-! # How an edit ends

An edit with a target that cannot be resolved fails with it, and nothing has changed. Once all are
resolved, it runs to its end or is broken off by a limit, and nothing else stops it: the faults of
texts are caught, and the keys that a fill writes to are resolved again.
-/

namespace Gridcalc

/-- If it fails, then on a limit. -/
def StopsOnLimits {α : Type} (y : Except EditFault α) : Prop :=
  ∀ fault, y = .error fault → ∃ o, fault = .overrun o

section StopsOnLimits

variable {α β : Type} {l : Limits}

theorem stopsOnLimits_ok (v : α) : StopsOnLimits (.ok v) := by
  rintro fault ⟨⟩

theorem stopsOnLimits_overrun (o : Overrun) :
    StopsOnLimits (.error (.overrun o) : Except EditFault α) := by
  rintro _ ⟨⟩
  exact ⟨o, rfl⟩

theorem stopsOnLimits_mapError (y : Except Overrun α) : StopsOnLimits (y.mapError .overrun) := by
  cases y with
  | ok v => exact stopsOnLimits_ok v
  | error o => exact stopsOnLimits_overrun o

theorem StopsOnLimits.bind {y : Except EditFault α} {f : α → Except EditFault β}
    (hy : StopsOnLimits y) (hf : ∀ v, StopsOnLimits (f v)) : StopsOnLimits (y >>= f) := by
  cases y with
  | ok v => exact hf v
  | error fault =>
    rintro _ ⟨⟩
    exact hy fault rfl

theorem stopsOnLimits_compute (lookup : Lookup) (s : String) :
    StopsOnLimits (Formula.computeWithin l lookup s) := by
  rw [Formula.computeWithin]
  split
  · exact stopsOnLimits_overrun _
  · rename_i e he
    rw [if_pos (Formula.isOfText_of_parseWithin he)]
    exact stopsOnLimits_ok _
  · exact stopsOnLimits_ok _

theorem stopsOnLimits_shiftText (text : String) (rows columns : Int) :
    StopsOnLimits (Formula.shiftTextWithin l text rows columns) := by
  rw [Formula.shiftTextWithin]
  split
  · exact stopsOnLimits_overrun _
  · rename_i e he
    rw [if_pos (Formula.isOfText_of_parseWithin he)]
    exact stopsOnLimits_ok _
  · split
    · exact stopsOnLimits_overrun _
    · exact stopsOnLimits_ok _
    · split
      · exact stopsOnLimits_ok _
      · exact stopsOnLimits_overrun _

theorem stopsOnLimits_process (s : Sheet) (raw : String) (a : Address) :
    StopsOnLimits (s.processWithin l raw a) := by
  rw [Sheet.processWithin]
  split
  · exact stopsOnLimits_ok _
  · split
    · refine (stopsOnLimits_mapError _).bind fun k => (stopsOnLimits_mapError _).bind fun name => ?_
      refine (stopsOnLimits_compute _ _).bind fun e => ?_
      exact (stopsOnLimits_mapError _).bind fun keys => stopsOnLimits_ok _
    · exact stopsOnLimits_ok _

end StopsOnLimits

namespace Editing

/-- A result on a grid of the same size, or that of an edit which was broken off. -/
inductive Ends {α : Type} (σ : Session) (p : α → Prop) :
    EStateM.Result EditFault Session α → Prop
  | done (v : α) (τ : Session) (hv : p v) (hrows : τ.sheet.rows = σ.sheet.rows)
    (hcolumns : τ.sheet.columns = σ.sheet.columns) : Ends σ p (.ok v τ)
  | broken (o : Overrun) (τ : Session) : Ends σ p (.error (.overrun o) τ)

variable {α β : Type} {l : Limits} {σ τ : Session} {x : Editing α} {f : α → Editing β} {v : α}
  {p : α → Prop} {q : β → Prop} {a source : Address}

theorem bind_of_ok (h : x σ = .ok v τ) : (x >>= f) σ = f v τ := by
  change EStateM.bind x f σ = _
  rw [EStateM.bind, h]

theorem bind_of_error {e : EditFault} (h : x σ = .error e τ) : (x >>= f) σ = .error e τ := by
  change EStateM.bind x f σ = _
  rw [EStateM.bind, h]

theorem get_run : (get : Editing Session) σ = .ok σ σ := rfl

theorem Ends.bind (hx : Ends σ p (x σ)) (hf : ∀ v τ, p v → τ.sheet.rows = σ.sheet.rows →
    τ.sheet.columns = σ.sheet.columns → Ends τ q (f v τ)) : Ends σ q ((x >>= f) σ) := by
  generalize hr : x σ = r at hx
  cases hx with
  | broken o τ =>
    rw [bind_of_error hr]
    exact .broken o τ
  | done v τ hv hrows hcolumns =>
    have hnext := hf v τ hv hrows hcolumns
    rw [bind_of_ok hr]
    generalize f v τ = r at hnext ⊢
    cases hnext with
    | broken o υ => exact .broken o υ
    | done w υ hw hrows' hcolumns' =>
      exact .done w υ hw (hrows'.trans hrows) (hcolumns'.trans hcolumns)

theorem ends_pure (hv : p v) : Ends σ p ((pure v : Editing α) σ) := .done v σ hv rfl rfl

theorem ends_change {g : Sheet → Sheet} (hrows : (g σ.sheet).rows = σ.sheet.rows)
    (hcolumns : (g σ.sheet).columns = σ.sheet.columns) : Ends σ (fun _ => True) (change g σ) :=
  .done () _ trivial hrows hcolumns

theorem ends_report (notices : List Notice) : Ends σ (fun _ => True) (report notices σ) :=
  .done () _ trivial rfl rfl

theorem ends_attempt {y : Except EditFault α} (h : StopsOnLimits y) :
    Ends σ (fun v => y = .ok v) (attempt y σ) := by
  cases y with
  | ok v => exact .done v σ rfl rfl rfl
  | error fault =>
    obtain ⟨o, rfl⟩ := h fault rfl
    exact .broken o σ

theorem ends_bounded (y : Except Overrun α) : Ends σ (fun v => y = .ok v) (bounded y σ) := by
  cases y with
  | ok v => exact .done v σ rfl rfl rfl
  | error o => exact .broken o σ

theorem ends_process (raw : String) (a : Address) :
    Ends σ (fun _ => True) (process l raw a σ) := by
  rw [process, bind_of_ok get_run]
  refine (ends_attempt (stopsOnLimits_process _ raw a)).bind fun p τ _ _ _ => ?_
  refine (ends_change rfl rfl).bind fun _ τ _ _ _ => ?_
  exact (ends_report p.notices).bind fun _ τ _ _ _ => ends_pure trivial

theorem ends_store (raw : String) (a : Address) : Ends σ (fun _ => True) (store l raw a σ) := by
  refine (ends_process raw a).bind fun cell τ _ _ _ => ?_
  refine (ends_change rfl rfl).bind fun _ τ _ _ _ => ?_
  exact (ends_change rfl rfl).bind fun _ τ _ _ _ => ends_pure trivial

theorem ends_replay (ks : List String) : Ends σ (fun _ => True) (replay l ks σ) := by
  induction ks generalizing σ with
  | nil => exact ends_pure trivial
  | cons k ks ih =>
    rw [replay, bind_of_ok get_run]
    refine (ends_bounded _).bind fun a? τ _ _ _ => ?_
    cases (σ.sheet.cells.find? k).bind Cell.raw? with
    | none => exact ih
    | some raw =>
      cases a? with
      | none => exact ih
      | some a =>
        dsimp only
        split
        · exact ih
        · refine (ends_process raw a).bind fun cell τ _ _ _ => ?_
          refine (ends_change rfl rfl).bind fun _ τ _ _ _ => ?_
          exact ih.bind fun updated τ _ _ _ => ends_pure trivial

theorem ends_finish (k : String) : Ends σ (fun _ => True) (finish l k σ) := by
  have hdependents : Ends σ (fun _ => True) (recalculateDependents l [k] σ) := by
    rw [recalculateDependents, bind_of_ok get_run]
    refine (ends_replay _).bind fun updated τ _ _ _ => ?_
    exact (ends_report _).bind fun _ τ _ _ _ => ends_pure trivial
  exact hdependents.bind fun updated τ _ _ _ => ends_pure trivial

theorem resolve_of_ok {target : Target} (h : σ.sheet.resolveWithin l target = .ok a) :
    resolve l target σ = .ok a σ := by
  change attempt ((σ.sheet.resolveWithin l target).mapError .target) σ = _
  rw [h]
  rfl

theorem resolve_of_error {target : Target} {e : TargetFault}
    (h : σ.sheet.resolveWithin l target = .error e) :
    resolve l target σ = .error (.target e) σ := by
  change attempt ((σ.sheet.resolveWithin l target).mapError .target) σ = _
  rw [h]
  rfl

theorem ends_setCell {target : Target} (raw : String)
    (h : σ.sheet.resolveWithin l target = .ok a) :
    Ends σ (fun _ => True) (setCell l target raw σ) := by
  rw [setCell, bind_of_ok (resolve_of_ok h)]
  refine (ends_bounded _).bind fun k τ _ _ _ => ?_
  refine (ends_store raw a).bind fun cell τ _ _ _ => ?_
  refine (ends_bounded _).bind fun name τ _ _ _ => ?_
  exact (ends_report _).bind fun _ τ _ _ _ => ends_finish k

theorem ends_clearCell {target : Target} (h : σ.sheet.resolveWithin l target = .ok a) :
    Ends σ (fun _ => True) (clearCell l target σ) := by
  rw [clearCell, bind_of_ok (resolve_of_ok h)]
  refine (ends_bounded _).bind fun k τ _ _ _ => ?_
  refine (ends_store "" a).bind fun cell τ _ _ _ => ?_
  refine (ends_change rfl rfl).bind fun _ τ _ _ _ => ?_
  refine (ends_bounded _).bind fun name τ _ _ _ => ?_
  exact (ends_report _).bind fun _ τ _ _ _ => ends_finish k

/-- The keys of cells of a grid. -/
def KeysWithin (l : Limits) (s : Sheet) (texts : List (String × String)) : Prop :=
  ∀ e ∈ texts, ∃ a, a.InGrid s.rows s.columns ∧ l.key a = .ok e.1

theorem ends_fillTexts (text : String) (source : Address) {targets : List Address}
    (htargets : ∀ target ∈ targets, target.InGrid σ.sheet.rows σ.sheet.columns) :
    Ends σ (KeysWithin l σ.sheet) (fillTexts l text source targets σ) := by
  induction targets generalizing σ with
  | nil =>
    refine ends_pure ?_
    rintro e ⟨⟩
  | cons target targets ih =>
    have hcopy : StopsOnLimits (fillTextWithin l text source target) := by
      rw [fillTextWithin]
      split
      · exact stopsOnLimits_shiftText _ _ _
      · exact stopsOnLimits_ok _
    rw [fillTexts]
    refine (ends_bounded _).bind fun k τ hk hrows hcolumns => ?_
    refine (ends_attempt hcopy).bind fun copy υ _ hrows' hcolumns' => ?_
    rw [hrows] at hrows'
    rw [hcolumns] at hcolumns'
    have hrest := ih (σ := υ) fun a ha => by
      rw [hrows', hcolumns']
      exact htargets a (List.mem_cons_of_mem _ ha)
    refine hrest.bind fun texts ω htexts _ _ => ends_pure ?_
    rintro e (_ | ⟨_, he⟩)
    · exact ⟨target, htargets target List.mem_cons_self, hk⟩
    · obtain ⟨a, ha, hkey⟩ := htexts e he
      rw [hrows', hcolumns'] at ha
      exact ⟨a, ha, hkey⟩

theorem ends_setAll (source : String) {texts : List (String × String)}
    (htexts : KeysWithin l σ.sheet texts) :
    Ends σ (fun _ => True) (setAll l source texts σ) := by
  induction texts generalizing σ with
  | nil => exact ends_pure trivial
  | cons e texts ih =>
    obtain ⟨k, text⟩ := e
    have hrest : KeysWithin l σ.sheet texts := fun e he => htexts e (List.mem_cons_of_mem _ he)
    obtain ⟨a, ha, hkey⟩ := htexts _ List.mem_cons_self
    rw [setAll]
    split
    · exact ih hrest
    · refine (ends_setCell text (Sheet.resolveWithin_key ha hkey)).bind
        fun keys τ _ hrows hcolumns => ?_
      refine (ih ?_).bind fun others υ _ _ _ => ends_pure trivial
      rwa [KeysWithin, hrows, hcolumns]

theorem ends_fill {source first last : Target} {b c : Address}
    (ha : σ.sheet.resolveWithin l source = .ok a) (hb : σ.sheet.resolveWithin l first = .ok b)
    (hc : σ.sheet.resolveWithin l last = .ok c) :
    Ends σ (fun _ => True) (fill l source first last σ) := by
  have hgrid {target : Target} {a : Address} (h : σ.sheet.resolveWithin l target = .ok a) :=
    Sheet.inGrid_of_resolve (Sheet.resolveWithin_eq_ok_iff.mp h).1
  have htargets : ∀ target ∈ fillTargets a b c,
      target.InGrid σ.sheet.rows σ.sheet.columns := by
    intro target htarget
    have hplan : (target, fillText "" a target) ∈ fillPlan "" a b c := List.mem_map_of_mem htarget
    exact Sheet.inGrid_of_mem_fillPlan (hgrid ha) (hgrid hb) (hgrid hc) hplan
  rw [fill, bind_of_ok (resolve_of_ok ha), bind_of_ok (resolve_of_ok hb),
    bind_of_ok (resolve_of_ok hc)]
  refine (ends_bounded _).bind fun k τ _ hrows hcolumns => ?_
  rw [← hrows, ← hcolumns] at htargets
  rw [bind_of_ok get_run]
  refine (ends_fillTexts _ _ htargets).bind fun texts υ htexts hrows hcolumns => ?_
  have hkeys : KeysWithin l υ.sheet texts := by rwa [KeysWithin, hrows, hcolumns]
  refine (ends_setAll _ hkeys).bind fun keys ω _ _ _ => ?_
  refine (ends_bounded _).bind fun name ω _ _ _ => ?_
  refine (ends_bounded _).bind fun firstName ω _ _ _ => ?_
  refine (ends_bounded _).bind fun lastName ω _ _ _ => ?_
  exact (ends_report _).bind fun _ ω _ _ _ => ends_pure trivial

end Editing

namespace Request

variable {l : Limits} {request : Request} {σ : Session}

theorem ends_perform (h : ∀ target ∈ request.targets, ∃ a, σ.sheet.resolveWithin l target = .ok a) :
    Editing.Ends σ (fun _ => True) (request.perform l σ) := by
  cases request with
  | set target raw =>
    obtain ⟨a, ha⟩ := h target List.mem_cons_self
    exact Editing.ends_setCell raw ha
  | clear target =>
    obtain ⟨a, ha⟩ := h target List.mem_cons_self
    exact Editing.ends_clearCell ha
  | fill source first last =>
    obtain ⟨a, ha⟩ := h source (by simp [targets])
    obtain ⟨b, hb⟩ := h first (by simp [targets])
    obtain ⟨c, hc⟩ := h last (by simp [targets])
    exact Editing.ends_fill ha hb hc

theorem perform_of_not_resolved {target : Target} (htarget : target ∈ request.targets)
    (h : ¬ ∃ a, σ.sheet.resolveWithin l target = .ok a) :
    ∃ fault, request.perform l σ = .error (.target fault) σ := by
  cases request with
  | set t raw =>
    cases ht : σ.sheet.resolveWithin l t with
    | error fault => exact ⟨fault, Editing.bind_of_error (Editing.resolve_of_error ht)⟩
    | ok a => exact absurd ⟨a, List.mem_singleton.mp htarget ▸ ht⟩ h
  | clear t =>
    cases ht : σ.sheet.resolveWithin l t with
    | error fault => exact ⟨fault, Editing.bind_of_error (Editing.resolve_of_error ht)⟩
    | ok a => exact absurd ⟨a, List.mem_singleton.mp htarget ▸ ht⟩ h
  | fill source first last =>
    rw [perform, Editing.fill]
    cases hsource : σ.sheet.resolveWithin l source with
    | error fault => exact ⟨fault, Editing.bind_of_error (Editing.resolve_of_error hsource)⟩
    | ok a =>
      rw [Editing.bind_of_ok (Editing.resolve_of_ok hsource)]
      cases hfirst : σ.sheet.resolveWithin l first with
      | error fault => exact ⟨fault, Editing.bind_of_error (Editing.resolve_of_error hfirst)⟩
      | ok b =>
        rw [Editing.bind_of_ok (Editing.resolve_of_ok hfirst)]
        cases hlast : σ.sheet.resolveWithin l last with
        | error fault => exact ⟨fault, Editing.bind_of_error (Editing.resolve_of_error hlast)⟩
        | ok c =>
          simp only [targets, List.mem_cons, List.not_mem_nil, or_false] at htarget
          rcases htarget with rfl | rfl | rfl
          · exact absurd ⟨a, hsource⟩ h
          · exact absurd ⟨b, hfirst⟩ h
          · exact absurd ⟨c, hlast⟩ h

/-- A target fails the edit before anything is changed; nothing but a limit stops it later. -/
theorem perform_cases (l : Limits) (request : Request) (σ : Session) :
    ((∃ target ∈ request.targets, ¬ (σ.sheet.Has target ∧ target.readable l = true)) ↔
      ∃ fault, request.perform l σ = .error (.target fault) σ) ∧
    ((∀ target ∈ request.targets, σ.sheet.Has target ∧ target.readable l = true) ↔
      (∃ keys τ, request.perform l σ = .ok keys τ) ∨
        ∃ o τ, request.perform l σ = .error (.overrun o) τ) := by
  simp only [← Sheet.exists_resolveWithin_iff]
  by_cases h : ∀ target ∈ request.targets, ∃ a, σ.sheet.resolveWithin l target = .ok a
  · have hends := ends_perform h
    have hnot : ¬ ∃ target ∈ request.targets, ¬ ∃ a, σ.sheet.resolveWithin l target = .ok a := by
      rintro ⟨target, htarget, hnone⟩
      exact hnone (h target htarget)
    generalize request.perform l σ = r at hends ⊢
    cases hends with
    | done keys τ => exact ⟨iff_of_false hnot (by simp), iff_of_true h (.inl ⟨keys, τ, rfl⟩)⟩
    | broken o τ => exact ⟨iff_of_false hnot (by simp), iff_of_true h (.inr ⟨o, τ, rfl⟩)⟩
  · obtain ⟨target, htarget, hnone⟩ : ∃ target ∈ request.targets,
        ¬ ∃ a, σ.sheet.resolveWithin l target = .ok a := by
      simpa only [not_forall, exists_prop] using h
    obtain ⟨fault, hperform⟩ := perform_of_not_resolved htarget hnone
    rw [hperform]
    exact ⟨iff_of_true ⟨target, htarget, hnone⟩ ⟨fault, rfl⟩, iff_of_false h (by simp)⟩

end Request

end Gridcalc
