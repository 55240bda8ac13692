import Gridcalc.Proofs.Formula.Consulted
import Gridcalc.Proofs.Grid.Rectangle

/-! # What a formula mentions

The references of a formula from left to right, a range with all cells of its rectangle. An
evaluation consults them in this order. It may stop short at a failure; one that comes to a value
has consulted them all.
-/

namespace Gridcalc

namespace Formula

/-- The cells of a range, if both its ends are cells. -/
def spanned : Option Address → Option Address → List String
  | some a, some b => (Address.rectangle a b).map Address.toA1
  | _, _ => []

mutual
/-- The references, from left to right; a range names its ends, and then its cells. -/
def mentions : Formula → List String
  | .number _ => []
  | .text _ => []
  | .cell ref => [ref]
  | .range first last =>
    first :: last ::
      spanned (Address.ofA1? (stripMarkers first)) (Address.ofA1? (stripMarkers last))
  | .binary _ left right => left.mentions ++ right.mentions
  | .unary _ operand => operand.mentions
  | .call _ arguments => mentionsAll arguments

def mentionsAll : List Formula → List String
  | [] => []
  | f :: fs => f.mentions ++ mentionsAll fs
end

theorem mentions_range (a b : String) :
    (Formula.range a b).mentions = a :: b :: spanned (namedCell? a) (namedCell? b) := by
  rw [mentions]
  rfl

end Formula

def Verdict.isValue (v : Verdict) : Bool := v.error?.isNone

namespace Run

variable {α β : Type} {refs refs' : List String}

/-- The run consults the references in this order, and if it ends well, it consults all. -/
structure Along (r : Run α) (refs : List String) : Prop where
  within : r.consulted <+: refs
  whole : ∀ a, r.outcome = .ok a → r.consulted = refs

namespace Along

theorem pure (a : α) : Along (Pure.pure a) [] := ⟨List.nil_prefix, fun _ _ => rfl⟩

theorem ofExcept (outcome : Except EvalError α) : Along (Run.ofExcept outcome) [] :=
  ⟨List.nil_prefix, fun _ _ => rfl⟩

theorem fail (e : EvalError) : Along (Run.fail e : Run α) refs :=
  ⟨List.nil_prefix, fun _ ha => by cases ha⟩

theorem consult (ref : String) : Along (Run.consult ref) [ref] :=
  ⟨List.prefix_rfl, fun _ _ => rfl⟩

theorem bind {r : Run α} {f : α → Run β} (h : Along r refs) (hf : ∀ a, Along (f a) refs') :
    Along (r >>= f) (refs ++ refs') := by
  change Along (r.bind f) (refs ++ refs')
  rw [Run.bind]
  cases hr : r.outcome with
  | error e => exact ⟨h.within.trans (List.prefix_append refs refs'), fun b hb => by cases hb⟩
  | ok a =>
    rw [h.whole a hr]
    refine ⟨(List.prefix_append_right_inj refs).mpr (hf a).within, fun b hb => ?_⟩
    exact congrArg (refs ++ ·) ((hf a).whole b hb)

/-- What only computes does not consult anything. -/
theorem bind_silent {r : Run α} {f : α → Run β} (h : Along r refs) (hf : ∀ a, Along (f a) []) :
    Along (r >>= f) refs := by
  rw [← List.append_nil refs]
  exact h.bind hf

theorem silent_bind {r : Run α} {f : α → Run β} (h : Along r []) (hf : ∀ a, Along (f a) refs) :
    Along (r >>= f) refs :=
  h.bind hf

end Along

end Run

namespace Formula

open Run

variable (lookup : Lookup)

theorem along_fetch (ref : String) : Along (fetch lookup ref) [ref] :=
  (Along.consult ref).bind_silent fun _ => .ofExcept _

theorem along_readCell (ref : String) : Along (readCell lookup ref) [ref] := by
  refine (along_fetch lookup ref).bind_silent fun d => ?_
  cases d with
  | null => exact .pure _
  | _ => exact .ofExcept _

theorem along_readCells (as : List Address) :
    Along (readCells lookup as) (as.map Address.toA1) := by
  induction as with
  | nil => exact .pure _
  | cons a as ih =>
    rw [readCells, List.map_cons]
    refine (along_fetch lookup a.toA1).bind fun d => ?_
    cases d with
    | null => exact ih
    | _ => exact (Along.ofExcept _).silent_bind fun _ => ih.bind_silent fun _ => .pure _

theorem along_readRange (first last : String) :
    Along (readRange lookup first last) (Formula.range first last).mentions := by
  rw [readRange, mentions]
  -- The run and the mentioned cells both split on what the ends name.
  generalize Address.ofA1? (stripMarkers first) = a
  generalize Address.ofA1? (stripMarkers last) = b
  refine (Along.consult first).bind fun _ => (Along.consult last).bind fun _ => ?_
  cases a with
  | none => exact .fail _
  | some a =>
    cases b with
    | none => exact .fail _
    | some b => exact (along_readCells lookup _).bind_silent fun _ => .pure _

mutual
theorem along_evaluate : ∀ f : Formula, Along (f.evaluate lookup) f.mentions
  | .number _ => .pure _
  | .text _ => .pure _
  | .cell ref => along_readCell lookup ref
  | .range first last => along_readRange lookup first last
  | .binary _ left right => by
    rw [evaluate, mentions]
    refine (along_evaluate left).bind fun _ => (Along.ofExcept _).silent_bind fun _ => ?_
    refine (along_evaluate right).bind_silent fun _ => (Along.ofExcept _).silent_bind fun _ => ?_
    exact (Along.ofExcept _).silent_bind fun _ => .pure _
  | .unary _ operand => by
    rw [evaluate, mentions]
    refine (along_evaluate operand).bind_silent fun _ => (Along.ofExcept _).silent_bind fun _ => ?_
    exact (Along.ofExcept _).silent_bind fun _ => .pure _
  | .call _ arguments => by
    rw [evaluate, mentions]
    refine (along_collect arguments).bind_silent fun _ => ?_
    exact (Along.ofExcept _).silent_bind fun _ => .pure _

theorem along_collect : ∀ fs : List Formula, Along (collect lookup fs) (mentionsAll fs)
  | [] => .pure _
  | f :: fs => by
    rw [collect, mentionsAll]
    refine (along_evaluate f).bind fun _ => (Along.ofExcept _).silent_bind fun _ => ?_
    exact (along_collect fs).bind_silent fun _ => .pure _
end

variable {lookup} {s ref : String} {f : Formula}

theorem references_compute_of_error {e : SyntaxError} (h : parse s = .error e) :
    (compute lookup s).references = [] := by
  rw [compute, h]

theorem mem_mentions_of_mem_references (h : parse s = .ok f)
    (href : ref ∈ (compute lookup s).references) : ref ∈ f.mentions := by
  rw [compute, h] at href
  exact (along_evaluate lookup f).within.subset (Text.mem_firsts_iff.mp href)

/-- A formula that has a value parses, and all that it mentions was consulted. -/
theorem exists_mem_references_iff (h : (compute lookup s).verdict.isValue = true) :
    ∃ f, parse s = .ok f ∧ ∀ ref, ref ∈ (compute lookup s).references ↔ ref ∈ f.mentions := by
  rw [compute] at h ⊢
  cases hparse : parse s with
  | error e =>
    rw [hparse] at h
    cases h
  | ok f =>
    rw [hparse] at h
    refine ⟨f, rfl, fun ref => ?_⟩
    have hrun := along_evaluate lookup f
    simp only [result] at h ⊢
    cases hout : (f.evaluate lookup).outcome with
    | error e =>
      rw [hout] at h
      cases h
    | ok d => rw [Text.mem_firsts_iff, hrun.whole d hout]

/-- The record is what the formula mentions up to where the evaluation stopped, each reference at
its first place; an evaluation that ends well has not stopped short. -/
theorem references_of_mentions (lookup : Lookup) (f : Formula) :
    (∃ refs, refs <+: f.mentions ∧ (f.result lookup).references = refs.eraseDups) ∧
      ((∃ d, (f.evaluate lookup).outcome = .ok d) →
        (f.result lookup).references = f.mentions.eraseDups) := by
  have hrun := along_evaluate lookup f
  have hrecord : (f.result lookup).references = (f.evaluate lookup).consulted.eraseDups :=
    Text.firsts_eq_eraseDups _
  rw [hrecord]
  constructor
  · exact ⟨(f.evaluate lookup).consulted, hrun.within, rfl⟩
  · rintro ⟨d, hd⟩
    rw [hrun.whole d hd]

/-- The cells of the range repeat its ends, and the last argument one of them. -/
theorem references_of_mentions_repeated :
    let f : Formula := .call "SUM" [.range "A1" "B2", .cell "B1"]
    let lookup : Lookup := fun ref => .ok (if ref = "A2" then .text "x" else .null)
    (∃ d, (f.evaluate lookup).outcome = .ok d) ∧
      (f.result lookup).references = ["A1", "B2", "B1", "A2"] := by
  intro f lookup
  have hends : ∃ d, (f.evaluate lookup).outcome = .ok d := ⟨_, by with_unfolding_all rfl⟩
  have hmentions : f.mentions = ["A1", "B2", "A1", "B1", "A2", "B2", "B1"] := by decide +kernel
  refine ⟨hends, ?_⟩
  rw [(references_of_mentions lookup f).2 hends, hmentions]
  decide +kernel

end Formula

end Gridcalc
