import Gridcalc.Limits.Formula
import Gridcalc.Proofs.Limits.Ample
import Gridcalc.Proofs.Limits.Parse

/-! # Formulas within ample limits

Within limits that are large enough a formula is parsed, evaluated, shifted and rendered as without
limits. A tree asks for a number of calls that its shape gives, and the numbers in its references
for a number of digits; the lookup may be one that comes to agree with the plain one.
-/

namespace Gridcalc

open Filter Limits

/-- Comes to the value when the limits are ample and enough of the calls are left. -/
def Limits.Settles {α : Type} (x : Limits → Nat → α) (v : α) : Prop :=
  ∃ calls, ∀ᶠ l in ample, ∀ n, calls ≤ n → x l n = v

section Settles

variable {α β ε : Type}

theorem Limits.Settles.at_depth {x : Limits → Nat → α} {v : α} (h : Settles x v) :
    ∀ᶠ l in ample, x l l.depth = v := by
  obtain ⟨calls, h⟩ := h
  filter_upwards [h, eventually_le_depth calls] with l h hdepth
  exact h l.depth hdepth

theorem Limits.settles_of_eventually {x : Limits → α} {v : α} (h : ∀ᶠ l in ample, x l = v) :
    Settles (fun l _ => x l) v :=
  ⟨0, h.mono fun _ h _ _ => h⟩

theorem Limits.settles_const (v : α) : Settles (fun _ _ => v) v :=
  settles_of_eventually (.of_forall fun _ => rfl)

theorem Limits.Settles.call {x : Limits → Nat → Run α} {v : Run α} (h : Settles x v) :
    Settles (fun l n => Run.call l n (x l)) v := by
  obtain ⟨calls, h⟩ := h
  refine ⟨calls + 1, h.mono fun l h n hn => ?_⟩
  obtain ⟨m, rfl⟩ := Nat.exists_eq_add_of_le' hn
  exact h (m + calls) (by omega)

theorem Limits.Settles.haltCall {x : Limits → Nat → Except (Halt ε) α} {v : Except (Halt ε) α}
    (h : Settles x v) : Settles (fun l n => Halt.call n (x l)) v := by
  obtain ⟨calls, h⟩ := h
  refine ⟨calls + 1, h.mono fun l h n hn => ?_⟩
  obtain ⟨m, rfl⟩ := Nat.exists_eq_add_of_le' hn
  exact h (m + calls) (by omega)

/-- One computation after the other, when the second is known for what the first gives. -/
theorem Limits.Settles.bind {x : Limits → Nat → Run α} {v : Run α}
    {f : Limits → Nat → α → Run β} {g : α → Run β} (hx : Settles x v)
    (hf : ∀ a, Settles (fun l n => f l n a) (g a)) :
    Settles (fun l n => x l n >>= f l n) (v >>= g) := by
  obtain ⟨calls, hx⟩ := hx
  cases hv : v.outcome with
  | error e =>
    refine ⟨calls, hx.mono fun l hx n hn => ?_⟩
    change Run.bind (x l n) (f l n) = Run.bind v g
    rw [hx n hn, Run.bind, Run.bind, hv]
  | ok a =>
    obtain ⟨calls', hf⟩ := hf a
    refine ⟨max calls calls', ?_⟩
    filter_upwards [hx, hf] with l hx hf n hn
    change Run.bind (x l n) (f l n) = Run.bind v g
    rw [hx n (by omega), Run.bind, Run.bind, hv]
    simp only [hf n (by omega)]

end Settles

namespace Formula

variable {lookups : Limits → Lookup} {lookup : Lookup}

theorem eventually_readCell (h : ∀ ref, ∀ᶠ l in ample, lookups l ref = lookup ref) (ref : String) :
    ∀ᶠ l in ample, readCell (lookups l) ref = readCell lookup ref := by
  filter_upwards [h ref] with l h
  rw [readCell, readCell, fetch, fetch, h]

theorem eventually_readCells (h : ∀ ref, ∀ᶠ l in ample, lookups l ref = lookup ref)
    (as : List Address) : ∀ᶠ l in ample, readCells (lookups l) as = readCells lookup as := by
  induction as with
  | nil => exact .of_forall fun _ => rfl
  | cons a as ih =>
    filter_upwards [h a.toA1, ih] with l h ih
    rw [readCells, readCells, fetch, fetch, h, ih]

theorem eventually_readRange (h : ∀ ref, ∀ᶠ l in ample, lookups l ref = lookup ref)
    (first last : String) :
    ∀ᶠ l in ample, readRangeWithin l (lookups l) first last = readRange lookup first last := by
  have hfirst := eventually_address? (stripMarkers first)
  have hlast := eventually_address? (stripMarkers last)
  cases ha : Address.ofA1? (stripMarkers first) with
  | none =>
    filter_upwards [hfirst] with l hfirst
    rw [readRangeWithin, readRange, hfirst, ha]
  | some a =>
    cases hb : Address.ofA1? (stripMarkers last) with
    | none =>
      filter_upwards [hfirst, hlast] with l hfirst hlast
      rw [readRangeWithin, readRange, hfirst, hlast, ha, hb]
    | some b =>
      filter_upwards [hfirst, hlast, eventually_readCells h (Address.rectangle a b)] with l hfirst
        hlast hcells
      rw [readRangeWithin, readRange, hfirst, hlast, ha, hb]
      simp only [hcells]

mutual
theorem settles_evaluate (h : ∀ ref, ∀ᶠ l in ample, lookups l ref = lookup ref) :
    ∀ f : Formula, Settles (fun l n => f.evaluateWithin l (lookups l) n) (f.evaluate lookup)
  | .number v => (settles_const _).call
  | .text s => (settles_const _).call
  | .cell ref => (settles_of_eventually (eventually_readCell h ref)).call
  | .range first last => (settles_of_eventually (eventually_readRange h first last)).call
  | .binary operator left right => by
    have hleft := settles_evaluate h left
    have hright := settles_evaluate h right
    refine Settles.call (Settles.call ?_)
    refine hleft.bind fun d => (settles_const _).bind fun x => ?_
    exact hright.bind fun d => (settles_const _).bind fun y => settles_const _
  | .unary operator operand => by
    refine Settles.call ?_
    exact (settles_evaluate h operand).bind fun d => (settles_const _).bind fun x => settles_const _
  | .call name arguments => by
    refine Settles.call (Settles.call ?_)
    exact (settles_collect h arguments).call.bind fun vs => settles_const _

theorem settles_collect (h : ∀ ref, ∀ᶠ l in ample, lookups l ref = lookup ref) :
    ∀ fs : List Formula, Settles (fun l n => collectWithin l (lookups l) n fs) (collect lookup fs)
  | [] => settles_const _
  | f :: fs => by
    have hrest := settles_collect h fs
    refine (settles_evaluate h f).bind fun d => (settles_const _).bind fun vs => ?_
    exact hrest.bind fun ws => settles_const _
end

theorem eventually_shiftReference (text : String) (rows columns : Int) :
    ∀ᶠ l in ample, shiftReferenceWithin l text rows columns =
      (shiftReference text rows columns).mapError .error := by
  have hreads := eventually_reads text
  rw [shiftReference, Reference.shiftText?]
  cases hr : Reference.ofText? text with
  | none =>
    filter_upwards [hreads] with l hreads
    rw [shiftReferenceWithin, if_pos hreads, hr]
    rfl
  | some r =>
    filter_upwards [hreads, eventually_writes ((r.shift rows columns).row + 1)] with l hreads hwrites
    rw [shiftReferenceWithin, if_pos hreads, hr]
    simp only [if_pos hwrites]
    split <;> rfl

mutual
theorem settles_shift (rows columns : Int) : ∀ f : Formula,
    Settles (fun l n => f.shiftWithin l rows columns n) ((f.shift rows columns).mapError .error)
  | .cell r => by
    rw [shift]
    refine Settles.haltCall (settles_of_eventually ?_)
    filter_upwards [eventually_shiftReference r rows columns] with l hr
    rw [hr]
    cases shiftReference r rows columns <;> rfl
  | .range a b => by
    rw [shift]
    refine Settles.haltCall (settles_of_eventually ?_)
    filter_upwards [eventually_shiftReference a rows columns,
      eventually_shiftReference b rows columns] with l ha hb
    rw [ha, hb]
    cases shiftReference a rows columns with
    | error e => rfl
    | ok a => cases shiftReference b rows columns <;> rfl
  | .binary operator left right => by
    obtain ⟨calls, hleft⟩ := settles_shift rows columns left
    obtain ⟨calls', hright⟩ := settles_shift rows columns right
    rw [shift]
    refine Settles.haltCall ⟨max calls calls', ?_⟩
    filter_upwards [hleft, hright] with l hleft hright n hn
    rw [hleft n (by omega), hright n (by omega)]
    cases left.shift rows columns with
    | error e => rfl
    | ok left => cases right.shift rows columns <;> rfl
  | .unary operator operand => by
    obtain ⟨calls, hoperand⟩ := settles_shift rows columns operand
    rw [shift]
    refine Settles.haltCall ⟨calls, ?_⟩
    filter_upwards [hoperand] with l hoperand n hn
    rw [hoperand n hn]
    cases operand.shift rows columns <;> rfl
  | .call name arguments => by
    obtain ⟨calls, harguments⟩ := (settles_shiftAll rows columns arguments).haltCall
    rw [shift]
    refine Settles.haltCall ⟨calls, ?_⟩
    filter_upwards [harguments] with l harguments n hn
    rw [harguments n hn]
    cases shiftAll rows columns arguments <;> rfl
  | .number v => (settles_const _).haltCall
  | .text s => (settles_const _).haltCall

theorem settles_shiftAll (rows columns : Int) : ∀ fs : List Formula,
    Settles (fun l n => shiftAllWithin l rows columns n fs)
      ((shiftAll rows columns fs).mapError .error)
  | [] => settles_const _
  | f :: fs => by
    obtain ⟨calls, hf⟩ := settles_shift rows columns f
    obtain ⟨calls', hfs⟩ := settles_shiftAll rows columns fs
    refine ⟨max calls calls', ?_⟩
    filter_upwards [hf, hfs] with l hf hfs n hn
    rw [shiftAllWithin, shiftAll, hf n (by omega), hfs n (by omega)]
    cases f.shift rows columns with
    | error e => rfl
    | ok f => cases shiftAll rows columns fs <;> rfl
end

theorem eventually_parse (s : String) :
    ∀ᶠ l in ample, parseWithin l.depth s = (parse s).mapError .error := by
  filter_upwards [eventually_le_depth (enoughCalls s)] with l hl
  exact parseWithin_eq hl

theorem eventually_compute (h : ∀ ref, ∀ᶠ l in ample, lookups l ref = lookup ref) (s : String) :
    ∀ᶠ l in ample, computeWithin l (lookups l) s = .ok (compute lookup s) := by
  have hparse := eventually_parse s
  cases hs : parse s with
  | error e =>
    filter_upwards [hparse] with l hparse
    rw [computeWithin, compute, hparse, hs]
    exact if_pos (located_parse hs).1
  | ok f =>
    filter_upwards [hparse, (settles_evaluate h f).at_depth] with l hparse hf
    rw [computeWithin, compute, hparse, hs]
    simp only [Except.mapError, resultWithin, result, hf]

theorem eventually_shiftText (text : String) (rows columns : Int) :
    ∀ᶠ l in ample, shiftTextWithin l text rows columns = .ok (shiftText text rows columns) := by
  have hparse := eventually_parse text
  cases hs : parse text with
  | error e =>
    filter_upwards [hparse] with l hparse
    rw [shiftTextWithin, shiftText, hparse, hs]
    exact if_pos (located_parse hs).1
  | ok f =>
    have hshift := (settles_shift rows columns f).at_depth
    cases hmoved : f.shift rows columns with
    | error e =>
      filter_upwards [hparse, hshift] with l hparse hshift
      rw [shiftTextWithin, shiftText, hparse, hs]
      simp only [Except.mapError, hshift, hmoved]
    | ok moved =>
      filter_upwards [hparse, hshift, eventually_le_depth moved.height] with l hparse hshift hheight
      rw [shiftTextWithin, shiftText, hparse, hs]
      simp only [Except.mapError, hshift, hmoved, if_pos hheight]

end Formula

end Gridcalc
