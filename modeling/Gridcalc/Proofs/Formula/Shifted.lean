import Gridcalc.Formula.Shift
import Gridcalc.Proofs.Grid.Spelling
import Gridcalc.Proofs.Outcome

/-! # Shifts one after the other

A shift writes references anew, in capitals and without leading zeros, and they are read back as
what was moved. So a second shift goes on from where the first one stopped, and the two together
do what one shift by the sum of the distances does. Trees need not come from texts: what is no
reference stays as it is.
-/

namespace Gridcalc

theorem Reference.shift_add (r : Reference) (rows columns rows' columns' : Int) :
    (r.shift rows columns).shift rows' columns' = r.shift (rows + rows') (columns + columns') := by
  obtain ⟨column, row, pinnedColumn, pinnedRow⟩ := r
  cases pinnedColumn <;> cases pinnedRow <;> simp [Reference.shift, Int.add_assoc]

theorem Reference.shift_zero (r : Reference) : r.shift 0 0 = r := by
  simp [Reference.shift]

namespace Formula

variable {rows columns rows' columns' : Int}

section References

variable {t t' : String} {r : Reference}

theorem shiftReference_of_unread (h : Reference.ofText? t = none) :
    shiftReference t rows columns = .ok t := by
  rw [shiftReference, Reference.shiftText?, h]

theorem shiftReference_of_read (h : Reference.ofText? t = some r) :
    shiftReference t rows columns =
      if (r.shift rows columns).row < 0 ∨ (r.shift rows columns).column < 0 then .error t
      else .ok (r.shift rows columns).toText := by
  rw [shiftReference, Reference.shiftText?, h]
  by_cases hout : (r.shift rows columns).row < 0 ∨ (r.shift rows columns).column < 0
  · simp only [if_pos hout]
  · simp only [if_neg hout]

/-- The outcomes of one shift and of another that goes on from a shift by the given distance: the
same value, or failures at the same reference, which for the second has been moved already. -/
inductive Meets {α : Type} (rows columns : Int) : Except String α → Except String α → Prop
  | ok (a : α) : Meets rows columns (.ok a) (.ok a)
  | error {e e' : String} (h : shiftReference e rows columns = .ok e') :
    Meets rows columns (.error e) (.error e')

theorem Meets.bind {α β : Type} {x y : Except String α} {f g : α → Except String β}
    (h : Meets rows columns x y) (hfg : ∀ a, Meets rows columns (f a) (g a)) :
    Meets rows columns (x >>= f) (y >>= g) := by
  cases h with
  | ok a => exact hfg a
  | error h => exact .error h

theorem Meets.cases {α : Type} {x y : Except String α} (h : Meets rows columns x y) :
    (∃ a, x = .ok a ∧ y = .ok a) ∨
      ∃ e e', x = .error e ∧ y = .error e' ∧ shiftReference e rows columns = .ok e' := by
  cases h with
  | ok a => exact .inl ⟨a, rfl, rfl⟩
  | error h => exact .inr ⟨_, _, rfl, rfl, h⟩

theorem meets_shiftReference (h : shiftReference t rows columns = .ok t') :
    Meets rows columns (shiftReference t (rows + rows') (columns + columns'))
      (shiftReference t' rows' columns') := by
  have hmoved := h
  cases hread : Reference.ofText? t with
  | none =>
    rw [shiftReference_of_unread hread] at h
    cases h
    rw [shiftReference_of_unread hread, shiftReference_of_unread hread]
    exact .ok t
  | some r =>
    rw [shiftReference_of_read hread] at h
    split at h
    · cases h
    · rename_i hin
      cases h
      have hwritten : Reference.ofText? (r.shift rows columns).toText =
          some (r.shift rows columns) := Reference.ofText?_toText (by omega) (by omega)
      rw [shiftReference_of_read hread, shiftReference_of_read hwritten, Reference.shift_add]
      split
      · exact .error hmoved
      · exact .ok _

/-- No reference is off the grid, so none is when it stays in place. -/
theorem exists_shiftReference_zero (t : String) : ∃ t', shiftReference t 0 0 = .ok t' := by
  cases hread : Reference.ofText? t with
  | none => exact ⟨t, shiftReference_of_unread hread⟩
  | some r =>
    obtain ⟨hrow, hcolumn⟩ := Reference.nonneg_of_ofText? hread
    rw [shiftReference_of_read hread, Reference.shift_zero, if_neg (by omega)]
    exact ⟨r.toText, rfl⟩

end References

section Trees

theorem shift_cell (t : String) :
    (Formula.cell t).shift rows columns = do
      let t ← shiftReference t rows columns
      return .cell t := by
  rw [shift]
  cases shiftReference t rows columns <;> rfl

theorem shift_range (a b : String) :
    (Formula.range a b).shift rows columns = do
      let a ← shiftReference a rows columns
      let b ← shiftReference b rows columns
      return .range a b := by
  rw [shift]
  cases shiftReference a rows columns with
  | error e => rfl
  | ok a => cases shiftReference b rows columns <;> rfl

theorem shift_binary (o : String) (l r : Formula) :
    (Formula.binary o l r).shift rows columns = do
      let l ← l.shift rows columns
      let r ← r.shift rows columns
      return .binary o l r := by
  rw [shift]
  cases l.shift rows columns with
  | error e => rfl
  | ok l => cases r.shift rows columns <;> rfl

theorem shift_unary (o : String) (f : Formula) :
    (Formula.unary o f).shift rows columns = do
      let f ← f.shift rows columns
      return .unary o f := by
  rw [shift]
  cases f.shift rows columns <;> rfl

theorem shift_call (n : String) (fs : List Formula) :
    (Formula.call n fs).shift rows columns = do
      let fs ← shiftAll rows columns fs
      return .call n fs := by
  rw [shift]
  cases shiftAll rows columns fs <;> rfl

theorem shiftAll_cons (f : Formula) (fs : List Formula) :
    shiftAll rows columns (f :: fs) = do
      let f ← f.shift rows columns
      let fs ← shiftAll rows columns fs
      return f :: fs := by
  rw [shiftAll]
  cases f.shift rows columns with
  | error e => rfl
  | ok f => cases shiftAll rows columns fs <;> rfl

mutual
theorem meets_shift : ∀ {f g : Formula}, f.shift rows columns = .ok g →
    Meets rows columns (f.shift (rows + rows') (columns + columns')) (g.shift rows' columns')
  | .number v, _, h => by
    cases h
    exact .ok _
  | .text s, _, h => by
    cases h
    exact .ok _
  | .cell t, _, h => by
    rw [shift_cell] at h
    obtain ⟨t', ht, h⟩ := exists_of_bind_eq_ok h
    cases h
    rw [shift_cell, shift_cell]
    exact (meets_shiftReference ht).bind fun _ => .ok _
  | .range a b, _, h => by
    rw [shift_range] at h
    obtain ⟨a', ha, h⟩ := exists_of_bind_eq_ok h
    obtain ⟨b', hb, h⟩ := exists_of_bind_eq_ok h
    cases h
    rw [shift_range, shift_range]
    exact (meets_shiftReference ha).bind fun _ => (meets_shiftReference hb).bind fun _ => .ok _
  | .binary o l r, _, h => by
    rw [shift_binary] at h
    obtain ⟨l', hl, h⟩ := exists_of_bind_eq_ok h
    obtain ⟨r', hr, h⟩ := exists_of_bind_eq_ok h
    cases h
    rw [shift_binary, shift_binary]
    exact (meets_shift hl).bind fun _ => (meets_shift hr).bind fun _ => .ok _
  | .unary o f, _, h => by
    rw [shift_unary] at h
    obtain ⟨f', hf, h⟩ := exists_of_bind_eq_ok h
    cases h
    rw [shift_unary, shift_unary]
    exact (meets_shift hf).bind fun _ => .ok _
  | .call n fs, _, h => by
    rw [shift_call] at h
    obtain ⟨fs', hfs, h⟩ := exists_of_bind_eq_ok h
    cases h
    rw [shift_call, shift_call]
    exact (meets_shiftAll hfs).bind fun _ => .ok _

theorem meets_shiftAll : ∀ {fs gs : List Formula}, shiftAll rows columns fs = .ok gs →
    Meets rows columns (shiftAll (rows + rows') (columns + columns') fs)
      (shiftAll rows' columns' gs)
  | [], _, h => by
    cases h
    exact .ok _
  | f :: fs, _, h => by
    rw [shiftAll_cons] at h
    obtain ⟨f', hf, h⟩ := exists_of_bind_eq_ok h
    obtain ⟨fs', hfs, h⟩ := exists_of_bind_eq_ok h
    cases h
    rw [shiftAll_cons, shiftAll_cons]
    exact (meets_shift hf).bind fun _ => (meets_shiftAll hfs).bind fun _ => .ok _
end

mutual
theorem exists_shift_zero : ∀ f : Formula, ∃ g, f.shift 0 0 = .ok g
  | .number v => ⟨_, rfl⟩
  | .text s => ⟨_, rfl⟩
  | .cell t => by
    obtain ⟨t', ht⟩ := exists_shiftReference_zero t
    exact ⟨.cell t', by rw [shift_cell, ht]; rfl⟩
  | .range a b => by
    obtain ⟨a', ha⟩ := exists_shiftReference_zero a
    obtain ⟨b', hb⟩ := exists_shiftReference_zero b
    exact ⟨.range a' b', by rw [shift_range, ha, hb]; rfl⟩
  | .binary o l r => by
    obtain ⟨l', hl⟩ := exists_shift_zero l
    obtain ⟨r', hr⟩ := exists_shift_zero r
    exact ⟨.binary o l' r', by rw [shift_binary, hl, hr]; rfl⟩
  | .unary o f => by
    obtain ⟨f', hf⟩ := exists_shift_zero f
    exact ⟨.unary o f', by rw [shift_unary, hf]; rfl⟩
  | .call n fs => by
    obtain ⟨fs', hfs⟩ := exists_shiftAll_zero fs
    exact ⟨.call n fs', by rw [shift_call, hfs]; rfl⟩

theorem exists_shiftAll_zero : ∀ fs : List Formula, ∃ gs, shiftAll 0 0 fs = .ok gs
  | [] => ⟨_, rfl⟩
  | f :: fs => by
    obtain ⟨f', hf⟩ := exists_shift_zero f
    obtain ⟨fs', hfs⟩ := exists_shiftAll_zero fs
    exact ⟨f' :: fs', by rw [shiftAll_cons, hf, hfs]; rfl⟩
end

/-- A shift of what has been shifted comes to what the shift by both distances comes to, or they
fail at the same reference. Back where they were, the references are only written anew. -/
theorem shift_shift {f g : Formula} (h : f.shift rows columns = .ok g) :
    (∀ rows' columns' : Int,
      (∃ moved, f.shift (rows + rows') (columns + columns') = .ok moved ∧
        g.shift rows' columns' = .ok moved) ∨
      ∃ e e', f.shift (rows + rows') (columns + columns') = .error e ∧
        g.shift rows' columns' = .error e' ∧ shiftReference e rows columns = .ok e') ∧
    ∃ rewritten, f.shift 0 0 = .ok rewritten ∧ g.shift (-rows) (-columns) = .ok rewritten := by
  constructor
  · intro rows' columns'
    exact (meets_shift h).cases
  · obtain ⟨rewritten, hzero⟩ := exists_shift_zero f
    have hback : Meets rows columns (f.shift (rows + -rows) (columns + -columns))
        (g.shift (-rows) (-columns)) := meets_shift h
    rw [Int.add_right_neg, Int.add_right_neg, hzero] at hback
    refine ⟨rewritten, hzero, ?_⟩
    rcases hback.cases with ⟨moved, hmoved, hg⟩ | ⟨e, -, he, -⟩
    · cases hmoved
      exact hg
    · cases he

/-- One reference has a capital and a zero to gain and lose, one is pinned, and one is none. -/
theorem shift_shift_off_grid :
    let f : Formula := .call "SUM" [.range "a01" "$B$2", .cell "total"]
    let g : Formula := .call "SUM" [.range "B3" "$B$2", .cell "total"]
    f.shift 2 1 = .ok g ∧ g.shift (-3) 0 = .error "B3" ∧
      ∃ rewritten, f.shift 0 0 = .ok rewritten ∧ g.shift (-2) (-1) = .ok rewritten := by
  intro f g
  have ha01 : shiftReference "a01" 2 1 = .ok "B3" := by decide +kernel
  have hB2 : shiftReference "$B$2" 2 1 = .ok "$B$2" := by decide +kernel
  have htotal : shiftReference "total" 2 1 = .ok "total" := by decide +kernel
  have hfirst : f.shift 2 1 = .ok g := by simp only [f, g, shift, shiftAll, ha01, hB2, htotal]
  obtain ⟨hthen, hback⟩ := shift_shift hfirst
  refine ⟨hfirst, ?_, hback⟩
  have hsum : f.shift (2 + -3) (1 + 0) = .error "a01" := by
    have hout : shiftReference "a01" (2 + -3) (1 + 0) = .error "a01" := by decide +kernel
    simp only [f, shift, shiftAll, hout]
  rcases hthen (-3) 0 with ⟨moved, hmoved, -⟩ | ⟨e, e', he, hg, hmoved⟩
  · rw [hsum] at hmoved
    cases hmoved
  · rw [hsum] at he
    cases he
    rw [ha01] at hmoved
    cases hmoved
    exact hg

end Trees

end Formula

end Gridcalc
