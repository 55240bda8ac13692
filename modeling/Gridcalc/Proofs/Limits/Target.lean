import Gridcalc.Limits.Session
import Gridcalc.Proofs.Grid.Notation
import Gridcalc.Proofs.Limits.Ample

/-! # Targets

A target is resolved exactly if it names a cell of the grid and the numbers in it can be read, and
this cell it is then.
-/

namespace Gridcalc

/-- The target is the cell, or a text that is a key of it or, markers left out, an A1 text. -/
inductive Target.Names : Target → Address → Prop
  | address (a : Address) : Names (.address a) a
  | key {t : String} {a : Address} (h : Address.KeySpelled t.toList a) : Names (.text t) a
  | a1 {t : String} {a : Address} (h : Address.A1Spelled (stripMarkers t).toList a) :
    Names (.text t) a

namespace Sheet

variable {s : Sheet} {a : Address} {target : Target}

/-- The target names a cell of the grid. -/
def Has (s : Sheet) (target : Target) : Prop := ∃ a, target.Names a ∧ a.InGrid s.rows s.columns

theorem within_eq_ok_iff {b : Address} : s.within b = .ok a ↔ b = a ∧ a.InGrid s.rows s.columns := by
  rw [within]
  split
  · rename_i hgrid
    rw [Except.ok.injEq]
    exact ⟨fun h => ⟨h, h ▸ hgrid⟩, And.left⟩
  · rename_i hgrid
    refine iff_of_false (by simp) ?_
    rintro ⟨rfl, ha⟩
    exact hgrid ha

theorem resolve_eq_ok_iff :
    s.resolve target = .ok a ↔ target.Names a ∧ a.InGrid s.rows s.columns := by
  cases target with
  | address b =>
    rw [resolve, within_eq_ok_iff]
    refine and_congr_left' ⟨?_, ?_⟩
    · rintro rfl
      exact .address b
    · rintro ⟨⟩
      rfl
  | text t =>
    rw [resolve]
    cases hkey : Address.ofKey? t with
    | some b =>
      simp only
      rw [within_eq_ok_iff]
      refine and_congr_left' ⟨?_, ?_⟩
      · rintro rfl
        exact .key (Address.ofKey?_eq_some_iff.mp hkey)
      · rintro (_ | h | h)
        · exact Option.some.inj (hkey.symm.trans (Address.ofKey?_eq_some_iff.mpr h))
        · -- No key is an A1 text, too.
          have hnone := Address.namedCell?_eq_none_of_ofKey? hkey
          rw [namedCell?, Address.ofA1?_eq_some_iff.mpr h] at hnone
          cases hnone
    | none =>
      simp only
      have hnames : (Target.text t).Names a ↔ Address.ofA1? (stripMarkers t) = some a := by
        rw [Address.ofA1?_eq_some_iff]
        refine ⟨?_, .a1⟩
        rintro (_ | h | h)
        · rw [Address.ofKey?_eq_some_iff.mpr h] at hkey
          cases hkey
        · exact h
      rw [hnames]
      cases Address.ofA1? (stripMarkers t) with
      | none => simp
      | some b =>
        simp only
        rw [within_eq_ok_iff, Option.some.injEq]

theorem resolve_key (h : a.InGrid s.rows s.columns) : s.resolve (.text a.key) = .ok a := by
  refine resolve_eq_ok_iff.mpr ⟨.key ?_, h⟩
  exact Address.ofKey?_eq_some_iff.mp (Address.ofKey?_key_of_inGrid h)

theorem exists_resolve_iff : (∃ a, s.resolve target = .ok a) ↔ s.Has target :=
  exists_congr fun _ => resolve_eq_ok_iff

theorem resolveWithin_eq_ok_iff {l : Limits} :
    s.resolveWithin l target = .ok a ↔ s.resolve target = .ok a ∧ target.readable l = true := by
  rw [resolveWithin]
  cases target.readable l with
  | false => simp
  | true => cases s.resolve target <;> simp [Except.mapError]

theorem exists_resolveWithin_iff {l : Limits} :
    (∃ a, s.resolveWithin l target = .ok a) ↔ s.Has target ∧ target.readable l = true := by
  simp only [resolveWithin_eq_ok_iff, exists_and_right, exists_resolve_iff]

theorem resolveWithin_key {l : Limits} {k : String} (h : a.InGrid s.rows s.columns)
    (hk : l.key a = .ok k) : s.resolveWithin l (.text k) = .ok a := by
  obtain ⟨rfl, hreads⟩ := Limits.reads_key h.2.2.1 h.1 hk
  refine resolveWithin_eq_ok_iff.mpr ⟨resolve_key h, ?_⟩
  rw [Target.readable, Address.ofKey?_key_of_inGrid h]
  exact hreads

end Sheet

theorem Limits.eventually_readable (target : Target) :
    ∀ᶠ l in Limits.ample, target.readable l = true := by
  cases target with
  | address a => exact .of_forall fun _ => rfl
  | text t =>
    filter_upwards [Limits.eventually_reads t, Limits.eventually_reads (stripMarkers t)] with l
      hkey hname
    rw [Target.readable]
    split
    · exact hkey
    · rw [hname, Bool.or_true]

end Gridcalc
