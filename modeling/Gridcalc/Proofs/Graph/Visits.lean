import Gridcalc.Proofs.Graph.Turns

/-! # The search for a cycle by recursion

The search that visits a key by visiting what it reads. It marks each key that it comes to, keeps
the keys whose visit is not over on a stack, and stops at the first link back to one of them. The
search with frames is this search: the frames are the visits that are not over, each with the links
that are left to it.
-/

namespace Gridcalc.Graph

variable {g : Graph} {k d root : String} {ds : List String}

/-- What the visits share: the keys that were visited, those on the stack, and the path. -/
structure Trail where
  visited : Std.TreeSet String
  active : Std.TreeSet String
  path : List String

namespace Trail

variable {t : Trail}

def start : Trail := ⟨∅, ∅, []⟩

def enter (t : Trail) (k : String) : Trail := ⟨t.visited.insert k, t.active.insert k, t.path ++ [k]⟩

def leave (t : Trail) (k : String) : Trail := ⟨t.visited, t.active.erase k, t.path.dropLast⟩

/-- How many of the keys of the graph are still to be visited. -/
def ahead (g : Graph) (t : Trail) : Nat := g.unvisited (fun _ => 1) t.visited

/-- The trail at some later time. -/
abbrev Later (g : Graph) (t : Trail) := { t' : Trail // t'.ahead g ≤ t.ahead g }

theorem ahead_enter (hd : d ∉ t.visited) :
    (t.enter d).ahead g + (if g.contains d then 1 else 0) = t.ahead g :=
  unvisited_insert g (fun _ => 1) hd

theorem ahead_enter_le (hd : d ∉ t.visited) : (t.enter d).ahead g ≤ t.ahead g := by
  have h := ahead_enter (g := g) hd
  omega

/-- A key that the graph does not know reads nothing, so that its visit is over at once. -/
theorem enter_shorter (hd : d ∉ t.visited) (ds : List String) :
    Prod.Lex (· < ·) (· < ·) ((t.enter d).ahead g, (g.dependencies d).toList.length)
      (t.ahead g, (d :: ds).length) := by
  have h := ahead_enter (g := g) hd
  by_cases hknown : g.contains d = true
  · rw [if_pos hknown] at h
    exact .left _ _ (by omega)
  · have hlength : (g.dependencies d).toList.length = 0 := by
      rw [dependencies_eq_empty (node?_eq_none hknown)]
      rfl
    rw [if_neg hknown, Nat.add_zero] at h
    rw [h, hlength]
    exact .right _ (Nat.succ_pos _)

end Trail

/-- Visits the given keys one after the other, skipping those that were visited. A visit adds the
key to the marked ones, to the stack and to the path, visits what the key reads, and takes the key
off the stack and the path. The first key that is on the stack ends the search: it is put behind
the path. -/
def follow (g : Graph) (t : Trail) (ds : List String) : Except (List String) (t.Later g) :=
  match ds with
  | [] => .ok ⟨t, Nat.le_refl _⟩
  | d :: ds =>
    if d ∈ t.active then .error (t.path ++ [d])
    else if hd : d ∈ t.visited then follow g t ds
    else do
      let ⟨inner, hinner⟩ ← follow g (t.enter d) (g.dependencies d).toList
      let ⟨last, hlast⟩ ← follow g (inner.leave d) ds
      return ⟨last, hlast.trans (hinner.trans (Trail.ahead_enter_le hd))⟩
termination_by (t.ahead g, ds.length)
decreasing_by
  · exact .right _ (Nat.lt_succ_self _)
  · exact Trail.enter_shorter hd ds
  · have hle := hinner.trans (Trail.ahead_enter_le hd)
    rcases Nat.lt_or_eq_of_le hle with hlt | heq
    · exact .left _ _ hlt
    · exact heq ▸ .right _ (Nat.lt_succ_self _)

/-- The trail after the visits, or the walk that ended the search. -/
def walk (g : Graph) (t : Trail) (ds : List String) : Except (List String) Trail :=
  (g.follow t ds).map Subtype.val

/-- One visit. -/
def visit (g : Graph) (t : Trail) (k : String) : Except (List String) Trail :=
  (g.walk (t.enter k) (g.dependencies k).toList).map (·.leave k)

/-- The walk on which the visit of `k` comes back to its own path. -/
def wayBack (g : Graph) (k : String) : Option (List String) :=
  match g.visit .start k with
  | .error keys => some keys
  | .ok _ => none

section Equations

variable {t : Trail}

theorem ahead_le_of_walk {t' : Trail} (h : g.walk t ds = .ok t') : t'.ahead g ≤ t.ahead g := by
  rw [walk] at h
  cases hr : g.follow t ds with
  | error keys =>
    rw [hr] at h
    cases h
  | ok last =>
    rw [hr] at h
    cases h
    exact last.2

theorem walk_nil : g.walk t [] = .ok t := by
  rw [walk, follow]
  rfl

theorem walk_back (h : d ∈ t.active) : g.walk t (d :: ds) = .error (t.path ++ [d]) := by
  rw [walk, follow, if_pos h]
  rfl

theorem walk_pass (hactive : d ∉ t.active) (hvisited : d ∈ t.visited) :
    g.walk t (d :: ds) = g.walk t ds := by
  rw [walk, follow, if_neg hactive, dif_pos hvisited, ← walk]

theorem walk_enter (hactive : d ∉ t.active) (hvisited : d ∉ t.visited) :
    g.walk t (d :: ds) = (g.visit t d).bind fun t' => g.walk t' ds := by
  rw [walk, follow, if_neg hactive, dif_neg hvisited, visit, walk]
  cases g.follow (t.enter d) (g.dependencies d).toList with
  | error keys => rfl
  | ok inner =>
    change Except.map Subtype.val ((g.follow (inner.1.leave d) ds).bind _) =
      g.walk (inner.1.leave d) ds
    rw [walk]
    cases g.follow (inner.1.leave d) ds <;> rfl

end Equations

section Frames

variable {t : Trail} {outer : List Frame}

/-- The search with frames is where the visits are: it has found the walk that ended them, or it
stands at their trail, with the given frames left. -/
def Arrived (g : Graph) (root : String) (frames : List Frame) :
    Except (List String) Trail → Prop
  | .error keys => g.findCycle root = some keys
  | .ok t => t.path = path frames ∧
      ∃ fresh, Search.Matches g root fresh ⟨t.visited, t.active, frames⟩

theorem path_cons (k : String) (ds : List String) (outer : List Frame) :
    path (⟨k, ds⟩ :: outer) = path outer ++ [k] := by
  simp [path]

theorem Arrived.leave {r : Except (List String) Trail} (h : Arrived g root (⟨k, []⟩ :: outer) r) :
    Arrived g root outer (r.map (·.leave k)) := by
  cases r with
  | error keys => exact h
  | ok t =>
    obtain ⟨hpath, fresh, hmatches⟩ := h
    refine ⟨?_, fresh, hmatches.leave⟩
    change t.path.dropLast = path outer
    rw [hpath, path_cons, List.dropLast_concat]

theorem arrived_walk (hknown : ∀ a b, g.Reads a b → g.contains b = true)
    (h : Arrived g root (⟨k, ds⟩ :: outer) (.ok t)) :
    Arrived g root (⟨k, []⟩ :: outer) (g.walk t ds) := by
  -- By the recursion of the visits. A visit pushes a frame, so the frames outside vary with it.
  induction t, ds using follow.induct g generalizing k outer with
  | case1 t =>
    rw [walk_nil]
    exact h
  | case2 t d ds hactive =>
    obtain ⟨hpath, fresh, hmatches⟩ := h
    rw [walk_back hactive, hpath]
    change g.findCycle root = some (path (⟨k, ds⟩ :: outer) ++ [d])
    rw [← hmatches.result, backLink_back hactive]
  | case3 t d ds hactive hvisited ih =>
    obtain ⟨hpath, fresh, hmatches⟩ := h
    rw [walk_pass hactive hvisited]
    exact ih ⟨hpath, fresh, hmatches.pass hactive hvisited⟩
  | case4 t d ds hactive hvisited ihInner ihRest =>
    obtain ⟨hpath, fresh, hmatches⟩ := h
    have hentered : Arrived g root (⟨d, (g.dependencies d).toList⟩ :: ⟨k, ds⟩ :: outer)
        (.ok (t.enter d)) := by
      refine ⟨?_, _, hmatches.enter hknown hactive hvisited⟩
      change t.path ++ [d] = _
      rw [hpath, path_cons d, path_cons, path_cons]
    have hvisit := (ihInner hentered).leave
    rw [walk_enter hactive hvisited, visit]
    cases hinner : g.walk (t.enter d) (g.dependencies d).toList with
    | error keys =>
      rw [hinner] at hvisit
      exact hvisit
    | ok inner =>
      rw [hinner] at hvisit
      exact ihRest inner (ahead_le_of_walk hinner) hvisit

theorem arrived_visit (hknown : ∀ a b, g.Reads a b → g.contains b = true) (k : String) :
    Arrived g k [] (g.visit .start k) := by
  have hstart : Arrived g k [⟨k, (g.dependencies k).toList⟩] (.ok (Trail.start.enter k)) :=
    ⟨rfl, _, Search.matches_start hknown k⟩
  exact (arrived_walk hknown hstart).leave

/-- The search with frames gives the walk that the recursive search gives, and nothing if that one
ends without a walk. -/
theorem findCycle_eq_wayBack (ops : List Operation) (k : String) :
    (built ops).findCycle k = (built ops).wayBack k := by
  have hvisit := arrived_visit (fun a b hread => (contains_of_reads ops hread).2) k
  rw [wayBack]
  cases hr : (built ops).visit .start k with
  | error keys =>
    rw [hr] at hvisit
    exact hvisit
  | ok t =>
    rw [hr] at hvisit
    obtain ⟨-, fresh, hmatches⟩ := hvisit
    rw [← hmatches.result, backLink]

end Frames

end Gridcalc.Graph
