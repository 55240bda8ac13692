import Gridcalc.Graph.Basic

/-! # Searches

Reachability and cycles. A search is given all nodes and takes out those that it visits; how many
are left bounds the rest of the search.
-/

namespace Gridcalc.Graph

/-- The nodes that a search has not visited yet. -/
abbrev Fresh := Std.TreeMap String Node

theorem size_erase_lt {fresh : Fresh} {k : String} {n : Node} (h : fresh[k]? = some n) :
    (fresh.erase k).size < fresh.size := by
  have hc : fresh.contains k = true := by
    rw [Std.TreeMap.contains_eq_isSome_getElem?, h]; rfl
  have hp : fresh.size ≠ 0 := by
    intro h0
    have := Std.TreeMap.isEmpty_eq_size_eq_zero (t := fresh)
    simp_all [Std.TreeMap.contains_of_isEmpty]
  rw [Std.TreeMap.size_erase, if_pos hc]
  omega

/-- The unvisited nodes that can be reached from those in the list, in the order of the visits. -/
def reach (next : Node → List String) (fresh : Fresh) (ks : List String) : List String :=
  match ks.dropWhile (!fresh.contains ·) with
  | [] => []
  | k :: ks =>
    match h : fresh[k]? with
    | some n =>
      have := size_erase_lt h
      k :: reach next (fresh.erase k) (next n ++ ks)
    | none => []
termination_by fresh.size

/-- All that depends on `k`, directly or not; `k` itself only if it lies on a cycle. -/
def affected (g : Graph) (k : String) : KeySet :=
  KeySet.ofList (reach (fun n => n.dependents.toList) g.nodes (g.dependents k).toList)

/-- A node on the path of a search, and its links that are still to be followed. -/
structure Frame where
  key : String
  pending : List String

def path (frames : List Frame) : List String := (frames.map Frame.key).reverse

/-- Depth-first search for a link back to the path. The frames are those of the path, the
innermost first, and `active` are their keys; links to nodes that are done are passed over. -/
def backLink (fresh : Fresh) (active : Std.TreeSet String) (frames : List Frame) :
    Option (List String) :=
  match frames with
  | [] => none
  | ⟨k, pending⟩ :: outer =>
    match pending.dropWhile fun d => !active.contains d && !fresh.contains d with
    | [] => backLink fresh (active.erase k) outer
    | d :: ds =>
      if active.contains d then some (path (⟨k, ds⟩ :: outer) ++ [d])
      else
        match h : fresh[d]? with
        | some n =>
          have := size_erase_lt h
          backLink (fresh.erase d) (active.insert d)
            (⟨d, n.dependencies.toList⟩ :: ⟨k, ds⟩ :: outer)
        | none => none
termination_by 2 * fresh.size + frames.length
decreasing_by all_goals (simp only [List.length_cons]; omega)

/-- The path of the search from `k` to a node and once more to a node on it, if a cycle can be
reached from `k`. -/
def findCycle (g : Graph) (k : String) : Option (List String) :=
  backLink (g.nodes.erase k) (.ofList [k]) [⟨k, (g.dependencies k).toList⟩]

def hasCycle (g : Graph) (k : String) : Bool := (g.findCycle k).isSome

def cyclic (g : Graph) : List String := g.keys.filter g.hasCycle

end Gridcalc.Graph
