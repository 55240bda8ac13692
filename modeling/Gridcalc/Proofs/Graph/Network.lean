import Gridcalc.Proofs.Graph.Links
import Mathlib.Data.Set.Basic

/-! # Networks

What a dependency graph stands for: a set of keys, and which of them reads which. An update, a
removal and a clearing do to the graph what they do to the network, so that a graph that was built
by them, in whatever order, is the network that was built in the same way.
-/

namespace Gridcalc

/-- Some keys, and which of them reads which. -/
@[ext]
structure Network where
  known : Set String
  reads : String → String → Prop

namespace Network

def empty : Network := ⟨∅, fun _ _ => False⟩

/-- All links that leave `k` are replaced by links to the given keys, which become known. -/
def update (n : Network) (k : String) (ds : List String) : Network where
  known := {x | x = k ∨ x ∈ ds ∨ x ∈ n.known}
  reads a b := if a = k then b ∈ ds else n.reads a b

/-- The key goes, and with it all links from it and to it. -/
def remove (n : Network) (k : String) : Network where
  known := {x | x ≠ k ∧ x ∈ n.known}
  reads a b := a ≠ k ∧ b ≠ k ∧ n.reads a b

/-- Links lead from known keys to known keys. -/
def Proper (n : Network) : Prop := ∀ a b, n.reads a b → a ∈ n.known ∧ b ∈ n.known

variable {n : Network}

theorem proper_empty : empty.Proper := fun _ _ h => h.elim

theorem Proper.update (h : n.Proper) (k : String) (ds : List String) : (n.update k ds).Proper := by
  intro a b hread
  by_cases ha : a = k
  · have hb : b ∈ ds := by simpa only [Network.update, if_pos ha] using hread
    exact ⟨.inl ha, .inr (.inl hb)⟩
  · have hold : n.reads a b := by simpa only [Network.update, if_neg ha] using hread
    exact ⟨.inr (.inr (h a b hold).1), .inr (.inr (h a b hold).2)⟩

theorem Proper.remove (h : n.Proper) (k : String) : (n.remove k).Proper := by
  rintro a b ⟨ha, hb, hread⟩
  exact ⟨⟨ha, (h a b hread).1⟩, ⟨hb, (h a b hread).2⟩⟩

end Network

namespace Graph

variable {g : Graph} {k x : String}

def network (g : Graph) : Network := ⟨{k | g.contains k = true}, g.Reads⟩

theorem network_empty : (∅ : Graph).network = .empty := by
  have h (c : String) : (∅ : Graph).node? c = none := Std.TreeMap.getElem?_emptyc
  ext
  · simp [network, Network.empty, contains, h]
  · simp [network, Network.empty, Reads, dependencies_eq_empty, h]

theorem contains_update (g : Graph) (k : String) (reads : List String) :
    (g.update k reads).contains x = true ↔ x = k ∨ x ∈ reads ∨ g.contains x = true := by
  rw [contains, node?_update, contains]
  by_cases hx : x = k
  · simp [hx]
  · by_cases hr : x ∈ reads
    · simp [hx, hr]
    · by_cases hd : x ∈ g.dependencies k <;> simp [hx, hr, hd]

theorem contains_remove (g : Graph) (k : String) :
    (g.remove k).contains x = true ↔ x ≠ k ∧ g.contains x = true := by
  rw [contains, node?_remove, contains]
  by_cases hx : x = k
  · simp [hx]
  · by_cases hd : x ∈ g.dependencies k <;> by_cases hr : x ∈ g.dependents k <;> simp [hx, hd, hr]

theorem network_update (g : Graph) (k : String) (reads : List String) :
    (g.update k reads).network = g.network.update k reads := by
  ext a b
  · exact contains_update g k reads
  · change b ∈ (g.update k reads).dependencies a ↔ if a = k then b ∈ reads else g.Reads a b
    rw [dependencies_update]
    split
    · exact KeySet.mem_ofList
    · rfl

/-- Links to `k` are found by way of what reads it, so the two directions have to agree. -/
theorem network_remove (hg : g.Linked) (k : String) :
    (g.remove k).network = g.network.remove k := by
  ext a b
  · exact contains_remove g k
  · change b ∈ (g.remove k).dependencies a ↔ a ≠ k ∧ b ≠ k ∧ g.Reads a b
    rw [mem_dependencies_remove]
    refine and_congr_right fun _ => ?_
    constructor
    · rintro ⟨hread, hnot⟩
      exact ⟨fun hb => hnot hb ((hg a k).mp (hb ▸ hread)), hread⟩
    · rintro ⟨hb, hread⟩
      exact ⟨hread, fun heq => absurd heq hb⟩

inductive Operation where
  | update (k : String) (reads : List String)
  | remove (k : String)
  | clear

namespace Operation

def run (g : Graph) : Operation → Graph
  | update k reads => g.update k reads
  | remove k => g.remove k
  | clear => ∅

def runNetwork (n : Network) : Operation → Network
  | update k reads => n.update k reads
  | remove k => n.remove k
  | clear => .empty

theorem linked_run (op : Operation) (hg : g.Linked) : (op.run g).Linked := by
  cases op with
  | update k reads => exact linked_update k reads hg
  | remove k => exact linked_remove k hg
  | clear => exact linked_empty

theorem network_run (op : Operation) (hg : g.Linked) :
    (op.run g).network = op.runNetwork g.network := by
  cases op with
  | update k reads => exact network_update g k reads
  | remove k => exact network_remove hg k
  | clear => exact network_empty

theorem proper_runNetwork (op : Operation) {n : Network} (h : n.Proper) :
    (op.runNetwork n).Proper := by
  cases op with
  | update k reads => exact h.update k reads
  | remove k => exact h.remove k
  | clear => exact Network.proper_empty

end Operation

def built (ops : List Operation) : Graph := ops.foldl Operation.run ∅

def builtNetwork (ops : List Operation) : Network := ops.foldl Operation.runNetwork .empty

/-- What a graph that was built keeps. -/
structure Refines (g : Graph) (n : Network) : Prop where
  linked : g.Linked
  network : g.network = n
  proper : n.Proper

theorem Refines.run {n : Network} (h : Refines g n) (op : Operation) :
    Refines (op.run g) (op.runNetwork n) where
  linked := op.linked_run h.linked
  network := h.network ▸ op.network_run h.linked
  proper := op.proper_runNetwork h.proper

theorem Refines.runAll {n : Network} (h : Refines g n) (ops : List Operation) :
    Refines (ops.foldl Operation.run g) (ops.foldl Operation.runNetwork n) := by
  induction ops generalizing g n with
  | nil => exact h
  | cons op ops ih => exact ih (h.run op)

theorem refines_built (ops : List Operation) : Refines (built ops) (builtNetwork ops) :=
  Refines.runAll ⟨linked_empty, network_empty, Network.proper_empty⟩ ops

theorem linked_built (ops : List Operation) : (built ops).Linked := (refines_built ops).linked

theorem contains_of_reads {a b : String} (ops : List Operation) (h : (built ops).Reads a b) :
    (built ops).contains a = true ∧ (built ops).contains b = true := by
  have hrefines := refines_built ops
  have hproper : (built ops).network.Proper := hrefines.network ▸ hrefines.proper
  exact hproper a b h

/-- A graph that was built is the network that was built in the same way, and knows each link from
both of its ends. -/
theorem network_built (ops : List Operation) :
    (∀ k, (built ops).contains k = true ↔ k ∈ (builtNetwork ops).known) ∧
      ∀ a b, (b ∈ (built ops).dependencies a ↔ (builtNetwork ops).reads a b) ∧
        (b ∈ (built ops).dependencies a ↔ a ∈ (built ops).dependents b) ∧
        (b ∈ (built ops).dependencies a →
          (built ops).contains a = true ∧ (built ops).contains b = true) := by
  have hnetwork := (refines_built ops).network
  refine ⟨fun k => ?_, fun a b => ⟨?_, linked_built ops a b, contains_of_reads ops⟩⟩
  · rw [← hnetwork]
    rfl
  · rw [← hnetwork]
    rfl

/-- `A` reads itself and an unknown key twice; then another unknown key is removed. -/
theorem network_built_of_self_read :
    "A" ∈ (built [.update "A" ["A", "B", "B"], .remove "C"]).dependencies "A" ∧
      "A" ∈ (built [.update "A" ["A", "B", "B"], .remove "C"]).dependents "A" ∧
      (built [.update "A" ["A", "B", "B"], .remove "C"]).contains "A" = true := by
  have hread : "A" ∈ (built [.update "A" ["A", "B", "B"], .remove "C"]).dependencies "A" := by
    decide +kernel
  obtain ⟨-, hlinked, hends⟩ := (network_built [.update "A" ["A", "B", "B"], .remove "C"]).2 "A" "A"
  exact ⟨hread, hlinked.mp hread, (hends hread).1⟩

end Graph

end Gridcalc
