import Gridcalc.Graph.Basic
import Mathlib.Logic.Relation

/-! # The links of a dependency graph

What an update and a removal do to the two directions of the links. A graph in which the
directions agree keeps them in step; everything that is said later about paths and cycles looks
at the dependencies alone.
-/

namespace Gridcalc

@[simp] theorem Node.lose_lose (k : String) (n : Node) : (n.lose k).lose k = n.lose k := by
  have h : (n.dependents.erase k).erase k = n.dependents.erase k := KeySet.ext (by simp)
  simp only [Node.lose, h]

@[simp] theorem Node.gain_gain (k : String) (n : Node) : (n.gain k).gain k = n.gain k := by
  have h : (n.dependents.insert k).insert k = n.dependents.insert k := KeySet.ext (by simp)
  simp only [Node.gain, h]

@[simp] theorem Node.forget_forget (k : String) (n : Node) :
    (n.forget k).forget k = n.forget k := by
  have h : (n.dependencies.erase k).erase k = n.dependencies.erase k := KeySet.ext (by simp)
  simp only [Node.forget, h]

namespace Node

def inputs (n : Option Node) : KeySet := (n.map Node.dependencies).getD ∅

def outputs (n : Option Node) : KeySet := (n.map Node.dependents).getD ∅

variable (k y : String) (n : Option Node) (s : KeySet) (p : Prop) [Decidable p]

@[simp] theorem not_mem_inputs_none : y ∉ inputs none := KeySet.not_mem_empty y

@[simp] theorem not_mem_outputs_none : y ∉ outputs none := KeySet.not_mem_empty y

@[simp] theorem inputs_lose : inputs (if p then n.map (lose k) else n) = inputs n := by
  cases n <;> split <;> rfl

@[simp] theorem mem_outputs_lose :
    y ∈ outputs (if p then n.map (lose k) else n) ↔ y ∈ outputs n ∧ (y = k → ¬p) := by
  cases n <;> split <;> simp_all [outputs, lose]

@[simp] theorem inputs_gain :
    inputs (if p then some ((n.getD isolated).gain k) else n) = inputs n := by
  cases n <;> split <;> rfl

@[simp] theorem mem_outputs_gain :
    y ∈ outputs (if p then some ((n.getD isolated).gain k) else n) ↔ (y = k ∧ p) ∨ y ∈ outputs n := by
  cases n <;> split <;> simp_all [outputs, gain, isolated]

@[simp] theorem mem_inputs_forget :
    y ∈ inputs (if p then n.map (forget k) else n) ↔ y ∈ inputs n ∧ (y = k → ¬p) := by
  cases n <;> split <;> simp_all [inputs, forget]

@[simp] theorem outputs_forget : outputs (if p then n.map (forget k) else n) = outputs n := by
  cases n <;> split <;> rfl

@[simp] theorem inputs_redirected :
    inputs (some { n.getD isolated with dependencies := s }) = s := by
  cases n <;> rfl

@[simp] theorem outputs_redirected :
    outputs (some { n.getD isolated with dependencies := s }) = outputs n := by
  cases n <;> rfl

end Node

namespace Graph

section Maps

variable {β : Type} {m : Std.TreeMap String β} {k x : String}

theorem mem_iff_exists_getElem? : x ∈ m ↔ ∃ v, m[x]? = some v := by
  rw [Std.TreeMap.mem_iff_isSome_getElem?, Option.isSome_iff_exists]

theorem getElem?_erase_eq_ite : (m.erase k)[x]? = if x = k then none else m[x]? := by
  rw [Std.TreeMap.getElem?_erase]
  simp only [Std.LawfulEqOrd.compare_eq_iff_eq, eq_comm (a := k)]

theorem mem_erase_iff : x ∈ m.erase k ↔ x ≠ k ∧ x ∈ m := by
  rw [Std.TreeMap.mem_erase, ne_eq, Std.LawfulEqOrd.compare_eq_iff_eq, eq_comm]

end Maps

variable {g : Graph} {k a b x y : String}

def Reads (g : Graph) (a b : String) : Prop := b ∈ g.dependencies a

instance (g : Graph) (a b : String) : Decidable (g.Reads a b) :=
  inferInstanceAs (Decidable (b ∈ g.dependencies a))

/-- The two directions of the links agree. -/
def Linked (g : Graph) : Prop := ∀ a b, b ∈ g.dependencies a ↔ a ∈ g.dependents b

theorem linked_empty : (∅ : Graph).Linked := by
  intro a b
  have h (c : String) : (∅ : Graph).node? c = none := Std.TreeMap.getElem?_emptyc
  simp [dependencies, dependents, h]

theorem dependencies_eq_empty (h : g.node? k = none) : g.dependencies k = ∅ := by
  simp [dependencies, h]

theorem exists_node?_of_reads (h : g.Reads a b) : ∃ n, g.node? a = some n := by
  cases hn : g.node? a with
  | none =>
    rw [Reads, dependencies_eq_empty hn] at h
    exact absurd h (KeySet.not_mem_empty b)
  | some n => exact ⟨n, rfl⟩

theorem mem_keys_iff : k ∈ g.keys ↔ g.contains k = true := by
  rw [keys, Std.TreeMap.mem_keys, mem_iff_exists_getElem?, contains, node?, Option.isSome_iff_exists]

/-- Several changes of the same kind, each of which does nothing when repeated. -/
theorem getElem?_foldl_modify {f : Node → Node} (hf : ∀ n, f (f n) = f n) (ds : List String)
    (nodes : Std.TreeMap String Node) :
    (ds.foldl (fun m d => m.modify d f) nodes)[x]? =
      if x ∈ ds then nodes[x]?.map f else nodes[x]? := by
  induction ds generalizing nodes with
  | nil => simp
  | cons d ds ih =>
    rw [List.foldl_cons, ih, Std.TreeMap.getElem?_modify]
    by_cases hd : d = x
    · subst hd
      simp [Option.map_map, Function.comp_def, hf]
    · simp [hd, Ne.symm hd]

theorem getElem?_detach (ds : List String) (nodes : Std.TreeMap String Node) :
    (detach k ds nodes)[x]? = if x ∈ ds then nodes[x]?.map (Node.lose k) else nodes[x]? :=
  getElem?_foldl_modify (Node.lose_lose k) ds nodes

theorem getElem?_attach (ds : List String) (nodes : Std.TreeMap String Node) :
    (attach k ds nodes)[x]? =
      if x ∈ ds then some ((nodes[x]?.getD Node.isolated).gain k) else nodes[x]? := by
  induction ds generalizing nodes with
  | nil => simp [attach]
  | cons d ds ih =>
    have h := ih (nodes.alter d fun n => some ((n.getD Node.isolated).gain k))
    rw [attach] at h ⊢
    rw [List.foldl_cons, h, Std.TreeMap.getElem?_alter]
    by_cases hd : d = x
    · subst hd
      simp
    · simp [hd, Ne.symm hd]

section Update

variable (g k) (reads : List String)

theorem node?_update :
    (g.update k reads).node? x =
      let old := if x ∈ g.dependencies k then (g.node? x).map (Node.lose k) else g.node? x
      let linked := if x ∈ reads then some ((old.getD Node.isolated).gain k) else old
      if x = k then some { linked.getD Node.isolated with dependencies := .ofList reads }
      else linked := by
  have hr : (x ∈ (KeySet.ofList reads).toList) = (x ∈ reads) := propext KeySet.mem_ofList
  simp only [node?, update, Std.TreeMap.getElem?_alter, getElem?_attach, getElem?_detach, hr,
    KeySet.mem_def, Std.LawfulEqOrd.compare_eq_iff_eq]
  by_cases hx : x = k
  · subst hx
    simp [hr]
  · simp [hx, Ne.symm hx]

theorem dependencies_update :
    (g.update k reads).dependencies x = if x = k then .ofList reads else g.dependencies x := by
  change Node.inputs _ = if x = k then _ else Node.inputs (g.node? x)
  rw [node?_update]
  by_cases hx : x = k
  · simp [hx]
  · simp only [hx, if_false, Node.inputs_gain, Node.inputs_lose]

theorem mem_dependents_update :
    y ∈ (g.update k reads).dependents x ↔
      (y = k ∧ x ∈ reads) ∨ (y ∈ g.dependents x ∧ (y = k → x ∉ g.dependencies k)) := by
  change y ∈ Node.outputs _ ↔ _ ∨ (y ∈ Node.outputs (g.node? x) ∧ _)
  rw [node?_update]
  by_cases hx : x = k
  · simp only [hx, if_true, Node.outputs_redirected, Node.mem_outputs_gain, Node.mem_outputs_lose]
  · simp only [hx, if_false, Node.mem_outputs_gain, Node.mem_outputs_lose]

theorem linked_update {g : Graph} (hg : g.Linked) : (g.update k reads).Linked := by
  intro a b
  rw [mem_dependents_update, dependencies_update, ← hg a b]
  by_cases h : a = k
  · simp [h]
  · simp [h]

end Update

section Remove

variable (g k)

theorem node?_remove :
    (g.remove k).node? x =
      let old := if x ∈ g.dependencies k then (g.node? x).map (Node.lose k) else g.node? x
      if x = k then none
      else if x ∈ g.dependents k then old.map (Node.forget k) else old := by
  simp only [node?, remove, Std.TreeMap.getElem?_erase, getElem?_detach,
    getElem?_foldl_modify (Node.forget_forget k), KeySet.mem_def, Std.LawfulEqOrd.compare_eq_iff_eq]
  by_cases hx : x = k
  · simp [hx]
  · simp [hx, Ne.symm hx]

theorem mem_dependencies_remove :
    y ∈ (g.remove k).dependencies x ↔
      x ≠ k ∧ y ∈ g.dependencies x ∧ (y = k → x ∉ g.dependents k) := by
  change y ∈ Node.inputs _ ↔ _ ∧ y ∈ Node.inputs (g.node? x) ∧ _
  rw [node?_remove]
  by_cases hx : x = k
  · simp [hx]
  · simp [hx]

theorem mem_dependents_remove :
    y ∈ (g.remove k).dependents x ↔
      x ≠ k ∧ y ∈ g.dependents x ∧ (y = k → x ∉ g.dependencies k) := by
  change y ∈ Node.outputs _ ↔ _ ∧ y ∈ Node.outputs (g.node? x) ∧ _
  rw [node?_remove]
  by_cases hx : x = k
  · simp [hx]
  · simp [hx]

theorem linked_remove {g : Graph} (hg : g.Linked) : (g.remove k).Linked := by
  intro a b
  rw [mem_dependencies_remove, mem_dependents_remove, hg a b]
  have h₁ := hg a b
  have h₂ := hg k b
  have h₃ := hg a k
  grind

end Remove

end Graph

end Gridcalc
