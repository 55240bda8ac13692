import Gridcalc.Proofs.Graph.Cycles
import Gridcalc.Proofs.Graph.Network
import Gridcalc.Proofs.Graph.Order
import Mathlib.Tactic.Tauto

/-! # When there is an order

The keys can be put into an order exactly if there is no cycle among them. A member that is never
drained waits for another that is never drained, and among finitely many members this goes round
in a cycle; in turn, along a cycle each key would have to come before itself.
-/

namespace Gridcalc.Graph

open Relation (TransGen ReflTransGen)

variable {g : Graph} {ks done ready order : List String} {members : Std.TreeSet String}
  {waiting : Waiting} {a b k x : String}

/-- The link leads from one of the keys to one of them. -/
def ReadsAmong (g : Graph) (ks : List String) (a b : String) : Prop :=
  g.Reads a b ∧ a ∈ ks ∧ b ∈ ks

/-- The links among the keys close a cycle. -/
def CyclicAmong (g : Graph) (ks : List String) : Prop := ∃ k, TransGen (g.ReadsAmong ks) k k

theorem CyclicAmong.congr {ks' : List String} (h : ∀ x, x ∈ ks ↔ x ∈ ks') :
    g.CyclicAmong ks ↔ g.CyclicAmong ks' := by
  have hreads : g.ReadsAmong ks = g.ReadsAmong ks' := by
    funext a b
    rw [ReadsAmong, ReadsAmong, h, h]
  rw [CyclicAmong, CyclicAmong, hreads]

theorem CyclicAmong.ne_nil (h : g.CyclicAmong ks) : ks ≠ [] := by
  obtain ⟨k, hcycle⟩ := h
  obtain ⟨d, ⟨-, hk, -⟩, -⟩ := TransGen.head'_iff.mp hcycle
  exact List.ne_nil_of_mem hk

section Acyclic

/-- Every member that is not done is ready or waits. -/
def Covered (members : Std.TreeSet String) (done ready : List String) (waiting : Waiting) : Prop :=
  ∀ x ∈ members, x ∉ done → x ∈ ready ∨ x ∈ waiting

theorem covered_start (g : Graph) (members : Std.TreeSet String) :
    let degree (k : String) : Nat := ((g.dependencies k).toList.filter members.contains).length
    let degrees := members.toList.map fun k => (k, degree k)
    Covered members [] ((degrees.filter (·.2 == 0)).map (·.1))
      (.ofList (degrees.filter (·.2 != 0))) := by
  intro degree degrees x hx _
  by_cases hzero : degree x = 0
  · left
    simp [degrees, hx, hzero]
  · right
    rw [Std.TreeMap.mem_ofList]
    simp [degrees, hx, hzero]

/-- Whoever waited for the drained key is freed or goes on waiting. -/
theorem Covered.step (h : Covered members done (k :: ready) waiting) :
    Covered members (k :: done) (ready ++ (release (g.dependents k).toList waiting).1)
      (release (g.dependents k).toList waiting).2 := by
  intro x hx hdone
  obtain ⟨hxk, hxd⟩ := not_or.mp (mt List.mem_cons.mpr hdone)
  have hnodup : (g.dependents k).toList.Nodup := (g.dependents k).nodup
  rw [List.mem_append, mem_release_iff hnodup, mem_iff_exists_getElem?, getElem?_release hnodup]
  rcases h x hx hxd with hready | hwaiting
  · exact .inl (.inl (List.mem_of_ne_of_mem hxk hready))
  · obtain ⟨n, hn⟩ := mem_iff_exists_getElem?.mp hwaiting
    by_cases hread : x ∈ (g.dependents k).toList
    · by_cases hlast : n ≤ 1
      · exact .inl (.inr ⟨hread, n, hn, hlast⟩)
      · exact .inr ⟨n - 1, by rw [if_pos hread, hn, Option.bind_some, if_neg hlast]⟩
    · exact .inr ⟨n, by rw [if_neg hread, hn]⟩

theorem exists_undrained (hg : g.Linked) (h : Draining g members done ready waiting)
    (hcovered : Covered members done ready waiting) (hx : x ∈ members) (hdone : x ∉ done)
    (hout : x ∉ drain (fun k => (g.dependents k).toList) ready waiting) :
    ∃ d ∈ members, d ∉ done ∧ d ∉ drain (fun k => (g.dependents k).toList) ready waiting ∧
      g.Reads x d := by
  fun_induction drain (fun k => (g.dependents k).toList) ready waiting generalizing done with
  | case1 waiting =>
    obtain ⟨n, hn⟩ := mem_iff_exists_getElem?.mp
      ((hcovered x hx hdone).resolve_left List.not_mem_nil)
    obtain ⟨hlength, hpositive⟩ := h.count x n hn
    obtain ⟨d, hd⟩ := List.exists_mem_of_length_pos (Nat.pos_of_ne_zero (hlength ▸ hpositive))
    obtain ⟨hread, hmember, hwaits⟩ := mem_outstanding_iff.mp hd
    exact ⟨d, hmember, hwaits, List.not_mem_nil, hread⟩
  | case2 waiting k ready freed =>
    rename_i ih
    obtain ⟨hxk, hxrest⟩ := not_or.mp (mt List.mem_cons.mpr hout)
    have hxdone : x ∉ k :: done := by
      rw [List.mem_cons, not_or]
      exact ⟨hxk, hdone⟩
    obtain ⟨d, hmember, hd, hdrest, hread⟩ := ih (h.step hg) hcovered.step hxdone hxrest
    obtain ⟨hdk, hdd⟩ := not_or.mp (mt List.mem_cons.mpr hd)
    refine ⟨d, hmember, hdd, ?_, hread⟩
    rw [List.mem_cons, not_or]
    exact ⟨hdk, hdrest⟩

theorem cyclicAmong_of_topologicalOrder? (hg : g.Linked) (h : g.topologicalOrder? ks = none) :
    g.CyclicAmong ks := by
  have hdraining := draining_start g (.ofList ks)
  have hcovered := covered_start g (.ofList ks)
  have hdrained := hdraining.drained hg
  rw [topologicalOrder?] at h
  simp only at h hdraining hcovered hdrained
  split at h
  · cases h
  · rename_i hshort
    generalize horder : drain (fun k => (g.dependents k).toList) _ _ = order at hdrained hshort
    have hmem (x : String) : x ∈ Std.TreeSet.ofList ks ↔ x ∈ ks := by simp
    have hnext (x : String) (hx : x ∈ ks ∧ x ∉ order) :
        ∃ d, (d ∈ ks ∧ d ∉ order) ∧ TransGen (g.ReadsAmong ks) x d := by
      obtain ⟨d, hd, -, hout, hread⟩ := exists_undrained hg hdraining hcovered
        ((hmem x).mpr hx.1) List.not_mem_nil (horder ▸ hx.2)
      rw [horder] at hout
      exact ⟨d, ⟨(hmem d).mp hd, hout⟩, .single ⟨hread, hx.1, (hmem d).mp hd⟩⟩
    obtain ⟨x, hx, hxout⟩ : ∃ x ∈ ks, x ∉ order := by
      by_contra hall
      push Not at hall
      have hnodup : (Std.TreeSet.ofList ks).toList.Nodup :=
        Std.TreeSet.distinct_toList.imp fun hne e => hne (by simp [e])
      have hperm : order.Perm (Std.TreeSet.ofList ks).toList := by
        rw [List.perm_ext_iff_of_nodup hdrained.nodup hnodup]
        intro x
        rw [Std.TreeSet.mem_toList, hmem]
        exact ⟨fun hx => (hmem x).mp (hdrained.mem x hx).1, hall x⟩
      exact hshort (hperm.length_eq.trans Std.TreeSet.length_toList)
    obtain ⟨c, -, hcycle⟩ := exists_cycle_of_going_on
      (fun y (hy : y ∈ ks ∧ y ∉ order) => hy.1) hnext ⟨hx, hxout⟩
    exact ⟨c, hcycle⟩

end Acyclic

section Cyclic

theorem Ordered.idxOf_lt (h : Ordered g ks order) (hab : g.ReadsAmong ks a b) :
    order.idxOf b < order.idxOf a := by
  obtain ⟨hread, ha, hb⟩ := hab
  obtain ⟨pre, post, rfl, hpre⟩ := List.eq_append_cons_of_mem ((h.mem_iff a).mpr ha)
  have hbefore := h.precede pre a post rfl b hread hb
  rw [List.idxOf_append_of_mem hbefore, List.idxOf_append_of_notMem hpre]
  exact Nat.lt_add_right _ (List.idxOf_lt_length_of_mem hbefore)

theorem Ordered.not_cyclicAmong (h : Ordered g ks order) : ¬ g.CyclicAmong ks := by
  rintro ⟨k, hcycle⟩
  have hlt (x : String) (hx : TransGen (g.ReadsAmong ks) k x) : order.idxOf x < order.idxOf k := by
    induction hx with
    | single hread => exact h.idxOf_lt hread
    | tail _ hread ih => exact (h.idxOf_lt hread).trans ih
  exact Nat.lt_irrefl _ (hlt k hcycle)

end Cyclic

/-- There is no order exactly if the links among the keys close a cycle. -/
theorem topologicalOrder?_eq_none_iff (hg : g.Linked) :
    g.topologicalOrder? ks = none ↔ g.CyclicAmong ks := by
  constructor
  · exact cyclicAmong_of_topologicalOrder? hg
  · intro hcycle
    by_contra hsome
    obtain ⟨order, horder⟩ := Option.ne_none_iff_exists'.mp hsome
    exact (ordered_of_topologicalOrder? hg horder).not_cyclicAmong hcycle

section Given

/-- Only which keys are given matters, not in which order or how often. -/
theorem topologicalOrder?_congr {ks' : List String} (h : ∀ x, x ∈ ks ↔ x ∈ ks') :
    g.topologicalOrder? ks = g.topologicalOrder? ks' := by
  have hset : KeySet.ofList ks = KeySet.ofList ks' := KeySet.ext (by simpa using h)
  have hlist : (Std.TreeSet.ofList ks).toList = (Std.TreeSet.ofList ks').toList :=
    congrArg KeySet.toList hset
  have hsize : (Std.TreeSet.ofList ks).size = (Std.TreeSet.ofList ks').size := by
    rw [← Std.TreeSet.length_toList, hlist, Std.TreeSet.length_toList]
  have hcontains : (Std.TreeSet.ofList ks).contains = (Std.TreeSet.ofList ks').contains := by
    funext x
    rw [Std.TreeSet.contains_ofList, Std.TreeSet.contains_ofList, Bool.eq_iff_iff,
      List.contains_iff_mem, List.contains_iff_mem, h]
  simp only [topologicalOrder?, hlist, hsize, hcontains]

/-- There is an order unless the keys read each other in a cycle, and it is one of exactly these
keys, in whatever way they are listed. -/
theorem topologicalOrder_exact (ops : List Operation) (ks : List String) :
    ((built ops).topologicalOrder? ks = none ↔ (built ops).CyclicAmong ks) ∧
      (∀ order, (built ops).topologicalOrder? ks = some order → Ordered (built ops) ks order) ∧
      ∀ ks', (∀ k, k ∈ ks' ↔ k ∈ ks) →
        (built ops).topologicalOrder? ks' = (built ops).topologicalOrder? ks :=
  ⟨topologicalOrder?_eq_none_iff (linked_built ops),
    fun _ => ordered_of_topologicalOrder? (linked_built ops), fun _ => topologicalOrder?_congr⟩

/-- `Z` is unknown, and `D`, which both read, is not among the keys. -/
theorem topologicalOrder_of_repeated :
    let g := built [.update "A" ["B", "D"], .update "B" ["C", "D"], .update "D" ["A"]]
    Ordered g ["A", "Z", "B", "A", "C"] ["C", "Z", "B", "A"] ∧
      g.topologicalOrder? ["B", "C", "A", "Z"] = some ["C", "Z", "B", "A"] := by
  intro g
  have horder : g.topologicalOrder? ["A", "Z", "B", "A", "C"] = some ["C", "Z", "B", "A"] := by
    decide +kernel
  obtain ⟨-, hordered, hsame⟩ := topologicalOrder_exact
    [.update "A" ["B", "D"], .update "B" ["C", "D"], .update "D" ["A"]] ["A", "Z", "B", "A", "C"]
  refine ⟨hordered _ horder, (hsame _ fun k => ?_).trans horder⟩
  simp only [List.mem_cons, List.not_mem_nil]
  tauto

/-- What is computed anew comes in an order of the dependencies, or in the order of the keys if
the links among them close a cycle. -/
theorem recalculationOrder_cases (hg : g.Linked) (changed : List String) :
    (g.CyclicAmong (g.affectedByAny changed).toList ∧
        g.recalculationOrder changed = (g.affectedByAny changed).toList) ∨
      ¬ g.CyclicAmong (g.affectedByAny changed).toList ∧
        Ordered g (g.affectedByAny changed).toList (g.recalculationOrder changed) := by
  rw [← topologicalOrder?_eq_none_iff hg]
  cases h : g.topologicalOrder? (g.affectedByAny changed).toList with
  | none =>
    refine .inl ⟨rfl, ?_⟩
    rw [recalculationOrder, h, Option.getD_none]
  | some order =>
    refine .inr ⟨Option.some_ne_none order, ?_⟩
    rw [recalculationOrder_of_topologicalOrder? h]
    exact ordered_of_topologicalOrder? hg h

end Given

section Closed

/-- What one of the keys reads is one of them. -/
def ReadClosed (g : Graph) (ks : List String) : Prop := ∀ a ∈ ks, ∀ b, g.Reads a b → b ∈ ks

theorem ReadClosed.reaches (h : g.ReadClosed ks) (ha : a ∈ ks) (hab : ReflTransGen g.Reads a b) :
    b ∈ ks := by
  induction hab with
  | refl => exact ha
  | tail _ hread ih => exact h _ ih _ hread

theorem ReadClosed.transGen (h : g.ReadClosed ks) (ha : a ∈ ks) (hab : TransGen g.Reads a b) :
    TransGen (g.ReadsAmong ks) a b := by
  induction hab with
  | single hread => exact .single ⟨hread, ha, h _ ha _ hread⟩
  | @tail b c hab hread ih =>
    have hb : b ∈ ks := h.reaches ha hab.to_reflTransGen
    exact ih.tail ⟨hread, hb, h b hb c hread⟩

/-- From a key of a closed set only keys of the set can be reached, so a cycle that one of them
reaches lies in it. -/
theorem ReadClosed.cyclicAmong_iff (h : g.ReadClosed ks) :
    g.CyclicAmong ks ↔ ∃ k ∈ ks, g.Cyclic k := by
  constructor
  · rintro ⟨k, hcycle⟩
    obtain ⟨d, ⟨-, hk, -⟩, -⟩ := TransGen.head'_iff.mp hcycle
    exact ⟨k, hk, k, .refl, hcycle.lift id fun _ _ hread => hread.1⟩
  · rintro ⟨k, hk, c, hkc, hcycle⟩
    exact ⟨c, h.transGen (h.reaches hk hkc) hcycle⟩

theorem readClosed_keys_built (ops : List Operation) : (built ops).ReadClosed (built ops).keys :=
  fun _ _ _ hread => mem_keys_iff.mpr (contains_of_reads ops hread).2

/-- Of a graph that was built, the keys of a closed set can be put into an order exactly if the
search finds a cycle from none of them. -/
theorem ReadClosed.topologicalOrder?_eq_none_iff {ops : List Operation}
    (h : (built ops).ReadClosed ks) :
    (built ops).topologicalOrder? ks = none ↔ ∃ k ∈ ks, (built ops).hasCycle k = true := by
  simp only [Graph.topologicalOrder?_eq_none_iff (linked_built ops), h.cyclicAmong_iff, hasCycle_iff]

/-- Counting down what each key waits for and searching along the links find the same cycles. -/
theorem order_missing_iff_hasCycle (ops : List Operation) :
    (∀ ks : List String, (∀ a ∈ ks, ∀ b ∈ (built ops).dependencies a, b ∈ ks) →
        ((built ops).topologicalOrder? ks = none ↔ ∃ k ∈ ks, (built ops).hasCycle k = true)) ∧
      ((built ops).topologicalOrder? (built ops).keys = none ↔ (built ops).cyclic ≠ []) := by
  refine ⟨fun ks hclosed => ReadClosed.topologicalOrder?_eq_none_iff hclosed, ?_⟩
  rw [(readClosed_keys_built ops).topologicalOrder?_eq_none_iff, cyclic, ne_eq,
    List.filter_eq_nil_iff]
  push Not
  rfl

/-- `A` and `B` read each other and `C` reads `A`, so that the three have no order; `D`, which is
unknown, has one. -/
theorem order_missing_of_pair :
    (built [.update "A" ["B"], .update "B" ["A"], .update "C" ["A"]]).topologicalOrder?
        ["C", "B", "A"] = none ∧
      (built [.update "A" ["B"], .update "B" ["A"], .update "C" ["A"]]).topologicalOrder?
        ["D"] ≠ none := by
  obtain ⟨hiff, -⟩ :=
    order_missing_iff_hasCycle [.update "A" ["B"], .update "B" ["A"], .update "C" ["A"]]
  constructor
  · exact (hiff ["C", "B", "A"] (by decide +kernel)).mpr ⟨"C", by decide, by decide +kernel⟩
  · intro hnone
    obtain ⟨k, hk, hcycle⟩ := (hiff ["D"] (by decide +kernel)).mp hnone
    rw [List.mem_singleton.mp hk] at hcycle
    revert hcycle
    decide +kernel

end Closed

end Gridcalc.Graph
