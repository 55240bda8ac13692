import Gridcalc.Proofs.Graph.Affected
import Mathlib.Data.List.Perm.Subperm

/-! # The order of recalculation

An order that is found holds every key once, each after its dependencies among them. The counts
of the waiting keys are the dependencies that are not done yet; they fall by way of the
dependents, so that the two directions of the links have to agree.
-/

namespace Gridcalc.Graph

variable {g : Graph} {ks order done ready : List String} {members : Std.TreeSet String}
  {waiting : Waiting} {k d x : String}

theorem getElem?_settle (k x : String) (ws : Waiting) :
    (settle k ws).2[x]? =
      if x = k then ws[x]?.bind fun n => if n ≤ 1 then none else some (n - 1) else ws[x]? := by
  unfold settle
  split
  · rename_i h
    by_cases hx : x = k
    · subst hx
      simp [h]
    · simp [hx]
  · rename_i n h
    by_cases hx : x = k
    · subst hx
      rw [if_pos rfl, h]
      by_cases hn : n ≤ 1
      · simp [hn]
      · simp [hn]
    · have hkx : ¬ k = x := fun e => hx e.symm
      by_cases hn : n ≤ 1
      · simp [hn, hx, Std.TreeMap.getElem?_erase, hkx]
      · simp [hn, hx, Std.TreeMap.getElem?_insert, hkx]

theorem settle_fst_iff (k : String) (ws : Waiting) :
    (settle k ws).1 = true ↔ ∃ n, ws[k]? = some n ∧ n ≤ 1 := by
  unfold settle
  split
  · rename_i h
    simp [h]
  · rename_i n h
    by_cases hn : n ≤ 1
    · simp [h, hn]
    · simp [h, hn]

theorem getElem?_release (hks : ks.Nodup) (x : String) (ws : Waiting) :
    (release ks ws).2[x]? =
      if x ∈ ks then ws[x]?.bind fun n => if n ≤ 1 then none else some (n - 1) else ws[x]? := by
  induction ks generalizing ws with
  | nil => simp [release]
  | cons k ks ih =>
    obtain ⟨hk, hks⟩ := List.nodup_cons.mp hks
    rw [release, ih hks, getElem?_settle]
    by_cases hx : x = k
    · subst hx
      simp [hk]
    · simp [hx]

theorem mem_release_iff (hks : ks.Nodup) (x : String) (ws : Waiting) :
    x ∈ (release ks ws).1 ↔ x ∈ ks ∧ ∃ n, ws[x]? = some n ∧ n ≤ 1 := by
  induction ks generalizing ws with
  | nil => simp [release]
  | cons k ks ih =>
    obtain ⟨hk, hks⟩ := List.nodup_cons.mp hks
    have hfree := settle_fst_iff k ws
    have hrest : x ∈ (release ks (settle k ws).2).1 ↔
        x ≠ k ∧ x ∈ ks ∧ ∃ n, ws[x]? = some n ∧ n ≤ 1 := by
      rw [ih hks, getElem?_settle]
      by_cases hx : x = k
      · simp [hx, hk]
      · simp [hx]
    rw [release]
    by_cases hx : x = k
    · subst hx
      by_cases hf : (settle x ws).1 = true
      · simp [hf, hfree.mp hf]
      · have hn := fun h => hf (hfree.mpr h)
        simpa [hf, hrest] using hn
    · by_cases hf : (settle k ws).1 = true
      · simp [hf, hrest, hx]
      · simp [hf, hrest, hx]

theorem nodup_release (hks : ks.Nodup) (ws : Waiting) : (release ks ws).1.Nodup := by
  induction ks generalizing ws with
  | nil => exact List.nodup_nil
  | cons k ks ih =>
    obtain ⟨hk, hks⟩ := List.nodup_cons.mp hks
    rw [release]
    by_cases hf : (settle k ws).1 = true
    · simp only [hf, if_true]
      exact List.nodup_cons.mpr
        ⟨fun hm => hk ((mem_release_iff hks k _).mp hm).1, ih hks (settle k ws).2⟩
    · simp only [hf, Bool.false_eq_true, if_false]
      exact ih hks (settle k ws).2

/-- The dependencies of `x` among the members that are not done. -/
def outstanding (g : Graph) (members : Std.TreeSet String) (done : List String) (x : String) :
    List String :=
  (g.dependencies x).toList.filter fun d => members.contains d && !done.contains d

theorem mem_outstanding_iff :
    d ∈ outstanding g members done x ↔ g.Reads x d ∧ d ∈ members ∧ d ∉ done := by
  simp [outstanding, Reads, KeySet.mem_def]

theorem length_outstanding_cons (hk : k ∈ members) (hdone : k ∉ done) :
    (outstanding g members (k :: done) x).length =
      (outstanding g members done x).length - if g.Reads x k then 1 else 0 := by
  have hsplit : outstanding g members (k :: done) x = (outstanding g members done x).erase k := by
    have hnodup : (outstanding g members done x).Nodup := (g.dependencies x).nodup.filter _
    rw [hnodup.erase_eq_filter, outstanding, outstanding, List.filter_filter]
    refine List.filter_congr fun d _ => ?_
    by_cases hd : d = k <;> simp [hd]
  rw [hsplit, List.length_erase]
  by_cases hr : g.Reads x k
  · rw [if_pos (mem_outstanding_iff.mpr ⟨hr, hk, hdone⟩), if_pos hr]
  · rw [if_neg fun hm => hr (mem_outstanding_iff.mp hm).1, if_neg hr, Nat.sub_zero]

/-- What the removal of ready keys keeps. -/
structure Draining (g : Graph) (members : Std.TreeSet String) (done ready : List String)
    (waiting : Waiting) : Prop where
  nodup : ready.Nodup
  ready_mem : ∀ x ∈ ready, x ∈ members ∧ x ∉ done ∧ x ∉ waiting
  ready_free : ∀ x ∈ ready, outstanding g members done x = []
  waiting_mem : ∀ x ∈ waiting, x ∈ members ∧ x ∉ done
  count : ∀ x n, waiting[x]? = some n → n = (outstanding g members done x).length ∧ n ≠ 0

/-- The first ready key is taken; whoever waited for it alone becomes ready. -/
theorem Draining.step (hg : g.Linked) (h : Draining g members done (k :: ready) waiting) :
    Draining g members (k :: done) (ready ++ (release (g.dependents k).toList waiting).1)
      (release (g.dependents k).toList waiting).2 := by
  obtain ⟨hkm, hkd, hkw⟩ := h.ready_mem k List.mem_cons_self
  obtain ⟨hkr, hready⟩ := List.nodup_cons.mp h.nodup
  have hnodup : (g.dependents k).toList.Nodup := (g.dependents k).nodup
  have hread (x : String) : x ∈ (g.dependents k).toList ↔ g.Reads x k := (hg x k).symm
  have hfreed (x : String) : x ∈ (release (g.dependents k).toList waiting).1 ↔
      g.Reads x k ∧ ∃ n, waiting[x]? = some n ∧ n ≤ 1 := by
    rw [mem_release_iff hnodup, hread]
  have hleft (x : String) : (release (g.dependents k).toList waiting).2[x]? =
      if g.Reads x k then waiting[x]?.bind fun n => if n ≤ 1 then none else some (n - 1)
      else waiting[x]? := by
    rw [getElem?_release hnodup]
    simp only [hread]
  have hlength (x : String) := length_outstanding_cons (g := g) (x := x) hkm hkd
  have hwaiting {x : String} {n : Nat} (hx : waiting[x]? = some n) : x ∈ waiting :=
    mem_iff_exists_getElem?.mpr ⟨n, hx⟩
  have hstay {x : String} {n : Nat}
      (hx : (release (g.dependents k).toList waiting).2[x]? = some n) :
      ∃ m, waiting[x]? = some m ∧ ((g.Reads x k ∧ 1 < m ∧ n = m - 1) ∨ (¬ g.Reads x k ∧ n = m)) := by
    rw [hleft] at hx
    split at hx
    · rename_i hr
      obtain ⟨m, hm, hx⟩ := Option.bind_eq_some_iff.mp hx
      split at hx
      · cases hx
      · rename_i hm1
        cases hx
        exact ⟨m, hm, .inl ⟨hr, by omega, rfl⟩⟩
    · rename_i hr
      exact ⟨n, hx, .inr ⟨hr, rfl⟩⟩
  constructor
  case nodup =>
    refine List.nodup_append.mpr ⟨hready, nodup_release hnodup waiting, ?_⟩
    rintro x hx _ hx' rfl
    obtain ⟨_, n, hn, _⟩ := (hfreed x).mp hx'
    exact (h.ready_mem x (List.mem_cons_of_mem k hx)).2.2 (hwaiting hn)
  case ready_mem =>
    intro x hx
    rcases List.mem_append.mp hx with hx' | hx'
    · obtain ⟨hm, hd, hw⟩ := h.ready_mem x (List.mem_cons_of_mem k hx')
      refine ⟨hm, ?_, ?_⟩
      · rw [List.mem_cons]
        rintro (rfl | hxd)
        · exact hkr hx'
        · exact hd hxd
      · intro hw'
        obtain ⟨n, hn⟩ := mem_iff_exists_getElem?.mp hw'
        obtain ⟨m, hm, _⟩ := hstay hn
        exact hw (hwaiting hm)
    · obtain ⟨hr, n, hn, hn1⟩ := (hfreed x).mp hx'
      obtain ⟨hm, hd⟩ := h.waiting_mem x (hwaiting hn)
      refine ⟨hm, ?_, ?_⟩
      · rw [List.mem_cons]
        rintro (rfl | hxd)
        · exact hkw (hwaiting hn)
        · exact hd hxd
      · intro hw'
        obtain ⟨n', hn'⟩ := mem_iff_exists_getElem?.mp hw'
        obtain ⟨m, hm, ⟨_, hm1, _⟩ | ⟨hr', _⟩⟩ := hstay hn'
        · rw [hn] at hm
          cases hm
          omega
        · exact hr' hr
  case ready_free =>
    intro x hx
    apply List.eq_nil_of_length_eq_zero
    rw [hlength]
    rcases List.mem_append.mp hx with hx | hx
    · rw [h.ready_free x (List.mem_cons_of_mem k hx), List.length_nil, Nat.zero_sub]
    · obtain ⟨hr, n, hn, hn1⟩ := (hfreed x).mp hx
      rw [← (h.count x n hn).1, if_pos hr]
      omega
  case waiting_mem =>
    intro x hx
    obtain ⟨n, hn⟩ := mem_iff_exists_getElem?.mp hx
    obtain ⟨m, hm, _⟩ := hstay hn
    obtain ⟨hxm, hxd⟩ := h.waiting_mem x (hwaiting hm)
    refine ⟨hxm, ?_⟩
    rw [List.mem_cons]
    rintro (rfl | hxd')
    · exact hkw (hwaiting hm)
    · exact hxd hxd'
  case count =>
    intro x n hx
    obtain ⟨m, hm, ⟨hr, hm1, rfl⟩ | ⟨hr, rfl⟩⟩ := hstay hx
    · rw [hlength, ← (h.count x m hm).1, if_pos hr]
      omega
    · rw [hlength, ← (h.count x n hm).1, if_neg hr]
      exact ⟨rfl, (h.count x n hm).2⟩

/-- What has been drained: members that were not done, without repetition, each after its
dependencies. -/
structure Drained (g : Graph) (members : Std.TreeSet String) (done order : List String) : Prop where
  nodup : order.Nodup
  mem : ∀ x ∈ order, x ∈ members ∧ x ∉ done
  precede : ∀ pre x post, order = pre ++ x :: post → ∀ d, g.Reads x d → d ∈ members →
    d ∈ done ∨ d ∈ pre

theorem Draining.drained (hg : g.Linked) (h : Draining g members done ready waiting) :
    Drained g members done (drain (fun k => (g.dependents k).toList) ready waiting) := by
  fun_induction drain (fun k => (g.dependents k).toList) ready waiting generalizing done with
  | case1 waiting =>
    exact ⟨List.nodup_nil, by simp, by simp⟩
  | case2 waiting k ready freed =>
    rename_i ih
    have hrest := ih (h.step hg)
    constructor
    case nodup =>
      refine List.nodup_cons.mpr ⟨fun hk => ?_, hrest.nodup⟩
      exact (hrest.mem k hk).2 List.mem_cons_self
    case mem =>
      intro x hx
      rcases List.mem_cons.mp hx with rfl | hx
      · obtain ⟨hm, hd, _⟩ := h.ready_mem x List.mem_cons_self
        exact ⟨hm, hd⟩
      · obtain ⟨hm, hd⟩ := hrest.mem x hx
        exact ⟨hm, fun hxd => hd (List.mem_cons_of_mem k hxd)⟩
    case precede =>
      intro pre x post hsplit d hxd hd
      cases pre with
      | nil =>
        -- the first key of the order had nothing outstanding
        rw [List.nil_append, List.cons.injEq] at hsplit
        obtain ⟨rfl, _⟩ := hsplit
        have hfree := h.ready_free k List.mem_cons_self
        by_cases hdone : d ∈ done
        · exact .inl hdone
        · exact absurd (mem_outstanding_iff.mpr ⟨hxd, hd, hdone⟩) (hfree ▸ List.not_mem_nil)
      | cons p pre =>
        rw [List.cons_append, List.cons.injEq] at hsplit
        obtain ⟨rfl, hsplit⟩ := hsplit
        rcases hrest.precede pre x post hsplit d hxd hd with hdk | hdp
        · rcases List.mem_cons.mp hdk with rfl | hdone
          · exact .inr List.mem_cons_self
          · exact .inl hdone
        · exact .inr (List.mem_cons_of_mem _ hdp)

theorem getElem?_ofList_map_iff {keys : List String} (hkeys : keys.Nodup) (f : String → Nat)
    (p : String → Bool) (n : Nat) :
    (Std.TreeMap.ofList ((keys.filter p).map fun k => (k, f k)) : Waiting)[x]? = some n ↔
      x ∈ keys ∧ p x = true ∧ n = f x := by
  have hdistinct : ((keys.filter p).map fun k => (k, f k)).Pairwise
      fun a b => ¬ compare a.1 b.1 = .eq := by
    rw [List.pairwise_map]
    exact (hkeys.filter p).imp fun hne e => hne (Std.LawfulEqOrd.eq_of_compare e)
  by_cases hx : x ∈ keys.filter p
  · have hmem : (x, f x) ∈ (keys.filter p).map fun k => (k, f k) :=
      List.mem_map_of_mem hx
    rw [Std.TreeMap.getElem?_ofList_of_mem Std.ReflOrd.compare_self hdistinct hmem]
    obtain ⟨hk, hp⟩ := List.mem_filter.mp hx
    simp [hk, hp, eq_comm]
  · have hout : (((keys.filter p).map fun k => (k, f k)).map Prod.fst).contains x = false := by
      simpa [List.map_map, Function.comp_def] using hx
    rw [Std.TreeMap.getElem?_ofList_of_contains_eq_false hout]
    have hne : ¬ (x ∈ keys ∧ p x = true) := fun h => hx (List.mem_filter.mpr h)
    simp only [reduceCtorEq, false_iff]
    exact fun ⟨hk, hp, _⟩ => hne ⟨hk, hp⟩

theorem draining_start (g : Graph) (members : Std.TreeSet String) :
    let degree (k : String) : Nat := ((g.dependencies k).toList.filter members.contains).length
    let degrees := members.toList.map fun k => (k, degree k)
    Draining g members [] ((degrees.filter (·.2 == 0)).map (·.1))
      (.ofList (degrees.filter (·.2 != 0))) := by
  intro degree degrees
  have hdegree (x : String) : (outstanding g members [] x).length = degree x := by
    simp [outstanding, degree]
  have hkeys : members.toList.Nodup := Std.TreeSet.distinct_toList.imp fun h e => h (by simp [e])
  have hready : (degrees.filter (·.2 == 0)).map (·.1) =
      members.toList.filter fun k => degree k == 0 := by
    simp [degrees, List.filter_map, List.map_map, Function.comp_def]
  have hwaiting : degrees.filter (·.2 != 0) =
      (members.toList.filter fun k => degree k != 0).map fun k => (k, degree k) := by
    simp [degrees, List.filter_map, Function.comp_def]
  rw [hready, hwaiting]
  have hget (x : String) (n : Nat) := getElem?_ofList_map_iff (x := x) hkeys degree
    (fun k => degree k != 0) n
  constructor
  case nodup => exact hkeys.filter _
  case ready_mem =>
    intro x hx
    obtain ⟨hm, hx⟩ := List.mem_filter.mp hx
    refine ⟨Std.TreeSet.mem_toList.mp hm, List.not_mem_nil, fun hw => ?_⟩
    obtain ⟨n, hn⟩ := mem_iff_exists_getElem?.mp hw
    obtain ⟨_, hne, _⟩ := (hget x n).mp hn
    simp_all
  case ready_free =>
    intro x hx
    apply List.eq_nil_of_length_eq_zero
    rw [hdegree]
    exact beq_iff_eq.mp (List.mem_filter.mp hx).2
  case waiting_mem =>
    intro x hx
    obtain ⟨n, hn⟩ := mem_iff_exists_getElem?.mp hx
    exact ⟨Std.TreeSet.mem_toList.mp ((hget x n).mp hn).1, List.not_mem_nil⟩
  case count =>
    intro x n hx
    obtain ⟨_, hne, rfl⟩ := (hget x n).mp hx
    exact ⟨(hdegree x).symm, bne_iff_ne.mp hne⟩

/-- Each key of an order comes after its dependencies among the keys. -/
structure Ordered (g : Graph) (ks order : List String) : Prop where
  nodup : order.Nodup
  mem_iff : ∀ x, x ∈ order ↔ x ∈ ks
  precede : ∀ pre x post, order = pre ++ x :: post → ∀ d, g.Reads x d → d ∈ ks → d ∈ pre

theorem ordered_of_topologicalOrder? (hg : g.Linked) (h : g.topologicalOrder? ks = some order) :
    Ordered g ks order := by
  have hdrained := (draining_start g (.ofList ks)).drained hg
  rw [topologicalOrder?] at h
  simp only at h
  split at h
  · rename_i hsize
    rw [Option.some.injEq] at h
    rw [h] at hdrained hsize
    have hmem (x : String) : x ∈ Std.TreeSet.ofList ks ↔ x ∈ ks := by simp
    have hsub : order ⊆ (Std.TreeSet.ofList ks).toList := fun x hx =>
      Std.TreeSet.mem_toList.mpr (hdrained.mem x hx).1
    -- as many keys as members, none of them twice, are all members
    have hperm := (hdrained.nodup.subperm hsub).perm_of_length_le
      (by rw [hsize, Std.TreeSet.length_toList])
    constructor
    case nodup => exact hdrained.nodup
    case mem_iff =>
      intro x
      rw [hperm.mem_iff, Std.TreeSet.mem_toList, hmem]
    case precede =>
      intro pre x post hsplit d hxd hd
      rcases hdrained.precede pre x post hsplit d hxd ((hmem d).mpr hd) with hnil | hpre
      · exact absurd hnil List.not_mem_nil
      · exact hpre
  · cases h

theorem recalculationOrder_of_topologicalOrder? {changed : List String}
    (h : g.topologicalOrder? (g.affectedByAny changed).toList = some order) :
    g.recalculationOrder changed = order := by
  rw [recalculationOrder]
  simp only [h, Option.getD_some]

/-- What is computed anew is all that is affected, each key once. -/
theorem nodup_recalculationOrder (hg : g.Linked) (changed : List String) :
    (g.recalculationOrder changed).Nodup := by
  rw [recalculationOrder]
  cases h : g.topologicalOrder? (g.affectedByAny changed).toList with
  | none => exact (g.affectedByAny changed).nodup
  | some order => exact (ordered_of_topologicalOrder? hg h).nodup

theorem mem_recalculationOrder_iff (hg : g.Linked) {changed : List String} :
    x ∈ g.recalculationOrder changed ↔ ∃ k ∈ changed, Relation.TransGen g.Reads x k := by
  rw [← mem_affectedByAny_iff hg, KeySet.mem_def, recalculationOrder]
  cases h : g.topologicalOrder? (g.affectedByAny changed).toList with
  | none => rfl
  | some order => exact (ordered_of_topologicalOrder? hg h).mem_iff x

/-- All that depends on one key is computed anew, each once. -/
theorem perm_recalculationOrder (hg : g.Linked) (k : String) :
    (g.recalculationOrder [k]).Perm (g.affected k).toList := by
  rw [List.perm_ext_iff_of_nodup (nodup_recalculationOrder hg [k]) (g.affected k).nodup]
  intro x
  rw [mem_recalculationOrder_iff hg, ← KeySet.mem_def, mem_affected_iff hg]
  simp only [List.mem_singleton, exists_eq_left]

end Gridcalc.Graph
