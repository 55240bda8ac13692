import Gridcalc.Graph.Search
import Gridcalc.Proofs.Graph.Links
import Mathlib.Data.Fintype.EquivFin
import Mathlib.Data.List.Chain
import Mathlib.Data.List.DropRight
import Mathlib.Data.List.TakeWhile

/-! # Cycles

The search for a link back to its own path finds one exactly when a cycle can be reached. The
keys that the search is done with are closed under dependencies and lie on no cycle; those on the
path form a chain of links. Nothing is assumed of the graph: a key that it does not know reads
nothing.
-/

namespace Gridcalc.Graph

open Relation

variable {g g' : Graph} {k d x y root : String}

def Cyclic (g : Graph) (k : String) : Prop :=
  ∃ c, ReflTransGen g.Reads k c ∧ TransGen g.Reads c c

theorem Cyclic.of_reaches (h : ReflTransGen g.Reads k x) (hx : g.Cyclic x) : g.Cyclic k := by
  obtain ⟨c, hxc, hc⟩ := hx
  exact ⟨c, h.trans hxc, hc⟩

theorem not_cyclic_of_closed {done : String → Prop}
    (closed : ∀ x y, done x → g.Reads x y → done y)
    (acyclic : ∀ x, done x → ¬ TransGen g.Reads x x) (hk : done k) : ¬ g.Cyclic k := by
  rintro ⟨c, hkc, hc⟩
  have hdone : done c := by
    clear hc
    induction hkc with
    | refl => exact hk
    | tail _ hyz ih => exact closed _ _ ih hyz
  exact acyclic c hdone hc

/-- Among finitely many keys, going on and on from one to another comes to a cycle. -/
theorem exists_cycle_of_going_on {keys : List String} {p : String → Prop}
    {r : String → String → Prop} (hkeys : ∀ k, p k → k ∈ keys)
    (hnext : ∀ k, p k → ∃ x, p x ∧ TransGen r k x) (hk : p k) :
    ∃ c, ReflTransGen r k c ∧ TransGen r c c := by
  by_contra hnone
  let ahead := { x // p x ∧ ReflTransGen r k x }
  let listed (x : ahead) : { x // x ∈ keys } := ⟨x.1, hkeys x.1 x.2.1⟩
  have hinjective : Function.Injective listed := by
    intro x y hxy
    have hval : (listed x).1 = (listed y).1 := by rw [hxy]
    exact Subtype.ext hval
  have hfinite : Finite ahead := Finite.of_injective listed hinjective
  let after (x y : ahead) : Prop := TransGen r y.1 x.1
  have htrans : IsTrans ahead after := ⟨fun _ _ _ hxy hyz => hyz.trans hxy⟩
  have hirrefl : Std.Irrefl after := ⟨fun x hx => hnone ⟨x.1, x.2.2, hx⟩⟩
  have hwf := Finite.wellFounded_of_trans_of_irrefl after
  refine hwf.induction (C := fun _ => False) ⟨k, hk, .refl⟩ fun last hlast => ?_
  obtain ⟨x, hx, hreach⟩ := hnext last.1 last.2.1
  exact hlast ⟨x, hx, last.2.2.trans hreach.to_reflTransGen⟩ hreach

theorem reaches_of_dependencies_eq
    (h : ∀ x, ReflTransGen g.Reads k x → g.dependencies x = g'.dependencies x)
    (hx : ReflTransGen g.Reads k x) : ReflTransGen g'.Reads k x := by
  induction hx with
  | refl => exact .refl
  | @tail y z hky hyz ih =>
    have hyz' : g'.Reads y z := by
      rw [Reads, ← h y hky]
      exact hyz
    exact ih.tail hyz'

theorem reaches_iff_of_dependencies_eq
    (h : ∀ x, ReflTransGen g.Reads k x → g.dependencies x = g'.dependencies x) :
    ReflTransGen g.Reads k x ↔ ReflTransGen g'.Reads k x := by
  constructor
  · exact reaches_of_dependencies_eq h
  · intro hx
    induction hx with
    | refl => exact .refl
    | @tail y z _ hyz ih =>
      have hyz' : g.Reads y z := by
        rw [Reads, h y ih]
        exact hyz
      exact ih.tail hyz'

theorem transGen_of_dependencies_eq
    (h : ∀ x, ReflTransGen g.Reads k x → g.dependencies x = g'.dependencies x)
    (hx : TransGen g.Reads k x) : TransGen g'.Reads k x := by
  obtain ⟨y, hky, hyx⟩ := TransGen.tail'_iff.mp hx
  have hyx' : g'.Reads y x := by
    rw [Reads, ← h y hky]
    exact hyx
  exact TransGen.tail' (reaches_of_dependencies_eq h hky) hyx'

/-- Whether a cycle can be reached is settled by the dependencies of what can be reached. -/
theorem cyclic_iff_of_dependencies_eq
    (h : ∀ x, ReflTransGen g.Reads k x → g.dependencies x = g'.dependencies x) :
    g.Cyclic k ↔ g'.Cyclic k := by
  have h' (x : String) (hx : ReflTransGen g'.Reads k x) : g'.dependencies x = g.dependencies x :=
    (h x ((reaches_iff_of_dependencies_eq h).mpr hx)).symm
  constructor
  · rintro ⟨c, hkc, hc⟩
    exact ⟨c, reaches_of_dependencies_eq h hkc,
      transGen_of_dependencies_eq (fun x hx => h x (hkc.trans hx)) hc⟩
  · rintro ⟨c, hkc, hc⟩
    exact ⟨c, reaches_of_dependencies_eq h' hkc,
      transGen_of_dependencies_eq (fun x hx => h' x (hkc.trans hx)) hc⟩

/-- A chain of links, innermost first, leads from each of its keys to its head. -/
theorem reaches_head {ks : List String} (h : (k :: ks).IsChain fun b a => g.Reads a b)
    (hx : x ∈ k :: ks) : ReflTransGen g.Reads x k := by
  induction ks generalizing k with
  | nil =>
    rw [List.mem_singleton] at hx
    rw [hx]
  | cons a ks ih =>
    obtain ⟨hak, ha⟩ := List.isChain_cons_cons.mp h
    rcases List.mem_cons.mp hx with rfl | hx
    · exact .refl
    · exact (ih ha hx).tail hak

/-- A walk along the links that begins at `k`, comes to no key twice, and at last to one of its
own. -/
structure Lasso (g : Graph) (k : String) (keys : List String) : Prop where
  start : keys.head? = some k
  links : keys.IsChain g.Reads
  distinct : keys.dropLast.Nodup
  back : ∃ d ∈ keys.dropLast, keys.getLast? = some d

/-- Neither waiting to be visited nor on the path of the search. -/
def Done (fresh : Fresh) (active : Std.TreeSet String) (x : String) : Prop :=
  x ∉ fresh ∧ x ∉ active

/-- Of each frame, every dependency is still pending, or done, or on the path just inside. -/
def Followed (g : Graph) (done : String → Prop) : Option String → List Frame → Prop
  | _, [] => True
  | inner, f :: outer =>
    (∀ y, g.Reads f.key y → y ∈ f.pending ∨ done y ∨ some y = inner) ∧
      Followed g done (some f.key) outer

theorem Followed.imp {done done' : String → Prop} (h : ∀ x, done x → done' x)
    {inner : Option String} {frames : List Frame} (hf : Followed g done inner frames) :
    Followed g done' inner frames := by
  induction frames generalizing inner with
  | nil => trivial
  | cons f outer ih =>
    refine ⟨fun y hy => ?_, ih hf.2⟩
    rcases hf.1 y hy with hp | hd | hi
    · exact .inl hp
    · exact .inr (.inl (h y hd))
    · exact .inr (.inr hi)

/-- What the search from `root` keeps. -/
structure Searching (g : Graph) (root : String) (fresh : Fresh) (active : Std.TreeSet String)
    (frames : List Frame) : Prop where
  known : ∀ x n, fresh[x]? = some n → g.node? x = some n
  active_iff : ∀ x, x ∈ active ↔ x ∈ frames.map Frame.key
  visited : ∀ x, x ∈ active → x ∉ fresh
  nodup : (frames.map Frame.key).Nodup
  chain : (frames.map Frame.key).IsChain fun b a => g.Reads a b
  start : (frames.map Frame.key).getLast? = some root ∨ (frames = [] ∧ Done fresh active root)
  pending : ∀ f ∈ frames, ∀ y ∈ f.pending, g.Reads f.key y
  followed : Followed g (Done fresh active) none frames
  closed : ∀ x y, Done fresh active x → g.Reads x y → Done fresh active y
  acyclic : ∀ x, Done fresh active x → ¬ TransGen g.Reads x x

namespace Searching

variable {fresh : Fresh} {active : Std.TreeSet String} {frames outer : List Frame}
  {pending ds : List String} {n : Node}

theorem reaches (h : Searching g root fresh active frames) (hx : x ∈ frames.map Frame.key) :
    ReflTransGen g.Reads root x := by
  have hchain := h.chain
  have hlast : (frames.map Frame.key).getLast? = some root := by
    rcases h.start with hl | ⟨hnil, _⟩
    · exact hl
    · rw [hnil] at hx
      exact absurd hx List.not_mem_nil
  generalize frames.map Frame.key = ks at hx hchain hlast
  induction ks with
  | nil => exact absurd hx List.not_mem_nil
  | cons a ks ih =>
    have hroot := reaches_head hchain (List.mem_of_getLast? hlast)
    rcases List.mem_cons.mp hx with rfl | hx
    · exact hroot
    · cases ks with
      | nil => exact absurd hx List.not_mem_nil
      | cons b ks =>
        exact ih hx (List.isChain_cons_cons.mp hchain).2 (by rwa [List.getLast?_cons_cons] at hlast)

theorem start_of_ne_nil (h : Searching g root fresh active frames) (hne : frames ≠ []) :
    (frames.map Frame.key).getLast? = some root := by
  rcases h.start with hl | ⟨hnil, _⟩
  · exact hl
  · exact absurd hnil hne

theorem leave (h : Searching g root fresh active (⟨k, pending⟩ :: outer))
    (hp : ∀ y ∈ pending, Done fresh active y) :
    Searching g root fresh (active.erase k) outer := by
  have hk : k ∈ active := (h.active_iff k).mpr List.mem_cons_self
  have hnodup := List.nodup_cons.mp h.nodup
  have hdeps : ∀ y, g.Reads k y → Done fresh active y := by
    intro y hy
    rcases h.followed.1 y hy with hm | hd | hi
    · exact hp y hm
    · exact hd
    · cases hi
  have hdone : ∀ x, Done fresh (active.erase k) x ↔ Done fresh active x ∨ x = k := by
    intro x
    have hf := h.visited k hk
    simp only [Done, Std.TreeSet.mem_erase]
    grind
  constructor
  case known => exact h.known
  case active_iff =>
    intro x
    have hx := h.active_iff x
    rw [List.map_cons, List.mem_cons] at hx
    have hne : x ∈ outer.map Frame.key → x ≠ k := fun hm e => hnodup.1 (e ▸ hm)
    simp only [Std.TreeSet.mem_erase]
    grind
  case visited =>
    intro x hx
    exact h.visited x (Std.TreeSet.mem_of_mem_erase hx)
  case nodup => exact hnodup.2
  case chain => exact h.chain.tail
  case start =>
    have hl := h.start_of_ne_nil (List.cons_ne_nil _ _)
    cases outer with
    | nil =>
      have hroot : k = root := by simpa using hl
      exact .inr ⟨rfl, (hdone root).mpr (.inr hroot.symm)⟩
    | cons f outer => exact .inl (by rwa [List.map_cons, List.map_cons, List.getLast?_cons_cons] at hl)
  case pending => exact fun f hf => h.pending f (List.mem_cons_of_mem _ hf)
  case followed =>
    have hf := h.followed.2.imp fun x hx => (hdone x).mpr (.inl hx)
    cases outer with
    | nil => trivial
    | cons f outer =>
      refine ⟨fun y hy => ?_, hf.2⟩
      rcases hf.1 y hy with hm | hd | hi
      · exact .inl hm
      · exact .inr (.inl hd)
      · exact .inr (.inl ((hdone y).mpr (.inr (Option.some.inj hi))))
  case closed =>
    intro x y hx hxy
    rcases (hdone x).mp hx with hd | rfl
    · exact (hdone y).mpr (.inl (h.closed x y hd hxy))
    · exact (hdone y).mpr (.inl (hdeps y hxy))
  case acyclic =>
    intro x hx hcycle
    rcases (hdone x).mp hx with hd | rfl
    · exact h.acyclic x hd hcycle
    · -- a cycle through `x` would have to come back to it through keys that are done
      obtain ⟨y, hxy, hyx⟩ := TransGen.head'_iff.mp hcycle
      have hback : ∀ z, ReflTransGen g.Reads y z → Done fresh active z := by
        intro z hz
        induction hz with
        | refl => exact hdeps y hxy
        | tail _ hzw ih => exact h.closed _ _ ih hzw
      exact (hback x hyx).2 hk

/-- A dependency that was not visited yet becomes the innermost key of the path. -/
theorem enter (h : Searching g root fresh active (⟨k, pending⟩ :: outer))
    (hp : ∀ y ∈ pending, y ∈ ds ∨ y = d ∨ Done fresh active y)
    (hds : ∀ y ∈ d :: ds, y ∈ pending) (hd : fresh[d]? = some n) :
    Searching g root (fresh.erase d) (active.insert d)
      (⟨d, n.dependencies.toList⟩ :: ⟨k, ds⟩ :: outer) := by
  have hfresh : d ∈ fresh := mem_iff_exists_getElem?.mpr ⟨n, hd⟩
  have hinactive : d ∉ active := fun ha => h.visited d ha hfresh
  have hn : g.dependencies d = n.dependencies := by
    rw [dependencies, h.known d n hd]
    rfl
  have hread : g.Reads k d :=
    h.pending _ List.mem_cons_self d (hds d List.mem_cons_self)
  have hdone : ∀ x, Done (fresh.erase d) (active.insert d) x ↔ Done fresh active x := by
    intro x
    simp only [Done, mem_erase_iff, Std.TreeSet.mem_insert, Std.LawfulEqOrd.compare_eq_iff_eq]
    grind
  constructor
  case known =>
    intro x m hx
    rw [getElem?_erase_eq_ite] at hx
    split at hx
    · cases hx
    · exact h.known x m hx
  case active_iff =>
    intro x
    have hx := h.active_iff x
    simp only [Std.TreeSet.mem_insert, Std.LawfulEqOrd.compare_eq_iff_eq, List.map_cons,
      List.mem_cons] at hx ⊢
    grind
  case visited =>
    intro x hx
    have hv := h.visited x
    simp only [mem_erase_iff, Std.TreeSet.mem_insert, Std.LawfulEqOrd.compare_eq_iff_eq] at hx ⊢
    grind
  case nodup =>
    refine List.nodup_cons.mpr ⟨fun hm => hinactive ((h.active_iff d).mpr hm), h.nodup⟩
  case chain => exact List.isChain_cons_cons.mpr ⟨hread, h.chain⟩
  case start =>
    have hl := h.start_of_ne_nil (List.cons_ne_nil _ _)
    exact .inl (by rwa [List.map_cons, List.map_cons, List.getLast?_cons_cons])
  case pending =>
    intro f hf y hy
    rcases List.mem_cons.mp hf with rfl | hf
    · rw [Reads, hn]
      exact hy
    rcases List.mem_cons.mp hf with rfl | hf
    · exact h.pending _ List.mem_cons_self y (hds y (List.mem_cons_of_mem d hy))
    · exact h.pending f (List.mem_cons_of_mem _ hf) y hy
  case followed =>
    have hf := h.followed.imp fun x hx => (hdone x).mpr hx
    refine ⟨fun y hy => .inl ?_, fun y hy => ?_, hf.2⟩
    · rw [Reads, hn] at hy
      exact hy
    · rcases hf.1 y hy with hm | hdy | hi
      · rcases hp y hm with hm | rfl | hdy
        · exact .inl hm
        · exact .inr (.inr rfl)
        · exact .inr (.inl ((hdone y).mpr hdy))
      · exact .inr (.inl hdy)
      · cases hi
  case closed =>
    intro x y hx hxy
    exact (hdone y).mpr (h.closed x y ((hdone x).mp hx) hxy)
  case acyclic => exact fun x hx => h.acyclic x ((hdone x).mp hx)

theorem cyclic_of_back (h : Searching g root fresh active (⟨k, pending⟩ :: outer))
    (hkd : g.Reads k d) (hd : d ∈ active) : g.Cyclic root := by
  have hm := (h.active_iff d).mp hd
  exact ⟨d, h.reaches hm, TransGen.tail' (reaches_head h.chain hm) hkd⟩

theorem lasso_of_back (h : Searching g root fresh active (⟨k, pending⟩ :: outer)) (ds : List String)
    (hkd : g.Reads k d) (hd : d ∈ active) :
    g.Lasso root (path (⟨k, ds⟩ :: outer) ++ [d]) := by
  have hpath : path (⟨k, ds⟩ :: outer) = (k :: outer.map Frame.key).reverse := rfl
  have hlast : (k :: outer.map Frame.key).getLast? = some root :=
    h.start_of_ne_nil (List.cons_ne_nil _ _)
  have hmem : d ∈ k :: outer.map Frame.key := (h.active_iff d).mp hd
  rw [hpath]
  constructor
  case start => rw [List.head?_append, List.head?_reverse, hlast, Option.some_or]
  case links =>
    rw [← List.reverse_cons, List.isChain_reverse]
    exact List.isChain_cons_cons.mpr ⟨hkd, h.chain⟩
  case distinct =>
    rw [List.dropLast_concat]
    exact List.nodup_reverse.mpr h.nodup
  case back =>
    rw [List.dropLast_concat, List.getLast?_concat]
    exact ⟨d, List.mem_reverse.mpr hmem, rfl⟩

theorem not_cyclic (h : Searching g root fresh active []) : ¬ g.Cyclic root := by
  rcases h.start with hl | ⟨_, hroot⟩
  · cases hl
  · exact not_cyclic_of_closed h.closed h.acyclic hroot

end Searching

theorem searching_start (g : Graph) (k : String) :
    Searching g k (g.nodes.erase k) (.ofList [k]) [⟨k, (g.dependencies k).toList⟩] := by
  have hunknown : ∀ x y, Done (g.nodes.erase k) (.ofList [k]) x → ¬ g.Reads x y := by
    intro x y hx hxy
    have hmem : x ∈ g.nodes := mem_iff_exists_getElem?.mpr (exists_node?_of_reads hxy)
    have hk : x ≠ k := by
      rintro rfl
      exact hx.2 (by simp)
    exact hx.1 (mem_erase_iff.mpr ⟨hk, hmem⟩)
  constructor
  case known =>
    intro x n hx
    rw [getElem?_erase_eq_ite] at hx
    split at hx
    · cases hx
    · exact hx
  case active_iff =>
    intro x
    simp only [Std.TreeSet.mem_ofList, List.contains_iff_mem, List.map_cons, List.map_nil]
  case visited => simp
  case nodup => simp
  case chain => simp
  case start => exact .inl rfl
  case pending => simp [Reads, KeySet.mem_def]
  case followed => exact ⟨fun y hy => .inl hy, trivial⟩
  case closed => exact fun x y hx hxy => absurd hxy (hunknown x y hx)
  case acyclic =>
    intro x hx hcycle
    obtain ⟨y, hxy, _⟩ := TransGen.head'_iff.mp hcycle
    exact hunknown x y hx hxy

theorem mem_of_dropWhile_eq_cons {p : String → Bool} {l ds : List String}
    (h : l.dropWhile p = d :: ds) :
    (∀ y ∈ l, y ∈ ds ∨ y = d ∨ p y = true) ∧ (∀ y ∈ d :: ds, y ∈ l) ∧ p d = false := by
  have hl : l = l.takeWhile p ++ d :: ds := by rw [← h, List.takeWhile_append_dropWhile]
  refine ⟨fun y hy => ?_, fun y hy => ?_, ?_⟩
  · rw [hl, List.mem_append, List.mem_cons] at hy
    rcases hy with ht | rfl | hd
    · exact .inr (.inr (List.mem_takeWhile_imp ht))
    · exact .inr (.inl rfl)
    · exact .inl hd
  · rw [hl]
    exact List.mem_append_right _ hy
  · have hd := List.head?_dropWhile_not p l
    rw [h] at hd
    simpa using hd

section Links

variable {fresh : Fresh} {active : Std.TreeSet String} {frames outer : List Frame}
  {pending ds : List String} {n : Node}

theorem passed_iff : (!active.contains d && !fresh.contains d) = true ↔ Done fresh active d := by
  rw [Bool.and_eq_true, Bool.not_eq_true', Bool.not_eq_true', ← Bool.not_eq_true,
    ← Bool.not_eq_true, Std.TreeSet.contains_iff_mem, Std.TreeMap.contains_iff_mem, and_comm]
  rfl

theorem backLink_dropWhile :
    backLink fresh active (⟨k, pending⟩ :: outer) =
      backLink fresh active
        (⟨k, pending.dropWhile fun d => !active.contains d && !fresh.contains d⟩ :: outer) := by
  conv_rhs => rw [backLink, List.dropWhile_idempotent]
  rw [backLink]

theorem backLink_leave :
    backLink fresh active (⟨k, []⟩ :: outer) = backLink fresh (active.erase k) outer := by
  rw [backLink, List.dropWhile_nil]

theorem backLink_pass (h : Done fresh active d) :
    backLink fresh active (⟨k, d :: ds⟩ :: outer) = backLink fresh active (⟨k, ds⟩ :: outer) := by
  rw [backLink_dropWhile, List.dropWhile_cons, if_pos (passed_iff.mpr h), ← backLink_dropWhile]

theorem backLink_back (h : d ∈ active) :
    backLink fresh active (⟨k, d :: ds⟩ :: outer) = some (path (⟨k, ds⟩ :: outer) ++ [d]) := by
  have hnot : ¬ Done fresh active d := fun hdone => hdone.2 h
  rw [backLink, List.dropWhile_cons, if_neg (mt passed_iff.mp hnot)]
  simp only [Std.TreeSet.contains_iff_mem.mpr h, if_true]

theorem backLink_enter (h : d ∉ active) (hn : fresh[d]? = some n) :
    backLink fresh active (⟨k, d :: ds⟩ :: outer) =
      backLink (fresh.erase d) (active.insert d)
        (⟨d, n.dependencies.toList⟩ :: ⟨k, ds⟩ :: outer) := by
  have hnot : ¬ Done fresh active d := fun hdone => hdone.1 (mem_iff_exists_getElem?.mpr ⟨n, hn⟩)
  rw [backLink, List.dropWhile_cons, if_neg (mt passed_iff.mp hnot)]
  simp only [if_neg (mt Std.TreeSet.contains_iff_mem.mp h)]
  split
  · rename_i m hm
    rw [hn] at hm
    cases hm
    rfl
  · rename_i hm
    rw [hn] at hm
    cases hm

theorem backLink_cases (h : Searching g root fresh active frames) :
    (backLink fresh active frames = none ∧ ¬ g.Cyclic root) ∨
      ∃ keys, backLink fresh active frames = some keys ∧ g.Cyclic root ∧ g.Lasso root keys := by
  induction fresh, active, frames using backLink.induct with
  | case1 fresh active =>
    rw [backLink]
    exact .inl ⟨rfl, h.not_cyclic⟩
  | case2 fresh active k pending outer hdrop ih =>
    rw [backLink_dropWhile, hdrop, backLink_leave]
    refine ih (h.leave fun y hy => ?_)
    exact passed_iff.mp (List.dropWhile_eq_nil_iff.mp hdrop y hy)
  | case3 fresh active k pending outer d ds hdrop hd =>
    have hread := h.pending _ List.mem_cons_self d
      ((mem_of_dropWhile_eq_cons hdrop).2.1 d List.mem_cons_self)
    have hactive := Std.TreeSet.contains_iff_mem.mp hd
    rw [backLink_dropWhile, hdrop, backLink_back hactive]
    exact .inr ⟨_, rfl, h.cyclic_of_back hread hactive, h.lasso_of_back ds hread hactive⟩
  | case4 fresh active k pending outer d ds hdrop hd n hn _ ih =>
    obtain ⟨hp, hds, _⟩ := mem_of_dropWhile_eq_cons hdrop
    have hp' : ∀ y ∈ pending, y ∈ ds ∨ y = d ∨ Done fresh active y := fun y hy =>
      (hp y hy).imp_right (Or.imp_right passed_iff.mp)
    rw [backLink_dropWhile, hdrop, backLink_enter (mt Std.TreeSet.contains_iff_mem.mpr hd) hn]
    exact ih (h.enter hp' hds hn)
  | case5 fresh active k pending outer d ds hdrop hd hn =>
    -- a key that is neither on the path nor done is unvisited
    have hpd := (mem_of_dropWhile_eq_cons hdrop).2.2
    have hcontains : fresh.contains d = false := by
      rw [Std.TreeMap.contains_eq_isSome_getElem?, hn]
      rfl
    simp [hd, hcontains] at hpd

end Links

theorem findCycle_cases (g : Graph) (k : String) :
    (g.findCycle k = none ∧ ¬ g.Cyclic k) ∨
      ∃ keys, g.findCycle k = some keys ∧ g.Cyclic k ∧ g.Lasso k keys :=
  backLink_cases (searching_start g k)

/-- The search finds a link back exactly when a cycle can be reached. -/
theorem hasCycle_iff (g : Graph) (k : String) : g.hasCycle k = true ↔ g.Cyclic k := by
  rw [hasCycle]
  rcases findCycle_cases g k with ⟨hnone, hacyclic⟩ | ⟨keys, hsome, hcyclic, -⟩
  · simp [hnone, hacyclic]
  · simp [hsome, hcyclic]

end Gridcalc.Graph
