import Gridcalc.Proofs.Graph.Existence
import Mathlib.Algebra.BigOperators.Group.List.Basic
import Mathlib.Algebra.GroupWithZero.Nat
import Mathlib.Tactic.Tauto

/-! # Searches turn by turn

The two searches as loops. A turn of the search for a cycle follows one link of the innermost key
on its path, or leaves that key; a turn of the search for dependents takes one key from a queue.
Each turn uses up a link or a key, so that neither loop goes on for ever, cycles or not, and what
the loops end with is what `findCycle` and `affected` give.
-/

namespace Gridcalc.Graph

open Relation (TransGen ReflTransGen)

variable {g : Graph} {k x y : String}

section Halting

variable {σ ρ : Type} {turn : σ → σ ⊕ ρ} {s : σ}

/-- Begun in `s`, the loop gives `r` in its `n`th turn. -/
inductive Halts (turn : σ → σ ⊕ ρ) : σ → Nat → ρ → Prop
  | last {s : σ} {r : ρ} (h : turn s = .inr r) : Halts turn s 1 r
  | more {s s' : σ} {n : Nat} {r : ρ} (h : turn s = .inl s') (rest : Halts turn s' n r) :
    Halts turn s (n + 1) r

theorem exists_halts (size : σ → Nat) {p : σ → Prop}
    (hturn : ∀ s s', p s → turn s = .inl s' → p s' ∧ size s' < size s) (hs : p s) :
    ∃ n ≤ size s + 1, ∃ last r, p last ∧ turn last = .inr r ∧ Halts turn s n r := by
  induction hsize : size s using Nat.strongRec generalizing s with
  | ind m ih =>
    cases hnext : turn s with
    | inr r => exact ⟨1, by omega, s, r, hs, hnext, .last hnext⟩
    | inl s' =>
      obtain ⟨hs', hless⟩ := hturn s s' hs hnext
      obtain ⟨n, hn, last, r, hlast, hr, hrest⟩ := ih (size s') (hsize ▸ hless) hs' rfl
      exact ⟨n + 1, by omega, last, r, hlast, hr, .more hnext hrest⟩

end Halting

section Unvisited

variable {visited : Std.TreeSet String} {cost : String → Nat}

/-- What the nodes cost that were not visited. -/
def unvisited (g : Graph) (cost : String → Nat) (visited : Std.TreeSet String) : Nat :=
  ((g.keys.filter (· ∉ visited)).map cost).sum

theorem contains_iff_mem : g.contains k = true ↔ k ∈ g.nodes := by
  rw [contains, node?, Option.isSome_iff_exists, mem_iff_exists_getElem?]

theorem node?_eq_none (h : ¬ g.contains k = true) : g.node? k = none := by
  simpa [contains] using h

theorem dependents_eq_empty (h : g.node? k = none) : g.dependents k = ∅ := by
  simp [dependents, h]

theorem unvisited_empty : g.unvisited cost ∅ = (g.keys.map cost).sum := by
  simp [unvisited]

theorem unvisited_insert (g : Graph) (cost : String → Nat) (hk : k ∉ visited) :
    g.unvisited cost (visited.insert k) + (if g.contains k then cost k else 0) =
      g.unvisited cost visited := by
  have hfilter : g.keys.filter (· ∉ visited.insert k) =
      (g.keys.filter (· ∉ visited)).erase k := by
    have hnodup : (g.keys.filter (· ∉ visited)).Nodup := Std.TreeMap.nodup_keys.filter _
    rw [hnodup.erase_eq_filter, List.filter_filter]
    refine List.filter_congr fun x _ => ?_
    simp only [Std.TreeSet.mem_insert, Std.LawfulEqOrd.compare_eq_iff_eq]
    by_cases hx : x = k
    · simp [hx]
    · simp [hx, Ne.symm hx]
  rw [unvisited, hfilter, unvisited]
  by_cases hknown : g.contains k = true
  · have hmem : k ∈ g.keys.filter (· ∉ visited) := by
      simp [mem_keys_iff.mpr hknown, hk]
    rw [if_pos hknown, Nat.add_comm]
    exact List.sum_map_erase cost hmem
  · have hout : k ∉ g.keys.filter (· ∉ visited) := fun hmem =>
      hknown (mem_keys_iff.mp (List.mem_of_mem_filter hmem))
    rw [if_neg hknown, List.erase_of_not_mem hout, Nat.add_zero]

end Unvisited

section Cycle

/-- A search for a cycle: the keys that were visited, those on the path, and the path. -/
structure Search where
  visited : Std.TreeSet String
  active : Std.TreeSet String
  frames : List Frame

def Search.start (g : Graph) (k : String) : Search :=
  ⟨.ofList [k], .ofList [k], [⟨k, (g.dependencies k).toList⟩]⟩

/-- Follows one link, or leaves the innermost key if it has no link left. -/
def followLink (g : Graph) (s : Search) : Search ⊕ Option (List String) :=
  match s.frames with
  | [] => .inr none
  | ⟨k, []⟩ :: outer => .inl ⟨s.visited, s.active.erase k, outer⟩
  | ⟨k, d :: ds⟩ :: outer =>
    if d ∈ s.active then .inr (some (path (⟨k, ds⟩ :: outer) ++ [d]))
    else if d ∈ s.visited then .inl ⟨s.visited, s.active, ⟨k, ds⟩ :: outer⟩
    else
      .inl ⟨s.visited.insert d, s.active.insert d,
        ⟨d, (g.dependencies d).toList⟩ :: ⟨k, ds⟩ :: outer⟩

/-- What is left to be done: the path is to be left, and each link to be followed. -/
def Search.size (g : Graph) (s : Search) : Nat :=
  (s.frames.map fun f => f.pending.length + 1).sum +
    g.unvisited (fun k => (g.dependencies k).size + 1) s.visited

/-- The nodes that are left to `backLink` are those that were not visited, and it goes on from here
to what the whole search gives. -/
structure Search.Matches (g : Graph) (k : String) (fresh : Fresh) (s : Search) : Prop where
  node : ∀ x n, fresh[x]? = some n → g.node? x = some n
  mem_iff : ∀ x, x ∈ fresh ↔ g.contains x = true ∧ x ∉ s.visited
  known : ∀ f ∈ s.frames, ∀ d ∈ f.pending, g.contains d = true
  result : backLink fresh s.active s.frames = g.findCycle k

theorem Search.matches_start (hknown : ∀ a b, g.Reads a b → g.contains b = true) (k : String) :
    Search.Matches g k (g.nodes.erase k) (.start g k) where
  node x n hx := by
    rw [getElem?_erase_eq_ite] at hx
    split at hx
    · cases hx
    · exact hx
  mem_iff x := by
    have hvisited : x ∈ (Search.start g k).visited ↔ x = k := by
      rw [Search.start, Std.TreeSet.mem_ofList, List.contains_iff_mem, List.mem_singleton]
    rw [mem_erase_iff, contains_iff_mem, hvisited, and_comm]
  known f hf d hd := by
    rw [Search.start, List.mem_singleton] at hf
    subst hf
    exact hknown k d hd
  result := rfl

section Moves

variable {fresh : Fresh} {visited active : Std.TreeSet String} {outer : List Frame} {d : String}
  {ds : List String}

theorem Search.Matches.leave (h : Search.Matches g k fresh ⟨visited, active, ⟨x, []⟩ :: outer⟩) :
    Search.Matches g k fresh ⟨visited, active.erase x, outer⟩ where
  node := h.node
  mem_iff := h.mem_iff
  known f hf := h.known f (List.mem_cons_of_mem _ hf)
  result := backLink_leave.symm.trans h.result

theorem known_of_cons
    (h : ∀ f ∈ ⟨x, d :: ds⟩ :: outer, ∀ y ∈ f.pending, g.contains y = true) :
    ∀ f ∈ ⟨x, ds⟩ :: outer, ∀ y ∈ f.pending, g.contains y = true := by
  intro f hf y hy
  rcases List.mem_cons.mp hf with rfl | hf
  · exact h _ List.mem_cons_self y (List.mem_cons_of_mem d hy)
  · exact h f (List.mem_cons_of_mem _ hf) y hy

theorem Search.Matches.pass
    (h : Search.Matches g k fresh ⟨visited, active, ⟨x, d :: ds⟩ :: outer⟩)
    (hactive : d ∉ active) (hvisited : d ∈ visited) :
    Search.Matches g k fresh ⟨visited, active, ⟨x, ds⟩ :: outer⟩ where
  node := h.node
  mem_iff := h.mem_iff
  known := known_of_cons h.known
  result := by
    have hdone : Done fresh active d := ⟨fun hd => ((h.mem_iff d).mp hd).2 hvisited, hactive⟩
    exact (backLink_pass hdone).symm.trans h.result

theorem Search.Matches.enter (hknown : ∀ a b, g.Reads a b → g.contains b = true)
    (h : Search.Matches g k fresh ⟨visited, active, ⟨x, d :: ds⟩ :: outer⟩)
    (hactive : d ∉ active) (hvisited : d ∉ visited) :
    Search.Matches g k (fresh.erase d) ⟨visited.insert d, active.insert d,
      ⟨d, (g.dependencies d).toList⟩ :: ⟨x, ds⟩ :: outer⟩ where
  node y n hy := by
    rw [getElem?_erase_eq_ite] at hy
    split at hy
    · cases hy
    · exact h.node y n hy
  mem_iff y := by
    rw [mem_erase_iff, h.mem_iff, Std.TreeSet.mem_insert, Std.LawfulEqOrd.compare_eq_iff_eq,
      not_or, ne_comm, and_left_comm]
  known f hf := by
    rcases List.mem_cons.mp hf with rfl | hf
    · exact hknown d
    · exact known_of_cons h.known f hf
  result := by
    have hd : g.contains d = true := h.known _ List.mem_cons_self d List.mem_cons_self
    obtain ⟨n, hn⟩ := mem_iff_exists_getElem?.mp ((h.mem_iff d).mpr ⟨hd, hvisited⟩)
    have hdeps : g.dependencies d = n.dependencies := by
      rw [dependencies, h.node d n hn]
      rfl
    rw [hdeps, ← backLink_enter hactive hn, h.result]

theorem Search.size_enter (hd : g.contains d = true) (hvisited : d ∉ visited) :
    Search.size g ⟨visited.insert d, active.insert d,
        ⟨d, (g.dependencies d).toList⟩ :: ⟨x, ds⟩ :: outer⟩ <
      Search.size g ⟨visited, active, ⟨x, d :: ds⟩ :: outer⟩ := by
  have hcost := unvisited_insert g (fun k => (g.dependencies k).size + 1) hvisited
  rw [if_pos hd] at hcost
  simp only [Search.size, List.map_cons, List.sum_cons, List.length_cons]
  rw [← hcost, KeySet.size]
  omega

end Moves

variable {s s' : Search}

theorem Search.Matches.followLink (hknown : ∀ a b, g.Reads a b → g.contains b = true)
    {fresh : Fresh} (h : s.Matches g k fresh) (hturn : g.followLink s = .inl s') :
    (∃ fresh', s'.Matches g k fresh') ∧ s'.size g < s.size g := by
  obtain ⟨visited, active, frames⟩ := s
  match frames with
  | [] => cases hturn
  | ⟨x, []⟩ :: outer =>
    cases hturn
    exact ⟨⟨fresh, h.leave⟩, by simp [Search.size]⟩
  | ⟨x, d :: ds⟩ :: outer =>
    rw [Graph.followLink] at hturn
    simp only at hturn
    split at hturn
    · cases hturn
    rename_i hactive
    split at hturn
    · rename_i hvisited
      cases hturn
      exact ⟨⟨fresh, h.pass hactive hvisited⟩, by simp [Search.size]⟩
    · rename_i hvisited
      cases hturn
      have hd : g.contains d = true := h.known _ List.mem_cons_self d List.mem_cons_self
      exact ⟨⟨_, h.enter hknown hactive hvisited⟩, Search.size_enter hd hvisited⟩

theorem Search.Matches.result_of_last {fresh : Fresh} {r : Option (List String)}
    (h : s.Matches g k fresh) (hturn : g.followLink s = .inr r) : r = g.findCycle k := by
  obtain ⟨visited, active, frames⟩ := s
  match frames with
  | [] =>
    cases hturn
    rw [← h.result, backLink]
  | ⟨i, []⟩ :: outer => cases hturn
  | ⟨i, d :: ds⟩ :: outer =>
    rw [Graph.followLink] at hturn
    simp only at hturn
    split at hturn
    · rename_i hactive
      cases hturn
      rw [← h.result, backLink_back hactive]
    · split at hturn
      · cases hturn
      · cases hturn

theorem size_start (g : Graph) (k : String) :
    (Search.start g k).size g ≤ (g.keys.map fun x => (g.dependencies x).size + 1).sum + 1 := by
  have hcost := unvisited_insert g (fun x => (g.dependencies x).size + 1)
    (Std.TreeSet.not_mem_emptyc (k := k))
  rw [unvisited_empty] at hcost
  have hstart : (Search.start g k).visited = (∅ : Std.TreeSet String).insert k := rfl
  simp only [Search.size, hstart]
  rw [← hcost]
  simp only [Search.start, List.map_cons, List.map_nil, List.sum_cons, List.sum_nil, KeySet.size]
  split
  · omega
  · rename_i hunknown
    have hlength : (g.dependencies k).toList.length = 0 := by
      rw [dependencies_eq_empty (node?_eq_none hunknown)]
      rfl
    omega

theorem halts_findCycle (hknown : ∀ a b, g.Reads a b → g.contains b = true) (k : String) :
    ∃ n ≤ (g.keys.map fun x => (g.dependencies x).size + 1).sum + 2,
      Halts g.followLink (.start g k) n (g.findCycle k) := by
  obtain ⟨n, hn, last, r, ⟨fresh, hlast⟩, hr, hhalts⟩ := exists_halts
    (Search.size g) (p := fun s => ∃ fresh, s.Matches g k fresh)
    (fun s s' ⟨_, h⟩ hturn => h.followLink hknown hturn) ⟨_, Search.matches_start hknown k⟩
  rw [hlast.result_of_last hr] at hhalts
  exact ⟨n, hn.trans (Nat.succ_le_succ (size_start g k)), hhalts⟩

/-- The search ends, whether or not the key is known. It finds nothing exactly if no cycle can be
reached, and else a walk along the links that goes round one. -/
theorem findCycle_exact (ops : List Operation) (k : String) :
    (∃ n ≤ ((built ops).keys.map fun x => ((built ops).dependencies x).size + 1).sum + 2,
        Halts (built ops).followLink (.start (built ops) k) n ((built ops).findCycle k)) ∧
      ((built ops).findCycle k = none ↔ ¬ (built ops).Cyclic k) ∧
      ∀ keys, (built ops).findCycle k = some keys → (built ops).Lasso k keys := by
  refine ⟨halts_findCycle (fun a b hread => (contains_of_reads ops hread).2) k, ?_⟩
  rcases findCycle_cases (built ops) k with ⟨hnone, hacyclic⟩ | ⟨keys, hsome, hcyclic, hlasso⟩
  · rw [hnone]
    exact ⟨iff_of_true rfl hacyclic, nofun⟩
  · rw [hsome]
    refine ⟨iff_of_false nofun (not_not_intro hcyclic), ?_⟩
    rintro _ ⟨⟩
    exact hlasso

/-- `B` and `C` share `D`, from which no cycle can be reached, and `E` reads itself. -/
theorem findCycle_beside_diamond :
    let g := built [.update "A" ["B", "C"], .update "B" ["D"], .update "C" ["D", "E"],
      .update "E" ["E"]]
    g.findCycle "A" = some ["A", "C", "E", "E"] ∧ g.Lasso "A" ["A", "C", "E", "E"] ∧
      ¬ g.Cyclic "B" ∧ ¬ g.Cyclic "Z" := by
  intro g
  have hA : g.findCycle "A" = some ["A", "C", "E", "E"] := by decide +kernel
  have hB : g.findCycle "B" = none := by decide +kernel
  have hZ : g.findCycle "Z" = none := by decide +kernel
  have hexact := findCycle_exact [.update "A" ["B", "C"], .update "B" ["D"],
    .update "C" ["D", "E"], .update "E" ["E"]]
  exact ⟨hA, (hexact "A").2.2 _ hA, (hexact "B").2.1.mp hB, (hexact "Z").2.1.mp hZ⟩

end Cycle

section Dependents

/-- A search for all that depends on a key: what was visited, what was found, and the queue. -/
structure Spread where
  visited : Std.TreeSet String
  found : KeySet
  queue : List String

def Spread.start (k : String) : Spread := ⟨∅, ∅, [k]⟩

def takeKey (g : Graph) (s : Spread) : Spread ⊕ KeySet :=
  match s.queue with
  | [] => .inr s.found
  | k :: queue =>
    if k ∈ s.visited then .inl ⟨s.visited, s.found, queue⟩
    else
      .inl ⟨s.visited.insert k, .ofList (s.found.toList ++ (g.dependents k).toList),
        queue ++ (g.dependents k).toList⟩

def Spread.size (g : Graph) (s : Spread) : Nat :=
  s.queue.length + g.unvisited (fun k => (g.dependents k).size) s.visited

/-- What is found is what reads a visited key. It is visited, or it is in the queue. -/
structure Spread.Covers (g : Graph) (k : String) (s : Spread) : Prop where
  found_iff : ∀ x, x ∈ s.found ↔ ∃ y ∈ s.visited, g.Reads x y
  listed_iff : ∀ x, x ∈ s.visited ∨ x ∈ s.queue ↔ x = k ∨ x ∈ s.found
  reaches : ∀ x, x ∈ s.visited ∨ x ∈ s.queue → ReflTransGen g.Reads x k

theorem Spread.covers_start (g : Graph) (k : String) : (Spread.start k).Covers g k where
  found_iff x := by simp [Spread.start]
  listed_iff x := by simp [Spread.start]
  reaches x hx := by
    have hxk : x = k := by simpa [Spread.start] using hx
    exact hxk ▸ .refl

section Moves

variable {visited : Std.TreeSet String} {found : KeySet} {queue : List String}

theorem Spread.Covers.skip (h : Spread.Covers g k ⟨visited, found, x :: queue⟩)
    (hx : x ∈ visited) : Spread.Covers g k ⟨visited, found, queue⟩ where
  found_iff := h.found_iff
  listed_iff y := by
    rw [← h.listed_iff, List.mem_cons]
    constructor
    · exact Or.imp_right .inr
    · rintro (hy | rfl | hy)
      · exact .inl hy
      · exact .inl hx
      · exact .inr hy
  reaches y hy := h.reaches y (hy.imp_right (List.mem_cons_of_mem x))

theorem Spread.Covers.visit (hg : g.Linked)
    (h : Spread.Covers g k ⟨visited, found, x :: queue⟩) :
    Spread.Covers g k ⟨visited.insert x, .ofList (found.toList ++ (g.dependents x).toList),
      queue ++ (g.dependents x).toList⟩ := by
  have hread (y : String) : y ∈ (g.dependents x).toList ↔ g.Reads y x := (hg y x).symm
  have hvisited (y : String) : y ∈ visited.insert x ↔ y = x ∨ y ∈ visited := by
    rw [Std.TreeSet.mem_insert, Std.LawfulEqOrd.compare_eq_iff_eq, eq_comm]
  have hfound (y : String) : y ∈ KeySet.ofList (found.toList ++ (g.dependents x).toList) ↔
      y ∈ found ∨ g.Reads y x := by
    rw [KeySet.mem_ofList, List.mem_append, hread, KeySet.mem_def]
  constructor
  case found_iff =>
    intro y
    rw [hfound, h.found_iff, or_comm]
    simp only [hvisited, or_and_right, exists_or, exists_eq_left]
  case listed_iff =>
    intro y
    have hy := h.listed_iff y
    rw [List.mem_cons] at hy
    rw [hvisited, hfound, List.mem_append, hread]
    tauto
  case reaches =>
    intro y hy
    rw [hvisited, List.mem_append, hread] at hy
    rcases hy with (rfl | hy) | hy | hy
    · exact h.reaches y (.inr List.mem_cons_self)
    · exact h.reaches y (.inl hy)
    · exact h.reaches y (.inr (List.mem_cons_of_mem x hy))
    · exact .head hy (h.reaches x (.inr List.mem_cons_self))

theorem Spread.size_visit (hx : x ∉ visited) :
    Spread.size g ⟨visited.insert x, .ofList (found.toList ++ (g.dependents x).toList),
        queue ++ (g.dependents x).toList⟩ <
      Spread.size g ⟨visited, found, x :: queue⟩ := by
  have hcost := unvisited_insert g (fun k => (g.dependents k).size) hx
  have hlength : (if g.contains x then (g.dependents x).size else 0) =
      (g.dependents x).toList.length := by
    split
    · rfl
    · rename_i hunknown
      rw [dependents_eq_empty (node?_eq_none hunknown)]
      rfl
  rw [hlength] at hcost
  simp only [Spread.size, List.length_append, List.length_cons]
  omega

end Moves

variable {s s' : Spread}

theorem Spread.Covers.takeKey (hg : g.Linked) (h : s.Covers g k) (hturn : g.takeKey s = .inl s') :
    s'.Covers g k ∧ s'.size g < s.size g := by
  obtain ⟨visited, found, queue⟩ := s
  match queue with
  | [] => cases hturn
  | x :: queue =>
    rw [Graph.takeKey] at hturn
    simp only at hturn
    split at hturn
    · rename_i hx
      cases hturn
      exact ⟨h.skip hx, by simp [Spread.size]⟩
    · rename_i hx
      cases hturn
      exact ⟨h.visit hg, Spread.size_visit hx⟩

theorem Spread.Covers.mem_found_iff (h : s.Covers g k) (hqueue : s.queue = []) :
    x ∈ s.found ↔ TransGen g.Reads x k := by
  have hvisited (y : String) : y ∈ s.visited ↔ y = k ∨ y ∈ s.found := by
    rw [← h.listed_iff, hqueue]
    simp
  constructor
  · intro hx
    obtain ⟨y, hy, hread⟩ := (h.found_iff x).mp hx
    exact .head' hread (h.reaches y (.inl hy))
  · intro hx
    induction hx using TransGen.head_induction_on with
    | single hread => exact (h.found_iff _).mpr ⟨k, (hvisited k).mpr (.inl rfl), hread⟩
    | @head x y hread _ ih => exact (h.found_iff x).mpr ⟨y, (hvisited y).mpr (.inr ih), hread⟩

theorem halts_affected (hg : g.Linked) (k : String) :
    ∃ n ≤ (g.keys.map fun x => (g.dependents x).size).sum + 2,
      Halts g.takeKey (.start k) n (g.affected k) := by
  obtain ⟨n, hn, last, r, hlast, hr, hhalts⟩ := exists_halts
    (Spread.size g) (p := Spread.Covers g k)
    (fun s s' h hturn => h.takeKey hg hturn) (Spread.covers_start g k)
  have hqueue : last.queue = [] ∧ r = last.found := by
    rw [takeKey] at hr
    split at hr
    · rename_i hnil
      exact ⟨hnil, (Sum.inr.inj hr).symm⟩
    · split at hr <;> cases hr
  have hresult : r = g.affected k := by
    apply KeySet.ext
    intro x
    rw [hqueue.2, hlast.mem_found_iff hqueue.1, mem_affected_iff hg]
  rw [hresult] at hhalts
  rw [Spread.size, Spread.start, unvisited_empty, List.length_singleton, Nat.add_comm 1] at hn
  exact ⟨n, hn, hhalts⟩

/-- The search ends and gives what depends on the key over one link or more, the key itself if it
can be reached from what it reads. What is computed anew is all that depends on one of the changed
keys, each key once. -/
theorem affected_exact (ops : List Operation) :
    (∀ key, (∃ n ≤ ((built ops).keys.map fun x => ((built ops).dependents x).size).sum + 2,
        Halts (built ops).takeKey (.start key) n ((built ops).affected key)) ∧
      (∀ k, k ∈ (built ops).affected key ↔ TransGen (built ops).Reads k key) ∧
      (key ∈ (built ops).affected key ↔
        ∃ d, (built ops).Reads key d ∧ ReflTransGen (built ops).Reads d key)) ∧
    ∀ changed, ((built ops).recalculationOrder changed).Nodup ∧
      (∀ k, k ∈ (built ops).recalculationOrder changed ↔
        ∃ key ∈ changed, k ∈ (built ops).affected key) ∧
      (((built ops).CyclicAmong ((built ops).affectedByAny changed).toList ∧
          (built ops).recalculationOrder changed = ((built ops).affectedByAny changed).toList) ∨
        ¬ (built ops).CyclicAmong ((built ops).affectedByAny changed).toList ∧
          Ordered (built ops) ((built ops).affectedByAny changed).toList
            ((built ops).recalculationOrder changed)) := by
  have hg := linked_built ops
  constructor
  · intro key
    refine ⟨halts_affected hg key, fun k => mem_affected_iff hg, ?_⟩
    rw [mem_affected_iff hg, TransGen.head'_iff]
  · intro changed
    refine ⟨nodup_recalculationOrder hg changed, fun k => ?_, recalculationOrder_cases hg changed⟩
    simp only [mem_recalculationOrder_iff hg, mem_affected_iff hg]

end Dependents

end Gridcalc.Graph
