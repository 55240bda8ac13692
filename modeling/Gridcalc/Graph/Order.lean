import Gridcalc.Graph.Search

/-! # Orders of recalculation

Some keys are put into an order in which each comes after its dependencies among them: those
with none to wait for are ready, and each that is done frees what waited for it alone. Keys that
become ready together are taken in their own order.
-/

namespace Gridcalc.Graph

/-- Keys with the number of dependencies, never zero, that each still waits for. -/
abbrev Waiting := Std.TreeMap String Nat

/-- One dependency of `k` less; tells whether that freed `k`. -/
def settle (k : String) (ws : Waiting) : Bool × Waiting :=
  match ws[k]? with
  | none => (false, ws)
  | some n => if n ≤ 1 then (true, ws.erase k) else (false, ws.insert k (n - 1))

def release : List String → Waiting → List String × Waiting
  | [], ws => ([], ws)
  | k :: ks, ws =>
    let (free, ws) := settle k ws
    let (freed, ws) := release ks ws
    (if free then k :: freed else freed, ws)

theorem size_settle (k : String) (ws : Waiting) :
    (settle k ws).2.size + (if (settle k ws).1 then 1 else 0) = ws.size := by
  unfold settle
  split
  · simp
  · rename_i n h
    have hc : ws.contains k = true := by
      rw [Std.TreeMap.contains_eq_isSome_getElem?, h]; rfl
    have hp : ws.size ≠ 0 := by
      intro h0
      have := Std.TreeMap.isEmpty_eq_size_eq_zero (t := ws)
      simp_all [Std.TreeMap.contains_of_isEmpty]
    split
    · simp only [if_true, Std.TreeMap.size_erase, if_pos hc]
      omega
    · simp [Std.TreeMap.size_insert, hc]

theorem size_release (ks : List String) (ws : Waiting) :
    (release ks ws).2.size + (release ks ws).1.length = ws.size := by
  induction ks generalizing ws with
  | nil => simp [release]
  | cons k ks ih =>
    have h₁ := size_settle k ws
    have h₂ := ih (settle k ws).2
    cases hb : (settle k ws).1 <;> simp only [release, hb] at h₁ ⊢ <;> simp at h₁ ⊢ <;> omega

/-- The keys in the order in which they become ready. -/
def drain (dependents : String → List String) (ready : List String) (waiting : Waiting) :
    List String :=
  match ready with
  | [] => []
  | k :: ready =>
    let freed := release (dependents k) waiting
    k :: drain dependents (ready ++ freed.1) freed.2
termination_by 2 * waiting.size + ready.length
decreasing_by
  have := size_release (dependents k) waiting
  simp
  omega

/-- The keys without repetition, each after its dependencies among them; `none` if these links
have a cycle. -/
def topologicalOrder? (g : Graph) (ks : List String) : Option (List String) :=
  let members := Std.TreeSet.ofList ks
  let degree (k : String) : Nat := ((g.dependencies k).toList.filter members.contains).length
  let degrees := members.toList.map fun k => (k, degree k)
  let order := drain (fun k => (g.dependents k).toList)
    ((degrees.filter (·.2 == 0)).map (·.1)) (.ofList (degrees.filter (·.2 != 0)))
  if order.length = members.size then some order else none

def affectedByAny (g : Graph) (ks : List String) : KeySet :=
  KeySet.ofList (ks.flatMap fun k => (g.affected k).toList)

/-- What has to be computed anew after a change of the given keys: dependencies first, or in the
order of the keys if there is a cycle among them. -/
def recalculationOrder (g : Graph) (ks : List String) : List String :=
  let affected := (g.affectedByAny ks).toList
  (g.topologicalOrder? affected).getD affected

end Gridcalc.Graph
