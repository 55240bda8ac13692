import Gridcalc.Graph.KeySet
import Gridcalc.Text.Quoted
import Std.Data.TreeMap

/-! # Dependency graphs

Which cells read which others. A node knows the keys it depends on and the keys that depend on
it, and every change keeps the two directions in step. A node may be a mere placeholder for
something that is read but has no formula of its own.
-/

namespace Gridcalc

structure Node where
  dependencies : KeySet
  dependents : KeySet
deriving DecidableEq

namespace Node

def isolated : Node := ⟨∅, ∅⟩

def lose (k : String) (n : Node) : Node := { n with dependents := n.dependents.erase k }

def gain (k : String) (n : Node) : Node := { n with dependents := n.dependents.insert k }

def forget (k : String) (n : Node) : Node := { n with dependencies := n.dependencies.erase k }

end Node

structure Graph where
  nodes : Std.TreeMap String Node

namespace Graph

def empty : Graph := ⟨∅⟩

instance : EmptyCollection Graph := ⟨empty⟩

instance : Inhabited Graph := ⟨∅⟩

def node? (g : Graph) (k : String) : Option Node := g.nodes[k]?

def contains (g : Graph) (k : String) : Bool := (g.node? k).isSome

def size (g : Graph) : Nat := g.nodes.size

def keys (g : Graph) : List String := g.nodes.keys

def dependencies (g : Graph) (k : String) : KeySet := ((g.node? k).map Node.dependencies).getD ∅

def dependents (g : Graph) (k : String) : KeySet := ((g.node? k).map Node.dependents).getD ∅

def detach (k : String) (ds : List String) (nodes : Std.TreeMap String Node) :
    Std.TreeMap String Node :=
  ds.foldl (fun nodes d => nodes.modify d (Node.lose k)) nodes

/-- Adds `k` to the dependents of the given keys, which become known. -/
def attach (k : String) (ds : List String) (nodes : Std.TreeMap String Node) :
    Std.TreeMap String Node :=
  ds.foldl (fun nodes d => nodes.alter d fun n => some ((n.getD Node.isolated).gain k)) nodes

/-- Lets `k` read exactly the given keys. -/
def update (g : Graph) (k : String) (reads : List String) : Graph :=
  let reads := KeySet.ofList reads
  let nodes := attach k reads.toList (detach k (g.dependencies k).toList g.nodes)
  ⟨nodes.alter k fun n => some { n.getD Node.isolated with dependencies := reads }⟩

def remove (g : Graph) (k : String) : Graph :=
  let nodes := detach k (g.dependencies k).toList g.nodes
  let nodes := (g.dependents k).toList.foldl (fun nodes d => nodes.modify d (Node.forget k)) nodes
  ⟨nodes.erase k⟩

def describe (k : String) (n : Node) : String :=
  let listed (s : KeySet) := "[" ++ ", ".intercalate (s.toList.map Text.quoted) ++ "]"
  "GraphNode(" ++ Text.quoted k ++ ", dependencies=" ++ listed n.dependencies ++
    ", dependents=" ++ listed n.dependents ++ ")"

end Graph

end Gridcalc
