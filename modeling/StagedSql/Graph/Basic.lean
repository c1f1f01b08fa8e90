import StagedSql.Graph.Node

/-!
Query graphs.

A node refers to earlier nodes only. So the list holds the newest node first, and what has to be
known of a node is found by recursion on the rest of the list.
-/

namespace StagedSql

/-- The nodes that queries on a schema are made of, the newest first. The `id` tells the nodes of
one graph from those of another. -/
structure Graph where
  id : Nat
  schema : Schema
  nodes : List Node

namespace Graph

/-- A graph without nodes. -/
def empty (id : Nat) (schema : Schema) : Graph := ⟨id, schema, []⟩

/-- The number of nodes. -/
def size (g : Graph) : Nat := g.nodes.length

/-- The handle of the next node. -/
def nextHandle (g : Graph) : Handle := ⟨g.id, g.size⟩

/-- The graph with one more node. -/
def push (g : Graph) (node : Node) : Graph := { g with nodes := node :: g.nodes }

/-- The node with a number of nodes before it. -/
def nodeIn? : List Node → Nat → Option Node
  | [], _ => none
  | node :: rest, index => if index = rest.length then some node else nodeIn? rest index

/-- The node of a handle. Handles of other graphs are refused. -/
def node (g : Graph) (h : Handle) : Except Error Node :=
  if h.graph = g.id then
    match nodeIn? g.nodes h.index with
    | some node => .ok node
    | none => .error (.unknownNode h)
  else .error (.unknownNode h)

/-- The relation whose rows a node gives; rows that are written out have none. -/
def relationOfNode (id : Nat) : List Node → Handle → Except Error (Option RelationId)
  | [], h => .error (.unknownNode h)
  | node :: rest, h =>
      if h = ⟨id, rest.length⟩ then
        match node with
        | .select ⟨.relation r, _, _, _, _⟩ => .ok (some r)
        | .select ⟨.node s, _, _, _, _⟩ => relationOfNode id rest s
        | .filter (.relation r) _ => .ok (some r)
        | .filter (.node s) _ => relationOfNode id rest s
        | .insert r _ _ => .ok (some r)
        | .update r _ _ => .ok (some r)
        | .delete r _ => .ok (some r)
        | .common queries =>
            match queries.getLast? with
            | some last => relationOfNode id rest last
            | none => .ok none
        | .values .. => .ok none
      else relationOfNode id rest h

/-- The relation whose rows a source gives. -/
def relationOf (g : Graph) : Source → Except Error (Option RelationId)
  | .relation r => .ok (some r)
  | .node h => relationOfNode g.id g.nodes h

/-- The relation and the conditions of a chain of filters, innermost first. Anything else than a
filter on the way is no such chain. -/
def filterChain (id : Nat) : List Node → Handle → Except Error (RelationId × List Condition)
  | [], h => .error (.unknownNode h)
  | node :: rest, h =>
      if h = ⟨id, rest.length⟩ then
        match node with
        | .filter (.relation r) c => .ok (r, [c])
        | .filter (.node s) c => do
            let (r, cs) ← filterChain id rest s
            return (r, cs ++ [c])
        | other => .error (.notMutable other.kind)
      else filterChain id rest h

/-- The handles of a graph's nodes that are wanted or that a wanted node refers to, directly or
through others, oldest first. One pass from the newest node on finds them all. -/
def reachableIn (id : Nat) : List Node → List Handle → List (Handle × Node)
  | [], _ => []
  | node :: rest, wanted =>
      let own : Handle := ⟨id, rest.length⟩
      if wanted.contains own then reachableIn id rest (wanted ++ node.handles) ++ [(own, node)]
      else reachableIn id rest wanted

/-- The nodes that are needed for a list of handles, oldest first. Handles of other graphs are
passed over. -/
def reachable (g : Graph) (wanted : List Handle) : List (Handle × Node) :=
  reachableIn g.id g.nodes wanted

end Graph

end StagedSql
