import StagedSql.Graph.Query

/-!
Several graphs side by side.
-/

namespace StagedSql

/-- Graphs; the graph at a place has that place as its `id`. -/
structure Workspace where
  graphs : List Graph

/-- A computation on several graphs that may fail. -/
abbrev Assemble := ExceptT Error (StateM Workspace)

namespace Workspace

def ofSchemas (schemas : List Schema) : Workspace :=
  ⟨schemas.zipIdx.map fun (s, i) => Graph.empty i s⟩

/-- The graph of a number; an empty graph without relations if there is none. -/
def graph (w : Workspace) (id : Nat) : Graph :=
  w.graphs[id]?.getD (Graph.empty id ⟨id, []⟩)

/-- Runs a computation on one of the graphs. -/
def within {α : Type} (id : Nat) (act : Build α) : Assemble α := fun w =>
  let (result, g) := act (w.graph id)
  (result, ⟨w.graphs.set id g⟩)

def handleOf (q : Query) : Assemble Handle := within q.graph q.handle

/-- Queries of any graphs that are run in order on one of them. -/
def common (id : Nat) (queries : List Query) : Assemble Query := do
  let handles ← queries.mapM handleOf
  within id (Query.commonOf handles)

end Workspace

end StagedSql
