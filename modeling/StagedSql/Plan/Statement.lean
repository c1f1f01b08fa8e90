import StagedSql.Graph.Query
import StagedSql.Plan.Stage
import StagedSql.Plan.Widen
import StagedSql.Session
import StagedSql.Sql.Tokens

/-!
Queries as statements.
-/

namespace StagedSql

/-- The rows of a SELECT as JSON. -/
def jsonRows (inner : Select) : Statement :=
  .select { Select.empty with
    projection := [⟨.rowToJson "x", none⟩]
    source := some (.derived (.select inner) "x" []) }

/-- A statement after its stages. -/
def withStages (stages : List Stage) (body : Statement) : Statement :=
  if stages.isEmpty then body
  else .withCtes false (stages.map fun s => ⟨s.name, s.statement⟩) body

namespace Query

/-- Stages the branches and plans the root. -/
def plan (g : Graph) (q : Query) : Plan Scan := do
  q.branches.forM fun h => discard (g.planner.stage h)
  match q.root with
  | .relation id => scanReading g.schema .none (.ofBase (.relation id)) []
  | .node h => g.planner.scan h []

/-- The statement that runs a query on its graph. -/
def toStatement (g : Graph) (q : Query) : Except Error Statement := do
  let (scan, s) ← (q.plan g).run .initial
  return withStages (widenStages s.required s.stages) (jsonRows scan.select)

/-- The text of the statement of a query. -/
def compile (g : Graph) (placeholder : Placeholder) (q : Query) : Except Error Rendered :=
  return (← q.toStatement g).render placeholder

/-- The texts of a query after the settings of a session. -/
def prepare (g : Graph) (session : Session) (placeholder : Placeholder) (q : Query) :
    Except Error Batch := do
  return (← session.wrap (← q.toStatement g)).batch placeholder

end Query

end StagedSql
