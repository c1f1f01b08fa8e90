import StagedSql.Plan.State

/-!
Stages that give what is read of them.

`widenStages` adds the columns that are read of a stage to what it gives: a write gives them back,
and a SELECT takes them from what it reads, of which they are required in turn. A stage is read by
later ones only, so the stages are visited from the last to the first.
-/

namespace StagedSql

/-- What a write gives back, with what is required. -/
def Returning.widen (r : Returning) : Required → Returning
  | .all => r.requireAll
  | .columns names => names.foldl Returning.require r

/-- Adds a column to a SELECT, and requires it of the stage that the SELECT reads. Nothing is to be
done if the SELECT gives the column already. -/
def widenSelect (qualifier : String) (base : Option String) (state : Select × Requirements)
    (column : String) : Select × Requirements :=
  let (s, rs) := state
  if s.isStar || s.outputNames.contains column then (s, rs)
  else
    (s.ensureColumn qualifier column,
      match base with
      | some name => rs.require name column
      | none => rs)

/-- A stage that gives what is required of it, and what is then required of the stages before. -/
def widenStage (rs : Requirements) (stage : Stage) : Stage × Requirements :=
  match rs.lookup stage.name with
  | none => (stage, rs)
  | some required =>
      match stage.statement with
      | .insert s =>
          ({ stage with
            statement := .insert { s with returning := s.returning.widen required } }, rs)
      | .update s =>
          ({ stage with
            statement := .update { s with returning := s.returning.widen required } }, rs)
      | .delete s =>
          ({ stage with
            statement := .delete { s with returning := s.returning.widen required } }, rs)
      | .select s =>
          match required, stage.qualifier with
          | .columns names, some qualifier =>
              let (s, rs) := names.foldl (widenSelect qualifier stage.base) (s, rs)
              ({ stage with statement := .select s }, rs)
          | _, _ => (stage, rs)
      | _ => (stage, rs)

/-- Widens stages, the last of which comes first. -/
def widenFromLast : Requirements → List Stage → List Stage
  | _, [] => []
  | rs, stage :: before =>
      let (stage, rs) := widenStage rs stage
      stage :: widenFromLast rs before

/-- All stages, widened from the last one on. -/
def widenStages (rs : Requirements) (stages : List Stage) : List Stage :=
  (widenFromLast rs stages.reverse).reverse

end StagedSql
