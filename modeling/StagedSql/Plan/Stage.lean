import StagedSql.Plan.Payload

/-!
Nodes as stages and readings.

Writes, branches and all but the last of several queries run in order become stages, once each;
selects and filters become readings of what is below them.
-/

namespace StagedSql

/-! ### Writes -/

/-- The stages that hold the rows which the forward columns of a write lead to: those of the
inserts that filled them, since their rows are not in the tables yet. -/
def linkForward (past : Graph) (stage : String) (relation : Relation) :
    List (String × PayloadValue) → Plan Unit
  | [] => pure ()
  | (column, .query h) :: rest => do
      if ((relation.column? column).map Column.isForward).getD false then
        match ← past.node h with
        | .select ⟨.node inner, _, _, _, _⟩ =>
            let node ← past.node inner
            if node.isMutation then
              match ← Plan.stageOf? inner with
              | some name => Plan.setWritten stage column [name]
              | none => pure ()
        | _ => pure ()
      linkForward past stage relation rest
  | _ :: rest => linkForward past stage relation rest

/-- Stages the inserts that refer back to a row, which now has a stage. -/
def stageReverse (earlier : Earlier) (stage : String) (relation : Relation)
    (reverse : List (String × List Handle)) : Plan Unit := do
  if !reverse.isEmpty then
    modify fun s => { s with parents := ⟨stage, relation.primaryKey⟩ :: s.parents }
    reverse.forM fun (column, children) => do
      Plan.setWritten stage column (← children.mapM earlier.stage)
    modify fun s => { s with parents := s.parents.tail }

/-- The statement of a write, and the relation that it writes to. -/
def writeStatement (schema : Schema) (earlier : Earlier) :
    Node → Plan (Option (Statement × Relation))
  | .insert id payload _ => do
      let r ← schema.relation id
      return some (← insertStatement schema earlier r payload, r)
  | .update id payload condition => do
      let r ← schema.relation id
      return some (← updateStatement schema earlier r payload condition, r)
  | .delete id condition => do
      let r ← schema.relation id
      return some (← deleteStatement schema earlier r condition, r)
  | _ => pure none

/-- Notes where the rows that a write is linked to are found, and stages those that refer back. -/
def linkWrite (past : Graph) (earlier : Earlier) (stage : String) (relation : Relation) :
    Node → Plan Unit
  | .insert _ payload reverse => do
      match payload with
      | .values entries => linkForward past stage relation entries
      | .query _ => pure ()
      stageReverse earlier stage relation reverse
  | .update _ (.values entries) _ => linkForward past stage relation entries
  | _ => pure ()

/-- Stages a write, which is run once: nothing for a node of another kind. -/
def stageWrite (past : Graph) (earlier : Earlier) (own : Handle) (node : Node) :
    Plan (Option String) := do
  match ← writeStatement past.schema earlier node with
  | none => return none
  | some (statement, relation) =>
      let name ← Plan.freshStage
      Plan.addStage ⟨name, statement, relation, none, none⟩
      Plan.setStage own name
      linkWrite past earlier name relation node
      return some name

/-! ### Readings -/

/-- The reading of a source. -/
def readSource (earlier : Earlier) (enclosed : Bool) : Source → Plan Reading
  | .relation id => pure (.ofBase (.relation id))
  | .node h => earlier.read enclosed h

/-- A stage that a page of another stage is read from leads to the same rows. -/
def inheritWritten (base : Option String) (stage : String) : Plan Unit :=
  match base with
  | none => pure ()
  | some name => modify fun s =>
      { s with
        written := (s.written.filter (·.1.1 == name)).map (fun e => ((stage, e.1.2), e.2)) ++
          s.written }

/-- Stages the rows of a select that takes only a part of them. Its lookups are left to its
readers. -/
def stagePage (schema : Schema) (earlier : Earlier) (own : Handle) (s : SelectNode) :
    Plan String := do
  match (← get).pages.lookup own with
  | some name => return name
  | none =>
      let reading ← readSource earlier true s.source
      let page : Reading :=
        { reading with
          selection := .empty, ordering := s.ordering, limit := s.limit, offset := s.offset }
      let scan ← scanReading schema earlier page []
      let name ← Plan.freshStage
      inheritWritten scan.stage name
      Plan.addStage ⟨name, .select scan.select, scan.relation, some scan.qualifier, scan.stage⟩
      modify fun st => { st with pages := (own, name) :: st.pages }
      return name

/-- The reading of a select over a source. A page that something else is read of is a stage. -/
def readSelect (schema : Schema) (earlier : Earlier) (enclosed : Bool) (own : Handle)
    (s : SelectNode) : Plan Reading := do
  if s.isPaged && enclosed then
    let page ← stagePage schema earlier own s
    return { Reading.ofBase (.stage page) with selection := s.selection, ordering := s.ordering }
  else
    let reading ← readSource earlier true s.source
    return { reading with
      selection := s.selection, ordering := s.ordering, limit := s.limit, offset := s.offset }

/-- A node as a reading, given how the nodes before it are planned. -/
def readNode (past : Graph) (earlier : Earlier) (enclosed : Bool) (own : Handle) (node : Node) :
    Plan Reading := do
  match node with
  | .select s => readSelect past.schema earlier enclosed own s
  | .filter source condition =>
      let reading ← readSource earlier true source
      return { reading with conditions := reading.conditions ++ [condition] }
  | .common queries =>
      match queries.getLast? with
      | none => throw (.conflictingArguments .noQueries)
      | some last =>
          queries.dropLast.forM fun h => discard (earlier.stage h)
          earlier.read enclosed last
  | .values columns rows =>
      return .ofBase (.values columns rows (columns.map fun _ => none))
  | write =>
      match ← stageWrite past earlier own write with
      | some name => return .ofBase (.stage name)
      | none => throw (.unknownNode own)

/-- The reading of a node: that of its stage, if it has one. -/
def readAt (past : Graph) (earlier : Earlier) (enclosed : Bool) (own : Handle) (node : Node) :
    Plan Reading := do
  match ← Plan.stageOf? own with
  | some name => return .ofBase (.stage name)
  | none => readNode past earlier enclosed own node

/-- The SELECT of a node. -/
def scanAt (past : Graph) (earlier : Earlier) (own : Handle) (node : Node)
    (scope : List String) : Plan Scan := do
  let reading ← readAt past earlier false own node
  scanReading past.schema earlier reading scope

/-- The sub-select of a node that gives one column. A write without a selection gives its primary
key. -/
def subselectAt (past : Graph) (earlier : Earlier) (own : Handle) (node : Node) :
    Plan Statement := do
  let reading ← readAt past earlier false own node
  let reading ←
    if node.isMutation && reading.selection.isEmpty then
      match ← (past.push node).relationOf (.node own) with
      | some id => do
          let r ← past.schema.relation id
          pure { reading with selection := .ofFields [r.primaryKey] }
      | none => pure reading
    else pure reading
  let scan ← scanReading past.schema earlier reading []
  return .select scan.select

/-! ### Stages -/

/-- A node as a stage, given how the nodes before it are planned. -/
def stageNode (past : Graph) (earlier : Earlier) (own : Handle) (node : Node) : Plan String := do
  match node with
  | .common queries =>
      let names ← queries.mapM earlier.stage
      match names.getLast? with
      | none => throw (.conflictingArguments .noQueries)
      | some last =>
          Plan.setStage own last
          return last
  | node =>
      match ← stageWrite past earlier own node with
      | some name => return name
      | none =>
          let scan ← scanAt past earlier own node []
          let name ← Plan.freshStage
          Plan.addStage
            ⟨name, .select scan.select, scan.relation, some scan.qualifier, scan.stage⟩
          Plan.setStage own name
          return name

/-- The stage of a node, which is made if there is none yet. -/
def stageAt (past : Graph) (earlier : Earlier) (own : Handle) (node : Node) : Plan String := do
  match ← Plan.stageOf? own with
  | some name => return name
  | none => stageNode past earlier own node

/-- How nodes are planned when one more is added to a graph. -/
def Earlier.push (earlier : Earlier) (past : Graph) (node : Node) : Earlier :=
  let own := past.nextHandle
  { stage := fun h => if h = own then stageAt past earlier own node else earlier.stage h
    read := fun enclosed h =>
      if h = own then readAt past earlier enclosed own node else earlier.read enclosed h
    scan := fun h scope =>
      if h = own then scanAt past earlier own node scope else earlier.scan h scope
    subselect := fun h =>
      if h = own then subselectAt past earlier own node else earlier.subselect h }

/-- How the nodes of a list, the newest first, are planned. A node is planned with nothing but the
nodes before it. -/
def Earlier.ofNodes (id : Nat) (schema : Schema) : List Node → Earlier
  | [] => .none
  | node :: rest => (Earlier.ofNodes id schema rest).push ⟨id, schema, rest⟩ node

/-- How the nodes of a graph are planned. -/
def Graph.planner (g : Graph) : Earlier := Earlier.ofNodes g.id g.schema g.nodes

end StagedSql
