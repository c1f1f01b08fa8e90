import StagedSql.Graph.Basic
import StagedSql.Graph.Changes

/-!
Building queries.

A query is a root, which is a relation or a node, and branches, which are run before it. Every
operation adds nodes to the graph and gives a new query; no node is ever changed. Queries start with
`Query.ofTable`, `Query.ofValues` and `Query.common`.
-/

namespace StagedSql

/-- A computation that adds nodes to a graph and may fail. -/
abbrev Build := ExceptT Error (StateM Graph)

/-- A root and the branches that are run before it. -/
structure Query where
  graph : Nat
  root : Source
  branches : List Handle
  deriving DecidableEq

/-- Adds a node. -/
def pushNode (node : Node) : Build Handle := do
  let g ← get
  set (g.push node)
  return g.nextHandle

/-- The node of a handle. -/
def nodeOf (h : Handle) : Build Node := do
  let g ← get
  g.node h

/-! ### Checking selections -/

mutual

/-- Checks a selection against the relation whose rows it shapes. -/
def checkSelection (g : Graph) (id : RelationId) : Selection → Except Error Unit
  | ⟨fields, lookups⟩ => do
      let r ← g.schema.relation id
      fields.forM fun name => discard (r.column name)
      checkLookups g r lookups

/-- Checks the lookups of a selection. -/
def checkLookups (g : Graph) (r : Relation) : List (String × Lookup) → Except Error Unit
  | [] => pure ()
  | (name, lookup) :: rest => do
      let c ← r.column name
      match c.related? with
      | none => throw (.notARelation name r.name)
      | some target => do
          let id ← g.schema.resolve target
          checkLookup g r name target id lookup
      checkLookups g r rest

/-- Checks a lookup through a column that leads to the relation `target`. -/
def checkLookup (g : Graph) (r : Relation) (name target : String) (id : RelationId) :
    Lookup → Except Error Unit
  | .nested s => checkSelection g id s
  | .query h => discard (g.node h)
  | .recursive s _ => do
      if target ≠ r.name then throw (.unsupportedLookup name (.pointsElsewhere name target))
      checkSelection g id s

end

/-! ### Payloads -/

/-- Whether rows are added or changed. -/
inductive WriteMode where
  | insert
  | update
  deriving DecidableEq

/-- Adds a select of the primary key of what a node gives. -/
def keyOf (h : Handle) : Build Handle := do
  let g ← get
  match ← g.relationOf (.node h) with
  | none => throw (.invalidValue "values" .noPrimaryKey)
  | some id => do
      let r ← g.schema.relation id
      pushNode (.select (.ofSource (.node h) (.ofFields [r.primaryKey])))

/-- A node whose rows have one column: a write is read through its primary key. -/
def scalarOf (h : Handle) : Build Handle := do
  let node ← nodeOf h
  if node.isMutation then keyOf h else pure h

/-- What has been made of the changes of a row: the values to write, and the inserts that refer
back, by reverse column. -/
structure RowParts where
  values : List (String × PayloadValue)
  reverse : List (String × List Handle)

namespace RowParts

/-- No change yet. -/
def empty : RowParts := ⟨[], []⟩

/-- The parts with one more value. -/
def addValue (p : RowParts) (name : String) (v : PayloadValue) : RowParts :=
  { p with values := p.values ++ [(name, v)] }

/-- The parts with inserts through one more reverse column. -/
def addReverse (p : RowParts) (name : String) (handles : List Handle) : RowParts :=
  { p with reverse := p.reverse ++ [(name, handles)] }

end RowParts

mutual

/-- The payload of changes to a relation, and the inserts that refer back. Rows that are inserted
first are added as nodes on the way. -/
def payloadOf (id : RelationId) (mode : WriteMode) :
    Changes → Build (Payload × List (String × List Handle))
  | ⟨entries, some source⟩ => do
      if !entries.isEmpty then throw (.conflictingArguments .valuesAndSource)
      discard (nodeOf source)
      return (.query source, [])
  | ⟨entries, none⟩ => do
      let r ← (← get).schema.relation id
      let parts ← partsOf r mode .empty entries
      return (.values parts.values, parts.reverse)

/-- Adds the changes of columns to the parts of a row. -/
def partsOf (r : Relation) (mode : WriteMode) (parts : RowParts) :
    List (String × Change) → Build RowParts
  | [] => pure parts
  | (name, change) :: rest => do
      let c ← r.column name
      let parts ← changeInto c name mode parts change
      partsOf r mode parts rest

/-- Adds the change of a column to the parts of a row. -/
def changeInto (c : Column) (name : String) (mode : WriteMode) (parts : RowParts) :
    Change → Build RowParts
  | .value v => do
      if c.isReverse then throw (.invalidValue name .reverseTakesRows)
      return parts.addValue name (.value v)
  | .query h => do
      if c.isReverse then throw (.invalidValue name .reverseTakesRows)
      return parts.addValue name (.query (← scalarOf h))
  | .nested changes =>
      match c.kind with
      | .forward target => do
          let id ← (← get).schema.resolve target
          let (payload, reverse) ← payloadOf id .insert changes
          let h ← pushNode (.insert id payload reverse)
          return parts.addValue name (.query (← keyOf h))
      | _ => throw (.invalidValue name .nestedNeedsForward)
  | .many rows => do
      if mode = .update then throw (.invalidValue name .rowsOnlyOnInsert)
      match c.kind with
      | .reverse target via => do
          let id ← (← get).schema.resolve target
          return parts.addReverse name (← rowsInto name via id rows)
      | _ => throw (.invalidValue name .rowsNeedReverse)

/-- Adds inserts of rows of a relation whose column `via` takes the key of their parent row. -/
def rowsInto (name via : String) (id : RelationId) : List Changes → Build (List Handle)
  | [] => pure []
  | row :: rest => do
      if row.contains via then throw (.conflictingArguments (.parentColumn via name))
      match ← payloadOf id .insert row with
      | (.query _, _) => throw (.conflictingArguments (.rowsFromQuery name))
      | (.values values, reverse) => do
          let h ← pushNode (.insert id (.values (values ++ [(via, .parentKey)])) reverse)
          return h :: (← rowsInto name via id rest)

end

namespace Query

/-! ### Starting points -/

/-- A query whose root is a new node. -/
def ofNode (node : Node) : Build Query := do
  let h ← pushNode node
  return ⟨h.graph, .node h, []⟩

/-- The rows of a relation. -/
def ofTable (name : String) : Build Query := do
  let g ← get
  let id ← g.schema.resolve name
  return ⟨g.id, .relation id, []⟩

/-- Rows that are written out: at least one, all as long as the list of columns. -/
def ofValues (columns : List String) (rows : List (List Value)) : Build Query := do
  if columns.isEmpty then throw (.invalidValue "values" .noColumns)
  if rows.isEmpty then throw (.invalidValue "values" .noRows)
  match rows.zipIdx.find? fun row => row.1.length != columns.length with
  | some (row, i) =>
      throw (.invalidValue "values" (.rowLength i row.length columns.length))
  | none => ofNode (.values columns rows)

/-- Queries that are run in order, the last one giving the rows. -/
def commonOf (handles : List Handle) : Build Query := do
  if handles.isEmpty then throw (.conflictingArguments .noQueries)
  ofNode (.common handles)

/-- A node that stands for a query: a relation is read by a select, and branches are run before
the root. -/
def handle (q : Query) : Build Handle := do
  let root ← match q.root with
    | .node h => pure h
    | .relation id => pushNode (.select (.ofSource (.relation id) .empty))
  if q.branches.isEmpty then pure root else pushNode (.common (q.branches ++ [root]))

/-- Queries of one graph that are run in order, the last one giving the rows. -/
def common (queries : List Query) : Build Query := do
  commonOf (← queries.mapM handle)

/-- Runs the root of this query before another one, from which it goes on. -/
def branch (q other : Query) : Query :=
  { graph := q.graph
    root := other.root
    branches := q.branches ++ q.root.handles ++ other.branches }

/-! ### Reading -/

/-- Puts a new node at the root. -/
def withNode (q : Query) (node : Node) : Build Query := do
  return { q with root := .node (← pushNode node) }

/-- The node at the root. -/
def rootNode? (q : Query) : Build (Option Node) :=
  match q.root with
  | .relation _ => pure none
  | .node h => return some (← nodeOf h)

/-- The select at the root, and otherwise one that reads the root. -/
def selectNode (q : Query) : Build SelectNode := do
  match ← q.rootNode? with
  | some (.select s) => pure s
  | _ => pure (.ofSource q.root .empty)

/-- Asks for columns and related rows. -/
def select (q : Query) (selection : Selection) : Build Query := do
  let s ← q.selectNode
  let g ← get
  match ← g.relationOf s.source with
  | some id => checkSelection g id selection
  | none => pure ()
  q.withNode (.select { s with selection })

/-- Keeps the rows that meet a condition. An update or a delete takes it into its own. -/
def filter (q : Query) (condition : Condition) : Build Query := do
  condition.handles.forM fun h => discard (nodeOf h)
  match ← q.rootNode? with
  | some (.update r payload existing) =>
      q.withNode (.update r payload (some (Condition.withExisting existing condition)))
  | some (.delete r existing) =>
      q.withNode (.delete r (some (Condition.withExisting existing condition)))
  | _ => q.withNode (.filter q.root condition)

/-- Orders the rows by one more column. -/
def orderBy (q : Query) (spec : String) : Build Query := do
  let s ← q.selectNode
  let key := SortKey.parse spec
  let g ← get
  match ← g.relationOf s.source with
  | some id => do
      let r ← g.schema.relation id
      let c ← r.column key.column
      if c.isReverse then throw (.invalidValue key.column .orderByReverse)
  | none => pure ()
  q.withNode (.select { s with ordering := s.ordering ++ [key] })

/-- Takes the first `n` rows. -/
def limit (q : Query) (n : UInt64) : Build Query := do
  let s ← q.selectNode
  q.withNode (.select { s with limit := some n })

/-- Leaves out the first `n` rows. -/
def offset (q : Query) (n : UInt64) : Build Query := do
  let s ← q.selectNode
  q.withNode (.select { s with offset := some n })

/-! ### Writing -/

/-- The kind of the node at the root. -/
def rootKind? (q : Query) : Build (Option NodeKind) := do
  let g ← get
  match q.root with
  | .relation _ => return none
  | .node h => return (g.node h).toOption.map Node.kind

/-- Inserts a row into the relation at the root. -/
def insert (q : Query) (changes : Changes) : Build Query := do
  match q.root with
  | .node _ => throw (.notInsertable (← q.rootKind?))
  | .relation id => do
      let (payload, reverse) ← payloadOf id .insert changes
      q.withNode (.insert id payload reverse)

/-- The relation at the root and the condition of the filters over it. -/
def mutationTarget (q : Query) : Build (RelationId × Option Condition) := do
  let g ← get
  match q.root with
  | .relation id => return (id, none)
  | .node h => do
      let (id, conditions) ← Graph.filterChain g.id g.nodes h
      return (id, Condition.joined? conditions)

/-- Changes the rows of a relation that meet the filters over it. -/
def update (q : Query) (changes : Changes) : Build Query := do
  let (id, condition) ← q.mutationTarget
  let (payload, _) ← payloadOf id .update changes
  q.withNode (.update id payload condition)

/-- Deletes the rows of a relation that meet the filters over it. -/
def delete (q : Query) : Build Query := do
  let (id, condition) ← q.mutationTarget
  q.withNode (.delete id condition)

end Query

end StagedSql
