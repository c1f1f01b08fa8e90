import StagedSql.Proofs.Graph.Builds

/-!
Chains of selects and filters.

Reading operations build a chain of select and filter nodes over a source. What they ask for is a
`View`; the nodes are found again in the graph (`runAll_views`).
-/

namespace StagedSql

variable {first g : Graph} {base : Source}

/-! ### Operations -/

/-- An operation that reads. -/
inductive ReadOp where
  | select (selection : Selection)
  | filter (condition : Condition)
  | orderBy (spec : String)
  | limit (n : UInt64)
  | offset (n : UInt64)

def ReadOp.run (q : Query) : ReadOp → Build Query
  | .select selection => q.select selection
  | .filter condition => q.filter condition
  | .orderBy spec => q.orderBy spec
  | .limit n => q.limit n
  | .offset n => q.offset n

def ReadOp.runAll (q : Query) : List ReadOp → Build Query
  | [] => pure q
  | op :: rest => do ReadOp.runAll (← op.run q) rest

/-! ### Views -/

/-- What a select asks of the rows that it reads. -/
structure Asked where
  selection : Selection
  ordering : List SortKey
  limit : Option UInt64
  offset : Option UInt64

/-- All columns of all rows in any order. -/
def Asked.nothing : Asked := ⟨.empty, [], none, none⟩

def Asked.isPaged (a : Asked) : Bool := a.limit.isSome || a.offset.isSome

/-- The select of a source that asks this. -/
def Asked.node (a : Asked) (source : Source) : SelectNode :=
  ⟨source, a.selection, a.ordering, a.limit, a.offset⟩

/-- A chain of selects and filters over a base. -/
inductive View where
  | base
  | select (source : View) (asked : Asked)
  | filter (source : View) (condition : Condition)

namespace View

/-- The select on top, and otherwise one that asks nothing. -/
def parts : View → View × Asked
  | .select source asked => (source, asked)
  | view => (view, .nothing)

/-- The select on top asks something else. -/
def ask (view : View) (change : Asked → Asked) : View := .select view.parts.1 (change view.parts.2)

/-- What the outermost select asks. -/
def asked : View → Asked
  | .base => .nothing
  | .select _ asked => asked
  | .filter source _ => source.asked

def conditions : View → List Condition
  | .base => []
  | .select source _ => source.conditions
  | .filter source condition => source.conditions ++ [condition]

def sortColumns : View → List String
  | .base => []
  | .select source asked => source.sortColumns ++ asked.ordering.map (·.column)
  | .filter source _ => source.sortColumns

end View

/-- **What an operation makes of a chain**: a filter is put on top, and anything else is asked of
the select on top. -/
def ReadOp.apply (view : View) : ReadOp → View
  | .select selection => view.ask fun a => { a with selection }
  | .filter condition => .filter view condition
  | .orderBy spec => view.ask fun a => { a with ordering := a.ordering ++ [SortKey.parse spec] }
  | .limit n => view.ask fun a => { a with limit := some n }
  | .offset n => view.ask fun a => { a with offset := some n }

/-- The chain of operations one after the other. -/
def ReadOp.view (ops : List ReadOp) : View := ops.foldl ReadOp.apply .base

/-! ### Nodes of a chain -/

/-- A source that a chain starts from: a relation, an insert, or rows that are written out. -/
inductive Graph.IsBase (g : Graph) : Source → Prop
  | relation (id : RelationId) : g.IsBase (.relation id)
  | insert {past : Graph} {id : RelationId} {payload : Payload}
      {reverse : List (String × List Handle)}
      (hnode : (past.push (.insert id payload reverse)).Within g) : g.IsBase (.node past.nextHandle)
  | values {past : Graph} {columns : List String} {rows : List (List Value)}
      (hnode : (past.push (.values columns rows)).Within g) : g.IsBase (.node past.nextHandle)

/-- **The nodes of a chain** over a base that is there in the graph `first`. -/
inductive Graph.Views (first : Graph) (base : Source) : Graph → Source → View → Prop
  | base {g : Graph} (hbase : first.IsBase base) (hg : first.Within g) :
      Views first base g base .base
  | select {g past : Graph} {source : Source} {view : View} {asked : Asked}
      (hsource : Views first base past source view)
      (hnode : (past.push (.select (asked.node source))).Within g) :
      Views first base g (.node past.nextHandle) (.select view asked)
  | filter {g past : Graph} {source : Source} {view : View} {condition : Condition}
      (hsource : Views first base past source view)
      (hnode : (past.push (.filter source condition)).Within g) :
      Views first base g (.node past.nextHandle) (.filter view condition)

namespace Graph

variable {g' : Graph} {source : Source} {view : View}

lemma Views.mono (hv : Views first base g source view) (hg : g.Within g') :
    Views first base g' source view := by
  cases hv with
  | base hbase hfirst => exact .base hbase (hfirst.trans hg)
  | select hsource hnode => exact .select hsource (hnode.trans hg)
  | filter hsource hnode => exact .filter hsource (hnode.trans hg)

lemma Views.within (hv : Views first base g source view) : first.Within g := by
  induction hv with
  | base _ hg => exact hg
  | select _ hnode ih => exact ih.trans ((within_push _ _).trans hnode)
  | filter _ hnode ih => exact ih.trans ((within_push _ _).trans hnode)

/-- The relation of a node is that of the graph in which it was added. -/
lemma Within.relationOfNode_eq {past : Graph} {node : Node} (h : (past.push node).Within g) :
    g.relationOf (.node past.nextHandle) = (past.push node).relationOf (.node past.nextHandle) := by
  obtain ⟨newer, hn⟩ := h.nodes
  have hid : g.id = past.id := h.id
  change relationOfNode g.id g.nodes past.nextHandle =
    relationOfNode past.id (node :: past.nodes) past.nextHandle
  rw [hid, hn]
  clear h hn
  induction newer with
  | nil => rfl
  | cons n rest ih => exact (if_neg (nextHandle_ne past node rest)).trans ih

lemma Views.relationOf {id : RelationId} (hv : Views first (.relation id) g source view) :
    g.relationOf source = .ok (some id) := by
  induction hv with
  | base _ _ => rfl
  | @select g past source view asked _ hnode ih =>
    rw [hnode.relationOfNode_eq]
    refine (if_pos rfl).trans ?_
    cases source <;> exact ih
  | @filter g past source view condition _ hnode ih =>
    rw [hnode.relationOfNode_eq]
    refine (if_pos rfl).trans ?_
    cases source <;> exact ih

end Graph

/-! ### Building a chain -/

section Building

variable {view : View} {q : Query}

/-- **The select that operations change**: the one at the root, and otherwise one over the root. -/
inductive Query.Tops (g : Graph) (q : Query) : SelectNode → Prop
  | root {h : Handle} {s : SelectNode} (hroot : q.root = .node h)
      (hn : g.node h = .ok (.select s)) : q.Tops g s
  | above (hroot : ∀ h s, q.root = .node h → g.node h ≠ .ok (.select s)) :
      q.Tops g (.ofSource q.root .empty)

lemma selectNode_tops (q : Query) :
    Build.Ensures q.selectNode g fun s g' => g' = g ∧ q.Tops g s := by
  refine (Build.Keeps.rootNode? q).ensures.bind fun node? g' hnode => ?_
  obtain ⟨rfl, hnode⟩ := hnode
  split
  · obtain ⟨h, hroot, hn⟩ := (hnode _).mp rfl
    exact .of_pure ⟨rfl, .root hroot hn⟩
  · rename_i hother
    refine .of_pure ⟨rfl, .above fun h s hroot hn => ?_⟩
    exact hother s ((hnode _).mpr ⟨h, hroot, hn⟩)

namespace ReadOp

def isFilter : ReadOp → Bool
  | .filter _ => true
  | _ => false

/-- What an operation other than a filter makes of a select. -/
def change (s : SelectNode) : ReadOp → SelectNode
  | .select selection => { s with selection }
  | .filter _ => s
  | .orderBy spec => { s with ordering := s.ordering ++ [SortKey.parse spec] }
  | .limit n => { s with limit := some n }
  | .offset n => { s with offset := some n }

/-- The column that an operation orders by. -/
def sortColumns : ReadOp → List String
  | .orderBy spec => [(SortKey.parse spec).column]
  | _ => []

/-- **An operation other than a filter** changes the select on top. A column that it orders the rows
of a relation by has been found there and is not a reverse one. -/
lemma run_changes (op : ReadOp) (hop : op.isFilter = false) :
    Build.Ensures (op.run q) g fun q' g' => ∃ s, q.Tops g s ∧
      (∀ id r, g.relationOf s.source = .ok (some id) → g.schema.relation id = .ok r →
        ∀ name ∈ op.sortColumns, name ∈ r.storedNames) ∧
      g' = g.push (.select (op.change s)) ∧ q' = { q with root := .node g.nextHandle } := by
  cases op with
  | filter condition => cases hop
  | select selection =>
    refine (selectNode_tops q).bind fun s g' hs => ?_
    obtain ⟨rfl, hs⟩ := hs
    refine .get_bind (.lift_bind fun id? _ => ?_)
    cases id? with
    | none => exact .push_bind (.of_pure ⟨s, hs, by simp [sortColumns], rfl, rfl⟩)
    | some id =>
      exact .lift_bind fun _ _ => .push_bind (.of_pure ⟨s, hs, by simp [sortColumns], rfl, rfl⟩)
  | orderBy spec =>
    refine (selectNode_tops q).bind fun s g' hs => ?_
    obtain ⟨rfl, hs⟩ := hs
    refine .get_bind (.lift_bind fun id? hid => ?_)
    change g'.relationOf s.source = .ok id? at hid
    cases id? with
    | none => exact .push_bind (.of_pure ⟨s, hs, by simp [hid], rfl, rfl⟩)
    | some id =>
      refine .lift_bind fun r hr => .lift_bind fun c hc => ?_
      split
      · exact .of_error rfl
      · rename_i hreverse
        refine .push_bind (.of_pure ⟨s, hs, fun id' r' hid' hr' => ?_, rfl, rfl⟩)
        cases hid.symm.trans hid'
        cases hr.symm.trans hr'
        exact List.forall_mem_singleton.mpr
          (Relation.mem_storedNames (Relation.column_eq_ok.mp hc) (by simpa using hreverse))
  | limit n | offset n =>
    refine (selectNode_tops q).bind fun s g' hs => ?_
    obtain ⟨rfl, hs⟩ := hs
    exact .push_bind (.of_pure ⟨s, hs, by simp [sortColumns], rfl, rfl⟩)

end ReadOp

/-- Whether a node takes the condition of a filter into its own. -/
def Node.takesFilter : Node → Bool
  | .update .. | .delete .. => true
  | _ => false

lemma filter_pushes (condition : Condition)
    (hroot : ∀ h node, q.root = .node h → g.node h = .ok node → node.takesFilter = false) :
    Build.Ensures (q.filter condition) g fun q' g' =>
      g' = g.push (.filter q.root condition) ∧ q' = { q with root := .node g.nextHandle } := by
  refine (Build.Keeps.checkNodes _).ensures.bind fun _ g' hg => ?_
  obtain ⟨rfl, -⟩ := hg
  refine (Build.Keeps.rootNode? q).ensures.bind fun node? g' hnode => ?_
  obtain ⟨rfl, hnode⟩ := hnode
  split
  · obtain ⟨h, hr, hn⟩ := (hnode _).mp rfl
    cases hroot h _ hr hn
  · obtain ⟨h, hr, hn⟩ := (hnode _).mp rfl
    cases hroot h _ hr hn
  · exact .push_bind (.of_pure ⟨rfl, rfl⟩)

/-- What operations change at the top of a chain is what its view asks. -/
lemma Graph.Views.tops {s : SelectNode} (hv : first.Views base g q.root view) (hs : q.Tops g s) :
    ∃ source, s = view.parts.2.node source ∧ first.Views base g source view.parts.1 := by
  obtain ⟨id, root, branches⟩ := q
  cases hv with
  | base hbase hg =>
    cases hs with
    | root hroot hn =>
      cases hbase with
      | relation id => cases hroot
      | insert hnode | values hnode =>
        cases hroot
        cases (hnode.trans hg).node_eq.symm.trans hn
    | above => exact ⟨root, rfl, .base hbase hg⟩
  | select hsource hnode =>
    cases hs with
    | root hroot hn =>
      cases hroot
      cases hnode.node_eq.symm.trans hn
      exact ⟨_, rfl, hsource.mono ((within_push _ _).trans hnode)⟩
    | above hroot => exact (hroot _ _ rfl hnode.node_eq).elim
  | filter hsource hnode =>
    cases hs with
    | root hroot hn =>
      cases hroot
      cases hnode.node_eq.symm.trans hn
    | above => exact ⟨_, rfl, .filter hsource hnode⟩

lemma Graph.Views.takesFilter {h : Handle} {node : Node} (hv : first.Views base g (.node h) view)
    (hn : g.node h = .ok node) : node.takesFilter = false := by
  cases hv with
  | base hbase hg =>
    cases hbase with
    | insert hnode | values hnode =>
      cases (hnode.trans hg).node_eq.symm.trans hn
      rfl
  | select _ hnode | filter _ hnode =>
    cases hnode.node_eq.symm.trans hn
    rfl

/-- What is known of the columns that a chain orders by: over a relation they are stored. -/
def View.SortsStored (view : View) (schema : Schema) (base : Source) : Prop :=
  ∀ id r, base = .relation id → schema.relation id = .ok r →
    ∀ name ∈ view.sortColumns, name ∈ r.storedNames

lemma View.sortColumns_parts (view : View) :
    view.parts.1.sortColumns ++ view.parts.2.ordering.map (·.column) = view.sortColumns := by
  cases view <;> simp [parts, sortColumns, Asked.nothing]

lemma ReadOp.sortColumns_apply (op : ReadOp) (view : View) :
    (op.apply view).sortColumns = view.sortColumns ++ op.sortColumns := by
  cases op <;> simp [apply, View.ask, View.sortColumns, sortColumns, ← view.sortColumns_parts]

/-- **An operation builds the nodes of what it makes of a chain.** -/
lemma run_views (op : ReadOp) (hv : first.Views base g q.root view)
    (hsorts : view.SortsStored first.schema base) :
    Build.Ensures (op.run q) g fun q' g' =>
      (first.Views base g' q'.root (op.apply view) ∧ q'.graph = q.graph ∧
        q'.branches = q.branches) ∧ (op.apply view).SortsStored first.schema base := by
  cases hop : op.isFilter with
  | true =>
    cases op <;> cases hop
    refine (filter_pushes _ fun h node hroot hn => (hroot ▸ hv).takesFilter hn).mono ?_
    rintro _ _ ⟨rfl, rfl⟩
    exact ⟨⟨.filter hv (.refl _), rfl, rfl⟩, hsorts⟩
  | false =>
    refine (op.run_changes hop).mono ?_
    rintro _ _ ⟨s, hs, hstored, rfl, rfl⟩
    obtain ⟨source, rfl, hsource⟩ := hv.tops hs
    have hview : first.Views base (g.push (.select (op.change (view.parts.2.node source))))
        (.node g.nextHandle) (op.apply view) := by
      cases op <;> first | exact .select hsource (.refl _) | cases hop
    refine ⟨⟨hview, rfl, rfl⟩, fun id r hbase hr name hname => ?_⟩
    rw [ReadOp.sortColumns_apply] at hname
    rcases List.mem_append.mp hname with hname | hname
    · exact hsorts id r hbase hr name hname
    · subst hbase
      rw [← hsource.within.schema] at hr
      exact hstored id r hsource.relationOf hr name hname

/-- **Operations one after the other build the nodes of their chain**, by induction on the
operations. -/
lemma runAll_views (ops : List ReadOp) (hv : first.Views base g q.root view)
    (hsorts : view.SortsStored first.schema base) :
    Build.Ensures (ReadOp.runAll q ops) g fun q' g' =>
      (first.Views base g' q'.root (ops.foldl ReadOp.apply view) ∧ q'.graph = q.graph ∧
        q'.branches = q.branches) ∧
      (ops.foldl ReadOp.apply view).SortsStored first.schema base := by
  induction ops generalizing g q view with
  | nil => exact .of_pure ⟨⟨hv, rfl, rfl⟩, hsorts⟩
  | cons op rest ih =>
    refine (run_views op hv hsorts).bind fun q' g' hq => ?_
    grind

end Building

end StagedSql
