import StagedSql.Proofs.Graph.CheckedNodes
import StagedSql.Proofs.Plan.ConditionLaws
import StagedSql.Proofs.Plan.WritesOnce
import StagedSql.Proofs.Selection.Interleaving

/-!
The columns that sub-selects list.

A SELECT lists the names of its selection, and is a SELECT of all columns if there are none. The
sub-select of an operand or of a value is narrowed to one column only if its node is a write.
-/

namespace StagedSql

open List Plan

variable {g : Graph} {s : PlanState} {h : Handle} {node : Node} {r : Reading} {source : Source}

/-! ### Operands and values -/

lemma Graph.Reads.selection_of_write (hr : g.Reads s (.node h) r) (hn : g.node h = .ok node)
    (hm : node.isMutation = true) : r.selection = .empty := by
  cases hr with
  | stage => rfl
  | _ =>
    simp_all only [Except.ok.injEq]
    subst hn
    first | rfl | cases hm

/-- **What the sub-select of a node lists**, in a state: the primary key if the node is a write, and
else the names with which it is read. -/
inductive Graph.Narrows (g : Graph) (s : PlanState) (h : Handle) : Select → Prop
  | write {node : Node} {id : RelationId} {relation : Relation} {select : Select}
      (hn : g.node h = .ok node) (ht : node.target? = some id)
      (hr : g.schema.relation id = .ok relation)
      (hl : ListsNames select.projection [relation.primaryKey]) : Narrows g s h select
  | read {node : Node} {r : Reading} {select : Select} (hn : g.node h = .ok node)
      (hm : node.isMutation = false) (hr : g.Reads s (.node h) r)
      (hl : ListsNames select.projection r.selection.listed) : Narrows g s h select

lemma subselect_narrows (hn : g.node h = .ok node) : Ensures (g.planner.subselect h) s
    fun query _ => ∃ select, query = .select select ∧ g.Narrows s h select := by
  obtain ⟨past, hw, rfl⟩ := Graph.exists_of_node hn
  have hbefore : past.Within g := (Graph.within_push past node).trans hw
  rw [hw.planner_eq.2.2.2, subselectAt]
  refine (Graph.readAt_reads hbefore.reads hn false).bind fun r s1 hr => ?_
  dsimp only
  split
  · rename_i hm
    obtain ⟨id, ht⟩ : ∃ id, node.target? = some id := by
      cases node <;> simp_all [Node.isMutation, Node.target?]
    rw [Graph.relationOf_write (Graph.Within.refl (past.push node)).node_eq ht]
    refine .lift_bind fun _ hid => ?_
    cases hid
    refine .lift_bind fun relation hrelation => ?_
    rw [pure_bind]
    refine (scanReading_lists _ _).bind fun scan _ hl => .of_pure ⟨_, rfl, .write hn ht ?_ hl⟩
    rwa [hw.schema]
  · rename_i hm
    rw [pure_bind]
    refine (scanReading_lists _ _).bind fun scan _ hl => .of_pure ⟨_, rfl, .read hn ?_ hr hl⟩
    cases hwrite : node.isMutation with
    | false => rfl
    | true =>
      rw [hwrite, hr.selection_of_write hn hwrite] at hm
      exact (hm rfl).elim

/-- **Operands and values list what they select.** A node that a condition compares with or that is
the value of a column becomes a SELECT of the primary key if it is a write. Otherwise it lists the
names of the selection with which it is read, however many there are, and all columns if there are
none. The key of the row around a row is a SELECT of one column. -/
theorem operand_sub_selects_list_selections (hn : g.node h = .ok node) (s : PlanState) :
    (∀ key path relation q, Ensures
      (Condition.leaf g.planner.context key path (.query h) relation q) s fun e _ =>
        ∃ select, g.Narrows s h select ∧
        (e = .binary .eq (.of q path.field) (.subquery (.select select)) ∨
          ∃ negated, e = .inQuery negated (.of q path.field) (.select select))) ∧
    (∀ column, Ensures (payloadExpr g.planner column (.query h)) s fun e _ =>
      ∃ select, e = .subquery (.select select) ∧ g.Narrows s h select) ∧
    ∀ column, Ensures (payloadExpr g.planner column .parentKey) s fun e _ =>
      ∃ select key, e = .subquery (.select select) ∧ ListsNames select.projection [key] := by
  refine ⟨fun key path relation q => ?_, fun column => ?_, fun column => ?_⟩
  · rw [Condition.leaf]
    split
    · dsimp only
      split
      · exact .throw_bind
      · refine Ensures.bind (subselect_narrows hn) fun query _ hquery => ?_
        obtain ⟨select, rfl, hnarrow⟩ := hquery
        refine .of_lift fun e he => ⟨select, hnarrow, ?_⟩
        cases hop : path.op <;> simp_all [compareQuery]
    · exact .of_throw
  · refine (subselect_narrows hn).bind fun query _ hquery => .of_pure ?_
    obtain ⟨select, rfl, hnarrow⟩ := hquery
    exact ⟨select, rfl, hnarrow⟩
  · refine .bind_any fun st _ => ?_
    split
    · exact .of_throw
    · exact .bind_any fun _ _ => .of_pure ⟨_, _, rfl, rfl⟩

/-- Movies that are compared with a query of all movies. -/
def movieShelf : Graph where
  id := 0
  schema := ⟨0, [⟨"movie", [.primary "id", .scalar "title"]⟩]⟩
  nodes :=
    [.filter (.relation ⟨0, 0⟩) (.lookup "id__in" (.query ⟨0, 0⟩)),
      .select (.ofSource (.relation ⟨0, 0⟩) .empty)]

/-- The query of all movies is an operand with all their columns. -/
theorem movie_operand_lists_all_columns : ∃ select : Select,
    (⟨0, .node ⟨0, 1⟩, []⟩ : Query).toStatement movieShelf = .ok (jsonRows { Select.empty with
      source := some (.table "movie" none)
      condition := some (.inQuery false (.of "movie" "id") (.select select)) }) ∧
    movieShelf.Narrows .initial ⟨0, 0⟩ select ∧ select.projection = [] := by
  obtain ⟨select, hnarrow, he | ⟨negated, he⟩⟩ :=
    (operand_sub_selects_list_selections (g := movieShelf) (h := ⟨0, 0⟩) rfl .initial).1 "id__in"
      ⟨[], "id", .isIn⟩ ⟨"movie", [.primary "id", .scalar "title"]⟩ "movie" _ _ rfl
  · cases he
  · cases he
    exact ⟨_, rfl, hnarrow, rfl⟩

/-! ### Whole rows -/

/-- **A query fills columns of a relation**: it is a SELECT, and each column is the name of the item
in its place and stored in the relation. -/
def Relation.Fills (relation : Relation) (columns : List String) (query : Statement) : Prop :=
  (∃ select, query = .select select ∧ ListsNames select.projection columns) ∧
    ∀ c ∈ columns, ∃ column, relation.column? c = some column ∧ column.isReverse = false

/-- **A write of whole rows lines up**: the rows of an INSERT .. SELECT, or of an UPDATE that sets
columns to those of a SELECT, fill the columns that it names of its relation. -/
def Statement.LinesUp (schema : Schema) : Statement → Prop
  | .insert s => ∀ query, s.source = .query query →
      ∃ relation ∈ schema.relations, relation.name = s.table ∧ relation.Fills s.columns query
  | .update s => ∀ columns query, s.assignments = .query columns query →
      ∃ relation ∈ schema.relations, relation.name = s.table ∧ relation.Fills columns query
  | _ => True

/-- **A statement writes the rows of a node's query** into the relation of the node. -/
def Node.WritesRows (schema : Schema) : Node → Statement → Prop
  | .insert id (.query _) _, .insert s => ∃ relation query, schema.relation id = .ok relation ∧
      s.table = relation.name ∧ s.source = .query query
  | .update id (.query _) _, .update s => ∃ relation columns query,
      schema.relation id = .ok relation ∧ s.table = relation.name ∧
        s.assignments = .query columns query
  | _, _ => False

lemma Statement.LinesUp.giving {schema : Schema} {statement : Statement}
    {qualifier : Option String} {required : Required} (hl : statement.LinesUp schema) :
    (statement.giving qualifier required).LinesUp schema := by
  cases statement <;> cases qualifier <;> cases required <;> exact hl

lemma Node.WritesRows.giving {schema : Schema} {statement : Statement} {qualifier : Option String}
    {required : Required} (hw : node.WritesRows schema statement) :
    node.WritesRows schema (statement.giving qualifier required) := by
  unfold WritesRows at hw
  split at hw
  · exact hw
  · exact hw
  · exact hw.elim

end StagedSql
