import StagedSql.Proofs.Plan.InsertedRows
import StagedSql.Proofs.Plan.Ledger
import StagedSql.Proofs.Plan.Widening

/-!
An inserted tree of changes is written completely, once and correctly linked.
-/

namespace StagedSql

/-- The named statement of a number inserts a row. -/
structure Cte.Inserts (numbered : NewRow × Nat) (cte : Cte) : Prop where
  name : cte.name = rowName numbered.2
  statement : numbered.1.IsInsertedBy cte.statement

/-! ### Stages and statements -/

/-- **Widening leaves the INSERT of a row one of that row.** -/
lemma inserts_widened (rs : Requirements) (stages : List Stage) :
    List.Forall₂ (fun a b => ∀ numbered, Stage.Inserts numbered a → Stage.Inserts numbered b)
      stages (widenStages rs stages) := by
  refine widenStages_forall₂ (fun rs stage numbered hrow => ?_) rs stages
  rw [widenStage_eq]
  refine ⟨hrow.name, hrow.relation, ?_⟩
  obtain ⟨es, returning, hstatement, hcells⟩ := hrow.statement
  dsimp only [Stage.given]
  cases rs.lookup stage.name with
  | none => exact hrow.statement
  | some required =>
    rw [hstatement]
    exact ⟨es, returning.widen required, rfl, hcells⟩

/-- A statement binds the values of its stages, one after the other. -/
lemma withStages_params (stages : List Stage) (body : Statement) :
    (withStages stages body).params =
      stages.flatMap (fun stage => stage.statement.params) ++ body.params := by
  cases stages with
  | nil => rfl
  | cons stage rest =>
    change (Statement.withCtes false _ body).params = _
    rw [Statement.params_withCtes, List.flatMap_map]

lemma jsonRows_params {inner : Select} (h : (Statement.select inner).params = []) :
    (jsonRows inner).params = [] := by
  refine Select.params_eq_nil ?_ ?_ ?_ ?_ rfl
  · simp [Expr.rowToJson, Expr.apply]
  · simp [h]
  · simp [Select.empty]
  · simp [Select.empty]

lemma inserts_params {rows : List NewRow} {stages : List Stage} {n : Nat}
    (h : List.Forall₂ Stage.Inserts (rows.zipIdx n) stages) :
    stages.flatMap (fun stage => stage.statement.params) = rows.flatMap NewRow.values := by
  induction rows generalizing n stages with
  | nil =>
    cases h
    rfl
  | cons row rest ih =>
    cases h with
    | cons hrow hrest =>
      rw [List.flatMap_cons, List.flatMap_cons, ih hrest, hrow.statement.params]

/-! ### The statement of an insert -/

lemma scanStage_star {schema : Schema} {earlier : Earlier} {s : PlanState} {stage : Stage}
    {name : String} (hstage : s.stages.find? (·.name == name) = some stage) :
    Plan.Keeps quiet (scanReading schema earlier (.ofBase (.stage name)) []) s fun scan _ =>
      Statement.select scan.select = stageRows name := by
  refine .run_bind (openStage_run hstage) id (.refl s) (.run_bind rfl id (.refl s) ?_)
  refine ((needAll_plain name).quiet s).bind fun _ s1 _ _ => ?_
  refine Plan.Keeps.of_pure ?_
  rfl

/-- **The stages of a planned insert are the rows of its tree.** -/
lemma plan_insert {g : Graph} {r : Relation} {c : Changes} {h : Handle} {hs : List Handle}
    (hbuilt : c.Built g r none h hs) (hnodup : hs.Nodup) :
    Plan.Ensures (Query.plan g ⟨g.id, .node h, []⟩) .initial fun scan s =>
      List.Forall₂ Stage.Inserts ((c.newRows g.schema 0 r none).rows.zipIdx 1) s.stages ∧
        ∃ name, Statement.select scan.select = stageRows name := by
  have hbuilt' : c.Built g r ((none : Option ParentLink).map ParentLink.column) h hs := hbuilt
  have hread := (stageRow_staged c hbuilt' hnodup (s := .initial) (fun _ _ => rfl)
    PlanState.numbered_initial (by simp [PlanState.HasParent])).2 false
  cases hbuilt with
  | @row _ past id _ _ entries values reverse first last hr hentries hnode =>
  obtain ⟨-, hreadAt, hscan, -⟩ := hnode.planner_eq
  rw [hreadAt] at hread
  change Plan.Ensures (g.planner.scan past.nextHandle []) .initial _
  rw [hscan]
  refine hread.bind fun reading s hreading => ?_
  obtain ⟨name, rfl, hstaged⟩ := hreading
  obtain ⟨stage, hfound, -⟩ := hstaged.stage
  refine (scanStage_star hfound trivial).mono fun scan s' hscan => ?_
  obtain ⟨-, hquiet, hselect⟩ := hscan
  obtain ⟨more, hmore, hrows⟩ := hstaged.inserts.stages
  refine ⟨?_, name, hselect⟩
  rwa [hquiet.stages, hmore]

/-- **An inserted tree of changes is written completely, once and correctly linked.** The named
statements of the compiled insert are the rows of the tree in order. Each is an INSERT into its own
relation that binds each value and refers to other rows by the sub-select of their primary key, read
from their own named statements; for a nested row this is so if and only if the primary key of its
relation is a stored column. The arguments are the values of the rows in that order. -/
theorem insert_writes_tree {g g' : Graph} {name : String} {changes : Changes} {q : Query}
    {placeholder : Placeholder} {rendered : Rendered} (htree : changes.IsTree)
    (hinsert : (do (← Query.ofTable name).insert changes : Build Query) g = (.ok q, g'))
    (hcompile : q.compile g' placeholder = .ok rendered) :
    ∃ r statement, g.schema.get? name = some r ∧ q.toStatement g' = .ok statement ∧
      rendered = statement.render placeholder ∧
      List.Forall₂ Cte.Inserts ((changes.newRows g.schema 0 r none).rows.zipIdx 1)
        statement.ctes ∧
      rendered.args = (changes.newRows g.schema 0 r none).rows.flatMap NewRow.values := by
  obtain ⟨r, h, hs, hname, rfl, hbuilt, hspans⟩ := insert_ofTable_built htree q g' hinsert
  obtain ⟨statement, hstatement, hrendered⟩ := Except.bind_ok hcompile
  cases hrendered
  obtain ⟨⟨scan, s⟩, hplan, hrest⟩ := Except.bind_ok hstatement
  cases hrest
  obtain ⟨hrows, stage, hselect⟩ := plan_insert hbuilt hspans.nodup scan s hplan
  rw [hspans.within.schema] at hrows
  have hwidened := forall₂_step hrows (inserts_widened s.required s.stages)
    fun numbered a b hrow hab => hab numbered hrow
  refine ⟨r, _, hname, hstatement, rfl, ?_, ?_⟩
  · rw [withStages_ctes, List.forall₂_map_right_iff]
    exact hwidened.imp fun numbered stage hrow => ⟨hrow.name, hrow.statement⟩
  · have hbody : (jsonRows scan.select).params = [] :=
      jsonRows_params (by rw [hselect, stageRows_params])
    rw [Statement.render_args, withStages_params, inserts_params hwidened, hbody, List.append_nil]

/-! ### Films -/

/-- Movies of studios, with actors and their addresses. -/
def filmRelations : List Relation :=
  [⟨"studio", [.primary "id", .scalar "name"]⟩,
    ⟨"movie", [.primary "id", .scalar "title", .forward "studio" "studio",
      .reverse "actors" "actor" "movie"]⟩,
    ⟨"actor", [.primary "id", .scalar "name", .forward "movie" "movie",
      .forward "address" "address"]⟩,
    ⟨"address", [.primary "id", .scalar "country"]⟩]

/-- A movie with two actors, the first of whom has an address, and then its studio. -/
def filmTree : Changes :=
  ⟨[("title", .value (.text "Birds")), ("actors", .many [⟨[("name", .value (.text "Pilot")),
          ("address", .nested ⟨[("country", .value (.text "US"))], none⟩)], none⟩,
        ⟨[("name", .value (.text "Cook"))], none⟩]),
    ("studio", .nested ⟨[("name", .value (.text "North"))], none⟩)], none⟩

/-- Owners whose primary key is no stored column, and what belongs to them. -/
def ownerRelations : List Relation :=
  [⟨"owner", [.reverse "id" "pet" "owner"]⟩, ⟨"pet", [.primary "id", .forward "owner" "owner"]⟩]

/-- The five rows of the movie are written in order. For a pet with a new owner the sub-select of
the owner is not the one of its key. -/
theorem insert_writes_tree_film :
    (∃ (q : Query) (g' : Graph) (rendered : Rendered) (r : Relation) (statement : Statement),
      (do (← Query.ofTable "movie").insert filmTree : Build Query)
          (.empty 0 ⟨0, filmRelations⟩) = (.ok q, g') ∧
        q.compile g' .numbered = .ok rendered ∧ rendered = statement.render .numbered ∧
        (filmTree.newRows ⟨0, filmRelations⟩ 0 r none).rows.map (·.relation.name) =
          ["studio", "movie", "address", "actor", "actor"] ∧
        List.Forall₂ Cte.Inserts
          ((filmTree.newRows ⟨0, filmRelations⟩ 0 r none).rows.zipIdx 1) statement.ctes ∧
        rendered.args = [.text "North", .text "Birds", .text "US", .text "Pilot", .text "Cook"]) ∧
    ∃ (q : Query) (g' : Graph) (rendered : Rendered) (owner : Relation) (select : Select),
      (do (← Query.ofTable "pet").insert ⟨[("owner", .nested ⟨[], none⟩)], none⟩ : Build Query)
          (.empty 0 ⟨0, ownerRelations⟩) = (.ok q, g') ∧
        q.compile g' .numbered = .ok rendered ∧
        (NewCell.nested 1 owner).IsWrittenAs (.subquery (.select select)) ∧
        select ≠ keySelect (rowName 1) owner := by
  refine ⟨?_, ?_⟩
  · have hruns : Build.compiles (do (← Query.ofTable "movie").insert filmTree)
        (.empty 0 ⟨0, filmRelations⟩) = true := by decide +kernel
    obtain ⟨q, g', rendered, hinsert, hcompile⟩ := Build.exists_of_compiles hruns
    have htree : filmTree.IsTree := by
      simp [filmTree, Changes.IsTree, Change.AreTrees, Change.IsTree, Changes.AreTrees]
    obtain ⟨r, statement, hname, -, hrendered, hrows, hargs⟩ :=
      insert_writes_tree htree hinsert hcompile
    cases hname
    exact ⟨q, g', rendered, _, statement, hinsert, hcompile, hrendered, rfl, hrows, hargs⟩
  · have hruns : Build.compiles
        (do (← Query.ofTable "pet").insert ⟨[("owner", .nested ⟨[], none⟩)], none⟩)
        (.empty 0 ⟨0, ownerRelations⟩) = true := by decide +kernel
    obtain ⟨q, g', rendered, hinsert, hcompile⟩ := Build.exists_of_compiles hruns
    have htree : Changes.IsTree ⟨[("owner", .nested ⟨[], none⟩)], none⟩ := by
      simp [Changes.IsTree, Change.AreTrees, Change.IsTree]
    obtain ⟨r, statement, hname, -, -, hrows, -⟩ := insert_writes_tree htree hinsert hcompile
    cases hname
    generalize statement.ctes = ctes at hrows
    obtain _ | ⟨_, _ | ⟨hpet, _⟩⟩ := hrows
    obtain ⟨es, _, -, hcells⟩ := hpet.statement
    obtain _ | ⟨⟨select, hselect, hkey⟩, _⟩ := hcells
    cases hselect
    refine ⟨q, g', rendered, _, select, hinsert, hcompile, ⟨select, rfl, hkey⟩, fun heq => ?_⟩
    obtain ⟨c, hc, hstored⟩ := hkey.eq_iff.mp heq
    cases hc
    cases hstored

end StagedSql
