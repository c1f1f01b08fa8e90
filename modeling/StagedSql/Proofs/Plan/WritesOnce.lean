import StagedSql.Proofs.Plan.LocalStatements
import StagedSql.Proofs.Plan.Staging
import StagedSql.Proofs.Plan.Widening
import StagedSql.Proofs.Plan.WritelessReadings

/-!
Every write of a query is run once.

Each named statement has an origin of its own in the graph, every write that the query needs is the
origin of one, and there is no write anywhere else.
-/

namespace StagedSql

open List Statement

variable {g : Graph}

/-- **A node is needed by a query**: by its root or by one of its branches. -/
def Graph.NeededBy (g : Graph) (q : Query) (w : Handle) : Prop :=
  ∃ h ∈ q.root.handles ++ q.branches, g.Reaches h w

/-! ### Statements of stages -/

lemma Graph.NoExpr.of_within {past : Graph} (hg : g.NoExpr) (hw : past.Within g) : past.NoExpr := by
  obtain ⟨newer, hn⟩ := hw.nodes
  exact fun node hmem => hg node (hn ▸ mem_append_right newer hmem)

/-- **The statement of a stage** is that of its origin, and holds no other write. -/
lemma Origin.IsMade.makes {o : Origin} {statement : Statement} {last : PlanState} (hg : g.NoExpr)
    (h : o.IsMade g last statement) : o.Makes g statement := by
  have hbefore : ∀ {past node}, g.HasNode past node →
      past.planner.Meets writelessNodes ∧ node.NoExpr := fun hat =>
    have hpast := hg.of_within hat.within
    ⟨planner_writeless (hpast.of_within (Graph.within_push _ _)), hpast _ mem_cons_self⟩
  cases h with
  | write hat hm hw =>
    obtain ⟨he, hn⟩ := hbefore hat
    exact ⟨_, hat.found, .inl ⟨hm, writeStatement_writes he hn _ _ hw _ _ rfl⟩⟩
  | read hat hm hs =>
    obtain ⟨he, hn⟩ := hbefore hat
    have hscan := scanAt_meets (writeless_readRules he _ hn) trivial trivial _ _ hs
    exact ⟨_, hat.found, .inr ⟨hm, _, rfl, hscan.2.2⟩⟩
  | @page _ sel r _ s0 s1 _ hat hp hrun hs =>
    obtain ⟨he, -⟩ := hbefore hat
    have hexpr : ∀ c ∈ r.conditions, c.NoExpr := by
      cases hsource : sel.source with
      | relation id =>
        rw [hsource] at hrun
        cases hrun
        simp [Reading.ofBase]
      | node h =>
        rw [hsource] at hrun
        exact ((he h).read true s0).ensures r s1 hrun
    obtain ⟨hw, hlimit, hoffset⟩ := scanReading_writes
      (r := ⟨r.base, .empty, sel.ordering, sel.limit, sel.offset, r.conditions⟩)
      he _ hexpr [] _ _ hs
    exact ⟨sel, _, hat.found, hp, rfl, hlimit, hoffset, hw⟩

/-! ### Widened stages -/

section Widened

variable {o : Origin} {statement : Statement} {qualifier : Option String} {required : Required}
  {schema : Schema} {node : Node}

lemma Select.ensureEach_writes {s : Select} (h : s.writes = []) (names : List String)
    (q : String) : (s.ensureEach q names).writes = [] := by
  obtain ⟨added, heq, hadded⟩ := s.ensureEach_eq q names
  rw [heq]
  rw [Select.writes_eq_nil] at h ⊢
  refine ⟨?_, h.2⟩
  rw [SelectItem.writesEach_append, h.1, nil_append, SelectItem.writesEach_eq_nil]
  intro item hitem
  obtain ⟨c, -, rfl⟩ := hadded item hitem
  rfl

lemma Node.IsBody.isWrite (h : node.IsBody schema statement) : statement.isWrite = true := by
  cases node <;> cases statement <;> first | exact h.elim | rfl

lemma Node.IsBody.giving (h : node.IsBody schema statement) :
    node.IsBody schema (statement.giving qualifier required) := by
  cases node <;> cases statement <;> first | exact h.elim | skip
  · rename_i payload _ s
    obtain ⟨r, hr, htable, hins⟩ := h
    cases payload <;> exact ⟨r, hr, htable, hins⟩
  · exact h
  · exact h

lemma Statement.giving_writes (hw : statement.isWrite = true) (h : statement.writes = [statement]) :
    (statement.giving qualifier required).writes = [statement.giving qualifier required] := by
  cases statement with
  | insert s =>
    obtain ⟨table, columns, source, returning⟩ := s
    rw [giving, writes, (List.cons.inj h).2]
  | update s =>
    obtain ⟨table, assignments, condition, returning⟩ := s
    rw [giving, writes, (List.cons.inj h).2]
  | delete s =>
    obtain ⟨table, condition, returning⟩ := s
    rw [giving, writes, (List.cons.inj h).2]
  | _ => cases hw

lemma Origin.Makes.giving (h : o.Makes g statement) :
    o.Makes g (statement.giving qualifier required) := by
  have hselect : ∀ s : Select, s.writes = [] → ∃ s' : Select,
      (select s).giving qualifier required = .select s' ∧ s'.limit = s.limit ∧
        s'.offset = s.offset ∧ s'.writes = [] := by
    intro s hs
    obtain ⟨s', hs', rfl | ⟨q, names, rfl⟩⟩ := giving_select s qualifier required
    · exact ⟨s', hs', rfl, rfl, hs⟩
    · obtain ⟨added, heq, -⟩ := s.ensureEach_eq q names
      exact ⟨_, hs', by rw [heq], by rw [heq], Select.ensureEach_writes hs names q⟩
  cases o with
  | page own =>
    obtain ⟨node, s, hnode, hpaged, rfl, hlimit, hoffset, hw⟩ := h
    obtain ⟨s', hs', hlimit', hoffset', hw'⟩ := hselect s hw
    exact ⟨node, s', hnode, hpaged, hs', hlimit'.trans hlimit, hoffset'.trans hoffset, hw'⟩
  | node own =>
    obtain ⟨node, hnode, ⟨hmut, hbody, hone⟩ | ⟨hread, s, rfl, hw⟩⟩ := h
    · exact ⟨node, hnode, .inl ⟨hmut, hbody.giving, giving_writes hbody.isWrite hone⟩⟩
    · obtain ⟨s', hs', -, -, hw'⟩ := hselect s hw
      exact ⟨node, hnode, .inr ⟨hread, s', hs', hw'⟩⟩

lemma Origin.Makes.writes (h : o.Makes g statement) :
    statement.writes = [statement].filter isWrite := by
  have hselect : ∀ s : Select, s.writes = [] → (select s).writes = [select s].filter isWrite := by
    intro s hs
    rw [Statement.writes, hs]
    rfl
  cases o with
  | page own =>
    obtain ⟨node, s, -, -, rfl, -, -, hw⟩ := h
    exact hselect s hw
  | node own =>
    obtain ⟨node, -, ⟨hmut, hbody, hone⟩ | ⟨hread, s, rfl, hw⟩⟩ := h
    · rw [hone, filter_cons_of_pos hbody.isWrite]
      rfl
    · exact hselect s hw

lemma flatMap_writes_of_makes {origins : List Origin} {statements : List Statement}
    (h : Forall₂ (Origin.Makes g) origins statements) :
    statements.flatMap writes = statements.filter isWrite := by
  induction h with
  | nil => rfl
  | cons hfirst _ ih =>
    rw [flatMap_cons, hfirst.writes, ih, ← filter_append]
    rfl

end Widened

/-! ### Queries -/

section Queries

variable {q : Query}

lemma plan_accounts (g : Graph) (q : Query) :
    Plan.Obeys (accounting g (Origin.Before g.size)) (q.plan g) := by
  intro s
  have he := planner_accounts g
  have hbranches := branches_keep (s := s) (fun _ _ _ _ h => h) he.stage q.branches
  refine hbranches.bind fun _ s1 _ _ => ?_
  cases q.root with
  | relation id =>
    exact (scanReading_asks g.schema _ []).obeys accounting_quiet (Earlier.Meets.none _).obeys s1
  | node own => exact he.scan own [] s1

lemma plan_writes (hg : g.NoExpr) (q : Query) (s : PlanState) :
    Plan.Ensures (q.plan g) s fun scan _ => scan.select.writes = [] := by
  refine .bind_any fun _ s1 => ?_
  cases q.root with
  | relation id =>
    exact (scanReading_writes (.none _) g.schema
      (by simp [Reading.ofBase]) []).mono fun _ _ h => h.1
  | node own => exact ((planner_writeless hg own).scan [] s1 trivial).ensures

lemma withStages_statements (stages : List Stage) (inner : Select) :
    (withStages stages (jsonRows inner)).ctes.map (·.statement) = stages.map (·.statement) := by
  rw [withStages_ctes, map_map]
  rfl

lemma withStages_writes {inner : Select} (hw : inner.writes = []) (stages : List Stage) :
    (withStages stages (jsonRows inner)).writes = (stages.map (·.statement)).flatMap writes := by
  have hbody : (jsonRows inner).writes = [] := by
    rw [jsonRows, writes, Select.writes_eq_nil]
    tauto
  cases stages with
  | nil => exact hbody
  | cons stage rest =>
    change Cte.writesEach ((stage :: rest).map fun s => ⟨s.name, s.statement⟩) ++
      (jsonRows inner).writes = _
    rw [hbody, append_nil, Cte.writesEach_eq_flatMap, flatMap_map, flatMap_map]

/-- A statement is that of an origin: as it is made, or with more columns that it gives back. -/
def Origin.IsRun (g : Graph) (last : PlanState) (o : Origin) (statement : Statement) : Prop :=
  ∃ made, o.IsMade g last made ∧
    (statement = made ∨ ∃ qualifier required, statement = made.giving qualifier required)

/-- **The named statements of a query have origins**, and each needed write is one. -/
lemma ctes_have_origins {statement : Statement} (h : q.toStatement g = .ok statement) :
    ∃ (scan : Scan) (last : PlanState) (origins : List Origin),
      q.plan g .initial = .ok (scan, last) ∧ origins.Nodup ∧
      Forall₂ (Origin.IsRun g last) origins (statement.ctes.map (·.statement)) ∧
      ∀ w node, g.NeededBy q w → g.node w = .ok node → node.isMutation = true →
        Origin.node w ∈ origins := by
  obtain ⟨⟨scan, s⟩, hplan, hrest⟩ := Except.bind_ok h
  cases hrest
  obtain ⟨⟨origins, ho⟩, -⟩ := (plan_accounts g q).run ⟨[], .nil, .nil, by simp, by
    simp [PlanState.stagedHandles, PlanState.initial]⟩ hplan
  have hwiden : Forall₂ (fun a b : Stage => b.statement = a.statement ∨
      ∃ qualifier required, b.statement = a.statement.giving qualifier required)
      s.stages (widenStages s.required s.stages) := by
    refine widenStages_forall₂ (fun rs stage => ?_) s.required s.stages
    rw [widenStage_eq]
    cases rs.lookup stage.name with
    | none => exact .inl rfl
    | some required => exact .inr ⟨_, _, rfl⟩
  refine ⟨scan, s, origins, hplan, ho.nodup, ?_, fun w node hneeded hnode hm => ?_⟩
  · rw [withStages_statements]
    exact forall₂_map_right_iff.mpr (forall₂_step (forall₂_map_right_iff.mp ho.made) hwiden
      fun o a b ho hab => ⟨_, ho, hab⟩)
  · obtain ⟨root, hroot, hreach⟩ := hneeded
    exact ho.writes w ((q.visited_of_plan hplan root hroot w (hreach.visits true)).2 node hnode hm)
      node hnode hm

lemma Origin.IsRun.makes {o : Origin} {statement : Statement} {last : PlanState} (hg : g.NoExpr)
    (h : o.IsRun g last statement) : o.Makes g statement := by
  obtain ⟨made, ho, rfl | ⟨qualifier, required, rfl⟩⟩ := h
  · exact ho.makes hg
  · exact (ho.makes hg).giving

/-- **Every write of a query is run once.** If no condition holds an expression that is taken as it
is, the named statements of a query have origins that are all different. Each of them is the
statement that is made of its origin, with the names that the plan has noted of other stages, except
that it may give back more columns; that of a write is of the same kind, on its relation and writes
its payload. Every insert, update and delete that the root or a branch needs is the origin of one,
and no other INSERT, UPDATE or DELETE occurs in the statement at any depth. -/
theorem writes_run_once {statement : Statement} (hg : g.NoExpr)
    (h : q.toStatement g = .ok statement) :
    ∃ (scan : Scan) (last : PlanState) (origins : List Origin),
      q.plan g .initial = .ok (scan, last) ∧ origins.Nodup ∧
      Forall₂ (fun o st => o.IsRun g last st ∧ o.Makes g st) origins
        (statement.ctes.map (·.statement)) ∧
      (∀ w node, g.NeededBy q w → g.node w = .ok node → node.isMutation = true →
        Origin.node w ∈ origins) ∧
      statement.writes = (statement.ctes.map (·.statement)).filter Statement.isWrite := by
  obtain ⟨scan, last, origins, hplan, hnodup, hrun, hneeded⟩ := ctes_have_origins h
  refine ⟨scan, last, origins, hplan, hnodup, hrun.imp fun _ _ ho => ⟨ho, ho.makes hg⟩,
    hneeded, ?_⟩
  rw [← flatMap_writes_of_makes (hrun.imp fun _ _ ho => ho.makes hg)]
  obtain ⟨⟨scan, s⟩, hplan, hrest⟩ := Except.bind_ok h
  cases hrest
  rw [withStages_statements, withStages_writes (plan_writes hg q .initial scan s hplan)]

/-- Customers and their orders. -/
def shopRelations : List Relation :=
  [⟨"customer", [.primary "id", .scalar "name", .reverse "orders" "order" "customer"]⟩,
    ⟨"order", [.primary "id", .scalar "item", .forward "customer" "customer"]⟩]

/-- A customer that is inserted, and an order for this customer. -/
def shopWrites : Graph where
  id := 0
  schema := ⟨0, shopRelations⟩
  nodes :=
    [.insert ⟨0, 1⟩ (.values [("item", .value (.text "lamp")), ("customer", .query ⟨0, 1⟩)]) [],
      .select (.ofSource (.node ⟨0, 0⟩) (.ofFields ["id"])),
      .insert ⟨0, 0⟩ (.values [("name", .value (.text "first"))]) []]

/-- The customer is a branch of its own and the value of a column, and is inserted once. -/
theorem writes_run_once_shop :
    ∃ statement, (⟨0, .node ⟨0, 2⟩, [⟨0, 0⟩]⟩ : Query).toStatement shopWrites = .ok statement ∧
      ∃ (last : PlanState) (origins : List Origin), origins.Nodup ∧
        Forall₂ (fun o st => o.IsRun shopWrites last st ∧ o.Makes shopWrites st) origins
          (statement.ctes.map (·.statement)) ∧
        Origin.node ⟨0, 0⟩ ∈ origins ∧ Origin.node ⟨0, 2⟩ ∈ origins ∧ origins.length = 2 ∧
        statement.writes = (statement.ctes.map (·.statement)).filter Statement.isWrite := by
  have hg : shopWrites.NoExpr := by
    simp [Graph.NoExpr, shopWrites, Node.NoExpr]
  obtain ⟨statement, hs, hlength⟩ : ∃ statement : Statement,
      (⟨0, .node ⟨0, 2⟩, [⟨0, 0⟩]⟩ : Query).toStatement shopWrites = .ok statement ∧
        statement.ctes.length = 2 := ⟨_, rfl, rfl⟩
  obtain ⟨scan, last, origins, -, hnodup, hmakes, hmem, hwrites⟩ := writes_run_once hg hs
  refine ⟨statement, hs, last, origins, hnodup, hmakes, ?_, ?_, ?_, hwrites⟩
  · exact hmem ⟨0, 0⟩ _ ⟨⟨0, 0⟩, by simp, .refl _⟩ rfl rfl
  · exact hmem ⟨0, 2⟩ _ ⟨⟨0, 2⟩, by simp [Source.handles], .refl _⟩ rfl rfl
  · rw [hmakes.length_eq, length_map, hlength]

end Queries

end StagedSql
