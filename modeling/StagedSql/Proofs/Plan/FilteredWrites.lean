import StagedSql.Proofs.Condition.Renaming
import StagedSql.Proofs.Graph.FilterChains
import StagedSql.Proofs.Plan.ClosedStatements
import StagedSql.Proofs.Plan.ViewReadings

/-!
Writes touch the rows that the same filters select.

A chain of filters is planned in two ways. A SELECT takes the conditions one after the other; an
update or a delete takes one condition that the filters were merged into. Both are planned from the
same conjuncts in the same order, so they have the same truth value on every row.
-/

namespace StagedSql

open List Plan Condition

variable {g : Graph} {r : Relation} {cs : List Condition} {s s' : PlanState} {earlier : Earlier}
  {id : RelationId} {q : Query} {schema : Schema} {payload : Option Payload} {name : String}

/-- The table that an UPDATE or a DELETE writes to, and its condition. -/
def Statement.touched? : Statement → Option (String × Option Expr)
  | .update s => some (s.table, s.condition)
  | .delete s => some (s.table, s.condition)
  | _ => none

/-- The SELECT of some columns of the rows of a relation, or of whole rows if there are none. -/
def Relation.selected (r : Relation) (columns : List String) (condition : Option Expr) : Select :=
  { Select.empty with
    projection := columns.map fun c => ⟨.of r.name c, none⟩
    source := some (.table r.name none)
    condition := condition }

/-! ### Conditions with the same conjuncts -/

/-- **A condition was planned from conjuncts** on the rows of a relation, which led from a state to
another one. -/
def Graph.WhereOf (g : Graph) (r : Relation) (cs : List Condition) (s s' : PlanState)
    (condition : Option Expr) : Prop :=
  ∃ fs, toSqlEach g.planner.context g.schema r r.name [r.name] cs s = .ok (fs, s') ∧
    condition.toList.flatMap Expr.operands = fs.flatMap Expr.operands ∧
    ∀ ops ts env, (condition.getD (.bool true)).truth ops ts env =
      allTrue (fs.map (Expr.truth ops ts env))

section Conditions

variable {t t' : PlanState} {condition condition' : Option Expr} {es : List Expr}

/-- Conditions that are planned one after the other and joined by AND. The planner may be one that
knows the nodes which they compare with. -/
lemma whereOf_each (hsub : ∀ h ∈ handlesOf cs, earlier.subselect h = g.planner.subselect h)
    (h : toSqlEach earlier.context g.schema r r.name [r.name] cs s = .ok (es, s')) :
    g.WhereOf r (cs.flatMap conjuncts) s s' (es.foldl andCondition none) := by
  rw [toSqlEach_congr hsub] at h
  obtain ⟨fs, hfs, hoperands, htruths⟩ := toSqlEach_conjuncts h
  refine ⟨fs, hfs, ?_, fun ops ts env => ?_⟩
  · rw [operands_andConditions, ← hoperands]
    rfl
  · rw [truth_andConditions, ← htruths]
    exact joinTruths_true_both _

lemma each_eq_none (h : toSqlEach earlier.context g.schema r r.name [r.name] cs s =
    .ok (es, s')) : es.foldl andCondition none = none ↔ cs = [] := by
  have hsome : ∀ (es : List Expr) (e : Expr), es.foldl andCondition (some e) ≠ none := by
    intro es
    induction es with
    | nil => simp
    | cons x rest ih => exact fun e => ih _
  cases cs with
  | nil =>
    cases h
    simp
  | cons c rest =>
    obtain ⟨e, es', s₁, -, -, rfl⟩ := toSqlEach_cons h
    exact iff_of_false (hsome es' e.grouped) (cons_ne_nil c rest)

lemma Graph.WhereOf.holds_eq (h : g.WhereOf r cs s s' condition)
    (h' : g.WhereOf r cs s t' condition') :
    s' = t' ∧ ∀ ops ts env, Expr.holds ops ts env condition' = Expr.holds ops ts env condition := by
  obtain ⟨fs, hfs, -, htruth⟩ := h
  obtain ⟨fs', hfs', -, htruth'⟩ := h'
  cases hfs.symm.trans hfs'
  refine ⟨rfl, fun ops ts env => ?_⟩
  rw [holds_eq_truth, holds_eq_truth, htruth, htruth']

lemma Graph.WhereOf.operands_eq_nil (h : g.WhereOf r cs s s' condition)
    (hhandles : handlesOf cs = [])
    (hexprs : ∀ x ∈ exprsEach cs, x.operands = []) :
    condition.toList.flatMap Expr.operands = [] := by
  obtain ⟨fs, hfs, hoperands, -⟩ := h
  rw [hoperands, flatMap_eq_nil_iff]
  exact operands_makes.toSqlEach hexprs (by simp [hhandles]) fs s' hfs

variable {ops : Operators} {ts ts' : Tables} (h : g.WhereOf r cs s s' condition)
  (h' : g.WhereOf r cs t t' condition') (hts : ts.Match ts' g.schema)
  (hx : ∀ x ∈ exprsEach cs, x.Steady ops ts ts')
  (hrows : Forall₂ (Statement.SameRows ops ts ts')
    (condition.toList.flatMap Expr.operands) (condition'.toList.flatMap Expr.operands))

include h h' hts hx hrows

/-- **From different states** conditions are planned that hold of the same rows, if the sub-selects
that they compare with give the same rows. -/
lemma Graph.WhereOf.agree {env env' : Env} (henv : env.Like env')
    (hrow : env.row? r.name = env'.row? r.name) :
    Expr.holds ops ts' env' condition' = Expr.holds ops ts env condition := by
  obtain ⟨fs, hfs, hoperands, htruth⟩ := h
  obtain ⟨fs', hfs', hoperands', htruth'⟩ := h'
  rw [hoperands, hoperands'] at hrows
  have hagree := agree_toSqlEach hts hx hfs hfs'
  have htruths := Expr.Agree.truths hagree hrows henv hrow
  rw [holds_eq_truth, holds_eq_truth, htruth, htruth', htruths]

/-- **Sub-selects of filtered rows** give the same rows from whatever state they are planned, if
those that their filters compare with do. -/
lemma Graph.WhereOf.sameRows (hr : r ∈ g.schema.relations) (columns : List String) :
    Statement.SameRows ops ts ts' (.select (r.selected columns condition))
      (.select (r.selected columns condition')) := by
  intro env env' henv
  have hholds : ∀ row, Expr.holds ops ts' ([⟨r.name, row, true⟩] :: env') condition' =
      Expr.holds ops ts ([⟨r.name, row, true⟩] :: env) condition := fun row =>
    h.agree h' hts hx hrows (henv.cons (.refl _) row) (by rw [Env.row?_self, Env.row?_self])
  have hcells : ∀ row, SelectItem.cells ops ts' ([⟨r.name, row, true⟩] :: env') none
      (columns.map fun c => ⟨.of r.name c, none⟩) = SelectItem.cells ops ts
        ([⟨r.name, row, true⟩] :: env) none (columns.map fun c => ⟨.of r.name c, none⟩) := by
    intro row
    induction columns with
    | nil => rfl
    | cons c rest ih =>
      rw [map_cons, SelectItem.cells, SelectItem.cells, ih, SelectItem.itemCells,
        SelectItem.itemCells, eval_of, eval_of, Env.row?_self, Env.row?_self]
      · simp [Expr.of]
      · simp [Expr.of]
  have hnames : (boundNames (some (.table r.name none)) []).Nodup := nodup_singleton _
  have hagg : (columns.map fun c => (⟨.of r.name c, none⟩ : SelectItem)).any
      (·.expr.aggregates) = false := by simp [Expr.of, Expr.aggregates]
  have hkeyed : ∀ (ts : Tables) (env : Env) (kept : List Level), kept.mapM (fun level =>
      (OrderItem.keys ops ts (level :: env) []).bind fun keys => some (keys, level)) =
      some (kept.map fun level => ([], level)) := fun _ _ _ => mapM_eq_some_map fun _ _ => rfl
  simp only [Statement.rows, Relation.selected, Select.rows, Select.empty, hnames,
    not_true_eq_false, if_false, FromItem.levels, FromItem.rows, Join.levels, hts.tables r hr, hagg]
  cases ts' r.name with
  | none => rfl
  | some table =>
    simp only [Option.map_some, Option.bind_eq_bind, Option.bind_some, Option.pure_def,
      filterOption_map, hkeyed, Operators.sorted_unordered, pageOf_none, FromItem.qualifier, hholds]
    cases filterOption _ table.rows with
    | none => rfl
    | some kept => simp [mapM_map, Function.comp_def, hcells]

end Conditions

/-! ### The condition of a SELECT -/

/-- The reading of a relation with conditions. -/
def Reading.ofConditions (id : RelationId) (cs : List Condition) : Reading :=
  { Reading.ofBase (.relation id) with conditions := cs }

/-- **Filters over a relation are read** as its conditions, by induction on them. Nothing is staged
for this. -/
lemma read_filters {source : Source} (hf : g.Filters id source cs) (enclosed : Bool) :
    readSource g.planner enclosed source .initial = .ok (.ofConditions id cs, .initial) := by
  induction hf generalizing enclosed with
  | relation => rfl
  | @filter past source cs c hsource hknown _ hnode ih =>
    have hpast : past.Within g := (Graph.within_push _ _).trans hnode
    have hinner : readSource past.planner true source = readSource g.planner true source := by
      cases source with
      | relation id' => rfl
      | node h =>
        have hhas : past.Has h := hknown h (.head _)
        exact (hpast.planner_of_has hhas).1 true
    obtain ⟨-, hread, -, -⟩ := hnode.planner_eq
    rw [readSource, hread]
    change (readSource past.planner true source >>= fun reading =>
      pure { reading with conditions := reading.conditions ++ [c] }) PlanState.initial = _
    rw [hinner, bind_run (ih true)]
    rfl

/-- A query whose root is a chain of filters is planned as one reading, by a planner that knows the
nodes which the filters refer to. -/
lemma plan_filters (hf : g.Filters id q.root cs) (hbranches : q.branches = []) :
    ∃ earlier : Earlier, (∀ h ∈ handlesOf cs, earlier.subselect h = g.planner.subselect h) ∧
      q.plan g .initial = scanReading g.schema earlier (.ofConditions id cs) [] .initial := by
  obtain ⟨graph, root, branches⟩ := q
  cases hbranches
  have hread := read_filters hf false
  cases hf with
  | relation =>
    refine ⟨.none, ?_, rfl⟩
    rw [handlesOf]
    simp
  | @filter past source cs c hsource hknown hhandles hnode =>
    have hpast : past.Within g := (Graph.within_push _ _).trans hnode
    refine ⟨past.planner, fun h hh => ?_, ?_⟩
    · obtain ⟨d, hd, hh⟩ := mem_handlesOf hh
      refine (hpast.planner_of_has ?_).2
      rcases mem_append.mp hd with hd | hd
      · exact filters_handles hsource hpast hknown d hd h hh
      · rw [mem_singleton.mp hd] at hh
        exact hhandles h hh
    · change g.planner.scan past.nextHandle [] PlanState.initial = _
      rw [scan_eq hnode, bind_run hread]

/-- Conditions are added one after the other. Nothing is needed of a relation. -/
lemma addConditions_each {label : String} {select filtered : Select}
    (h : addConditions schema earlier ⟨r, label, none, [label]⟩ select cs s = .ok (filtered, s')) :
    ∃ es, toSqlEach earlier.context schema r label [label] cs s = .ok (es, s') ∧
      filtered = { select with condition := es.foldl andCondition select.condition } := by
  induction cs generalizing select s with
  | nil =>
    cases h
    cases filtered
    exact ⟨[], by rw [toSqlEach]; rfl, rfl⟩
  | cons c rest ih =>
    have hneeds : ∀ (names : List String) (t : PlanState),
        names.forM (need none) t = .ok ((), t) := by
      intro names t
      induction names with
      | nil => rfl
      | cons name more ih => exact ih
    rw [addConditions, bind_run (hneeds _ s)] at h
    obtain ⟨e, s₁, he, hrest⟩ := bind_eq_ok h
    obtain ⟨es, hes, rfl⟩ := ih hrest
    have hscope : addOnce [label] label = [label] := by simp [addOnce]
    rw [toSql, hscope] at he
    refine ⟨e :: es, ?_, rfl⟩
    rw [toSqlEach, bind_run he, bind_run hes]
    rfl

/-- **The SELECT of a relation with conditions** takes its rows under its own name. -/
lemma scan_filters {scan : Scan} (hr : schema.relation id = .ok r)
    (h : scanReading schema earlier (.ofConditions id cs) [] s = .ok (scan, s')) :
    ∃ es, toSqlEach earlier.context schema r r.name [r.name] cs s = .ok (es, s') ∧
      scan.select = { Select.empty with
        source := some (.table r.name none), condition := es.foldl andCondition none } := by
  have hopen : openBase schema (.relation id) [] s =
      .ok (⟨.table r.name none, r.name, r, none⟩, s) := by
    rw [openBase, bind_run (lift_run hr s)]
    have hitem : tableItem r.name r.name = .table r.name none := by rw [tableItem, if_pos rfl]
    rw [← hitem]
    rfl
  rw [scanReading, Reading.ofConditions, Reading.ofBase, bind_run hopen] at h
  obtain ⟨filtered, s₁, hadd, hrest⟩ := bind_eq_ok h
  obtain ⟨es, hes, rfl⟩ := addConditions_each hadd
  have hshape : ∀ (outer : Outer) (t : PlanState),
      shape schema earlier outer .empty t = .ok (.empty, t) := by
    intro outer t
    rfl
  cases hrest
  exact ⟨es, hes, rfl⟩

/-! ### The condition of a write -/

/-- Steps that neither make a stage nor read of one. -/
def noting : Law where
  holds _ := True
  grows s s' := s'.stages = s.stages ∧ s'.required = s.required
  refl _ := ⟨rfl, rfl⟩
  trans h h' := ⟨h'.1.trans h.1, h'.2.trans h.2⟩

section Writes

variable {past : Graph} {condition : Option Condition} {p : Payload} {own : Handle} {scan : Scan}

lemma linkForward_noting (past : Graph) (stage : String) (entries : List (String × PayloadValue)) :
    Obeys noting (linkForward past stage r entries) := by
  induction entries with
  | nil => exact .pure _
  | cons entry rest ih =>
    obtain ⟨column, v⟩ := entry
    cases v with
    | value v => exact ih
    | parentKey => exact ih
    | query handle =>
      rw [linkForward]
      split
      · refine .bind (.lift _) fun node => ?_
        split
        · refine .bind (.lift _) fun inner => ?_
          split
          · refine .bind (stageOf_obeys _) fun found => ?_
            cases found with
            | none => exact ih
            | some name =>
              exact .bind (.of_run fun s => ⟨_, _, rfl, id, rfl, rfl⟩) fun _ => ih
          · exact ih
        · exact ih
      · exact ih

lemma linkWrite_noting (past : Graph) (stage : String) (condition : Option Condition) :
    Obeys noting (linkWrite past earlier stage r (Node.write id payload condition)) := by
  rcases payload with _ | entries | h
  · exact .pure _
  · exact linkForward_noting past stage entries
  · exact .pure _

lemma assignedOf_plain (hp : p.IsPlain) :
    Ensures (assignedOf schema earlier r p) s fun _ s' => s' = s := by
  cases p with
  | query h => exact hp.elim
  | values entries =>
    have hitems : ∀ entries : List (String × PayloadValue), (∀ e ∈ entries, ∃ v, e.2 = .value v) →
        Ensures (entries.mapM (assignment earlier)) s fun _ s' => s' = s := by
      intro entries
      induction entries with
      | nil => exact fun _ => .of_pure rfl
      | cons entry rest ih =>
        intro hvalues
        obtain ⟨name, value⟩ := entry
        obtain ⟨v, rfl⟩ := hvalues (name, value) mem_cons_self
        rw [mapM_cons]
        refine .run_bind rfl ((ih fun e he => hvalues e (.tail _ he)).bind ?_)
        rintro items s' rfl
        exact .of_pure rfl
    refine (hitems entries hp).bind ?_
    rintro items s' rfl
    exact .of_pure rfl

lemma writeCondition_each {e : Option Expr}
    (h : writeCondition schema earlier r condition s = .ok (e, s')) :
    ∃ es, toSqlEach earlier.context schema r r.name [r.name] condition.toList s =
        .ok (es, s') ∧ e = es.foldl andCondition none := by
  cases condition with
  | none =>
    cases h
    exact ⟨[], by rw [Option.toList_none, toSqlEach]; rfl, rfl⟩
  | some c =>
    obtain ⟨x, s₁, hx, hpure⟩ := bind_eq_ok h
    cases hpure
    have hscope : addOnce [r.name] r.name = [r.name] := by simp [addOnce]
    rw [toSql, hscope] at hx
    refine ⟨[x], ?_, rfl⟩
    rw [Option.toList_some, toSqlEach, bind_run hx, toSqlEach]
    rfl

lemma updateStatement_ok {statement : Statement}
    (h : updateStatement schema earlier r p condition s = .ok (statement, s')) :
    ∃ assigned s₁ assignments e, assignedOf schema earlier r p s = .ok (assigned, s₁) ∧
      writeCondition schema earlier r condition s₁ = .ok (e, s') ∧
      statement = .update ⟨r.name, assignments, e, .ofColumns [r.primaryKey]⟩ := by
  rw [updateStatement_eq] at h
  obtain ⟨assigned, s₁, hassigned, hrest⟩ := bind_eq_ok h
  obtain ⟨assignments, s2, hset, hlast⟩ := bind_eq_ok hrest
  obtain ⟨-, rfl⟩ := lift_eq_ok hset
  obtain ⟨e, s3, hcondition, hpure⟩ := bind_eq_ok hlast
  cases hpure
  tauto

/-- **The statement of a write** touches the table of its relation. Its condition is planned after
what is written, for which nothing is done if that is made of values. -/
lemma writeStatement_touches (hr : schema.relation id = .ok r) {written : Statement × Relation}
    (h : writeStatement schema earlier (Node.write id payload condition) s =
      .ok (some written, s')) :
    ∃ s₀ es, toSqlEach earlier.context schema r r.name [r.name] condition.toList s₀ = .ok (es, s') ∧
      written.1.touched? = some (r.name, es.foldl andCondition none) ∧
      ((∀ p, payload = some p → p.IsPlain) → s₀ = s) := by
  cases payload with
  | none =>
    rw [Node.write, writeStatement, bind_run (lift_run hr s)] at h
    obtain ⟨statement, s₁, hdelete, hpure⟩ := bind_eq_ok h
    cases hpure
    obtain ⟨e, s2, hcondition, hpure⟩ := bind_eq_ok hdelete
    cases hpure
    obtain ⟨es, hes, rfl⟩ := writeCondition_each hcondition
    exact ⟨s, es, hes, rfl, fun _ => rfl⟩
  | some p =>
    rw [Node.write, writeStatement, bind_run (lift_run hr s)] at h
    obtain ⟨statement, s₁, hupdate, hpure⟩ := bind_eq_ok h
    cases hpure
    obtain ⟨assigned, s2, assignments, e, hassigned, hcondition, rfl⟩ :=
      updateStatement_ok hupdate
    obtain ⟨es, hes, rfl⟩ := writeCondition_each hcondition
    exact ⟨s2, es, hes, rfl, fun hp => assignedOf_plain (hp p rfl) assigned s2 hassigned⟩

lemma stageWrite_ok
    (h : stageWrite past earlier own (Node.write id payload condition) s = .ok (some name, s')) :
    ∃ written s₁, writeStatement past.schema earlier (Node.write id payload condition) s =
        .ok (some written, s₁) ∧
      name = s₁.nextStage ∧
      s'.stages = s₁.stages ++ [⟨s₁.nextStage, written.1, written.2, none, none⟩] ∧
      s'.required = s₁.required := by
  obtain ⟨written, s₁, hwritten, hrest⟩ := bind_eq_ok h
  cases written with
  | none => cases hrest
  | some written =>
    obtain ⟨fresh, s2, hname, hrest⟩ := bind_eq_ok hrest
    cases hname
    obtain ⟨_, s3, hadd, hrest⟩ := bind_eq_ok hrest
    cases hadd
    obtain ⟨_, s4, hset, hrest⟩ := bind_eq_ok hrest
    cases hset
    obtain ⟨_, s5, hlink, hpure⟩ := bind_eq_ok hrest
    cases hpure
    obtain ⟨-, hstages, hrequired⟩ := (linkWrite_noting past _ condition).run trivial hlink
    exact ⟨written, s₁, hwritten, rfl, hstages, hrequired⟩

lemma readNode_write {enclosed : Bool} {reading : Reading}
    (h : readNode past earlier enclosed own (Node.write id payload condition) s =
      .ok (reading, s')) :
    ∃ name, stageWrite past earlier own (Node.write id payload condition) s = .ok (some name, s') ∧
      reading = .ofBase (.stage name) := by
  cases payload
  all_goals
    obtain ⟨found, s₁, hstage, hfound⟩ := bind_eq_ok h
    cases found with
    | none => cases hfound
    | some name =>
      cases hfound
      exact ⟨name, hstage, rfl⟩

lemma scan_stage (h : scanReading schema earlier (.ofBase (.stage name)) [] s = .ok (scan, s')) :
    s'.stages = s.stages ∧ s'.required = s.required.requireAll name := by
  obtain ⟨o, s₁, hopen, hrest⟩ := bind_eq_ok h
  cases hopen
  obtain ⟨filtered, s2, hadd, hrest⟩ := bind_eq_ok hrest
  cases hadd
  obtain ⟨_, s3, hneed, hrest⟩ := bind_eq_ok hrest
  cases hneed
  obtain ⟨sh, s4, hshape, hrest⟩ := bind_eq_ok hrest
  cases hshape
  cases hrest
  exact ⟨rfl, rfl⟩

/-- **A query whose root is a write** makes it the last stage. -/
lemma plan_write (hw : g.WriteRoot id payload cs q.root past condition)
    (hbranches : q.branches = []) (h : q.plan g .initial = .ok (scan, s)) :
    ∃ written s₁, writeStatement g.schema past.planner (Node.write id payload condition) .initial =
        .ok (some written, s₁) ∧
      s.stages = s₁.stages ++ [⟨s₁.nextStage, written.1, written.2, none, none⟩] ∧
      s.required = s₁.required.requireAll s₁.nextStage := by
  obtain ⟨graph, root, branches⟩ := q
  cases hbranches
  obtain ⟨rfl, hnode, -, -, -⟩ := hw
  have hschema : g.schema = past.schema := hnode.schema
  obtain ⟨-, hreadAt, -, -⟩ := hnode.planner_eq
  change g.planner.scan past.nextHandle [] PlanState.initial = _ at h
  rw [scan_eq hnode, readSource, hreadAt] at h
  obtain ⟨reading, s2, hreading, hscan⟩ := bind_eq_ok h
  obtain ⟨name, hstage, rfl⟩ := readNode_write hreading
  obtain ⟨written, s₁, hwritten, rfl, hstages, hrequired⟩ := stageWrite_ok hstage
  obtain ⟨hstages', hrequired'⟩ := scan_stage hscan
  simp_all

end Writes

/-! ### Widening a write -/

/-- The same is required of all stages but one. -/
def Requirements.SameBut (name : String) (rs rs' : Requirements) : Prop :=
  ∀ k ≠ name, rs.lookup k = rs'.lookup k

section Widening

variable {rs rs' : Requirements} {stages : List Stage}

lemma Requirements.SameBut.require (h : rs.SameBut name rs') (stage column : String) :
    (rs.require stage column).SameBut name (rs'.require stage column) := by
  intro k hk
  rw [Requirements.require, Requirements.require, lookup_putKey, lookup_putKey]
  split
  · rename_i heq
    rw [← heq, h k hk]
  · exact h k hk

/-- Columns that are added to a SELECT are required of what it reads. -/
lemma widenSelect_sameBut {qualifier : String} {base : Option String} (columns : List String) :
    ∀ {select : Select} {rs rs' : Requirements}, rs.SameBut name rs' →
      (columns.foldl (widenSelect qualifier base) (select, rs)).2.SameBut name
        (columns.foldl (widenSelect qualifier base) (select, rs')).2 := by
  induction columns with
  | nil => exact fun h => h
  | cons column rest ih =>
    intro select rs rs' h
    rw [foldl_cons, foldl_cons]
    by_cases hgiven : (select.isStar || select.outputNames.contains column) = true
    · have hsame : ∀ rs, widenSelect qualifier base (select, rs) column = (select, rs) :=
        fun rs => if_pos hgiven
      rw [hsame, hsame]
      exact ih h
    · cases base with
      | none =>
        have hadded : ∀ rs, widenSelect qualifier none (select, rs) column =
            (select.ensureColumn qualifier column, rs) := fun rs => if_neg hgiven
        rw [hadded, hadded]
        exact ih h
      | some stage =>
        have hadded : ∀ rs, widenSelect qualifier (some stage) (select, rs) column =
            (select.ensureColumn qualifier column, rs.require stage column) :=
          fun rs => if_neg hgiven
        rw [hadded, hadded]
        exact ih (h.require stage column)

lemma widenStage_sameBut {stage : Stage} (h : rs.SameBut name rs') (hne : stage.name ≠ name) :
    (widenStage rs stage).1 = (widenStage rs' stage).1 ∧
      (widenStage rs stage).2.SameBut name (widenStage rs' stage).2 := by
  have hlookup := h stage.name hne
  refine ⟨by rw [widenStage_eq, widenStage_eq, hlookup], ?_⟩
  obtain ⟨own, statement, relation, qualifier, base⟩ := stage
  rw [widenStage, widenStage, hlookup]
  cases rs'.lookup own with
  | none => exact h
  | some required =>
    cases statement with
    | select select =>
      cases required with
      | all => exact h
      | columns columns =>
        cases qualifier with
        | none => exact h
        | some q => exact widenSelect_sameBut columns h
    | _ => exact h

lemma widenFromLast_sameBut (hne : ∀ stage ∈ stages, stage.name ≠ name)
    (h : rs.SameBut name rs') : widenFromLast rs stages = widenFromLast rs' stages := by
  induction stages generalizing rs rs' with
  | nil => rfl
  | cons stage before ih =>
    obtain ⟨hstage, hrest⟩ := widenStage_sameBut h (hne stage mem_cons_self)
    change (widenStage rs stage).1 :: widenFromLast (widenStage rs stage).2 before =
      (widenStage rs' stage).1 :: widenFromLast (widenStage rs' stage).2 before
    grind

/-- **What a write gives back** does not concern the stages before it, and not its condition. -/
lemma widenStages_write (rs : Requirements) {statement : Statement} {touched : String × Option Expr}
    (htouched : statement.touched? = some touched) (hne : ∀ stage ∈ stages, stage.name ≠ name) :
    ∃ given : Statement, given.touched? = some touched ∧
      widenStages (rs.requireAll name) (stages ++ [⟨name, statement, r, none, none⟩]) =
        widenStages rs stages ++ [⟨name, given, r, none, none⟩] := by
  have hsame : (rs.requireAll name).SameBut name rs := by
    intro k hk
    rw [Requirements.requireAll, lookup_putKey, if_neg hk]
  have hown : (rs.requireAll name).lookup name = some .all := by
    rw [Requirements.requireAll, lookup_putKey, if_pos rfl]
  have hlast : ∃ given : Statement, given.touched? = some touched ∧
      widenStage (rs.requireAll name) ⟨name, statement, r, none, none⟩ =
        (⟨name, given, r, none, none⟩, rs.requireAll name) := by
    rw [widenStage, hown]
    cases statement with
    | update s => exact ⟨.update { s with returning := s.returning.widen .all }, htouched, rfl⟩
    | delete s => exact ⟨.delete { s with returning := s.returning.widen .all }, htouched, rfl⟩
    | _ => cases htouched
  obtain ⟨given, hgiven, hwiden⟩ := hlast
  refine ⟨given, hgiven, ?_⟩
  have hothers : widenFromLast (rs.requireAll name) stages.reverse =
      widenFromLast rs stages.reverse :=
    widenFromLast_sameBut (fun stage hmem => hne stage (mem_reverse.mp hmem)) hsame
  rw [widenStages, reverse_append, reverse_singleton, singleton_append,
    widenFromLast, hwiden, reverse_cons, hothers, widenStages]

end Widening

/-! ### Reads and writes -/

section Statements

variable {statement : Statement}

/-- **The statement of filters over a relation** is a SELECT with their conjuncts as its
condition. -/
lemma toStatement_filters (hr : g.schema.relation id = .ok r) (hf : g.Filters id q.root cs)
    (hbranches : q.branches = []) (h : q.toStatement g = .ok statement) :
    ∃ s condition, g.WhereOf r (cs.flatMap conjuncts) .initial s condition ∧
      (condition = none ↔ cs = []) ∧
      statement = withStages (widenStages s.required s.stages) (jsonRows
        { Select.empty with source := some (.table r.name none), condition := condition }) := by
  obtain ⟨earlier, hsub, hplan⟩ := plan_filters hf hbranches
  obtain ⟨⟨scan, s⟩, hrun, hpure⟩ := Except.bind_ok h
  cases hpure
  change q.plan g .initial = _ at hrun
  rw [hplan] at hrun
  obtain ⟨es, hes, hselect⟩ := scan_filters hr hrun
  exact ⟨s, _, whereOf_each hsub hes, each_eq_none hes, by rw [hselect]⟩

/-- **The statement of a write over filters** ends with an UPDATE or a DELETE of the relation with
their conjuncts as its condition. -/
lemma toStatement_write {past : Graph} {condition : Option Condition}
    (hr : g.schema.relation id = .ok r) (hw : g.WriteRoot id payload cs q.root past condition)
    (hbranches : q.branches = []) (h : q.toStatement g = .ok statement) :
    ∃ s₀ s found cte, g.WhereOf r (cs.flatMap conjuncts) s₀ s found ∧ (found = none ↔ cs = []) ∧
      statement.ctes = (widenStages s.required s.stages).map (fun s => ⟨s.name, s.statement⟩) ++
        [cte] ∧
      cte.statement.touched? = some (r.name, found) ∧
      ((∀ p, payload = some p → p.IsPlain) → s₀ = .initial) := by
  obtain ⟨⟨scan, s⟩, hrun, hpure⟩ := Except.bind_ok h
  cases hpure
  obtain ⟨written, s₁, hwritten, hstages, hrequired⟩ := plan_write hw hbranches hrun
  obtain ⟨s₀, es, hes, htouched, hplain⟩ := writeStatement_touches hr hwritten
  obtain ⟨⟨hnumbered, -⟩, -⟩ :=
    ((writeStatement_asks g.schema _).grows (planner_grows 0 past)).run
      ⟨PlanState.numbered_initial, Nat.zero_le _⟩ hwritten
  have hne : ∀ stage ∈ s₁.stages, stage.name ≠ s₁.nextStage := by
    intro stage hmem heq
    obtain ⟨k, hk, hname⟩ := hnumbered.1 stage hmem
    have hnext := (numberedName_inj.mp (hname.symm.trans heq)).2
    omega
  obtain ⟨given, hgiven, hwidened⟩ := widenStages_write s₁.required htouched hne
  have hpast : past.Within g := (Graph.within_push _ _).trans hw.node
  have hhandles : handlesOf condition.toList = handlesOf cs := by
    rw [← handlesOf_conjuncts, hw.conjuncts, handlesOf_conjuncts]
  have hsub : ∀ h ∈ handlesOf condition.toList,
      past.planner.subselect h = g.planner.subselect h := by
    intro h hh
    rw [hhandles] at hh
    obtain ⟨c, hc, hh⟩ := mem_handlesOf hh
    exact (hpast.planner_of_has (hw.handles c hc h hh)).2
  refine ⟨s₀, s₁, _, ⟨s₁.nextStage, given⟩, hw.conjuncts ▸ whereOf_each hsub hes, ?_, ?_, hgiven,
    hplain⟩
  · rw [each_eq_none hes, ← hw.missing]
    exact Option.toList_eq_nil_iff
  · rw [withStages_ctes, hstages, hrequired, hwidened, map_append]
    rfl

end Statements

/-- **A write touches exactly the rows that the same filters select.** A relation is filtered and
read. It is also filtered, updated or deleted from, and filtered further, at any times while the
graph grows. Then the SELECT takes the rows of the relation that meet a condition, and the last of
the named statements is an UPDATE or a DELETE of the relation with a condition. There is none in one
exactly if there is none in the other.

If values are written, or rows are deleted, then the two conditions hold of the same rows, with the
same named statements before them, whatever the operators, the tables and the row are. Where the
database reports an error for one condition, it does for the other.

If queries are written, then the names that were made up may differ in the two conditions. They hold
of the same rows if the tables agree on all relations, and no relation is named like that. What the
filters compare with must mean the same: expressions that are taken as they are, and the rows of
sub-selects, if there are any. For columns of filtered rows this follows (`Graph.WhereOf.sameRows`),
but a node that was staged for the queries that are written is read from its stage. -/
theorem write_touches_filtered_rows {g : Graph} {name : String}
    {table read filtered changed write : Query} {before after : List Condition} {change : Mutation}
    {readStatement writeStatement : Statement} (htable : g.Ran (Query.ofTable name) table)
    (hread : g.Filtered table (before ++ after) read)
    (hfiltered : g.Filtered table before filtered) (hchanged : g.Ran (change.run filtered) changed)
    (hwrite : g.Filtered changed after write) (hreads : read.toStatement g = .ok readStatement)
    (hwrites : write.toStatement g = .ok writeStatement) :
    ∃ (stages : List Stage) (wanted found : Option Expr) (cte : Cte),
      readStatement = withStages stages (jsonRows
        { Select.empty with source := some (.table name none), condition := wanted }) ∧
      writeStatement.ctes.getLast? = some cte ∧ cte.statement.touched? = some (name, found) ∧
      (found = none ↔ wanted = none) ∧
      (change.IsPlain → writeStatement.ctes = readStatement.ctes ++ [cte] ∧
        ∀ ops ts env, Expr.holds ops ts env found = Expr.holds ops ts env wanted) ∧
      ∀ (ops : Operators) (ts ts' : Tables), ts.Match ts' g.schema →
        (∀ e ∈ exprsEach (before ++ after), e.Steady ops ts ts') →
        (Condition.handlesOf (before ++ after) = [] ∧
            (∀ e ∈ exprsEach (before ++ after), e.operands = []) ∨
          Forall₂ (Statement.SameRows ops ts ts') (wanted.toList.flatMap Expr.operands)
            (found.toList.flatMap Expr.operands)) →
        ∀ env, Expr.holds ops ts' env found = Expr.holds ops ts env wanted := by
  obtain ⟨id, r, htableRoot, htableBranches, hget, hr⟩ := ofTable_filters htable
  obtain rfl : r.name = name := Schema.name_of_get? hget
  -- the nodes of the read and of the write
  obtain ⟨hreadRoot, hreadBranches⟩ := filtered_filters hread htableRoot
  obtain ⟨hfilteredRoot, hfilteredBranches⟩ := filtered_filters hfiltered htableRoot
  obtain ⟨payload, past, condition, hchangedRoot, hchangedBranches, hplain⟩ :=
    mutation_root hfilteredRoot hchanged
  obtain ⟨past', condition', hwriteRoot, hwriteBranches⟩ := filtered_root hwrite hchangedRoot
  -- both conditions are planned from the same conjuncts
  obtain ⟨s, wanted, hwanted, hwantedNone, hreadEq⟩ :=
    toStatement_filters hr hreadRoot (hreadBranches.trans htableBranches) hreads
  have hbranches : write.branches = [] :=
    ((hwriteBranches.trans hchangedBranches).trans hfilteredBranches).trans htableBranches
  obtain ⟨s₀, s₁, found, cte, hfound, hfoundNone, hctes, htouched, hstart⟩ :=
    toStatement_write hr hwriteRoot hbranches hwrites
  refine ⟨_, wanted, found, cte, hreadEq, by simp [hctes], htouched,
    hfoundNone.trans hwantedNone.symm, fun hchange => ?_,
    fun ops ts ts' hts hsteady hoperands env => ?_⟩
  · rw [hstart (hplain hchange)] at hfound
    obtain ⟨rfl, hholds⟩ := hwanted.holds_eq hfound
    exact ⟨by rw [hctes, hreadEq, withStages_ctes], hholds⟩
  · rw [← exprsEach_conjuncts] at hsteady hoperands
    refine hwanted.agree hfound hts hsteady ?_ (.refl env) rfl
    rcases hoperands with ⟨hhandles, hexprs⟩ | hrows
    · rw [← handlesOf_conjuncts] at hhandles
      rw [hwanted.operands_eq_nil hhandles hexprs, hfound.operands_eq_nil hhandles hexprs]
      exact .nil
    · exact hrows

/-- The folders in a folder of a given name. -/
def inFolder (name : String) : Condition := .lookup "parent__name" (.value (.text name))

/-- The folders that are named by their title, which is the name of a folder in the root. -/
def isTitled : Condition :=
  .all [.lookup "name" (.expr (.of "folder" "title")), .lookup "title__in" (.query ⟨0, 1⟩)]

/-- Folders with a name, a title and a parent. -/
def titledFolder : Relation :=
  ⟨"folder", [.primary "id", .scalar "name", .scalar "title", .forward "parent" "folder"]⟩

/-- Folders take the name of another one. -/
def takeName : Changes := ⟨[("name", .query ⟨0, 1⟩)], none⟩

/-- A graph after some steps: names are selected from the folders in the root, folders are filtered
twice, and those that the first of these filters leaves take the name if they meet the second. -/
def folderRename (steps : Nat) : Graph where
  id := 0
  schema := ⟨0, [titledFolder]⟩
  nodes :=
    [.update ⟨0, 0⟩ (.values [("name", .query ⟨0, 1⟩)]) (some ((inFolder "old").both isTitled)),
      .update ⟨0, 0⟩ (.values [("name", .query ⟨0, 1⟩)]) (some (inFolder "old")),
      .filter (.node ⟨0, 2⟩) isTitled,
      .filter (.relation ⟨0, 0⟩) (inFolder "old"),
      .select (.ofSource (.node ⟨0, 0⟩) (.ofFields ["name"])),
      .filter (.relation ⟨0, 0⟩) (inFolder "root")].drop (6 - steps)

lemma folderRename_within (steps : Nat) : (folderRename steps).Within (folderRename 6) :=
  ⟨rfl, rfl, _, (take_append_drop (6 - steps) _).symm⟩

lemma folderRename_ran {x : Build Query} (steps : Nat)
    (h : x (folderRename steps) = (.ok q, folderRename (steps + 1))) : (folderRename 6).Ran x q :=
  ⟨_, _, h, folderRename_within _⟩

/-- The condition on the folders in the root. Their parent goes by a name that was made up. -/
def rootParent (k : Nat) : Expr :=
  existsRow (tableItem "folder" (numberedName 'r' k))
    (linkTo (.forward "parent" "folder") titledFolder "folder" titledFolder (numberedName 'r' k))
    (.binary .eq (.of (numberedName 'r' k) "name") (.param (.text "root")))

lemma rootParent_whereOf (k : Nat) : ∃ s s', (folderRename 6).WhereOf titledFolder
    [inFolder "root"] s s' (rootParent (k + 1)).grouped := by
  have h : ∃ s', toSqlEach (folderRename 6).planner.context (folderRename 6).schema titledFolder
      "folder" ["folder"] [inFolder "root"] { PlanState.initial with names.relations := k } =
        .ok ([rootParent (k + 1)], s') := ⟨_, rfl⟩
  obtain ⟨s', h⟩ := h
  exact ⟨_, s', whereOf_each (fun _ _ => rfl) h⟩

/-- The parents of folders go by other names in the update, both in its condition and in the
sub-select that it compares with, since the name that is written was planned before. -/
theorem write_touches_filtered_rows_folder :
    ∃ readStatement writeStatement : Statement,
      (⟨0, .node ⟨0, 3⟩, []⟩ : Query).toStatement (folderRename 6) = .ok readStatement ∧
      (⟨0, .node ⟨0, 5⟩, []⟩ : Query).toStatement (folderRename 6) = .ok writeStatement ∧
      ∃ (stages : List Stage) (wanted found : Option Expr) (cte : Cte),
        readStatement = withStages stages (jsonRows
          { Select.empty with source := some (.table "folder" none), condition := wanted }) ∧
        writeStatement.ctes.getLast? = some cte ∧ cte.statement.touched? = some ("folder", found) ∧
        ∀ ops ts env, Expr.holds ops ts env found = Expr.holds ops ts env wanted := by
  have htable : (folderRename 6).Ran (Query.ofTable "folder") ⟨0, .relation ⟨0, 0⟩, []⟩ :=
    ⟨folderRename 0, folderRename 0, rfl, folderRename_within 0⟩
  have hfilter : (folderRename 6).Ran (Query.filter ⟨0, .relation ⟨0, 0⟩, []⟩ (inFolder "old"))
      ⟨0, .node ⟨0, 2⟩, []⟩ := folderRename_ran 2 rfl
  have hmore : (folderRename 6).Ran (Query.filter ⟨0, .node ⟨0, 2⟩, []⟩ isTitled)
      ⟨0, .node ⟨0, 3⟩, []⟩ := folderRename_ran 3 rfl
  have hupdate : (folderRename 6).Ran (Mutation.run ⟨0, .node ⟨0, 2⟩, []⟩ (.update takeName))
      ⟨0, .node ⟨0, 4⟩, []⟩ := folderRename_ran 4 rfl
  have hlater : (folderRename 6).Ran (Query.filter ⟨0, .node ⟨0, 4⟩, []⟩ isTitled)
      ⟨0, .node ⟨0, 5⟩, []⟩ := folderRename_ran 5 rfl
  have hread : ∃ c, (⟨0, .node ⟨0, 3⟩, []⟩ : Query).toStatement (folderRename 6) =
        .ok (jsonRows (titledFolder.selected [] (some c))) ∧
      c.operands = [.select (titledFolder.selected ["name"] (rootParent 2).grouped)] :=
    ⟨_, rfl, rfl⟩
  have hwrite : ∃ statement, (⟨0, .node ⟨0, 5⟩, []⟩ : Query).toStatement (folderRename 6) =
        .ok statement ∧ (statement.ctes.getLast?.bind (·.statement.touched?)).map
          (fun touched => touched.2.toList.flatMap Expr.operands) =
        some [.select (titledFolder.selected ["name"] (rootParent 3).grouped)] := ⟨_, rfl, rfl⟩
  obtain ⟨c, hread, hwantedOperands⟩ := hread
  obtain ⟨writeStatement, hwrite, hfoundOperands⟩ := hwrite
  obtain ⟨stages, wanted, found, cte, hwanted, hlast, hfound, -, -, hholds⟩ :=
    write_touches_filtered_rows htable (.cons hfilter (.cons hmore (.nil _)))
      (.cons hfilter (.nil _)) hupdate (.cons hlater (.nil _)) hread hwrite
  have hplain : (folderRename 6).schema.PlainRelations := by
    simp [Schema.PlainRelations, folderRename]
    rfl
  have hnames : ∀ r ∈ (folderRename 6).schema.relations, ∀ k, r.name ≠ numberedName 'r' k :=
    fun r hr => hplain.unnumbered r hr 'r' (by decide)
  have hexprs : exprsEach ([inFolder "old"] ++ [isTitled]) = [.of "folder" "title"] := rfl
  obtain rfl : wanted = some c := by
    cases stages with
    | nil =>
      cases hwanted
      rfl
    | cons stage rest => cases hwanted
  rw [hlast, Option.bind_some, hfound] at hfoundOperands
  refine ⟨_, writeStatement, hread, hwrite, stages, some c, found, cte, hwanted, hlast, hfound,
    fun ops ts env => hholds ops ts ts ⟨hnames, fun _ _ => rfl⟩ ?_ (.inr ?_) env⟩
  · rw [hexprs, forall_mem_singleton]
    exact of_steady (hnames _ mem_cons_self) "title"
  · obtain ⟨_, _, h2⟩ := rootParent_whereOf 1
    obtain ⟨_, _, h3⟩ := rootParent_whereOf 2
    have hoperands : found.toList.flatMap Expr.operands = _ := Option.some.inj hfoundOperands
    rw [hoperands, Option.toList_some, flatMap_singleton, hwantedOperands]
    exact .cons (h2.sameRows h3 ⟨hnames, fun _ _ => rfl⟩ (by rintro x ⟨⟩) .nil mem_cons_self
      ["name"]) .nil

end StagedSql
