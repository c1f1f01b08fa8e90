import StagedSql.Proofs.Condition.Meaning
import StagedSql.Proofs.Plan.RowStatements
import StagedSql.Proofs.Plan.ConditionLaws

/-!
The rows of a reading.

The rows that the SELECT of a reading takes from a table are those that meet its conditions, in its
order and cut to its page (`scanReading_rows`). Conditions are taken as tests, such as those that
compare with values (`Condition.readAs_truth`).
-/

namespace StagedSql

open List Plan

variable {r : Relation} {ops : Operators} {ts ts' : Tables} {g past : Graph} {q : String}
  {s : PlanState} {rows base : List Row} {test : Condition → Row → Option Bool}

/-! ### Conditions as tests -/

/-- Tables to which others have been added under the names of stages. -/
def Tables.Extend (ts ts' : Tables) : Prop := ∀ name, (∀ k, name ≠ rowName k) → ts' name = ts name

lemma Tables.Extend.refl (ts : Tables) : ts.Extend ts := fun _ _ => rfl

lemma Tables.Extend.define (h : ts.Extend ts') (k : Nat) (t : Table) :
    ts.Extend (ts'.define (rowName k) t) := by
  intro name hname
  rw [Tables.define, if_neg (hname k), h name hname]

/-- **A condition is read as a test** of the rows of a relation: planned among the nodes of a graph,
where the rows go by the name of the relation or of a stage, its expression has the truth value that
the test gives, whatever stages there are besides the tables. -/
def Condition.ReadAs (ops : Operators) (ts : Tables) (g : Graph) (r : Relation) (rows : List Row)
    (c : Condition) (test : Row → Option Bool) : Prop :=
  ∀ (past : Graph) (q : String) (s : PlanState), past.Within g → (q = r.name ∨ ∃ k, q = rowName k) →
      Ensures (c.toSql past.planner.context g.schema r q [q]) s fun e _ =>
        ∀ (ts' : Tables) (env : Env) (b : Binding), ts.Extend ts' → env.binding? q = some b →
          b.row ∈ rows → e.Says ops ts' env none (test b.row)

/-- The value of a column of a row, and null if there is none. -/
def Row.value (row : Row) (column : String) : Value := (row.cell? column).getD .null

lemma Row.Gives.value {row : Row} {values : String → Value}
    (h : row.Gives r values) : row.Gives r row.value := by
  intro c hc
  rw [Row.value, h c hc, Option.getD_some]

/-- **Conditions that compare with values are read as tests**: as their truth value on the row,
if no relation is named like a stage. -/
lemma Condition.readAs_truth {db : Database} (hserve : ts.Serve g.schema db)
    (hstages : ∀ t ∈ g.schema.relations, ∀ k, t.name ≠ rowName k) (hr : r ∈ g.schema.relations)
    (hrows : ∀ row ∈ rows, ∃ values, row.Gives r values) {c : Condition} (hc : c.OfValues) :
    c.ReadAs ops ts g r rows fun row => c.truth ops g.schema db r row.value := by
  intro past q s _ _ e s' hrun ts' env b hts hb hmem
  have hserve' : ts'.Serve g.schema db := by
    refine ⟨hserve.linked, hserve.stored, hserve.names, fun t ht => ?_⟩
    obtain ⟨table, hfound, hholds⟩ := hserve.hold t ht
    exact ⟨table, (hts t.name (hstages t ht)).trans hfound, hholds⟩
  have hscope : q ∈ addOnce [q] q := mem_addOnce.mpr (.inr rfl)
  have halone : ∀ t ∈ g.schema.relations, t.name ∈ addOnce [q] q → t.name = q := by
    intro t _ ht
    simpa [addOnce] using ht
  obtain ⟨values, hgives⟩ := hrows b.row hmem
  obtain ⟨-, -, hvalue⟩ := says_toSqlIn ops hserve' hr hscope hc (.inr halone) trivial e s' hrun
  exact hvalue env none b b.row.value hb hgives.value

section Conditions

variable {env : Env} {condition : Option Expr}

lemma Expr.Says.holds_getD {truth : Option Bool}
    (h : (condition.getD (.bool true)).Says ops ts env none truth) :
    Expr.holds ops ts env condition = some (truth == some true) := by
  cases condition with
  | none =>
    cases truth with
    | none => cases h
    | some b =>
      cases h
      rfl
  | some e => exact h.holds

lemma says_andCondition {e : Expr} {a b : Option Bool}
    (hcondition : (condition.getD (.bool true)).Says ops ts env none a)
    (he : e.Says ops ts env none b) :
    ((andCondition condition e).getD (.bool true)).Says ops ts env none (bothTrue a b) := by
  cases condition with
  | none =>
    have ha : a = some true := by
      have hholds := hcondition.holds_getD
      simpa [Expr.holds] using hholds.symm
    have hunit : ∀ b, bothTrue (some true) b = bothTrue b (some true) := by decide
    rw [ha, hunit]
    exact Expr.says_conjunction (.cons he .nil)
  | some first =>
    have hboth : bothTrue a b = [a, b].foldr bothTrue (some true) := by
      rw [foldr_cons, foldr_cons, foldr_nil, bothTrue_true]
    rw [hboth]
    exact Expr.says_conjunction (.cons hcondition (.cons he .nil))

lemma foldl_bothTrue_eq_true {α : Type} (f : α → Option Bool) (l : List α) (a : Option Bool) :
    l.foldl (fun t c => bothTrue t (f c)) a = some true ↔
      a = some true ∧ ∀ c ∈ l, f c = some true := by
  induction l generalizing a with
  | nil => simp
  | cons c rest ih =>
    rw [foldl_cons, ih, bothTrue_eq_true]
    simp [and_assoc]

end Conditions

/-! ### Planned readings -/

/-- What a SELECT takes from its table, without lookups and items. -/
def Select.stored (s : Select) : Select := { s with projection := [], joins := [] }

/-- The item of an ordering by a column. -/
def SortKey.item (q : String) (key : SortKey) : OrderItem :=
  ⟨.of q key.column, if key.descending then some .desc else none⟩

section Readings

variable {ordering : List SortKey}

/-- **The condition of a SELECT**, by induction on the conditions that are added. -/
lemma says_addConditions (hpast : past.Within g) (hts : ts.Extend ts')
    (hq : q = r.name ∨ ∃ k, q = rowName k) (hbase : base ⊆ rows) (stage : Option String)
    {cs : List Condition} (hcs : ∀ c ∈ cs, c.ReadAs ops ts g r rows (test c)) :
    ∀ {select : Select} {truth : Row → Option Bool} {s : PlanState},
      (∀ row ∈ base, (select.condition.getD (.bool true)).Says ops ts' [[⟨q, row, true⟩]] none
        (truth row)) →
      Ensures (addConditions g.schema past.planner ⟨r, q, stage, [q]⟩ select cs) s
        fun filtered _ => filtered = { select with condition := filtered.condition } ∧
          ∀ row ∈ base, (filtered.condition.getD (.bool true)).Says ops ts' [[⟨q, row, true⟩]] none
            (cs.foldl (fun t c => bothTrue t (test c row)) (truth row)) := by
  induction cs with
  | nil =>
    intro select truth s h
    refine .of_pure ⟨?_, h⟩
    cases select
    rfl
  | cons c rest ih =>
    intro select truth s h
    refine .bind_any fun _ s1 => ?_
    refine (hcs c (by simp) past q s1 hpast hq).bind fun e s2 he => ?_
    refine ih (fun c hc => hcs c (by simp [hc])) fun row hrow => ?_
    refine says_andCondition (h row hrow) (he ts' _ ⟨q, row, true⟩ hts ?_ (hbase hrow))
    exact Env.binding?_self q row []

lemma orderItems_run (ordering : List SortKey) (outer : Outer) :
    ∀ {s : PlanState}, Ensures (ordering.mapM (orderItem outer)) s fun items _ =>
      items = ordering.map (SortKey.item outer.qualifier) := by
  induction ordering with
  | nil => exact .of_pure rfl
  | cons key rest ih =>
    intro s
    rw [mapM_cons]
    have hitem : Ensures (orderItem outer key) s fun item _ =>
        item = SortKey.item outer.qualifier key := .bind_any fun _ _ => .of_pure rfl
    refine hitem.bind fun item s1 h => ih.bind fun items s2 h' => .of_pure ?_
    rw [h, h', map_cons]

lemma keys_orderItems {row : Row} {env : Env} (henv : env.binding? q = some ⟨q, row, true⟩)
    (hrow : ∀ key ∈ ordering, (row.cell? key.column).isSome) :
    OrderItem.keys ops ts env (ordering.map (SortKey.item q)) =
      some (SortKey.keys ordering row) := by
  induction ordering with
  | nil => rfl
  | cons key rest ih =>
    obtain ⟨v, hv⟩ := Option.isSome_iff_exists.mp (hrow key (by simp))
    have heval : (Expr.of q key.column).eval ops ts env none = some v := by
      rwa [Expr.of, Expr.eval, Env.column?, henv]
    have hdirection : ((if key.descending then some Direction.desc else none) ==
        some Direction.desc) = key.descending := by
      cases key.descending <;> rfl
    rw [map_cons, SortKey.item, OrderItem.keys, heval, ih fun k hk => hrow k (by simp [hk]),
      hdirection]
    simp [SortKey.keys, hv]

lemma Select.rows_table {columns : List String} {condition : Option Expr} {keep : Row → Bool}
    {limit offset : Option UInt64} (htable : ts q = some ⟨columns, base⟩)
    (hkeep : ∀ row ∈ base, Expr.holds ops ts [[⟨q, row, true⟩]] condition = some (keep row))
    (hordering : ∀ key ∈ ordering, ∀ row ∈ base, (row.cell? key.column).isSome) :
    Select.rows ops ts [] ⟨[], some (.table q none), [], condition, ordering.map (SortKey.item q),
      limit, offset⟩ = some (pageOf limit offset (ops.arranged ordering (base.filter keep))) := by
  have hrows : FromItem.rows ops ts [] (.table q none) = some (base.map id) := by
    rw [FromItem.rows, htable, map_id]
    rfl
  have hnames : (boundNames (some (.table q none)) []).Nodup := nodup_singleton q
  have hkeys : ∀ row ∈ base, OrderItem.keys ops ts [[⟨q, row, true⟩]]
      (ordering.map (SortKey.item q)) = some (SortKey.keys ordering row) :=
    fun row hrow => keys_orderItems (Env.binding?_self q row [])
      fun key hkey => hordering key hkey row hrow
  have hcells : ∀ row ∈ base, projected ops ts [] [] [⟨q, row, true⟩] = some row := by
    intro row _
    simp [projected]
  rw [Select.rows_paged hnames rfl hrows rfl (fun _ _ => rfl) hkeep hkeys hcells, map_id']
  rfl

end Readings

/-! ### Lookups -/

/-- A join that leaves out no row: a LEFT JOIN LATERAL on no condition. -/
def Join.IsLookup (j : Join) : Prop := ∃ statement label, j = .leftLateral statement label

/-- An item that shows one column of a relation. -/
structure SelectItem.Shows (r : Relation) (item : SelectItem) : Prop where
  one : item.isStar = false
  single : item.expr.aggregates = false
  known : (r.column? item.givenName).isSome

/-- **A shape of a relation**: items show its columns, and joins, which are there for items only,
leave out no row. -/
structure Shape.Of (r : Relation) (sh : Shape) : Prop where
  joins : ∀ j ∈ sh.joins, j.IsLookup
  items : ∀ item ∈ sh.items, item.Shows r
  few : sh.items = [] → sh.joins = []

lemma Shape.Of.empty (r : Relation) : Shape.empty.Of r :=
  ⟨by simp [Shape.empty], by simp [Shape.empty], fun _ => rfl⟩

lemma Shape.Of.append {a b : Shape} (ha : a.Of r) (hb : b.Of r) :
    (a.append b).Of r where
  joins j hj := (mem_append.mp hj).elim (ha.joins j) (hb.joins j)
  items item hi := (mem_append.mp hi).elim (ha.items item) (hb.items item)
  few h := by
    obtain ⟨h1, h2⟩ := append_eq_nil_iff.mp h
    exact append_eq_nil_iff.mpr ⟨ha.few h1, hb.few h2⟩

section Lookups

variable {schema : Schema} {earlier : Earlier} {outer : Outer} {name : String}

lemma Shape.Of.ofJoin {statement : Statement} {label : String} {e : Expr}
    (he : e.aggregates = false) (hn : (r.column? name).isSome) :
    (Shape.ofJoin (.leftLateral statement label, labelled e name)).Of r where
  joins j hj := ⟨_, _, mem_singleton.mp hj⟩
  items item hi := by
    rw [mem_singleton.mp hi]
    exact ⟨rfl, he, hn⟩
  few h := by cases h

lemma joinRows_of (c : Column) (hn : (outer.relation.column? name).isSome) (lateral : String)
    (inner : Scan) :
    Ensures (joinRows outer c name lateral inner) s fun j _ =>
      (Shape.ofJoin j).Of outer.relation := by
  refine (joinRows_join outer c name lateral inner trivial).mono fun j s' hj => ?_
  obtain ⟨-, -, own, other, rows, -, rfl⟩ := hj
  split
  · exact .ofJoin rfl hn
  · exact .ofJoin (by simp [Expr.rowToJson, Expr.apply, Expr.aggregates, Expr.anyAggregates]) hn

/-- What is said of all shapes: they are those of a relation. -/
def relationShapes : ShapeLaw where
  law := .free
  Out _ _ := True
  Asks _ _ := True
  Leads _ _ _ := True
  Shaped outer _ _ sh := sh.Of outer.relation

lemma relation_shapeRules : relationShapes.Rules schema earlier where
  mono _ _ := trivial
  empty outer _ := .empty _
  append _ _ ha hb := ha.append hb
  leads _ _ _ := trivial
  leads_empty _ _ := trivial
  stored {outer s name c} _ hc _ := by
    refine Ensures.keeps fun _ _ _ => ⟨by simp [Shape.ofItem], fun item hi => ?_, ?_⟩
    · rw [mem_singleton.mp hi]
      exact ⟨rfl, rfl, Option.isSome_of_eq_some hc⟩
    · simp [Shape.ofItem]
  lookup {outer s name c target lookup} _ _ htarget _ := by
    obtain ⟨t, hlink, -⟩ := lookupTarget_link htarget
    have hn : (outer.relation.column? name).isSome := by
      rw [(Schema.link?_eq_some.mp hlink).1, Option.isSome_some]
    refine Ensures.keeps (.bind_any fun lateral s1 => ?_)
    cases lookup with
    | nested selection =>
      rw [shapeLookup_nested]
      exact .bind_any fun _ _ => .bind_any fun _ _ => joinRows_of c hn lateral _
    | query h =>
      exact .bind_any fun _ _ => joinRows_of c hn lateral _
    | recursive selection maxDepth =>
      exact .bind_any fun _ _ => .bind_any fun _ _ => .bind_any fun _ _ => .of_pure (.ofJoin rfl hn)

/-- **The shape of a selection**, which is empty if nothing is named. -/
lemma shape_of (selection : Selection) :
    Ensures (shape schema earlier outer selection) s fun sh _ =>
      sh.Of outer.relation ∧ (selection = .empty → sh = .empty) := by
  intro sh s' hrun
  refine ⟨(relation_shapeRules.shape selection trivial trivial trivial sh s' hrun).2.2.1, ?_⟩
  rintro rfl
  cases hrun
  rfl

end Lookups

/-! ### The SELECT of a reading -/

/-- The rows that meet conditions. -/
def meeting (test : Condition → Row → Option Bool) (cs : List Condition) (rows : List Row) :
    List Row :=
  rows.filter fun row => cs.all fun c => test c row == some true

/-- **The SELECT of a reading of a table**: what it takes from the table is as the reading asks, and
lookups leave out no row. Without a selection there is nothing else in it. -/
structure Scan.Takes (ops : Operators) (ts : Tables) (q : String) (reading : Reading)
    (rows : List Row) (scan : Scan) : Prop where
  source : scan.select.source = some (.table q none)
  limit : scan.select.limit = reading.limit
  offset : scan.select.offset = reading.offset
  lookups : ∀ j ∈ scan.select.joins, j.IsLookup
  star : reading.selection = .empty → scan.select.stored = scan.select
  rows : scan.select.stored.rows ops ts [] = some (pageOf reading.limit reading.offset
    (ops.arranged reading.ordering rows))

/-- **The rows that the SELECT of a reading takes** from a table. -/
lemma scanReading_rows (hpast : past.Within g) (hts : ts.Extend ts')
    (hq : q = r.name ∨ ∃ k, q = rowName k) (hbase : base ⊆ rows) {columns : List String}
    (htable : ts' q = some ⟨columns, base⟩) {reading : Reading} {stage : Option String}
    (hopen : openBase g.schema reading.base [] s = .ok (⟨.table q none, q, r, stage⟩, s))
    (hcs : ∀ c ∈ reading.conditions, c.ReadAs ops ts g r rows (test c))
    (hordering : ∀ key ∈ reading.ordering, ∀ row ∈ base, (row.cell? key.column).isSome) :
    Ensures (scanReading g.schema past.planner reading []) s fun scan _ =>
      scan.relation = r ∧ scan.Takes ops ts' q reading (meeting test reading.conditions base) := by
  refine .run_bind hopen ?_
  have htrue : ∀ row ∈ base, ((Select.condition (Opened.scan ⟨.table q none, q, r, stage⟩ []
      []).select).getD (.bool true)).Says ops ts' [[⟨q, row, true⟩]] none (some true) :=
    fun _ _ => rfl
  refine (says_addConditions hpast hts hq hbase stage hcs htrue).bind
    fun filtered s1 hfiltered => ?_
  obtain ⟨hselect, hvalue⟩ := hfiltered
  refine .bind_any fun _ s2 => (shape_of reading.selection).bind fun sh s3 hsh => ?_
  refine (orderItems_run reading.ordering _).bind fun items s4 hitems => .of_pure ⟨rfl, ?_⟩
  subst hitems
  rw [hselect]
  refine ⟨rfl, rfl, rfl, hsh.1.joins, fun hempty => ?_, ?_⟩
  · rw [hsh.2 hempty]
    rfl
  · have hkeep : ∀ row ∈ base, Expr.holds ops ts' [[⟨q, row, true⟩]] filtered.condition =
        some (reading.conditions.all fun c => test c row == some true) := by
      intro row hrow
      rw [(hvalue row hrow).holds_getD, Option.some.injEq, Bool.eq_iff_iff, beq_iff_eq,
        foldl_bothTrue_eq_true]
      simp
    exact Select.rows_table htable hkeep hordering

end StagedSql
