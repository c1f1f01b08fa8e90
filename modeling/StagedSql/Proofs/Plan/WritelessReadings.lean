import StagedSql.Proofs.Plan.ConditionLaws
import StagedSql.Proofs.Plan.Ledger
import StagedSql.Proofs.Plan.ReferredNodes
import StagedSql.Proofs.Plan.Nodes
import StagedSql.Proofs.Plan.WrittenRows

/-!
What planning makes of readings holds no write (`planner_writeless`), and a write holds no other one
(`writeStatement_writes`).
-/

namespace StagedSql

open List Plan StagedSql.Expr

variable {e : Earlier} {s : PlanState} {past : Graph} {node : Node}

/-! ### Steps without conditions -/

lemma valueRows_writes (types : List (Option String)) (rows : List (List Value)) :
    writesRows (valueRows types rows) = [] := by
  rw [writesRows_eq_nil]
  intro row hrow e he
  obtain ⟨v, type, rfl⟩ := typedParam_of_mem_valueRows hrow he
  cases type <;> simp [typedParam, writes]

lemma openBase_writes (schema : Schema) (base : Base) (scope : List String) :
    Ensures (openBase schema base scope) s fun o _ => o.item.writes = [] := by
  cases base with
  | relation id => exact .bind_any fun r _ => .bind_any fun q _ => .of_pure rfl
  | stage name => exact .bind_any fun _ _ => .bind_any fun q _ => .of_pure rfl
  | values columns rows types => exact .bind_any fun _ _ => .of_pure (valueRows_writes _ _)
  | union members id =>
    refine .bind_any fun _ _ => .bind_any fun _ _ => .bind_any fun r _ => .of_pure ?_
    change Statement.writesEach (members.map stageRows) = []
    rw [Statement.writesEach_eq_nil]
    intro statement hmem
    obtain ⟨member, -, rfl⟩ := mem_map.mp hmem
    rfl
  | walk name id => exact .bind_any fun r _ => .of_pure rfl

/-- The writes in a shape. -/
def Shape.writes (sh : Shape) : List Statement :=
  Join.writesEach sh.joins ++ SelectItem.writesEach sh.items

lemma Shape.append_writes {a b : Shape} (ha : a.writes = []) (hb : b.writes = []) :
    (a.append b).writes = [] := by
  simp only [Shape.writes, Shape.append, Join.writesEach_append, SelectItem.writesEach_append,
    append_eq_nil_iff] at *
  exact ⟨⟨ha.1, hb.1⟩, ⟨ha.2, hb.2⟩⟩

lemma Opened.scan_writes {o : Opened} {sh : Shape} (ho : o.item.writes = [])
    (hsh : sh.writes = []) :
    (o.scan sh.joins sh.items).select.writes = [] := by
  rw [Shape.writes, append_eq_nil_iff] at hsh
  rw [Select.writes_eq_nil]
  exact ⟨hsh.2, ho, hsh.1, rfl, rfl⟩

lemma arrayOf_writes {inner : Select} (h : inner.writes = []) (rows : String)
    {ordering : List OrderItem} (ho : OrderItem.writesEach ordering = []) :
    (arrayOf inner rows ordering).writes = [] := by
  rw [Select.writes_eq_nil]
  refine ⟨?_, h, rfl, rfl, rfl⟩
  simp [arrayOf, labelled, SelectItem.writesEach, aggregateRows, coalesce, apply,
    arrayAgg, rowToJson, writes, writesEach, OrderItem.writesEach, ho]

lemma leftLateral_writes {statement : Statement} (h : statement.writes = []) (lateral : String)
    {e : Expr} (he : e.writes = []) (name : String) :
    (Shape.ofJoin (.leftLateral statement lateral, labelled e name)).writes = [] := by
  simp [Shape.writes, Shape.ofJoin, Join.leftLateral, Join.writesEach, FromItem.writes, h,
    Expr.writesOption, Expr.bool, Expr.writes, labelled, SelectItem.writesEach, he]

lemma joinRows_writes (outer : Outer) (c : Column) (name lateral : String) {inner : Scan}
    (h : inner.select.writes = []) :
    Ensures (joinRows outer c name lateral inner) s fun j _ =>
      (Shape.ofJoin j).writes = [] := by
  have hlink : ∀ a b a' b' : String, (inner.select.filter
      (.binary .eq (.of a b) (.of a' b'))).writes = [] :=
    fun a b a' b' => Select.filter_writes h (by simp [writes, of])
  rw [joinRows]
  split
  · refine .bind_any fun _ _ => .bind_any fun _ _ => .bind_any fun _ _ =>
      .of_pure (leftLateral_writes ?_ _ rfl _)
    exact arrayOf_writes (hlink _ _ _ _) _ rfl
  · refine .bind_any fun _ _ => .bind_any fun _ _ => .of_pure (leftLateral_writes ?_ _ rfl _)
    exact hlink _ _ _ _

lemma walkLink_writes (c : Column) (key next previous : String) :
    (walkLink c key next previous).writes = [] := by
  rw [walkLink]
  split <;> simp [writes, of]

lemma beginWalk_writes (schema : Schema) (outer : Outer) (c : Column) (target : RelationId)
    (maxDepth : Option UInt32) :
    Ensures (beginWalk schema outer c target maxDepth) s fun w _ =>
      w.start.writes = [] ∧ w.step.writes = [] := by
  refine .bind_any fun r _ => ?_
  dsimp only
  split
  · exact .throw_bind
  · refine .bind_any fun _ _ => .bind_any fun _ _ => .bind_any fun _ _ => .bind_any fun _ _ => ?_
    refine .of_pure ⟨Select.filter_writes rfl (walkLink_writes _ _ _ _), ?_⟩
    have hjoin : ∀ e : Expr, e.writes = [] → ∀ table next : String,
        Select.writes ⟨[⟨.star (some next), none⟩,
          labelled (.binary .plus (.of table "depth") (.int 1)) "depth"],
          some (.table r.name (some next)), [⟨.inner, false, .table table none, some e⟩], none,
          [], none, none⟩ = [] := by
      intro e he table next
      simp [Select.writes, SelectItem.writesEach, writes, labelled, of, int,
        FromItem.writesOption, FromItem.writes, Join.writesEach, writesOption, he,
        OrderItem.writesEach]
    cases maxDepth with
    | none => exact hjoin _ (walkLink_writes _ _ _ _) _ _
    | some depth => exact Select.filter_writes (hjoin _ (walkLink_writes _ _ _ _) _ _) rfl

lemma walkJoin_writes {w : Walk} (hstart : w.start.writes = []) (hstep : w.step.writes = [])
    (name lateral : String) {walked : Scan} (h : walked.select.writes = []) :
    Ensures (w.join name lateral walked) s fun j _ => (Shape.ofJoin j).writes = [] := by
  refine .bind_any fun _ _ => .of_pure (leftLateral_writes ?_ _ rfl _)
  have hrows : (if walked.select.isStar then walked.select else
      { walked.select with projection := walked.select.projection ++
        [⟨.of walked.qualifier "depth", none⟩] }).writes = [] := by
    split
    · exact h
    · rw [Select.writes_eq_nil] at h ⊢
      refine ⟨?_, h.2⟩
      rw [SelectItem.writesEach_append, h.1]
      rfl
  rw [Statement.writes, append_eq_nil_iff]
  refine ⟨?_, arrayOf_writes hrows _ rfl⟩
  simp [Cte.writesEach, Statement.writes, Statement.writesEach, hstart, hstep]

/-! ### The nodes before -/

/-- **What is said of nodes**: all readings are without expressions that are taken as they are, and
all SELECTs without writes. Nothing is said of states. -/
def writelessNodes : NodeLaw where
  law := .free
  Staged _ _ _ := True
  Paged _ _ _ := True
  Reads _ _ r _ := ∀ c ∈ r.conditions, c.NoExpr
  Scope _ _ := True
  Scans _ _ _ scan _ := scan.select.writes = []
  Selects _ _ statement _ := statement.writes = []

/-! ### Conditions -/

section Conditions

variable {key : String} {field : Expr} {op : Operator}

lemma compareQuery_writes {e : Expr} {query : Statement}
    (h : compareQuery key field op query = .ok e) (hf : field.writes = [])
    (hq : query.writes = []) : e.writes = [] := by
  cases op <;> simp only [compareQuery, Except.ok.injEq, reduceCtorEq] at h <;> subst h <;>
    simp [writes, hf, hq]

lemma compareValue_writes {e : Expr} {v : Value} (h : compareValue key field op v = .ok e)
    (hf : field.writes = []) : e.writes = [] := by
  have hparams : ∀ items : List Value, writesEach (items.map .param) = [] := by
    intro items
    rw [writesEach_eq_nil]
    intro x hx
    obtain ⟨v, -, rfl⟩ := mem_map.mp hx
    rfl
  cases op <;> cases v <;> simp only [compareValue, Except.ok.injEq, reduceCtorEq] at h <;>
    subst h <;> simp [writes, hf, hparams]

lemma linkTo_writes (c : Column) (owner : Relation) (ownerQualifier : String) (related : Relation)
    (qualifier : String) :
    (Condition.linkTo c owner ownerQualifier related qualifier).writes = [] := by
  rw [Condition.linkTo]
  split <;> simp [writes, of]

lemma existsRow_writes {item : FromItem} {link inner : Expr} (hitem : item.writes = [])
    (hlink : link.writes = []) (hinner : inner.writes = []) :
    (Condition.existsRow item link inner).writes = [] := by
  have hbase : ({ Select.empty with
      projection := [⟨.int 1, none⟩], source := some item } : Select).writes = [] := by
    rw [Select.writes_eq_nil]
    exact ⟨rfl, hitem, rfl, rfl, rfl⟩
  exact Select.filter_writes (Select.filter_writes hbase hlink) hinner

lemma writeless_makes (he : e.Meets writelessNodes) :
    e.Makes (fun _ => False) (fun _ => True) fun x => x.writes = [] where
  value h := compareValue_writes h rfl
  expr hx := hx.elim
  query _ := ((he _).subselect _).ensures.mono fun query _ hw _ h => compareQuery_writes h rfl hw
  link h := existsRow_writes rfl (linkTo_writes _ _ _ _ _) h
  all hw := getD_writes (conjunction?_of binary_writes paren_writes hw) rfl
  any hw := getD_writes (disjunction?_of binary_writes paren_writes hw) rfl
  not {x} hw := by rwa [negate, writes]

/-- **Conditions.** -/
lemma toSqlIn_writes (he : e.Meets writelessNodes) (schema : Schema) (r : Relation)
    (qualifier : String) (scope : List String) {c : Condition} (hc : c.NoExpr) :
    Ensures (Condition.toSqlIn e.context schema r qualifier scope c) s fun x _ =>
      x.writes = [] :=
  (writeless_makes he).toSqlIn_of_noExpr hc

end Conditions

/-! ### Selections and readings -/

/-- What is to be known of selections: their shapes hold no write. -/
def writelessShapes : ShapeLaw where
  law := .free
  Out _ _ := True
  Asks _ _ := True
  Leads _ _ _ := True
  Shaped _ _ _ sh := sh.writes = []

section Readings

variable {r : Reading}

lemma addConditions_writes (he : e.Meets writelessNodes) (schema : Schema) (outer : Outer)
    {conditions : List Condition} : ∀ {s : PlanState} {select : Select},
      (∀ c ∈ conditions, c.NoExpr) → select.writes = [] →
      Ensures (addConditions schema e outer select conditions) s fun filtered _ =>
        filtered.writes = [] := by
  induction conditions with
  | nil => exact fun _ hw => .of_pure hw
  | cons c rest ih =>
    intro s select hc hw
    rw [forall_mem_cons] at hc
    refine .bind_any fun _ _ => (toSqlIn_writes he schema _ _ _ hc.1).bind fun x _ hx => ?_
    exact ih hc.2 (Select.filter_writes hw hx)

lemma scanReading_writes_of (he : e.Meets writelessNodes) {schema : Schema}
    (hr : ∀ c ∈ r.conditions, c.NoExpr) (hshape : writelessShapes.Shapes schema e r.selection)
    (scope : List String) : Ensures (scanReading schema e r scope) s fun scan _ =>
      scan.select.writes = [] ∧ scan.select.limit = r.limit ∧ scan.select.offset = r.offset := by
  refine (openBase_writes schema r.base scope).bind fun o _ ho => ?_
  have hscan : (o.scan Shape.empty.joins Shape.empty.items).select.writes = [] :=
    Opened.scan_writes ho rfl
  refine (addConditions_writes he schema _ hr hscan).bind fun filtered _ hw => ?_
  refine .bind_any fun _ s0 => ?_
  have hshapes : Ensures (shape schema e (o.outer scope) r.selection) s0 fun sh _ =>
      sh.writes = [] := (Keeps.ensures (hshape trivial trivial)).mono fun _ _ h => h.1
  refine hshapes.bind fun sh s1 hsh => ?_
  have horder : Ensures (r.ordering.mapM (orderItem (o.outer scope))) s1 fun items _ =>
      Forall₂ (fun _ item => item.expr.writes = []) r.ordering items :=
    .mapM fun key _ _ => .bind_any fun _ _ => .of_pure rfl
  refine horder.bind fun items _ hitems => .of_pure ⟨?_, rfl, rfl⟩
  rw [Shape.writes, append_eq_nil_iff] at hsh
  rw [Select.writes_eq_nil] at hw ⊢
  refine ⟨hsh.2, hw.2.1, hsh.1, hw.2.2.2.1, ?_⟩
  rw [OrderItem.writesEach_eq_nil]
  intro item hmem
  obtain ⟨_, -, hitem⟩ := exists_of_forall₂_right hitems item hmem
  exact hitem

lemma writeless_shapeRules (he : e.Meets writelessNodes) (schema : Schema) :
    writelessShapes.Rules schema e where
  mono _ _ := trivial
  empty _ _ := rfl
  append _ _ ha hb := Shape.append_writes ha hb
  leads _ _ _ := trivial
  leads_empty _ _ := trivial
  stored _ _ _ := Ensures.keeps fun _ _ _ => rfl
  lookup {outer _ name c target lookup} _ _ _ hshape := by
    have hinner : ∀ (s : PlanState) (base : Base) (selection : Selection) (scope : List String),
        lookup.selection? = some selection → Ensures
          (scanReading schema e (.selecting base selection) scope) s fun scan _ =>
            scan.select.writes = [] := fun s base selection scope hl =>
      (scanReading_writes_of he (by simp [Reading.selecting, Reading.ofBase]) (hshape _ hl)
        scope).mono fun _ _ h => h.1
    refine Ensures.keeps (.bind_any fun lateral s1 => ?_)
    cases lookup with
    | nested selection =>
      rw [shapeLookup_nested]
      exact .bind_any fun base _ => (hinner _ base selection outer.scope rfl).bind fun _ _ h =>
        joinRows_writes outer c name lateral h
    | query h =>
      exact ((he h).scan outer.scope s1 trivial).ensures.bind fun _ _ h =>
        joinRows_writes outer c name lateral h
    | recursive selection maxDepth =>
      rw [shapeLookup_recursive]
      refine (beginWalk_writes schema outer c target maxDepth).bind fun w _ hw => ?_
      exact (hinner _ _ selection _ rfl).bind fun _ _ h => walkJoin_writes hw.1 hw.2 name lateral h

/-- **Readings**: their SELECTs hold no write. -/
lemma scanReading_writes (he : e.Meets writelessNodes) (schema : Schema)
    (hr : ∀ c ∈ r.conditions, c.NoExpr) (scope : List String) :
    Ensures (scanReading schema e r scope) s fun scan _ =>
      scan.select.writes = [] ∧ scan.select.limit = r.limit ∧ scan.select.offset = r.offset :=
  scanReading_writes_of he hr ((writeless_shapeRules he schema).shape r.selection) scope

end Readings

/-! ### All nodes -/

lemma writeless_readRules (he : e.Meets writelessNodes) (own : Handle)
    (hn : node.NoExpr) : writelessNodes.ReadRules past e own node where
  before := he
  staged_mono _ _ := trivial
  scope_mono _ _ := trivial
  scope_nil _ := trivial
  staged _ _ := trivial
  paged _ _ _ := trivial
  write _ _ := Ensures.keeps fun _ _ _ _ _ => trivial
  page _ _ _ _ _ _ _ := Ensures.keeps fun _ _ _ => trivial
  ofRelation _ _ := by simp [writelessNodes, Reading.ofBase]
  ofStage _ := by simp [writelessNodes, Reading.ofBase]
  ofPage _ _ := by simp [writelessNodes]
  select _ _ h := h
  filter := by
    rintro enclosed source condition r s rfl hr
    exact forall_mem_append.mpr ⟨hr, forall_mem_singleton.mpr hn⟩
  common _ _ _ h := h
  values _ _ := by simp [writelessNodes, Reading.ofBase]
  key _ _ _ h := h
  scan _ hr _ :=
    ((scanReading_writes he past.schema hr _).mono fun _ _ h => h.1).keeps
  select_of_scan h := by
    change (Statement.select _).writes = []
    exact h

/-- **What is made of the nodes of a graph holds no write.** -/
lemma planner_writeless {g : Graph} (hg : g.NoExpr) : g.planner.Meets writelessNodes :=
  planner_meets fun newer node rest _ hnodes he =>
    ofNode_meets (writeless_readRules he _ (hg node (by rw [hnodes]; simp)))
      (fun _ => Ensures.keeps fun _ _ _ => trivial)
      fun _ _ _ => Ensures.keeps fun _ _ _ => trivial

section Payloads

variable {e : Earlier} {s : PlanState} {a : Assigned} {payload : Payload}

lemma Reading.typedFor_conditions (r : Reading) (relation : Relation) :
    (r.typedFor relation).conditions = r.conditions := by
  rw [Reading.typedFor]
  split <;> rfl

lemma payloadExpr_writes (he : e.Meets writelessNodes) (column : String) (v : PayloadValue) :
    Plan.Ensures (payloadExpr e column v) s fun x _ => x.writes = [] ∧ v.IsWrittenAs x := by
  cases v with
  | value v => exact .of_pure ⟨rfl, rfl⟩
  | query h =>
    refine ((he h).subselect s).ensures.bind fun query _ hw => .of_pure ⟨?_, ⟨query, rfl⟩⟩
    rw [Expr.writes, hw]
  | parentKey =>
    refine .bind_any fun st _ => ?_
    cases st.parents with
    | nil => exact .of_throw
    | cons parent _ => exact .bind_any fun _ _ => .of_pure ⟨rfl, _, rfl⟩

lemma scanColumns_writes {scan : Scan} (h : scan.select.writes = []) :
    (scanColumns scan).2.writes = [] := by
  rw [scanColumns]
  split
  · rw [Select.writes_eq_nil] at h ⊢
    refine ⟨?_, h.2⟩
    rw [SelectItem.writesEach_eq_nil]
    intro item hmem
    obtain ⟨name, -, rfl⟩ := List.mem_map.mp hmem
    rfl
  · exact h

/-- What a payload writes: its columns and values, or the rows of its query, without any write. -/
def Assigned.IsOf : Assigned → Payload → Prop
  | .columns items, .values entries =>
    List.Forall₂ (fun entry item => entry.1 = item.column ∧
      PayloadValue.IsWrittenAs entry.2 item.value) entries items ∧
    ∀ item ∈ items, item.value.writes = []
  | .query _ statement, .query _ => statement.writes = []
  | _, _ => False

lemma assignedOf_writes (he : e.Meets writelessNodes) (schema : Schema) (relation : Relation)
    (payload : Payload) :
    Plan.Keeps .free (assignedOf schema e relation payload) s fun a _ =>
      a.IsOf payload := by
  refine assignedOf_keeps relation (fun entries hp => ?_) fun h hp => ?_
  · subst hp
    have hitems : Plan.Ensures (entries.mapM (assignment e)) s fun items _ =>
        List.Forall₂ (fun entry item => item.value.writes = [] ∧ entry.1 = item.column ∧
          PayloadValue.IsWrittenAs entry.2 item.value) entries items :=
      .mapM fun entry _ _ => (payloadExpr_writes he entry.1 entry.2).bind fun x _ h =>
        .of_pure ⟨h.1, rfl, h.2⟩
    refine (hitems.mono fun items _ hall => ⟨hall.imp fun _ _ h => h.2, fun item hmem => ?_⟩).keeps
    obtain ⟨entry, -, h⟩ := exists_of_forall₂_right hall item hmem
    exact h.1
  · subst hp
    refine (((he h).read false s).ensures.bind fun reading _ hc => ?_).keeps
    have hconditions : ∀ c ∈ (reading.typedFor relation).conditions, c.NoExpr := by
      rw [Reading.typedFor_conditions]
      exact hc
    refine (scanReading_writes he schema hconditions []).mono fun scan _ hscan _ => ?_
    change (Statement.select (scanColumns scan).2).writes = []
    exact scanColumns_writes hscan.1

lemma Assigned.IsOf.source (h : a.IsOf payload) (r : Relation) :
    payload.IsInserted ⟨r.name, a.source.1, a.source.2, .ofColumns [r.primaryKey]⟩ ∧
      a.source.2.writes = [] := by
  cases a with
  | columns items =>
    cases payload with
    | query h' => exact h.elim
    | values entries =>
      obtain ⟨hentries, hwrites⟩ := h
      have hcolumns := map_eq_of_forall₂ hentries fun _ _ h => h.1
      have hvalues := List.forall₂_map_right_iff.mpr (hentries.imp fun _ _ h => h.2)
      cases items with
      | nil =>
        cases hentries
        exact ⟨⟨rfl, .inl ⟨rfl, rfl⟩⟩, rfl⟩
      | cons item items =>
        refine ⟨⟨hcolumns.symm, .inr ⟨_, rfl, hvalues⟩⟩, ?_⟩
        change Expr.writesRows [(item :: items).map (·.value)] = []
        rw [Expr.writesRows_eq_nil]
        simp_all
  | query names rows =>
    cases payload with
    | values entries => exact h.elim
    | query h' => exact ⟨⟨_, rfl⟩, h⟩

lemma Assigned.IsOf.assignments (h : a.IsOf payload) {r : Relation} {set : Assignments}
    (hset : a.assignments r = .ok set) : payload.IsSet set ∧ set.writes = [] := by
  rcases a with (_ | ⟨item, rest⟩) | ⟨names, rows⟩ <;> cases hset <;> cases payload
  · exact ⟨⟨_, rfl, h.1⟩, Assignment.writesEach_eq_nil.mpr h.2⟩
  · exact h.elim
  · exact h.elim
  · exact ⟨⟨names, rows, rfl⟩, h⟩

/-! ### Statements -/

lemma writeCondition_writes (he : e.Meets writelessNodes) (schema : Schema) (relation : Relation)
    {condition : Option Condition} (hc : ∀ c, condition = some c → c.NoExpr) :
    Plan.Ensures (writeCondition schema e relation condition) s fun x _ =>
      Expr.writesOption x = [] ∧ x.isSome = condition.isSome := by
  cases condition with
  | none => exact .of_pure ⟨rfl, rfl⟩
  | some c =>
    exact (toSqlIn_writes he schema _ _ _ (hc c rfl)).bind fun x _ hx =>
      .of_pure ⟨andCondition_writes rfl hx, rfl⟩

/-- **The statement of a write** is that of its node and holds no other write. -/
lemma writeStatement_writes (he : e.Meets writelessNodes) {schema : Schema} {node : Node}
    (hn : node.NoExpr) : Plan.Ensures (writeStatement schema e node) s fun written _ =>
      ∀ statement r, written = some (statement, r) →
        node.IsBody schema statement ∧ statement.writes = [statement] := by
  refine ((writeStatement_made (assignedOf_writes he schema) fun r _ s1 =>
    (writeCondition_writes he schema r fun c hc => hn.condition hc).keeps).mono
      fun written s' _ hmade statement r hw => ?_).ensures
  cases hmade.2 statement r hw with
  | insert hr ha =>
    obtain ⟨hins, hw⟩ := ha.source r
    exact ⟨⟨r, hr, rfl, hins⟩, by rw [Statement.writes, hw]⟩
  | update hr _ ha hset _ he =>
    obtain ⟨hset, hw⟩ := ha.assignments hset
    exact ⟨⟨r, hr, rfl, hset, he.2⟩, by rw [Statement.writes, hw, he.1]; rfl⟩
  | delete hr he => exact ⟨⟨r, hr, rfl, he.2⟩, by rw [Statement.writes, he.1]⟩

end Payloads

end StagedSql
