import StagedSql.Proofs.Plan.CoveredStages
import StagedSql.Proofs.Plan.ScopedReadings

/-!
Names that stages keep apart.
-/

namespace StagedSql

open List Plan

variable {P : Site → Prop} {node : Node} {earlier : Earlier} {s : PlanState}
  {tables more : List String} {walks walks' : Nat} {g : Graph}

/-! ### Writes -/

/-- A statement that stands for itself: nothing is bound around it. -/
def Statement.Alone (P : Site → Prop) (tables : List String) (walks : Nat) (statement : Statement) :
    Prop :=
  ∀ named, Position tables walks 0 [] named [] → ∀ site ∈ statement.sites named [], P site

lemma Statement.Alone.mono {statement : Statement} (h : statement.Alone P tables walks)
    (ht : ∀ t ∈ tables, t ∈ more) (hw : walks' ≤ walks) : statement.Alone P more walks' :=
  fun named hplace => h named (hplace.weaken ht hw le_rfl)

/-- What is written into a column uses nothing of what is around it. -/
def Expr.Alone (P : Site → Prop) (tables : List String) (walks : Nat) (e : Expr) : Prop :=
  ∀ named, Position tables walks 0 [] named [] → ∀ bound, ∀ site ∈ e.sites named bound, P site

lemma Expr.Alone.mono {e : Expr} (h : e.Alone P tables walks) (ht : ∀ t ∈ tables, t ∈ more)
    (hw : walks' ≤ walks) : e.Alone P more walks' :=
  fun named hplace => h named (hplace.weaken ht hw le_rfl)

/-- What a payload writes uses nothing of what is around it. -/
def Assigned.Alone (P : Site → Prop) (tables : List String) (walks : Nat) : Assigned → Prop
  | .columns items => ∀ item ∈ items, item.value.Alone P tables walks
  | .query _ statement => statement.Alone P tables walks

section Payloads

variable {schema : Schema} (hP : ∀ site : Site, site.Good schema.tableNames → P site)
  (hschema : schema.Unnumbered) {tables named : List String} {walks : Nat} {a : Assigned}

include hP hschema

lemma parentKey_scopes (column : String) (walks : Nat) :
    Keeps (scoping P) (parentKey column) s fun e s' => e.Alone P s'.stageNames walks := by
  refine .of_holds fun hs => .get_bind ?_
  cases hparents : s.parents with
  | nil => exact .of_throw
  | cons parent _ =>
    have hstage : parent.stage ∈ s.stageNames := hs.parents parent (by rw [hparents]; simp)
    refine (need_scopes (some parent.stage) parent.key).bind fun _ s1 hx1 _ => .of_pure ?_
    intro named hplace bound
    have hscan := hplace.scans_table hschema (hx1.mem_stageNames _ hstage)
    rw [Expr.sites, Statement.sites, Select.sites_eq, forall_mem_cons]
    refine ⟨hP _ (good_binds ?_ (.inl (by simp))), Select.single_clauseSites ?_ ?_⟩
    · change [parent.stage].Nodup
      simp
    · simpa [FromItem.sites] using hP _ hscan
    · rw [forall_mem_singleton]
      exact of_good hP mem_cons_self _

lemma payloadExpr_scopes (he : earlier.Meets (scopedNodes P)) (column : String) (v : PayloadValue) :
    Keeps (scoping P) (payloadExpr earlier column v) s fun e s' =>
      e.Alone P s'.stageNames s.names.walks := by
  cases v with
  | value v => exact .of_pure fun named _ bound => by simp [Expr.sites]
  | query h =>
    refine ((he h).subselect s).bind fun query s1 _ hsites => .of_pure fun named hplace bound => ?_
    exact hsites named [] hplace
  | parentKey => exact parentKey_scopes hP hschema column _

omit hschema in
lemma scanColumns_alone {scan : Scan} {laterals : Nat}
    (h : scan.Scoped P tables walks laterals []) :
    (Statement.select (scanColumns scan).2).Alone P tables walks := by
  intro named hplace
  have hplace' := hplace.weaken (fun _ => id) le_rfl (Nat.zero_le laterals)
  have happart := h.apart named [] hplace'
  rw [Statement.sites, scanColumns]
  split
  · rw [Select.sites_eq, forall_mem_cons]
    refine ⟨hP _ (good_binds h.nodup (.inl happart)), ?_⟩
    have hclauses := h.clauses named [] hplace'
    rw [Select.clauseSites_forall] at hclauses ⊢
    refine ⟨SelectItem.sitesEach_forall.mpr fun item hitem => ?_, hclauses.2⟩
    obtain ⟨name, -, rfl⟩ := mem_map.mp hitem
    exact of_good hP (mem_append_left _ h.own) _
  · exact h.sites hP named [] hplace'

omit hP hschema in
lemma Reading.Scoped.typedFor {r : Reading} (h : r.Scoped P s) (relation : Relation) :
    (r.typedFor relation).Scoped P s := by
  rw [Reading.typedFor]
  split
  · exact ⟨trivial, h.exprs⟩
  · exact h

lemma assignedOf_scopes (he : earlier.Meets (scopedNodes P)) (relation : Relation)
    (payload : Payload) : Keeps (scoping P) (assignedOf schema earlier relation payload) s
      fun a s' => a.Alone P s'.stageNames s.names.walks := by
  refine assignedOf_keeps relation (fun entries _ => ?_) fun h _ => ?_
  · have hvalue : ∀ column v s1, (scoping P).grows s s1 →
        Keeps (scoping P) (payloadExpr earlier column v) s1 fun e s' =>
          e.Alone P s'.stageNames s.names.walks := fun column v s1 hx1 =>
      (payloadExpr_scopes hP hschema he column v).mono fun _ _ _ h =>
        h.mono (fun _ => id) hx1.names.walks
    exact assignments_keep hvalue (fun _ _ _ hx h => h.mono hx.mem_stageNames le_rfl) entries
  · refine ((he h).read false s).bind fun reading s1 hx1 hr => ?_
    refine (scanReading_scopes hP he hschema (hr.typedFor relation) (Names.knows_nil _)).mono
      fun scan s2 _ hscan _ => ?_
    exact (scanColumns_alone hP hscan).mono (fun _ ht => ht) hx1.names.walks

omit hP hschema in
lemma Assigned.Alone.source (h : a.Alone P tables walks)
    (hplace : Position tables walks 0 [] named []) :
    ∀ site ∈ a.source.2.sites named [], P site := by
  rcases a with (_ | ⟨item, rest⟩) | ⟨names, rows⟩
  · simp [Assigned.source, InsertSource.sites]
  · change ∀ site ∈ Expr.sitesRows named [] [(item :: rest).map (·.value)], P site
    rw [Expr.sitesRows_forall]
    intro row hrow e hmem
    rw [mem_singleton.mp hrow] at hmem
    obtain ⟨x, hx, rfl⟩ := mem_map.mp hmem
    exact h x hx named hplace []
  · exact h named hplace

omit hP hschema in
lemma Assigned.Alone.assignments {r : Relation} {set : Assignments} (h : a.Alone P tables walks)
    (hset : a.assignments r = .ok set) (hplace : Position tables walks 0 [] named [])
    (bound : List String) : ∀ site ∈ set.sites named bound, P site := by
  rcases a with (_ | ⟨item, rest⟩) | ⟨names, rows⟩ <;> cases hset
  · exact Assignment.sitesEach_forall.mpr fun item hitem => h item hitem named hplace bound
  · exact h named hplace

lemma writeCondition_scopes (he : earlier.Meets (scopedNodes P)) {relation : Relation}
    (hrelation : relation ∈ schema.relations) {condition : Option Condition}
    (hc : ∀ c, condition = some c → ∀ e ∈ c.exprs, e.Everywhere P) :
    Keeps (scoping P) (writeCondition schema earlier relation condition) s fun e s' =>
      ∀ named, Position s'.stageNames s.names.walks 0 [] named [] →
        ∀ site ∈ Expr.sitesOption named [relation.name] e, P site := by
  cases condition with
  | none => exact .of_pure fun named _ => by simp [Expr.sitesOption]
  | some c =>
    have hknows : s.names.Knows [relation.name] := by
      intro name hname
      rw [mem_singleton.mp hname]
      exact .plain (hschema relation hrelation)
    refine (toSql_scopes hP he hschema relation (.head _) (hc c rfl)
      hknows).bind fun e s1 _ hscoped => .of_pure fun named hplace => ?_
    have hbound : Position s1.stageNames s.names.walks 0 [relation.name] named [relation.name] :=
      hplace.bind (by simp)
    exact andCondition_sites (by simp [Expr.sitesOption]) (hscoped 0 named _ hbound)

end Payloads

/-- The expressions that the condition of a node takes as they are. -/
def Node.exprs : Node → List Expr
  | .update _ _ (some c) => c.exprs
  | .delete _ (some c) => c.exprs
  | .filter _ c => c.exprs
  | _ => []

/-- The expressions that the conditions of a graph take as they are. -/
def Graph.exprs (g : Graph) : List Expr := g.nodes.flatMap Node.exprs

lemma Node.exprs_of_noExpr (h : node.NoExpr) : node.exprs = [] := by
  cases node with
  | update id payload condition =>
    cases condition with
    | none => rfl
    | some c => exact Condition.exprs_of_noExpr h
  | delete id condition =>
    cases condition with
    | none => rfl
    | some c => exact Condition.exprs_of_noExpr h
  | filter source condition => exact Condition.exprs_of_noExpr h
  | _ => rfl

lemma Graph.exprs_of_noExpr (h : g.NoExpr) : g.exprs = [] :=
  flatMap_eq_nil_iff.mpr fun node hnode => Node.exprs_of_noExpr (h node hnode)

lemma Node.exprs_of_condition {c : Condition} (hc : node.condition? = some c) :
    node.exprs = c.exprs := by
  cases node with
  | update id payload condition =>
    obtain rfl : condition = some c := hc
    rfl
  | delete id condition =>
    obtain rfl : condition = some c := hc
    rfl
  | _ => cases hc

/-- **The statement of a write**, which is no SELECT. -/
lemma writeStatement_scopes {schema : Schema}
    (hP : ∀ site : Site, site.Good schema.tableNames → P site) (hschema : schema.Unnumbered)
    (he : earlier.Meets (scopedNodes P)) (hn : ∀ e ∈ node.exprs, e.Everywhere P) :
    Keeps (scoping P) (writeStatement schema earlier node) s fun written s' =>
      ∀ statement relation, written = some (statement, relation) →
        statement.Alone P s'.stageNames s.names.walks ∧ ∀ select, statement ≠ .select select := by
  refine (writeStatement_made (assignedOf_scopes hP hschema he) fun r hr s1 =>
    writeCondition_scopes hP hschema he hr fun c hc => Node.exprs_of_condition hc ▸ hn).mono
      fun written s' hx hmade statement r hw => ?_
  cases hmade.2 statement r hw with
  | insert hr ha => exact ⟨fun named hplace => ha.source hplace, by simp⟩
  | update hr hg ha hset hg1 he =>
    refine ⟨fun named hplace => ?_, by simp⟩
    rw [Statement.sites, forall_mem_append]
    exact ⟨ha.assignments hset (hplace.weaken hg1.mem_stageNames le_rfl
      le_rfl) _, he named (hplace.weaken (fun _ => id) hg.names.walks
      le_rfl)⟩
  | delete hr he => exact ⟨fun named hplace => he named hplace, by simp⟩

/-! ### New stages -/

section Stages

variable {s' : PlanState}

lemma PlanState.Scoped.position (hs : s.Scoped P) (walks : Nat) :
    Position s.stageNames walks 0 [] s.stageNames [] :=
  ⟨fun _ ht => ht, fun _ ht => .inl (hs.isStageName ht), by simp, by simp⟩

/-- **A stage is added** under the next name. -/
lemma PlanState.Scoped.add {own : Handle} {stage : Stage} (hs : s.Scoped P)
    (ha : s.Adds own stage s')
    (hsites : ∀ site ∈ stage.statement.sites s.stageNames [], P site)
    (hselect : ∀ select, stage.statement = .select select →
      select.qualifiers.Nodup ∧ ∀ q, stage.qualifier = some q → q ∈ select.qualifiers) :
    s'.Scoped P := by
  refine ⟨ha.numbered_names hs.names, ha.forall_split (P := fun before st =>
    ∀ site ∈ st.statement.sites before [], P site) hs.sites hsites,
    ha.forall_stage hs.selects hselect, ha.mem_of_noted ha.staged hs.staged,
    ha.mem_of_noted ha.pages hs.pages, fun e he m hm => ?_, ?_⟩
  · obtain ⟨e', he', hsame⟩ := ha.exists_written e he
    exact ha.mem_of_mem (hs.written e' he' m (hsame ▸ hm))
  · rw [ha.parents]
    exact fun p hp => ha.mem_of_mem (hs.parents p hp)

lemma setWritten_scopes (stage column : String) {members : List String}
    (h : ∀ m ∈ members, m ∈ s.stageNames) :
    Keeps (scoping P) (setWritten stage column members) s fun _ _ => True := by
  refine .of_run rfl (fun hs => ⟨hs.names, hs.sites, hs.selects, hs.staged, hs.pages, ?_,
    hs.parents⟩) ⟨.refl _, .of_stages rfl⟩ trivial
  intro e he
  rcases mem_cons.mp he with rfl | he
  · exact h
  · exact hs.written e he

end Stages

section Nodes

variable {past : Graph} {own : Handle}

lemma setParents_scoped {parents : List ParentRow} (h : ∀ p ∈ parents, p.stage ∈ s.stageNames)
    (hs : s.Scoped P) : PlanState.Scoped P { s with parents := parents } :=
  ⟨hs.names, hs.sites, hs.selects, hs.staged, hs.pages, hs.written, h⟩

lemma scoping_links (he : earlier.Meets (scopedNodes P)) (stage : String) (relation : Relation) :
    Links (scoping P) earlier stage relation (stage ∈ ·.stageNames) (· ∈ ·.stageNames)
      (fun _ _ => True) True where
  known_mono hx h := hx.mem_stageNames _ h
  member_mono hx h := hx.mem_stageNames _ h
  done_mono _ _ := trivial
  found hs h := hs.staged _ h
  child h s := ((he h).stage s).mono fun _ _ _ hn => ⟨hn, trivial⟩
  set column _ h _ := setWritten_scopes stage column h
  pushed h := h
  within {s _ _} hstage h := by
    have hpushed : s.Scoped P → PlanState.Scoped P
        { s with parents := ⟨stage, relation.primaryKey⟩ :: s.parents } :=
      fun hs => setParents_scoped (forall_mem_cons.mpr ⟨hstage, hs.parents⟩) hs
    refine .run_bind rfl hpushed ⟨.refl _, .of_stages rfl⟩ (h.bind fun _ s2 _ hdone => ?_)
    refine .of_run rfl (fun hs => ?_) ⟨.refl _, .of_stages rfl⟩ hdone
    exact setParents_scoped (fun p hp => hs.parents p (mem_of_mem_tail hp)) hs

lemma PlanState.Adds.lengthens {s' : PlanState} {stage : Stage} (h : s.Adds own stage s') :
    s.Lengthens s' := by
  refine ⟨?_, [stage], h.stages⟩
  rw [h.names]
  exact ⟨le_rfl, le_rfl, le_rfl, le_rfl, le_rfl⟩

/-- **The SELECT of a stage** is added. -/
lemma Scan.Scoped.staged {walks laterals : Nat} {scan : Scan}
    (hP : ∀ site : Site, site.Good past.schema.tableNames → P site)
    (h : scan.Scoped P s.stageNames walks laterals []) :
    Keeps (scoping P) (scan.toStage own) s (fun name s' => name ∈ s'.stageNames) ∧
      Keeps (scoping P) (scan.toPage own) s fun name s' => name ∈ s'.stageNames := by
  refine Scan.keeps_adds fun s' hs ha => ⟨hs.add ha ?_ ?_, ha.lengthens, ha.mem⟩
  · change ∀ site ∈ Statement.sites _ _ (.select scan.select), P site
    exact h.sites hP _ [] ((hs.position _).weaken (fun _ => id) (Nat.le_refl _) (Nat.zero_le _))
  · rintro select ⟨⟩
    refine ⟨h.nodup, ?_⟩
    rintro q ⟨⟩
    exact h.own

variable (hP : ∀ site : Site, site.Good past.schema.tableNames → P site)
  (hschema : past.schema.Unnumbered) (he : earlier.Meets (scopedNodes P))
  (hn : ∀ e ∈ node.exprs, e.Everywhere P)

include hP hschema he hn

lemma stageWrite_scopes :
    Keeps (scoping P) (stageWrite past earlier own node) s fun name s' =>
      ∀ n, name = some n → n ∈ s'.stageNames := by
  refine stageWrite_keeps (writeStatement_scopes hP hschema he hn) (fun _ _ _ => by simp)
    fun statement relation s1 hs1 hx hwritten => ?_
  have ha := s1.addWrite_adds own statement relation
  have hwrite := hwritten statement relation rfl
  refine ⟨hs1.add ha (hwrite.1 _ (hs1.position _))
    (fun select h => absurd h (hwrite.2 select)), hx.trans ha.lengthens, ?_⟩
  refine (linkWrite_links (scoping_links he s1.nextStage relation) ha.mem
    fun _ _ _ _ _ _ _ => trivial).mono fun _ s3 hx3 _ => ?_
  rintro n ⟨⟩
  exact hx3.mem_stageNames _ ha.mem

/-- Nodes as readings. -/
lemma scopes_readRules : (scopedNodes P).ReadRules past earlier own node where
  before := he
  staged_mono hx h := hx.mem_stageNames _ h
  scope_mono hx h := h.mono hx.names
  scope_nil _ := Names.knows_nil _
  staged hs h := hs.staged _ h
  paged _ hs h := hs.pages _ h
  write _ _ := stageWrite_scopes hP hschema he hn
  page {sel r s0 s} _ _ _ _ _ _ hr := by
    have hpage : Reading.Scoped P s
        ⟨r.base, .empty, sel.ordering, sel.limit, sel.offset, r.conditions⟩ := ⟨hr.base, hr.exprs⟩
    exact (scanReading_scopes hP he hschema hpage (Names.knows_nil _)).bind fun _ _ _ hscan =>
      (hscan.staged hP).2
  ofRelation _ _ := ⟨trivial, by simp [Reading.ofBase]⟩
  ofStage h := ⟨h, by simp [Reading.ofBase]⟩
  ofPage _ h := ⟨h, by simp⟩
  select _ _ h := ⟨h.base, h.exprs⟩
  filter hnode h := by
    subst hnode
    exact ⟨h.base, forall_mem_append.mpr ⟨h.exprs, forall_mem_singleton.mpr hn⟩⟩
  common _ _ _ h := h
  values _ _ := ⟨trivial, by simp [Reading.ofBase]⟩
  key _ _ _ h := ⟨h.base, h.exprs⟩
  scan hx hr hk := (scanReading_scopes hP he hschema hr hk).mono fun _ _ _ hscan =>
    hscan.mono (fun _ => id) hx.names.walks hx.names.laterals
  select_of_scan {s scan s'} h named bound hplace := by
    change ∀ site ∈ Statement.sites named bound (.select scan.select), P site
    exact h.sites hP named bound (hplace.weaken (fun _ ht => ht) (Nat.le_refl _) (Nat.zero_le _))

/-- Nodes as readings and stages. -/
lemma scopes_meetsAt : (Earlier.ofNode past earlier node).MeetsAt (scopedNodes P) own := by
  refine ofNode_meets (scopes_readRules hP hschema he hn) (fun hscan => (hscan.staged hP).1)
    fun {_ _ last s} _ hnames hlast => ?_
  obtain ⟨h, -, hmem⟩ := exists_of_forall₂_right hnames last (mem_of_getLast? hlast)
  exact .of_run rfl (fun hs => ⟨hs.names, hs.sites, hs.selects,
    forall_mem_cons.mpr ⟨hmem, hs.staged⟩, hs.pages, hs.written, hs.parents⟩)
    ⟨.refl _, .of_stages rfl⟩ hmem

end Nodes

/-- **All nodes of a graph.** -/
lemma planner_scopes (hP : ∀ site : Site, site.Good g.schema.tableNames → P site)
    (hschema : g.schema.Unnumbered) (hg : ∀ e ∈ g.exprs, e.Everywhere P) :
    g.planner.Meets (scopedNodes P) :=
  planner_meets fun _ node _ _ hnodes he => scopes_meetsAt hP hschema he fun e he =>
    hg e (mem_flatMap.mpr ⟨node, by simp [hnodes], he⟩)

end StagedSql
