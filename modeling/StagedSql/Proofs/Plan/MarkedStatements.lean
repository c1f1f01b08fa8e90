import StagedSql.Proofs.Graph.Operations
import StagedSql.Proofs.Plan.ClosedStatements
import StagedSql.Proofs.Plan.MarkedStages

/-!
What is in the statement of a query.

Rows that are written out are checked when they are given, and what is inserted or updated has
columns. Two things are not checked: that rows which refer back to another one are some, and that a
relation has a stored column.
-/

namespace StagedSql

open List Returning

variable {g : Graph} {R : Relation → String → Prop}

/-! ### Stages that give more -/

section Widening

variable {s : PlanState} {rs : Requirements} {stage : Stage} {r : Returning} {names : List String}

/-- A stage that was widened has good marks and no new FROM items. -/
structure Stage.MarkedAs (g : Graph) (R : Relation → String → Prop) (stage widened : Stage) :
    Prop where
  good : ∀ m ∈ widened.statement.marks, m.Raw g ∨ m.Good g R noRow widened.statement.marks
  items : ∀ i, .item i ∈ widened.statement.marks → .item i ∈ stage.statement.marks

lemma Returning.widen_ne_nil (h : r ≠ .columns []) (required : Required) :
    r.widen required ≠ .columns [] := by
  cases required with
  | all => simp [widen, requireAll]
  | columns names =>
    induction names generalizing r with
    | nil => exact h
    | cons c rest ih =>
      refine ih ?_
      cases r with
      | columns given =>
        have hmem : c ∈ addOnce given c := mem_addOnce.mpr (.inr rfl)
        rw [require, ne_eq, columns.injEq]
        exact ne_nil_of_mem hmem
      | _ => simp [require]

lemma Returning.mem_widen_marks {required : Required} {m : Mark}
    (h : m ∈ (r.widen required).marks) :
    m ∈ r.marks ∨ ∃ names, required = .columns names ∧ ∃ c ∈ names, m = .shows c := by
  cases required with
  | all => simp [widen, requireAll, marks] at h
  | columns names =>
    have hfold : ∀ (names : List String) (r : Returning), m ∈ (names.foldl require r).marks →
          m ∈ r.marks ∨ ∃ c ∈ names, m = .shows c := by
      intro names
      induction names with
      | nil => exact fun r h => .inl h
      | cons c rest ih =>
        intro r h
        rcases ih (r.require c) h with h | ⟨c', hc', rfl⟩
        · cases r with
          | columns given =>
            simp only [require, marks, mem_map, mem_addOnce] at h
            obtain ⟨c', hc' | rfl, rfl⟩ := h
            · exact .inl (mem_map_of_mem hc')
            · exact .inr ⟨c', by simp, rfl⟩
          | all => simp [require, marks] at h
          | nothing =>
            simp only [require, marks, map_cons, map_nil, mem_singleton] at h
            exact .inr ⟨c, by simp, h⟩
        · exact .inr ⟨c', by simp [hc'], rfl⟩
    exact (hfold names r h).imp_right fun hc => ⟨names, rfl, hc⟩

lemma good_of_replaced {L L' : List Mark} (hold : ∀ m ∈ L, m.Raw g ∨ m.Good g R noRow L)
    (hitems : ∀ i, .item i ∈ L → .item i ∈ L')
    (hnew : ∀ m ∈ L', m ∈ L ∨ m.Good g R noRow L') :
    ∀ m ∈ L', m.Raw g ∨ m.Good g R noRow L' := by
  intro m hm
  rcases hnew m hm with hm | hm
  · exact (hold m hm).imp_right fun hgood => hgood.mono hitems fun _ _ hf => .inl hf
  · exact .inr hm

lemma Stage.Marked.shows (h : stage.Marked g R s) {c : String} (hc : R stage.relation c)
    (L : List Mark) : (Mark.shows c).Good g R noRow L :=
  .inr ⟨_, h.known, .inl hc⟩

/-- **A write that gives back more.** Its own mark is another one, and names are added. -/
lemma Stage.Marked.write (h : stage.Marked g R s) {old new : Statement}
    (hstatement : stage.statement = old) (returning : Returning) (required : Required)
    (rest : List Mark)
    (hold : ∀ m, m ∈ old.marks ↔ m = .part old ∨ m ∈ returning.marks ∨ m ∈ rest)
    (hnew : ∀ m, m ∈ new.marks ↔ m = .part new ∨ m ∈ (returning.widen required).marks ∨ m ∈ rest)
    (hgrammatical : old.Grammatical → new.Grammatical)
    (hrequired : ∀ names, required = .columns names → ∀ c ∈ names, R stage.relation c) :
    stage.MarkedAs g R { stage with statement := new } := by
  subst hstatement
  have hitem : ∀ (r : Returning) (i : FromItem), .item i ∉ r.marks := by
    intro r i
    cases r <;> simp [Returning.marks]
  have hrest : ∀ i, .item i ∈ stage.statement.marks ↔ .item i ∈ new.marks := by
    intro i
    rw [hold, hnew]
    simp [hitem]
  have hpart : g.Tidy → stage.statement.Grammatical := by
    intro ht
    have hgood : (Mark.part stage.statement).Good g R noRow stage.statement.marks :=
      (h.marks _ ((hold _).mpr (.inl rfl))).resolve_left ht.not_raw
    exact hgood ht
  refine ⟨good_of_replaced h.marks (fun i => (hrest i).mp) fun m hm => ?_, fun i => (hrest i).mpr⟩
  rcases (hnew m).mp hm with rfl | hm | hm
  · exact .inr fun ht => hgrammatical (hpart ht)
  · rcases mem_widen_marks hm with hm | ⟨names, hnames, c, hc, rfl⟩
    · exact .inl ((hold m).mpr (.inr (.inl hm)))
    · exact .inr (h.shows (hrequired names hnames c hc) _)
  · exact .inl ((hold m).mpr (.inr (.inr hm)))

/-- **A SELECT that gives more columns** of what it reads. -/
lemma Stage.Marked.ensureEach (h : stage.Marked g R s) {select : Select} {q : String}
    (hstatement : stage.statement = .select select) (hq : stage.qualifier = some q)
    (hnames : ∀ c ∈ names, R stage.relation c) :
    stage.MarkedAs g R { stage with statement := .select (select.ensureEach q names) } := by
  have hmarks := h.marks
  rw [hstatement] at hmarks
  obtain ⟨i, hi, hiq, hallows⟩ := h.select select q hstatement hq
  obtain ⟨added, heq, hadded⟩ := select.ensureEach_eq q names
  have hnew : ∀ m, m ∈ (select.ensureEach q names).marks → m ∈ select.marks ∨
      ∃ c ∈ names, m = .shows c ∨ m = .column q c := by
    intro m hm
    rw [heq] at hm
    rcases mem_append.mp (Select.mem_append_marks.mp hm) with hm | hm
    · exact .inl hm
    · obtain ⟨item, hitem, hm⟩ := mem_flatMap.mp hm
      obtain ⟨c, hc, rfl⟩ := hadded item hitem
      rw [column_item_marks, mem_cons, mem_singleton] at hm
      exact .inr ⟨c, hc, hm⟩
  have hsub : ∀ m ∈ select.marks, m ∈ (select.ensureEach q names).marks := by
    intro m hm
    rw [heq]
    exact Select.mem_append_marks.mpr (mem_append_left _ hm)
  refine ⟨?_, fun j hj => ?_⟩
  · refine good_of_replaced hmarks (fun j => hsub _) fun m hm => ?_
    rcases hnew m hm with hm | ⟨c, hc, rfl | rfl⟩
    · exact .inl hm
    · exact .inr (h.shows (hnames c hc) _)
    · exact .inr (.inr ⟨i, hsub _ hi, hiq, hallows c (hnames c hc)⟩)
  · rw [hstatement]
    rcases hnew _ hj with hj | ⟨c, -, hj | hj⟩
    · exact hj
    · cases hj
    · cases hj

/-- **One stage is widened.** -/
lemma Stage.Marked.given (h : stage.Marked g R s) {required : Option Required}
    (hrequired : ∀ names, required = some (.columns names) → ∀ c ∈ names, R stage.relation c) :
    stage.MarkedAs g R { stage with statement := stage.given required } := by
  -- only writes and rows with a qualifier are widened
  have hkept : ∀ statement, stage.statement = statement →
      stage.MarkedAs g R { stage with statement := statement } := by
    rintro _ rfl
    exact ⟨h.marks, fun _ hi => hi⟩
  cases required with
  | none => exact hkept _ rfl
  | some required =>
    have hcolumns : ∀ names, required = .columns names → ∀ c ∈ names, R stage.relation c := by
      rintro names rfl
      exact hrequired names rfl
    rw [Stage.given]
    cases hstatement : stage.statement with
    | insert st =>
      obtain ⟨table, columns, source, returning⟩ := st
      refine h.write hstatement returning required source.marks (fun m => ?_) (fun m => ?_)
        (fun hg => ⟨hg.1, widen_ne_nil hg.2 required⟩) hcolumns
      · rw [Statement.marks, mem_cons, mem_append]
      · rw [Statement.giving, Statement.marks, mem_cons, mem_append]
    | update st =>
      obtain ⟨table, assignments, condition, returning⟩ := st
      refine h.write hstatement returning required
        (.item (.table table none) :: (assignments.marks ++ Expr.marksOption condition))
        (fun m => ?_) (fun m => ?_)
        (fun hg => ⟨hg.1, widen_ne_nil hg.2 required⟩) hcolumns
      · rw [Statement.marks]
        simp only [mem_cons, mem_append]
        tauto
      · rw [Statement.giving, Statement.marks]
        simp only [mem_cons, mem_append]
        tauto
    | delete st =>
      obtain ⟨table, condition, returning⟩ := st
      refine h.write hstatement returning required
        (.item (.table table none) :: Expr.marksOption condition) (fun m => ?_) (fun m => ?_)
        (fun hg => widen_ne_nil hg required) hcolumns
      · rw [Statement.marks]
        simp only [mem_cons, mem_append]
        tauto
      · rw [Statement.giving, Statement.marks]
        simp only [mem_cons, mem_append]
        tauto
    | select select =>
      cases required with
      | all => exact hkept _ hstatement
      | columns names =>
        cases hq : stage.qualifier with
        | none =>
          have hsame := hkept _ hstatement
          rwa [hq] at hsame
        | some q =>
          have hmore := h.ensureEach hstatement hq (hcolumns names rfl)
          rwa [hq] at hmore
    | _ => exact hkept _ hstatement

lemma widenSelect_permitted (hrs : rs.Permitted R s) {base : Option String} {r : Relation}
    (hbase : s.Reads base r) (q : String) (hnames : ∀ c ∈ names, R r c) (select : Select) :
    (names.foldl (widenSelect q base) (select, rs)).2.Permitted R s := by
  induction names generalizing select rs with
  | nil => exact hrs
  | cons c rest ih =>
    have hstep : (widenSelect q base (select, rs) c).2.Permitted R s := by
      unfold widenSelect
      dsimp only
      split
      · exact hrs
      · cases base with
        | none => exact hrs
        | some name => exact hrs.require (hbase name rfl) (hnames c (by simp))
    exact ih hstep (fun c' hc' => hnames c' (by simp [hc'])) _

lemma widenStage_permitted (hs : s.Marked g R) (hmem : stage ∈ s.stages) (hrs : rs.Permitted R s) :
    stage.MarkedAs g R (widenStage rs stage).1 ∧ (widenStage rs stage).2.Permitted R s := by
  have hmarked := hs.stages stage hmem
  have hrequired : ∀ names, rs.lookup stage.name = some (.columns names) →
      ∀ c ∈ names, R stage.relation c := by
    intro names hlookup c hc
    obtain ⟨r, hr, hpermitted⟩ := hrs _ _ hlookup c hc
    rwa [hr.unique (hs.stageOf hmem)] at hpermitted
  constructor
  · rw [widenStage_eq]
    exact hmarked.given hrequired
  · rw [widenStage]
    split
    · exact hrs
    · rename_i required hlookup
      split
      · exact hrs
      · exact hrs
      · exact hrs
      · split
        · rename_i names q _
          exact widenSelect_permitted hrs hmarked.base q (hrequired names hlookup) _
        · exact hrs
      · exact hrs

/-- **All stages are widened**, from the last to the first. -/
lemma widenFromLast_marks (hs : s.Marked g R) (stages : List Stage)
    (hstages : ∀ stage ∈ stages, stage ∈ s.stages) (hrs : rs.Permitted R s) :
    Forall₂ (Stage.MarkedAs g R) stages (widenFromLast rs stages) := by
  induction stages generalizing rs with
  | nil => exact .nil
  | cons stage before ih =>
    obtain ⟨hfirst, hrest⟩ := widenStage_permitted hs (hstages stage (by simp)) hrs
    exact .cons hfirst (ih (fun st hst => hstages st (by simp [hst])) hrest)

lemma widenStages_marks (hs : s.Marked g R) :
    Forall₂ (Stage.MarkedAs g R) s.stages (widenStages s.required s.stages) := by
  have h := rel_reverse (widenFromLast_marks hs s.stages.reverse (by simp) hs.required)
  rwa [reverse_reverse] at h

end Widening

/-! ### Statements -/

/-- **A statement with good marks**, whose FROM items are numbered besides the outermost one. -/
structure Statement.Planned (g : Graph) (R : Relation → String → Prop) (statement : Statement) :
    Prop where
  good : ∀ m ∈ statement.marks, m.Raw g ∨ m.Good g R noRow statement.marks
  spans : g.exprs = [] → ∃ s L, PlanState.initial.Spans s L ∧ ∀ i, .item i ∈ statement.marks →
      .item i ∈ L ++ PlanState.initial.added s ∨ ∃ inner, i = .derived (.select inner) "x" []

lemma jsonRows_marks (inner : Select) : (jsonRows inner).marks =
    .item (.derived (.select inner) "x" []) :: (inner.marks ++ [.wholeRow "x"]) := by
  have hitem : SelectItem.marks ⟨.rowToJson "x", none⟩ = [.wholeRow "x"] := rfl
  rw [jsonRows, Statement.marks, Select.single_marks]
  simp [FromItem.marks, Statement.marks, hitem]

lemma mem_withStages_marks {stages : List Stage} {body : Statement} {m : Mark} :
    m ∈ (withStages stages body).marks ↔
      (∃ st ∈ stages, m = .named ⟨st.name, st.statement⟩ ∨ m ∈ st.statement.marks) ∨
        m ∈ body.marks := by
  rw [withStages]
  split
  · rename_i hempty
    simp [List.isEmpty_iff.mp hempty]
  · rw [Statement.marks, Cte.marksEach_eq]
    simp

section Queries

variable {q : Query} {statement : Statement}

lemma initial_marked (g : Graph) (R : Relation → String → Prop) :
    PlanState.initial.Marked g R := by
  refine ⟨rfl, ?_, ?_, ?_, ?_, ?_, ?_⟩ <;>
    simp [PlanState.initial, Requirements.Permitted]

/-- **Planning a query.** -/
lemma plan_marks (hschema : g.schema.Accepted) (hp : g.Permits R) (q : Query) (s : PlanState) :
    Plan.Keeps (marking g R) (q.plan g) s fun scan s' =>
      g.Gives q.root scan.relation ∧ scan.Marked g R s s' := by
  have he := planner_marks hschema hp
  have hbranches := branches_keep (s := s) (fun _ _ _ _ h => h)
    (fun h s => ((he h).stage s).forget) q.branches
  refine hbranches.bind fun _ s1 hx1 _ => ?_
  have hafter : ∀ {scan : Scan} {s2 : PlanState}, s1.Continues g s2 → scan.Marked g R s1 s2 →
      scan.Marked g R s s2 := fun hx2 hscan =>
    ⟨hscan.known, hscan.reads, hscan.source, hscan.fragment.after hx1 hx2⟩
  cases q.root with
  | relation id =>
    have hr : (Reading.ofBase (.relation id)).Marked g R s1 (.relation id) :=
      ⟨trivial, fun r hr => .relation hr, by simp [Reading.ofBase],
        fun _ _ => Selection.links_of_nil rfl, by simp [Reading.ofBase]⟩
    exact (scanReading_marks hschema hp (.none _) hr []).mono fun scan s2 hx2 hscan =>
      ⟨hscan.1, hafter hx2 hscan.2⟩
  | node h =>
    exact ((he h).scan [] s1 trivial).mono fun scan s2 hx2 hscan => ⟨hscan.1, hafter hx2 hscan.2⟩

/-- **The statement of a query has good marks.** -/
lemma toStatement_planned (hschema : g.schema.Accepted) (hp : g.Permits R)
    (h : q.toStatement g = .ok statement) : statement.Planned g R := by
  obtain ⟨⟨scan, s⟩, hplan, heq⟩ := Except.bind_ok h
  obtain ⟨hs, hx, -, hscan⟩ :=
    plan_marks hschema hp q .initial (initial_marked g R) scan s hplan
  cases heq
  have hwidened := widenStages_marks hs
  have hstages : ∀ st ∈ widenStages s.required s.stages,
      ∃ stage ∈ s.stages, stage.MarkedAs g R st := exists_of_forall₂_right hwidened
  have hmem : ∀ {m : Mark}, m ∈ (withStages (widenStages s.required s.stages)
      (jsonRows scan.select)).marks ↔ _ := mem_withStages_marks
  have hbody := jsonRows_marks scan.select
  refine ⟨fun m hm => ?_, fun hg => ⟨s, scan.select.marks, hscan.fragment.spans hg, fun i hi => ?_⟩⟩
  · rcases hmem.mp hm with ⟨st, hst, rfl | hst'⟩ | hm'
    · exact .inr trivial
    · obtain ⟨stage, -, hst0⟩ := hstages st hst
      refine (hst0.good m hst').imp_right fun hgood => hgood.mono (fun i hi => ?_)
        fun _ _ hf => .inl hf
      exact hmem.mpr (.inl ⟨st, hst, .inr hi⟩)
    · rw [hbody, mem_cons, mem_append, mem_singleton] at hm'
      rcases hm' with rfl | hm' | rfl
      · exact .inr fun _ => (Statement.IsRows.select _).tokens_ne_nil
      · refine (hscan.fragment.good m hm').imp_right fun hgood => hgood.mono (fun i hi => ?_)
          fun _ _ hf => .inl hf
        exact hmem.mpr (.inr (by simp [hbody, hi]))
      · exact .inr (.inl rfl)
  · rcases hmem.mp hi with ⟨st, hst, hst' | hst'⟩ | hi'
    · cases hst'
    · obtain ⟨stage, hstage, hst0⟩ := hstages st hst
      refine .inl (mem_append_right _ ?_)
      exact mem_flatMap.mpr ⟨stage, hstage, hst0.items i hst'⟩
    · grind

end Queries

lemma Graph.Sound.tidy {g : Graph} (hg : g.Sound) (hexprs : g.NoExpr)
    (hrows : ∀ id payload reverse, .insert id payload reverse ∈ g.nodes → ∀ e ∈ reverse, e.2 ≠ [])
    (hstored : ∀ r ∈ g.schema.relations, r.storedNames ≠ []) : g.Tidy := by
  refine ⟨Graph.exprs_of_noExpr hexprs, hrows, hstored, fun columns rows hn => ?_⟩
  obtain ⟨past, hw⟩ := Graph.exists_of_mem hn
  exact hg.nodes past _ hw

/-- What planning makes is grammatical if the lists of the graph are filled. -/
lemma Mark.Good.grammatical {g : Graph} (ht : g.Tidy) {R : Relation → String → Prop}
    {free : String → String → Prop} {L : List Mark} {m : Mark} (h : m.Good g R free L) :
    m.Grammatical := by
  cases m with
  | part s => exact h ht
  | item i =>
    cases i with
    | table name label => trivial
    | derived query label columns => exact h ht
  | membership negated e items => exact membership_grammatical negated e items
  | _ => trivial

/-- **Statements are grammatical.** Let a query be built by any sequence of operations without
expressions that are taken as they are, let rows that are inserted with another one be some wherever
they are given, and let each relation have a stored column. Then in the statement of the query every
union has a member, rows that are written out are some and equally long, a membership in an empty
list is a truth value, what is inserted or updated has columns, what is given back has columns, and
no derived table has an empty text. -/
theorem built_statements_are_grammatical {schema : Schema} {relations : List Relation}
    (hschema : Schema.ofRelations schema.id relations = .ok schema) {w : Workbench}
    (hw : w.Reached schema) (hexprs : w.graph.NoExpr)
    (hrows : ∀ id payload reverse, .insert id payload reverse ∈ w.graph.nodes →
      ∀ e ∈ reverse, e.2 ≠ [])
    (hstored : ∀ r ∈ w.graph.schema.relations, r.storedNames ≠ []) {q : Query}
    {statement : Statement} (h : q.toStatement w.graph = .ok statement) :
    ∀ m ∈ statement.marks, m.Grammatical := by
  have hsound := (hw.sound (accepted_of_ofRelations hschema)).graph
  have ht : w.graph.Tidy := hsound.tidy hexprs hrows hstored
  have hplanned := toStatement_planned hsound.schema (permits_all w.graph) h
  intro m hm
  rcases hplanned.good m hm with hraw | hgood
  · exact (ht.not_raw hraw).elim
  · exact hgood.grammatical ht

/-- The number of members of a union. -/
def Mark.members? : Mark → Option Nat
  | .part (.union _ members) => some members.length
  | _ => none

/-- The author with a book: the books are read from a union of one statement, and one of the lists
to compare with is empty. -/
theorem bookshop_statement_is_grammatical :
    ∃ statement : Statement,
      (⟨0, .node ⟨0, 4⟩, []⟩ : Query).toStatement bookshop.graph = .ok statement ∧
        statement.marks.filterMap Mark.members? = [1] ∧ ∀ m ∈ statement.marks, m.Grammatical := by
  obtain ⟨statement, hs, hmembers⟩ : ∃ statement : Statement,
      (⟨0, .node ⟨0, 4⟩, []⟩ : Query).toStatement bookshop.graph = .ok statement ∧
        statement.marks.filterMap Mark.members? = [1] :=
    exists_ok_of_toOption (by decide +kernel)
  refine ⟨statement, hs, hmembers, built_statements_are_grammatical
    (show Schema.ofRelations 0 bookshopSchema.relations = .ok bookshopSchema from rfl)
    bookshop_reached ?_ ?_ ?_ hs⟩
  · simp [Graph.NoExpr, bookshop_nodes, Node.NoExpr, Condition.NoExpr, Condition.NoExprEach,
      Operand.NoExpr]
  · intro id payload reverse hmem
    simp only [bookshop_nodes, List.mem_cons, reduceCtorEq, false_or, List.not_mem_nil,
      or_false] at hmem
    rcases hmem with ⟨-, -, rfl⟩ | ⟨-, -, rfl⟩ <;> simp
  · decide +kernel

/-- An author is inserted with a list of books that is empty, and is read with all books. -/
def emptyShelf : Workbench :=
  [.table "author", .insert ⟨0, .relation ⟨0, 0⟩, []⟩ ⟨[("books", .many [])], none⟩,
    .select ⟨0, .node ⟨0, 0⟩, []⟩ ⟨[], [("books", .nested (.ofFields ["title"]))]⟩].foldl
    Workbench.run ⟨Graph.empty 0 bookshopSchema, [], []⟩

/-- **Rows that refer back but are none** leave a union without members. -/
theorem no_rows_back_leave_a_union_empty :
    Workbench.Reached bookshopSchema emptyShelf ∧ ∃ statement : Statement,
      (⟨0, .node ⟨0, 1⟩, []⟩ : Query).toStatement emptyShelf.graph = .ok statement ∧
        statement.marks.filterMap Mark.members? = [0] ∧
        ¬ ∀ m ∈ statement.marks, m.Grammatical := by
  obtain ⟨statement, hs, hmembers⟩ : ∃ statement : Statement,
      (⟨0, .node ⟨0, 1⟩, []⟩ : Query).toStatement emptyShelf.graph = .ok statement ∧
        statement.marks.filterMap Mark.members? = [0] :=
    exists_ok_of_toOption (by decide +kernel)
  refine ⟨?_, statement, hs, hmembers, fun hall => ?_⟩
  · rw [emptyShelf]
    simp only [List.foldl_cons]
    refine .run (.run (.run (.start 0) ?_) ?_) ?_ <;> decide +kernel
  · have hzero : 0 ∈ statement.marks.filterMap Mark.members? := by simp [hmembers]
    obtain ⟨m, hm, hcount⟩ := List.mem_filterMap.mp hzero
    unfold Mark.members? at hcount
    split at hcount
    · rename_i all members
      have hgood : (Statement.union all members).Grammatical := hall _ hm
      exact hgood (List.length_eq_zero_iff.mp (Option.some.inj hcount))
    · cases hcount

end StagedSql
