import StagedSql.Proofs.Plan.ScannedRows
import StagedSql.Proofs.Plan.ViewReadings
import StagedSql.Proofs.Plan.Widening

/-!
Flattening a chain keeps its rows.

A chain of selects and filters over a relation is planned as one SELECT and a stage for each page
that others are read from. The rows of a chain are defined here from those of the relation, without
any SQL (`View.rows`).
-/

namespace StagedSql

open List ReadOp

variable {asked : List Asked} {stages : List Stage}

/-! ### The rows of a chain -/

/-- The page that a select takes of rows. -/
def Asked.page (ops : Operators) (a : Asked) (rows : List Row) : List Row :=
  pageOf a.limit a.offset (ops.arranged a.ordering rows)

namespace View

/-- **The rows of a chain** over given rows, with each condition read as a test: a filter keeps the
rows for which its test is true, and a select takes a page of them if it has a limit or an offset.
-/
def rows (ops : Operators) (test : Condition → Row → Option Bool) (base : List Row) :
    View → List Row
  | .base => base
  | .filter source c => (source.rows ops test base).filter fun row => test c row == some true
  | .select source a =>
    if a.isPaged then a.page ops (source.rows ops test base) else source.rows ops test base

/-- The selects of a chain that take a page, innermost first. -/
def pages : View → List Asked
  | .base => []
  | .filter source _ => source.pages
  | .select source a => source.pages ++ if a.isPaged then [a] else []

/-- The pages that others are read from: all but that of a select on top. -/
def stagedPages : View → List Asked
  | .select source _ => source.pages
  | view => view.pages

end View

/-! ### Pages as tables -/

/-- A page is taken by a named statement, which gives all columns. -/
def Asked.IsTakenBy (a : Asked) (cte : Cte) : Prop :=
  ∃ s, cte.statement = .select s ∧ s.projection = [] ∧ s.limit = a.limit ∧ s.offset = a.offset

/-- The named statement of a stage. -/
def Stage.toCte (stage : Stage) : Cte := ⟨stage.name, stage.statement⟩

lemma Cte.tables_append {ops : Operators} {env : Env} (first second : List Cte) (ts : Tables) :
    Cte.tables ops ts env (first ++ second) =
      (Cte.tables ops ts env first).bind fun ts' => Cte.tables ops ts' env second := by
  induction first generalizing ts with
  | nil => rfl
  | cons cte rest ih =>
    obtain ⟨name, statement⟩ := cte
    rw [cons_append, Cte.tables, Cte.tables]
    cases statement.columns ts.catalog with
    | none => rfl
    | some columns =>
      cases statement.rows ops ts env with
      | none => rfl
      | some rows => exact ih _

/-- **Pages among stages**: named statements of stages take the pages one after the other. -/
structure PagesAmong (asked : List Asked) (pages : List Cte) (stages : List Stage) : Prop where
  sublist : pages.Sublist (stages.map Stage.toCte)
  taken : Forall₂ Asked.IsTakenBy asked pages

lemma PagesAmong.append {pages : List Cte} (h : PagesAmong asked pages stages) (more : List Stage) :
    PagesAmong asked pages (stages ++ more) := by
  refine ⟨?_, h.taken⟩
  rw [map_append]
  exact h.sublist.trans (sublist_append_left _ _)

lemma PagesAmong.grow {pages : List Cte} {schema : Schema} {g : Graph} {reading : Reading}
    {s s' : PlanState} {scan : Scan} (hs : s.Numbered) (h : PagesAmong asked pages s.stages)
    (hrun : scanReading schema g.planner reading [] s = .ok (scan, s')) :
    s'.Numbered ∧ PagesAmong asked pages s'.stages := by
  obtain ⟨⟨hs', -⟩, hgrows⟩ :=
    ((scanReading_asks schema reading []).grows (planner_grows 0 g)).run ⟨hs, Nat.zero_le _⟩ hrun
  obtain ⟨more, hmore⟩ := hgrows.stages
  exact ⟨hs', hmore ▸ h.append more⟩

lemma PagesAmong.addPage {pages : List Cte} {s : PlanState} {scan : Scan} {view : View} {a : Asked}
    (h : PagesAmong view.pages pages s.stages) (hpaged : a.isPaged = true)
    (htaken : a.IsTakenBy (s.stageOf scan).toCte) (own : Handle) :
    PagesAmong (View.select view a).pages (pages ++ [(s.stageOf scan).toCte])
      (s.addPage own scan).stages := by
  rw [View.pages, if_pos hpaged, (s.addPage_adds own scan).stages]
  refine ⟨?_, rel_append h.taken (.cons htaken .nil)⟩
  rw [map_append]
  exact h.sublist.append (.refl _)

/-- **Widening leaves pages as they are.** -/
lemma PagesAmong.widen {pages : List Cte} (rs : Requirements) (h : PagesAmong asked pages stages) :
    PagesAmong asked pages (widenStages rs stages) := by
  refine ⟨?_, h.taken⟩
  have hstar : ∀ page ∈ pages, ∃ s, page.statement = .select s ∧ s.projection = [] := by
    intro page hpage
    obtain ⟨a, -, s, hs, hprojection, -⟩ := exists_of_forall₂_right h.taken page hpage
    exact ⟨s, hs, hprojection⟩
  have hwiden : Forall₂ (fun a b : Stage =>
      (∃ s, a.statement = .select s ∧ s.projection = []) → b.toCte = a.toCte) stages
      (widenStages rs stages) := by
    refine widenStages_forall₂ (fun rs stage hpage => ?_) rs stages
    obtain ⟨s, hs, hprojection⟩ := hpage
    have hstar : s.isStar = true := by simp [Select.isStar, hprojection]
    have hgiving : ∀ required,
        Statement.giving stage.qualifier required (.select s) = .select s := by
      intro required
      cases required with
      | all => cases stage.qualifier <;> rfl
      | columns names =>
        cases stage.qualifier with
        | none => rfl
        | some q => exact congrArg Statement.select (Select.ensureEach_of_isStar hstar)
    rw [widenStage_eq, Stage.toCte, Stage.toCte]
    dsimp only [Stage.given]
    grind
  have hsublist := h.sublist
  clear h
  generalize widenStages rs stages = widened at hwiden
  -- by induction on the stages, of which the pages are some
  induction hwiden generalizing pages with
  | nil => exact hsublist
  | @cons stage _ stages _ hsame _ ih =>
    rw [map_cons] at hsublist ⊢
    cases hsublist with
    | cons _ hrest => exact .cons _ (ih hstar hrest)
    | cons_cons _ hrest =>
      rw [hsame (hstar stage.toCte (by simp))]
      simp_all

/-! ### Readings of a chain -/

/-- Every row of a table gives the stored columns of a relation. -/
def Table.IsOf (t : Table) (r : Relation) : Prop :=
  ∀ row ∈ t.rows, ∀ c ∈ r.storedNames, (row.cell? c).isSome

/-- A table that is read under a name with the pages so far: it holds rows of the stored table. -/
structure BaseTable (ops : Operators) (ts : Tables) (schema : Schema) (r : Relation)
    (stored : List Row) (base : Base) (s : PlanState) (pages : List Cte) (ts' : Tables) (q : String)
    (rows : List Row) : Prop where
  tables : Cte.tables ops ts [] pages = some ts'
  extend : ts.Extend ts'
  name : q = r.name ∨ ∃ k, q = rowName k
  opened : ∃ stage, openBase schema base [] s = .ok (⟨.table q none, q, r, stage⟩, s)
  table : ∃ columns, ts' q = some ⟨columns, rows⟩
  subset : rows ⊆ stored

/-- **The reading of a chain has the rows of the chain**: they are the rows of its base that meet
its conditions, in the same order. A base is the stored table as long as there is no page. -/
structure ReadsView (ops : Operators) (ts : Tables) (schema : Schema) (r : Relation)
    (stored : List Row) (test : Condition → Row → Option Bool) (view : View) (reading : Reading)
    (s : PlanState) : Prop where
  numbered : s.Numbered
  unpaged : reading.limit = none ∧ reading.offset = none
  ordering : reading.ordering = view.asked.ordering
  conditions : ∀ c ∈ reading.conditions, c ∈ view.conditions
  rows : ∃ pages ts' q base, PagesAmong view.pages pages s.stages ∧
    BaseTable ops ts schema r stored reading.base s pages ts' q base ∧
    meeting test reading.conditions base = view.rows ops test stored

section Chains

variable {ops : Operators} {ts : Tables} {g last : Graph} {r : Relation} {table : Table}
  {test : Condition → Row → Option Bool} {view : View} {reading : Reading} {s : PlanState}
  {select : Select} {q : String} {rows : List Row} {a : Asked}

lemma Asked.page_subset (a : Asked) (rows : List Row) : a.page ops rows ⊆ rows :=
  fun _ hrow => (Operators.arranged_perm a.ordering rows).subset
    ((pageOf_sublist a.limit a.offset _).subset hrow)

lemma Select.columns_table {columns : List String} {catalog : Catalog}
    (hselect : select.stored = select) (hsource : select.source = some (.table q none))
    (hq : catalog q = some columns) : select.columns catalog = some columns := by
  rw [← hselect, Select.stored, hsource]
  simp [Select.columns, FromItem.sources, FromItem.columns, Join.sources, hq]

lemma Cte.tables_page {ts' : Tables} {pages : List Cte} {base : Table}
    (htables : Cte.tables ops ts [] pages = some ts') (hselect : select.stored = select)
    (hsource : select.source = some (.table q none)) (hq : ts' q = some base)
    (hrows : select.rows ops ts' [] = some rows) (name : String) :
    Cte.tables ops ts [] (pages ++ [⟨name, .select select⟩]) =
      some (ts'.define name ⟨base.columns, rows⟩) := by
  have hcolumns : select.columns ts'.catalog = some base.columns :=
    Select.columns_table hselect hsource (by rw [Tables.catalog, hq]; rfl)
  rw [Cte.tables_append, htables, Option.bind_some, Cte.tables, Statement.columns, Statement.rows,
    hcolumns, hrows]
  rfl

/-- **A page of a chain** is a stage that holds exactly the rows of the page. -/
lemma ReadsView.page (h : ReadsView ops ts g.schema r table.rows test view reading s)
    (hg : g.Within last) (htable : table.IsOf r) (a : Asked) (own : Handle)
    (hpaged : a.isPaged = true)
    (hcs : ∀ c ∈ view.conditions, c.ReadAs ops ts last r table.rows (test c))
    (hsorts : ∀ key ∈ a.ordering, key.column ∈ r.storedNames) :
    Plan.Ensures (scanReading g.schema g.planner (reading.ask { a with selection := .empty }) []) s
      fun scan s' => ReadsView ops ts g.schema r table.rows test (.select view a)
        (a.readPage s'.nextStage) (s'.addPage own scan) := by
  obtain ⟨pages, ts', q, base, hpages, hbase, hrows⟩ := h.rows
  obtain ⟨stage, hopen⟩ := hbase.opened
  obtain ⟨columns, hq⟩ := hbase.table
  intro scan s' hrun
  obtain ⟨hs', hpages⟩ := hpages.grow h.numbered hrun
  have hopen' : openBase last.schema (reading.ask { a with selection := .empty }).base [] s =
      .ok (⟨.table q none, q, r, stage⟩, s) := by
    rwa [hg.schema]
  rw [← hg.schema] at hrun
  obtain ⟨hrelation, htakes⟩ := scanReading_rows hg hbase.extend hbase.name hbase.subset hq hopen'
    (fun c hc => hcs c (h.conditions c hc))
    (fun key hkey row hrow => htable row (hbase.subset hrow) _ (hsorts key hkey)) scan s' hrun
  have hselect := htakes.star rfl
  have hpage : scan.select.rows ops ts' [] = some (a.page ops (view.rows ops test table.rows)) := by
    rw [← hselect, htakes.rows, ← hrows]
    rfl
  have htaken : a.IsTakenBy (s'.stageOf scan).toCte :=
    ⟨scan.select, rfl, by rw [← hselect]; rfl, htakes.limit, htakes.offset⟩
  have hopened : openBase g.schema (.stage s'.nextStage) [] (s'.addPage own scan) =
      .ok (⟨.table s'.nextStage none, s'.nextStage, r, some s'.nextStage⟩,
        s'.addPage own scan) := by
    rw [← hrelation]
    exact openStage_run (PlanState.addPage_find? hs' own scan)
  have hsubset : a.page ops (view.rows ops test table.rows) ⊆ table.rows := by
    rw [← hrows]
    exact fun row hrow =>
      hbase.subset (mem_of_mem_filter (a.page_subset _ hrow))
  refine ⟨(s'.addPage_adds own scan).numbered hs', ⟨rfl, rfl⟩, rfl, by simp [Asked.readPage,
    Reading.ofBase], _, _, s'.nextStage, _, hpages.addPage hpaged htaken own,
    ⟨?_, hbase.extend.define _ _, .inr ⟨_, rfl⟩, ⟨_, hopened⟩, ⟨columns, if_pos rfl⟩, hsubset⟩, ?_⟩
  · exact Cte.tables_page hbase.tables hselect htakes.source hq hpage s'.nextStage
  · rw [View.rows, if_pos hpaged]
    exact filter_true _

/-- What is asked of a chain: its conditions are read as tests, and it orders by stored columns. -/
structure View.ReadAs (ops : Operators) (ts : Tables) (g : Graph) (r : Relation) (rows : List Row)
    (test : Condition → Row → Option Bool) (view : View) : Prop where
  conditions : ∀ c ∈ view.conditions, c.ReadAs ops ts g r rows (test c)
  columns : ∀ name ∈ view.sortColumns, name ∈ r.storedNames

lemma View.ReadAs.of_filter {c : Condition} (h : (filter view c).ReadAs ops ts last r rows test) :
    view.ReadAs ops ts last r rows test :=
  ⟨fun c hc => h.conditions c (mem_append_left _ hc), h.columns⟩

lemma View.ReadAs.of_select (h : (View.select view a).ReadAs ops ts last r rows test) :
    view.ReadAs ops ts last r rows test :=
  ⟨h.conditions, fun name hname => h.columns name (mem_append_left _ hname)⟩

lemma Asked.unpaged (h : a.isPaged = false) : a.limit = none ∧ a.offset = none := by
  simpa [Asked.isPaged] using h

/-- **The rules of chains over a relation.** -/
lemma readsView_rule {first : Graph} {id : RelationId} (hid : first.schema.relation id = .ok r)
    (hstored : ts r.name = some table) (htable : table.IsOf r) :
    ViewRule first last (.relation id) fun view reading s =>
      view.ReadAs ops ts last r table.rows test →
        ReadsView ops ts first.schema r table.rows test view reading s where
  base {g} enclosed _ _ := by
    refine .of_pure fun _ => ⟨PlanState.numbered_initial, ⟨rfl, rfl⟩, rfl, by simp [Reading.ofBase],
      [], ts, r.name, table.rows, ⟨.slnil, .nil⟩, ⟨rfl, .refl ts, .inl rfl, ⟨none, ?_⟩,
      ⟨table.columns, hstored⟩, List.Subset.refl _⟩, ?_⟩
    · change (liftM (first.schema.relation id) >>= _ : Plan Opened) PlanState.initial = _
      rw [hid]
      change Except.ok (Opened.mk (tableItem r.name r.name) r.name r none, PlanState.initial) = _
      rw [tableItem, if_pos rfl]
    · exact filter_true _
  filter {view reading s} c h hfits := by
    have h := h hfits.of_filter
    obtain ⟨pages, ts', q, base, hpages, hbase, hrows⟩ := h.rows
    refine ⟨h.numbered, h.unpaged, h.ordering, fun c' hc' => ?_, pages, ts', q, base, hpages,
      hbase, ?_⟩
    · rcases mem_append.mp hc' with hc' | hc'
      · exact mem_append_left _ (h.conditions c' hc')
      · exact mem_append_right _ hc'
    · rw [View.rows, ← hrows, meeting, meeting]
      simp [Bool.and_comm]
  select {view reading s} a hpaged h hfits := by
    have h := h hfits.of_select
    obtain ⟨pages, ts', q, base, hpages, hbase, hrows⟩ := h.rows
    refine ⟨h.numbered, Asked.unpaged hpaged, rfl, h.conditions, pages, ts', q, base, ?_, hbase, ?_⟩
    · rw [View.pages, if_neg (by simp [hpaged]), append_nil]
      exact hpages
    · rw [View.rows, if_neg (by simp [hpaged])]
      exact hrows
  page {g view reading s} a own hfirst hlast hpaged h := by
    intro scan s' hrun hfits
    have h := h hfits.of_select
    rw [← hfirst.schema] at h ⊢
    refine h.page hlast htable a own hpaged hfits.conditions (fun key hkey => ?_) scan s' hrun
    exact hfits.columns _ (mem_append_right _ (mem_map_of_mem hkey))

lemma View.mem_sortColumns {key : SortKey} (h : key ∈ view.asked.ordering) :
    key.column ∈ view.sortColumns := by
  induction view with
  | base => cases h
  | select source a => exact mem_append_right _ (mem_map_of_mem h)
  | filter source c ih => exact ih h

/-- What a reading takes of the rows of its base. -/
def Reading.taken (ops : Operators) (test : Condition → Row → Option Bool) (reading : Reading)
    (base : List Row) : List Row :=
  pageOf reading.limit reading.offset
    (ops.arranged reading.ordering (meeting test reading.conditions base))

/-- **What a chain that nothing else is read from takes** is a permutation of its rows. A page on
top takes exactly the rows of the chain. -/
lemma taken_root {schema : Schema} {stored : List Row}
    (h : RootReading (ReadsView ops ts schema r stored test) view reading s) :
    s.Numbered ∧ reading.ordering = view.asked.ordering ∧
      (∀ c ∈ reading.conditions, c ∈ view.conditions) ∧
      ∃ pages ts' q base, PagesAmong view.stagedPages pages s.stages ∧
        BaseTable ops ts schema r stored reading.base s pages ts' q base ∧
        (reading.taken ops test base).Perm (view.rows ops test stored) ∧
        (view.parts.2.isPaged = true →
          reading.taken ops test base = view.rows ops test stored) := by
  rcases h with ⟨h, htop⟩ | ⟨source, a, inner, rfl, hpaged, h, rfl⟩
  · obtain ⟨pages, ts', q, base, hpages, hbase, hrows⟩ := h.rows
    refine ⟨h.numbered, h.ordering, h.conditions, pages, ts', q, base, ?_, hbase, ?_,
      fun hpaged => ?_⟩
    · cases view with
      | select source a =>
        rwa [View.pages, htop source a rfl, if_neg (by simp), append_nil] at hpages
      | base => exact hpages
      | filter source c => exact hpages
    · rw [Reading.taken, h.unpaged.1, h.unpaged.2, hrows]
      exact Operators.arranged_perm _ _
    · cases view with
      | select source a => rw [View.parts, htop source a rfl] at hpaged; cases hpaged
      | _ => cases hpaged
  · obtain ⟨pages, ts', q, base, hpages, hbase, hrows⟩ := h.rows
    have htaken : (inner.ask a).taken ops test base =
        (View.select source a).rows ops test stored := by
      rw [View.rows, if_pos hpaged, ← hrows]
      rfl
    exact ⟨h.numbered, rfl, h.conditions, pages, ts', q, base, hpages, hbase, .of_eq htaken,
      fun _ => htaken⟩

end Chains

/-- **A statement takes rows from tables**: its SELECT reads the given pages as named statements,
one after the other, and lookups leave no row out. -/
def Statement.Takes (ops : Operators) (ts : Tables) (asked : List Asked) (rows : List Row)
    (statement : Statement) : Prop :=
  ∃ stages scan pages ts', statement = withStages stages (jsonRows scan) ∧
    pages.Sublist statement.ctes ∧ Forall₂ Asked.IsTakenBy asked pages ∧
    Cte.tables ops ts [] pages = some ts' ∧ scan.stored.rows ops ts' [] = some rows ∧
    ∀ j ∈ scan.joins, j.IsLookup

/-- **Operations on a relation are compiled**: they build a query, and this is its statement. -/
def ReadOp.Compiled (g : Graph) (name : String) (reads : List ReadOp) (g' : Graph)
    (statement : Statement) : Prop :=
  ∃ q, (do runAll (← Query.ofTable name) reads : Build Query) g = (.ok q, g') ∧
    q.toStatement g' = .ok statement

section Compiled

variable {ops : Operators} {ts : Tables} {g g' : Graph} {name : String} {reads : List ReadOp}
  {statement : Statement} {r : Relation} {table : Table} {test : Condition → Row → Option Bool}

/-- **What a compiled chain takes** are its rows, in the order of the outermost select, and with a
page on top in the very order of the page. -/
lemma chain_takes (hcompiled : Compiled g name reads g' statement)
    (hname : g.schema.get? name = some r) (hstored : ts r.name = some table) (htable : table.IsOf r)
    (htest : ∀ c ∈ (view reads).conditions, c.ReadAs ops ts g' r table.rows (test c)) :
    ∃ rows, statement.Takes ops ts (view reads).stagedPages rows ∧
      rows.Perm ((view reads).rows ops test table.rows) ∧
      (ops.Orders → rows.Pairwise fun a b =>
        ops.rowLe (view reads).asked.ordering a b = true) ∧
      ((view reads).parts.2.isPaged = true →
        rows = (view reads).rows ops test table.rows) := by
  obtain ⟨q, hbuild, hstatement⟩ := hcompiled
  obtain ⟨q1, first, hofTable, hreads⟩ := Build.bind_eq_ok hbuild
  obtain ⟨rfl, id, r', rfl, hname', hid⟩ := ofTable_relation name q1 first hofTable
  obtain rfl : r = r' := by simpa [hname] using hname'
  obtain ⟨⟨hviews, -, hbranches⟩, hsorts⟩ := runAll_views reads
    (.base (.relation id) (.refl first) : first.Views (.relation id) first (.relation id) .base)
    (fun _ _ _ _ _ hname => by cases hname) q g' hreads
  have hfits : (view reads).ReadAs ops ts g' r table.rows test :=
    ⟨htest, hsorts id r rfl hid⟩
  obtain ⟨past, reading, s1, scan, s, hpast, hroot, hscan, rfl⟩ := toStatement_views
    (readsView_rule hid hstored htable) hbranches hviews hstatement
  obtain ⟨hs1, hordering, hconditions, pages, ts', q', base, hpages, hbase, hperm, hpage⟩ :=
    taken_root (hroot.of_imp (fun _ _ h => h.of_select) hfits)
  obtain ⟨stage, hopen⟩ := hbase.opened
  obtain ⟨columns, hq⟩ := hbase.table
  rw [← hviews.within.schema] at hopen
  have hkeys : ∀ key ∈ reading.ordering, ∀ row ∈ base, (row.cell? key.column).isSome := by
    intro key hkey row hrow
    rw [hordering] at hkey
    exact htable row (hbase.subset hrow) _ (hfits.columns _ (View.mem_sortColumns hkey))
  obtain ⟨-, htakes⟩ := scanReading_rows hpast hbase.extend hbase.name hbase.subset hq hopen
    (fun c hc => htest c (hconditions c hc)) hkeys scan s hscan
  have hwidened := (hpages.grow hs1 hscan).2.widen s.required
  refine ⟨reading.taken ops test base, ⟨_, scan.select, pages, ts', rfl, ?_, hpages.taken,
    hbase.tables, htakes.rows, htakes.lookups⟩, hperm, fun horders => ?_, hpage⟩
  · rw [withStages_ctes]
    exact hwidened.sublist
  · rw [view, ← hordering]
    exact (horders.arranged_pairwise _ _).sublist (pageOf_sublist _ _ _)

lemma filtered_page_takes (hcompiled : Compiled g name reads g' statement)
    (hname : g.schema.get? name = some r) (hstored : ts r.name = some table) (htable : table.IsOf r)
    (source : View) {p : Condition} {a : Asked} {holds : Row → Option Bool}
    (hp : p.ReadAs ops ts g' r table.rows holds)
    (hview : view reads = .select (.filter source p) a) (hpaged : a.isPaged = true)
    (hsource : source.conditions = [] ∧ source.pages = [] ∧
      source.rows ops (fun _ => holds) table.rows = table.rows) :
    statement.Takes ops ts []
      (a.page ops (table.rows.filter fun row => holds row == some true)) := by
  have htest : ∀ c ∈ (view reads).conditions, c.ReadAs ops ts g' r table.rows holds := by
    rw [hview]
    simpa [View.conditions, hsource.1] using hp
  obtain ⟨rows, htakes, -, -, hpage⟩ := chain_takes hcompiled hname hstored htable htest
  rw [hview] at htakes hpage
  rw [hpage hpaged, View.rows, if_pos hpaged, View.rows, hsource.2.2] at htakes
  exact hsource.2.1 ▸ htakes

end Compiled

/-- **Flattening a chain keeps its rows.** Let operations build a chain of selects and filters over
a relation, whose table gives the stored columns, and let each condition be read as a test of the
rows of the table. Then the SELECT of the compiled chain, with the stages of its pages evaluated in
the order of the chain, takes a permutation of the rows of the chain from its table. They are in the
order of the outermost select, and lookups leave none of them out. -/
theorem flattening_keeps_rows {ops : Operators} {ts : Tables} {g g' : Graph} {name : String}
    {reads : List ReadOp} {q : Query} {statement : Statement} {r : Relation} {table : Table}
    {test : Condition → Row → Option Bool}
    (hbuild : (do ReadOp.runAll (← Query.ofTable name) reads : Build Query) g = (.ok q, g'))
    (hstatement : q.toStatement g' = .ok statement) (hname : g.schema.get? name = some r)
    (hstored : ts r.name = some table) (htable : table.IsOf r)
    (htest : ∀ c ∈ (ReadOp.view reads).conditions, c.ReadAs ops ts g' r table.rows (test c)) :
    ∃ stages scan pages ts' rows, statement = withStages stages (jsonRows scan) ∧
      pages.Sublist statement.ctes ∧
      Forall₂ Asked.IsTakenBy (ReadOp.view reads).stagedPages pages ∧
      Cte.tables ops ts [] pages = some ts' ∧ scan.stored.rows ops ts' [] = some rows ∧
      (∀ j ∈ scan.joins, j.IsLookup) ∧
      rows.Perm ((ReadOp.view reads).rows ops test table.rows) ∧
      (ops.Orders → rows.Pairwise fun a b =>
        ops.rowLe (ReadOp.view reads).asked.ordering a b = true) := by
  obtain ⟨rows, ⟨stages, scan, pages, ts', hshape, hctes, htaken, htables, hrows, hlookups⟩, hperm,
    hsorted, -⟩ := chain_takes ⟨q, hbuild, hstatement⟩ hname hstored htable htest
  exact ⟨stages, scan, pages, ts', rows, hshape, hctes, htaken, htables, hrows, hlookups, hperm,
    hsorted⟩

/-! ### Authors -/

/-- The number by which a value is ordered. -/
def Value.rank (v : Value) : Int := (v.int?.map Int64.toInt).getD 0

/-- Operators on integers, which are ordered. -/
def rankOperators : Operators where
  equal a b := decide (a.rank = b.rank)
  less a b := decide (a.rank < b.rank)
  plus l _ := l
  overlap _ _ := false
  like _ _ _ := false
  cast v _ := v
  equal_equivalence := ⟨by simp, by simp [eq_comm], by simp +contextual⟩

lemma rankOperators_orders : rankOperators.Orders := by
  refine ⟨fun a b h => ?_, fun a b c h => ?_⟩ <;>
    simp only [rankOperators, decide_eq_true_eq, decide_eq_false_iff_not] at h ⊢ <;> omega

/-- Three authors and no books. -/
def authorContents : Database where
  rows name :=
    if name = "author" then
      [fun c => if c = "id" then .int 1 else .text "first",
        fun c => if c = "id" then .int 3 else .text "third",
        fun c => if c = "id" then .int 2 else .text "second"]
    else []

/-- The row of an author. -/
def authorRow (n : Int64) (name : String) : Row := [("id", .int n), ("name", .text name)]

/-- The last two authors, as far as their number is above one, in ascending order. -/
def lastAuthors : List ReadOp :=
  [.orderBy "-id", .limit 2, .filter (.lookup "id__gt" (.value (.int 1))), .orderBy "id"]

/-- What conditions say of an author. -/
def authorTest (c : Condition) (row : Row) : Option Bool :=
  c.truth rankOperators library.schema authorContents libraryAuthors row.value

lemma lastAuthors_rows : (view lastAuthors).rows rankOperators authorTest
    (authorContents.table libraryAuthors).rows = [authorRow 3 "third", authorRow 2 "second"] := by
  have hpage : Asked.page rankOperators ⟨.empty, [⟨"id", true⟩], some 2, none⟩
      [authorRow 1 "first", authorRow 3 "third", authorRow 2 "second"] =
        [authorRow 3 "third", authorRow 2 "second"] := by
    have h13 : rankOperators.rowLe [⟨"id", true⟩] (authorRow 1 "first") (authorRow 3 "third") =
        false := rfl
    have h12 : rankOperators.rowLe [⟨"id", true⟩] (authorRow 1 "first")
        (authorRow 2 "second") = false := rfl
    have h32 : rankOperators.rowLe [⟨"id", true⟩] (authorRow 3 "third") (authorRow 2 "second") =
        true := rfl
    rw [Asked.page, Operators.arranged_eq]
    simp [List.mergeSort, h13, h12, h32, pageOf]
  change (Asked.page rankOperators ⟨.empty, [⟨"id", true⟩], some 2, none⟩
    [authorRow 1 "first", authorRow 3 "third", authorRow 2 "second"]).filter
      (fun row => authorTest (.lookup "id__gt" (.value (.int 1))) row == some true) = _
  rw [hpage]
  rfl

lemma authors_compiled (reads : List ReadOp)
    (hruns : Build.compiles (do runAll (← Query.ofTable "author") reads) library = true)
    (hsame : ((do runAll (← Query.ofTable "author") reads : Build Query)
      library).2.schema = library.schema) :
    ∃ g' statement, Compiled library "author" reads g' statement ∧ g'.schema = library.schema := by
  obtain ⟨q, g', rendered, hbuild, hcompile⟩ := Build.exists_of_compiles hruns
  obtain ⟨statement, hstatement, -⟩ := Except.bind_ok hcompile
  rw [hbuild] at hsame
  exact ⟨g', statement, ⟨q, hbuild, hstatement⟩, hsame⟩

lemma authors_give : ∀ row ∈ (authorContents.table libraryAuthors).rows,
    ∃ values, row.Gives libraryAuthors values := by
  intro row hrow
  obtain ⟨values, -, rfl⟩ := mem_map.mp hrow
  exact ⟨values, Relation.row_gives (by decide) values⟩

lemma authors_isOf : (authorContents.table libraryAuthors).IsOf libraryAuthors := by
  intro row hrow c hc
  obtain ⟨values, hvalues⟩ := authors_give row hrow
  rw [hvalues c hc]
  rfl

lemma authors_readAs {g' : Graph} (hschema : g'.schema = library.schema) {c : Condition}
    (hc : c.OfValues) : c.ReadAs rankOperators (authorContents.tables library.schema) g'
      libraryAuthors (authorContents.table libraryAuthors).rows (authorTest c) := by
  have hplain : ∀ r ∈ g'.schema.relations, isGeneratedName r.name = false := by
    rw [hschema]
    decide
  have haccepted : Schema.ofRelations 0 libraryRelations = .ok library.schema := rfl
  have hlinked : library.schema.Linked := linked_of_ofRelations haccepted
  have hserve : (authorContents.tables library.schema).Serve g'.schema authorContents := by
    rw [hschema] at hplain ⊢
    exact ⟨hlinked, library_storedKeys, fun r hr k => ne_numberedName (hplain r hr) (by decide),
      Database.tables_hold hlinked (by decide)⟩
  have hread : c.ReadAs rankOperators (authorContents.tables library.schema) g' libraryAuthors
      (authorContents.table libraryAuthors).rows fun row =>
        c.truth rankOperators g'.schema authorContents libraryAuthors row.value :=
    Condition.readAs_truth hserve (fun r hr k => ne_numberedName (hplain r hr) (by decide))
      (by rw [hschema]; decide) authors_give hc
  rwa [hschema] at hread

/-- The page of the last two authors is one stage. It is read in the other order. -/
theorem flattening_keeps_rows_authors :
    ∃ (q : Query) (g' : Graph) (statement : Statement) (stages : List Stage) (scan : Select)
      (page : Cte) (ts' : Tables),
      (do ReadOp.runAll (← Query.ofTable "author") lastAuthors : Build Query) library =
          (.ok q, g') ∧
        q.toStatement g' = .ok statement ∧ statement = withStages stages (jsonRows scan) ∧
        page ∈ statement.ctes ∧
        Cte.tables rankOperators (authorContents.tables library.schema) [] [page] = some ts' ∧
        scan.stored.rows rankOperators ts' [] =
          some [authorRow 2 "second", authorRow 3 "third"] := by
  obtain ⟨g', statement, ⟨q, hbuild, hstatement⟩, hschema⟩ :=
    authors_compiled lastAuthors (by decide +kernel) rfl
  have htest : ∀ c ∈ (ReadOp.view lastAuthors).conditions, c.ReadAs rankOperators
      (authorContents.tables library.schema) g' libraryAuthors
      (authorContents.table libraryAuthors).rows (authorTest c) := by
    intro c hc
    rw [mem_singleton.mp hc]
    exact authors_readAs hschema ⟨_, rfl⟩
  obtain ⟨stages, scan, pages, ts', rows, hshape, hctes, htaken, htables, hrows, -, hperm,
      hsorted⟩ :=
    flattening_keeps_rows hbuild hstatement rfl rfl authors_isOf htest
  rw [lastAuthors_rows] at hperm
  obtain ⟨page, rfl⟩ : ∃ page, pages = [page] := length_eq_one_iff.mp htaken.length_eq.symm
  obtain ⟨x, y, rfl⟩ := length_eq_two.mp hperm.length_eq
  have hle := pairwise_pair.mp (hsorted rankOperators_orders)
  have hx : x = authorRow 3 "third" ∨ x = authorRow 2 "second" := by
    simpa using hperm.subset (mem_cons_self)
  rcases hx with rfl | rfl
  · obtain rfl : y = authorRow 2 "second" := by simpa using hperm
    cases hle
  · obtain rfl : y = authorRow 3 "third" := by
      simpa using hperm.trans (List.Perm.swap _ _ [])
    exact ⟨q, g', statement, stages, scan, page, ts', hbuild, hstatement, hshape,
      hctes.subset (mem_singleton_self page), htables, hrows⟩

/-! ### Orderings below a filter -/

lemma View.eq_of_parts {view v : View} {a : Asked} (h : view.parts = (v, a)) :
    view = .select v a ∨ view = v ∧ a = .nothing := by
  cases view <;> cases h <;> simp

lemma parts_orderBys (specs : List String) (view : View) :
    ((specs.map orderBy).foldl apply view).parts = (view.parts.1,
      { view.parts.2 with ordering := view.parts.2.ordering ++ specs.map SortKey.parse }) := by
  induction specs generalizing view with
  | nil => simp
  | cons spec rest ih =>
    rw [map_cons, foldl_cons, ih]
    simp [apply, View.ask, View.parts]

/-- **A filter drops the ordering below it.** Rows of a relation that are ordered, then filtered and
then cut to a page are taken in the order of the table. Only an ordering behind the filter says
which rows are on the page. -/
theorem filter_drops_ordering {ops : Operators} {ts : Tables} {g g₁ g₂ : Graph} {name : String}
    {specs : List String} {p : Condition} {n m : UInt64} {before after : Statement} {r : Relation}
    {table : Table} {holds : Row → Option Bool}
    (hbefore : ReadOp.Compiled g name (specs.map .orderBy ++ [.filter p, .limit n, .offset m])
      g₁ before)
    (hafter : ReadOp.Compiled g name (.filter p :: specs.map .orderBy ++ [.limit n, .offset m])
      g₂ after)
    (hname : g.schema.get? name = some r) (hstored : ts r.name = some table)
    (htable : table.IsOf r) (hp₁ : p.ReadAs ops ts g₁ r table.rows holds)
    (hp₂ : p.ReadAs ops ts g₂ r table.rows holds) :
    let kept := table.rows.filter fun row => holds row == some true
    before.Takes ops ts [] (pageOf (some n) (some m) kept) ∧
      after.Takes ops ts []
        (pageOf (some n) (some m) (ops.arranged (specs.map SortKey.parse) kept)) := by
  intro kept
  constructor
  · have htakes := filtered_page_takes (a := ⟨.empty, [], some n, some m⟩) hbefore hname hstored
      htable _ hp₁ (by rw [ReadOp.view, foldl_append]; rfl) rfl ?_
    · rwa [Asked.page, Operators.arranged_nil] at htakes
    · -- the select below the filter asks for no page, so that it takes all rows
      rcases View.eq_of_parts (parts_orderBys specs .base) with h | ⟨h, -⟩ <;> rw [h] <;>
        exact ⟨rfl, rfl, rfl⟩
  · refine filtered_page_takes (a := ⟨.empty, _, some n, some m⟩) hafter hname hstored htable .base
      hp₂ ?_ rfl ⟨rfl, rfl, rfl⟩
    have hparts := parts_orderBys specs (.filter .base p)
    rw [ReadOp.view, cons_append, foldl_cons, foldl_append]
    simp only [foldl_cons, ReadOp.apply, View.ask, hparts]
    rfl

/-- The authors above number one. -/
def laterAuthors : Condition := .lookup "id__gt" (.value (.int 1))

/-- The first of these authors is taken as stored, and then by number. -/
theorem filter_drops_ordering_authors : ∃ (g₁ g₂ : Graph) (before after : Statement),
    ReadOp.Compiled library "author"
      (["id"].map .orderBy ++ [.filter laterAuthors, .limit 1, .offset 0]) g₁ before ∧
    ReadOp.Compiled library "author"
      (.filter laterAuthors :: ["id"].map .orderBy ++ [.limit 1, .offset 0]) g₂ after ∧
    before.Takes rankOperators (authorContents.tables library.schema) [] [authorRow 3 "third"] ∧
    after.Takes rankOperators (authorContents.tables library.schema) []
      [authorRow 2 "second"] := by
  obtain ⟨g₁, before, hbefore, hg₁⟩ := authors_compiled (["id"].map .orderBy ++
    [.filter laterAuthors, .limit 1, .offset 0]) (by decide +kernel) rfl
  obtain ⟨g₂, after, hafter, hg₂⟩ := authors_compiled
    (.filter laterAuthors :: ["id"].map .orderBy ++ [.limit 1, .offset 0]) (by decide +kernel) rfl
  obtain ⟨hstored, htaken⟩ := filter_drops_ordering hbefore hafter rfl rfl authors_isOf
    (authors_readAs hg₁ ⟨_, rfl⟩) (authors_readAs hg₂ ⟨_, rfl⟩)
  have hkept : (authorContents.table libraryAuthors).rows.filter
      (fun row => authorTest laterAuthors row == some true) =
        [authorRow 3 "third", authorRow 2 "second"] := rfl
  have h32 : rankOperators.rowLe [⟨"id", false⟩] (authorRow 3 "third")
      (authorRow 2 "second") = false := rfl
  have hsorted : rankOperators.arranged (["id"].map SortKey.parse)
      [authorRow 3 "third", authorRow 2 "second"] =
        [authorRow 2 "second", authorRow 3 "third"] := by
    rw [Operators.arranged_eq]
    simp [List.mergeSort, SortKey.parse, h32]
  rw [hkept] at hstored
  rw [hkept, hsorted] at htaken
  exact ⟨g₁, g₂, before, after, hbefore, hafter, hstored, htaken⟩

end StagedSql
