import StagedSql.Proofs.Plan.Flattening
import StagedSql.Proofs.Sql.RenderedLexemes

/-!
The numbers of pages in SQL text.

All pages that a node draws from are stages, but for one that its own SELECT takes (`pagedNodes`).
Their clauses stand in the text of a query, with the numbers read as signed ones.
-/

namespace StagedSql

open List Plan

/-! ### Pages that a node draws from -/

/-- The nodes whose rows a node gives, and those that run before them. -/
def Node.sources : Node → List Handle
  | .select s => s.source.handles
  | .filter source _ => source.handles
  | .common queries => queries
  | _ => []

/-- **A node draws from another one**, directly or through others. -/
inductive Graph.Draws (g : Graph) : Handle → Handle → Prop
  | here (h : Handle) : g.Draws h h
  | step {h k w : Handle} {node : Node} (hn : g.node h = .ok node) (hk : k ∈ node.sources)
      (hrest : g.Draws k w) : g.Draws h w

/-- Something holds of all pages that a node draws from. -/
def Graph.AllPages (g : Graph) (P : SelectNode → Prop) (h : Handle) : Prop :=
  ∀ w sel, g.Draws h w → g.node w = .ok (.select sel) → sel.isPaged = true → P sel

section Pages

variable {g : Graph} {own h : Handle} {node : Node} {P P' : SelectNode → Prop}

lemma Graph.AllPages.mono (hp : g.AllPages P h) (hP : ∀ sel, sel.isPaged = true → P sel → P' sel) :
    g.AllPages P' h :=
  fun w sel hw hn hpaged => hP sel hpaged (hp w sel hw hn hpaged)

/-- The pages of a node are its own and those of its sources. -/
lemma Graph.allPages_of_node (hn : g.node own = .ok node)
    (hown : ∀ sel, node = .select sel → sel.isPaged = true → P sel)
    (hsources : ∀ k ∈ node.sources, g.AllPages P k) : g.AllPages P own := by
  intro w sel hw hsel hpaged
  cases hw with
  | here =>
    cases hn.symm.trans hsel
    exact hown sel rfl hpaged
  | step hnode hk hrest =>
    cases hn.symm.trans hnode
    exact hsources _ hk w sel hrest hsel hpaged

end Pages

/-- The numbers of a page are those of a select. -/
def SelectNode.Counts (sel : SelectNode) (limit offset : Option UInt64) : Prop :=
  limit = sel.limit ∧ offset = sel.offset

/-- A stage takes the page of a select. -/
def PlanState.Takes (s : PlanState) (sel : SelectNode) : Prop :=
  ∃ stage ∈ s.stages, ∃ inner, stage.statement = .select inner ∧
    sel.Counts inner.limit inner.offset

lemma PlanState.Takes.mono {s s' : PlanState} {sel : SelectNode} (h : s.Takes sel)
    (hg : s.stages <+: s'.stages) : s'.Takes sel := by
  obtain ⟨stage, hstage, htakes⟩ := h
  exact ⟨stage, hg.subset hstage, htakes⟩

/-! ### Planning -/

/-- The law of planning: all pages that a staged node draws from are stages. -/
def paging (g : Graph) : Law where
  holds s := ∀ e ∈ s.staged ++ s.pages, g.AllPages s.Takes e.1
  grows s s' := s.stages <+: s'.stages
  refl _ := prefix_rfl
  trans h h' := h.trans h'

/-- **All pages that a node draws from are stages**, but for one that the reading, or the SELECT,
takes itself. -/
def pagedNodes (g : Graph) : NodeLaw where
  law := paging g
  Staged h _ s := g.AllPages s.Takes h
  Paged h _ s := g.AllPages s.Takes h
  Reads enclosed source r s := ∀ h ∈ source.handles,
    g.AllPages (fun sel => s.Takes sel ∨ enclosed = false ∧ sel.Counts r.limit r.offset) h
  Scope _ _ := True
  Scans source _ _ scan s := ∀ h ∈ source.handles,
    g.AllPages (fun sel => s.Takes sel ∨ sel.Counts scan.select.limit scan.select.offset) h
  Selects _ _ _ _ := True

section Planning

variable {g past : Graph} {e : Earlier} {own : Handle} {node : Node} {s s' : PlanState}

lemma Graph.AllPages.grow {h : Handle} (hp : g.AllPages s.Takes h) (hg : s.stages <+: s'.stages) :
    g.AllPages s'.Takes h :=
  hp.mono fun _ _ htakes => htakes.mono hg

lemma paging_same (hstages : s'.stages = s.stages) (hstaged : s'.staged = s.staged)
    (hpages : s'.pages = s.pages) (hs : (paging g).holds s) : (paging g).holds s' := by
  intro e he
  rw [hstaged, hpages] at he
  exact (hs e he).grow (by rw [hstages])

/-- One more stage is noted for a node whose pages are stages. -/
lemma paging_adds {stage : Stage} (ha : s.Adds own stage s') (hs : (paging g).holds s)
    (hown : g.AllPages s'.Takes own) : (paging g).holds s' ∧ (paging g).grows s s' := by
  have hg : s.stages <+: s'.stages := ha.stages ▸ prefix_append _ _
  refine ⟨fun e he => ?_, hg⟩
  have hnoted : e ∈ s.staged ++ s.pages ∨ e = (own, stage.name) := by
    rcases mem_append.mp he with he | he
    · exact (ha.staged e he).imp_left (mem_append_left _)
    · exact (ha.pages e he).imp_left (mem_append_right _)
  rcases hnoted with he | rfl
  · exact (hs e he).grow hg
  · exact hown

lemma Earlier.Meets.obeysPaging (he : e.Meets (pagedNodes g)) : e.Obeys (paging g) :=
  ⟨fun h s => ((he h).stage s).forget, fun enclosed h s => ((he h).read enclosed s).forget,
    fun h scope s => ((he h).scan scope s trivial).forget, fun h s => ((he h).subselect s).forget⟩

lemma paging_grows (hstages : s'.stages = s.stages) : (paging g).grows s s' := by
  change s.stages <+: s'.stages
  rw [hstages]

lemma paging_quiet (hq : s.Quiet s') :
    ((paging g).holds s → (paging g).holds s') ∧ (paging g).grows s s' :=
  ⟨paging_same hq.stages hq.staged hq.pages, paging_grows hq.stages⟩

lemma scanReading_counts {schema : Schema} {earlier : Earlier} {s : PlanState} (reading : Reading)
    (scope : List String) : Ensures (scanReading schema earlier reading scope) s fun scan _ =>
      scan.select.limit = reading.limit ∧ scan.select.offset = reading.offset :=
  .bind_any fun _ _ => .bind_any fun _ _ => .bind_any fun _ _ => .bind_any fun _ _ =>
    .bind_any fun _ _ => .of_pure ⟨rfl, rfl⟩

/-- A SELECT of a reading leaves the pages below as they are, and takes that of the reading. -/
lemma scanReading_pages (he : e.Meets (pagedNodes g)) (schema : Schema) (reading : Reading)
    (scope : List String) : Keeps (paging g) (scanReading schema e reading scope) s fun scan s' =>
      s.stages <+: s'.stages ∧ scan.select.limit = reading.limit ∧
        scan.select.offset = reading.offset :=
  (((scanReading_asks schema reading scope).obeys paging_quiet he.obeysPaging s).and
    (scanReading_counts reading scope)).mono fun _ _ hg h => ⟨hg, h.2⟩

/-- What others are read from takes no page itself. -/
lemma takes_of_reads {source : Source} {r : Reading} (hr : (pagedNodes g).Reads true source r s) :
    ∀ h ∈ source.handles, g.AllPages s.Takes h :=
  fun h hh => (hr h hh).mono fun _ _ hsel => hsel.resolve_right (by simp)

variable (he : e.Meets (pagedNodes g)) (hn : g.node own = .ok node)

include he hn

/-- **A node is read** after the pages below it have been made stages. -/
lemma pages_readRules : (pagedNodes g).ReadRules past e own node where
  before := he
  staged_mono hg hp := hp.grow hg
  scope_mono _ _ := trivial
  scope_nil _ := trivial
  staged hs hmem := hs _ (mem_append_left _ hmem)
  paged _ hs hmem := hs _ (mem_append_right _ hmem)
  write hm _ := by
    have hown : ∀ s : PlanState, g.AllPages s.Takes own := fun s =>
      Graph.allPages_of_node hn (by rintro sel rfl; cases hm)
        (by cases node <;> simp_all [Node.sources, Node.isMutation])
    refine stageWrite_keeps ((writeStatement_asks past.schema node).obeys paging_quiet
      he.obeysPaging _) (fun _ _ _ => by simp) fun statement relation s1 hs1 hg _ => ?_
    obtain ⟨hs2, hg2⟩ := paging_adds (s1.addWrite_adds own statement relation) hs1 (hown _)
    refine ⟨hs2, hg.trans hg2, (linkWrite_links (he.obeysPaging.links paging_same
      (fun h _ _ => paging_grows h) _ _) trivial fun _ _ _ _ _ _ _ => trivial).mono ?_⟩
    exact fun _ s3 _ _ _ _ => hown s3
  page := by
    rintro sel r s0 s rfl - - - - - hr
    refine (scanReading_pages he _ _ _).bind fun scan s1 _ hscan => ?_
    obtain ⟨hg, hlimit, hoffset⟩ := hscan
    refine (Scan.keeps_adds fun s2 hs1 ha => ?_).2
    have hg2 : s1.stages <+: s2.stages := ha.stages ▸ prefix_append _ _
    -- the stage of the page itself takes its counts
    have hown : g.AllPages s2.Takes own := by
      refine Graph.allPages_of_node hn ?_ fun k hk => (takes_of_reads hr k hk).grow (hg.trans hg2)
      rintro _ ⟨⟩ -
      exact ⟨s1.stageOf scan, ha.stages ▸ mem_append_right _ (mem_singleton_self _), _, rfl, hlimit,
        hoffset⟩
    obtain ⟨hs2, hg3⟩ := paging_adds ha hs1 hown
    exact ⟨hs2, hg3, hown⟩
  ofRelation _ _ := by rintro h ⟨⟩
  ofStage hp := forall_mem_singleton.mpr (hp.mono fun _ _ => .inl)
  ofPage _ hp := forall_mem_singleton.mpr (hp.mono fun _ _ => .inl)
  select := by
    rintro enclosed sel r s rfl hpaged hr
    refine forall_mem_singleton.mpr (Graph.allPages_of_node hn ?_ fun k hk => ?_)
    · rintro _ ⟨⟩ hown
      rw [hown] at hpaged
      exact .inr ⟨hpaged, rfl, rfl⟩
    · exact (takes_of_reads hr k hk).mono fun _ _ => .inl
  filter := by
    rintro enclosed source condition r s rfl hr
    refine forall_mem_singleton.mpr (Graph.allPages_of_node hn (by rintro _ ⟨⟩) fun k hk => ?_)
    exact (takes_of_reads hr k hk).mono fun _ _ => .inl
  common := by
    rintro enclosed queries last r s rfl hlast hbefore hr
    refine forall_mem_singleton.mpr (Graph.allPages_of_node hn (by rintro _ ⟨⟩) fun k hk => ?_)
    rw [← dropLast_append_getLast? last hlast] at hk
    rcases mem_append.mp hk with hk | hk
    · obtain ⟨_, hp⟩ := hbefore k hk
      exact hp.mono fun _ _ => .inl
    · exact hr k hk
  values := by
    rintro enclosed columns rows s rfl
    exact forall_mem_singleton.mpr
      (Graph.allPages_of_node hn (by rintro _ ⟨⟩) (by simp [Node.sources]))
  key _ _ _ hr := hr
  scan := by
    intro r s0 s scope _ hr _
    refine (scanReading_pages he _ r scope).mono fun scan s1 _ hscan => ?_
    obtain ⟨hg, hlimit, hoffset⟩ := hscan
    refine fun h hh => (hr h hh).mono fun sel _ hsel => ?_
    rw [hlimit, hoffset]
    exact hsel.imp (fun htakes => htakes.mono hg) And.right
  select_of_scan _ := trivial

lemma pages_meetsAt : (Earlier.ofNode past e node).MeetsAt (pagedNodes g) own := by
  refine ofNode_meets (pages_readRules he hn) (fun {s0 scan s} hscan => ?_) ?_
  · refine (Scan.keeps_adds fun s1 hs ha => ?_).1
    have hg : s.stages <+: s1.stages := ha.stages ▸ prefix_append _ _
    have hown : g.AllPages s1.Takes own := by
      refine (hscan own (mem_singleton_self own)).mono fun sel _ hsel => ?_
      rcases hsel with htakes | hcounts
      · exact htakes.mono hg
      · exact ⟨s.stageOf scan, ha.stages ▸ mem_append_right _ (mem_singleton_self _), _, rfl,
          hcounts⟩
    obtain ⟨hs1, hg1⟩ := paging_adds ha hs hown
    exact ⟨hs1, hg1, hown⟩
  · rintro queries names last s rfl hall -
    have hown : g.AllPages s.Takes own := by
      refine Graph.allPages_of_node hn (by rintro _ ⟨⟩) fun k hk => ?_
      obtain ⟨_, -, hp⟩ := exists_of_forall₂_right hall.flip k hk
      exact hp
    exact .of_run rfl (fun hs => forall_mem_cons.mpr ⟨hown, hs⟩) prefix_rfl hown

end Planning

/-- **All nodes of a graph.** -/
lemma planner_pages (g : Graph) : g.planner.Meets (pagedNodes g) :=
  planner_meets fun _ _ _ _ hnodes he => pages_meetsAt he (Graph.node_of_append hnodes)

/-! ### Text -/

lemma infix_tokensBetween {separator ts : List Token} {tss : List (List Token)} (h : ts ∈ tss) :
    ts <:+: tokensBetween separator tss := by
  induction tss with
  | nil => cases h
  | cons first rest ih =>
    cases rest with
    | nil => simp_all [tokensBetween]
    | cons us rest =>
      rw [tokensBetween, append_assoc]
      · rcases mem_cons.mp h with rfl | h
        · exact (prefix_append _ _).isInfix
        · exact (ih h).trans ((suffix_append _ _).trans (suffix_append _ _)).isInfix
      · simp

lemma infix_parenthesized (ts : List Token) : ts <:+: parenthesized ts :=
  ⟨[.symbol .leftParen], [.symbol .rightParen], by simp [parenthesized]⟩

/-- The clauses by which a select takes a page. -/
def SelectNode.counts (sel : SelectNode) : List Token :=
  countTokens .LIMIT sel.limit ++ countTokens .OFFSET sel.offset

lemma SelectNode.Counts.suffix {sel : SelectNode} {s : Select} (h : sel.Counts s.limit s.offset) :
    sel.counts <:+ s.tokens := by
  obtain ⟨projection, source, joins, condition, ordering, limit, offset⟩ := s
  obtain ⟨hlimit, hoffset⟩ := h
  cases hlimit
  cases hoffset
  rw [Select.tokens, append_assoc]
  exact suffix_append _ _

lemma Cte.tokens_infix {cte : Cte} {ctes : List Cte} (h : cte ∈ ctes) :
    cte.statement.tokens <:+: commaSeparated (Cte.tokenLists ctes) := by
  have hmem : (.ident cte.name :: innerWord .AS ++ parenthesized cte.statement.tokens) ∈
      Cte.tokenLists ctes := by
    induction ctes with
    | nil => cases h
    | cons first rest ih =>
      obtain ⟨name, statement⟩ := first
      rw [Cte.tokenLists]
      rcases mem_cons.mp h with rfl | h
      · exact mem_cons_self
      · exact mem_cons_of_mem _ (ih h)
  exact ((infix_parenthesized _).trans (suffix_append _ _).isInfix).trans (infix_tokensBetween hmem)

/-- What stands in the SELECT or in a stage of a statement stands in the statement. -/
lemma withStages_infix {ts : List Token} {stages : List Stage} {inner : Select}
    (h : ts <:+: inner.tokens ∨ ∃ stage ∈ stages, ts <:+: stage.statement.tokens) :
    ts <:+: (withStages stages (jsonRows inner)).tokens := by
  have hinner : inner.tokens <:+: (jsonRows inner).tokens := by
    refine (infix_parenthesized _).trans ⟨word .SELECT ++ commaSeparated
      (SelectItem.tokenLists [⟨.rowToJson "x", none⟩]) ++ innerWord .FROM,
      labelTokens (some "x"), ?_⟩
    simp [jsonRows, Statement.tokens, Select.tokens, Select.empty, FromItem.clause, FromItem.tokens,
      Join.clauses, Expr.clause, OrderItem.tokenLists, listClause, countTokens]
  rw [withStages]
  rcases h with h | ⟨stage, hmem, h⟩
  · split
    · exact h.trans hinner
    · rw [Statement.tokens]
      exact (h.trans hinner).trans (suffix_append _ _).isInfix
  · have hne : stages.isEmpty = false := by
      cases stages <;> simp_all
    rw [if_neg (by simp [hne]), Statement.tokens, if_neg (by simpa using hne)]
    have hcte := Cte.tokens_infix (mem_map_of_mem (f := Stage.toCte) hmem)
    refine (h.trans hcte).trans ⟨word .WITH, [.space] ++ (jsonRows inner).tokens, ?_⟩
    simp
    rfl

/-- A page that is a stage stays one when more columns are asked of it. -/
lemma PlanState.Takes.widened {s : PlanState} {sel : SelectNode} (h : s.Takes sel) :
    ∃ stage ∈ widenStages s.required s.stages, sel.counts <:+: stage.statement.tokens := by
  have hwiden : Forall₂ (fun a b : Stage => ∀ inner : Select, a.statement = .select inner →
      sel.Counts inner.limit inner.offset → sel.counts <:+: b.statement.tokens) s.stages
      (widenStages s.required s.stages) := by
    refine widenStages_forall₂ (fun rs stage inner hinner hcounts => ?_) s.required s.stages
    rw [widenStage_eq]
    cases rs.lookup stage.name with
    | none =>
      rw [Stage.given, hinner]
      exact hcounts.suffix.isInfix
    | some required =>
      obtain ⟨s', hs', hsame⟩ := Statement.giving_select inner stage.qualifier required
      rw [Stage.given, hinner, hs']
      rcases hsame with rfl | ⟨q, names, rfl⟩
      · exact hcounts.suffix.isInfix
      · obtain ⟨added, heq, -⟩ := inner.ensureEach_eq q names
        have hcounts' : sel.Counts (inner.ensureEach q names).limit
            (inner.ensureEach q names).offset := by rwa [heq]
        exact hcounts'.suffix.isInfix
  obtain ⟨stage, hstage, inner, hinner, hcounts⟩ := h
  obtain ⟨stage', hstage', htokens⟩ := exists_of_forall₂_right hwiden.flip stage hstage
  exact ⟨stage', hstage', htokens inner hinner hcounts⟩

/-- All pages that the root and the branches of a query draw from are stages, but for one that the
SELECT of the query takes. -/
lemma plan_pages (g : Graph) (q : Query) (s : PlanState) :
    Keeps (paging g) (q.plan g) s fun scan s' => ∀ h ∈ q.root.handles ++ q.branches,
      g.AllPages (fun sel => s'.Takes sel ∨ sel.Counts scan.select.limit scan.select.offset) h := by
  have he : g.planner.Meets (pagedNodes g) := planner_pages g
  have hbranches := branches_keep (s := s) (P := fun h s => g.AllPages s.Takes h)
    (fun _ _ _ hg hp => hp.grow hg) (fun h => (he h).stage) q.branches
  refine hbranches.bind fun _ s1 _ hstaged => ?_
  have hkeep : ∀ {s2 : PlanState} {P : SelectNode → Prop}, s1.stages <+: s2.stages →
      ∀ h ∈ q.branches, g.AllPages (fun sel => s2.Takes sel ∨ P sel) h :=
    fun hg h hh => ((hstaged h hh).grow hg).mono fun _ _ => .inl
  cases q.root with
  | relation id =>
    exact (scanReading_pages (.none _) g.schema _ []).mono fun scan s2 _ hscan => hkeep hscan.1
  | node root =>
    exact ((he root).scan [] s1 trivial).mono fun scan s2 hg hroot =>
      forall_mem_append.mpr ⟨hroot, hkeep hg⟩

/-- **The clauses of every page stand in the statement of a query.** -/
lemma pages_in_tokens {g : Graph} {q : Query} {statement : Statement}
    (hstatement : q.toStatement g = .ok statement) : ∀ h ∈ q.root.handles ++ q.branches,
      g.AllPages (fun sel => sel.counts <:+: statement.tokens) h := by
  obtain ⟨⟨scan, s⟩, hplan, hrest⟩ := Except.bind_ok hstatement
  cases hrest
  have hpages := (plan_pages g q .initial (by simp [paging, PlanState.initial]) scan s hplan).2.2
  refine fun h hh => (hpages h hh).mono fun sel _ hsel => withStages_infix ?_
  rcases hsel with htakes | hcounts
  · exact .inr htakes.widened
  · exact .inl hcounts.suffix.isInfix

/-! ### Pages of built queries -/

/-- Whether an operation sets a number of a page. -/
def ReadOp.isCount : ReadOp → Bool
  | .limit _ | .offset _ => true
  | _ => false

/-- **A page with given numbers** is taken by the root of a query or by what it draws from. -/
def Query.HasPage (g : Graph) (q : Query) (n m : UInt64) : Prop :=
  ∃ h w sel, q.root = .node h ∧ g.Draws h w ∧ g.node w = .ok (.select sel) ∧ sel.limit = some n ∧
    sel.offset = some m

section Building

variable {g g' : Graph} {q : Query} {n m : UInt64}

lemma Graph.Draws.grow {h w : Handle} (hd : g.Draws h w) (hg : g.Within g') : g'.Draws h w := by
  induction hd with
  | here h => exact .here h
  | step hn hk _ ih => exact .step (hg.node_of hn) hk ih

/-- A node that draws from the root has its pages. -/
lemma Query.HasPage.push (hp : q.HasPage g n m) {node : Node}
    (hroot : ∀ h, q.root = .node h → h ∈ node.sources) :
    Query.HasPage (g.push node) { q with root := .node g.nextHandle } n m := by
  obtain ⟨h, w, sel, hr, hw, hsel, hlimit, hoffset⟩ := hp
  have hg := g.within_push node
  exact ⟨_, w, sel, rfl, .step (Graph.Within.refl _).node_eq (hroot h hr) (hw.grow hg),
    hg.node_of hsel, hlimit, hoffset⟩

/-- **A page stays a page**: a filter is put over it, and other operations change the select on top,
which keeps its source. -/
lemma ReadOp.run_page (op : ReadOp) (hop : op.isCount = false) (hp : q.HasPage g n m) :
    Build.Ensures (op.run q) g fun q' g' => q'.HasPage g' n m := by
  have hpage := hp
  obtain ⟨h, w, sel, hroot, hw, hsel, hlimit, hoffset⟩ := hp
  cases hfilter : op.isFilter with
  | true =>
    cases op <;> cases hfilter
    have htakes : ∀ h node, q.root = .node h → g.node h = .ok node → node.takesFilter = false := by
      intro h node hr hn
      cases hroot.symm.trans hr
      cases hw with
      | here =>
        cases hsel.symm.trans hn
        rfl
      | step hn' hk _ =>
        cases hn'.symm.trans hn
        cases node <;> first | rfl | cases hk
    refine (filter_pushes _ htakes).mono ?_
    rintro _ _ ⟨rfl, rfl⟩
    exact hpage.push fun h hr => by simp [Node.sources, hr, Source.handles]
  | false =>
    refine (op.run_changes hfilter).mono ?_
    rintro _ _ ⟨s, hs, -, rfl, rfl⟩
    have hg := g.within_push (.select (op.change s))
    have hown := (Graph.Within.refl (g.push (.select (op.change s)))).node_eq
    have hsource : (op.change s).source = s.source := by cases op <;> rfl
    cases hs with
    | above hne =>
      refine hpage.push fun h hr => ?_
      rw [Node.sources, hsource, SelectNode.ofSource, hr]
      exact mem_singleton_self h
    | root hroot' hn =>
      cases hroot.symm.trans hroot'
      cases hw with
      | here =>
        cases hsel.symm.trans hn
        have hkeep : (op.change sel).limit = sel.limit ∧ (op.change sel).offset = sel.offset := by
          cases op <;> first | exact ⟨rfl, rfl⟩ | cases hop
        exact ⟨_, _, _, rfl, .here _, hown, hkeep.1.trans hlimit, hkeep.2.trans hoffset⟩
      | step hn' hk hrest =>
        cases hn'.symm.trans hn
        refine ⟨_, w, sel, rfl, .step hown ?_ (hrest.grow hg), hg.node_of hsel, hlimit, hoffset⟩
        rwa [Node.sources, hsource]

/-- **A page stays below later operations**, by induction on these. -/
lemma ReadOp.runAll_page (later : List ReadOp) (hlater : ∀ op ∈ later, op.isCount = false)
    (hp : q.HasPage g n m) :
    Build.Ensures (ReadOp.runAll q later) g fun q' g' => q'.HasPage g' n m := by
  induction later generalizing g q with
  | nil => exact .of_pure hp
  | cons op rest ih =>
    obtain ⟨hop, hrest⟩ := forall_mem_cons.mp hlater
    exact (op.run_page hop hp).bind fun q' g' hp' => ih hrest hp'

/-- The numbers of a page may be given in either order, whatever the query is. -/
lemma ReadOp.counts_page {page : List ReadOp}
    (hpage : page = [.limit n, .offset m] ∨ page = [.offset m, .limit n]) :
    Build.Ensures (ReadOp.runAll q page) g fun q' g' => q'.HasPage g' n m := by
  have hown := fun g node => (Graph.Within.refl (Graph.push g node)).node_eq
  have htwo : ∀ first second : ReadOp, first.isFilter = false → second.isFilter = false →
      (∀ s : SelectNode, (second.change (first.change s)).limit = some n ∧
        (second.change (first.change s)).offset = some m) →
      Build.Ensures (ReadOp.runAll q [first, second]) g fun q' g' => q'.HasPage g' n m := by
    intro first second hfirst hsecond hcounts
    refine (first.run_changes hfirst).bind ?_
    rintro _ _ ⟨s, -, -, rfl, rfl⟩
    refine (second.run_changes hsecond).bind ?_
    rintro _ _ ⟨s', hs', -, rfl, rfl⟩
    cases hs' with
    | root hroot hn =>
      cases hroot
      cases (hown g _).symm.trans hn
      exact .of_pure ⟨_, _, _, rfl, .here _, hown _ _, hcounts s⟩
    | above hne => exact (hne _ _ rfl (hown g _)).elim
  rcases hpage with rfl | rfl
  · exact htwo _ _ rfl rfl fun _ => ⟨rfl, rfl⟩
  · exact htwo _ _ rfl rfl fun _ => ⟨rfl, rfl⟩

lemma ReadOp.runAll_append (q : Query) (ops more : List ReadOp) :
    ReadOp.runAll q (ops ++ more) = ReadOp.runAll q ops >>= fun q' => ReadOp.runAll q' more := by
  induction ops generalizing q with
  | nil => exact (pure_bind _ _).symm
  | cons op rest ih => simp [ReadOp.runAll, ih]

end Building

/-- A number is written as it is if and only if it is also a signed one. -/
lemma intText_toInt64 (n : UInt64) :
    Json.intText n.toInt64.toInt = String.ofList (decimalDigits n.toNat) ↔ n.toNat < 2 ^ 63 := by
  have hn : n.toInt64.toInt = if 2 * n.toNat < 2 ^ 64 then (n.toNat : Int) else n.toNat - 2 ^ 64 :=
    BitVec.toInt_eq_toNat_cond n.toBitVec
  rw [Json.intText]
  by_cases hsmall : n.toNat < 2 ^ 63
  · rw [if_pos (by omega)] at hn
    simpa [hn] using hsmall
  · rw [if_neg (by omega)] at hn
    have hlt := n.toNat_lt
    rw [if_pos (by omega)]
    refine ⟨fun h => ?_, fun h => absurd h hsmall⟩
    have hsign : '-' ∈ decimalDigits n.toNat := by
      rw [← String.ofList_injective h]
      simp
    cases isDigit_of_mem_decimalDigits hsign

/-- **The numbers of pages in SQL text.** The clauses of every page that the root or a branch of a
query draws from stand in its text. So do a limit and an offset that are given to any query, with
later filters and selects on top. Numbers are written as signed ones of 64 bits, so they are
unchanged if and only if they are below the sixty-third power of two. -/
theorem page_counts_rendered {g : Graph} {q : Query} {placeholder : Placeholder}
    {rendered : Rendered} (hcompile : q.compile g placeholder = .ok rendered) :
    (∀ h ∈ q.root.handles ++ q.branches, g.AllPages (fun sel =>
      (sel.counts.map (Token.text "")).flatMap String.toList <:+: rendered.sql.toList) h) ∧
      (∀ first base n m page later, page = [.limit n, .offset m] ∨ page = [.offset m, .limit n] →
        (∀ op ∈ later, op.isCount = false) →
        ReadOp.runAll base (page ++ later) first = (.ok q, g) →
        (" LIMIT " ++ Json.intText n.toInt64.toInt ++ " OFFSET " ++
          Json.intText m.toInt64.toInt).toList <:+: rendered.sql.toList) ∧
      ∀ n : UInt64, Json.intText n.toInt64.toInt = String.ofList (decimalDigits n.toNat) ↔
        n.toNat < 2 ^ 63 := by
  obtain ⟨statement, hstatement, hrendered⟩ := Except.bind_ok hcompile
  cases hrendered
  have hpages : ∀ h ∈ q.root.handles ++ q.branches, g.AllPages (fun sel =>
      (sel.counts.map (Token.text "")).flatMap String.toList <:+:
        (statement.render placeholder).sql.toList) h := by
    refine fun h hh => (pages_in_tokens hstatement h hh).mono fun sel _ hsel => ?_
    have hparams : ∀ t ∈ sel.counts, t.param? = none := by
      rw [SelectNode.counts]
      cases sel.limit <;> cases sel.offset <;> simp [countTokens, innerWord, Token.param?]
    obtain ⟨front, back, htokens⟩ := hsel
    obtain ⟨_, hback⟩ := tokenTexts_append placeholder 0 (front ++ sel.counts) back
    obtain ⟨_, hfront⟩ := tokenTexts_append placeholder 0 front sel.counts
    rw [hfront, tokenTexts_bare hparams, htokens] at hback
    rw [Statement.render, renderTokens, String.toList_join, hback, flatMap_append, flatMap_append]
    exact ⟨_, _, rfl⟩
  refine ⟨hpages, ?_, intText_toInt64⟩
  intro first base n m page later hpage hlater hbuild
  rw [ReadOp.runAll_append] at hbuild
  obtain ⟨h, w, sel, hroot, hw, hsel, hlimit, hoffset⟩ := (ReadOp.counts_page hpage).bind
    (fun q' g' hq' => ReadOp.runAll_page later hlater hq') q g hbuild
  have hpage := hpages h (by simp [hroot, Source.handles]) w sel hw hsel
    (by simp [SelectNode.isPaged, hlimit])
  simpa [SelectNode.counts, hlimit, hoffset, countTokens, innerWord, Token.text, Keyword.text]
    using hpage

/-- A page of the library's authors. -/
def fewAuthors : SelectNode :=
  { SelectNode.ofSource (.relation ⟨0, 0⟩) .empty with limit := some 5 }

/-- The library with that page, and with a statement that deletes all authors. -/
def pagedLibrary : Graph := (library.push (.select fewAuthors)).push (.delete ⟨0, 0⟩ none)

/-- A page of deleted authors below a filter, after the page that is a branch. -/
def deletedAuthors : Build Query :=
  ReadOp.runAll ⟨0, .node ⟨0, 1⟩, [⟨0, 0⟩]⟩ [.limit 2, .offset 9223372036854775808,
    .filter (.lookup "name" (.value (.text "third")))]

/-- Both pages are found in the text. -/
theorem page_counts_rendered_authors :
    ∃ q g rendered, deletedAuthors pagedLibrary = (.ok q, g) ∧
      q.compile g .numbered = .ok rendered ∧ " LIMIT 5".toList <:+: rendered.sql.toList ∧
      " LIMIT 2 OFFSET -9223372036854775808".toList <:+: rendered.sql.toList := by
  obtain ⟨q, g, rendered, hbuild, hcompile⟩ := Build.exists_of_compiles
    (x := deletedAuthors) (g := pagedLibrary) (by decide +kernel)
  have hbranches : (deletedAuthors pagedLibrary).1.toOption.map (·.branches) = some [⟨0, 0⟩] := by
    decide +kernel
  have hnode : (deletedAuthors pagedLibrary).2.node ⟨0, 0⟩ = .ok (.select fewAuthors) := rfl
  rw [hbuild] at hbranches hnode
  have hmem : ⟨0, 0⟩ ∈ q.root.handles ++ q.branches := by simp [Option.some.inj hbranches]
  have htext : " LIMIT " ++ Json.intText (2 : UInt64).toInt64.toInt ++ " OFFSET " ++
      Json.intText (9223372036854775808 : UInt64).toInt64.toInt =
        " LIMIT 2 OFFSET -9223372036854775808" := by decide +kernel
  obtain ⟨hpages, hpage, -⟩ := page_counts_rendered hcompile
  exact ⟨q, g, rendered, hbuild, hcompile, hpages _ hmem _ _ (.here _) hnode rfl,
    htext ▸ hpage _ _ 2 9223372036854775808 _ _ (.inl rfl) (by simp [ReadOp.isCount]) hbuild⟩

/-- **The largest limit is written as minus one.** -/
theorem largest_limit_rendered :
    let run := ReadOp.runAll ⟨0, .relation ⟨0, 0⟩, []⟩ [.limit 18446744073709551615] library
    run.1.toOption.bind (fun q => (q.compile run.2 .numbered).toOption.map (·.sql)) = some
      "SELECT row_to_json(\"x\") FROM (SELECT * FROM \"author\" LIMIT -1) AS \"x\"" := by
  decide +kernel

end StagedSql
