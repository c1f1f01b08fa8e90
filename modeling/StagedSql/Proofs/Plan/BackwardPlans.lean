import StagedSql.Proofs.Graph.Workshops
import StagedSql.Proofs.Plan.LikeStages

/-!
Planning in graphs that look backward.

What is planned for a node of such a graph depends on the nodes before it only, and on the stages of
these nodes only (`Graph.Backward.planner_alike`). So nothing that is done later changes it.
-/

namespace StagedSql

variable {h : Handle}

/-! ### The same plans -/

/-- Two ways of planning do the same with a node. -/
structure Earlier.SameAt (h : Handle) (e e' : Earlier) : Prop where
  stage : e.stage h = e'.stage h
  read : ∀ enclosed, e.read enclosed h = e'.read enclosed h
  scan : ∀ scope, e.scan h scope = e'.scan h scope
  subselect : e.subselect h = e'.subselect h

namespace Earlier.SameAt

variable {e e' e'' : Earlier}

lemma refl (h : Handle) (e : Earlier) : SameAt h e e := ⟨rfl, fun _ => rfl, fun _ => rfl, rfl⟩

lemma symm (he : SameAt h e e') : SameAt h e' e :=
  ⟨he.stage.symm, fun b => (he.read b).symm, fun scope => (he.scan scope).symm, he.subselect.symm⟩

lemma trans (he : SameAt h e e') (he' : SameAt h e' e'') : SameAt h e e'' :=
  ⟨he.stage.trans he'.stage, fun b => (he.read b).trans (he'.read b),
    fun scope => (he.scan scope).trans (he'.scan scope), he.subselect.trans he'.subselect⟩

/-- What goes alike on a node may be replaced by what does the same with it. -/
lemma alikeAt {kept free : Handle → Prop} {f f' : Earlier} (he : SameAt h e f)
    (he' : SameAt h e' f') (ha : f.AlikeAt kept free h f') : e.AlikeAt kept free h e' := by
  constructor
  · rw [he.stage, he'.stage]
    exact ha.stage
  · intro enclosed
    rw [he.read, he'.read]
    exact ha.read enclosed
  · intro scope
    rw [he.scan, he'.scan]
    exact ha.scan scope
  · rw [he.subselect, he'.subselect]
    exact ha.subselect

lemma push_of_ne {past : Graph} (hne : h ≠ past.nextHandle) (node : Node) :
    SameAt h (e.push past node) e :=
  ⟨if_neg hne, fun _ => if_neg hne, fun _ => if_neg hne, if_neg hne⟩

end Earlier.SameAt

namespace Graph

variable {past g : Graph} {node : Node} {outside kept free : Handle → Prop}

lemma Within.planner_sameAt (hw : (past.push node).Within g) :
    g.planner.SameAt past.nextHandle (.ofNode past past.planner node) := by
  obtain ⟨hstage, hread, hscan, hsub⟩ := hw.planner_eq
  exact ⟨hstage, hread, hscan, hsub⟩

/-- **A handle without a node is refused.** By induction on the nodes. -/
lemma planner_unknown (hh : ¬ g.Has h) : g.planner.SameAt h .none := by
  obtain ⟨id, schema, nodes⟩ := g
  induction nodes with
  | nil => exact ⟨rfl, fun _ => rfl, fun _ => rfl, rfl⟩
  | cons node rest ih =>
    let past : Graph := ⟨id, schema, rest⟩
    have hne : h ≠ past.nextHandle := by
      rintro rfl
      exact hh ⟨node, (Within.refl (past.push node)).node_eq⟩
    have hrest : past.planner.SameAt h .none :=
      ih fun hold => hh ((within_push past node).has hold)
    exact (Earlier.SameAt.push_of_ne hne node).trans hrest

lemma Sees.foreign_of_not_has (hs : g.Sees outside h) (hh : ¬ g.Has h) : h.graph ≠ g.id :=
  fun hid => hh (has_of_lt hid (hs.own hid))

/-- **Nodes are planned as they were when the graph was smaller.** -/
lemma Within.planner_of_sees (hw : past.Within g) (hs : past.Sees outside h) :
    g.planner.SameAt h past.planner := by
  by_cases hh : past.Has h
  · obtain ⟨node, hn⟩ := hh
    obtain ⟨p, hp, rfl⟩ := exists_of_node hn
    exact (hp.trans hw).planner_sameAt.trans hp.planner_sameAt.symm
  · have hforeign : ¬ g.Has h := by
      intro hold
      exact hs.foreign_of_not_has hh (hold.lt_size.1.trans hw.id)
    exact (planner_unknown hforeign).trans (planner_unknown hh).symm

/-! ### Plans that go alike -/

/-- A smaller graph agrees with a larger one on what it sees. -/
lemma Backward.agrees (hg : g.Backward outside) (hw : past.Within g) :
    past.Agrees (past.Sees outside) g := by
  refine ⟨hw.schema, fun h hs => ?_, fun h node _ hn =>
    Backward.stepRules.fit_of_node (hg.of_within hw) hn⟩
  by_cases hh : past.Has h
  · obtain ⟨node, hn⟩ := hh
    rw [hn, hw.node_of hn]
  · have hid := hs.foreign_of_not_has hh
    have hid' : h.graph ≠ g.id := by
      rwa [hw.id]
    rw [node, if_neg hid', node, if_neg hid]

/-- What is read of the nodes of a graph refers to nodes that it sees. -/
lemma Backward.handles_read (hg : g.Backward outside) {enclosed : Bool} {r : Reading}
    (hr : (g.planner.read enclosed h).Gives r) : ∀ k ∈ r.handles, g.Sees outside k := by
  obtain ⟨s, s', hrun⟩ := hr
  exact ((Within.refl g).reads enclosed h s r s' hrun).handles
    (fun _ _ _ hn => Backward.stepRules.fit_of_node hg hn)
    fun _ _ _ hn => Backward.stepRules.fit_of_node hg hn

/-- What is read of a node refers to nodes that were seen when it was added. -/
lemma Backward.handles_readAt (hg : g.Backward outside) (hw : (past.push node).Within g)
    (enclosed : Bool) (r : Reading)
    (hr : (readAt past past.planner enclosed past.nextHandle node).Gives r) :
    ∀ k ∈ r.handles, past.Sees outside k := by
  obtain ⟨s, s', hrun⟩ := hr
  have hbefore : past.Within g := (within_push past node).trans hw
  have hagrees := hg.agrees hbefore
  have hreads := readAt_reads hbefore.reads hw.node_eq enclosed r s' hrun
  refine hreads.handles (fun k n hs hn => hagrees.closed k n hs ?_) fun k hk n hn => ?_
  · rw [← hagrees.node k hs, hn]
  · rw [List.mem_singleton.mp hk, hw.node_eq] at hn
    cases hn
    exact hg past node hw

/-- **Planning goes alike with itself** from states that agree on the nodes seen. By induction on
the nodes. -/
theorem Backward.planner_alike (hg : g.Backward outside) (hkept : ∀ h, g.Sees outside h → kept h)
    (hfree : ∀ h, g.Sees outside h → ¬ free h) :
    g.planner.Alike kept free (g.Sees outside) g.planner := by
  obtain ⟨id, schema, nodes⟩ := g
  induction nodes with
  | nil =>
    refine ⟨fun h _ => ?_, fun enclosed h _ r => hg.handles_read⟩
    exact ⟨.of_throw _, fun _ => .of_throw _, fun _ => .of_throw _, .of_throw _⟩
  | cons node rest ih =>
    let past : Graph := ⟨id, schema, rest⟩
    have hw : past.Within (past.push node) := within_push past node
    have hpast : past.planner.Alike kept free (past.Sees outside) past.planner :=
      ih (hg.of_within hw) (fun h hs => hkept h (hs.mono hw)) fun h hs => hfree h (hs.mono hw)
    have hn : ∀ h ∈ node.handles, past.Sees outside h := hg past node (.refl _)
    have hnew : (past.push node).Sees outside past.nextHandle := past.sees_nextHandle node
    have hsame := (Within.refl (past.push node)).planner_sameAt
    change (past.push node).planner.Alike kept free ((past.push node).Sees outside) _
    refine ⟨fun h hs => ?_, fun enclosed h _ r => hg.handles_read⟩
    rcases hs.of_push with rfl | hold
    · exact hsame.alikeAt hsame (ofNode_alike hpast hn ((hg.of_within hw).agrees (.refl past))
        (fun h hs => hkept h (hs.mono hw)) (hfree _ hnew) (hkept _ hnew)
        (hg.handles_readAt (.refl _)) fun _ => rfl)
    · have hbefore := hw.planner_of_sees hold
      exact hbefore.alikeAt hbefore (hpast.node h hold)

/-- **Planning in a larger graph goes alike** on the nodes seen before. -/
lemma Backward.planner_alike_within (hg : past.Backward outside) (hw : past.Within g)
    (hkept : ∀ h, past.Sees outside h → kept h) (hfree : ∀ h, past.Sees outside h → ¬ free h) :
    g.planner.Alike kept free (past.Sees outside) past.planner := by
  have hself := hg.planner_alike hkept hfree
  refine ⟨fun h hs => ?_, fun enclosed h hs r hr => ?_⟩
  · exact (hw.planner_of_sees hs).alikeAt (.refl h past.planner) (hself.node h hs)
  · rw [(hw.planner_of_sees hs).read] at hr
    exact hself.handles enclosed h hs r hr

end Graph

/-! ### Statements -/

/-- The statement that is made of the SELECT of a plan and of its stages. -/
def Plan.statement (x : Plan Scan) : Except Error Statement := do
  let (scan, s) ← x.run .initial
  return withStages (widenStages s.required s.stages) (jsonRows scan.select)

/-- **Plans that go alike make the same statement**, or fail with the same error. -/
lemma Plan.statement_eq {x y : Plan Scan} {kept free : Handle → Prop}
    (h : Plan.Matches (PlanState.Like kept free) (x .initial) (y .initial)) :
    x.statement = y.statement := by
  rw [Plan.statement, Plan.statement, StateT.run, StateT.run]
  generalize x .initial = r at h ⊢
  generalize y .initial = r' at h ⊢
  cases h with
  | error e => rfl
  | ok a hst =>
    obtain ⟨staged, rfl, -⟩ := hst
    rfl

lemma PlanState.like_initial (kept free : Handle → Prop) :
    PlanState.Like kept free .initial .initial :=
  ⟨[], rfl, fun _ _ => rfl, fun _ _ => rfl⟩

/-- **Queries that are planned alike are compiled alike.** -/
lemma Query.compile_eq {g g' : Graph} {q q' : Query} {kept free free' : Handle → Prop}
    (h : Plan.Relates (PlanState.Like kept free) (PlanState.Like kept free') (q.plan g)
      (q'.plan g')) (placeholder : Placeholder) :
    q.compile g placeholder = q'.compile g' placeholder := by
  have hsame : q.toStatement g = q'.toStatement g' :=
    Plan.statement_eq (h _ _ (PlanState.like_initial kept free))
  rw [Query.compile, Query.compile, hsame]

section Growing

variable {past g : Graph} {q : Query} {outside : Handle → Prop}

lemma Plan.forM_congr {α : Type} {f f' : α → Plan PUnit} {l : List α}
    (h : ∀ a ∈ l, f a = f' a) : l.forM f = l.forM f' := by
  induction l with
  | nil => rfl
  | cons a rest ih =>
    simp_all

/-- **A query is planned as it was when the graph was smaller.** -/
lemma Graph.Within.plan_eq (hw : past.Within g) (hq : ∀ h ∈ q.handles, past.Sees outside h) :
    q.plan g = q.plan past := by
  obtain ⟨graph, root, branches⟩ := q
  rw [Query.handles, List.forall_mem_append] at hq
  have hbranches : (branches.forM fun h => discard (g.planner.stage h)) =
      branches.forM fun h => discard (past.planner.stage h) :=
    Plan.forM_congr fun h hh => by rw [(hw.planner_of_sees (hq.2 h hh)).stage]
  rw [Query.plan, Query.plan, hbranches]
  cases root with
  | relation id =>
    rw [hw.schema]
  | node h =>
    dsimp only
    rw [(hw.planner_of_sees (hq.1 h (List.mem_singleton.mpr rfl))).scan]

lemma Graph.Within.compile_eq (hw : past.Within g) (hq : ∀ h ∈ q.handles, past.Sees outside h)
    (placeholder : Placeholder) : q.compile g placeholder = q.compile past placeholder := by
  rw [Query.compile, Query.compile, Query.toStatement, Query.toStatement, hw.plan_eq hq]

/-- Earlier nodes come first in the list of nodes, the oldest first. -/
lemma Graph.Within.earlier_first (hw : past.Within g) :
    past.nodes.reverse <+: g.nodes.reverse := by
  obtain ⟨newer, hnodes⟩ := hw.nodes
  rw [hnodes, List.reverse_append]
  exact List.prefix_append _ _

end Growing

/-- **Queries are persistent.** Whatever was built on any graphs, and whatever operations, handles
and compilations follow, successful or failing: the nodes of each graph, oldest first, are a prefix
of its later nodes, and every query that was built is compiled afterwards with the same result as
before, be it a statement with its arguments or an error. Compiling leaves all graphs as they
are. -/
theorem queries_are_persistent {w w' : Workshop} (hw : w.Reached)
    (hsteps : Relation.ReflTransGen Workshop.Leads w w') {q : Query} (hq : q ∈ w.queries) :
    (∀ id, (w.space.graph id).nodes.reverse <+: (w'.space.graph id).nodes.reverse) ∧
      q ∈ w'.queries ∧
      ∀ placeholder, Workspace.compileOf q placeholder w'.space =
        ((Workspace.compileOf q placeholder w.space).1, w'.space) := by
  have htidy := hw.tidy
  have hgrown := htidy.grown hsteps
  have hgraph : ∀ id, (w.space.graph id).Within (w'.space.graph id) := by
    intro id
    by_cases hid : id < w.space.graphs.length
    · obtain ⟨g', hg', hwithin⟩ := hgrown.space.graph id _ (Workspace.exists_graph hid)
      rwa [Workspace.graph_eq hg']
    · have hnone : w.space.graphs[id]? = none := List.getElem?_eq_none (Nat.not_lt.mp hid)
      have hnone' : w'.space.graphs[id]? = none := by
        refine List.getElem?_eq_none ?_
        rw [hgrown.space.length]
        exact Nat.not_lt.mp hid
      rw [Workspace.graph, Workspace.graph, hnone, hnone']
      exact .refl _
  have hoffers := htidy.queries q hq
  have hsees : ∀ h ∈ q.handles, (w.space.graph q.graph).Sees w.space.Holds h :=
    fun h hh => htidy.space.sees (Workspace.exists_graph hoffers.graph) (hoffers.handles h hh)
  refine ⟨fun id => (hgraph id).earlier_first, hgrown.queries q hq, fun placeholder => ?_⟩
  refine Prod.ext ?_ (Workspace.compileOf_space q placeholder w'.space)
  exact (hgraph q.graph).compile_eq hsees placeholder

/-- An author is to be inserted with a book, but authors have no age. The book has a node then, and
the failed operation made no query. -/
def bookshopsFailed : Workshop :=
  bookshops.run 0 (.insert ⟨0, .relation ⟨0, 0⟩, []⟩ ⟨[
    ("books", .many [⟨[("title", .value (.text "Birds"))], none⟩]),
    ("age", .value (.int 40))], none⟩)

/-- The authors of a bookshop are found in the same way after a failure that has added a node. -/
theorem bookshops_persistent :
    bookshopsFailed.queries = bookshops.queries ∧
      (bookshops.space.graph 0).size < (bookshopsFailed.space.graph 0).size ∧
      (bookshops.space.graph 0).nodes.reverse <+: (bookshopsFailed.space.graph 0).nodes.reverse ∧
      (Workspace.compileOf ⟨0, .node ⟨0, 1⟩, []⟩ .numbered bookshops.space).1.toOption.isSome =
        true ∧
      Workspace.compileOf ⟨0, .node ⟨0, 1⟩, []⟩ .numbered bookshopsFailed.space =
        ((Workspace.compileOf ⟨0, .node ⟨0, 1⟩, []⟩ .numbered bookshops.space).1,
          bookshopsFailed.space) := by
  have hstep : bookshops.Leads bookshopsFailed := .run (by decide +kernel)
  have hquery : (⟨0, .node ⟨0, 1⟩, []⟩ : Query) ∈ bookshops.queries := by
    rw [bookshops_queries]
    simp
  obtain ⟨hnodes, -, hcompile⟩ :=
    queries_are_persistent bookshops_reached (.single hstep) hquery
  exact ⟨rfl, by decide +kernel, hnodes 0, by decide +kernel, hcompile .numbered⟩

end StagedSql
