import Mathlib.Logic.Function.Iterate
import StagedSql.Proofs.Plan.LocalStatements

/-!
Recursion along handles ends.

A round finds what is known of a node with one look at the whole graph, given what is found for
other nodes. Since nodes look backward, as many rounds as there are nodes, and one more, find all
there is to know (`Graph.Backward.relationRounds`, `Graph.Backward.planRounds`).
-/

namespace StagedSql

open List

variable {past g : Graph} {h : Handle} {node : Node} {outside : Handle → Prop}

/-! ### Relations -/

/-- The relation whose rows a node gives, given those of what it reads. -/
def Node.relationBy (others : Source → Except Error (Option RelationId)) :
    Node → Except Error (Option RelationId)
  | .select s => others s.source
  | .filter source _ => others source
  | .insert r _ _ => .ok (some r)
  | .update r _ _ => .ok (some r)
  | .delete r _ => .ok (some r)
  | .common queries =>
    match queries.getLast? with
    | some last => others (.node last)
    | none => .ok none
  | .values _ _ => .ok none

/-- **One round**: the relation of a source, given those of other sources. -/
def Graph.relationRound (g : Graph) (others : Source → Except Error (Option RelationId)) :
    Source → Except Error (Option RelationId)
  | .relation r => .ok (some r)
  | .node h => do (← g.node h).relationBy others

lemma Node.relationBy_congr {others others' : Source → Except Error (Option RelationId)}
    (h : ∀ source : Source, (∀ k ∈ source.handles, k ∈ node.handles) →
      others source = others' source) : node.relationBy others = node.relationBy others' := by
  cases node with
  | select s => exact h s.source fun k hk => mem_append_left _ hk
  | filter source condition => exact h source fun k hk => mem_append_left _ hk
  | common queries =>
    rw [Node.relationBy, Node.relationBy]
    split
    · rename_i last hlast
      refine h (.node last) fun k hk => ?_
      rw [mem_singleton.mp hk]
      exact mem_of_getLast? hlast
    · rfl
  | insert | update | delete | values => rfl

namespace Graph

lemma node_unknown (hh : ¬ g.Has h) : g.node h = .error (.unknownNode h) := by
  cases hn : g.node h with
  | ok node => exact (hh ⟨node, hn⟩).elim
  | error e =>
    rw [node] at hn
    grind

lemma relationOf_unknown (hh : ¬ g.Has h) :
    g.relationOf (.node h) = .error (.unknownNode h) := by
  obtain ⟨id, schema, nodes⟩ := g
  induction nodes with
  | nil => rfl
  | cons node rest ih =>
    let past : Graph := ⟨id, schema, rest⟩
    have hne : h ≠ past.nextHandle := by
      rintro rfl
      exact hh ⟨node, (Within.refl (past.push node)).node_eq⟩
    exact (if_neg hne).trans (ih fun hold => hh ((within_push past node).has hold))

lemma relationOf_push (past : Graph) (node : Node) :
    (past.push node).relationOf (.node past.nextHandle) = node.relationBy past.relationOf := by
  refine (if_pos rfl).trans ?_
  cases node with
  | select s =>
    obtain ⟨source, selection, ordering, limit, offset⟩ := s
    cases source <;> rfl
  | filter source condition => cases source <;> rfl
  | insert | update | delete | common | values => rfl

lemma Within.relationOf_of_sees (hw : past.Within g) {source : Source}
    (hs : ∀ k ∈ source.handles, past.Sees outside k) :
    g.relationOf source = past.relationOf source := by
  cases source with
  | relation id => rfl
  | node h =>
    have hsees := hs h (.head _)
    by_cases hh : past.Has h
    · obtain ⟨node, hn⟩ := hh
      obtain ⟨p, hp, rfl⟩ := exists_of_node hn
      rw [(hp.trans hw).relationOfNode_eq, hp.relationOfNode_eq]
    · have hforeign : ¬ g.Has h := fun hold =>
        hsees.foreign_of_not_has hh (hold.lt_size.1.trans hw.id)
      rw [relationOf_unknown hforeign, relationOf_unknown hh]

/-- **Enough rounds find the relation** of every node before a place, whatever they started with.
By induction on the place. -/
theorem Backward.relationRounds (hg : g.Backward outside)
    (bottom : Source → Except Error (Option RelationId)) : ∀ (n : ℕ) (source : Source),
      (∀ h ∈ source.handles, g.Has h → h.index < n) →
        g.relationRound^[n + 1] bottom source = g.relationOf source := by
  intro n
  induction n with
  | zero =>
    intro source hs
    cases source with
    | relation id => rfl
    | node h =>
      have hh : ¬ g.Has h := fun hold =>
        Nat.not_lt_zero _ (hs h (.head _) hold)
      change (g.node h >>= fun node => node.relationBy bottom) = _
      rw [node_unknown hh, relationOf_unknown hh]
      rfl
  | succ n ih =>
    intro source hs
    rw [Function.iterate_succ_apply']
    cases source with
    | relation id => rfl
    | node h =>
      change (g.node h >>= fun node => node.relationBy _) = _
      by_cases hh : g.Has h
      · obtain ⟨node, hn⟩ := hh
        obtain ⟨p, hp, rfl⟩ := exists_of_node hn
        have hplace : p.size < n + 1 := hs _ (.head _) ⟨node, hn⟩
        rw [hn, hp.relationOfNode_eq, relationOf_push]
        refine Node.relationBy_congr fun source hsource => ?_
        have hsees : ∀ k ∈ source.handles, p.Sees outside k :=
          fun k hk => hg p node hp k (hsource k hk)
        have hbefore : ∀ k ∈ source.handles, g.Has k → k.index < n := by
          intro k hk hold
          have hlt : k.index < p.size := (hsees k hk).own (hold.lt_size.1.trans hp.id)
          omega
        rw [ih source hbefore]
        exact ((within_push p node).trans hp).relationOf_of_sees hsees
      · rw [node_unknown hh, relationOf_unknown hh]
        rfl

end Graph

/-! ### Plans -/

/-- How the node that was found for a handle is planned. If none was found, the error is given. -/
def Earlier.ofFound (g : Graph) (others : Earlier) : Except Error Node → Earlier
  | .ok node => .ofNode g others node
  | .error e => ⟨fun _ => throw e, fun _ _ => throw e, fun _ _ => throw e, fun _ => throw e⟩

/-- **One round**: how the nodes of a graph are planned, given how others are. -/
def Graph.planRound (g : Graph) (others : Earlier) : Earlier where
  stage h := (Earlier.ofFound g others (g.node h)).stage h
  read enclosed h := (Earlier.ofFound g others (g.node h)).read enclosed h
  scan h scope := (Earlier.ofFound g others (g.node h)).scan h scope
  subselect h := (Earlier.ofFound g others (g.node h)).subselect h

namespace Graph

variable {kept free : Handle → Prop} {others : Earlier}

lemma planRound_sameAt (g : Graph) (others : Earlier) (h : Handle) :
    (g.planRound others).SameAt h (.ofFound g others (g.node h)) :=
  ⟨rfl, fun _ => rfl, fun _ => rfl, rfl⟩

lemma planRound_node (hn : g.node h = .ok node) :
    (g.planRound others).SameAt h (.ofNode g others node) := by
  have hsame := g.planRound_sameAt others h
  rwa [hn] at hsame

lemma planRound_unknown (hh : ¬ g.Has h) : (g.planRound others).SameAt h .none := by
  have hsame := g.planRound_sameAt others h
  rw [node_unknown hh] at hsame
  exact hsame.trans ⟨rfl, fun _ => rfl, fun _ => rfl, rfl⟩

/-- **Enough rounds plan what the nodes before a place see**, whatever they started with. By
induction on these nodes. -/
theorem Backward.planRounds (hg : g.Backward outside) (bottom : Earlier) (hw : past.Within g) :
    ∀ n, past.size < n → past.planner.Alike (fun _ => True) (fun _ => False) (past.Sees outside)
      (g.planRound^[n] bottom) := by
  obtain ⟨id, schema, nodes⟩ := past
  induction nodes with
  | nil =>
    intro n hn
    obtain ⟨m, rfl⟩ : ∃ m, n = m + 1 := ⟨n - 1, by omega⟩
    rw [Function.iterate_succ_apply']
    refine ⟨fun h hs => ?_, fun enclosed h _ r => (hg.of_within hw).handles_read⟩
    have hforeign : ¬ g.Has h := by
      intro hold
      exact Nat.not_lt_zero _ (hs.own (hold.lt_size.1.trans hw.id))
    refine (Earlier.SameAt.refl h .none).alikeAt (planRound_unknown hforeign) ?_
    exact ⟨.of_throw _, fun _ => .of_throw _, fun _ => .of_throw _, .of_throw _⟩
  | cons node rest ih =>
    let past : Graph := ⟨id, schema, rest⟩
    change (past.push node).Within g at hw
    change ∀ n, _ → (past.push node).planner.Alike _ _ ((past.push node).Sees outside) _
    have hpast : past.Within g := (past.within_push node).trans hw
    intro n hn
    obtain ⟨m, rfl⟩ : ∃ m, n = m + 1 := ⟨n - 1, by omega⟩
    have hm : past.size < m := Nat.lt_of_succ_lt_succ hn
    have hold := ih hpast (m + 1) (Nat.lt_succ_of_lt hm)
    refine ⟨fun h hs => ?_, fun enclosed h _ r => (hg.of_within hw).handles_read⟩
    rcases hs.of_push with rfl | hseen
    · have hrelation : (g.push node).relationOf (.node past.nextHandle) =
          (past.push node).relationOf (.node past.nextHandle) :=
        (hw.trans (g.within_push node)).relationOfNode_eq
      rw [Function.iterate_succ_apply']
      refine (Within.refl (past.push node)).planner_sameAt.alikeAt (planRound_node hw.node_eq) ?_
      exact ofNode_alike (ih hpast m hm) (hg past node hw) (hg.agrees hpast)
        (fun _ _ => trivial) not_false trivial (hg.handles_readAt hw) fun _ => hrelation
    · exact ((past.within_push node).planner_of_sees hseen).alikeAt
        (.refl h (g.planRound^[m + 1] bottom)) (hold.node h hseen)

end Graph

/-! ### Queries -/

namespace Query

variable {q : Query}

/-- The plan of a query, given how nodes are planned. -/
def planBy (schema : Schema) (e : Earlier) (q : Query) : Plan Scan := do
  q.branches.forM fun h => discard (e.stage h)
  match q.root with
  | .relation id => scanReading schema .none (.ofBase (.relation id)) []
  | .node h => e.scan h []

/-- The text of a query, given how nodes are planned. -/
def compileBy (schema : Schema) (e : Earlier) (placeholder : Placeholder) (q : Query) :
    Except Error Rendered :=
  return (← (q.planBy schema e).statement).render placeholder

/-- This is how queries are compiled, with the plans of the nodes of their graph. -/
lemma compileBy_planner (g : Graph) (placeholder : Placeholder) (q : Query) :
    q.compileBy g.schema g.planner placeholder = q.compile g placeholder := rfl

lemma planBy_alike {kept free near : Handle → Prop} {e e' : Earlier}
    (he : e.Alike kept free near e') (hq : ∀ h ∈ q.handles, near h) (schema : Schema) :
    Plan.Alike kept free (q.planBy schema e) (q.planBy schema e') := by
  obtain ⟨graph, root, branches⟩ := q
  rw [handles, forall_mem_append] at hq
  refine .bind (.forM fun h hh => ?_) fun _ _ => ?_
  · exact .bind (he.node h (hq.2 h hh)).stage fun _ _ => .of_pure _
  · cases root with
    | relation id => exact scanBase_alike .none .none schema _ []
    | node h => exact (he.node h (hq.1 h (.head _))).scan []

/-- **Enough rounds compile a query.** -/
theorem compileBy_rounds (hg : g.Backward outside) (hq : ∀ h ∈ q.handles, g.Sees outside h) {n : ℕ}
    (hn : g.size < n) (bottom : Earlier) (placeholder : Placeholder) :
    q.compileBy g.schema (g.planRound^[n] bottom) placeholder = q.compile g placeholder := by
  have halike := planBy_alike (hg.planRounds bottom (.refl g) n hn) hq g.schema
  rw [← compileBy_planner, compileBy, compileBy,
    Plan.statement_eq (halike _ _ (PlanState.like_initial _ _))]

end Query

/-- **Graphs are acyclic and local.** Whatever was built on any graphs, by operations that
succeeded or failed:

* the handles in a node that are of its own graph are those of nodes before it;
* so the recursion that finds the relation of a source ends, and so does the one that compiles a
  query: more rounds than there are nodes give the result, whatever they start with;
* no statement is made for a query if a node of another graph has to be visited for it. -/
theorem graphs_are_acyclic_and_local {w : Workshop} (hw : w.Reached) :
    (∀ g ∈ w.space.graphs,
      (∀ (i : ℕ) (node : Node), g.node ⟨g.id, i⟩ = .ok node →
        ∀ h ∈ node.handles, h.graph = g.id → h.index < i) ∧
      ∀ n, g.size < n → ∀ bottom source,
        g.relationRound^[n] bottom source = g.relationOf source) ∧
    ∀ q ∈ w.queries, ∀ placeholder,
      (∀ n, (w.space.graph q.graph).size < n → ∀ bottom,
        q.compileBy (w.space.graph q.graph).schema ((w.space.graph q.graph).planRound^[n] bottom)
          placeholder = q.compile (w.space.graph q.graph) placeholder) ∧
      ∀ h ∈ q.handles, ∀ k, (w.space.graph q.graph).Visits true h k → k.graph ≠ q.graph →
        ∃ e, q.compile (w.space.graph q.graph) placeholder = .error e := by
  have htidy := hw.tidy
  refine ⟨fun g hmem => ?_, fun q hq placeholder => ?_⟩
  · obtain ⟨id, hid⟩ := mem_iff_getElem?.mp hmem
    have hg := htidy.space.backward id g hid
    refine ⟨fun i node hn h hh hown => hg.lt hn hh hown, fun n hn bottom source => ?_⟩
    obtain ⟨m, rfl⟩ : ∃ m, n = m + 1 := ⟨n - 1, by omega⟩
    refine hg.relationRounds bottom m source fun h _ hh => ?_
    exact Nat.lt_of_lt_of_le hh.lt_size.2 (Nat.le_of_lt_succ hn)
  · have hoffers := htidy.queries q hq
    have hid := Workspace.exists_graph hoffers.graph
    have hsees : ∀ h ∈ q.handles, (w.space.graph q.graph).Sees w.space.Holds h :=
      fun h hh => htidy.space.sees hid (hoffers.handles h hh)
    refine ⟨fun n hn bottom => Query.compileBy_rounds (htidy.space.backward _ _ hid) hsees hn
      bottom placeholder, fun h hh k hk hforeign => ?_⟩
    cases hcompile : q.compile (w.space.graph q.graph) placeholder with
    | error e => exact ⟨e, rfl⟩
    | ok r =>
        obtain ⟨s, hs, -⟩ := Except.bind_ok hcompile
        have hlocal := Query.local_of_toStatement hs h hh k hk
        rw [htidy.space.numbered _ _ hid] at hlocal
        exact (hforeign hlocal).elim

/-- A query that goes on to the titles of another bookshop cannot be compiled. -/
theorem bookshops_acyclic_and_local :
    (∀ h ∈ (Node.common [⟨0, 1⟩, ⟨1, 0⟩]).handles, h.graph = 0 → h.index < 2) ∧
      (bookshops.space.graph 0).Visits true ⟨0, 2⟩ ⟨1, 0⟩ ∧
      ∃ e, (⟨0, .node ⟨0, 2⟩, []⟩ : Query).compile (bookshops.space.graph 0) .numbered =
        .error e := by
  obtain ⟨hgraphs, hqueries⟩ := graphs_are_acyclic_and_local bookshops_reached
  have hnode : (bookshops.space.graph 0).node ⟨0, 2⟩ = .ok (.common [⟨0, 1⟩, ⟨1, 0⟩]) := rfl
  have hvisits : (bookshops.space.graph 0).Visits true ⟨0, 2⟩ ⟨1, 0⟩ :=
    .step hnode (by simp [Node.visits]) (.here true ⟨1, 0⟩)
  have hgraph : bookshops.space.graph 0 ∈ bookshops.space.graphs :=
    mem_of_getElem? (Workspace.exists_graph (by decide +kernel))
  have hquery : (⟨0, .node ⟨0, 2⟩, []⟩ : Query) ∈ bookshops.queries := mem_cons_self
  refine ⟨(hgraphs _ hgraph).1 2 _ hnode, hvisits, ?_⟩
  exact (hqueries _ hquery .numbered).2 ⟨0, 2⟩ (.head _) ⟨1, 0⟩ hvisits
    (by decide)

end StagedSql
