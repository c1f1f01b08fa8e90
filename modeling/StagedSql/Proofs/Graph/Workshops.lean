import Mathlib.Logic.Relation
import StagedSql.Graph.Workspace
import StagedSql.Proofs.Graph.Operations

/-!
Sequences of operations on several graphs.

The arguments of an operation may be queries and handles of other graphs. An operation that fails
makes no query, but the nodes that it has added stay.
-/

namespace StagedSql

open List Workspace

variable {s : Workspace} {id : Nat}

/-! ### Steps on several graphs -/

/-- Runs an operation on the graph that it works on. The handles of queries that are run in order
are taken on their own graphs. -/
def Operation.assemble (id : Nat) : Operation → Assemble Query
  | .common queries => Workspace.common id queries
  | op => within (op.place id) op.run

def Workspace.compileOf (q : Query) (placeholder : Placeholder) : Assemble Rendered :=
  within q.graph do
    let g ← get
    q.compile g placeholder

/-- Graphs with the queries and the handles that were made on them. -/
structure Workshop where
  space : Workspace
  queries : List Query
  handles : List Handle

namespace Workshop

def ofSchemas (schemas : List Schema) : Workshop := ⟨.ofSchemas schemas, [], []⟩

def run (w : Workshop) (id : Nat) (op : Operation) : Workshop :=
  match op.assemble id w.space with
  | (.ok q, space) => ⟨space, q :: w.queries, w.handles⟩
  | (.error _, space) => ⟨space, w.queries, w.handles⟩

def name (w : Workshop) (q : Query) : Workshop :=
  match handleOf q w.space with
  | (.ok h, space) => ⟨space, w.queries, h :: w.handles⟩
  | (.error _, space) => ⟨space, w.queries, w.handles⟩

def compile (w : Workshop) (q : Query) (placeholder : Placeholder) : Workshop :=
  { w with space := (compileOf q placeholder w.space).2 }

/-- The nodes that can be named: those whose handles were taken, and the roots and branches of
queries. -/
def Names (w : Workshop) (h : Handle) : Prop := h ∈ w.handles ∨ ∃ q ∈ w.queries, h ∈ q.handles

instance (w : Workshop) (h : Handle) : Decidable (w.Names h) :=
  inferInstanceAs (Decidable (_ ∨ _))

/-- An operation can be taken: it is on one of the graphs, starts from queries that were made
before, and its arguments name nodes that can be named. -/
def Allows (w : Workshop) (id : Nat) (op : Operation) : Prop :=
  id < w.space.graphs.length ∧ (∀ q ∈ op.queries, q ∈ w.queries) ∧ ∀ h ∈ op.handles, w.Names h

instance (w : Workshop) (id : Nat) (op : Operation) : Decidable (w.Allows id op) :=
  inferInstanceAs (Decidable (_ ∧ _))

/-- **One step**: an operation, which may fail, the handle of a query, or a compilation. -/
inductive Leads : Workshop → Workshop → Prop
  | run {w : Workshop} {id : Nat} {op : Operation} (ho : w.Allows id op) : Leads w (w.run id op)
  | name {w : Workshop} {q : Query} (hq : q ∈ w.queries) : Leads w (w.name q)
  | compile {w : Workshop} {q : Query} (placeholder : Placeholder) (hq : q ∈ w.queries) :
      Leads w (w.compile q placeholder)

/-- **What any sequence of steps leads to**, from any number of empty graphs. -/
def Reached (w : Workshop) : Prop :=
  ∃ schemas, Relation.ReflTransGen Leads (ofSchemas schemas) w

end Workshop

/-! ### Growing workspaces -/

namespace Workspace

variable {s' s'' : Workspace} {g : Graph} {h : Handle}

/-- All graphs have grown. -/
structure Within (s s' : Workspace) : Prop where
  length : s'.graphs.length = s.graphs.length
  graph : ∀ (id : Nat) (g : Graph), s.graphs[id]? = some g →
    ∃ g', s'.graphs[id]? = some g' ∧ g.Within g'

lemma Within.refl (s : Workspace) : s.Within s := ⟨rfl, fun _ g hg => ⟨g, hg, .refl g⟩⟩

lemma Within.trans (h : s.Within s') (h' : s'.Within s'') : s.Within s'' := by
  refine ⟨h'.length.trans h.length, fun id g hg => ?_⟩
  obtain ⟨g', hg', hw⟩ := h.graph id g hg
  obtain ⟨g'', hg'', hw'⟩ := h'.graph id g' hg'
  exact ⟨g'', hg'', hw.trans hw'⟩

lemma graph_eq (hg : s.graphs[id]? = some g) : s.graph id = g := by
  rw [graph, hg]
  rfl

lemma exists_graph (hid : id < s.graphs.length) : s.graphs[id]? = some (s.graph id) := by
  rw [graph, getElem?_eq_getElem hid]
  rfl

lemma within_set (hg : s.graphs[id]? = some g) {g' : Graph} (hw : g.Within g') :
    s.Within ⟨s.graphs.set id g'⟩ := by
  refine ⟨length_set, fun j old hold => ?_⟩
  by_cases hj : id = j
  · grind
  · exact ⟨old, by rw [getElem?_set_ne hj, hold], .refl old⟩

/-- The node of a handle is there in one of the graphs. -/
def Holds (s : Workspace) (h : Handle) : Prop :=
  ∃ g, s.graphs[h.graph]? = some g ∧ h.index < g.size

lemma Holds.mono (hh : s.Holds h) (hw : s.Within s') : s'.Holds h := by
  obtain ⟨g, hg, hlt⟩ := hh
  obtain ⟨g', hg', hgrown⟩ := hw.graph _ g hg
  exact ⟨g', hg', hlt.trans_le hgrown.size_le⟩

/-- **Every node looks backward**, and what it refers to is there. -/
structure Tidy (s : Workspace) : Prop where
  numbered : ∀ (id : Nat) (g : Graph), s.graphs[id]? = some g → g.id = id
  backward : ∀ (id : Nat) (g : Graph), s.graphs[id]? = some g → g.Backward s.Holds

lemma Tidy.sees (hs : s.Tidy) (hg : s.graphs[id]? = some g) (hh : s.Holds h) :
    g.Sees s.Holds h := by
  refine ⟨fun hid => ?_, fun _ => hh⟩
  obtain ⟨found, hfound, hlt⟩ := hh
  rw [hid, hs.numbered id g hg, hg] at hfound
  cases hfound
  exact hlt

/-- **A query of one of the graphs** that names nodes which are there. -/
structure Offers (s : Workspace) (q : Query) : Prop where
  graph : q.graph < s.graphs.length
  handles : ∀ h ∈ q.handles, s.Holds h

lemma Offers.mono {q : Query} (hq : s.Offers q) (hw : s.Within s') : s'.Offers q :=
  ⟨by rw [hw.length]; exact hq.graph, fun h hh => (hq.handles h hh).mono hw⟩

lemma tidy_ofSchemas (schemas : List Schema) : (ofSchemas schemas).Tidy := by
  have hempty : ∀ (id : Nat) (g : Graph), (ofSchemas schemas).graphs[id]? = some g →
      ∃ schema, g = Graph.empty id schema := by
    intro id g hg
    simp only [ofSchemas, getElem?_map, getElem?_zipIdx, Option.map_map, Option.map_eq_some_iff,
      Nat.zero_add] at hg
    obtain ⟨schema, -, rfl⟩ := hg
    exact ⟨schema, rfl⟩
  refine ⟨fun id g hg => ?_, fun id g hg => ?_⟩
  · obtain ⟨schema, rfl⟩ := hempty id g hg
    rfl
  · obtain ⟨schema, rfl⟩ := hempty id g hg
    exact Graph.backward_empty id schema

end Workspace

/-! ### What a step keeps -/

namespace Assemble

variable {α β : Type} {x : Assemble α} {post : α → Workspace → Prop}

/-- **The step only adds nodes that look backward**, even if it fails. If it succeeds, its result is
as stated. -/
def Keeps (x : Assemble α) (s : Workspace) (post : α → Workspace → Prop) : Prop :=
  s.Tidy → ∀ result s', x s = (result, s') → s.Within s' ∧ s'.Tidy ∧ ∀ a, result = .ok a → post a s'

lemma Keeps.mono {post' : α → Workspace → Prop} (h : Keeps x s post)
    (hp : ∀ a s', post a s' → post' a s') : Keeps x s post' := by
  intro hs result s' hrun
  obtain ⟨hw, hs', hpost⟩ := h hs result s' hrun
  exact ⟨hw, hs', fun a ha => hp a s' (hpost a ha)⟩

lemma Keeps.of_pure {a : α} (h : post a s) : Keeps (pure a) s post := by
  rintro hs _ _ ⟨⟩
  exact ⟨.refl s, hs, by rintro _ ⟨⟩; exact h⟩

lemma Keeps.bind {f : α → Assemble β} {mid : α → Workspace → Prop} {post : β → Workspace → Prop}
    (hx : Keeps x s mid)
    (hf : ∀ a s', s.Within s' → mid a s' → Keeps (f a) s' post) : Keeps (x >>= f) s post := by
  intro hs result s'' hrun
  change (ExceptT.bindCont f (x s).1) (x s).2 = _ at hrun
  rcases hfirst : x s with ⟨first, s'⟩
  obtain ⟨hw, hs', hmid⟩ := hx hs first s' hfirst
  rw [hfirst] at hrun
  cases first with
  | error e =>
    cases hrun
    exact ⟨hw, hs', by simp⟩
  | ok a =>
    obtain ⟨hw', hs'', hpost⟩ := hf a s' hw (hmid a rfl) hs' result s'' hrun
    exact ⟨hw.trans hw', hs'', hpost⟩

lemma Keeps.within {act : Build α} {post : α → Graph → Prop} (hid : id < s.graphs.length)
    (h : s.Tidy → Build.Keeps (Graph.Backward s.Holds) act (s.graph id) post) :
    Keeps (within id act) s fun a s' =>
      ∃ g', s'.graphs[id]? = some g' ∧ post a g' ∧ ∀ h, g'.Sees s.Holds h → s'.Holds h := by
  intro hs result s' hrun
  have hg := exists_graph hid
  rcases hact : act (s.graph id) with ⟨result', g'⟩
  obtain ⟨hw, hback, hpost⟩ := h hs (hs.backward id _ hg) result' g' hact
  have hset : Workspace.within id act s = (result', ⟨s.graphs.set id g'⟩) := by
    rw [Workspace.within, hact]
  rw [hset] at hrun
  cases hrun
  have hspace := within_set hg hw
  have hnew : (s.graphs.set id g')[id]? = some g' := getElem?_set_self hid
  have hnumber : g'.id = id := hw.id.trans (hs.numbered id _ hg)
  have hholds : ∀ h, g'.Sees s.Holds h → Workspace.Holds ⟨s.graphs.set id g'⟩ h := by
    intro h hsees
    by_cases hown : h.graph = g'.id
    · refine ⟨g', ?_, hsees.own hown⟩
      rwa [hown, hnumber]
    · exact (hsees.foreign hown).mono hspace
  refine ⟨hspace, ⟨fun j found hfound => ?_, fun j found hfound => ?_⟩, fun a ha => ?_⟩
  · by_cases hj : id = j
    · subst hj
      cases hnew.symm.trans hfound
      exact hnumber
    · exact hs.numbered j found ((getElem?_set_ne hj).symm.trans hfound)
  · by_cases hj : id = j
    · subst hj
      cases hnew.symm.trans hfound
      exact hback.imp fun h hh => hh.mono hspace
    · have hold := (getElem?_set_ne hj).symm.trans hfound
      exact (hs.backward j found hold).imp fun h hh => hh.mono hspace
  · exact ⟨g', hnew, hpost a ha, hholds⟩

lemma handleOf_keeps {q : Query} (hq : s.Offers q) :
    Keeps (handleOf q) s fun h s' => s'.Holds h := by
  have hseen : s.Tidy → Build.Keeps (Graph.Backward s.Holds) q.handle (s.graph q.graph)
      fun h g' => g'.Sees s.Holds h :=
    fun hs => handle_keeps Graph.Backward.stepRules (Query.named_iff_sees.mpr fun h hh =>
      hs.sees (exists_graph hq.graph) (hq.handles h hh))
  refine (Keeps.within hq.graph hseen).mono fun h s' hresult => ?_
  tauto

lemma handlesOf_keeps : ∀ {queries : List Query} {s : Workspace}, (∀ q ∈ queries, s.Offers q) →
    Keeps (queries.mapM handleOf) s fun handles s' => ∀ h ∈ handles, s'.Holds h
  | [], _, _ => .of_pure (by simp)
  | q :: rest, s, hq => by
    rw [mapM_cons]
    refine (handleOf_keeps (hq q (by simp))).bind fun h s1 hw1 hh => ?_
    refine (handlesOf_keeps fun q' hmem => (hq q' (by simp [hmem])).mono hw1).bind
      fun more s2 hw2 hmore => .of_pure ?_
    exact forall_mem_cons.mpr ⟨hh.mono hw2, hmore⟩

lemma Keeps.offers {act : Build Query} (hid : id < s.graphs.length)
    (h : s.Tidy → Build.Keeps (Graph.Backward s.Holds) act (s.graph id) fun q' g' =>
      q'.graph = id ∧ q'.Named (fun _ => True) (g'.Sees s.Holds)) :
    Keeps (Workspace.within id act) s fun q' s' => s'.Offers q' := by
  refine (Keeps.within hid h).mono fun q' s' hresult => ?_
  obtain ⟨g', hg', ⟨hgraph, hnamed⟩, hholds⟩ := hresult
  obtain ⟨hlt, -⟩ := List.getElem?_eq_some_iff.mp hg'
  exact ⟨by rwa [hgraph], fun h hh => hholds h (Query.named_iff_sees.mp hnamed h hh)⟩

lemma common_keeps {queries : List Query} (hid : id < s.graphs.length)
    (hq : ∀ q ∈ queries, s.Offers q) :
    Keeps (common id queries) s fun q' s' => s'.Offers q' := by
  refine (handlesOf_keeps hq).bind fun handles s' hw hh => ?_
  have hid' : id < s'.graphs.length := by rwa [hw.length]
  refine Keeps.offers hid' fun hs => ?_
  have hg := exists_graph hid'
  have hmade := commonOf_keeps Graph.Backward.stepRules fun h hmem => hs.sees hg (hh h hmem)
  rwa [hs.numbered id _ hg] at hmade

/-- **An operation** on one of the graphs. -/
lemma operation_keeps {op : Operation} (hid : id < s.graphs.length)
    (hq : ∀ q ∈ op.queries, s.Offers q) (hh : ∀ h ∈ op.handles, s.Holds h) :
    Keeps (op.assemble id) s fun q' s' => s'.Offers q' := by
  -- the graph that the operation works on is one of them
  have hplace : op.place id < s.graphs.length := by
    cases op with
    | table | values | common => exact hid
    | select q | filter q | orderBy q | limit q | offset q | insert q | update q | delete q
    | branch q => exact (hq q (by simp [Operation.queries])).graph
  have hother : Keeps (within (op.place id) op.run) s fun q' s' => s'.Offers q' := by
    refine Keeps.offers hplace fun hs => ?_
    have hg := exists_graph hplace
    have hmade := Operation.run_keeps Graph.Backward.stepRules
      (fun q hmem => Query.named_iff_sees.mpr fun h hh => hs.sees hg ((hq q hmem).handles h hh))
      fun h hmem => hs.sees hg (hh h hmem)
    have hnumber : op.place (s.graph (op.place id)).id = op.place id := by
      rw [hs.numbered _ _ hg]
      cases op <;> rfl
    rwa [hnumber] at hmade
  cases op with
  | common queries => exact common_keeps hid hq
  | _ => exact hother

end Assemble

lemma Workspace.set_graph (s : Workspace) (id : Nat) :
    (⟨s.graphs.set id (s.graph id)⟩ : Workspace) = s := by
  by_cases hlt : id < s.graphs.length
  · have hsame : s.graphs.set id (s.graph id) = s.graphs := by
      refine ext_getElem? fun j => ?_
      by_cases hj : id = j
      · subst hj
        rw [getElem?_set_self hlt, exists_graph hlt]
      · rw [getElem?_set_ne hj]
    rw [hsame]
  · rw [set_eq_of_length_le (Nat.not_lt.mp hlt)]

/-- **Compiling changes no graph.** -/
lemma Workspace.compileOf_space (q : Query) (placeholder : Placeholder) (s : Workspace) :
    (compileOf q placeholder s).2 = s :=
  s.set_graph q.graph

/-! ### Sequences -/

namespace Workshop

variable {w w' : Workshop}

/-- **A workshop with tidy graphs**, whose queries and handles are on them. -/
structure Tidy (w : Workshop) : Prop where
  space : w.space.Tidy
  queries : ∀ q ∈ w.queries, w.space.Offers q
  handles : ∀ h ∈ w.handles, w.space.Holds h

lemma Tidy.holds_of_names (hw : w.Tidy) {h : Handle} (hn : w.Names h) : w.space.Holds h := by
  rcases hn with hn | ⟨q, hq, hn⟩
  · exact hw.handles h hn
  · exact (hw.queries q hq).handles h hn

lemma Tidy.grow (hw : w.Tidy) {space : Workspace} (hs : w.space.Within space)
    (ht : space.Tidy) : Tidy ⟨space, w.queries, w.handles⟩ :=
  ⟨ht, fun q hq => (hw.queries q hq).mono hs, fun h hh => (hw.handles h hh).mono hs⟩

/-- What one workshop leads to another by: tidy graphs that have grown, with all queries. -/
structure Grown (w w' : Workshop) : Prop where
  tidy : w'.Tidy
  space : w.space.Within w'.space
  queries : ∀ q ∈ w.queries, q ∈ w'.queries

lemma Tidy.run (hw : w.Tidy) {id : Nat} {op : Operation} (ho : w.Allows id op) :
    w.Grown (w.run id op) := by
  have hkeeps := Assemble.operation_keeps ho.1 (fun q hq => hw.queries q (ho.2.1 q hq))
    fun h hh => hw.holds_of_names (ho.2.2 h hh)
  rcases hrun : op.assemble id w.space with ⟨result, space⟩
  obtain ⟨hs, ht, hmade⟩ := hkeeps hw.space result space hrun
  have hold := hw.grow hs ht
  rw [Workshop.run, hrun]
  cases result with
  | error e => exact ⟨hold, hs, fun q hq => hq⟩
  | ok q =>
    refine ⟨⟨ht, ?_, hold.handles⟩, hs, fun q hq => .tail _ hq⟩
    exact forall_mem_cons.mpr ⟨hmade q rfl, hold.queries⟩

lemma Tidy.name (hw : w.Tidy) {q : Query} (hq : q ∈ w.queries) : w.Grown (w.name q) := by
  rcases hrun : handleOf q w.space with ⟨result, space⟩
  obtain ⟨hs, ht, hmade⟩ :=
    Assemble.handleOf_keeps (hw.queries q hq) hw.space result space hrun
  have hold := hw.grow hs ht
  rw [Workshop.name, hrun]
  cases result with
  | error e => exact ⟨hold, hs, fun q hq => hq⟩
  | ok h =>
    refine ⟨⟨ht, hold.queries, ?_⟩, hs, fun q hq => hq⟩
    exact forall_mem_cons.mpr ⟨hmade h rfl, hold.handles⟩

lemma Tidy.leads (hw : w.Tidy) (h : w.Leads w') : w.Grown w' := by
  cases h with
  | run ho => exact hw.run ho
  | name hq => exact hw.name hq
  | compile placeholder hq =>
    rw [compile, compileOf_space]
    exact ⟨hw, .refl w.space, fun q hq => hq⟩

/-- **Any sequence of steps**, by induction on it: graphs only grow, and stay tidy. -/
theorem Tidy.grown (hw : w.Tidy) (h : Relation.ReflTransGen Leads w w') : w.Grown w' := by
  induction h with
  | refl => exact ⟨hw, .refl w.space, fun q hq => hq⟩
  | tail _ hstep ih =>
    have hnext := ih.tidy.leads hstep
    exact ⟨hnext.tidy, ih.space.trans hnext.space, fun q hq => hnext.queries q (ih.queries q hq)⟩

/-- Whatever the steps, every node looks backward. -/
theorem Reached.tidy (h : w.Reached) : w.Tidy := by
  obtain ⟨schemas, hsteps⟩ := h
  have hstart : (ofSchemas schemas).Tidy :=
    ⟨tidy_ofSchemas schemas, by simp [ofSchemas], by simp [ofSchemas]⟩
  exact (hstart.grown hsteps).tidy

end Workshop

/-! ### Two bookshops -/

/-- On the graph of one bookshop, the authors with names of a list. On that of another one, the
titles of its books. Then the titles of the other bookshop are asked of the first one, after these
authors. -/
def bookshops : Workshop :=
  [(0, .table "author"), (0, .values ["name"] [[.text "first"], [.text "second"]]),
    (0, .filter ⟨0, .relation ⟨0, 0⟩, []⟩ (.lookup "name__in" (.query ⟨0, 0⟩))),
    (1, .table "book"),
    (1, .select ⟨1, .relation ⟨1, 1⟩, []⟩ (.ofFields ["title"])),
    (0, .common [⟨0, .node ⟨0, 1⟩, []⟩, ⟨1, .node ⟨1, 0⟩, []⟩])].foldl
      (fun w (step : Nat × Operation) => w.run step.1 step.2)
      (.ofSchemas [bookshopSchema, ⟨1, bookshopSchema.relations⟩])

lemma bookshops_queries : bookshops.queries =
    [⟨0, .node ⟨0, 2⟩, []⟩, ⟨1, .node ⟨1, 0⟩, []⟩, ⟨1, .relation ⟨1, 1⟩, []⟩,
      ⟨0, .node ⟨0, 1⟩, []⟩, ⟨0, .node ⟨0, 0⟩, []⟩, ⟨0, .relation ⟨0, 0⟩, []⟩] := rfl

lemma bookshops_reached : bookshops.Reached := by
  refine ⟨[bookshopSchema, ⟨1, bookshopSchema.relations⟩], ?_⟩
  rw [bookshops]
  simp only [foldl_cons]
  refine .tail (.tail (.tail (.tail (.tail (.tail .refl (.run ?_)) (.run ?_)) (.run ?_))
    (.run ?_)) (.run ?_)) (.run ?_) <;> decide +kernel

/-- **A node that stands for the root of a query** of the graph `first`: the root itself, or a
select of a relation that was added for it. -/
inductive Source.StandIn (first g : Graph) : Source → Handle → Prop
  | node (h : Handle) : Source.StandIn first g (.node h) h
  | select {past : Graph} {id : RelationId} (hpast : first.Within past)
      (hnode : (past.push (.select (.ofSource (.relation id) .empty))).Within g) :
      Source.StandIn first g (.relation id) past.nextHandle

/-- **A node that stands for a query** of the graph `first`: one that stands for its root, or one
that was added to run its branches before it. -/
inductive Query.StandIn (first g : Graph) (q : Query) : Handle → Prop
  | root {h : Handle} (hbranches : q.branches = []) (hroot : q.root.StandIn first g h) :
      StandIn first g q h
  | common {past : Graph} {root : Handle} (hpast : first.Within past)
      (hroot : q.root.StandIn first past root)
      (hnode : (past.push (.common (q.branches ++ [root]))).Within g) :
      StandIn first g q past.nextHandle

/-- Nodes that stand for queries, found one after the other. -/
inductive Query.StandIns : Graph → Graph → List Query → List Handle → Prop
  | nil (g : Graph) : StandIns g g [] []
  | cons {first mid g : Graph} {q : Query} {h : Handle} {rest : List Query} {handles : List Handle}
      (hmid : first.Within mid) (hq : q.StandIn first mid h)
      (hrest : StandIns mid g rest handles) :
      StandIns first g (q :: rest) (h :: handles)

namespace Query

variable {first g : Graph} {handles : List Handle}

lemma StandIns.within {queries : List Query}
    (h : StandIns first g queries handles) : first.Within g := by
  induction h with
  | nil g => exact .refl g
  | cons hmid _ _ ih => exact hmid.trans ih

lemma StandIns.exists_cons {q : Query} {rest : List Query}
    (h : StandIns first g (q :: rest) handles) : ∃ k more, handles = k :: more := by
  cases h
  exact ⟨_, _, rfl⟩

/-- **A node that stands for a query is always found.** -/
lemma handle_run (q : Query) (g : Graph) :
    ∃ h g', q.handle g = (.ok h, g') ∧ g.Within g' ∧ q.StandIn g g' h := by
  obtain ⟨graph, root, branches⟩ := q
  have hroot : ∃ r g1, handle ⟨graph, root, []⟩ g = (.ok r, g1) ∧ g.Within g1 ∧
      root.StandIn g g1 r := by
    cases root with
    | node h => exact ⟨h, g, rfl, .refl g, .node h⟩
    | relation id => exact ⟨_, _, rfl, g.within_push _, .select (.refl g) (.refl _)⟩
  obtain ⟨r, g1, hrun, hw, hstand⟩ := hroot
  cases branches with
  | nil => exact ⟨r, g1, hrun, hw, .root rfl hstand⟩
  | cons b rest =>
    refine ⟨g1.nextHandle, g1.push (.common (b :: rest ++ [r])), ?_,
      hw.trans (g1.within_push _), .common hw hstand (.refl _)⟩
    cases root with
    | node h =>
      cases hrun
      rfl
    | relation id =>
      cases hrun
      rfl

/-! ### Branches -/

/-- Branches may be taken from the last one on. -/
lemma branch_assoc (q p r : Query) : (q.branch p).branch r = q.branch (p.branch r) := by
  simp [branch]

/-- **The first of several branches** is run before what the others make. -/
lemma foldl_branch_cons (q p : Query) (rest : List Query) :
    (p :: rest).foldl branch q = q.branch (rest.foldl branch p) := by
  induction rest generalizing p with
  | nil => rfl
  | cons r rest ih =>
    calc (p :: r :: rest).foldl branch q
      _ = (p.branch r :: rest).foldl branch q := by
          rw [foldl_cons, foldl_cons, foldl_cons, branch_assoc]
      _ = q.branch (rest.foldl branch (p.branch r)) := ih (p.branch r)

lemma foldl_branch_graph (q : Query) (rest : List Query) :
    (rest.foldl branch q).graph = q.graph := by
  cases rest with
  | nil => rfl
  | cons p rest =>
    rw [foldl_branch_cons]
    rfl

end Query

/-! ### Queries in order -/

lemma Assemble.bind_run {α β : Type} {x : Assemble α} {f : α → Assemble β} {s s' : Workspace}
    {a : α} (h : x s = (.ok a, s')) : (x >>= f) s = f a s' := by
  change (ExceptT.bindCont f (x s).1) (x s).2 = _
  rw [h]
  rfl

namespace Workspace

variable {s : Workspace} {id : Nat} {queries : List Query}

lemma graph_set (hid : id < s.graphs.length) (g : Graph) :
    (⟨s.graphs.set id g⟩ : Workspace).graph id = g :=
  graph_eq (getElem?_set_self hid)

lemma handleOf_run (q : Query) (s : Workspace) :
    ∃ h g', handleOf q s = (.ok h, ⟨s.graphs.set q.graph g'⟩) ∧
      (s.graph q.graph).Within g' ∧ q.StandIn (s.graph q.graph) g' h := by
  obtain ⟨h, g', hrun, hw, hstand⟩ := q.handle_run (s.graph q.graph)
  refine ⟨h, g', ?_, hw, hstand⟩
  rw [handleOf, within, hrun]

/-- Nodes that stand for queries of one graph, by induction on the queries. -/
lemma handlesOf_run (hid : id < s.graphs.length) (hq : ∀ q ∈ queries, q.graph = id) : ∃ handles g',
      (queries.mapM handleOf) s = (.ok handles, ⟨s.graphs.set id g'⟩) ∧
        Query.StandIns (s.graph id) g' queries handles := by
  induction queries generalizing s with
  | nil =>
    refine ⟨[], s.graph id, ?_, .nil _⟩
    rw [set_graph]
    rfl
  | cons q rest ih =>
    obtain ⟨hgraph, hrest⟩ := forall_mem_cons.mp hq
    obtain ⟨h, g1, hrun, hw, hstand⟩ := handleOf_run q s
    rw [hgraph] at hrun hw hstand
    have hid' : id < (⟨s.graphs.set id g1⟩ : Workspace).graphs.length := by
      rwa [length_set]
    obtain ⟨handles, g', hmore, hstands⟩ := ih hid' hrest
    rw [graph_set hid] at hstands
    rw [set_set] at hmore
    refine ⟨h :: handles, g', ?_, .cons hw hstand hstands⟩
    rw [mapM_cons, Assemble.bind_run hrun, Assemble.bind_run hmore]
    rfl

/-- **Queries of one graph are always run in order**, by a node that is added for them. -/
lemma common_run (hid : id < s.graphs.length) (hq : ∀ q ∈ queries, q.graph = id)
    (hne : queries ≠ []) : ∃ handles g',
      common id queries s = (.ok ⟨g'.id, .node g'.nextHandle, []⟩,
        ⟨s.graphs.set id (g'.push (.common handles))⟩) ∧
        Query.StandIns (s.graph id) g' queries handles := by
  obtain ⟨handles, g', hrun, hstands⟩ := handlesOf_run hid hq
  refine ⟨handles, g', ?_, hstands⟩
  have hcommon : Query.commonOf handles g' =
      (.ok ⟨g'.id, .node g'.nextHandle, []⟩, g'.push (.common handles)) := by
    cases hstands with
    | nil => exact (hne rfl).elim
    | cons => rfl
  rw [common, Assemble.bind_run hrun, within, graph_set hid, hcommon]
  dsimp only
  rw [set_set]

end Workspace

end StagedSql
