import StagedSql.Proofs.Graph.SoundSteps

/-!
Sequences of operations.

Queries are built on one graph by operations one after the other. Each takes queries that were made
before. An operation that fails makes no query, but the nodes that it has added stay.
-/

namespace StagedSql

open List

/-! ### Operations -/

/-- An operation that makes a query of others. -/
inductive Operation where
  | table (name : String)
  | values (columns : List String) (rows : List (List Value))
  | common (queries : List Query)
  | select (q : Query) (selection : Selection)
  | filter (q : Query) (condition : Condition)
  | orderBy (q : Query) (spec : String)
  | limit (q : Query) (n : UInt64)
  | offset (q : Query) (n : UInt64)
  | insert (q : Query) (changes : Changes)
  | update (q : Query) (changes : Changes)
  | delete (q : Query)
  | branch (q other : Query)

namespace Operation

def run : Operation → Build Query
  | .table name => Query.ofTable name
  | .values columns rows => Query.ofValues columns rows
  | .common queries => Query.common queries
  | .select q selection => q.select selection
  | .filter q condition => q.filter condition
  | .orderBy q spec => q.orderBy spec
  | .limit q n => q.limit n
  | .offset q n => q.offset n
  | .insert q changes => q.insert changes
  | .update q changes => q.update changes
  | .delete q => q.delete
  | .branch q other => pure (q.branch other)

def queries : Operation → List Query
  | .table _ | .values _ _ => []
  | .common queries => queries
  | .select q _ | .filter q _ | .orderBy q _ | .limit q _ | .offset q _ | .insert q _
  | .update q _ | .delete q => [q]
  | .branch q other => [q, other]

def handles : Operation → List Handle
  | .select _ selection => selection.handles
  | .filter _ condition => condition.handles
  | .insert _ changes | .update _ changes => changes.handles
  | _ => []

/-- The graph that an operation works on: that of the query it starts from, and otherwise a given
one. -/
def place (id : Nat) : Operation → Nat
  | .table _ | .values _ _ | .common _ => id
  | .select q _ | .filter q _ | .orderBy q _ | .limit q _ | .offset q _ | .insert q _
  | .update q _ | .delete q | .branch q _ => q.graph

/-- **An operation keeps an invariant of graphs**, and makes a query of what may be named. -/
theorem run_keeps {inv : Graph → Prop} {rel : Graph → RelationId → Prop}
    {ok back : Graph → Handle → Prop} {fit : Graph → Node → Prop} {g : Graph}
    (rules : Graph.StepRules inv rel ok back fit) : ∀ {op : Operation},
    (∀ q ∈ op.queries, q.Named (rel g) (ok g)) → (∀ h ∈ op.handles, ok g h) →
      Build.Keeps inv op.run g fun q' g' =>
        q'.graph = op.place g.id ∧ q'.Named (rel g') (ok g')
  | .table name, _, _ => by
    refine .get_bind (.lift_bind fun id hid => .of_pure ⟨rfl, ?_, by simp⟩)
    obtain ⟨r, -, hr⟩ := Schema.get?_of_resolve hid
    exact rules.relation hr
  | .values columns rows, _, _ => by
    change Build.Keeps inv (Query.ofValues columns rows) g _
    rw [Query.ofValues]
    dsimp only
    split
    · exact .throw_bind
    · rename_i hcolumns
      split
      · exact .throw_bind
      · rename_i hrows
        split
        · exact .of_throw
        · rename_i hlengths
          refine ofNode_keeps fun hg =>
            rules.values hg (by simpa using hcolumns) (by simpa using hrows) fun row hrow => ?_
          rw [← zipIdx_map_fst 0 rows] at hrow
          grind
  | .common queries, hq, _ => by
    refine (handles_keeps rules hq).bind fun handles g' hw hh => ?_
    rw [← hw.id]
    exact commonOf_keeps rules hh
  | .select q selection, hq, hh => by
    refine selectNode_keeps rules (hq q mem_cons_self) fun s hs => ?_
    refine .get_bind (.lift_bind fun id? hid => ?_)
    -- the relation of the rows is known, and the selection fits it
    have hlast : (∀ id r, g.relationOf s.source = .ok (some id) →
        g.schema.relation id = .ok r → selection.Fits g.schema r) →
        Build.Keeps inv (q.withNode (.select { s with selection })) g fun q' g' =>
          q'.graph = q.graph ∧ q'.Named (rel g') (ok g') :=
      fun hfits => withNode_keeps rules (hq q mem_cons_self) fun hg => rules.select hg hs hh hfits
    rw [hid] at hlast
    cases id? with
    | none => exact hlast (by simp)
    | some id =>
      refine .lift_bind fun _ hcheck => hlast ?_
      rintro _ r ⟨⟩ hr
      exact checkSelection_fits selection hr hcheck
  | .filter q condition, hq, hh => by
    have hnamed := hq q mem_cons_self
    refine (Build.Keeps.checkNodes condition.handles).bind ?_
    rintro _ g' - ⟨rfl, -⟩
    refine .of_inv fun hg => (Build.Keeps.rootNode? q).bind ?_
    rintro node? g'' - ⟨rfl, hnode⟩
    split
    · obtain ⟨h, -, hn⟩ := (hnode _).mp rfl
      exact withNode_keeps rules hnamed fun hg => rules.updateBy hg (rules.fit_of_node hg hn) hh
    · obtain ⟨h, -, hn⟩ := (hnode _).mp rfl
      exact withNode_keeps rules hnamed fun hg => rules.deleteBy hg (rules.fit_of_node hg hn) hh
    · exact withNode_keeps rules hnamed fun hg => rules.filter hg hnamed.root hh
  | .orderBy q spec, hq, _ => by
    refine selectNode_keeps rules (hq q mem_cons_self) fun s hs => ?_
    refine .get_bind (.lift_bind fun id? hid => ?_)
    -- the relation of the rows is known, and the column is stored
    have hlast : (∀ id r, g.relationOf s.source = .ok (some id) →
        g.schema.relation id = .ok r → (SortKey.parse spec).column ∈ r.storedNames) →
        Build.Keeps inv (q.withNode (.select
          { s with ordering := s.ordering ++ [SortKey.parse spec] })) g fun q' g' =>
            q'.graph = q.graph ∧ q'.Named (rel g') (ok g') :=
      fun hkey => withNode_keeps rules (hq q mem_cons_self) fun hg => rules.order hg hs hkey
    rw [hid] at hlast
    cases id? with
    | none => exact hlast (by simp)
    | some id =>
      refine .lift_bind fun r hr => .lift_bind fun c hc => ?_
      split
      · exact .throw_bind
      · rename_i hstored
        refine hlast ?_
        rintro _ _ ⟨⟩ hr'
        cases hr.symm.trans hr'
        exact Relation.mem_storedNames (Relation.column_eq_ok.mp hc) (by simpa using hstored)
  | .limit q n, hq, _ =>
    selectNode_keeps rules (hq q mem_cons_self) fun s hs =>
      withNode_keeps rules (hq q mem_cons_self) fun hg => rules.page (some n) s.offset hg hs
  | .offset q n, hq, _ =>
    selectNode_keeps rules (hq q mem_cons_self) fun s hs =>
      withNode_keeps rules (hq q mem_cons_self) fun hg => rules.page s.limit (some n) hg hs
  | .insert q changes, hq, hh => by
    have hnamed := hq q mem_cons_self
    obtain ⟨graph, root, branches⟩ := q
    cases root with
    | node h => exact .bind (.get_bind (.of_pure trivial)) fun _ _ _ (_ : True) => .of_throw
    | relation id =>
      refine (payloadOf_keeps rules.toPayloadRules id .insert hh).bind fun result g' hw hmade => ?_
      have hnamed' := hnamed.mono rules hw
      exact withNode_keeps rules hnamed' fun hg => rules.insertInto hg hnamed'.root hmade
  | .update q changes, hq, hh => by
    have hnamed := hq q mem_cons_self
    refine (mutationTarget_keeps rules hnamed).bind ?_
    rintro ⟨id, condition⟩ g' - ⟨rfl, hr, hcondition⟩
    refine (payloadOf_keeps rules.toPayloadRules id .update hh).bind fun result g'' hw hmade => ?_
    exact withNode_keeps rules (hnamed.mono rules hw) fun hg =>
      rules.update hg (rules.rel_mono hr hw) hmade fun h hmem =>
        rules.ok_mono (hcondition h hmem) hw
  | .delete q, hq, _ => by
    have hnamed := hq q mem_cons_self
    refine (mutationTarget_keeps rules hnamed).bind ?_
    rintro ⟨id, condition⟩ g' - ⟨rfl, hr, hcondition⟩
    exact withNode_keeps rules hnamed fun hg => rules.delete hg hr hcondition
  | .branch q other, hq, _ => by
    have hnamed := hq q mem_cons_self
    have hother := hq other (by simp [queries])
    refine .of_pure ⟨rfl, hother.root, ?_⟩
    rw [Query.branch, forall_mem_append, forall_mem_append]
    exact ⟨⟨hnamed.branches, hnamed.root.handles⟩, hother.branches⟩

end Operation

/-! ### Sequences -/

/-- A graph with the queries and the handles that were made on it. -/
structure Workbench where
  graph : Graph
  queries : List Query
  handles : List Handle

namespace Workbench

def run (w : Workbench) (op : Operation) : Workbench :=
  match op.run w.graph with
  | (.ok q, g) => ⟨g, q :: w.queries, w.handles⟩
  | (.error _, g) => ⟨g, w.queries, w.handles⟩

def name (w : Workbench) (q : Query) : Workbench :=
  match q.handle w.graph with
  | (.ok h, g) => ⟨g, w.queries, h :: w.handles⟩
  | (.error _, g) => ⟨g, w.queries, w.handles⟩

/-- The nodes that can be named: those whose handles were taken, and the roots and branches of
queries. -/
def Names (w : Workbench) (h : Handle) : Prop :=
  h ∈ w.handles ∨ ∃ q ∈ w.queries, h ∈ q.root.handles ++ q.branches

instance (w : Workbench) (h : Handle) : Decidable (w.Names h) :=
  inferInstanceAs (Decidable (_ ∨ _))

/-- An operation can be taken: it starts from queries that were made before, and its arguments name
nodes that can be named. -/
def Allows (w : Workbench) (op : Operation) : Prop :=
  (∀ q ∈ op.queries, q ∈ w.queries) ∧ ∀ h ∈ op.handles, w.Names h

instance (w : Workbench) (op : Operation) : Decidable (w.Allows op) :=
  inferInstanceAs (Decidable (_ ∧ _))

/-- **What any sequence of operations on one graph leads to.** -/
inductive Reached (schema : Schema) : Workbench → Prop
  | start (id : Nat) : Reached schema ⟨Graph.empty id schema, [], []⟩
  | run {w : Workbench} {op : Operation} (hw : Reached schema w) (ho : w.Allows op) :
      Reached schema (w.run op)
  | name {w : Workbench} {q : Query} (hw : Reached schema w) (hq : q ∈ w.queries) :
      Reached schema (w.name q)

/-- **A workbench with a sound graph**, on which all queries are. -/
structure Sound (w : Workbench) : Prop where
  graph : w.graph.Sound
  queries : ∀ q ∈ w.queries, q.On w.graph
  handles : ∀ h ∈ w.handles, w.graph.Open h

variable {w : Workbench}

lemma Sound.open_of_names (hs : w.Sound) {h : Handle} (hn : w.Names h) : w.graph.Open h := by
  rcases hn with hn | ⟨q, hq, hn⟩
  · exact hs.handles h hn
  · have hon := hs.queries q hq
    exact forall_mem_append.mpr ⟨(Source.named_iff.mpr hon.root).handles, hon.branches⟩ h hn

lemma Sound.grow (hs : w.Sound) {g : Graph} (hw : w.graph.Within g) (hg : g.Sound) :
    Sound { w with graph := g } :=
  ⟨hg, fun q hmem => (hs.queries q hmem).mono hw, fun h hmem => (hs.handles h hmem).mono hw⟩

lemma Sound.run (hs : w.Sound) {op : Operation} (ho : w.Allows op) : (w.run op).Sound := by
  have hadds := Operation.run_keeps Graph.Sound.stepRules
    (fun q hmem => Query.named_iff.mpr (hs.queries q (ho.1 q hmem)))
    fun h hmem => hs.open_of_names (ho.2 h hmem)
  rcases hrun : op.run w.graph with ⟨result, g⟩
  obtain ⟨hw, hg, hmade⟩ := hadds hs.graph result g hrun
  have hgrown := hs.grow hw hg
  rw [Workbench.run, hrun]
  cases result with
  | error e => exact hgrown
  | ok q =>
    exact ⟨hg, forall_mem_cons.mpr ⟨Query.named_iff.mp (hmade q rfl).2, hgrown.queries⟩,
      hgrown.handles⟩

lemma Sound.name (hs : w.Sound) {q : Query} (hq : q ∈ w.queries) : (w.name q).Sound := by
  rcases hrun : q.handle w.graph with ⟨result, g⟩
  obtain ⟨hw, hg, hmade⟩ := handle_keeps Graph.Sound.stepRules
    (Query.named_iff.mpr (hs.queries q hq)) hs.graph result g hrun
  have hgrown := hs.grow hw hg
  rw [Workbench.name, hrun]
  cases result with
  | error e => exact hgrown
  | ok h => exact ⟨hg, hgrown.queries, forall_mem_cons.mpr ⟨hmade h rfl, hgrown.handles⟩⟩

/-- **Whatever was built, the graph is sound**, by induction on the operations. -/
theorem Reached.sound {schema : Schema} (hs : schema.Accepted) (h : Reached schema w) :
    w.Sound := by
  induction h with
  | start id => exact ⟨Graph.sound_empty hs id, by simp, by simp⟩
  | run _ ho ih => exact ih.run ho
  | name _ hq ih => exact ih.name hq

end Workbench

/-- Authors and their books. -/
def bookshopSchema : Schema :=
  ⟨0, [⟨"author", [.primary "id", .scalar "name", .reverse "books" "book" "author"]⟩,
    ⟨"book", [.primary "id", .scalar "title", .forward "author" "author"]⟩]⟩

/-- An author is inserted with a book, is read with all books, and is left out unless the name is
among those of a list that is written out and not among those of an empty one. -/
def bookshop : Workbench :=
  [.table "author", .values ["name"] [[.text "first"], [.text "second"]],
    .insert ⟨0, .relation ⟨0, 0⟩, []⟩ ⟨[("name", .value (.text "first")),
      ("books", .many [⟨[("title", .value (.text "Birds"))], none⟩])], none⟩,
    .select ⟨0, .node ⟨0, 2⟩, []⟩ ⟨["name"], [("books", .nested (.ofFields ["title"]))]⟩,
    .filter ⟨0, .node ⟨0, 3⟩, []⟩ (.all [.lookup "name__in" (.query ⟨0, 0⟩),
      .lookup "name__ni" (.value (.array []))])].foldl Workbench.run
    ⟨Graph.empty 0 bookshopSchema, [], []⟩

lemma bookshop_nodes : bookshop.graph.nodes =
    [.filter (.node ⟨0, 3⟩) (.all [.lookup "name__in" (.query ⟨0, 0⟩),
        .lookup "name__ni" (.value (.array []))]),
      .select (.ofSource (.node ⟨0, 2⟩) ⟨["name"], [("books", .nested (.ofFields ["title"]))]⟩),
      .insert ⟨0, 0⟩ (.values [("name", .value (.text "first"))]) [("books", [⟨0, 1⟩])],
      .insert ⟨0, 1⟩ (.values [("title", .value (.text "Birds")), ("author", .parentKey)]) [],
      .values ["name"] [[.text "first"], [.text "second"]]] := rfl

lemma bookshop_reached : Workbench.Reached bookshopSchema bookshop := by
  rw [bookshop]
  simp only [foldl_cons]
  refine .run (.run (.run (.run (.run (.start 0) ?_) ?_) ?_) ?_) ?_ <;> decide +kernel

variable {outside : Handle → Prop} {g : Graph} {h : Handle} {node : Node}

/-- **A handle that a graph sees**: that of one of its nodes, or of one outside. -/
structure Graph.Sees (outside : Handle → Prop) (g : Graph) (h : Handle) : Prop where
  own : h.graph = g.id → h.index < g.size
  foreign : h.graph ≠ g.id → outside h

/-- **Every node of a graph refers to what was seen when it was added.** -/
def Graph.Backward (outside : Handle → Prop) (g : Graph) : Prop :=
  ∀ (past : Graph) (node : Node), (past.push node).Within g →
    ∀ h ∈ node.handles, past.Sees outside h

section Growing

variable {outside' : Handle → Prop} {past : Graph}

lemma Graph.Sees.mono (hk : past.Sees outside h) (hw : past.Within g) : g.Sees outside h := by
  refine ⟨fun hid => ?_, fun hid => hk.foreign ?_⟩
  · exact Nat.lt_of_lt_of_le (hk.own (hid.trans hw.id)) hw.size_le
  · rwa [← hw.id]

lemma Graph.Sees.imp (hk : g.Sees outside h) (ho : outside h → outside' h) :
    g.Sees outside' h :=
  ⟨hk.own, fun hid => ho (hk.foreign hid)⟩

lemma Graph.sees_nextHandle (g : Graph) (node : Node) :
    (g.push node).Sees outside g.nextHandle :=
  ⟨fun _ => Nat.lt_succ_self g.size, fun hid => (hid rfl).elim⟩

lemma Graph.Sees.of_push (hs : (g.push node).Sees outside h) :
    h = g.nextHandle ∨ g.Sees outside h := by
  by_cases hown : h = g.nextHandle
  · exact .inl hown
  · refine .inr ⟨fun hid => ?_, hs.foreign⟩
    have hlt : h.index < g.size + 1 := hs.own hid
    have hne : h.index ≠ g.size := by
      intro hindex
      obtain ⟨graph, index⟩ := h
      subst hid hindex
      exact hown rfl
    omega

lemma Graph.Has.lt_size (hh : g.Has h) : h.graph = g.id ∧ h.index < g.size := by
  obtain ⟨node, hn⟩ := hh
  obtain ⟨p, hp, rfl⟩ := Graph.exists_of_node hn
  exact ⟨hp.id.symm, Nat.lt_of_succ_le hp.size_le⟩

lemma Graph.has_of_lt (hid : h.graph = g.id) (hlt : h.index < g.size) : g.Has h := by
  obtain ⟨id, schema, nodes⟩ := g
  induction nodes with
  | nil => exact absurd hlt (Nat.not_lt_zero _)
  | cons node rest ih =>
    by_cases hindex : h.index = rest.length
    · refine ⟨node, ?_⟩
      rw [Graph.node, if_pos hid, Graph.nodeIn?, if_pos hindex]
    · have hbefore : h.index < rest.length := by
        have hlt : h.index < rest.length + 1 := hlt
        omega
      exact (Graph.within_push ⟨id, schema, rest⟩ node).has (ih hid hbefore)

lemma Graph.backward_empty (id : Nat) (schema : Schema) :
    (Graph.empty id schema).Backward outside := by
  intro past node hw
  exact absurd hw.size_le (Nat.not_succ_le_zero _)

lemma Graph.Backward.of_within (hg : g.Backward outside) (hw : past.Within g) :
    past.Backward outside :=
  fun p node hp => hg p node (hp.trans hw)

lemma Graph.Backward.imp (hg : g.Backward outside) (ho : ∀ h, outside h → outside' h) :
    g.Backward outside' :=
  fun past node hw h hh => (hg past node hw h hh).imp (ho h)

/-- **One more node** that refers to what is seen. -/
lemma Graph.Backward.push (hg : g.Backward outside) (hn : ∀ h ∈ node.handles, g.Sees outside h) :
    (g.push node).Backward outside := by
  intro past node' hw
  rcases hw.push_cases with ⟨rfl, rfl⟩ | hw
  · exact hn
  · exact hg past node' hw

lemma Graph.Backward.takes (hg : g.Backward outside) (hn : ∀ h ∈ node.handles, g.Sees outside h) :
    g.Takes (Graph.Backward outside) (Graph.Sees outside) node :=
  ⟨hg.push hn, g.sees_nextHandle node⟩

/-- **A node refers to nodes before it**, as far as they are nodes of its graph. -/
lemma Graph.Backward.lt (hg : g.Backward outside) (hn : g.node h = .ok node) {k : Handle}
    (hk : k ∈ node.handles) (hid : k.graph = g.id) : k.index < h.index := by
  obtain ⟨past, hw, rfl⟩ := Graph.exists_of_node hn
  exact (hg past node hw k hk).own (hid.trans hw.id)

end Growing

/-! ### Payloads -/

section Steps

lemma Payload.Made.sees {payload : Payload} {reverse : List (String × List Handle)}
    (hp : payload.Made (g.Sees outside) (g.Sees outside) reverse) :
    ∀ h ∈ payload.handles ++ reverse.flatMap (·.2), g.Sees outside h := by
  rw [forall_mem_append]
  refine ⟨hp.handles, fun h hh => ?_⟩
  obtain ⟨e, he, hh⟩ := mem_flatMap.mp hh
  exact hp.reverse e he h hh

/-- **A payload refers to queries of the changes and to nodes that were added on the way.** -/
lemma Graph.Backward.payloadRules :
    Graph.PayloadRules (Graph.Backward outside) (Graph.Sees outside) (Graph.Sees outside) where
  ok_mono := Graph.Sees.mono
  back_mono := Graph.Sees.mono
  key hg hh _ _ := hg.takes (by
    simpa [Node.keyOf, Node.handles, SelectNode.ofSource, Source.handles,
      Selection.handles_ofFields] using hh)
  insert hg _ hp := hg.takes hp.sees
  insertBack via hg _ hp := hg.takes fun k hk => hp.sees k (by
    simpa [Node.handles, Payload.handles] using hk)

/-! ### Operations -/

def Query.handles (q : Query) : List Handle := q.root.handles ++ q.branches

lemma Source.named_of_sees {source : Source} (h : ∀ k ∈ source.handles, g.Sees outside k) :
    source.Named (fun _ => True) (g.Sees outside) := by
  cases source with
  | relation id => trivial
  | node k => exact h k mem_cons_self

lemma Query.named_iff_sees {q : Query} :
    q.Named (fun _ => True) (g.Sees outside) ↔ ∀ h ∈ q.handles, g.Sees outside h := by
  rw [Query.handles, forall_mem_append]
  exact ⟨fun hq => ⟨hq.root.handles, hq.branches⟩, fun hq => ⟨Source.named_of_sees hq.1, hq.2⟩⟩

/-- **Operations add nodes that refer to what was seen before.** -/
lemma Graph.Backward.stepRules : Graph.StepRules (Graph.Backward outside) (fun _ _ => True)
    (Graph.Sees outside) (Graph.Sees outside)
    (fun g node => ∀ h ∈ node.handles, g.Sees outside h) where
  toPayloadRules := Graph.Backward.payloadRules
  rel_mono _ _ := trivial
  relation _ := trivial
  fit_mono h hw k hk := (h k hk).mono hw
  nodes hg hw := hg _ _ hw
  filtered h := (forall_mem_append.mp h).imp_left Source.named_of_sees
  all h := forall_mem_append.mpr ⟨h.handles, by
    simp [SelectNode.ofSource, Selection.empty, Selection.handles, Lookup.handlesOf]⟩
  select hg hs hh _ := hg.takes (forall_mem_append.mpr ⟨(forall_mem_append.mp hs).1, hh⟩)
  order hg hs _ := hg.takes hs
  page _ _ hg hs := hg.takes hs
  filter hg hs hh := hg.takes (forall_mem_append.mpr ⟨hs.handles, hh⟩)
  updateBy hg hu hh := hg.takes (by
    rw [Node.handles, Condition.optionHandles_withExisting, ← append_assoc]
    exact forall_mem_append.mpr ⟨hu, hh⟩)
  deleteBy hg hd hh := hg.takes (by
    rw [Node.handles, Condition.optionHandles_withExisting]
    exact forall_mem_append.mpr ⟨hd, hh⟩)
  insertInto hg _ hp := hg.takes hp.sees
  update hg _ hp hc := hg.takes (forall_mem_append.mpr ⟨hp.handles, hc⟩)
  delete hg _ hc := hg.takes hc
  common hg _ hh := hg.takes hh
  values hg _ _ _ := hg.takes (by simp [Node.handles])

end Steps

end StagedSql
