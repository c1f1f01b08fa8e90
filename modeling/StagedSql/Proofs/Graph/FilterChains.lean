import StagedSql.Proofs.Condition.Conjuncts
import StagedSql.Proofs.Graph.Payloads

/-!
Filters before and after a write.

All queries are built in one graph, which only grows. A chain of filters over a relation can be
read, or it can be turned into an update or a delete, which takes further filters into its own
condition.
-/

namespace StagedSql

open List Condition

variable {g : Graph} {id : RelationId} {q q' : Query} {cs : List Condition}

/-! ### Filters over a relation -/

namespace Graph

/-- A step was run on a graph that has grown into the one at hand. -/
def Ran {α : Type} (g : Graph) (x : Build α) (a : α) : Prop :=
  ∃ g0 g1, x g0 = (.ok a, g1) ∧ g1.Within g

/-- **Filters were put on a query one after the other**, at any time while the graph grew. -/
inductive Filtered (g : Graph) : Query → List Condition → Query → Prop
  | nil (q : Query) : Filtered g q [] q
  | cons {q q' q'' : Query} {c : Condition} {cs : List Condition} (hc : g.Ran (q.filter c) q')
      (hcs : Filtered g q' cs q'') : Filtered g q (c :: cs) q''

/-- **The nodes of filters over a relation**, the innermost first. Each was added to a graph that
has what it refers to. -/
inductive Filters (g : Graph) (id : RelationId) : Source → List Condition → Prop
  | relation : Filters g id (.relation id) []
  | filter {past : Graph} {source : Source} {cs : List Condition} {c : Condition}
      (hsource : Filters g id source cs) (hknown : ∀ h ∈ source.handles, past.Has h)
      (hhandles : ∀ h ∈ c.handles, past.Has h) (hnode : (past.push (.filter source c)).Within g) :
      Filters g id (.node past.nextHandle) (cs ++ [c])

/-- The node that a filter of a source adds: an update or a delete takes the condition into its
own. -/
def filteredNode (g : Graph) (source : Source) (c : Condition) : Node :=
  match source with
  | .relation _ => .filter source c
  | .node h =>
    match g.node h with
    | .ok (.update r payload existing) =>
      .update r payload (some (withExisting existing c))
    | .ok (.delete r existing) => .delete r (some (withExisting existing c))
    | _ => .filter source c

end Graph

section Filters

variable {c : Condition}

lemma rootNode?_has (q : Query) :
    Build.Ensures q.rootNode? g fun node? g' => g' = g ∧ match q.root with
      | .relation _ => node? = none
      | .node h => ∃ node, g.node h = .ok node ∧ node? = some node := by
  obtain ⟨graph, root, branches⟩ := q
  cases root with
  | relation id => exact .of_pure ⟨rfl, rfl⟩
  | node h =>
    have hroot : Query.rootNode? ⟨graph, .node h, branches⟩ =
        nodeOf h >>= fun node => pure (some node) := rfl
    exact .get_bind (.lift_bind fun node hnode => .of_pure ⟨rfl, node, hnode, rfl⟩)

/-- **What a filter adds.** -/
lemma filter_adds (q : Query) (c : Condition) :
    Build.Ensures (q.filter c) g fun q' g' => (∀ h ∈ c.handles, g.Has h) ∧
      (∀ h ∈ q.root.handles, g.Has h) ∧ q' = { q with root := .node g.nextHandle } ∧
      g' = g.push (g.filteredNode q.root c) := by
  refine (Build.Keeps.checkNodes c.handles).ensures.bind fun _ g1 hchecked => ?_
  obtain ⟨rfl, hhandles⟩ := hchecked
  refine (rootNode?_has q).bind fun node? g2 hroot => ?_
  obtain ⟨rfl, hroot⟩ := hroot
  have hadd : ∀ added, g2.filteredNode q.root c = added → (∀ h ∈ q.root.handles, g2.Has h) →
      Build.Ensures (q.withNode added) g2 fun q' g' => (∀ h ∈ c.handles, g2.Has h) ∧
        (∀ h ∈ q.root.handles, g2.Has h) ∧ q' = { q with root := .node g2.nextHandle } ∧
        g' = g2.push (g2.filteredNode q.root c) := by
    rintro added rfl hknown
    exact .push_bind (.of_pure ⟨hhandles, hknown, rfl, rfl⟩)
  obtain ⟨graph, root, branches⟩ := q
  cases root with
  | relation id =>
    cases hroot
    exact hadd _ rfl (by simp [Source.handles])
  | node h =>
    obtain ⟨node, hnode, rfl⟩ := hroot
    have hknown : ∀ h' ∈ (Source.node h).handles, g2.Has h' := by
      intro h' hmem
      rw [mem_singleton.mp hmem]
      exact ⟨node, hnode⟩
    cases node <;> exact hadd _ (by simp only [Graph.filteredNode, hnode]) hknown

/-- What filters refer to is there in each graph that has the last of them. -/
lemma filters_handles {past : Graph} {source : Source} (hf : g.Filters id source cs)
    (hw : past.Within g) (hs : ∀ h ∈ source.handles, past.Has h) :
    ∀ c ∈ cs, ∀ h ∈ c.handles, past.Has h := by
  induction hf generalizing past with
  | relation => simp
  | @filter p source cs c _ hknown hhandles hnode ih =>
    have hp : (p.push (.filter source c)).Within past :=
      hnode.push_of_has hw (hs _ (.head _))
    have hpast : p.Within past := (Graph.within_push _ _).trans hp
    intro d hd h hh
    rcases mem_append.mp hd with hd | hd
    · exact hpast.has (ih (hpast.trans hw) hknown d hd h hh)
    · rw [mem_singleton.mp hd] at hh
      exact hpast.has (hhandles h hh)

lemma filter_filters (hf : g.Filters id q.root cs) (hran : g.Ran (q.filter c) q') :
    g.Filters id q'.root (cs ++ [c]) ∧ q'.branches = q.branches := by
  obtain ⟨g0, g1, hrun, hg⟩ := hran
  obtain ⟨hhandles, hknown, rfl, rfl⟩ := filter_adds q c _ _ hrun
  have hg0 : g0.Within g := (Graph.within_push _ _).trans hg
  have hfilter : g0.filteredNode q.root c = .filter q.root c := by
    obtain ⟨graph, root, branches⟩ := q
    cases hf with
    | relation => rfl
    | @filter past source cs c' _ _ _ hnode =>
      have hhas : g0.Has past.nextHandle := hknown _ (.head _)
      have hfound := (hnode.push_of_has hg0 hhas).node_eq
      rw [Graph.filteredNode, hfound]
  rw [hfilter] at hg
  exact ⟨.filter hf hknown hhandles hg, rfl⟩

/-- **Filters over a relation**, by induction on the filters that are put on it. -/
lemma filtered_filters {ds : List Condition} (h : g.Filtered q ds q') :
    ∀ {cs : List Condition}, g.Filters id q.root cs →
      g.Filters id q'.root (cs ++ ds) ∧ q'.branches = q.branches := by
  induction h with
  | nil q => exact fun hf => ⟨by rwa [append_nil], rfl⟩
  | @cons q q' q'' c ds hc _ ih =>
    intro cs hf
    obtain ⟨hf', hbranches⟩ := filter_filters hf hc
    grind

lemma ofTable_filters {name : String} (hran : g.Ran (Query.ofTable name) q) :
    ∃ id r, g.Filters id q.root [] ∧ q.branches = [] ∧ g.schema.get? name = some r ∧
      g.schema.relation id = .ok r := by
  obtain ⟨g0, g1, hrun, hg⟩ := hran
  obtain ⟨rfl, id, r, rfl, hname, hr⟩ := ofTable_relation name _ _ hrun
  rw [← hg.schema] at hname hr
  exact ⟨id, r, .relation, rfl, hname, hr⟩

end Filters

/-! ### Writes -/

/-- A write of the rows that a query reads. -/
inductive Mutation where
  | update (changes : Changes)
  | delete

def Mutation.run (q : Query) : Mutation → Build Query
  | .update changes => q.update changes
  | .delete => q.delete

/-- Whether nothing is read to know what is written. -/
def Mutation.IsPlain : Mutation → Prop
  | .update changes => changes.source = none ∧ ∀ e ∈ changes.entries, ∃ v, e.2 = .value v
  | .delete => True

/-- Whether a payload is made of values. -/
def Payload.IsPlain : Payload → Prop
  | .values entries => ∀ e ∈ entries, ∃ v, e.2 = .value v
  | .query _ => False

/-- The update with a payload, or the delete, of the rows of a relation that meet a condition. -/
def Node.write (id : RelationId) (payload : Option Payload) (condition : Option Condition) : Node :=
  match payload with
  | some payload => .update id payload condition
  | none => .delete id condition

/-- **A write is at the root**, with a condition that has the conjuncts of the given ones. It was
added to a graph `past` that has what these refer to. -/
structure Graph.WriteRoot (g : Graph) (id : RelationId) (payload : Option Payload)
    (cs : List Condition) (root : Source) (past : Graph) (condition : Option Condition) :
    Prop where
  root : root = .node past.nextHandle
  node : (past.push (Node.write id payload condition)).Within g
  handles : ∀ c ∈ cs, ∀ h ∈ c.handles, past.Has h
  conjuncts : condition.toList.flatMap conjuncts = cs.flatMap conjuncts
  missing : condition = none ↔ cs = []

section Writes

variable {past : Graph} {ds : List Condition} {payload : Option Payload}

/-- **A chain of filters is made of nodes of its graph**, the last of which is over a relation. By
induction on the nodes. -/
lemma filterChain_nodes {h : Handle} (hchain : Graph.filterChain g.id g.nodes h = .ok (id, cs)) :
    g.Has h ∧ (∃ (past : Graph) (c : Condition), (past.push (.filter (.relation id) c)).Within g) ∧
      ∀ c ∈ cs, ∃ (past : Graph) (source : Source), (past.push (.filter source c)).Within g := by
  obtain ⟨graph, schema, nodes⟩ := g
  induction nodes generalizing h id cs with
  | nil => cases hchain
  | cons node rest ih =>
    have hw : Graph.Within ⟨graph, schema, rest⟩ ⟨graph, schema, node :: rest⟩ :=
      Graph.within_push ⟨graph, schema, rest⟩ node
    by_cases hown : h = ⟨graph, rest.length⟩
    · have hchain := (if_pos hown).symm.trans hchain
      have hnode : (Graph.push ⟨graph, schema, rest⟩ node).Within ⟨graph, schema, node :: rest⟩ :=
        .refl _
      refine ⟨hown ▸ ⟨node, hnode.node_eq⟩, ?_⟩
      cases node with
      | filter source c =>
        cases source with
        | relation r =>
          grind
        | node inner =>
          obtain ⟨⟨id', cs'⟩, hinner, hresult⟩ := Except.bind_ok hchain
          cases hresult
          obtain ⟨-, ⟨past, d, hlast⟩, hcs⟩ := ih hinner
          refine ⟨⟨past, d, hlast.trans hw⟩, fun e he => ?_⟩
          rcases mem_append.mp he with he | he
          · exact (hcs e he).imp fun _ => Exists.imp fun _ hp => hp.trans hw
          · rw [mem_singleton.mp he]
            exact ⟨_, _, hnode⟩
      | _ => cases hchain
    · obtain ⟨hhas, ⟨past, d, hlast⟩, hcs⟩ := ih ((if_neg hown).symm.trans hchain)
      exact ⟨hw.has hhas, ⟨past, d, hlast.trans hw⟩,
        fun e he => (hcs e he).imp fun _ => Exists.imp fun _ hp => hp.trans hw⟩

lemma filterChain_of_within {node : Node} (hw : (past.push node).Within g) :
    Graph.filterChain g.id g.nodes past.nextHandle =
      Graph.filterChain past.id (node :: past.nodes) past.nextHandle := by
  obtain ⟨newer, hnodes⟩ := hw.nodes
  rw [hw.id, hnodes]
  clear hnodes
  induction newer with
  | nil => rfl
  | cons n rest ih => exact (if_neg (Graph.nextHandle_ne past node rest)).trans ih

/-- **The filters over a relation are found** for a write, by induction on them. -/
lemma filterChain_filters {source : Source} (hf : g.Filters id source cs) :
    ∀ {past : Graph} {h : Handle}, source = .node h → past.Within g → past.Has h →
      Graph.filterChain past.id past.nodes h = .ok (id, cs) := by
  induction hf with
  | relation => rintro past h ⟨⟩
  | @filter p source cs c hsource hknown _ hnode ih =>
    rintro past h ⟨⟩ hw hh
    have hp := hnode.push_of_has hw hh
    rw [filterChain_of_within hp]
    refine (if_pos rfl).trans ?_
    cases source with
    | relation id' =>
      cases hsource
      rfl
    | node h' =>
      have hpg : p.Within g := ((Graph.within_push _ _).trans hp).trans hw
      have hinner := ih rfl hpg (hknown h' (.head _))
      dsimp only
      rw [hinner]
      rfl

/-- The target of a write is the relation, with the filters over it as one condition. -/
lemma mutationTarget_filters (hf : g.Filters id q.root cs) {g0 g1 : Graph} (hg : g0.Within g)
    {target : RelationId × Option Condition} (hrun : q.mutationTarget g0 = (.ok target, g1)) :
    g1 = g0 ∧ target = (id, joined? cs) ∧ ∀ h ∈ q.root.handles, g0.Has h := by
  obtain ⟨graph, root, branches⟩ := q
  obtain ⟨g2, g3, hget, hrun⟩ := Build.bind_eq_ok hrun
  cases hget
  cases root with
  | relation id' =>
    cases hf
    cases hrun
    exact ⟨rfl, rfl, by simp [Source.handles]⟩
  | node h =>
    obtain ⟨found, g4, hlift, hpure⟩ := Build.bind_eq_ok hrun
    obtain ⟨hchain, rfl⟩ := Build.lift_eq_ok hlift
    cases hpure
    have hhas := (filterChain_nodes hchain).1
    rw [filterChain_filters hf rfl hg hhas] at hchain
    cases hchain
    refine ⟨rfl, rfl, fun h' hmem => ?_⟩
    rwa [mem_singleton.mp hmem]

lemma Build.Keeps.mutationTarget {inv : Graph → Prop} (q : Query) :
    Build.Keeps inv q.mutationTarget g fun _ g' => g' = g := by
  refine .get_bind ?_
  cases q.root with
  | relation id => exact .of_pure rfl
  | node h => exact .lift_bind fun _ _ => .of_pure rfl

lemma payloadOf_plain {changes : Changes} (hsource : changes.source = none)
    (hvalues : ∀ e ∈ changes.entries, ∃ v, e.2 = .value v) (mode : WriteMode) :
    Build.Ensures (payloadOf id mode changes) g fun result _ => result.1.IsPlain := by
  have hparts : ∀ (r : Relation) (entries : List (String × Change)) (parts : RowParts) (g : Graph),
      (∀ e ∈ entries, ∃ v, e.2 = .value v) → (∀ e ∈ parts.values, ∃ v, e.2 = .value v) →
      Build.Ensures (partsOf r mode parts entries) g fun parts' _ =>
        ∀ e ∈ parts'.values, ∃ v, e.2 = PayloadValue.value v := by
    intro r entries
    induction entries with
    | nil =>
      intro parts g _ hdone
      exact .of_pure hdone
    | cons entry rest ih =>
      intro parts g hentries hdone
      obtain ⟨name, change⟩ := entry
      obtain ⟨v, rfl⟩ := hentries (name, change) mem_cons_self
      refine .lift_bind fun c _ => ?_
      rw [changeInto]
      split
      · exact .of_error rfl
      · refine ih _ g (fun e he => hentries e (.tail _ he)) fun e he => ?_
        rcases mem_append.mp he with he | he
        · exact hdone e he
        · rw [mem_singleton.mp he]
          exact ⟨v, rfl⟩
  obtain ⟨entries, source⟩ := changes
  cases hsource
  refine .get_bind (.lift_bind fun r _ => ?_)
  exact (hparts r entries .empty g hvalues (by simp [RowParts.empty])).bind fun parts _ h =>
    .of_pure h

/-- **A write over filters** has their conditions as its own. -/
lemma mutation_root (hf : g.Filters id q.root cs) {change : Mutation}
    (hran : g.Ran (change.run q) q') :
    ∃ payload past condition, g.WriteRoot id payload cs q'.root past condition ∧
      q'.branches = q.branches ∧ (change.IsPlain → ∀ p, payload = some p → p.IsPlain) := by
  obtain ⟨g0, g1, hrun, hg⟩ := hran
  -- the write is added to a graph that has the filters
  have hadd : ∀ (payload : Option Payload) (past : Graph), past.Within g →
      (past.push (Node.write id payload (joined? cs))).Within g →
      (∀ h ∈ q.root.handles, past.Has h) →
      g.WriteRoot id payload cs (.node past.nextHandle) past (joined? cs) :=
    fun payload past hpast hnode hknown =>
      ⟨rfl, hnode, filters_handles hf hpast hknown, joined?_conjuncts cs, joined?_eq_none⟩
  have hfirst : ∀ {target : RelationId × Option Condition} {g2 : Graph},
      q.mutationTarget g0 = (.ok target, g2) → g0.Within g2 := fun htarget =>
    have hkeeps : Build.Keeps (fun _ => True) q.mutationTarget g0 fun _ g' => g' = g0 :=
      .mutationTarget q
    (hkeeps trivial _ _ htarget).1
  cases change with
  | delete =>
    obtain ⟨target, g2, htarget, hrest⟩ := Build.bind_eq_ok hrun
    obtain ⟨h, g3, hpush, hpure⟩ := Build.bind_eq_ok hrest
    cases hpush
    cases hpure
    have hg2 : g2.Within g := (Graph.within_push _ _).trans hg
    have hg0 : g0.Within g := (hfirst htarget).trans hg2
    obtain ⟨rfl, rfl, hknown⟩ := mutationTarget_filters hf hg0 htarget
    exact ⟨none, g2, _, hadd none g2 hg2 hg hknown, rfl, by rintro - p ⟨⟩⟩
  | update changes =>
    obtain ⟨target, g2, htarget, hrest⟩ := Build.bind_eq_ok hrun
    obtain ⟨⟨payload, reverse⟩, g3, hpayload, hrest⟩ := Build.bind_eq_ok hrest
    obtain ⟨h, g4, hpush, hpure⟩ := Build.bind_eq_ok hrest
    cases hpush
    cases hpure
    have hg3 : g3.Within g := (Graph.within_push _ _).trans hg
    have hg23 : g2.Within g3 := by
      have hwithin := payloadOf_within target.1 .update changes g2
      rwa [hpayload] at hwithin
    have hg0 : g0.Within g := (hfirst htarget).trans (hg23.trans hg3)
    obtain ⟨rfl, rfl, hknown⟩ := mutationTarget_filters hf hg0 htarget
    refine ⟨some payload, g3, _, hadd (some payload) g3 hg3 hg fun h hh => hg23.has (hknown h hh),
      rfl, ?_⟩
    rintro ⟨hsource, hvalues⟩ p ⟨⟩
    exact payloadOf_plain hsource hvalues .update _ _ hpayload

lemma filter_root {condition : Option Condition} {c : Condition}
    (hw : g.WriteRoot id payload cs q.root past condition) (hran : g.Ran (q.filter c) q') :
    ∃ past' condition', g.WriteRoot id payload (cs ++ [c]) q'.root past' condition' ∧
      q'.branches = q.branches := by
  obtain ⟨g0, g1, hrun, hg⟩ := hran
  obtain ⟨hhandles, hknown, rfl, rfl⟩ := filter_adds q c _ _ hrun
  have hg0 : g0.Within g := (Graph.within_push _ _).trans hg
  obtain ⟨graph, root, branches⟩ := q
  obtain ⟨rfl, hnode, hpast, hconjuncts, hmissing⟩ := hw
  have hin : (past.push (Node.write id payload condition)).Within g0 :=
    hnode.push_of_has hg0 (hknown _ (.head _))
  have hadded : g0.filteredNode (.node past.nextHandle) c =
      Node.write id payload (some (withExisting condition c)) := by
    rw [Graph.filteredNode, hin.node_eq]
    cases payload <;> rfl
  rw [hadded] at hg
  refine ⟨g0, _, ⟨rfl, hg, ?_, ?_, by simp⟩, rfl⟩
  · intro d hd h hh
    rcases mem_append.mp hd with hd | hd
    · exact ((Graph.within_push _ _).trans hin).has (hpast d hd h hh)
    · rw [mem_singleton.mp hd] at hh
      exact hhandles h hh
  · rw [Option.toList_some, flatMap_singleton, withExisting_conjuncts, hconjuncts,
      flatMap_append, flatMap_singleton]

/-- **Filters over a write**, by induction on them. -/
lemma filtered_root (h : g.Filtered q ds q') :
    ∀ {cs : List Condition} {past : Graph} {condition : Option Condition},
      g.WriteRoot id payload cs q.root past condition →
      ∃ past' condition', g.WriteRoot id payload (cs ++ ds) q'.root past' condition' ∧
        q'.branches = q.branches := by
  induction h with
  | nil q =>
    grind
  | @cons q q' q'' c ds hc _ ih =>
    intro cs past condition hw
    obtain ⟨past', condition', hw', hbranches⟩ := filter_root hw hc
    grind

end Writes

end StagedSql
