import Mathlib.Data.List.Basic
import StagedSql.Graph.Query
import StagedSql.Proofs.Schema.Accepted

/-!
What a node of a graph needs, and runs of building steps.

A step of building either fails or gives a result, and adds nodes to the graph.
-/

namespace StagedSql

/-! ### Inputs -/

/-- The nodes that a node is made of. -/
def Node.inputs : Node → List Handle
  | .select s => s.source.handles
  | .insert _ payload reverse => payload.handles ++ reverse.flatMap (·.2)
  | .update _ payload condition => payload.handles ++ Condition.optionHandles condition
  | .delete _ condition => Condition.optionHandles condition
  | .filter source condition => source.handles ++ condition.handles
  | .common queries => queries
  | .values .. => []

/-- A node is needed for another one, directly or through others. -/
inductive Graph.Reaches (g : Graph) : Handle → Handle → Prop
  | refl (h : Handle) : g.Reaches h h
  | step {h input w : Handle} {node : Node} (hnode : g.node h = .ok node)
      (hinput : input ∈ node.inputs) (hrest : g.Reaches input w) : g.Reaches h w

/-! ### Places -/

lemma Graph.nodeIn?_append (newer : List Node) (node : Node) (older : List Node) :
    Graph.nodeIn? (newer ++ node :: older) older.length = some node := by
  induction newer with
  | nil => simp [Graph.nodeIn?]
  | cons n rest ih =>
    have hne : older.length ≠ (rest ++ node :: older).length := by
      rw [List.length_append, List.length_cons]
      omega
    rwa [List.cons_append, Graph.nodeIn?, if_neg hne]

/-- The node at a place in the list of nodes is that of the handle with the number of nodes before
it. -/
lemma Graph.node_of_append {g : Graph} {newer older : List Node} {node : Node}
    (h : g.nodes = newer ++ node :: older) : g.node ⟨g.id, older.length⟩ = .ok node := by
  rw [Graph.node, if_pos rfl, h, Graph.nodeIn?_append]

/-! ### Expressions in conditions -/

/-- Whether an operand is no expression that is taken as it is. -/
def Operand.NoExpr : Operand → Prop
  | .expr _ => False
  | _ => True

mutual

/-- Whether a condition compares with no expression that is taken as it is. -/
def Condition.NoExpr : Condition → Prop
  | .lookup _ operand => operand.NoExpr
  | .all items => Condition.NoExprEach items
  | .any items => Condition.NoExprEach items
  | .not c => c.NoExpr

/-- Whether no condition of a list compares with such an expression. -/
def Condition.NoExprEach : List Condition → Prop
  | [] => True
  | c :: rest => c.NoExpr ∧ Condition.NoExprEach rest

end

/-- Whether the condition of a node compares with no expression that is taken as it is. -/
def Node.NoExpr : Node → Prop
  | .update _ _ (some c) => c.NoExpr
  | .delete _ (some c) => c.NoExpr
  | .filter _ c => c.NoExpr
  | _ => True

/-- **No condition of a graph compares with an expression that is taken as it is.** -/
def Graph.NoExpr (g : Graph) : Prop := ∀ node ∈ g.nodes, node.NoExpr

variable {g : Graph} {node : Node}

/-! ### Growing graphs -/

namespace Graph

variable {g' past : Graph} {h : Handle}

/-- **A graph has grown into another one**: nodes were added and nothing else has changed. -/
structure Within (g g' : Graph) : Prop where
  id : g'.id = g.id
  schema : g'.schema = g.schema
  nodes : ∃ newer, g'.nodes = newer ++ g.nodes

lemma Within.refl (g : Graph) : g.Within g := ⟨rfl, rfl, [], rfl⟩

lemma Within.trans {g'' : Graph} (h : g.Within g') (h' : g'.Within g'') : g.Within g'' := by
  obtain ⟨newer, hn⟩ := h.nodes
  obtain ⟨newer', hn'⟩ := h'.nodes
  exact ⟨h'.id.trans h.id, h'.schema.trans h.schema, newer' ++ newer,
    by rw [hn', hn, List.append_assoc]⟩

lemma within_push (g : Graph) (node : Node) : g.Within (g.push node) := ⟨rfl, rfl, [node], rfl⟩

lemma Within.size_le (h : g.Within g') : g.size ≤ g'.size := by
  obtain ⟨newer, hn⟩ := h.nodes
  rw [size, size, hn, List.length_append]
  exact Nat.le_add_left _ _

@[simp] lemma size_push (g : Graph) (node : Node) : (g.push node).size = g.size + 1 := rfl

@[simp] lemma schema_push (g : Graph) (node : Node) : (g.push node).schema = g.schema := rfl

lemma Within.node_eq (h : (past.push node).Within g) : g.node past.nextHandle = .ok node := by
  obtain ⟨newer, hn⟩ := h.nodes
  have hnode := node_of_append hn
  rwa [h.id] at hnode

/-- The node of a handle is there. -/
def Has (g : Graph) (h : Handle) : Prop := ∃ node, g.node h = .ok node

lemma exists_of_node (hn : g.node h = .ok node) :
    ∃ past : Graph, (past.push node).Within g ∧ past.nextHandle = h := by
  have hplace : ∀ nodes : List Node, nodeIn? nodes h.index = some node →
      ∃ newer older, nodes = newer ++ node :: older ∧ older.length = h.index := by
    intro nodes
    induction nodes with
    | nil => simp [nodeIn?]
    | cons first rest ih =>
      intro hfound
      rw [nodeIn?] at hfound
      split at hfound
      · rename_i hindex
        cases hfound
        exact ⟨[], rest, rfl, hindex.symm⟩
      · grind
  rw [Graph.node] at hn
  split at hn
  · rename_i hgraph
    split at hn
    · rename_i found hfound
      cases hn
      obtain ⟨newer, older, hnodes, hlength⟩ := hplace g.nodes hfound
      refine ⟨⟨g.id, g.schema, older⟩, ⟨rfl, rfl, newer, hnodes⟩, ?_⟩
      change (⟨g.id, older.length⟩ : Handle) = h
      rw [hlength, ← hgraph]
    · cases hn
  · cases hn

lemma Within.node_of (hw : past.Within g) (hn : past.node h = .ok node) : g.node h = .ok node := by
  obtain ⟨p, hp, rfl⟩ := exists_of_node hn
  exact (hp.trans hw).node_eq

lemma Within.has (hw : past.Within g) (hh : past.Has h) : g.Has h := by
  obtain ⟨node, hn⟩ := hh
  exact ⟨node, hw.node_of hn⟩

/-- Of two graphs that have grown into a third one, that which has a node has grown out of the one
to which it was added. -/
lemma Within.push_of_has {p : Graph} (hp : (p.push node).Within g) (hw : past.Within g)
    (hh : past.Has p.nextHandle) : (p.push node).Within past := by
  obtain ⟨node', hn⟩ := hh
  obtain ⟨p', hp', hhandle⟩ := exists_of_node hn
  obtain ⟨newer, hnewer⟩ := hp.nodes
  obtain ⟨newer', hnewer'⟩ := (hp'.trans hw).nodes
  have hlength : p'.nodes.length = p.nodes.length := congrArg Handle.index hhandle
  have hsame : (p'.push node').nodes = (p.push node).nodes := by
    refine (List.append_inj' (hnewer'.symm.trans hnewer) ?_).2
    exact congrArg Nat.succ hlength
  obtain ⟨more, hmore⟩ := hp'.nodes
  exact ⟨hw.id.symm.trans hp.id, hw.schema.symm.trans hp.schema, more, by rw [hmore, hsame]⟩

lemma Within.push_cases {node' : Node} (h : (past.push node').Within (g.push node)) :
    (past = g ∧ node' = node) ∨ (past.push node').Within g := by
  obtain ⟨newer, hnodes⟩ := h.nodes
  cases newer with
  | nil =>
    obtain ⟨hnode, hrest⟩ := List.cons.inj hnodes
    refine .inl ⟨?_, hnode.symm⟩
    obtain ⟨id, schema, nodes⟩ := past
    cases h.id
    cases h.schema
    cases hrest
    rfl
  | cons first rest => exact .inr ⟨h.id, h.schema, rest, (List.cons.inj hnodes).2⟩

lemma nextHandle_ne (past : Graph) (node : Node) (newer : List Node) :
    past.nextHandle ≠ ⟨past.id, (newer ++ (past.push node).nodes).length⟩ := by
  intro he
  have hindex : past.nodes.length = (newer ++ node :: past.nodes).length :=
    congrArg Handle.index he
  rw [List.length_append, List.length_cons] at hindex
  omega

end Graph

/-! ### Runs that succeed -/

namespace Build

variable {α β : Type}

lemma bind_eq_ok {x : Build α} {f : α → Build β} {g'' : Graph} {b : β}
    (h : (x >>= f) g = (.ok b, g'')) : ∃ a g', x g = (.ok a, g') ∧ f a g' = (.ok b, g'') := by
  cases hx : x g with
  | mk result g' =>
    cases result with
    | error e =>
      have herr : (x >>= f) g = (.error e, g') := by
        change (ExceptT.bindCont f (x g).1) (x g).2 = _
        rw [hx]
        rfl
      rw [herr] at h
      cases h
    | ok a =>
      have hok : (x >>= f) g = f a g' := by
        change (ExceptT.bindCont f (x g).1) (x g).2 = _
        rw [hx]
        rfl
      exact ⟨a, g', rfl, hok ▸ h⟩

lemma lift_eq_ok {e : Except Error α} {g' : Graph} {a : α}
    (h : (liftM e : Build α) g = (.ok a, g')) : e = .ok a ∧ g' = g := by
  cases e with
  | error e => cases h
  | ok b =>
    cases h
    exact ⟨rfl, rfl⟩

/-! ### What a step ensures -/

/-- Whenever the step succeeds on a graph, its result and the new graph are as stated. -/
def Ensures (x : Build α) (g : Graph) (post : α → Graph → Prop) : Prop :=
  ∀ a g', x g = (.ok a, g') → post a g'

namespace Ensures

variable {x : Build α} {post : β → Graph → Prop} {f : α → Build β}

lemma mono {post post' : α → Graph → Prop} (h : Ensures x g post)
    (hp : ∀ a g', post a g' → post' a g') : Ensures x g post' :=
  fun a g' hx => hp a g' (h a g' hx)

lemma bind {mid : α → Graph → Prop} (hx : Ensures x g mid)
    (hf : ∀ a g', mid a g' → Ensures (f a) g' post) : Ensures (x >>= f) g post := by
  intro b g'' h
  obtain ⟨a, g', ha, hb⟩ := bind_eq_ok h
  exact hf a g' (hx a g' ha) b g'' hb

lemma of_pure {a : α} {post : α → Graph → Prop} (h : post a g) : Ensures (pure a) g post := by
  intro b g' hb
  cases hb
  exact h

lemma of_error {e : Error} {g' : Graph} {post : α → Graph → Prop}
    (h : x g = (.error e, g')) : Ensures x g post := by
  intro a g'' ha
  rw [h] at ha
  cases ha

lemma lift_bind {e : Except Error α}
    (h : ∀ a, e = .ok a → Ensures (f a) g post) : Ensures (liftM e >>= f) g post := by
  intro b g'' hrun
  obtain ⟨a, g', ha, hb⟩ := bind_eq_ok hrun
  obtain ⟨he, rfl⟩ := lift_eq_ok ha
  exact h a he b g'' hb

lemma get_bind {f : Graph → Build β} (h : Ensures (f g) g post) : Ensures (get >>= f) g post := by
  assumption

lemma push_bind {node : Node} {f : Handle → Build β}
    (h : Ensures (f g.nextHandle) (g.push node) post) : Ensures (pushNode node >>= f) g post := by
  assumption

end Ensures

/-! ### Invariants that a step keeps -/

/-- **The step only adds nodes and keeps an invariant**, even if it fails. If it succeeds, its
result is as stated. -/
def Keeps (inv : Graph → Prop) (x : Build α) (g : Graph) (post : α → Graph → Prop) : Prop :=
  inv g → ∀ result g', x g = (result, g') → g.Within g' ∧ inv g' ∧ ∀ a, result = .ok a → post a g'

namespace Keeps

variable {inv : Graph → Prop} {x : Build α} {post : α → Graph → Prop} {e : Error} {f : β → Build α}

lemma of_inv (h : inv g → Keeps inv x g post) : Keeps inv x g post := fun hg => h hg hg

lemma mono {post' : α → Graph → Prop} (h : Keeps inv x g post)
    (hp : ∀ a g', post a g' → post' a g') : Keeps inv x g post' :=
  fun hg result g' hrun => (h hg result g' hrun).imp_right fun h =>
    h.imp_right fun hpost a ha => hp a g' (hpost a ha)

lemma bind {f : α → Build β} {mid : α → Graph → Prop} {post : β → Graph → Prop}
    (hx : Keeps inv x g mid) (hf : ∀ a g', g.Within g' → mid a g' → Keeps inv (f a) g' post) :
    Keeps inv (x >>= f) g post := by
  intro hg result g'' hrun
  change (ExceptT.bindCont f (x g).1) (x g).2 = _ at hrun
  rcases hfirst : x g with ⟨first, g'⟩
  obtain ⟨hw, hs, hmid⟩ := hx hg first g' hfirst
  rw [hfirst] at hrun
  cases first with
  | error e =>
    cases hrun
    exact ⟨hw, hs, by simp⟩
  | ok a =>
    obtain ⟨hw', hs', hpost⟩ := hf a g' hw (hmid a rfl) hs result g'' hrun
    exact ⟨hw.trans hw', hs', hpost⟩

lemma of_pure {a : α} (h : post a g) : Keeps inv (pure a) g post := by
  rintro hg _ _ ⟨⟩
  exact ⟨.refl g, hg, by rintro _ ⟨⟩; exact h⟩

lemma of_throw : Keeps inv (throw e) g post := by
  rintro hg _ _ ⟨⟩
  exact ⟨.refl g, hg, by simp⟩

lemma of_lift {e : Except Error α} (h : ∀ a, e = .ok a → post a g) :
    Keeps inv (liftM e) g post := by
  cases e with
  | error e => exact of_throw
  | ok a => exact of_pure (h a rfl)

lemma throw_bind : Keeps inv (throw e >>= f) g post :=
  bind of_throw fun _ _ _ (hmid : False) => hmid.elim

lemma lift_bind {e : Except Error β}
    (h : ∀ b, e = .ok b → Keeps inv (f b) g post) : Keeps inv (liftM e >>= f) g post := by
  cases e with
  | error e => exact throw_bind
  | ok b => exact fun hg result g' hrun => h b rfl hg result g' hrun

lemma get_bind {f : Graph → Build α} (h : Keeps inv (f g) g post) : Keeps inv (get >>= f) g post :=
  fun hg result g' hrun => h hg result g' hrun

lemma push {post : Handle → Graph → Prop} (hn : inv g → inv (g.push node))
    (h : post g.nextHandle (g.push node)) : Keeps inv (pushNode node) g post := by
  rintro hg _ _ ⟨⟩
  exact ⟨Graph.within_push g node, hn hg, by rintro _ ⟨⟩; exact h⟩

lemma push_bind {f : Handle → Build α} (hn : inv g → inv (g.push node))
    (h : Keeps inv (f g.nextHandle) (g.push node) post) :
    Keeps inv (pushNode node >>= f) g post := by
  have hpush : Keeps inv (pushNode node) g fun k g' => k = g.nextHandle ∧ g' = g.push node :=
    push hn ⟨rfl, rfl⟩
  refine hpush.bind ?_
  rintro _ _ - ⟨rfl, rfl⟩
  exact h

lemma discard_bind {x : Build β} {f : PUnit → Build α} {mid : β → Graph → Prop}
    (hx : Keeps inv x g mid)
    (hf : ∀ b g', g.Within g' → mid b g' → Keeps inv (f ⟨⟩) g' post) :
    Keeps inv (discard x >>= f) g post := by
  have heq : (discard x >>= f : Build α) = x >>= fun _ => f ⟨⟩ := by
    have hdiscard : (discard x : Build PUnit) = x >>= fun _ => pure ⟨⟩ := by
      rfl
    rw [hdiscard, bind_assoc]
    rfl
  rw [heq]
  exact hx.bind hf

lemma nodeOf (h : Handle) :
    Keeps inv (nodeOf h) g fun node g' => g' = g ∧ g.node h = .ok node :=
  .get_bind (.of_lift fun _ hn => ⟨rfl, hn⟩)

lemma checkNodes (handles : List Handle) :
    Keeps inv (handles.forM fun h => discard (StagedSql.nodeOf h)) g fun _ g' =>
      g' = g ∧ ∀ h ∈ handles, g.Has h := by
  induction handles with
  | nil => exact .of_pure ⟨rfl, by simp⟩
  | cons h rest ih =>
    refine (nodeOf h).discard_bind ?_
    rintro node g' - ⟨rfl, hn⟩
    exact ih.mono fun _ _ hrest =>
      ⟨hrest.1, List.forall_mem_cons.mpr ⟨⟨node, hn⟩, hrest.2⟩⟩

/-- The node at the root, if it is one, is the node of its handle. -/
lemma rootNode? (q : Query) :
    Keeps inv q.rootNode? g fun node? g' => g' = g ∧
      ∀ node, node? = some node ↔ ∃ h, q.root = .node h ∧ g.node h = .ok node := by
  obtain ⟨graph, root, branches⟩ := q
  cases root with
  | relation id => exact .of_pure ⟨rfl, by simp⟩
  | node h =>
    refine (nodeOf h).bind ?_
    rintro node g' - ⟨rfl, hnode⟩
    exact .of_pure ⟨rfl, by simp [hnode]⟩

lemma ensures (h : Keeps (fun _ => True) x g post) : Ensures x g post :=
  fun a g' hx => (h trivial _ g' hx).2.2 a rfl

end Keeps

end Build

/-! ### Accepted selections -/

lemma checkSelection_eq_ok {id : RelationId} {fields : List String}
    {lookups : List (String × Lookup)} (h : checkSelection g id ⟨fields, lookups⟩ = .ok ()) :
    ∃ r, g.schema.relation id = .ok r ∧ (∀ name ∈ fields, ∃ c, r.column? name = some c) ∧
      checkLookups g r lookups = .ok () := by
  obtain ⟨r, hr, h⟩ := Except.bind_ok h
  obtain ⟨_, hfields, hlookups⟩ := Except.bind_ok h
  refine ⟨r, hr, ?_, hlookups⟩
  intro name hn
  obtain ⟨c, hc, -⟩ := Except.bind_ok (Except.forM_ok.mp hfields name hn)
  exact ⟨c, Relation.column_eq_ok.mp hc⟩

lemma checkLookups_cons {r : Relation} {name : String} {l : Lookup} {rest : List (String × Lookup)}
    (h : checkLookups g r ((name, l) :: rest) = .ok ()) :
    ∃ c target id t, r.column? name = some c ∧ c.related? = some target ∧
      g.schema.get? target = some t ∧ g.schema.resolve target = .ok id ∧
      g.schema.relation id = .ok t ∧ checkLookup g r name target id l = .ok () ∧
      checkLookups g r rest = .ok () := by
  obtain ⟨c, hc, h⟩ := Except.bind_ok h
  cases ht : c.related? with
  | none =>
    simp only [ht] at h
    cases h
  | some target =>
    simp only [ht] at h
    obtain ⟨id, hid, h⟩ := Except.bind_ok h
    obtain ⟨_, hl, hrest⟩ := Except.bind_ok h
    obtain ⟨t, hg, hrel⟩ := Schema.get?_of_resolve hid
    exact ⟨c, target, id, t, Relation.column_eq_ok.mp hc, ht, hg, hid, hrel, hl, hrest⟩

/-! ### Starting points -/

lemma ofTable_relation (name : String) :
    Build.Ensures (Query.ofTable name) g fun q g' => g' = g ∧
      ∃ id r, q = ⟨g.id, .relation id, []⟩ ∧ g.schema.get? name = some r ∧
        g.schema.relation id = .ok r := by
  refine .get_bind (.lift_bind fun id hid => ?_)
  obtain ⟨r, hname, hr⟩ := Schema.get?_of_resolve hid
  exact .of_pure ⟨rfl, id, r, rfl, hname, hr⟩

end StagedSql
