import StagedSql.Proofs.Graph.FilterChains

/-!
Building steps that keep an invariant of graphs.

A step that fails makes nothing, but the nodes that it has added stay. So an invariant has to hold
with what a step adds in any case.
-/

namespace StagedSql

/-- A relation or a node that may be named. -/
def Source.Named (rel : RelationId → Prop) (ok : Handle → Prop) : Source → Prop
  | .relation id => rel id
  | .node h => ok h

lemma Source.Named.handles {rel : RelationId → Prop} {ok : Handle → Prop} {source : Source}
    (h : source.Named rel ok) : ∀ k ∈ source.handles, ok k := by
  cases source with
  | relation id => simp [Source.handles]
  | node k => exact List.forall_mem_singleton.mpr h

/-- **What a query names**: its root and its branches. -/
structure Query.Named (rel : RelationId → Prop) (ok : Handle → Prop) (q : Query) : Prop where
  root : q.root.Named rel ok
  branches : ∀ h ∈ q.branches, ok h

/-- **An invariant of graphs that operations keep.** It is kept if payloads are built, and if a node
is added that names relations and nodes which may be named and, as far as it was made of another
node, goes on from one that fits. -/
structure Graph.StepRules (inv : Graph → Prop) (rel : Graph → RelationId → Prop)
    (ok back : Graph → Handle → Prop) (fit : Graph → Node → Prop) : Prop
    extends Graph.PayloadRules inv ok back where
  rel_mono : ∀ {g g' id}, rel g id → g.Within g' → rel g' id
  relation : ∀ {g id r}, g.schema.relation id = .ok r → rel g id
  fit_mono : ∀ {g g' node}, fit g node → g.Within g' → fit g' node
  nodes : ∀ {g past node}, inv g → (past.push node).Within g → fit past node
  filtered : ∀ {g source c}, fit g (.filter source c) →
    source.Named (rel g) (ok g) ∧ ∀ h ∈ c.handles, ok g h
  all : ∀ {g source}, source.Named (rel g) (ok g) → fit g (.select (.ofSource source .empty))
  select : ∀ {g s selection}, inv g → fit g (.select s) → (∀ h ∈ selection.handles, ok g h) →
    (∀ id r, g.relationOf s.source = .ok (some id) → g.schema.relation id = .ok r →
      selection.Fits g.schema r) → g.Takes inv ok (.select { s with selection })
  order : ∀ {g s key}, inv g → fit g (.select s) →
    (∀ id r, g.relationOf s.source = .ok (some id) → g.schema.relation id = .ok r →
      key.column ∈ r.storedNames) →
      g.Takes inv ok (.select { s with ordering := s.ordering ++ [key] })
  page : ∀ {g s} (limit offset), inv g → fit g (.select s) →
    g.Takes inv ok (.select { s with limit, offset })
  filter : ∀ {g source c}, inv g → source.Named (rel g) (ok g) → (∀ h ∈ c.handles, ok g h) →
    g.Takes inv ok (.filter source c)
  updateBy : ∀ {g id payload existing c}, inv g → fit g (.update id payload existing) →
    (∀ h ∈ c.handles, ok g h) →
      g.Takes inv ok (.update id payload (some (Condition.withExisting existing c)))
  deleteBy : ∀ {g id existing c}, inv g → fit g (.delete id existing) → (∀ h ∈ c.handles, ok g h) →
      g.Takes inv ok (.delete id (some (Condition.withExisting existing c)))
  insertInto : ∀ {g id payload reverse}, inv g → rel g id →
    payload.Made (ok g) (back g) reverse → g.Takes inv ok (.insert id payload reverse)
  update : ∀ {g id payload reverse condition}, inv g → rel g id →
    payload.Made (ok g) (back g) reverse → (∀ h ∈ Condition.optionHandles condition, ok g h) →
      g.Takes inv ok (.update id payload condition)
  delete : ∀ {g id condition}, inv g → rel g id →
    (∀ h ∈ Condition.optionHandles condition, ok g h) → g.Takes inv ok (.delete id condition)
  common : ∀ {g queries}, inv g → queries ≠ [] → (∀ h ∈ queries, ok g h) →
    g.Takes inv ok (.common queries)
  values : ∀ {g columns rows}, inv g → columns ≠ [] → rows ≠ [] →
    (∀ row ∈ rows, row.length = columns.length) → g.Takes inv ok (.values columns rows)

namespace Condition

lemma handles_both (l r : Condition) : (l.both r).handles = l.handles ++ r.handles := by
  cases l <;> cases r <;> simp [both, handles, handlesOf, handlesOf_append]

lemma optionHandles_withExisting (existing : Option Condition) (c : Condition) :
    optionHandles (some (withExisting existing c)) = optionHandles existing ++ c.handles := by
  cases existing with
  | none => simp [withExisting, optionHandles]
  | some e => simp [withExisting, optionHandles, handles_both]

lemma optionHandles_joined (cs : List Condition) : optionHandles (joined? cs) = handlesOf cs := by
  have hfold : ∀ (rest : List Condition) (c : Condition),
      (rest.foldl both c).handles = c.handles ++ handlesOf rest := by
    intro rest
    induction rest with
    | nil => simp [handlesOf]
    | cons d rest ih =>
      intro c
      rw [List.foldl_cons, ih, handles_both, handlesOf, List.append_assoc]
  cases cs with
  | nil => rw [joined?, handlesOf]; rfl
  | cons c rest => rw [joined?, handlesOf, ← hfold]; rfl

end Condition

section Steps

variable {inv : Graph → Prop} {rel : Graph → RelationId → Prop} {ok back : Graph → Handle → Prop}
  {fit : Graph → Node → Prop} {g : Graph} {q : Query} {node : Node}
  (rules : Graph.StepRules inv rel ok back fit)

lemma Build.Keeps.take (hn : inv g → g.Takes inv ok node) :
    Build.Keeps inv (pushNode node) g fun h g' => ok g' h :=
  .of_inv fun hg => .push (fun _ => (hn hg).1) (hn hg).2

lemma ofNode_keeps (hn : inv g → g.Takes inv ok node) :
    Build.Keeps inv (Query.ofNode node) g fun q' g' =>
      q'.graph = g.id ∧ q'.Named (rel g') (ok g') :=
  .of_inv fun hg => .push_bind (fun _ => (hn hg).1) (.of_pure ⟨rfl, (hn hg).2, by simp⟩)

include rules

lemma Graph.StepRules.fit_of_node (hg : inv g) {h : Handle} (hn : g.node h = .ok node) :
    fit g node := by
  obtain ⟨past, hw, rfl⟩ := Graph.exists_of_node hn
  exact rules.fit_mono (rules.nodes hg hw) ((Graph.within_push _ _).trans hw)

lemma Query.Named.mono {g' : Graph} (hq : q.Named (rel g) (ok g)) (hw : g.Within g') :
    q.Named (rel g') (ok g') := by
  refine ⟨?_, fun h hh => rules.ok_mono (hq.branches h hh) hw⟩
  obtain ⟨graph, root, branches⟩ := q
  cases root with
  | relation id => exact rules.rel_mono hq.root hw
  | node h => exact rules.ok_mono hq.root hw

lemma withNode_keeps (hq : q.Named (rel g) (ok g)) (hn : inv g → g.Takes inv ok node) :
    Build.Keeps inv (q.withNode node) g fun q' g' =>
      q'.graph = q.graph ∧ q'.Named (rel g') (ok g') :=
  (Build.Keeps.take hn).bind fun _ _ hw hk =>
    .of_pure ⟨rfl, hk, fun h hh => rules.ok_mono (hq.branches h hh) hw⟩

lemma selectNode_keeps {α : Type} {f : SelectNode → Build α} {post : α → Graph → Prop}
    (hq : q.Named (rel g) (ok g)) (hf : ∀ s, fit g (.select s) → Build.Keeps inv (f s) g post) :
    Build.Keeps inv (q.selectNode >>= f) g post := by
  have hselect : Build.Keeps inv q.selectNode g fun s g' => g' = g ∧ fit g (.select s) := by
    refine .of_inv fun hg => (Build.Keeps.rootNode? q).bind ?_
    rintro node? g' - ⟨rfl, hnode⟩
    split
    · obtain ⟨h, -, hn⟩ := (hnode _).mp rfl
      exact .of_pure ⟨rfl, rules.fit_of_node hg hn⟩
    · exact .of_pure ⟨rfl, rules.all hq.root⟩
  refine hselect.bind ?_
  rintro s _ - ⟨rfl, hs⟩
  exact hf s hs

lemma handle_keeps (hq : q.Named (rel g) (ok g)) :
    Build.Keeps inv q.handle g fun h g' => ok g' h := by
  -- whatever the root is, branches before it make a list of queries
  have hlast : ∀ {g' : Graph} {root : Handle}, g.Within g' → ok g' root →
      Build.Keeps inv (if q.branches.isEmpty then pure root
        else pushNode (.common (q.branches ++ [root]))) g' fun h g'' => ok g'' h := by
    intro g' root hw hroot
    split
    · exact .of_pure hroot
    · refine .take fun hg => rules.common hg (by simp) (List.forall_mem_append.mpr ⟨?_, by simpa⟩)
      exact fun k hk => rules.ok_mono (hq.branches k hk) hw
  obtain ⟨graph, root, branches⟩ := q
  cases root with
  | relation id =>
    have hnode : inv g → g.Takes inv ok (.select (.ofSource (.relation id) .empty)) :=
      fun hg => rules.page none none hg (rules.all hq.root)
    exact (Build.Keeps.take hnode).bind fun _ _ hw hk => hlast hw hk
  | node h => exact hlast (.refl g) hq.root

lemma handles_keeps : ∀ {queries : List Query} {g : Graph},
    (∀ q ∈ queries, q.Named (rel g) (ok g)) →
      Build.Keeps inv (queries.mapM Query.handle) g fun handles g' => ∀ h ∈ handles, ok g' h
  | [], _, _ => .of_pure (by simp)
  | q :: rest, g, hq => by
    rw [List.forall_mem_cons] at hq
    rw [List.mapM_cons]
    refine (handle_keeps rules hq.1).bind fun h g1 hw1 hh => ?_
    refine (handles_keeps fun q' hmem => (hq.2 q' hmem).mono rules hw1).bind
      fun more g2 hw2 hmore => .of_pure ?_
    exact List.forall_mem_cons.mpr ⟨rules.ok_mono hh hw2, hmore⟩

lemma commonOf_keeps {handles : List Handle} (hh : ∀ h ∈ handles, ok g h) :
    Build.Keeps inv (Query.commonOf handles) g fun q' g' =>
      q'.graph = g.id ∧ q'.Named (rel g') (ok g') := by
  rw [Query.commonOf]
  split
  · exact .throw_bind
  · rename_i hne
    exact ofNode_keeps fun hg => rules.common hg (by simpa using hne) hh

lemma mutationTarget_keeps (hq : q.Named (rel g) (ok g)) :
    Build.Keeps inv q.mutationTarget g fun target g' => g' = g ∧ rel g target.1 ∧
      ∀ h ∈ Condition.optionHandles target.2, ok g h := by
  refine .get_bind (.of_inv fun hg => ?_)
  obtain ⟨graph, root, branches⟩ := q
  cases root with
  | relation id => exact .of_pure ⟨rfl, hq.root, by simp [Condition.optionHandles]⟩
  | node h =>
    refine .lift_bind fun chain hchain => .of_pure ⟨rfl, ?_, fun k hk => ?_⟩
    · obtain ⟨-, ⟨past, c, hw⟩, -⟩ := filterChain_nodes hchain
      exact rules.rel_mono (rules.filtered (rules.nodes hg hw)).1 ((Graph.within_push _ _).trans hw)
    · rw [Condition.optionHandles_joined] at hk
      obtain ⟨c, hc, hk⟩ := Condition.mem_handlesOf hk
      obtain ⟨past, source, hw⟩ := (filterChain_nodes hchain).2.2 c hc
      exact rules.ok_mono ((rules.filtered (rules.nodes hg hw)).2 k hk)
        ((Graph.within_push _ _).trans hw)

end Steps

/-! ### Checked nodes -/

lemma Graph.open_push (g : Graph) {node : Node} (hn : node.takesKey = false) :
    (g.push node).Open g.nextHandle :=
  ⟨node, (Graph.Within.refl _).node_eq, hn⟩

/-- The nodes that are added for a payload are checked, and all but the rows that refer back stand
on their own. -/
lemma Graph.Sound.payloadRules : Graph.PayloadRules Graph.Sound Graph.Open Graph.Has where
  ok_mono := Graph.Open.mono
  back_mono hh hw := hw.has hh
  key {g h id r} hg ho hid hr := by
    refine ⟨hg.push ⟨ho, ?_, fun id' r' hid' hr' => ?_, fun _ _ _ _ key hkey => by cases hkey⟩,
      g.open_push rfl⟩
    · tauto
    · change g.relationOf (.node h) = _ at hid'
      rw [hid] at hid'
      cases hid'
      rw [hr] at hr'
      cases hr'
      obtain ⟨c, hc⟩ := hg.schema.key r (Schema.mem_of_relation hr)
      exact Selection.fits_ofFields hc
  insert {g _ _ _} hg hr hp := ⟨hg.push ⟨hr, hp.handles, hp.reverse⟩, g.open_push hp.own⟩
  insertBack {g _ _ _} via hg hr hp := by
    refine ⟨hg.push ⟨hr, fun k hk => hp.handles k ?_, hp.reverse⟩, _, (Graph.Within.refl _).node_eq⟩
    simpa [Payload.handles] using hk

/-- **A query on a graph**: its root and its branches stand on their own. -/
structure Query.On (g : Graph) (q : Query) : Prop where
  root : q.root.On g
  branches : ∀ h ∈ q.branches, g.Open h

lemma Query.On.mono {g g' : Graph} {q : Query} (hq : q.On g) (hw : g.Within g') : q.On g' :=
  ⟨hq.root.mono hw, fun h hh => (hq.branches h hh).mono hw⟩

lemma Source.named_iff {g : Graph} {source : Source} :
    source.Named (fun id => ∃ r, g.schema.relation id = .ok r) g.Open ↔ source.On g := by
  cases source <;> rfl

lemma Query.named_iff {g : Graph} {q : Query} :
    q.Named (fun id => ∃ r, g.schema.relation id = .ok r) g.Open ↔ q.On g :=
  ⟨fun h => ⟨Source.named_iff.mp h.root, h.branches⟩,
    fun h => ⟨Source.named_iff.mpr h.root, h.branches⟩⟩

/-- **Operations add checked nodes.** -/
lemma Graph.Sound.stepRules : Graph.StepRules Graph.Sound
    (fun g id => ∃ r, g.schema.relation id = .ok r) Graph.Open Graph.Has
    (fun g node => node.Checked g) where
  toPayloadRules := Graph.Sound.payloadRules
  rel_mono h hw := by rwa [hw.schema]
  relation hr := ⟨_, hr⟩
  fit_mono h hw := h.mono hw
  nodes hg hw := hg.nodes _ _ hw
  filtered h := ⟨Source.named_iff.mpr h.1, h.2⟩
  all h := by
    refine ⟨Source.named_iff.mp h, ?_, fun _ r _ _ => Selection.fits_empty _ r,
      fun _ _ _ _ _ hkey => by cases hkey⟩
    tauto
  select hg hs hh hfits := ⟨hg.push ⟨hs.source, hh, hfits, hs.ordering⟩, Graph.open_push _ rfl⟩
  order hg hs hkey := by
    refine ⟨hg.push ⟨hs.source, hs.handles, hs.fits, fun id r hid hr => ?_⟩, Graph.open_push _ rfl⟩
    exact List.forall_mem_append.mpr ⟨hs.ordering id r hid hr, by simpa using hkey id r hid hr⟩
  page _ _ hg hs := ⟨hg.push ⟨hs.source, hs.handles, hs.fits, hs.ordering⟩, Graph.open_push _ rfl⟩
  filter hg hs hh := ⟨hg.push ⟨Source.named_iff.mp hs, hh⟩, Graph.open_push _ rfl⟩
  updateBy hg hu hh := by
    obtain ⟨hr, hpayload, hown, hexisting⟩ := hu
    refine ⟨hg.push ⟨hr, hpayload, hown, ?_⟩, Graph.open_push _ hown⟩
    rw [Condition.optionHandles_withExisting, List.forall_mem_append]
    exact ⟨hexisting, hh⟩
  deleteBy hg hd hh := by
    refine ⟨hg.push ⟨hd.1, ?_⟩, Graph.open_push _ rfl⟩
    rw [Condition.optionHandles_withExisting, List.forall_mem_append]
    exact ⟨hd.2, hh⟩
  insertInto := Graph.Sound.payloadRules.insert
  update hg hr hp hc := ⟨hg.push ⟨hr, hp.handles, hp.own, hc⟩, Graph.open_push _ hp.own⟩
  delete hg hr hc := ⟨hg.push ⟨hr, hc⟩, Graph.open_push _ rfl⟩
  common hg hne hh := ⟨hg.push ⟨hne, hh⟩, Graph.open_push _ rfl⟩
  values hg hc hr hl := ⟨hg.push ⟨hc, hr, hl⟩, Graph.open_push _ rfl⟩

end StagedSql
