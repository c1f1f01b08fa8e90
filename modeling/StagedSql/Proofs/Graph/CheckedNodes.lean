import StagedSql.Proofs.Graph.GivenRows
import StagedSql.Proofs.Graph.Views

/-!
Nodes that have been checked, and those that a query needs.

A node is checked against the nodes before it when it is added. Nodes refer to nodes before them, so
that one pass from the newest node on finds all that are needed for a list of handles.
-/

namespace StagedSql

variable {past g : Graph} {h : Handle}

/-! ### Selections -/

mutual

/-- **A selection that fits a relation**: its fields are columns, its lookups go along links, and a
walk stays within one relation. -/
def Selection.Fits (schema : Schema) (r : Relation) : Selection → Prop
  | ⟨fields, lookups⟩ =>
    (∀ name ∈ fields, ∃ c, r.column? name = some c) ∧ Lookup.FitsEach schema r lookups

def Lookup.FitsEach (schema : Schema) (r : Relation) : List (String × Lookup) → Prop
  | [] => True
  | (name, lookup) :: rest =>
    (∃ c t, schema.link? r name = some (c, t) ∧ lookup.Fits schema r t) ∧
      Lookup.FitsEach schema r rest

def Lookup.Fits (schema : Schema) (r t : Relation) : Lookup → Prop
  | .nested s => s.Fits schema t
  | .query _ => True
  | .recursive s _ => t.name = r.name ∧ s.Fits schema t

end

lemma Selection.fits_empty (schema : Schema) (r : Relation) : Selection.empty.Fits schema r := by
  simp [Selection.empty, Selection.Fits, Lookup.FitsEach]

lemma Selection.fits_ofFields {schema : Schema} {r : Relation} {name : String} {c : Column}
    (h : r.column? name = some c) : (Selection.ofFields [name]).Fits schema r := by
  have hone : Selection.ofFields [name] = ⟨[name], []⟩ := rfl
  rw [hone]
  exact ⟨by simp [h], by simp [Lookup.FitsEach]⟩

lemma Selection.handles_ofFields (name : String) : (Selection.ofFields [name]).handles = [] := by
  rfl

mutual

theorem checkSelection_fits {g : Graph} :
    ∀ (selection : Selection) {id : RelationId} {r : Relation}, g.schema.relation id = .ok r →
      checkSelection g id selection = .ok () → selection.Fits g.schema r
  | ⟨fields, lookups⟩, id, r, hr, h => by
    obtain ⟨r', hr', hfields, hlookups⟩ := checkSelection_eq_ok h
    rw [hr] at hr'
    cases hr'
    exact ⟨hfields, checkLookups_fits lookups hlookups⟩

theorem checkLookups_fits {g : Graph} {r : Relation} :
    ∀ lookups : List (String × Lookup), checkLookups g r lookups = .ok () →
      Lookup.FitsEach g.schema r lookups
  | [], _ => by
    trivial
  | (name, lookup) :: rest, h => by
    obtain ⟨c, target, id, t, hc, htarget, ht, -, hid, hlookup, hrest⟩ := checkLookups_cons h
    refine ⟨⟨c, t, Schema.link?_eq_some.mpr ⟨hc, target, htarget, ht⟩, ?_⟩,
      checkLookups_fits rest hrest⟩
    exact checkLookup_fits lookup hid (Schema.name_of_get? ht) hlookup

theorem checkLookup_fits {g : Graph} {r t : Relation} {name target : String} {id : RelationId} :
    ∀ lookup : Lookup, g.schema.relation id = .ok t → t.name = target →
      checkLookup g r name target id lookup = .ok () → lookup.Fits g.schema r t
  | .nested s, hid, _, h => checkSelection_fits s hid h
  | .query _, _, _, _ => by
    trivial
  | .recursive s _, hid, ht, h => by
    rw [checkLookup] at h
    split at h
    · cases h
    · rename_i htarget
      rw [Lookup.Fits, ht]
      exact ⟨not_not.mp htarget, checkSelection_fits s hid h⟩

end

/-! ### Nodes that stand on their own -/

def PayloadValue.isKey : PayloadValue → Bool
  | .parentKey => true
  | _ => false

def Payload.takesKey : Payload → Bool
  | .values entries => entries.any (·.2.isKey)
  | .query _ => false

/-- Whether a node takes the key of a row around it. -/
def Node.takesKey : Node → Bool
  | .insert _ payload _ | .update _ payload _ => payload.takesKey
  | _ => false

/-- **The node of a handle is there and stands on its own.** -/
def Graph.Open (g : Graph) (h : Handle) : Prop :=
  ∃ node, g.node h = .ok node ∧ node.takesKey = false

/-- A source is a relation of the schema or a node that stands on its own. -/
def Source.On (g : Graph) : Source → Prop
  | .relation id => ∃ r, g.schema.relation id = .ok r
  | .node h => g.Open h

section Growing

variable {source : Source}

lemma Graph.Open.has (ho : g.Open h) : g.Has h := ho.imp fun _ hn => hn.1

lemma Graph.Open.mono (ho : past.Open h) (hw : past.Within g) : g.Open h :=
  ho.imp fun _ hn => ⟨hw.node_of hn.1, hn.2⟩

lemma Source.On.mono (hs : source.On past) (hw : past.Within g) : source.On g := by
  cases source with
  | relation id =>
    obtain ⟨r, hr⟩ := hs
    exact ⟨r, by rw [hw.schema]; exact hr⟩
  | node h => exact Graph.Open.mono hs hw

/-- A source gives rows of the same relation whatever is added later. -/
lemma Graph.Within.relationOf_eq (hw : past.Within g) (hs : source.On past) :
    g.relationOf source = past.relationOf source := by
  cases source with
  | relation id => rfl
  | node h =>
    obtain ⟨node, hn, -⟩ := hs
    obtain ⟨p, hp, rfl⟩ := exists_of_node hn
    rw [(hp.trans hw).relationOfNode_eq, hp.relationOfNode_eq]

end Growing

/-! ### Checked nodes -/

/-- **A select that was checked** asks for columns and links of the relation whose rows it reads,
and orders by stored columns of it. -/
structure SelectNode.Checked (g : Graph) (s : SelectNode) : Prop where
  source : s.source.On g
  handles : ∀ h ∈ s.selection.handles, g.Open h
  fits : ∀ id r, g.relationOf s.source = .ok (some id) → g.schema.relation id = .ok r →
    s.selection.Fits g.schema r
  ordering : ∀ id r, g.relationOf s.source = .ok (some id) → g.schema.relation id = .ok r →
    ∀ key ∈ s.ordering, key.column ∈ r.storedNames

/-- **A node that was checked** against the nodes before it. -/
def Node.Checked (g : Graph) : Node → Prop
  | .select s => s.Checked g
  | .insert id payload reverse => (∃ r, g.schema.relation id = .ok r) ∧
      (∀ h ∈ payload.handles, g.Open h) ∧ ∀ e ∈ reverse, ∀ h ∈ e.2, g.Has h
  | .update id payload condition => (∃ r, g.schema.relation id = .ok r) ∧
      (∀ h ∈ payload.handles, g.Open h) ∧ payload.takesKey = false ∧
        ∀ h ∈ Condition.optionHandles condition, g.Open h
  | .delete id condition => (∃ r, g.schema.relation id = .ok r) ∧
      ∀ h ∈ Condition.optionHandles condition, g.Open h
  | .filter source condition => source.On g ∧ ∀ h ∈ condition.handles, g.Open h
  | .common queries => queries ≠ [] ∧ ∀ h ∈ queries, g.Open h
  | .values columns rows =>
    columns ≠ [] ∧ rows ≠ [] ∧ ∀ row ∈ rows, row.length = columns.length

lemma SelectNode.Checked.mono {s : SelectNode} (h : s.Checked past)
    (hw : past.Within g) : s.Checked g := by
  refine ⟨h.source.mono hw, fun k hk => (h.handles k hk).mono hw, ?_, ?_⟩ <;>
    rw [hw.relationOf_eq h.source, hw.schema]
  · exact h.fits
  · exact h.ordering

lemma Node.Checked.mono {node : Node} (h : node.Checked past)
    (hw : past.Within g) : node.Checked g := by
  have hrelation : ∀ {id : RelationId}, (∃ r, past.schema.relation id = .ok r) →
      ∃ r, g.schema.relation id = .ok r := by
    rw [hw.schema]
    exact fun h => h
  cases node with
  | select s => exact SelectNode.Checked.mono h hw
  | insert id payload reverse =>
    exact ⟨hrelation h.1, fun k hk => (h.2.1 k hk).mono hw,
      fun e he k hk => hw.has (h.2.2 e he k hk)⟩
  | update id payload condition =>
    exact ⟨hrelation h.1, fun k hk => (h.2.1 k hk).mono hw, h.2.2.1,
      fun k hk => (h.2.2.2 k hk).mono hw⟩
  | delete id condition => exact ⟨hrelation h.1, fun k hk => (h.2 k hk).mono hw⟩
  | filter source condition => exact ⟨h.1.mono hw, fun k hk => (h.2 k hk).mono hw⟩
  | common queries => exact ⟨h.1, fun k hk => (h.2 k hk).mono hw⟩
  | values columns rows => exact h

/-- **A graph on an accepted schema all of whose nodes were checked.** -/
structure Graph.Sound (g : Graph) : Prop where
  schema : g.schema.Accepted
  nodes : ∀ (past : Graph) (node : Node), (past.push node).Within g → node.Checked past

namespace Graph

variable {node : Node} {source : Source}

lemma sound_empty {schema : Schema} (hs : schema.Accepted) (id : Nat) :
    (empty id schema).Sound := by
  refine ⟨hs, fun past node hw => ?_⟩
  obtain ⟨newer, hnodes⟩ := hw.nodes
  have hlength := congrArg List.length hnodes
  simp [empty, push] at hlength

lemma Sound.of_within (hg : g.Sound) (hw : past.Within g) : past.Sound :=
  ⟨by rw [← hw.schema]; exact hg.schema, fun p node hp => hg.nodes p node (hp.trans hw)⟩

/-- **One more checked node.** -/
lemma Sound.push (hg : g.Sound) (hn : node.Checked g) : (g.push node).Sound := by
  refine ⟨hg.schema, fun past node' hw => ?_⟩
  rcases hw.push_cases with ⟨rfl, rfl⟩ | hw
  · exact hn
  · exact hg.nodes past node' hw

lemma Sound.checked (hg : g.Sound) (hn : g.node h = .ok node) : node.Checked g := by
  obtain ⟨past, hw, rfl⟩ := exists_of_node hn
  exact (hg.nodes past node hw).mono ((within_push _ _).trans hw)

lemma exists_of_mem (hn : node ∈ g.nodes) : ∃ past : Graph, (past.push node).Within g := by
  obtain ⟨newer, older, hnodes⟩ := List.append_of_mem hn
  exact ⟨⟨g.id, g.schema, older⟩, rfl, rfl, newer, hnodes⟩

/-! ### The relation of a source -/

lemma Sound.relationOf_select (hg : g.Sound) {s : SelectNode} (hn : g.node h = .ok (.select s)) :
    g.relationOf (.node h) = g.relationOf s.source := by
  obtain ⟨past, hw, rfl⟩ := exists_of_node hn
  have hs : s.Checked past := hg.nodes past _ hw
  rw [hw.relationOfNode_eq, ((within_push _ _).trans hw).relationOf_eq hs.source]
  refine (if_pos rfl).trans ?_
  obtain ⟨source, _, _, _, _⟩ := s
  cases source <;> rfl

lemma Sound.relationOf_filter (hg : g.Sound) {c : Condition}
    (hn : g.node h = .ok (.filter source c)) : g.relationOf (.node h) = g.relationOf source := by
  obtain ⟨past, hw, rfl⟩ := exists_of_node hn
  have hs : source.On past := (hg.nodes past _ hw).1
  rw [hw.relationOfNode_eq, ((within_push _ _).trans hw).relationOf_eq hs]
  refine (if_pos rfl).trans ?_
  cases source <;> rfl

lemma Sound.relationOf_common (hg : g.Sound) {queries : List Handle} {last : Handle}
    (hn : g.node h = .ok (.common queries)) (hl : queries.getLast? = some last) :
    g.relationOf (.node h) = g.relationOf (.node last) := by
  obtain ⟨past, hw, rfl⟩ := exists_of_node hn
  have hs : (Source.node last).On past := (hg.nodes past _ hw).2 last (List.mem_of_getLast? hl)
  rw [hw.relationOfNode_eq, ((within_push _ _).trans hw).relationOf_eq hs]
  refine (if_pos rfl).trans ?_
  rw [hl]
  rfl

lemma relationOf_write (hn : g.node h = .ok node) {id : RelationId}
    (ht : node.target? = some id) : g.relationOf (.node h) = .ok (some id) := by
  obtain ⟨past, hw, rfl⟩ := exists_of_node hn
  rw [hw.relationOfNode_eq]
  refine (if_pos rfl).trans ?_
  cases node <;> cases ht <;> rfl

lemma relationOf_values {columns : List String} {rows : List (List Value)}
    (hn : g.node h = .ok (.values columns rows)) : g.relationOf (.node h) = .ok none := by
  obtain ⟨past, hw, rfl⟩ := exists_of_node hn
  rw [hw.relationOfNode_eq]
  exact if_pos rfl

/-- **The relation that is found for a source is the one whose rows it gives**, unless they are
written out. -/
lemma Sound.relationOf_gives (hg : g.Sound) {r : Relation} (h : g.Gives source r) :
    (∃ id, g.relationOf source = .ok (some id) ∧ g.schema.relation id = .ok r) ∨
      g.relationOf source = .ok none := by
  induction h with
  | @relation id r hr => exact .inl ⟨id, rfl, hr⟩
  | select hn _ ih => rwa [hg.relationOf_select hn]
  | filter hn _ ih => rwa [hg.relationOf_filter hn]
  | write hn ht hr => exact .inl ⟨_, relationOf_write hn ht, hr⟩
  | common hn hl _ ih => rwa [hg.relationOf_common hn hl]
  | values _ hn => exact .inr (relationOf_values hn)

end Graph

open List

variable {node : Node}

/-! ### Nodes that are referred to -/

lemma Source.On.open_of_mem {source : Source} (hs : source.On g) :
    ∀ h ∈ source.handles, g.Open h := by
  cases source with
  | relation id => simp [Source.handles]
  | node k =>
    intro h hh
    rwa [mem_singleton.mp hh]

lemma Node.Checked.has (hn : node.Checked g) : ∀ h ∈ node.handles, g.Has h := by
  intro h hh
  cases node with
  | select s =>
    rcases mem_append.mp hh with hh | hh
    · exact (SelectNode.Checked.source hn |>.open_of_mem h hh).has
    · exact (SelectNode.Checked.handles hn h hh).has
  | insert id payload reverse =>
    rcases mem_append.mp hh with hh | hh
    · exact (hn.2.1 h hh).has
    · obtain ⟨e, he, hh⟩ := mem_flatMap.mp hh
      exact hn.2.2 e he h hh
  | update id payload condition =>
    rcases mem_append.mp hh with hh | hh
    · exact (hn.2.1 h hh).has
    · exact (hn.2.2.2 h hh).has
  | delete id condition => exact (hn.2 h hh).has
  | filter source condition =>
    rcases mem_append.mp hh with hh | hh
    · exact (hn.1.open_of_mem h hh).has
    · exact (hn.2 h hh).has
  | common queries => exact (hn.2 h hh).has
  | values columns rows => cases hh

namespace Graph

variable {past : Graph} {wanted : List Handle}

lemma Has.of_push (hh : (past.push node).Has h) : h = past.nextHandle ∨ past.Has h := by
  obtain ⟨found, hn⟩ := hh
  obtain ⟨p, hp, rfl⟩ := exists_of_node hn
  obtain ⟨newer, hnodes⟩ := hp.nodes
  have hid : past.id = p.id := hp.id
  cases newer with
  | nil =>
    have hlength := congrArg List.length hnodes
    refine .inl ?_
    rw [nextHandle, nextHandle, hid, size, size]
    simpa [push] using hlength.symm
  | cons first rest =>
    have hw : (p.push found).Within past := ⟨hid, hp.schema, rest, (List.cons.inj hnodes).2⟩
    exact .inr ⟨found, hw.node_eq⟩

/-! ### Needed nodes -/

/-- The newest node is needed if it is wanted, and what it refers to is wanted then. -/
lemma reachable_push (wanted : List Handle) :
    (past.push node).reachable wanted = if wanted.contains past.nextHandle then
        past.reachable (wanted ++ node.handles) ++ [(past.nextHandle, node)]
      else past.reachable wanted :=
  rfl

lemma node_of_reachable : ∀ p ∈ g.reachable wanted, g.node p.1 = .ok p.2 := by
  obtain ⟨id, schema, nodes⟩ := g
  induction nodes generalizing wanted with
  | nil => simp [reachable, reachableIn]
  | cons node rest ih =>
    let past : Graph := ⟨id, schema, rest⟩
    change ∀ p ∈ (past.push node).reachable wanted, (past.push node).node p.1 = .ok p.2
    intro p hp
    rw [reachable_push] at hp
    split at hp
    · rcases mem_append.mp hp with hp | hp
      · exact (within_push past node).node_of (ih p hp)
      · rw [mem_singleton.mp hp]
        exact (Within.refl _).node_eq
    · exact (within_push past node).node_of (ih p hp)

lemma reachable_of_wanted (hw : h ∈ wanted) (hh : g.Has h) :
    h ∈ (g.reachable wanted).map Prod.fst := by
  obtain ⟨id, schema, nodes⟩ := g
  induction nodes generalizing wanted with
  | nil =>
    obtain ⟨node, hn⟩ := hh
    simp [Graph.node, nodeIn?] at hn
  | cons node rest ih =>
    let past : Graph := ⟨id, schema, rest⟩
    change h ∈ ((past.push node).reachable wanted).map Prod.fst
    rw [reachable_push]
    have hhas : (past.push node).Has h := hh
    rcases hhas.of_push with rfl | hh
    · rw [if_pos (contains_iff_mem.mpr hw)]
      simp
    · grind

/-- **What needed nodes refer to is needed.** -/
lemma Sound.reachable_closed (hg : g.Sound) :
    ∀ p ∈ g.reachable wanted, ∀ h ∈ p.2.handles, h ∈ (g.reachable wanted).map Prod.fst := by
  obtain ⟨id, schema, nodes⟩ := g
  induction nodes generalizing wanted with
  | nil => simp [reachable, reachableIn]
  | cons node rest ih =>
    let past : Graph := ⟨id, schema, rest⟩
    have hpast : past.Sound := hg.of_within (within_push past node)
    change ∀ p ∈ (past.push node).reachable wanted, ∀ h ∈ p.2.handles,
      h ∈ ((past.push node).reachable wanted).map Prod.fst
    rw [reachable_push]
    split
    · intro p hp h hh
      rw [map_append]
      refine mem_append_left _ ?_
      rcases mem_append.mp hp with hp | hp
      · exact ih hpast p hp h hh
      · rw [mem_singleton.mp hp] at hh
        have hchecked : node.Checked past := hg.nodes past node (.refl _)
        exact reachable_of_wanted (mem_append_right _ hh) (hchecked.has h hh)
    · exact ih hpast

end Graph

/-! ### Plain parts -/

/-- Whether a node neither writes out rows nor takes the whole rows of a query. -/
def Node.isPlain : Node → Bool
  | .insert _ (.query _) _ | .update _ (.query _) _ | .values _ _ => false
  | _ => true

/-- **A plain part of a graph** refers to nothing outside. -/
structure Graph.PlainPart (g : Graph) (part : List (Handle × Node)) : Prop where
  node : ∀ p ∈ part, g.node p.1 = .ok p.2
  closed : ∀ p ∈ part, ∀ h ∈ p.2.handles, h ∈ part.map Prod.fst
  plain : ∀ p ∈ part, p.2.isPlain = true

section Parts

variable {part : List (Handle × Node)}

lemma Graph.Sound.plainPart (hg : g.Sound) {wanted : List Handle}
    (hplain : ∀ p ∈ g.reachable wanted, p.2.isPlain = true) :
    g.PlainPart (g.reachable wanted) :=
  ⟨node_of_reachable, hg.reachable_closed, hplain⟩

lemma Graph.PlainPart.mem (hp : g.PlainPart part) (hh : h ∈ part.map Prod.fst)
    (hn : g.node h = .ok node) : (h, node) ∈ part := by
  obtain ⟨p, hmem, rfl⟩ := mem_map.mp hh
  have hsame := hp.node p hmem
  rw [hn] at hsame
  cases hsame
  exact hmem

/-- **Nodes of a plain part give rows of relations of the schema**, which are found for them. -/
lemma Graph.PlainPart.relationOf (hp : g.PlainPart part) (hg : g.Sound) {source : Source}
    {r : Relation} (hgives : g.Gives source r)
    (hs : ∀ h ∈ source.handles, h ∈ part.map Prod.fst) :
    ∃ id, g.relationOf source = .ok (some id) ∧ g.schema.relation id = .ok r := by
  have hin : ∀ {h : Handle} {node : Node},
      (∀ k ∈ (Source.node h).handles, k ∈ part.map Prod.fst) → g.node h = .ok node →
        (h, node) ∈ part :=
    fun hs hn => hp.mem (hs _ (.head _)) hn
  induction hgives with
  | @relation id r hr => exact ⟨id, rfl, hr⟩
  | select hn _ ih =>
    rw [hg.relationOf_select hn]
    exact ih fun k hk => hp.closed _ (hin hs hn) k (mem_append_left _ hk)
  | filter hn _ ih =>
    rw [hg.relationOf_filter hn]
    exact ih fun k hk => hp.closed _ (hin hs hn) k (mem_append_left _ hk)
  | write hn ht hr => exact ⟨_, relationOf_write hn ht, hr⟩
  | common hn hl _ ih =>
    rw [hg.relationOf_common hn hl]
    refine ih fun k hk => ?_
    rw [mem_singleton.mp hk]
    exact hp.closed _ (hin hs hn) _ (mem_of_getLast? hl)
  | values _ hn => cases hp.plain _ (hin hs hn)

end Parts

/-! ### Errors -/

def Node.keys : Node → List String
  | .update _ _ (some c) | .delete _ (some c) | .filter _ c => c.keys
  | _ => []

/-- **Errors that are found only when a part of a graph is planned**: a key of a condition is
wrong, or an update has nothing to write. -/
def Error.Expected (g : Graph) (part : List (Handle × Node)) : Error → Prop
  | .invalidLookup key _ _ => ∃ p ∈ part, key ∈ p.2.keys
  | .invalidValue name .nothingToUpdate => ∃ p ∈ part, ∃ id condition r,
      p.2 = .update id (.values []) condition ∧ g.schema.relation id = .ok r ∧ r.name = name
  | _ => False

end StagedSql
