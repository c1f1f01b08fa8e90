import StagedSql.Proofs.Graph.Builds

/-!
The relations whose rows the nodes of a graph give.

Rows that are written out are those of a relation which no schema holds. Columns that may be read of
the rows of a relation are given by `Graph.Permits`.
-/

namespace StagedSql

variable {g : Graph} {R : Relation → String → Prop}

/-- The relation that a node writes to. -/
def Node.target? : Node → Option RelationId
  | .insert id _ _ | .update id _ _ | .delete id _ => some id
  | _ => none

/-- **The relation whose rows a source gives.** Rows that are written out have one of any name,
whose columns hold values. -/
inductive Graph.Gives (g : Graph) : Source → Relation → Prop
  | relation {id : RelationId} {r : Relation} (hr : g.schema.relation id = .ok r) :
      g.Gives (.relation id) r
  | select {h : Handle} {s : SelectNode} {r : Relation} (hn : g.node h = .ok (.select s))
      (hs : g.Gives s.source r) : g.Gives (.node h) r
  | filter {h : Handle} {source : Source} {c : Condition} {r : Relation}
      (hn : g.node h = .ok (.filter source c)) (hs : g.Gives source r) : g.Gives (.node h) r
  | write {h : Handle} {node : Node} {id : RelationId} {r : Relation} (hn : g.node h = .ok node)
      (ht : node.target? = some id) (hr : g.schema.relation id = .ok r) : g.Gives (.node h) r
  | common {h last : Handle} {queries : List Handle} {r : Relation}
      (hn : g.node h = .ok (.common queries)) (hl : queries.getLast? = some last)
      (hs : g.Gives (.node last) r) : g.Gives (.node h) r
  | values {h : Handle} {columns : List String} {rows : List (List Value)} (name : String)
      (hn : g.node h = .ok (.values columns rows)) :
      g.Gives (.node h) ⟨name, columns.map Column.scalar⟩

/-- The relations whose rows a statement may read: those of the schema, and those of rows that are
written out. -/
def Graph.Knows (g : Graph) (r : Relation) : Prop :=
  r ∈ g.schema.relations ∨
    ∃ columns rows, .values columns rows ∈ g.nodes ∧ r.columns = columns.map Column.scalar

section Gives

variable {g : Graph} {h : Handle} {r : Relation} {node : Node} {source : Source} {c : Column}

lemma Graph.nodeIn?_mem {nodes : List Node} {index : Nat}
    (h : Graph.nodeIn? nodes index = some node) : node ∈ nodes := by
  induction nodes with
  | nil => cases h
  | cons first rest ih =>
    rw [Graph.nodeIn?] at h
    grind

lemma Graph.mem_of_node (hn : g.node h = .ok node) : node ∈ g.nodes := by
  rw [Graph.node] at hn
  split at hn
  · split at hn
    · rename_i found hfound
      cases hn
      exact Graph.nodeIn?_mem hfound
    · cases hn
  · cases hn

lemma Graph.Gives.knows (hg : g.Gives source r) : g.Knows r := by
  induction hg with
  | relation hr => exact .inl (Schema.mem_of_relation hr)
  | select _ _ ih => exact ih
  | filter _ _ ih => exact ih
  | write _ _ hr => exact .inl (Schema.mem_of_relation hr)
  | common _ _ _ ih => exact ih
  | values name hn => exact .inr ⟨_, _, Graph.mem_of_node hn, rfl⟩

/-- What rows a node gives: a select, a filter and queries that are run in order give those of what
they read, and a write those of the relation that it writes to. -/
def Node.GivesIn (g : Graph) (r : Relation) : Node → Prop
  | .select s => g.Gives s.source r
  | .filter source _ => g.Gives source r
  | .common queries => ∀ last, queries.getLast? = some last → g.Gives (.node last) r
  | .insert id _ _ | .update id _ _ | .delete id _ => g.schema.relation id = .ok r
  | .values columns _ => r.columns = columns.map Column.scalar

lemma Graph.Gives.at_node (hn : g.node h = .ok node) (hg : g.Gives (.node h) r) :
    node.GivesIn g r := by
  cases hg with
  | select hn' hs | filter hn' hs =>
    rw [hn] at hn'
    cases hn'
    exact hs
  | write hn' ht hr =>
    rw [hn] at hn'
    cases hn'
    cases node <;> cases ht <;> exact hr
  | common hn' hl hs =>
    rw [hn] at hn'
    cases hn'
    intro last hlast
    rw [hl] at hlast
    cases hlast
    exact hs
  | values _ hn' =>
    rw [hn] at hn'
    cases hn'
    rfl

lemma Graph.Gives.of_write (hn : g.node h = .ok node) {id : RelationId}
    (ht : node.target? = some id) {r' : Relation} (hr : g.schema.relation id = .ok r')
    (hg : g.Gives (.node h) r) : r = r' := by
  have hat := hg.at_node hn
  cases node <;> cases ht <;> exact Except.ok.inj (hat.symm.trans hr)

/-- Rows that are written out hold nothing but values, so a column that leads to other rows is one
of the schema. -/
lemma Graph.Knows.mem_of_related (hk : g.Knows r) (hc : c ∈ r.columns) {target : String}
    (hrelated : c.related? = some target) : r ∈ g.schema.relations := by
  rcases hk with hr | ⟨columns, rows, -, hcolumns⟩
  · exact hr
  · rw [hcolumns] at hc
    obtain ⟨name, -, rfl⟩ := List.mem_map.mp hc
    cases hrelated

lemma Column.related?_of_isReverse (h : c.isReverse = true) :
    ∃ target via, c.kind = .reverse target via ∧ c.related? = some target := by
  unfold Column.isReverse at h
  split at h
  · rename_i target via hk
    exact ⟨target, via, hk, by simp [Column.related?, hk]⟩
  · cases h

end Gives

/-! ### Columns that may be read -/

/-- The column of a relation by which its rows are linked to a row that a column leads from. -/
def Column.linkOf (c : Column) (r : Relation) : String :=
  match c.kind with
  | .reverse _ via => via
  | _ => r.primaryKey

/-- The column of a row that a column leads from by which other rows are linked to it. -/
def Column.linkFrom (c : Column) (r : Relation) : String :=
  match c.kind with
  | .reverse _ _ => r.primaryKey
  | _ => c.name

/-- **One side of a link is a stored column, and the other one a primary key**, that of the relation
which is referred to. -/
lemma Schema.Linked.sides {schema : Schema} (hs : schema.Linked) {owner related : Relation}
    (howner : owner ∈ schema.relations) {name : String} {c : Column}
    (hc : owner.column? name = some c) {target : String} (htarget : c.related? = some target)
    (hrelated : schema.get? target = some related) :
    if c.isReverse then c.linkOf related ∈ related.storedNames ∧ c.linkFrom owner = owner.primaryKey
    else c.linkFrom owner ∈ owner.storedNames ∧ c.linkOf related = related.primaryKey := by
  cases hkind : c.kind with
  | scalar => simp [Column.related?, hkind] at htarget
  | forward =>
    have hstored := Relation.mem_storedNames hc (by simp [Column.isReverse, hkind])
    simpa [Column.isReverse, Column.linkOf, Column.linkFrom, hkind, Relation.name_of_column? hc]
  | reverse target' via =>
    obtain ⟨t, ht, link, hlink, hforward⟩ :=
      hs.reverse owner howner c (Relation.mem_of_column? hc) target' via hkind
    have hsame : target' = target := by simpa [Column.related?, hkind] using htarget
    rw [hsame, hrelated] at ht
    cases ht
    have hstored := Relation.mem_storedNames hlink (by simp [Column.isReverse, hforward])
    simpa [Column.isReverse, Column.linkOf, Column.linkFrom, hkind]

mutual

/-- **Queries by which a selection of a relation looks up rows can be linked**: the column of the
link may be read of the rows that they give. -/
def Selection.Links (g : Graph) (R : Relation → String → Prop) (r : Relation) : Selection → Prop
  | ⟨_, lookups⟩ => Lookup.LinksEach g R r lookups

def Lookup.LinksEach (g : Graph) (R : Relation → String → Prop) (r : Relation) :
    List (String × Lookup) → Prop
  | [] => True
  | (name, lookup) :: rest =>
    (∀ c, r.column? name = some c → lookup.Links g R c) ∧ Lookup.LinksEach g R r rest

def Lookup.Links (g : Graph) (R : Relation → String → Prop) (c : Column) : Lookup → Prop
  | .nested s => ∀ target t, c.related? = some target → g.schema.get? target = some t →
      s.Links g R t
  | .query h => ∀ r, g.Gives (.node h) r → R r (c.linkOf r)
  | .recursive s _ => ∀ target t, c.related? = some target → g.schema.get? target = some t →
      s.Links g R t

end

lemma Selection.links_of_nil {r : Relation} {selection : Selection}
    (h : selection.lookups = []) : selection.Links g R r := by
  obtain ⟨fields, lookups⟩ := selection
  subst h
  simp [Selection.Links, Lookup.LinksEach]

/-- **Columns that may be read of the rows of a relation**: the stored ones, the primary key, those
that a select orders by, and those that rows are linked by. -/
structure Graph.Permits (g : Graph) (R : Relation → String → Prop) : Prop where
  congr : ∀ {r r' : Relation} {c : String}, r.columns = r'.columns → R r c → R r' c
  stored : ∀ r, g.Knows r → ∀ c ∈ r.storedNames, R r c
  key : ∀ r ∈ g.schema.relations, R r r.primaryKey
  ordering : ∀ h s r, g.node h = .ok (.select s) → g.Gives s.source r →
    ∀ key ∈ s.ordering, R r key.column
  links : ∀ h s r, g.node h = .ok (.select s) → g.Gives s.source r → s.selection.Links g R r

/-- **The two columns of a link may be read**, one on each side. -/
lemma Graph.Permits.link (hp : g.Permits R) (hschema : g.schema.Accepted) {owner related : Relation}
    (hk : g.Knows owner) {name : String} {c : Column} (hc : owner.column? name = some c)
    {target : String} (htarget : c.related? = some target)
    (hrelated : g.schema.get? target = some related) :
    R related (c.linkOf related) ∧ R owner (c.linkFrom owner) := by
  have howner := hk.mem_of_related (Relation.mem_of_column? hc) htarget
  have hrelated' := Schema.mem_of_get? hrelated
  have hsides := hschema.sides howner hc htarget hrelated
  split at hsides
  · rw [hsides.2]
    exact ⟨hp.stored related (.inl hrelated') _ hsides.1, hp.key owner howner⟩
  · rw [hsides.2]
    exact ⟨hp.key related hrelated', hp.stored owner hk _ hsides.1⟩

/-- Rows of any relation can be linked by any column. -/
def Graph.LinksAll (g : Graph) (R : Relation → String → Prop) : Prop :=
  ∀ r, g.Knows r → ∀ c ∈ r.columns, ∀ r', g.Knows r' → R r' (c.linkOf r')

mutual

/-- If rows of any relation can be linked by any column, all queries can. -/
lemma Selection.links_of_all (hlinks : g.LinksAll R) :
    ∀ (selection : Selection) {r : Relation}, g.Knows r → selection.Links g R r
  | ⟨_, lookups⟩, _, hr => Lookup.linksEach_of_all hlinks lookups hr

lemma Lookup.linksEach_of_all (hlinks : g.LinksAll R) : ∀ (lookups : List (String × Lookup))
    {r : Relation}, g.Knows r → Lookup.LinksEach g R r lookups
  | [], _, _ => by
    trivial
  | (_, lookup) :: rest, _, hr =>
    ⟨fun _ hc => Lookup.links_of_all hlinks lookup hr (Relation.mem_of_column? hc),
      Lookup.linksEach_of_all hlinks rest hr⟩

lemma Lookup.links_of_all (hlinks : g.LinksAll R) : ∀ (lookup : Lookup) {r : Relation} {c : Column},
    g.Knows r → c ∈ r.columns → lookup.Links g R c
  | .nested s, _, _, _, _ | .recursive s _, _, _, _, _ =>
    fun _ _ _ ht => Selection.links_of_all hlinks s (.inl (Schema.mem_of_get? ht))
  | .query _, r, c, hr, hc => fun r' hg => hlinks r hr c hc r' hg.knows

end

lemma permits_all (g : Graph) : g.Permits fun _ _ => True where
  congr _ _ := trivial
  stored _ _ _ _ := trivial
  key _ _ := trivial
  ordering _ _ _ _ _ _ _ := trivial
  links _ s _ _ hg := Selection.links_of_all (fun _ _ _ _ _ _ => trivial) s.selection hg.knows

end StagedSql
