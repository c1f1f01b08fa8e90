import StagedSql.Proofs.Plan.MarkedStatements
import StagedSql.Schema.Toml

/-!
Columns that are read are there.

A column is read through the name of a FROM item. Names that are made up tell by their letter what
the item is, and by their number which one, so whatever goes by the name of a column that is read
offers this column.
-/

namespace StagedSql

open List FromItem

/-! ### Columns that are offered -/

/-- **The columns that a FROM item offers**: a relation its stored columns, and rows that are
written out those that are declared. Of named statements and other derived tables nothing is
said. -/
def FromItem.Offers (schema : Schema) : FromItem → String → Prop
  | .table name _, c => ∀ r ∈ schema.relations, r.name = name → c ∈ r.storedNames
  | .derived (.values _) _ columns, c => c ∈ columns
  | .derived _ _ _, _ => True

/-- **What is not checked when a graph is built**: that primary keys are stored, that no relation
has a name that may be made up, that rows which are written out are ordered by their own columns,
and that rows which are looked up by a query have the column of the link. -/
structure Graph.ReadsStored (g : Graph) : Prop where
  names : g.schema.PlainRelations
  key : ∀ r ∈ g.schema.relations, r.primaryKey ∈ r.storedNames
  ordering : ∀ h s r, g.node h = .ok (.select s) → g.relationOf s.source = .ok none →
    g.Gives s.source r → ∀ key ∈ s.ordering, key.column ∈ r.storedNames
  links : ∀ h s r, g.node h = .ok (.select s) → g.Gives s.source r →
    s.selection.Links g (fun r c => c ∈ r.storedNames) r

lemma Graph.ReadsStored.permits {g : Graph} (hr : g.ReadsStored) (hg : g.Sound) :
    g.Permits fun r c => c ∈ r.storedNames where
  congr h hc := by rwa [Relation.storedNames, ← h]
  stored _ _ _ hc := hc
  key := hr.key
  ordering h s r hn hgives := by
    rcases hg.relationOf_gives hgives with ⟨id, hid, hrelation⟩ | hnone
    · have hs : s.Checked g := hg.checked hn
      exact hs.ordering id r hid hrelation
    · exact hr.ordering h s r hn hnone hgives
  links := hr.links

lemma storedNames_scalar (name : String) (columns : List String) :
    Relation.storedNames ⟨name, columns.map Column.scalar⟩ = columns := by
  simp [Relation.storedNames, filter_map, Function.comp_def, Column.isReverse, Column.scalar]

/-! ### What a name tells -/

/-- The letter of a name that may be made up, and nothing for another one. -/
def nameSort (name : String) : Option Char :=
  if isGeneratedName name then name.toList.head? else none

lemma nameSort_numberedName {letter : Char} (h : letter ∈ generatedLetters) (n : Nat) :
    nameSort (numberedName letter n) = some letter := by
  rw [nameSort, if_pos (isGeneratedName_numberedName h n), toList_numberedName, head?_cons]

lemma nameSort_of_plain {name : String} (h : isGeneratedName name = false) :
    nameSort name = none := by
  rw [nameSort, if_neg (by simp [h])]

/-- **What a FROM item is can be told by its name**: these are the letters that it may begin
with. -/
def FromItem.sorts : FromItem → List (Option Char)
  | .table _ none => [none, some 't', some 'c']
  | .table _ (some _) => [some 'r']
  | .derived (.values _) _ _ => [some 'v']
  | .derived _ _ _ => [some 'u', some 'j', some 'a', some 'x']

section Sorts

variable {g : Graph} {i j : FromItem}

lemma FromItem.Within.sort (hplain : g.schema.PlainRelations) {n n' : Names} (h : i.Within n n')
    (hgood : i.Good g) : nameSort i.qualifier ∈ i.sorts := by
  have hsort : ∀ {letter : Char} {l : List (Option Char)}, letter ∈ generatedLetters →
      some letter ∈ l → ∀ k, nameSort (numberedName letter k) ∈ l := by
    intro letter l hletter hl k
    rwa [nameSort_numberedName hletter]
  cases i with
  | table name label =>
    cases label with
    | none =>
      change nameSort name ∈ _
      rcases hgood with ⟨r, hr, rfl⟩ | ⟨k, rfl⟩ | ⟨k, rfl⟩
      · rw [nameSort_of_plain (hplain r hr)]
        exact mem_cons_self
      · exact hsort (by decide) (by simp [sorts]) k
      · exact hsort (by decide) (by simp [sorts]) k
    | some label =>
      obtain ⟨k, -, -, rfl⟩ := h
      exact hsort (by decide) (by simp [sorts]) k
  | derived query label columns =>
    cases query with
    | values rows =>
      obtain ⟨k, -, -, rfl⟩ := h
      exact hsort (by decide) (by simp [sorts]) k
    | _ =>
      obtain ⟨letter, hl, k, rfl⟩ := h
      simp only [mem_cons, not_mem_nil, or_false] at hl
      rcases hl with rfl | rfl | rfl <;> exact hsort (by decide) (by simp [sorts]) k

lemma FromItem.eq_of_sort_none (h : none ∈ i.sorts) : ∃ name, i = .table name none := by
  cases i with
  | table name label => cases label <;> simp_all [sorts]
  | derived query label columns => cases query <;> simp [sorts] at h

lemma FromItem.eq_of_sort_r (h : some 'r' ∈ i.sorts) :
    ∃ name label, i = .table name (some label) := by
  cases i with
  | table name label => cases label <;> simp_all [sorts]
  | derived query label columns => cases query <;> simp [sorts] at h

lemma FromItem.eq_of_sort_v (h : some 'v' ∈ i.sorts) :
    ∃ rows label columns, i = .derived (.values rows) label columns := by
  cases i with
  | table name label => cases label <;> simp [sorts] at h
  | derived query label columns => cases query <;> simp_all [sorts]

lemma FromItem.Allows.stored (hplain : g.schema.PlainRelations) {name c : String}
    {label : Option String}
    (h : (table name label).Allows g (fun r c => c ∈ r.storedNames) c) {r : Relation}
    (hr : r ∈ g.schema.relations) (hname : r.name = name) : c ∈ r.storedNames := by
  have hne : ∀ {letter : Char}, letter ∈ generatedLetters → ∀ k, name ≠ numberedName letter k :=
    fun hl k => ne_numberedName (hname ▸ hplain r hr) hl
  rcases h with ⟨k, hk⟩ | ⟨k, hk⟩ | h
  · exact (hne (by decide) k hk).elim
  · exact (hne (by decide) k hk).elim
  · exact h r hr hname

/-- **Items of one name offer the same columns**, since they are of one sort, and those whose names
are numbered are the same. -/
lemma FromItem.Allows.offers (hplain : g.schema.PlainRelations)
    (hi : nameSort i.qualifier ∈ i.sorts) (hj : nameSort j.qualifier ∈ j.sorts)
    (hq : i.qualifier = j.qualifier)
    (htables : ∀ {name name' label : String}, i = .table name (some label) →
      j = .table name' (some label) → name = name')
    (hvalues : ∀ {rows rows' : List (List Expr)} {label : String} {columns columns' : List String},
      i = .derived (.values rows) label columns → j = .derived (.values rows') label columns' →
        columns = columns') {c : String}
    (ha : i.Allows g (fun r c => c ∈ r.storedNames) c) : j.Offers g.schema c := by
  rw [hq] at hi
  cases j with
  | table name label =>
    intro r hr hname
    cases label with
    | none =>
      have hnone : nameSort name = none := nameSort_of_plain (hname ▸ hplain r hr)
      change nameSort name ∈ _ at hi
      rw [hnone] at hi
      obtain ⟨name', rfl⟩ := eq_of_sort_none hi
      exact ha.stored hplain hr (hname.trans hq.symm)
    | some label =>
      have hlabel : nameSort label = some 'r' := mem_singleton.mp hj
      change nameSort label ∈ _ at hi
      rw [hlabel] at hi
      obtain ⟨name', label', rfl⟩ := eq_of_sort_r hi
      cases hq
      exact ha.stored hplain hr (hname.trans (htables rfl rfl).symm)
  | derived query label columns =>
    cases query with
    | values rows =>
      have hlabel : nameSort label = some 'v' := mem_singleton.mp hj
      change nameSort label ∈ _ at hi
      rw [hlabel] at hi
      obtain ⟨rows', label', columns', rfl⟩ := eq_of_sort_v hi
      cases hq
      cases hvalues rfl rfl
      have hc : c ∈ Relation.storedNames ⟨"", columns.map Column.scalar⟩ := ha _ rfl
      rwa [storedNames_scalar] at hc
    | _ => trivial

end Sorts

/-! ### Statements -/

/-- **Columns that are read are there.** Let a query be built by any sequence of operations without
expressions that are taken as they are, and let what is not checked hold. Then every column that the
statement of the query reads is read through the name of a FROM item, and any FROM item of this name
that scans a relation or rows that are written out offers the column. -/
theorem built_statements_resolve_columns {schema : Schema} {relations : List Relation}
    (hschema : Schema.ofRelations schema.id relations = .ok schema) {w : Workbench}
    (hw : w.Reached schema) (hexprs : w.graph.NoExpr) (hreads : w.graph.ReadsStored) {q : Query}
    {statement : Statement} (h : q.toStatement w.graph = .ok statement) :
    ∀ name c, .column name c ∈ statement.marks →
      (∃ i, .item i ∈ statement.marks ∧ i.qualifier = name) ∧
        ∀ i, .item i ∈ statement.marks → i.qualifier = name → i.Offers w.graph.schema c := by
  have hsound := (hw.sound (accepted_of_ofRelations hschema)).graph
  have hnone : w.graph.exprs = [] := Graph.exprs_of_noExpr hexprs
  have hplanned := toStatement_planned hsound.schema (hreads.permits hsound) h
  have hgood : ∀ m ∈ statement.marks,
      m.Good w.graph (fun r c => c ∈ r.storedNames) noRow statement.marks := by
    intro m hm
    rcases hplanned.good m hm with ⟨e, he, -⟩ | hgood
    · rw [hnone] at he
      cases he
    · exact hgood
  obtain ⟨s, L, hspans, hitems⟩ := hplanned.spans hnone
  have hsort : ∀ i, .item i ∈ statement.marks → nameSort i.qualifier ∈ i.sorts := by
    intro i hi
    rcases hitems i hi with hmem | ⟨inner, rfl⟩
    · exact (hspans.within i hmem).sort hreads.names (hgood _ hi)
    · change nameSort "x" ∈ [some 'u', some 'j', some 'a', some 'x']
      decide
  intro name c hc
  obtain ⟨i, hi, hq, ha⟩ := (hgood _ hc).resolve_left id
  refine ⟨⟨i, hi, hq⟩, fun j hj hq' => ?_⟩
  refine ha.offers hreads.names (hsort i hi) (hsort j hj) (hq.trans hq'.symm) ?_ ?_
  · rintro name name' label rfl rfl
    exact hspans.tables ((hitems _ hi).resolve_right nofun) ((hitems _ hj).resolve_right nofun)
  · rintro rows rows' label columns columns' rfl rfl
    exact hspans.values ((hitems _ hi).resolve_right nofun) ((hitems _ hj).resolve_right nofun)

/-- A column that is read. -/
def Mark.column? : Mark → Option (String × String)
  | .column name c => some (name, c)
  | _ => none

lemma Mark.mem_of_column? {marks : List Mark} {name c : String}
    (h : (name, c) ∈ marks.filterMap Mark.column?) : .column name c ∈ marks := by
  obtain ⟨m, hm, hcolumn⟩ := mem_filterMap.mp h
  cases m <;> cases hcolumn
  exact hm

/-- Authors are read with their books, which are written out and ordered by their titles. -/
def catalogue : Workbench :=
  [.table "author", .values ["title", "author"] [[.text "Birds", .int 1], [.text "Clouds", .int 2]],
    .orderBy ⟨0, .node ⟨0, 0⟩, []⟩ "-title",
    .select ⟨0, .relation ⟨0, 0⟩, []⟩ ⟨["name"], [("books", .query ⟨0, 1⟩)]⟩].foldl
    Workbench.run ⟨Graph.empty 0 bookshopSchema, [], []⟩

lemma catalogue_nodes : catalogue.graph.nodes =
    [.select (.ofSource (.relation ⟨0, 0⟩) ⟨["name"], [("books", .query ⟨0, 1⟩)]⟩),
      .select ⟨.node ⟨0, 0⟩, .empty, [⟨"title", true⟩], none, none⟩,
      .values ["title", "author"] [[.text "Birds", .int 1], [.text "Clouds", .int 2]]] := rfl

lemma catalogue_reached : Workbench.Reached bookshopSchema catalogue := by
  rw [catalogue]
  simp only [foldl_cons, foldl_nil]
  refine .run (.run (.run (.run (.start 0) ?_) ?_) ?_) ?_ <;> decide +kernel

lemma catalogue_readsStored : catalogue.graph.ReadsStored := by
  have hwritten : ∀ r, catalogue.graph.Gives (.node ⟨0, 0⟩) r →
      r.storedNames = ["title", "author"] := by
    intro r hr
    have hnode : catalogue.graph.node ⟨0, 0⟩ = .ok (.values ["title", "author"] _) := rfl
    have hcolumns : r.columns = ["title", "author"].map Column.scalar := hr.at_node hnode
    rw [← storedNames_scalar r.name ["title", "author"], ← hcolumns]
  have hselects : ∀ h s, catalogue.graph.node h = .ok (.select s) →
      s = .ofSource (.relation ⟨0, 0⟩) ⟨["name"], [("books", .query ⟨0, 1⟩)]⟩ ∨
        s = ⟨.node ⟨0, 0⟩, .empty, [⟨"title", true⟩], none, none⟩ := by
    intro h s hn
    simpa [catalogue_nodes] using Graph.mem_of_node hn
  have hplain : ∀ r ∈ bookshopSchema.relations, isGeneratedName r.name = false := by decide
  refine ⟨hplain, by decide, fun h s r hn _ hg => ?_, fun h s r hn hg => ?_⟩
  · rcases hselects h s hn with rfl | rfl
    · simp [SelectNode.ofSource]
    · simp [hwritten r hg]
  · rcases hselects h s hn with rfl | rfl
    · -- the books are linked by their author
      have hr : catalogue.graph.schema.relation ⟨0, 0⟩ = .ok r := by
        cases hg
        assumption
      cases hr
      simp only [SelectNode.ofSource, Selection.Links, Lookup.LinksEach, and_true]
      rintro c ⟨⟩
      intro r hr
      have hnode : catalogue.graph.node ⟨0, 1⟩ = .ok (.select _) := rfl
      simp [hwritten r (hr.at_node hnode), Column.linkOf, Column.reverse]
    · exact Selection.links_of_nil rfl

/-- Columns of rows that are written out are read for the link and for the order. -/
theorem catalogue_resolves_columns :
    ∃ statement : Statement,
      (⟨0, .node ⟨0, 2⟩, []⟩ : Query).toStatement catalogue.graph = .ok statement ∧
        statement.marks.filterMap Mark.column? = [("v1", "title"), ("v1", "author"),
          ("author", "id"), ("author", "name"), ("j1", "value")] ∧
        ∀ name c, .column name c ∈ statement.marks →
          (∃ i, .item i ∈ statement.marks ∧ i.qualifier = name) ∧
            ∀ i, .item i ∈ statement.marks → i.qualifier = name →
              i.Offers catalogue.graph.schema c := by
  obtain ⟨statement, hs, hcolumns⟩ : ∃ statement : Statement,
      (⟨0, .node ⟨0, 2⟩, []⟩ : Query).toStatement catalogue.graph = .ok statement ∧
        statement.marks.filterMap Mark.column? = [("v1", "title"), ("v1", "author"),
          ("author", "id"), ("author", "name"), ("j1", "value")] :=
    exists_ok_of_toOption (by decide +kernel)
  refine ⟨statement, hs, hcolumns, built_statements_resolve_columns
    (show Schema.ofRelations 0 bookshopSchema.relations = .ok bookshopSchema from rfl)
    catalogue_reached ?_ catalogue_readsStored hs⟩
  simp [Graph.NoExpr, catalogue_nodes, Node.NoExpr]

/-- Rows that are written out, by their name and columns. -/
def Mark.values? : Mark → Option (String × List String)
  | .item (.derived (.values _) label columns) => some (label, columns)
  | _ => none

/-- Titles are written out and ordered by a name, which they do not have. -/
def looseTitles : Workbench :=
  [.values ["title"] [[.text "Birds"]], .orderBy ⟨0, .node ⟨0, 0⟩, []⟩ "name"].foldl Workbench.run
    ⟨Graph.empty 0 bookshopSchema, [], []⟩

/-- **Rows that are written out are ordered by any column**, be it one of theirs or not. -/
theorem values_are_ordered_by_any_column :
    Workbench.Reached bookshopSchema looseTitles ∧ ∃ statement : Statement,
      (⟨0, .node ⟨0, 1⟩, []⟩ : Query).toStatement looseTitles.graph = .ok statement ∧
        .column "v1" "name" ∈ statement.marks ∧
        ¬ ∀ i, .item i ∈ statement.marks → i.qualifier = "v1" →
          i.Offers looseTitles.graph.schema "name" := by
  obtain ⟨statement, hs, hmarks⟩ : ∃ statement : Statement,
      (⟨0, .node ⟨0, 1⟩, []⟩ : Query).toStatement looseTitles.graph = .ok statement ∧
        (statement.marks.filterMap Mark.column?, statement.marks.filterMap Mark.values?) =
          ([("v1", "name")], [("v1", ["title"])]) :=
    exists_ok_of_toOption (by decide +kernel)
  obtain ⟨hcolumns, hvalues⟩ := Prod.mk.inj hmarks
  refine ⟨?_, statement, hs, Mark.mem_of_column? (by simp [hcolumns]), fun hall => ?_⟩
  · rw [looseTitles]
    simp only [foldl_cons, foldl_nil]
    refine .run (.run (.start 0) ?_) ?_ <;> decide +kernel
  · have hitem : ("v1", ["title"]) ∈ statement.marks.filterMap Mark.values? := by simp [hvalues]
    obtain ⟨m, hm, hlabel⟩ := mem_filterMap.mp hitem
    unfold Mark.values? at hlabel
    split at hlabel
    · cases hlabel
      have hoffers : "name" ∈ ["title"] := hall _ hm rfl
      simp at hoffers
    · cases hlabel

/-! ### Links -/

/-- The equality by which a row of a relation `t` is linked to one of `r` that the column leads
from. -/
def Column.link (c : Column) (r t : Relation) (q qt : String) : Expr :=
  .binary .eq (.of qt (c.linkOf t)) (.of q (c.linkFrom r))

lemma Relation.mem_storedNames_iff {r : Relation} {c : Column} {name : String}
    (hnd : (r.columns.map (·.name)).Nodup) (h : r.column? name = some c) :
    name ∈ r.storedNames ↔ c.isReverse = false := by
  refine ⟨fun hn => ?_, Relation.mem_storedNames h⟩
  obtain ⟨c', hc', hname⟩ := mem_map.mp hn
  obtain ⟨hmem, hstored⟩ := mem_filter.mp hc'
  have hsame : c' = c := inj_on_of_nodup_map hnd hmem (Relation.mem_of_column? h)
    (hname.trans (Relation.name_of_column? h).symm)
  simpa [hsame] using hstored

/-- **The two columns of a link are stored if and only if the primary key is that rows refer
to.** -/
lemma Schema.Linked.stored_iff {schema : Schema} (hs : schema.Linked) {r t : Relation}
    (hr : r ∈ schema.relations) {name : String} {c : Column}
    (h : schema.link? r name = some (c, t)) :
    c.linkOf t ∈ t.storedNames ∧ c.linkFrom r ∈ r.storedNames ↔
      if c.isReverse then r.primaryKey ∈ r.storedNames else t.primaryKey ∈ t.storedNames := by
  obtain ⟨hc, target, htarget, ht⟩ := Schema.link?_eq_some.mp h
  have hsides := hs.sides hr hc htarget ht
  split at hsides
  next hreverse => simp [hsides, hreverse]
  next hforward => simp [hsides, hforward]

lemma Schema.ofRelations_of_ofToml {id : Nat} {text : String} {s : Schema}
    (h : ofToml id text = .ok s) : ∃ relations, ofRelations id relations = .ok s := by
  rw [ofToml] at h
  split at h
  · exact ⟨_, h⟩
  · cases h

open Schema Plan Condition in
/-- **The links of an accepted schema**: names are unique, links lead to relations and back, and
each relation has a primary key among its columns. Conditions, walks and lookups link rows by the
columns of the link, which are stored if and only if the primary key is that rows refer to. -/
theorem accepted_schema_links {id : Nat} {relations : List Relation} (text : String) {s : Schema}
    (h : ofRelations id relations = .ok s ∨ ofToml id text = .ok s) :
    (s.relations.map (·.name)).Nodup ∧ s.Linked ∧
      (∀ r ∈ s.relations, ∃ c ∈ r.columns, c.name = r.primaryKey ∧
        (r.primaryKey ∈ r.storedNames ↔ c.isReverse = false)) ∧
      ∀ r ∈ s.relations, ∀ name c t, s.link? r name = some (c, t) →
        (∀ q qt, linkTo c r q t qt = c.link r t q qt) ∧
        (r = t → ∀ q qt, walkLink c r.primaryKey qt q = c.link r t q qt) ∧
        (∀ outer inner lateral st j st', outer.relation = r → inner.relation = t →
          joinRows outer c name lateral inner st = .ok (j, st') →
          ∃ rows, j.1 = .leftLateral (.select (if c.isReverse
            then arrayOf (inner.select.filter (c.link r t outer.qualifier inner.qualifier)) rows []
            else inner.select.filter (c.link r t outer.qualifier inner.qualifier))) lateral) ∧
        (c.linkOf t ∈ t.storedNames ∧ c.linkFrom r ∈ r.storedNames ↔
          if c.isReverse then r.primaryKey ∈ r.storedNames
          else t.primaryKey ∈ t.storedNames) := by
  obtain ⟨relations, h⟩ : ∃ relations, ofRelations id relations = .ok s :=
    h.elim (fun h => ⟨relations, h⟩) ofRelations_of_ofToml
  have hs := accepted_of_ofRelations h
  obtain ⟨rfl, hnames, -⟩ := ofRelations_eq_ok.mp h
  refine ⟨hnames, hs.toLinked, fun r hr => ?_, fun r hr name c t hlink => ?_⟩
  · obtain ⟨c, hc⟩ := hs.key r hr
    exact ⟨c, Relation.mem_of_column? hc, Relation.name_of_column? hc,
      Relation.mem_storedNames_iff (hs.columns_nodup r hr) hc⟩
  · refine ⟨fun q qt => linkTo_eq c r q t qt, ?_, ?_, hs.stored_iff hr hlink⟩
    · rintro rfl q qt
      exact walkLink_eq c r qt q
    · rintro outer inner lateral st j st' rfl rfl hj
      obtain ⟨-, -, own, other, rows, hsides, rfl⟩ :=
        joinRows_join outer c name lateral inner trivial _ _ hj
      obtain ⟨rfl, rfl⟩ := hsides (Relation.name_of_column? (link?_eq_some.mp hlink).1)
      refine ⟨rows, ?_⟩
      split <;> rfl

/-- The books of an author are linked by stored columns. -/
theorem bookshop_links : ∃ author ∈ bookshopSchema.relations, ∃ c book,
    bookshopSchema.link? author "books" = some (c, book) ∧ author.primaryKey ∈ author.storedNames ∧
      c.linkOf book ∈ book.storedNames ∧ c.linkFrom author ∈ author.storedNames := by
  have h : Schema.ofRelations 0 bookshopSchema.relations = .ok bookshopSchema := rfl
  refine ⟨_, mem_cons_self, _, _, rfl, by decide, ?_⟩
  exact ((accepted_schema_links "" (.inl h)).2.2.2 _ mem_cons_self "books" _ _ rfl).2.2.2.mpr
    (by decide)

/-- **A primary key that is not stored is accepted**, and books are linked to it. -/
theorem reverse_primary_key_accepted :
    let author : Relation := ⟨"author", [.reverse "id" "book" "author"]⟩
    let book : Relation := ⟨"book", [.primary "id", .forward "author" "author"]⟩
    let schema : Schema := ⟨0, [author, book]⟩
    Schema.ofRelations 0 [author, book] = .ok schema ∧
      schema.link? book "author" = some (.forward "author" "author", author) ∧
      (Column.forward "author" "author").linkOf author = author.primaryKey ∧
      author.primaryKey ∉ author.storedNames :=
  ⟨rfl, rfl, rfl, by decide⟩

end StagedSql
