import StagedSql.Proofs.Plan.MarkedStatements

/-!
Rows that are taken as a whole.

The call that turns the rows of a derived table into JSON takes the name of the table, without a
column. If a column of this name were visible there, the name would stand for the column instead.
-/

namespace StagedSql

open List Statement

/-! ### Columns -/

mutual

/-- **A column of a FROM item**: of the relation that it scans, of the statement that is named so,
or of its own statement. -/
inductive FromItem.Has (schema : Schema) (named : Cte → Prop) : FromItem → String → Prop
  | relation {r : Relation} {label : Option String} {c : String} (hr : r ∈ schema.relations)
      (hc : c ∈ r.storedNames) : FromItem.Has schema named (.table r.name label) c
  | named {cte : Cte} {label : Option String} {c : String} (hn : named cte)
      (hc : Statement.Gives schema named cte.statement c) :
      FromItem.Has schema named (.table cte.name label) c
  | listed {query : Statement} {label : String} {columns : List String} {c : String}
      (hc : c ∈ columns) : FromItem.Has schema named (.derived query label columns) c
  | derived {query : Statement} {label : String} {columns : List String} {c : String}
      (hc : Statement.Gives schema named query c) :
      FromItem.Has schema named (.derived query label columns) c

/-- **A column of the rows of a statement.** A SELECT of everything gives the columns of its FROM
items, a write gives what it gives back, and a union gives the columns of its first member. -/
inductive Statement.Gives (schema : Schema) (named : Cte → Prop) : Statement → String → Prop
  | item {s : Select} {item : SelectItem} {c : String} (hi : item ∈ s.projection)
      (hc : item.outputName? = some c) : Statement.Gives schema named (.select s) c
  | source {s : Select} {i : FromItem} {c : String} (hstar : s.isStar = true)
      (hi : s.source = some i) (hc : FromItem.Has schema named i c) :
      Statement.Gives schema named (.select s) c
  | join {s : Select} {j : Join} {c : String} (hstar : s.isStar = true) (hj : j ∈ s.joins)
      (hc : FromItem.Has schema named j.item c) : Statement.Gives schema named (.select s) c
  | returned {s : Statement} {table : String} {names : List String} {c : String}
      (hr : s.returning? = some (table, .columns names)) (hc : c ∈ names) :
      Statement.Gives schema named s c
  | returnedAll {s : Statement} {r : Relation} {c : String}
      (hs : s.returning? = some (r.name, .all)) (hr : r ∈ schema.relations)
      (hc : c ∈ r.storedNames) : Statement.Gives schema named s c
  | union {all : Bool} {first : Statement} {rest : List Statement} {c : String}
      (hc : Statement.Gives schema named first c) :
      Statement.Gives schema named (.union all (first :: rest)) c
  | body {recursive : Bool} {ctes : List Cte} {s : Statement} {c : String}
      (hc : Statement.Gives schema named s c) :
      Statement.Gives schema named (.withCtes recursive ctes s) c

end

/-! ### Parts of a statement -/

/-- The marks of what a mark stands for. -/
def Mark.inside : Mark → List Mark
  | .item i => i.marks
  | .part s => s.marks
  | .named cte => cte.statement.marks
  | _ => []

/-- With each mark, a list has those of what it stands for. -/
def MarksClosed (L : List Mark) : Prop := ∀ m ∈ L, ∀ m' ∈ m.inside, m' ∈ L

namespace MarksClosed

variable {L L' : List Mark}

lemma nil : MarksClosed [] := by simp [MarksClosed]

lemma append (h : MarksClosed L) (h' : MarksClosed L') : MarksClosed (L ++ L') := by
  intro m hm m' hm'
  rcases mem_append.mp hm with hm | hm
  · exact mem_append_left _ (h m hm m' hm')
  · exact mem_append_right _ (h' m hm m' hm')

lemma cons {m : Mark} (h : MarksClosed L) (hm : ∀ m' ∈ m.inside, m' ∈ m :: L) :
    MarksClosed (m :: L) := by
  intro m1 hm1 m' hm'
  rcases mem_cons.mp hm1 with rfl | hm1
  · exact hm m' hm'
  · exact .tail _ (h m1 hm1 m' hm')

lemma shows (names : List String) : MarksClosed (names.map .shows) := by
  intro m hm m' hm'
  obtain ⟨name, -, rfl⟩ := mem_map.mp hm
  cases hm'

lemma returning (r : Returning) : MarksClosed r.marks := by
  cases r with
  | columns names => exact shows names
  | _ => exact nil

lemma wholeRows (function : String) (args : List Expr) :
    MarksClosed (StagedSql.wholeRows function args) := by
  unfold StagedSql.wholeRows
  split
  · exact nil.cons (by simp [Mark.inside])
  · exact nil

end MarksClosed

mutual

lemma Expr.marks_closed : ∀ e : Expr, MarksClosed e.marks
  | .column (some q) c => MarksClosed.nil.cons (by simp [Mark.inside])
  | .column none _ => .nil
  | .binary _ l r => (Expr.marks_closed l).append (Expr.marks_closed r)
  | .not e => Expr.marks_closed e
  | .call function args ordering =>
    ((MarksClosed.wholeRows function args).append (Expr.marksEach_closed args)).append
      (OrderItem.marksEach_closed ordering)
  | .cast e _ => Expr.marks_closed e
  | .subquery query => Statement.marks_closed query
  | .existence _ query => Statement.marks_closed query
  | .inList _ e items =>
    ((Expr.marks_closed e).append (Expr.marksEach_closed items)).cons (by simp [Mark.inside])
  | .inQuery _ e query => (Expr.marks_closed e).append (Statement.marks_closed query)
  | .isNull _ e => Expr.marks_closed e
  | .like _ e pattern _ => (Expr.marks_closed e).append (Expr.marks_closed pattern)
  | .paren e => Expr.marks_closed e
  | .literal _ | .param _ | .star _ => .nil

lemma Expr.marksEach_closed : ∀ es : List Expr, MarksClosed (Expr.marksEach es)
  | [] => .nil
  | e :: rest => (Expr.marks_closed e).append (Expr.marksEach_closed rest)

lemma Expr.marksOption_closed : ∀ e : Option Expr, MarksClosed (Expr.marksOption e)
  | none => .nil
  | some e => Expr.marks_closed e

lemma Expr.marksRows_closed : ∀ rows : List (List Expr), MarksClosed (Expr.marksRows rows)
  | [] => .nil
  | row :: rest => (Expr.marksEach_closed row).append (Expr.marksRows_closed rest)

lemma OrderItem.marksEach_closed : ∀ items : List OrderItem, MarksClosed (OrderItem.marksEach items)
  | [] => .nil
  | ⟨e, _⟩ :: rest => (Expr.marks_closed e).append (OrderItem.marksEach_closed rest)

lemma SelectItem.marksEach_closed :
    ∀ items : List SelectItem, MarksClosed (SelectItem.marksEach items)
  | [] => .nil
  | ⟨e, label⟩ :: rest => by
    exact ((MarksClosed.shows _).append (Expr.marks_closed e)).append
      (SelectItem.marksEach_closed rest)

lemma FromItem.marks_closed : ∀ i : FromItem, MarksClosed i.marks
  | .table name label => MarksClosed.nil.cons (by simp [Mark.inside, FromItem.marks])
  | .derived query label columns => by
    refine ((MarksClosed.shows columns).append (Statement.marks_closed query)).cons ?_
    exact fun _ hm => hm

lemma FromItem.marksOption_closed : ∀ i : Option FromItem, MarksClosed (FromItem.marksOption i)
  | none => .nil
  | some i => FromItem.marks_closed i

lemma Join.marksEach_closed : ∀ joins : List Join, MarksClosed (Join.marksEach joins)
  | [] => .nil
  | ⟨_, _, item, condition⟩ :: rest =>
    ((FromItem.marks_closed item).append (Expr.marksOption_closed condition)).append
      (Join.marksEach_closed rest)

lemma Select.marks_closed : ∀ s : Select, MarksClosed s.marks
  | ⟨projection, source, joins, condition, ordering, _, _⟩ =>
    ((((FromItem.marksOption_closed source).append (Join.marksEach_closed joins)).append
      (SelectItem.marksEach_closed projection)).append
        (OrderItem.marksEach_closed ordering)).append (Expr.marksOption_closed condition)

lemma InsertSource.marks_closed : ∀ s : InsertSource, MarksClosed s.marks
  | .rows rows => Expr.marksRows_closed rows
  | .query query => Statement.marks_closed query
  | .defaults => .nil

lemma Assignment.marksEach_closed :
    ∀ items : List Assignment, MarksClosed (Assignment.marksEach items)
  | [] => .nil
  | ⟨_, e⟩ :: rest => (Expr.marks_closed e).append (Assignment.marksEach_closed rest)

lemma Assignments.marks_closed : ∀ a : Assignments, MarksClosed a.marks
  | .columns items => Assignment.marksEach_closed items
  | .query _ query => Statement.marks_closed query

/-- **What stands in a part of a statement stands in it**, by recursion on the statement. -/
lemma Statement.marks_closed : ∀ s : Statement, MarksClosed s.marks
  | .select s => Select.marks_closed s
  | .insert ⟨table, columns, source, returning⟩ => by
    refine ((MarksClosed.returning returning).append (InsertSource.marks_closed source)).cons ?_
    exact fun _ hm => hm
  | .update ⟨table, assignments, condition, returning⟩ => by
    have hwritten := (MarksClosed.returning returning).append (Assignments.marks_closed assignments)
    refine ((hwritten.append (Expr.marksOption_closed condition)).cons
      (by simp [Mark.inside, FromItem.marks])).cons ?_
    exact fun _ hm => hm
  | .delete ⟨table, condition, returning⟩ => by
    refine (((MarksClosed.returning returning).append
      (Expr.marksOption_closed condition)).cons (by simp [Mark.inside, FromItem.marks])).cons ?_
    exact fun _ hm => hm
  | .values rows => by
    refine (Expr.marksRows_closed rows).cons ?_
    exact fun _ hm => hm
  | .union all members => by
    refine (Statement.marksEach_closed members).cons ?_
    exact fun _ hm => hm
  | .withCtes _ ctes body => (Cte.marksEach_closed ctes).append (Statement.marks_closed body)
  | .setLocal _ => .nil
  | .sequence parts => Statement.marksEach_closed parts

lemma Statement.marksEach_closed :
    ∀ members : List Statement, MarksClosed (marksEach members)
  | [] => .nil
  | s :: rest => (Statement.marks_closed s).append (Statement.marksEach_closed rest)

lemma Cte.marksEach_closed : ∀ ctes : List Cte, MarksClosed (Cte.marksEach ctes)
  | [] => .nil
  | ⟨name, s⟩ :: rest => by
    refine ((Statement.marks_closed s).append (Cte.marksEach_closed rest)).cons ?_
    exact fun _ hm => .tail _ (mem_append_left _ hm)

end

/-! ### Names that are given -/

lemma Statement.shows_of_returning {s : Statement} {table : String} {names : List String}
    (h : s.returning? = some (table, .columns names)) : ∀ c ∈ names, .shows c ∈ s.marks := by
  intro c hc
  have hmem : .shows c ∈ (Returning.columns names).marks := mem_map_of_mem hc
  cases s with
  | insert st =>
    obtain ⟨_, _, _, _⟩ := st
    cases h
    simp [marks, hmem]
  | update st =>
    obtain ⟨_, _, _, _⟩ := st
    cases h
    simp [marks, hmem]
  | delete st =>
    obtain ⟨_, _, _⟩ := st
    cases h
    simp [marks, hmem]
  | _ => cases h

section Shown

variable {schema : Schema} {L : List Mark}

/-- The name of a column of a relation, or one that is given somewhere. -/
def IsShown (schema : Schema) (L : List Mark) (c : String) : Prop :=
  .shows c ∈ L ∨ ∃ r ∈ schema.relations, c ∈ r.storedNames

mutual

/-- **The names of the columns of FROM items.** -/
theorem FromItem.Has.shown (hL : MarksClosed L) :
    ∀ {i : FromItem} {c : String}, i.Has schema (fun cte => .named cte ∈ L) c → .item i ∈ L →
      IsShown schema L c
  | _, _, .relation hr hc, _ => .inr ⟨_, hr, hc⟩
  | _, _, .named hn hc, _ => hc.shown hL fun m hm => hL _ hn m hm
  | _, c, .listed hc, hi => by
    refine .inl (hL _ hi _ ?_)
    rw [Mark.inside, FromItem.marks]
    simp [hc]
  | _, _, .derived hc, hi => by
    refine hc.shown hL fun m hm => hL _ hi m ?_
    rw [Mark.inside, FromItem.marks]
    simp [hm]

theorem Statement.Gives.shown (hL : MarksClosed L) :
    ∀ {s : Statement} {c : String}, s.Gives schema (fun cte => .named cte ∈ L) c →
      (∀ m ∈ s.marks, m ∈ L) → IsShown schema L c
  | _, c, .item (s := s) hi hc, hs => by
    refine Or.inl (hs _ ?_)
    rw [marks, Select.marks_eq]
    have hall : .shows c ∈ s.projection.flatMap SelectItem.marks :=
      mem_flatMap.mpr ⟨_, hi, by simp [SelectItem.marks, hc]⟩
    simp [hall]
  | _, _, .source (s := s) (i := i) _ hi hc, hs => by
    refine hc.shown hL (hs _ ?_)
    rw [marks, Select.marks_eq, hi]
    simp [FromItem.marksOption, FromItem.item_mem_marks]
  | _, _, .join (s := s) (j := j) _ hj hc, hs => by
    refine hc.shown hL (hs _ ?_)
    rw [marks, Select.marks_eq]
    have hall : .item j.item ∈ s.joins.flatMap Join.marks :=
      mem_flatMap.mpr ⟨j, hj, mem_append_left _ (FromItem.item_mem_marks _)⟩
    simp [hall]
  | _, c, .returned hr hc, hs => .inl (hs _ (shows_of_returning hr c hc))
  | _, _, .returnedAll _ hr hc, _ => .inr ⟨_, hr, hc⟩
  | _, _, .union hc, hs => by
    refine hc.shown hL fun m hm => hs m ?_
    rw [marks, marksEach]
    simp [hm]
  | _, _, .body hc, hs => by
    refine hc.shown hL fun m hm => hs m ?_
    rw [marks]
    simp [hm]

end

end Shown

/-! ### Names of columns -/

/-- The names that a node has for columns. -/
def Node.columnNames : Node → List String
  | .select s => s.ordering.map (·.column)
  | .values columns _ => columns
  | _ => []

/-- **The names that a graph has for columns**: those of its schema, of rows that are written out,
and of columns to order by. -/
def Graph.columnNames (g : Graph) : List String :=
  (g.schema.relations.flatMap fun r => r.columns.map (·.name)) ++ g.nodes.flatMap Node.columnNames

/-- Names of columns that are given are none of whole rows, and whole rows go by such a name. -/
def Mark.Harmless : Mark → Prop
  | .shows name => ¬ IsRowName name
  | .wholeRow name => IsRowName name
  | _ => True

/-- The name of rows that are taken as a whole. -/
def Mark.wholeRow? : Mark → Option String
  | .wholeRow name => some name
  | _ => none

lemma not_isRowName_of_plain {name : String} (h : isGeneratedName name = false) :
    ¬ IsRowName name := by
  rintro (rfl | ⟨letter, hl, k, rfl⟩)
  · cases h
  · have hgenerated : letter ∈ generatedLetters := by
      simp only [mem_cons, not_mem_nil, or_false] at hl
      rcases hl with rfl | rfl <;> decide
    exact ne_numberedName h hgenerated rfl

section Names

variable {g : Graph} (hnames : ∀ c ∈ g.columnNames, ¬ IsRowName c) {r : Relation} {c : Column}

include hnames

lemma Graph.Knows.not_isRowName (hr : g.Knows r) (hc : c ∈ r.columns) : ¬ IsRowName c.name := by
  refine hnames _ ?_
  rcases hr with hr | ⟨columns, rows, hn, hcolumns⟩
  · exact mem_append_left _ (mem_flatMap.mpr ⟨r, hr, mem_map_of_mem hc⟩)
  · rw [hcolumns] at hc
    obtain ⟨name, hname, rfl⟩ := mem_map.mp hc
    exact mem_append_right _ (mem_flatMap.mpr ⟨_, hn, hname⟩)

lemma Graph.Knows.storedNames_not_isRowName (hr : g.Knows r) :
    ∀ c ∈ r.storedNames, ¬ IsRowName c := by
  intro c hc
  obtain ⟨column, hcolumn, rfl⟩ := mem_map.mp hc
  exact hr.not_isRowName hnames (mem_filter.mp hcolumn).1

lemma Graph.Knows.primaryKey_not_isRowName (hr : g.Knows r) : ¬ IsRowName r.primaryKey := by
  rw [Relation.primaryKey]
  split
  · rename_i c hc
    exact hr.not_isRowName hnames (mem_of_find?_eq_some hc)
  · exact not_isRowName_of_plain (by decide)

lemma Graph.Knows.linkOf_not_isRowName (hschema : g.schema.Accepted) {r' : Relation}
    (hr : g.Knows r) (hc : c ∈ r.columns) (hr' : g.Knows r') : ¬ IsRowName (c.linkOf r') := by
  rw [Column.linkOf]
  split
  · rename_i target via hkind
    have hrelated : c.related? = some target := by simp [Column.related?, hkind]
    have hmem := hr.mem_of_related hc hrelated
    obtain ⟨t, ht, link, hlink, -⟩ := hschema.reverse r hmem c hc target via hkind
    have hlinked : g.Knows t := .inl (Schema.mem_of_get? ht)
    rw [← Relation.name_of_column? hlink]
    exact hlinked.not_isRowName hnames (Relation.mem_of_column? hlink)
  · exact hr'.primaryKey_not_isRowName hnames

lemma permits_not_isRowName (hschema : g.schema.Accepted) :
    g.Permits fun _ c => ¬ IsRowName c where
  congr _ h := h
  stored r hr := hr.storedNames_not_isRowName hnames
  key r hr := Graph.Knows.primaryKey_not_isRowName hnames (.inl hr)
  ordering h s r hn _ key hkey := by
    refine hnames _ (mem_append_right _ (mem_flatMap.mpr ⟨_, Graph.mem_of_node hn, ?_⟩))
    exact mem_map_of_mem hkey
  links h s r hn hg := by
    refine Selection.links_of_all (fun r hr c hc r' hr' => ?_) s.selection hg.knows
    exact hr.linkOf_not_isRowName hnames hschema hc hr'

lemma Mark.Good.harmless {L : List Mark} {m : Mark}
    (h : m.Good g (fun _ c => ¬ IsRowName c) noRow L) : m.Harmless := by
  cases m with
  | shows name =>
    rcases h with h | ⟨r, hr, h | ⟨c, hc, rfl⟩⟩
    · have hplain : isGeneratedName name = false := by
        simp only [mem_cons, not_mem_nil, or_false] at h
        rcases h with rfl | rfl <;> decide
      exact not_isRowName_of_plain hplain
    · exact h
    · exact hr.not_isRowName hnames hc
  | wholeRow name => exact h
  | _ => trivial

end Names

/-! ### Whole rows -/

/-- **Whole rows are not captured by columns.** Let no name that a graph has for a column be of the
form of the names that are made up for whole rows, and let expressions that conditions take as they
are do no harm by themselves. Wherever the statement of a query takes rows under a name as a whole,
no FROM or JOIN item of it has a column of this name. -/
theorem whole_rows_are_not_captured {g : Graph} {relations : List Relation} {q : Query}
    {statement : Statement} (hschema : Schema.ofRelations g.schema.id relations = .ok g.schema)
    (hnames : ∀ c ∈ g.columnNames, ¬ IsRowName c)
    (hexprs : ∀ e ∈ g.exprs, ∀ m ∈ e.marks, m.Harmless) (h : q.toStatement g = .ok statement) :
    ∀ name, .wholeRow name ∈ statement.marks → ∀ i, .item i ∈ statement.marks →
      ¬ i.Has g.schema (fun cte => .named cte ∈ statement.marks) name := by
  have haccepted := accepted_of_ofRelations hschema
  have hplanned := toStatement_planned haccepted (permits_not_isRowName hnames haccepted) h
  have hall : ∀ m ∈ statement.marks, m.Harmless := by
    intro m hm
    rcases hplanned.good m hm with ⟨e, he, hm⟩ | hgood
    · exact hexprs e he m hm
    · exact hgood.harmless hnames
  intro name hname i hi hhas
  have hrow : IsRowName name := hall _ hname
  rcases hhas.shown statement.marks_closed hi with hshows | ⟨r, hr, hstored⟩
  · exact hall _ hshows hrow
  · have hr' : g.Knows r := .inl hr
    exact hr'.storedNames_not_isRowName hnames name hstored hrow

/-- Folders again: one is inserted and read with its parent and with all that is in it, and its name
is compared with an expression that is taken as it is. Rows of the whole statement, of two lateral
joins and of an array are taken as a whole. -/
theorem folder_rows_are_not_captured :
    ∃ statement : Statement,
      (⟨0, .node ⟨0, 2⟩, []⟩ : Query).toStatement
          (folderInsert (.expr (.of "t1" "name"))) = .ok statement ∧
        (statement.marks.filterMap Mark.wholeRow?) = ["a1", "j1", "x"] ∧
        ∀ name ∈ ["a1", "j1", "x"], ∀ i, .item i ∈ statement.marks →
          ¬ i.Has (folderInsert (.expr (.of "t1" "name"))).schema
            (fun cte => .named cte ∈ statement.marks) name := by
  obtain ⟨statement, hs, hrows⟩ : ∃ statement : Statement,
      (⟨0, .node ⟨0, 2⟩, []⟩ : Query).toStatement
          (folderInsert (.expr (.of "t1" "name"))) = .ok statement ∧
        statement.marks.filterMap Mark.wholeRow? = ["a1", "j1", "x"] :=
    exists_ok_of_toOption (by decide +kernel)
  have hschema : Schema.ofRelations (folderInsert (.expr (.of "t1" "name"))).schema.id
      (folderInsert (.expr (.of "t1" "name"))).schema.relations =
        .ok (folderInsert (.expr (.of "t1" "name"))).schema := rfl
  have hplain : ∀ c ∈ (folderInsert (.expr (.of "t1" "name"))).columnNames,
      isGeneratedName c = false := by decide
  have hexprs : ∀ e ∈ (folderInsert (.expr (.of "t1" "name"))).exprs, ∀ m ∈ e.marks,
      m.Harmless := by
    rw [folderInsert_exprs, forall_mem_singleton, of_marks, forall_mem_singleton]
    trivial
  refine ⟨statement, hs, hrows, fun name hname => ?_⟩
  have hmem : .wholeRow name ∈ statement.marks := by
    rw [← hrows] at hname
    obtain ⟨m, hm, hrow⟩ := mem_filterMap.mp hname
    cases m <;> cases hrow
    exact hm
  exact whole_rows_are_not_captured hschema (fun c hc => not_isRowName_of_plain (hplain c hc))
    hexprs hs name hmem

/-- Marks on a map: a relation with a column that has the name of the outermost rows. -/
def mapMarks : Graph := .empty 0 ⟨0, [⟨"mark", [.primary "id", .scalar "x", .scalar "y"]⟩]⟩

/-- **A column called x captures the outermost rows**: where they are taken as a whole, the name is
also that of one of their columns. -/
theorem column_x_captures_outermost_rows :
    Schema.ofRelations mapMarks.schema.id mapMarks.schema.relations = .ok mapMarks.schema ∧
      ∃ statement : Statement,
        (⟨0, .relation ⟨0, 0⟩, []⟩ : Query).toStatement mapMarks = .ok statement ∧
          .wholeRow "x" ∈ statement.marks ∧ ∃ i, .item i ∈ statement.marks ∧
            i.qualifier = "x" ∧
            i.Has mapMarks.schema (fun cte => .named cte ∈ statement.marks) "x" := by
  let inner : Select := { Select.empty with source := some (.table "mark" none) }
  refine ⟨rfl, jsonRows inner, rfl, ?_, .derived (.select inner) "x" [], ?_, rfl, ?_⟩
  · simp [jsonRows_marks]
  · simp [jsonRows_marks]
  · refine .derived (.source rfl (i := .table "mark" none) rfl ?_)
    exact FromItem.Has.relation (r := ⟨"mark", [.primary "id", .scalar "x", .scalar "y"]⟩)
      (by simp [mapMarks, Graph.empty]) (by decide)

end StagedSql
