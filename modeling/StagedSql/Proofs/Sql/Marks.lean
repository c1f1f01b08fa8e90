import StagedSql.Proofs.Sql.Writes
import StagedSql.Sql.Tokens

/-!
What stands in a statement at any depth.

The marks of a clause are those of its parts one after the other, so most lemmas are equations
between lists.
-/

namespace StagedSql

open List

variable {es : List Expr} {e : Expr}

/-- Something that a statement holds. -/
inductive Mark where
  /-- A column of the rows under a name. -/
  | column (table name : String)
  /-- The rows under a name, each as a whole. -/
  | wholeRow (name : String)
  /-- Where rows come from: a FROM or JOIN item, or the table that an UPDATE or a DELETE changes. -/
  | item (i : FromItem)
  /-- The name of a column that is given. -/
  | shows (name : String)
  /-- A membership in a list. -/
  | membership (negated : Bool) (e : Expr) (items : List Expr)
  /-- A statement that is no SELECT. -/
  | part (s : Statement)
  /-- A statement under a name. -/
  | named (cte : Cte)

/-! ### Marks -/

/-- The argument of a call that turns whole rows into JSON. -/
def wholeRows : String → List Expr → List Mark
  | "row_to_json", [.column none name] => [.wholeRow name]
  | _, _ => []

/-- The columns that are given back. -/
def Returning.marks : Returning → List Mark
  | .columns names => names.map .shows
  | _ => []

mutual

/-- The marks of an expression. -/
def Expr.marks : Expr → List Mark
  | .column (some q) c => [.column q c]
  | .column none _ => []
  | .binary _ l r => l.marks ++ r.marks
  | .not e => e.marks
  | .call function args ordering =>
    wholeRows function args ++ Expr.marksEach args ++ OrderItem.marksEach ordering
  | .cast e _ => e.marks
  | .subquery query => query.marks
  | .existence _ query => query.marks
  | .inList negated e items => .membership negated e items :: (e.marks ++ Expr.marksEach items)
  | .inQuery _ e query => e.marks ++ query.marks
  | .isNull _ e => e.marks
  | .like _ e pattern _ => e.marks ++ pattern.marks
  | .paren e => e.marks
  | .literal _ => []
  | .param _ => []
  | .star _ => []

/-- The marks of expressions. -/
def Expr.marksEach : List Expr → List Mark
  | [] => []
  | e :: rest => e.marks ++ Expr.marksEach rest

/-- The marks of a condition. -/
def Expr.marksOption : Option Expr → List Mark
  | none => []
  | some e => e.marks

/-- The marks of rows. -/
def Expr.marksRows : List (List Expr) → List Mark
  | [] => []
  | row :: rest => Expr.marksEach row ++ Expr.marksRows rest

/-- The marks of sort keys. -/
def OrderItem.marksEach : List OrderItem → List Mark
  | [] => []
  | ⟨e, _⟩ :: rest => e.marks ++ OrderItem.marksEach rest

/-- The marks of the items of a SELECT. -/
def SelectItem.marksEach : List SelectItem → List Mark
  | [] => []
  | ⟨e, label⟩ :: rest =>
    (SelectItem.outputName? ⟨e, label⟩).toList.map .shows ++ e.marks ++ SelectItem.marksEach rest

/-- The marks of a FROM item. -/
def FromItem.marks : FromItem → List Mark
  | .table name label => [.item (.table name label)]
  | .derived query label columns =>
    .item (.derived query label columns) :: (columns.map .shows ++ query.marks)

/-- The marks of a FROM clause. -/
def FromItem.marksOption : Option FromItem → List Mark
  | none => []
  | some item => item.marks

/-- The marks of joins. -/
def Join.marksEach : List Join → List Mark
  | [] => []
  | ⟨_, _, item, condition⟩ :: rest =>
    item.marks ++ Expr.marksOption condition ++ Join.marksEach rest

/-- The marks of a SELECT. -/
def Select.marks : Select → List Mark
  | ⟨projection, source, joins, condition, ordering, _, _⟩ =>
    FromItem.marksOption source ++ Join.marksEach joins ++ SelectItem.marksEach projection ++
      OrderItem.marksEach ordering ++ Expr.marksOption condition

/-- The marks of what is inserted. -/
def InsertSource.marks : InsertSource → List Mark
  | .rows rows => Expr.marksRows rows
  | .query query => query.marks
  | .defaults => []

/-- The marks of assignments. -/
def Assignment.marksEach : List Assignment → List Mark
  | [] => []
  | ⟨_, e⟩ :: rest => e.marks ++ Assignment.marksEach rest

/-- The marks of what is set. -/
def Assignments.marks : Assignments → List Mark
  | .columns items => Assignment.marksEach items
  | .query _ query => query.marks

/-- **The marks of a statement.** -/
def Statement.marks : Statement → List Mark
  | .select s => s.marks
  | .insert ⟨table, columns, source, returning⟩ =>
    .part (.insert ⟨table, columns, source, returning⟩) :: (returning.marks ++ source.marks)
  | .update ⟨table, assignments, condition, returning⟩ =>
    .part (.update ⟨table, assignments, condition, returning⟩) ::
      .item (.table table none) ::
        (returning.marks ++ assignments.marks ++ Expr.marksOption condition)
  | .delete ⟨table, condition, returning⟩ =>
    .part (.delete ⟨table, condition, returning⟩) :: .item (.table table none) ::
      (returning.marks ++ Expr.marksOption condition)
  | .values rows => .part (.values rows) :: Expr.marksRows rows
  | .union all members => .part (.union all members) :: Statement.marksEach members
  | .withCtes _ ctes body => Cte.marksEach ctes ++ body.marks
  | .setLocal _ => []
  | .sequence parts => Statement.marksEach parts

/-- The marks of statements. -/
def Statement.marksEach : List Statement → List Mark
  | [] => []
  | s :: rest => s.marks ++ Statement.marksEach rest

/-- The marks of named statements. -/
def Cte.marksEach : List Cte → List Mark
  | [] => []
  | ⟨name, s⟩ :: rest => .named ⟨name, s⟩ :: (s.marks ++ Cte.marksEach rest)

end

/-! ### Lists of clauses -/

/-- The marks of an item of a SELECT. -/
def SelectItem.marks (item : SelectItem) : List Mark :=
  item.outputName?.toList.map .shows ++ item.expr.marks

/-- The marks of a join. -/
def Join.marks (j : Join) : List Mark := j.item.marks ++ Expr.marksOption j.condition

lemma Expr.marksEach_eq (es : List Expr) : Expr.marksEach es = es.flatMap Expr.marks :=
  each_eq_flatMap rfl (fun _ _ => rfl) es

lemma Expr.marksRows_eq (rows : List (List Expr)) :
    marksRows rows = rows.flatMap fun row => row.flatMap marks := by
  simp only [← Expr.marksEach_eq]
  exact each_eq_flatMap rfl (fun _ _ => rfl) rows

lemma OrderItem.marksEach_eq (items : List OrderItem) :
    OrderItem.marksEach items = items.flatMap fun item => item.expr.marks :=
  each_eq_flatMap rfl (by rintro ⟨⟩ _; rfl) items

lemma SelectItem.marksEach_eq (items : List SelectItem) :
    SelectItem.marksEach items = items.flatMap SelectItem.marks :=
  each_eq_flatMap rfl (by rintro ⟨⟩ _; rfl) items

lemma Join.marksEach_eq (joins : List Join) : Join.marksEach joins = joins.flatMap Join.marks :=
  each_eq_flatMap rfl (by rintro ⟨⟩ _; rfl) joins

lemma Assignment.marksEach_eq (items : List Assignment) :
    Assignment.marksEach items = items.flatMap fun item => item.value.marks :=
  each_eq_flatMap rfl (by rintro ⟨⟩ _; rfl) items

lemma Statement.marksEach_eq (members : List Statement) :
    Statement.marksEach members = members.flatMap Statement.marks :=
  each_eq_flatMap rfl (fun _ _ => rfl) members

lemma Cte.marksEach_eq (ctes : List Cte) :
    Cte.marksEach ctes = ctes.flatMap fun cte => .named cte :: cte.statement.marks :=
  each_eq_flatMap rfl (by rintro ⟨⟩ _; rfl) ctes

lemma Select.marks_eq (s : Select) : s.marks =
    FromItem.marksOption s.source ++ s.joins.flatMap Join.marks ++
      s.projection.flatMap SelectItem.marks ++ (s.ordering.flatMap fun item => item.expr.marks) ++
      Expr.marksOption s.condition := by
  obtain ⟨projection, source, joins, condition, ordering, limit, offset⟩ := s
  rw [Select.marks, Join.marksEach_eq, SelectItem.marksEach_eq, OrderItem.marksEach_eq]

/-! ### Expressions that are put together -/

lemma of_marks (q c : String) : (Expr.of q c).marks = [.column q c] := rfl

lemma rowToJson_marks (label : String) : (Expr.rowToJson label).marks = [.wholeRow label] := rfl

lemma column_item_marks (q c : String) :
    SelectItem.marks ⟨.of q c, none⟩ = [.shows c, .column q c] := rfl

lemma link_marks (q c q' c' : String) :
    (Expr.binary .eq (.of q c) (.of q' c')).marks = [.column q c, .column q' c'] := rfl

namespace Expr

lemma joined?_marks {op : BinaryOp} (h : joined? op es = some e) : e.marks = es.flatMap marks := by
  cases es with
  | nil => cases h
  | cons first rest =>
    rw [joined?, Option.some.injEq] at h
    subst h
    rw [flatMap_cons]
    induction rest generalizing first with
    | nil => simp
    | cons x more ih =>
      rw [foldl_cons, ih, flatMap_cons, marks, append_assoc]

lemma grouped_marks (e : Expr) : e.grouped.marks = e.marks := by
  unfold grouped
  split <;> simp only [marks]

lemma conjunction?_marks (h : conjunction? es = some e) :
    e.marks = es.flatMap marks := by
  rw [joined?_marks h, flatMap_map]
  exact congrArg es.flatMap (funext grouped_marks)

lemma disjunction?_marks (h : disjunction? es = some e) :
    e.marks = es.flatMap marks := by
  unfold disjunction? at h
  split at h
  · cases h
    simp
  · obtain ⟨x, hx, rfl⟩ := Option.map_eq_some_iff.mp h
    rw [marks, joined?_marks hx]

lemma conjunction?_getD_marks (es : List Expr) (b : Bool) :
    ((conjunction? es).getD (.bool b)).marks = es.flatMap marks := by
  cases h : conjunction? es with
  | some e => exact conjunction?_marks h
  | none =>
    cases es with
    | nil => rfl
    | cons e rest => cases h

lemma disjunction?_getD_marks (es : List Expr) (b : Bool) :
    ((disjunction? es).getD (.bool b)).marks = es.flatMap marks := by
  cases h : disjunction? es with
  | some e => exact disjunction?_marks h
  | none =>
    cases es with
    | nil => rfl
    | cons e rest =>
      cases rest with
      | nil => cases h
      | cons x more => cases h

end Expr

lemma andCondition_marks (condition : Option Expr) (e : Expr) :
    Expr.marksOption (andCondition condition e) = Expr.marksOption condition ++ e.marks := by
  have hsome : ∃ x, andCondition condition e = some x := by cases condition <;> exact ⟨_, rfl⟩
  obtain ⟨x, hx⟩ := hsome
  rw [hx, Expr.marksOption, Expr.conjunction?_marks hx]
  cases condition <;> simp [Expr.marksOption]

lemma Select.filter_marks (s : Select) (e : Expr) : (s.filter e).marks = s.marks ++ e.marks := by
  rw [Select.marks_eq, Select.marks_eq, Select.filter, andCondition_marks, ← append_assoc]

lemma Select.single_marks (item : FromItem) (projection : List SelectItem) :
    Select.marks { Select.empty with projection := projection, source := some item } =
      item.marks ++ projection.flatMap SelectItem.marks := by
  rw [Select.marks_eq]
  simp [Select.empty, FromItem.marksOption, Expr.marksOption]

lemma Select.mem_append_marks {s : Select} {items : List SelectItem} {m : Mark} :
    m ∈ Select.marks { s with projection := s.projection ++ items } ↔
      m ∈ s.marks ++ items.flatMap SelectItem.marks := by
  rw [Select.marks_eq, Select.marks_eq]
  simp only [flatMap_append, mem_append]
  tauto

lemma FromItem.item_mem_marks (i : FromItem) : .item i ∈ i.marks := by
  cases i <;> simp [FromItem.marks]

/-- What is inserted has columns, as many as each row has values. -/
def InsertSource.Grammatical (columns : List String) : InsertSource → Prop
  | .rows lists => columns ≠ [] ∧ lists ≠ [] ∧ ∀ row ∈ lists, row.length = columns.length
  | .query _ => columns ≠ []
  | .defaults => True

/-- Something is set. -/
def Assignments.Grammatical : Assignments → Prop
  | .columns items => items ≠ []
  | .query names _ => names ≠ []

/-- **None of the lists of a statement is empty** that must not be. -/
def Statement.Grammatical : Statement → Prop
  | .union _ members => members ≠ []
  | .values rows => rows ≠ [] ∧ ∃ n, 0 < n ∧ ∀ row ∈ rows, row.length = n
  | .insert s => s.source.Grammatical s.columns ∧ s.returning ≠ .columns []
  | .update s => s.assignments.Grammatical ∧ s.returning ≠ .columns []
  | .delete s => s.returning ≠ .columns []
  | _ => True

/-- **No list is empty where it must not be.** A membership in an empty list is written as a truth
value. -/
def Mark.Grammatical : Mark → Prop
  | .part s => s.Grammatical
  | .item (.derived query _ _) => query.tokens ≠ []
  | .membership negated e items => items = [] →
      (Expr.inList negated e items).tokens = [.keyword (if negated then .TRUE else .FALSE)]
  | _ => True

lemma membership_grammatical (negated : Bool) (e : Expr) (items : List Expr) :
    (Mark.membership negated e items).Grammatical := by
  rintro rfl
  rw [Expr.tokens]

/-! ### Statements that give rows -/

/-- A statement that gives rows: a SELECT, rows that are written out, a union of SELECTs, or a
SELECT after named statements. -/
inductive Statement.IsRows : Statement → Prop
  | select (s : Select) : IsRows (.select s)
  | values (rows : List (List Expr)) : IsRows (.values rows)
  | union (all : Bool) (first : Select) (rest : List Statement) :
      IsRows (.union all (.select first :: rest))
  | withCtes (recursive : Bool) (ctes : List Cte) (s : Select) :
      IsRows (.withCtes recursive ctes (.select s))

lemma Select.tokens_ne_nil (s : Select) : s.tokens ≠ [] := by
  obtain ⟨projection, source, joins, condition, ordering, limit, offset⟩ := s
  simp [Select.tokens, word]

lemma tokensBetween_ne_nil {separator ts : List Token} {rest : List (List Token)} (h : ts ≠ []) :
    tokensBetween separator (ts :: rest) ≠ [] := by
  cases rest with
  | nil => exact h
  | cons t more => simp [tokensBetween, h]

lemma Statement.IsRows.tokens_ne_nil {s : Statement} (h : s.IsRows) : s.tokens ≠ [] := by
  cases h with
  | select s =>
    exact s.tokens_ne_nil
  | values rows => simp [Statement.tokens, word]
  | union all first rest =>
    exact tokensBetween_ne_nil first.tokens_ne_nil
  | withCtes recursive ctes s =>
    exact fun h => s.tokens_ne_nil (List.append_eq_nil_iff.mp h).2

end StagedSql
