import StagedSql.Proofs.Sql.Writes

/-!
The columns that a statement reads.

A column is read through the name that rows are bound to. The nearest binding of the name counts, so
what an expression reads depends on what is bound around it. There is one lemma for each clause.
-/

namespace StagedSql

/-- The names that rows are bound to, the nearest first. Rows of a table come with its name. -/
abbrev Bindings := List (String × Option String)

/-- A table and a column that is read of it, or nothing if all columns are. -/
abbrev Read := String × Option String

/-! ### Reads -/

namespace Bindings

/-- The tables whose rows are bound. -/
def tables (env : Bindings) : List String := env.filterMap (·.2)

/-- A column of the rows that a name is bound to. -/
def column (env : Bindings) (q c : String) : List Read :=
  match env.lookup q with
  | some (some t) => [(t, some c)]
  | _ => []

/-- All columns of the rows that a name is bound to. -/
def row (env : Bindings) (q : String) : List Read :=
  match env.lookup q with
  | some (some t) => [(t, none)]
  | _ => []

/-- A name that stands alone: the rows that are bound to it, and otherwise a column of any rows. -/
def unqualified (env : Bindings) (name : String) : List Read :=
  match env.lookup name with
  | some _ => env.row name
  | none => env.tables.map fun t => (t, some name)

end Bindings

/-- The name that the rows of a FROM item are bound to, and their table. -/
def FromItem.bound : FromItem → String × Option String
  | .table name label => (label.getD name, some name)
  | .derived _ label _ => (label, none)

/-- The names that a SELECT binds, the last join first. -/
def Select.own (s : Select) : Bindings :=
  s.joins.reverse.map (·.item.bound) ++ s.source.toList.map FromItem.bound

/-- The bindings in a SELECT. -/
def Select.bindings (s : Select) (env : Bindings) : Bindings := s.own ++ env

mutual

/-- What an expression reads. -/
def Expr.reads (env : Bindings) : Expr → List Read
  | .column (some q) c => env.column q c
  | .column none name => env.unqualified name
  | .star (some q) => env.row q
  | .star none => env.tables.map fun t => (t, none)
  | .binary _ l r => l.reads env ++ r.reads env
  | .not e => e.reads env
  | .call _ args ordering => Expr.readsEach env args ++ OrderItem.readsEach env ordering
  | .cast e _ => e.reads env
  | .subquery query => query.reads env
  | .existence _ query => query.reads env
  | .inList _ e items => e.reads env ++ Expr.readsEach env items
  | .inQuery _ e query => e.reads env ++ query.reads env
  | .isNull _ e => e.reads env
  | .like _ e pattern _ => e.reads env ++ pattern.reads env
  | .paren e => e.reads env
  | .literal _ => []
  | .param _ => []

def Expr.readsEach (env : Bindings) : List Expr → List Read
  | [] => []
  | e :: rest => e.reads env ++ Expr.readsEach env rest

def Expr.readsOption (env : Bindings) : Option Expr → List Read
  | none => []
  | some e => e.reads env

def Expr.readsRows (env : Bindings) : List (List Expr) → List Read
  | [] => []
  | row :: rest => Expr.readsEach env row ++ Expr.readsRows env rest

def OrderItem.readsEach (env : Bindings) : List OrderItem → List Read
  | [] => []
  | ⟨e, _⟩ :: rest => e.reads env ++ OrderItem.readsEach env rest

def SelectItem.readsEach (env : Bindings) : List SelectItem → List Read
  | [] => []
  | ⟨e, _⟩ :: rest => e.reads env ++ SelectItem.readsEach env rest

/-- What a FROM item reads to make its rows. -/
def FromItem.reads (env : Bindings) : FromItem → List Read
  | .table _ _ => []
  | .derived query _ _ => query.reads env

def FromItem.readsOption (env : Bindings) : Option FromItem → List Read
  | none => []
  | some item => item.reads env

/-- What joins read. A lateral one sees the rows of those before it. -/
def Join.readsEach (outer env : Bindings) : List Join → List Read
  | [] => []
  | ⟨_, lateral, item, condition⟩ :: rest =>
    item.reads (if lateral then env else outer) ++ Expr.readsOption (item.bound :: env) condition ++
      Join.readsEach outer (item.bound :: env) rest

def Select.reads (env : Bindings) : Select → List Read
  | ⟨projection, source, joins, condition, ordering, limit, offset⟩ =>
    let s : Select := ⟨projection, source, joins, condition, ordering, limit, offset⟩
    (if projection.isEmpty then (Bindings.tables s.own).map (fun t => (t, none)) else []) ++
      SelectItem.readsEach (s.bindings env) projection ++ FromItem.readsOption env source ++
      Join.readsEach env (source.toList.map FromItem.bound ++ env) joins ++
      Expr.readsOption (s.bindings env) condition ++
      OrderItem.readsEach (s.bindings env) ordering

def InsertSource.reads (env : Bindings) : InsertSource → List Read
  | .rows rows => Expr.readsRows env rows
  | .query query => query.reads env
  | .defaults => []

def Assignment.readsEach (env : Bindings) : List Assignment → List Read
  | [] => []
  | ⟨_, e⟩ :: rest => e.reads env ++ Assignment.readsEach env rest

def Assignments.reads (env : Bindings) : Assignments → List Read
  | .columns items => Assignment.readsEach env items
  | .query _ query => query.reads env

/-- **What a statement reads.** The rows that an UPDATE or a DELETE changes are none of a named
statement. -/
def Statement.reads (env : Bindings) : Statement → List Read
  | .select s => s.reads env
  | .insert ⟨_, _, source, _⟩ => source.reads env
  | .update ⟨table, assignments, condition, _⟩ =>
    assignments.reads ((table, none) :: env) ++ Expr.readsOption ((table, none) :: env) condition
  | .delete ⟨table, condition, _⟩ => Expr.readsOption ((table, none) :: env) condition
  | .values rows => Expr.readsRows env rows
  | .union _ members => Statement.readsEach env members
  | .withCtes _ ctes body => Cte.readsEach env ctes ++ body.reads env
  | .setLocal _ => []
  | .sequence parts => Statement.readsEach env parts

def Statement.readsEach (env : Bindings) : List Statement → List Read
  | [] => []
  | s :: rest => s.reads env ++ Statement.readsEach env rest

def Cte.readsEach (env : Bindings) : List Cte → List Read
  | [] => []
  | ⟨_, s⟩ :: rest => s.reads env ++ Cte.readsEach env rest

end

/-! ### Reads that are as stated -/

/-- All reads of a list are as stated. -/
def Allowed (P : Read → Prop) (reads : List Read) : Prop := ∀ r ∈ reads, P r

variable {P : Read → Prop} {env : Bindings}

@[simp]
lemma allowed_nil : Allowed P [] := by simp [Allowed]

@[simp]
lemma allowed_append {a b : List Read} : Allowed P (a ++ b) ↔ Allowed P a ∧ Allowed P b := by
  simp [Allowed, or_imp, forall_and]

lemma Allowed.mono {Q : Read → Prop} {reads : List Read} (h : Allowed P reads)
    (hPQ : ∀ r, P r → Q r) : Allowed Q reads :=
  fun r hr => hPQ r (h r hr)

lemma Expr.readsEach_allowed {es : List Expr} :
    Allowed P (Expr.readsEach env es) ↔ ∀ e ∈ es, Allowed P (e.reads env) :=
  forall_mem_each rfl fun _ _ => rfl

lemma Expr.readsRows_allowed {rows : List (List Expr)} :
    Allowed P (Expr.readsRows env rows) ↔ ∀ row ∈ rows, ∀ e ∈ row, Allowed P (e.reads env) :=
  (forall_mem_each rfl fun _ _ => rfl).trans (forall₂_congr fun _ _ => Expr.readsEach_allowed)

lemma OrderItem.readsEach_allowed {items : List OrderItem} :
    Allowed P (OrderItem.readsEach env items) ↔ ∀ item ∈ items, Allowed P (item.expr.reads env) :=
  forall_mem_each rfl (by rintro ⟨⟩ _; rfl)

lemma SelectItem.readsEach_allowed {items : List SelectItem} :
    Allowed P (SelectItem.readsEach env items) ↔ ∀ item ∈ items, Allowed P (item.expr.reads env) :=
  forall_mem_each rfl (by rintro ⟨⟩ _; rfl)

lemma Assignment.readsEach_allowed {items : List Assignment} :
    Allowed P (Assignment.readsEach env items) ↔ ∀ item ∈ items, Allowed P (item.value.reads env) :=
  forall_mem_each rfl (by rintro ⟨⟩ _; rfl)

lemma Statement.readsEach_allowed {members : List Statement} :
    Allowed P (Statement.readsEach env members) ↔ ∀ s ∈ members, Allowed P (s.reads env) :=
  forall_mem_each rfl fun _ _ => rfl

lemma Cte.readsEach_allowed {ctes : List Cte} :
    Allowed P (Cte.readsEach env ctes) ↔ ∀ cte ∈ ctes, Allowed P (cte.statement.reads env) :=
  forall_mem_each rfl (by rintro ⟨⟩ _; rfl)

/-- Lateral joins one after the other. Each of them binds a name to rows that are of no table. -/
lemma Join.readsEach_allowed {good : Bindings → Prop}
    (hgood : ∀ env label, good env → good ((label, none) :: env)) {joins : List Join}
    (h : ∀ j ∈ joins, ∃ query label, j = .leftLateral query label ∧
      ∀ env, good env → Allowed P (query.reads env)) (outer : Bindings) (henv : good env) :
    Allowed P (Join.readsEach outer env joins) := by
  induction joins generalizing env with
  | nil => simp [Join.readsEach]
  | cons j rest ih =>
    obtain ⟨query, label, rfl, hquery⟩ := h j (by simp)
    have hrest := ih (fun j hj => h j (by simp [hj])) (hgood env label henv)
    rw [Join.leftLateral, Join.readsEach, allowed_append, allowed_append]
    tauto

/-- A SELECT reads what its clauses read, and all columns if it names none. -/
lemma Select.reads_allowed {s : Select} : Allowed P (s.reads env) ↔
    (s.projection = [] → ∀ t ∈ Bindings.tables s.own, P (t, none)) ∧
      Allowed P (SelectItem.readsEach (s.bindings env) s.projection) ∧
      Allowed P (FromItem.readsOption env s.source) ∧
      Allowed P (Join.readsEach env (s.source.toList.map FromItem.bound ++ env) s.joins) ∧
      Allowed P (Expr.readsOption (s.bindings env) s.condition) ∧
      Allowed P (OrderItem.readsEach (s.bindings env) s.ordering) := by
  obtain ⟨projection, source, joins, condition, ordering, limit, offset⟩ := s
  rw [Select.reads]
  cases projection with
  | nil => simp [Allowed, or_imp, forall_and]
  | cons item rest => simp

section Clauses

variable {s : Select} {e : Expr} {q : String} {condition : Option Expr}

lemma of_allowed {c : String} (h : ∀ t, env.lookup q = some (some t) → P (t, some c)) :
    Allowed P ((Expr.of q c).reads env) := by
  rw [Expr.of, Expr.reads, Bindings.column]
  split
  · rename_i t ht
    simpa [Allowed] using h t ht
  · exact allowed_nil

lemma row_allowed (h : ∀ t, env.lookup q = some (some t) → P (t, none)) :
    Allowed P (env.row q) := by
  rw [Bindings.row]
  split
  · rename_i t ht
    simpa [Allowed] using h t ht
  · exact allowed_nil

lemma rowToJson_reads {label : String} (h : env.lookup label = some none) :
    (Expr.rowToJson label).reads env = [] := by
  simp [Expr.rowToJson, Expr.apply, Expr.reads, Expr.readsEach, OrderItem.readsEach,
    Bindings.unqualified, Bindings.row, h]

lemma binary_allowed (op : BinaryOp) (l r : Expr) (hl : Allowed P (l.reads env))
    (hr : Allowed P (r.reads env)) : Allowed P ((Expr.binary op l r).reads env) := by
  rw [Expr.reads, allowed_append]
  exact ⟨hl, hr⟩

lemma getD_reads {missing : Expr} (h : missing.reads env = []) :
    (condition.getD missing).reads env = Expr.readsOption env condition := by
  cases condition with
  | none => exact h
  | some e => rfl

lemma joined?_reads (op : BinaryOp) (es : List Expr) :
    Expr.readsOption env (Expr.joined? op es) = es.flatMap (Expr.reads env) := by
  have hfold : ∀ (rest : List Expr) (acc : Expr),
      (rest.foldl (fun acc x => .binary op acc x) acc).reads env =
        acc.reads env ++ rest.flatMap (Expr.reads env) := by
    intro rest
    induction rest with
    | nil => simp
    | cons x more ih =>
      intro acc
      rw [List.foldl_cons, ih, Expr.reads, List.flatMap_cons, List.append_assoc]
  cases es with
  | nil => rfl
  | cons x rest => rw [Expr.joined?, Expr.readsOption, hfold, List.flatMap_cons]

lemma conjunction?_reads (es : List Expr) :
    Expr.readsOption env (Expr.conjunction? es) = es.flatMap (Expr.reads env) := by
  have hgrouped : ∀ e : Expr, e.grouped.reads env = e.reads env := by
    intro e
    unfold Expr.grouped
    split <;> simp [Expr.reads]
  rw [Expr.conjunction?, joined?_reads, List.flatMap_map]
  simp only [hgrouped]

lemma disjunction?_reads (es : List Expr) :
    Expr.readsOption env (Expr.disjunction? es) = es.flatMap (Expr.reads env) := by
  unfold Expr.disjunction?
  split
  · simp [Expr.readsOption]
  · rw [← joined?_reads .or]
    cases Expr.joined? .or es <;> simp [Expr.readsOption, Expr.reads]

lemma andCondition_reads : Expr.readsOption env (andCondition condition e) =
    Expr.readsOption env condition ++ e.reads env := by
  rw [andCondition, conjunction?_reads]
  cases condition <;> simp [Expr.readsOption]

lemma andCondition_allowed (hc : Allowed P (Expr.readsOption env condition))
    (he : Allowed P (e.reads env)) :
    Allowed P (Expr.readsOption env (andCondition condition e)) := by
  rw [andCondition_reads, allowed_append]
  exact ⟨hc, he⟩

lemma Select.filter_allowed (hs : Allowed P (s.reads env))
    (he : Allowed P (e.reads (s.bindings env))) : Allowed P ((s.filter e).reads env) := by
  rw [Select.reads_allowed] at hs ⊢
  obtain ⟨hstar, hitems, hsource, hjoins, hcondition, hordering⟩ := hs
  exact ⟨hstar, hitems, hsource, hjoins, andCondition_allowed hcondition he, hordering⟩

end Clauses

end StagedSql
