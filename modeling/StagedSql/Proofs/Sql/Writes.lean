import Mathlib.Data.List.Basic
import StagedSql.Sql.Clause

/-!
The writes in a statement.
-/

namespace StagedSql

variable {condition : Option Expr}

/-- The named statements at the top of a statement. -/
def Statement.ctes : Statement → List Cte
  | .withCtes _ ctes _ => ctes
  | _ => []

/-- Whether a statement writes. -/
def Statement.isWrite : Statement → Bool
  | .insert _ | .update _ | .delete _ => true
  | _ => false

mutual

/-- The writes in an expression. -/
def Expr.writes : Expr → List Statement
  | .binary _ l r => l.writes ++ r.writes
  | .not e => e.writes
  | .call _ args ordering => Expr.writesEach args ++ OrderItem.writesEach ordering
  | .cast e _ => e.writes
  | .subquery query => query.writes
  | .existence _ query => query.writes
  | .inList _ e items => e.writes ++ Expr.writesEach items
  | .inQuery _ e query => e.writes ++ query.writes
  | .isNull _ e => e.writes
  | .like _ e pattern _ => e.writes ++ pattern.writes
  | .paren e => e.writes
  | .column _ _ => []
  | .literal _ => []
  | .param _ => []
  | .star _ => []

def Expr.writesEach : List Expr → List Statement
  | [] => []
  | e :: rest => e.writes ++ Expr.writesEach rest

def Expr.writesOption : Option Expr → List Statement
  | none => []
  | some e => e.writes

def Expr.writesRows : List (List Expr) → List Statement
  | [] => []
  | row :: rest => Expr.writesEach row ++ Expr.writesRows rest

def OrderItem.writesEach : List OrderItem → List Statement
  | [] => []
  | ⟨e, _⟩ :: rest => e.writes ++ OrderItem.writesEach rest

def SelectItem.writesEach : List SelectItem → List Statement
  | [] => []
  | ⟨e, _⟩ :: rest => e.writes ++ SelectItem.writesEach rest

def FromItem.writes : FromItem → List Statement
  | .table _ _ => []
  | .derived query _ _ => query.writes

def FromItem.writesOption : Option FromItem → List Statement
  | none => []
  | some item => item.writes

def Join.writesEach : List Join → List Statement
  | [] => []
  | ⟨_, _, item, condition⟩ :: rest =>
    item.writes ++ Expr.writesOption condition ++ Join.writesEach rest

def Select.writes : Select → List Statement
  | ⟨projection, source, joins, condition, ordering, _, _⟩ =>
    SelectItem.writesEach projection ++ FromItem.writesOption source ++ Join.writesEach joins ++
      Expr.writesOption condition ++ OrderItem.writesEach ordering

def InsertSource.writes : InsertSource → List Statement
  | .rows rows => Expr.writesRows rows
  | .query query => query.writes
  | .defaults => []

def Assignment.writesEach : List Assignment → List Statement
  | [] => []
  | ⟨_, e⟩ :: rest => e.writes ++ Assignment.writesEach rest

def Assignments.writes : Assignments → List Statement
  | .columns items => Assignment.writesEach items
  | .query _ query => query.writes

/-- **The writes in a statement**, at any depth; a write comes before those in it. -/
def Statement.writes : Statement → List Statement
  | .select s => s.writes
  | .insert ⟨table, columns, source, returning⟩ =>
    .insert ⟨table, columns, source, returning⟩ :: source.writes
  | .update ⟨table, assignments, condition, returning⟩ =>
    .update ⟨table, assignments, condition, returning⟩ ::
      (assignments.writes ++ Expr.writesOption condition)
  | .delete ⟨table, condition, returning⟩ =>
    .delete ⟨table, condition, returning⟩ :: Expr.writesOption condition
  | .values rows => Expr.writesRows rows
  | .union _ members => Statement.writesEach members
  | .withCtes _ ctes body => Cte.writesEach ctes ++ body.writes
  | .setLocal _ => []
  | .sequence parts => Statement.writesEach parts

def Statement.writesEach : List Statement → List Statement
  | [] => []
  | s :: rest => s.writes ++ Statement.writesEach rest

def Cte.writesEach : List Cte → List Statement
  | [] => []
  | ⟨_, s⟩ :: rest => s.writes ++ Cte.writesEach rest

end

/-! ### Lists -/

section Each

variable {α β : Type} {f : List α → List β} {g : α → List β} (hnil : f [] = [])
  (hcons : ∀ a l, f (a :: l) = g a ++ f l) {l : List α}

include hnil hcons

lemma each_eq_flatMap (l : List α) : f l = l.flatMap g := by
  induction l with
  | nil => exact hnil
  | cons a l ih => rw [hcons, ih, List.flatMap_cons]

lemma each_eq_nil : f l = [] ↔ ∀ a ∈ l, g a = [] := by
  rw [each_eq_flatMap hnil hcons, List.flatMap_eq_nil_iff]

lemma forall_mem_each {P : β → Prop} : (∀ b ∈ f l, P b) ↔ ∀ a ∈ l, ∀ b ∈ g a, P b := by
  rw [each_eq_flatMap hnil hcons, List.forall_mem_flatMap]

lemma each_append (l l' : List α) : f (l ++ l') = f l ++ f l' := by
  simp only [each_eq_flatMap hnil hcons, List.flatMap_append]

end Each

lemma Expr.writesEach_eq_nil {es : List Expr} :
    Expr.writesEach es = [] ↔ ∀ e ∈ es, e.writes = [] :=
  each_eq_nil rfl fun _ _ => rfl

lemma Expr.writesRows_eq_nil {rows : List (List Expr)} :
    Expr.writesRows rows = [] ↔ ∀ row ∈ rows, ∀ e ∈ row, e.writes = [] :=
  (each_eq_nil rfl fun _ _ => rfl).trans (forall₂_congr fun _ _ => Expr.writesEach_eq_nil)

lemma Expr.writesOption_eq_nil :
    Expr.writesOption condition = [] ↔ ∀ e, condition = some e → e.writes = [] := by
  cases condition <;> simp [Expr.writesOption]

lemma OrderItem.writesEach_eq_nil {items : List OrderItem} :
    OrderItem.writesEach items = [] ↔ ∀ item ∈ items, item.expr.writes = [] :=
  each_eq_nil rfl (by rintro ⟨⟩ _; rfl)

lemma SelectItem.writesEach_eq_nil {items : List SelectItem} :
    SelectItem.writesEach items = [] ↔ ∀ item ∈ items, item.expr.writes = [] :=
  each_eq_nil rfl (by rintro ⟨⟩ _; rfl)

lemma Join.writesEach_append (first second : List Join) :
    Join.writesEach (first ++ second) = Join.writesEach first ++ Join.writesEach second :=
  each_append (g := fun j => j.item.writes ++ Expr.writesOption j.condition) rfl
    (by rintro ⟨⟩ _; rfl) first second

lemma SelectItem.writesEach_append (first second : List SelectItem) :
    SelectItem.writesEach (first ++ second) =
      SelectItem.writesEach first ++ SelectItem.writesEach second :=
  each_append (g := (·.expr.writes)) rfl (by rintro ⟨⟩ _; rfl) first second

lemma Assignment.writesEach_eq_nil {items : List Assignment} :
    Assignment.writesEach items = [] ↔ ∀ item ∈ items, item.value.writes = [] :=
  each_eq_nil rfl (by rintro ⟨⟩ _; rfl)

lemma Statement.writesEach_eq_nil {members : List Statement} :
    Statement.writesEach members = [] ↔ ∀ s ∈ members, s.writes = [] :=
  each_eq_nil rfl fun _ _ => rfl

lemma Cte.writesEach_eq_flatMap (ctes : List Cte) :
    Cte.writesEach ctes = ctes.flatMap (·.statement.writes) :=
  each_eq_flatMap rfl (by rintro ⟨⟩ _; rfl) ctes

/-! ### Joined conditions -/

section Joined

variable {P : Expr → Prop} (hbinary : ∀ op l r, P l → P r → P (.binary op l r))
  (hparen : ∀ e, P e → P (.paren e)) {es : List Expr} {e : Expr}

include hbinary in
/-- What holds of expressions and of operators between them holds of the expressions joined. -/
lemma Expr.joined?_of {op : BinaryOp} (hes : ∀ e ∈ es, P e) :
    ∀ e, Expr.joined? op es = some e → P e := by
  intro e he
  cases es with
  | nil => cases he
  | cons first rest =>
    rw [Expr.joined?, Option.some.injEq] at he
    subst he
    have hfold : ∀ acc, P acc → (∀ x ∈ rest, P x) →
        P (rest.foldl (fun acc x => .binary op acc x) acc) := by
      clear hes
      induction rest with
      | nil => exact fun acc h _ => h
      | cons x more ih =>
        simp_all
    simp_all

include hparen in
lemma Expr.grouped_of (he : P e) : P e.grouped := by
  unfold Expr.grouped
  split
  · exact hparen _ he
  · exact he

include hbinary hparen

lemma Expr.conjunction?_of (hes : ∀ e ∈ es, P e) : ∀ e, Expr.conjunction? es = some e → P e := by
  refine Expr.joined?_of hbinary fun e he => ?_
  obtain ⟨x, hx, rfl⟩ := List.mem_map.mp he
  exact Expr.grouped_of hparen (hes x hx)

lemma Expr.disjunction?_of (hes : ∀ e ∈ es, P e) : ∀ e, Expr.disjunction? es = some e → P e := by
  intro e he
  unfold Expr.disjunction? at he
  split at he
  · cases he
    exact hes _ (by simp)
  · obtain ⟨x, hx, rfl⟩ := Option.map_eq_some_iff.mp he
    exact hparen _ (Expr.joined?_of hbinary hes x hx)

lemma andCondition_of (hc : ∀ c, condition = some c → P c)
    (he : P e) : ∀ c, andCondition condition e = some c → P c := by
  refine Expr.conjunction?_of hbinary hparen fun x hx => ?_
  grind

end Joined

/-! ### Clauses without writes -/

lemma binary_writes (op : BinaryOp) (l r : Expr) (hl : l.writes = []) (hr : r.writes = []) :
    (Expr.binary op l r).writes = [] := by
  rw [Expr.writes, hl, hr]
  rfl

lemma paren_writes (e : Expr) (h : e.writes = []) : (Expr.paren e).writes = [] := by
  rw [Expr.writes, h]

lemma getD_writes {missing : Expr} (h : ∀ e, condition = some e → e.writes = [])
    (hm : missing.writes = []) : (condition.getD missing).writes = [] := by
  cases condition with
  | none => exact hm
  | some e => exact h e rfl

lemma andCondition_writes {e : Expr} (hc : Expr.writesOption condition = []) (he : e.writes = []) :
    Expr.writesOption (andCondition condition e) = [] := by
  rw [Expr.writesOption_eq_nil] at hc ⊢
  exact andCondition_of binary_writes paren_writes hc he

lemma Select.writes_eq_nil {s : Select} : s.writes = [] ↔
    SelectItem.writesEach s.projection = [] ∧ FromItem.writesOption s.source = [] ∧
      Join.writesEach s.joins = [] ∧ Expr.writesOption s.condition = [] ∧
      OrderItem.writesEach s.ordering = [] := by
  obtain ⟨projection, source, joins, condition, ordering, limit, offset⟩ := s
  simp [Select.writes]

lemma Select.filter_writes {s : Select} {e : Expr} (hs : s.writes = []) (he : e.writes = []) :
    (s.filter e).writes = [] := by
  rw [Select.writes_eq_nil] at hs ⊢
  exact ⟨hs.1, hs.2.1, hs.2.2.1, andCondition_writes hs.2.2.2.1 he, hs.2.2.2.2⟩

end StagedSql
