import StagedSql.Proofs.Sql.Writes

/-!
The names of a statement and where they are visible.

A SELECT binds the names of what it reads. A lateral join sees what stands before it, a condition
sees all of the SELECT it belongs to, and `EXISTS` sees what is around it. Sub-selects that give a
value or a list of values stand for themselves: they are visited with nothing bound around them.
-/

namespace StagedSql

/-- The names that the rows of a SELECT go by, in the order of its FROM and JOIN items. -/
def Select.qualifiers (s : Select) : List String :=
  s.source.toList.map FromItem.qualifier ++ s.joins.map (·.item.qualifier)

/-- A place of a statement where a name matters. -/
inductive Site where
  /-- A SELECT, and the names of rows that it sees around it. -/
  | binds (select : Select) (around : List String)
  /-- A name of rows is used where some names are bound. -/
  | uses (name : String) (bound : List String)
  /-- A WITH clause gives a name where some others have been given. -/
  | names (name : String) (named : List String)
  /-- The rows of a table are read where some names have been given by WITH clauses. -/
  | scans (table : String) (named : List String)

/-! ### Sites -/

mutual

/-- The sites of an expression. -/
def Expr.sites (named bound : List String) : Expr → List Site
  | .column (some q) _ => [.uses q bound]
  | .column none name => [.uses name bound]
  | .star (some q) => [.uses q bound]
  | .star none => []
  | .binary _ l r => l.sites named bound ++ r.sites named bound
  | .not e => e.sites named bound
  | .call _ args ordering =>
    Expr.sitesEach named bound args ++ OrderItem.sitesEach named bound ordering
  | .cast e _ => e.sites named bound
  | .subquery query => query.sites named []
  | .existence _ query => query.sites named bound
  | .inList _ e items => e.sites named bound ++ Expr.sitesEach named bound items
  | .inQuery _ e query => e.sites named bound ++ query.sites named []
  | .isNull _ e => e.sites named bound
  | .like _ e pattern _ => e.sites named bound ++ pattern.sites named bound
  | .paren e => e.sites named bound
  | .literal _ => []
  | .param _ => []

def Expr.sitesEach (named bound : List String) : List Expr → List Site
  | [] => []
  | e :: rest => e.sites named bound ++ Expr.sitesEach named bound rest

def Expr.sitesOption (named bound : List String) : Option Expr → List Site
  | none => []
  | some e => e.sites named bound

def Expr.sitesRows (named bound : List String) : List (List Expr) → List Site
  | [] => []
  | row :: rest => Expr.sitesEach named bound row ++ Expr.sitesRows named bound rest

def OrderItem.sitesEach (named bound : List String) : List OrderItem → List Site
  | [] => []
  | ⟨e, _⟩ :: rest => e.sites named bound ++ OrderItem.sitesEach named bound rest

def SelectItem.sitesEach (named bound : List String) : List SelectItem → List Site
  | [] => []
  | ⟨e, _⟩ :: rest => e.sites named bound ++ SelectItem.sitesEach named bound rest

def FromItem.sites (named bound : List String) : FromItem → List Site
  | .table name _ => [.scans name named]
  | .derived query _ _ => query.sites named bound

def FromItem.sitesOption (named bound : List String) : Option FromItem → List Site
  | none => []
  | some item => item.sites named bound

/-- The sites of joins. A lateral one sees the rows of those before it. -/
def Join.sitesEach (named outer bound : List String) : List Join → List Site
  | [] => []
  | ⟨_, lateral, item, condition⟩ :: rest =>
    item.sites named (if lateral then bound else outer) ++
      Expr.sitesOption named (item.qualifier :: bound) condition ++
      Join.sitesEach named outer (item.qualifier :: bound) rest

def Select.sites (named bound : List String) : Select → List Site
  | ⟨projection, source, joins, condition, ordering, limit, offset⟩ =>
    let s : Select := ⟨projection, source, joins, condition, ordering, limit, offset⟩
    .binds s bound ::
      (SelectItem.sitesEach named (s.qualifiers ++ bound) projection ++
        FromItem.sitesOption named bound source ++
        Join.sitesEach named bound (source.toList.map FromItem.qualifier ++ bound) joins ++
        Expr.sitesOption named (s.qualifiers ++ bound) condition ++
        OrderItem.sitesEach named (s.qualifiers ++ bound) ordering)

def InsertSource.sites (named bound : List String) : InsertSource → List Site
  | .rows rows => Expr.sitesRows named bound rows
  | .query query => query.sites named []
  | .defaults => []

def Assignment.sitesEach (named bound : List String) : List Assignment → List Site
  | [] => []
  | ⟨_, e⟩ :: rest => e.sites named bound ++ Assignment.sitesEach named bound rest

def Assignments.sites (named bound : List String) : Assignments → List Site
  | .columns items => Assignment.sitesEach named bound items
  | .query _ query => query.sites named []

/-- **The sites of a statement.** The rows that an UPDATE or a DELETE changes go by the name of
their table. A statement of a WITH clause sees the names that are given before it, and all names of
the clause if it is recursive. -/
def Statement.sites (named bound : List String) : Statement → List Site
  | .select s => s.sites named bound
  | .insert ⟨_, _, source, _⟩ => source.sites named bound
  | .update ⟨table, assignments, condition, _⟩ =>
    assignments.sites named (table :: bound) ++ Expr.sitesOption named (table :: bound) condition
  | .delete ⟨table, condition, _⟩ => Expr.sitesOption named (table :: bound) condition
  | .values rows => Expr.sitesRows named bound rows
  | .union _ members => Statement.sitesEach named bound members
  | .withCtes recursive ctes body =>
    Cte.sitesEach (if recursive then ctes.map (·.name) else []) named bound ctes ++
      body.sites (named ++ ctes.map (·.name)) bound
  | .setLocal _ => []
  | .sequence parts => Statement.sitesEach named bound parts

def Statement.sitesEach (named bound : List String) : List Statement → List Site
  | [] => []
  | s :: rest => s.sites named bound ++ Statement.sitesEach named bound rest

/-- The sites of named statements, all of which see the names `shared`. -/
def Cte.sitesEach (shared named bound : List String) : List Cte → List Site
  | [] => []
  | ⟨name, s⟩ :: rest =>
    .names name named :: (s.sites (shared ++ named) bound ++
      Cte.sitesEach shared (named ++ [name]) bound rest)

end

/-- The sites of the clauses of a SELECT. -/
def Select.clauseSites (named bound : List String) (s : Select) : List Site :=
  SelectItem.sitesEach named (s.qualifiers ++ bound) s.projection ++
    FromItem.sitesOption named bound s.source ++
    Join.sitesEach named bound (s.source.toList.map FromItem.qualifier ++ bound) s.joins ++
    Expr.sitesOption named (s.qualifiers ++ bound) s.condition ++
    OrderItem.sitesEach named (s.qualifiers ++ bound) s.ordering

lemma Select.sites_eq (named bound : List String) (s : Select) :
    s.sites named bound = .binds s bound :: s.clauseSites named bound := by
  obtain ⟨projection, source, joins, condition, ordering, limit, offset⟩ := s
  rfl

/-! ### What is to hold of sites -/

/-- A SELECT that uses no names but those that are bound in it. -/
def Select.Closed (s : Select) : Prop :=
  ∀ name bound, Site.uses name bound ∈ s.sites [] [] → name ∈ bound

/-- Every name that is used is bound, and every table that is read is one of those given or has a
name that a WITH clause gave. -/
def Site.Resolved (tables : List String) : Site → Prop
  | .uses name bound => name ∈ bound
  | .scans table named => table ∈ named ∨ table ∈ tables
  | _ => True

/-- No name hides another one: the rows of a SELECT go by different names, which are none of those
around it unless it uses nothing of what is around it, and a WITH clause gives no name of a table or
of a statement that is visible. -/
def Site.Apart (tables : List String) : Site → Prop
  | .binds s around => s.qualifiers.Nodup ∧ ((∀ q ∈ s.qualifiers, q ∉ around) ∨ s.Closed)
  | .names name named => name ∉ tables ∧ name ∉ named
  | .scans table named => table ∈ tables → table ∉ named
  | _ => True

/-- Both. -/
def Site.Good (tables : List String) (site : Site) : Prop :=
  site.Resolved tables ∧ site.Apart tables

/-! ### Clauses -/

variable {P : Site → Prop} {named bound : List String}

lemma Expr.sitesEach_forall {es : List Expr} :
    (∀ site ∈ Expr.sitesEach named bound es, P site) ↔
      ∀ e ∈ es, ∀ site ∈ e.sites named bound, P site :=
  forall_mem_each rfl fun _ _ => rfl

lemma Expr.sitesOption_forall {e : Option Expr} :
    (∀ site ∈ Expr.sitesOption named bound e, P site) ↔
      ∀ x, e = some x → ∀ site ∈ x.sites named bound, P site := by
  cases e <;> simp [Expr.sitesOption]

lemma Expr.sitesRows_forall {rows : List (List Expr)} :
    (∀ site ∈ Expr.sitesRows named bound rows, P site) ↔
      ∀ row ∈ rows, ∀ e ∈ row, ∀ site ∈ e.sites named bound, P site :=
  (forall_mem_each rfl fun _ _ => rfl).trans (forall₂_congr fun _ _ => Expr.sitesEach_forall)

lemma OrderItem.sitesEach_forall {items : List OrderItem} :
    (∀ site ∈ OrderItem.sitesEach named bound items, P site) ↔
      ∀ item ∈ items, ∀ site ∈ item.expr.sites named bound, P site :=
  forall_mem_each rfl (by rintro ⟨⟩ _; rfl)

lemma SelectItem.sitesEach_forall {items : List SelectItem} :
    (∀ site ∈ SelectItem.sitesEach named bound items, P site) ↔
      ∀ item ∈ items, ∀ site ∈ item.expr.sites named bound, P site :=
  forall_mem_each rfl (by rintro ⟨⟩ _; rfl)

lemma Assignment.sitesEach_forall {items : List Assignment} :
    (∀ site ∈ Assignment.sitesEach named bound items, P site) ↔
      ∀ item ∈ items, ∀ site ∈ item.value.sites named bound, P site :=
  forall_mem_each rfl (by rintro ⟨⟩ _; rfl)

lemma Statement.sitesEach_forall {members : List Statement} :
    (∀ site ∈ Statement.sitesEach named bound members, P site) ↔
      ∀ s ∈ members, ∀ site ∈ s.sites named bound, P site :=
  forall_mem_each rfl fun _ _ => rfl

/-- Named statements that see no names but those that are given before them. -/
lemma Cte.sitesEach_forall {ctes : List Cte} :
    (∀ site ∈ Cte.sitesEach [] named bound ctes, P site) ↔
      ∀ before cte after, ctes = before ++ cte :: after →
        P (.names cte.name (named ++ before.map (·.name))) ∧
          ∀ site ∈ cte.statement.sites (named ++ before.map (·.name)) bound, P site := by
  induction ctes generalizing named with
  | nil => simp [Cte.sitesEach]
  | cons first rest ih =>
    obtain ⟨name, s⟩ := first
    rw [Cte.sitesEach, List.forall_mem_cons, List.forall_mem_append, ih]
    constructor
    · rintro ⟨hname, hs, hrest⟩ before cte after hsplit
      cases before with
      | nil =>
        cases hsplit
        simpa using ⟨hname, hs⟩
      | cons b more =>
        grind
    · intro h
      have hfirst := h [] ⟨name, s⟩ rest rfl
      grind

lemma Select.clauseSites_forall {s : Select} : (∀ site ∈ s.clauseSites named bound, P site) ↔
    (∀ site ∈ SelectItem.sitesEach named (s.qualifiers ++ bound) s.projection, P site) ∧
      (∀ site ∈ FromItem.sitesOption named bound s.source, P site) ∧
      (∀ site ∈ Join.sitesEach named bound (s.source.toList.map FromItem.qualifier ++ bound)
        s.joins, P site) ∧
      (∀ site ∈ Expr.sitesOption named (s.qualifiers ++ bound) s.condition, P site) ∧
      ∀ site ∈ OrderItem.sitesEach named (s.qualifiers ++ bound) s.ordering, P site := by
  simp only [Select.clauseSites, List.forall_mem_append, and_assoc]

section Clauses

variable {s : Select} {e : Expr} {condition : Option Expr} {items : List SelectItem}

lemma of_sites (q c : String) : (Expr.of q c).sites named bound = [.uses q bound] := by
  rw [Expr.of, Expr.sites]

lemma rowToJson_sites (label : String) :
    (Expr.rowToJson label).sites named bound = [.uses label bound] := by
  rfl

lemma binary_sites (op : BinaryOp) (l r : Expr) (hl : ∀ site ∈ l.sites named bound, P site)
    (hr : ∀ site ∈ r.sites named bound, P site) :
    ∀ site ∈ (Expr.binary op l r).sites named bound, P site := by
  rw [Expr.sites, List.forall_mem_append]
  exact ⟨hl, hr⟩

lemma paren_sites (e : Expr) (he : ∀ site ∈ e.sites named bound, P site) :
    ∀ site ∈ (Expr.paren e).sites named bound, P site := by
  rwa [Expr.sites]

lemma getD_sites {missing : Expr}
    (h : ∀ e, condition = some e → ∀ site ∈ e.sites named bound, P site)
    (hm : ∀ site ∈ missing.sites named bound, P site) :
    ∀ site ∈ (condition.getD missing).sites named bound, P site := by
  cases condition with
  | none => exact hm
  | some e => exact h e rfl

lemma andCondition_sites (hc : ∀ site ∈ Expr.sitesOption named bound condition, P site)
    (he : ∀ site ∈ e.sites named bound, P site) :
    ∀ site ∈ Expr.sitesOption named bound (andCondition condition e), P site := by
  rw [Expr.sitesOption_forall] at hc ⊢
  exact andCondition_of binary_sites paren_sites hc he

lemma Select.filter_clauseSites (hs : ∀ site ∈ s.clauseSites named bound, P site)
    (he : ∀ site ∈ e.sites named (s.qualifiers ++ bound), P site) :
    ∀ site ∈ (s.filter e).clauseSites named bound, P site := by
  rw [Select.clauseSites_forall] at hs ⊢
  obtain ⟨hitems, hsource, hjoins, hcondition, hordering⟩ := hs
  exact ⟨hitems, hsource, hjoins, andCondition_sites hcondition he, hordering⟩

lemma Select.single_clauseSites {item : FromItem} (hitem : ∀ site ∈ item.sites named bound, P site)
    (hitems : ∀ i ∈ items, ∀ site ∈ i.expr.sites named (item.qualifier :: bound), P site) :
    ∀ site ∈ Select.clauseSites named bound
      { Select.empty with projection := items, source := some item }, P site := by
  rw [Select.clauseSites_forall]
  exact ⟨SelectItem.sitesEach_forall.mpr hitems, hitem, by simp [Select.empty, Join.sitesEach],
    by simp [Select.empty, Expr.sitesOption], by simp [Select.empty, OrderItem.sitesEach]⟩

lemma Select.append_clauseSites (hs : ∀ site ∈ s.clauseSites named bound, P site)
    (hitems : ∀ item ∈ items, ∀ site ∈ item.expr.sites named (s.qualifiers ++ bound), P site) :
    ∀ site ∈ ({ s with projection := s.projection ++ items } : Select).clauseSites named bound,
      P site := by
  rw [Select.clauseSites_forall] at hs ⊢
  refine ⟨?_, hs.2⟩
  rw [SelectItem.sitesEach_forall]
  intro item hitem
  rcases List.mem_append.mp hitem with hitem | hitem
  · exact SelectItem.sitesEach_forall.mp hs.1 item hitem
  · exact hitems item hitem

end Clauses

end StagedSql
