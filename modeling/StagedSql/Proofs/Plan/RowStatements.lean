import StagedSql.Proofs.Graph.InsertTrees
import StagedSql.Proofs.Graph.GivenRows
import StagedSql.Proofs.Plan.Growth

/-!
The statements that insert new rows, and the values that they are sent with.

The row of a number is inserted by the stage of that number. Links to other rows are sub-selects
that read the primary key of the stage of the other row.
-/

namespace StagedSql

open Statement

/-- The values of the parameters among tokens. -/
def tokenParams (ts : List Token) : List Value := ts.filterMap Token.param?

def Statement.params (s : Statement) : List Value := tokenParams s.tokens

def Expr.params (e : Expr) : List Value := tokenParams e.tokens

lemma Statement.render_args (s : Statement) (placeholder : Placeholder) :
    (s.render placeholder).args = s.params := rfl

/-! ### Pieces -/

section Pieces

@[simp] lemma tokenParams_nil : tokenParams [] = [] := rfl

@[simp] lemma tokenParams_append (ts us : List Token) :
    tokenParams (ts ++ us) = tokenParams ts ++ tokenParams us := List.filterMap_append

@[simp] lemma tokenParams_cons (t : Token) (ts : List Token) :
    tokenParams (t :: ts) = t.param?.toList ++ tokenParams ts := by
  cases h : t.param? <;> simp [tokenParams, h]

lemma tokenParams_between {separator : List Token} (h : tokenParams separator = [])
    (tss : List (List Token)) :
    tokenParams (tokensBetween separator tss) = tss.flatMap tokenParams := by
  induction tss with
  | nil => rfl
  | cons ts rest ih =>
    cases rest with
    | nil => simp [tokensBetween]
    | cons us rest =>
      have hstep : tokensBetween separator (ts :: us :: rest) =
          ts ++ separator ++ tokensBetween separator (us :: rest) := rfl
      simp_all

@[simp] lemma tokenParams_commaSeparated (tss : List (List Token)) :
    tokenParams (commaSeparated tss) = tss.flatMap tokenParams :=
  tokenParams_between rfl tss

@[simp] lemma tokenParams_parenthesized (ts : List Token) :
    tokenParams (parenthesized ts) = tokenParams ts := by
  simp [parenthesized, Token.param?]

@[simp] lemma tokenParams_word (k : Keyword) : tokenParams (word k) = [] := rfl

@[simp] lemma tokenParams_innerWord (k : Keyword) : tokenParams (innerWord k) = [] := rfl

@[simp] lemma tokenParams_nameList (names : List String) : tokenParams (nameList names) = [] := by
  rw [nameList]
  simp [Token.param?]

@[simp] lemma tokenParams_labelTokens (label : Option String) :
    tokenParams (labelTokens label) = [] := by
  cases label <;> rfl

@[simp] lemma tokenParams_returning (r : Returning) : tokenParams r.tokens = [] := by
  cases r <;> simp [Returning.tokens, Token.param?]

end Pieces

/-! ### Trees -/

section Trees

attribute [local simp] Expr.tokens Expr.tokenLists Expr.clause Expr.rowLists OrderItem.tokenLists
  SelectItem.tokens SelectItem.tokenLists FromItem.tokens FromItem.clause Join.tokens Join.clauses
  Select.tokens InsertSource.tokens Insert.tokens Cte.tokenLists tokens
  tokenLists

lemma Expr.tokenLists_params (es : List Expr) :
    (tokenLists es).flatMap tokenParams = es.flatMap params := by
  induction es with
  | nil => simp
  | cons e rest ih => simp [ih, Expr.params]

lemma Statement.tokenLists_params (ss : List Statement) :
    (tokenLists ss).flatMap tokenParams = ss.flatMap params := by
  induction ss with
  | nil => simp
  | cons s rest ih => simp [ih, params]

namespace Expr

@[simp] lemma params_column (table : Option String) (name : String) :
    (column table name).params = [] := by
  cases table <;> simp [params, qualifierTokens, Token.param?]

@[simp] lemma params_of (table name : String) : (of table name).params = [] :=
  params_column _ _

@[simp] lemma params_literal (l : Literal) : (literal l).params = [] := by
  rcases l with _ | _ | (_ | _) | _ <;> simp [params, Literal.token, Token.param?]

@[simp] lemma params_binary (op : BinaryOp) (l r : Expr) :
    (binary op l r).params = l.params ++ r.params := by
  cases op <;> simp [params, BinaryOp.token, Token.param?]

@[simp] lemma params_subquery (s : Statement) : (subquery s).params = s.params := by
  simp [params, Statement.params]

@[simp] lemma params_call (function : String) (args : List Expr) :
    (call function args []).params = args.flatMap params := by
  simp [params, listClause, Token.param?, tokenLists_params]

end Expr

/-- **A SELECT without values in its clauses** binds none. -/
lemma Select.params_eq_nil {s : Select} (hitems : ∀ item ∈ s.projection, item.expr.params = [])
    (hsource : ∀ item ∈ s.source, tokenParams item.tokens = [])
    (hjoins : ∀ j ∈ s.joins, tokenParams j.tokens = [])
    (hcondition : ∀ e ∈ s.condition, e.params = []) (hordering : s.ordering = []) :
    (select s).params = [] := by
  obtain ⟨projection, source, joins, condition, ordering, limit, offset⟩ := s
  dsimp only at hitems hsource hjoins hcondition hordering
  subst hordering
  have hlist : (SelectItem.tokenLists projection).flatMap tokenParams = [] := by
    induction projection with
    | nil => simp
    | cons item rest ih =>
      obtain ⟨e, label⟩ := item
      have he : tokenParams e.tokens = [] := hitems ⟨e, label⟩ (by simp)
      simp_all
  have hclauses : tokenParams (Join.clauses joins) = [] := by
    induction joins with
    | nil => simp
    | cons j rest ih =>
      have hj : tokenParams j.tokens = [] := hjoins j (by simp)
      have hrest := ih fun j hj => hjoins j (by simp [hj])
      simp [hj, hrest, Token.param?]
  have hfrom : tokenParams (FromItem.clause source) = [] := by
    cases source with
    | none => simp
    | some item => simp [hsource item rfl]
  have hwhere : tokenParams (Expr.clause .WHERE condition) = [] := by
    cases condition with
    | none => simp
    | some e =>
      tauto
  have hcount : ∀ (k : Keyword) (n : Option UInt64), tokenParams (countTokens k n) = [] := by
    intro k n
    cases n <;> rfl
  by_cases hempty : projection.isEmpty
  · simp [params, hempty, hfrom, hclauses, hwhere, hcount, listClause, Token.param?]
  · simp [params, hempty, hlist, hfrom, hclauses, hwhere, hcount, listClause]

@[simp] lemma FromItem.params_table (name : String) (label : Option String) :
    tokenParams (FromItem.table name label).tokens = [] := by
  simp [Token.param?]

@[simp] lemma FromItem.params_derived (query : Statement) (label : String) :
    tokenParams (FromItem.derived query label []).tokens = query.params := by
  simp [params]

lemma Join.params_leftLateral (query : Statement) (label : String) :
    tokenParams (Join.leftLateral query label).tokens = query.params := by
  have htrue : tokenParams (Expr.bool true).tokens = [] := Expr.params_literal _
  simp [Join.leftLateral, htrue, params]

lemma Cte.tokenLists_params (ctes : List Cte) :
    (Cte.tokenLists ctes).flatMap tokenParams = ctes.flatMap fun cte => cte.statement.params := by
  induction ctes with
  | nil => simp
  | cons cte rest ih =>
    obtain ⟨name, statement⟩ := cte
    simp [ih, params, Token.param?]

lemma Statement.params_union (members : List Statement) :
    (union true members).params = members.flatMap params := by
  rw [← tokenLists_params]
  exact tokenParams_between rfl _

lemma Statement.params_withCtes (recursive : Bool) (ctes : List Cte) (body : Statement) :
    (withCtes recursive ctes body).params =
      ctes.flatMap (fun cte => cte.statement.params) ++ body.params := by
  rw [← Cte.tokenLists_params]
  cases ctes with
  | nil => simp [params]
  | cons cte rest => cases recursive <;> simp [params, Token.param?]

lemma Insert.params_rows (table : String) (columns : List String) (es : List Expr)
    (returning : Returning) :
    (insert ⟨table, columns, .rows [es], returning⟩).params = es.flatMap Expr.params := by
  cases columns <;> simp [params, Token.param?, Expr.tokenLists_params]

lemma Insert.params_defaults (table : String) (columns : List String) (returning : Returning) :
    (insert ⟨table, columns, .defaults, returning⟩).params = [] := by
  cases columns <;> simp [params, Token.param?]

end Trees

open Plan

variable {schema : Schema} {s : PlanState}

/-! ### Cells and rows -/

/-- The name of the stage that inserts the row of a number. -/
def rowName (n : Nat) : String := numberedName 't' n

/-- The primary key of the rows of a stage. -/
def keySelect (name : String) (r : Relation) : Select :=
  { Select.empty with
    projection := [⟨.of name r.primaryKey, none⟩]
    source := some (.table name none) }

/-- Whether the primary key of a relation is one of its stored columns. -/
def Relation.HasStoredKey (r : Relation) : Prop :=
  ∃ c, r.column? r.primaryKey = some c ∧ c.isReverse = false

/-- A SELECT of a stage that is meant to give its primary key. It binds no value, and gives the key
if the key is stored. -/
structure Select.IsKeyOf (select : Select) (name : String) (r : Relation) : Prop where
  source : select.source = some (.table name none)
  params : (Statement.select select).params = []
  eq_iff : select = keySelect name r ↔ r.HasStoredKey

/-- **The expression of a cell**: a bound value, and for a link the sub-select of the key of the
other row. -/
def NewCell.IsWrittenAs : NewCell → Expr → Prop
  | .value v, e => e = .param v
  | .nested n t, e => ∃ select, e = .subquery (.select select) ∧ select.IsKeyOf (rowName n) t
  | .parent n t, e => e = .subquery (.select (keySelect (rowName n) t))

/-- **The INSERT of a row**, whatever it gives back. -/
def NewRow.IsInsertedBy (row : NewRow) (statement : Statement) : Prop :=
  ∃ es returning, statement = .insert ⟨row.relation.name, row.cells.map (·.1),
      if row.cells.isEmpty then .defaults else .rows [es], returning⟩ ∧
    List.Forall₂ (fun cell e => cell.2.IsWrittenAs e) row.cells es

/-! ### Bound values -/

lemma keySelect_params (name : String) (r : Relation) :
    (Statement.select (keySelect name r)).params = [] := by
  rfl

lemma NewCell.IsWrittenAs.params {cell : NewCell} {e : Expr} (h : cell.IsWrittenAs e) :
    e.params = cell.value?.toList := by
  cases cell with
  | value v =>
    rw [h]
    rfl
  | nested n t =>
    obtain ⟨select, rfl, hkey⟩ := h
    rw [Expr.params_subquery, hkey.params]
    rfl
  | parent n t =>
    rw [h]
    rfl

/-- **The INSERT of a row binds its values and no others.** -/
lemma NewRow.IsInsertedBy.params {row : NewRow} {statement : Statement}
    (h : row.IsInsertedBy statement) : statement.params = row.values := by
  obtain ⟨es, returning, rfl, hcells⟩ := h
  obtain ⟨r, cells⟩ := row
  have hvalues : es.flatMap Expr.params = NewRow.values ⟨r, cells⟩ := by
    rw [NewRow.values]
    dsimp only at hcells ⊢
    induction hcells with
    | nil => rfl
    | cons hcell _ ih =>
      rw [List.flatMap_cons, hcell.params, ih, List.filterMap_cons]
      split <;> simp [*]
  cases cells with
  | nil => exact Insert.params_defaults _ _ _
  | cons cell rest => exact (Insert.params_rows _ _ _ _).trans hvalues

/-! ### Related rows -/

/-- The stages that hold the rows which a column of an outer row leads to, if this statement writes
them. -/
def Outer.members? (outer : Outer) (s : PlanState) (name : String) : Option (List String) :=
  outer.stage.bind fun stage => s.written.lookup (stage, name)

/-- The FROM item of related rows: those of the stages that write them, if there are any, and
otherwise those of the relation. -/
def relatedItem (t : Relation) (label : String) : Option (List String) → FromItem
  | some members => .derived (.union true (members.map stageRows)) label []
  | none => tableItem t.name label

lemma walkLink_eq (c : Column) (r : Relation) (next previous : String) :
    walkLink c r.primaryKey next previous =
      .binary .eq (.of next (c.linkOf r)) (.of previous (c.linkFrom r)) := by
  rw [walkLink, Column.linkOf, Column.linkFrom]
  cases c.kind <;> rfl

lemma lookupTarget_link {outer : Outer} {name : String} {c : Column} {target : RelationId}
    (h : lookupTarget schema outer name = .ok (c, target)) :
    ∃ t, schema.link? outer.relation name = some (c, t) ∧ schema.relation target = .ok t := by
  obtain ⟨c', hc, h⟩ := Except.bind_ok h
  cases hr : c'.related? with
  | none =>
    rw [hr] at h
    cases h
  | some related =>
    rw [hr] at h
    obtain ⟨id, hid, h⟩ := Except.bind_ok h
    cases h
    obtain ⟨t, hget, ht⟩ := Schema.get?_of_resolve hid
    exact ⟨t, Schema.link?_eq_some.mpr ⟨Relation.column_eq_ok.mp hc, related, hr, hget⟩, ht⟩

/-- **Related rows are read from the stages that write them**, if there are any. -/
lemma openRelated (outer : Outer) (name : String) (target : RelationId) (scope : List String) :
    Keeps quiet (do openBase schema (← relatedBase outer name target) scope) s fun o _ =>
      ∃ t label, schema.relation target = .ok t ∧
        o = ⟨relatedItem t label (outer.members? s name), label, t, none⟩ := by
  have hmembers : written? outer.stage name s = .ok (outer.members? s name, s) := by
    rw [Outer.members?]
    cases outer.stage <;> rfl
  rw [relatedBase, bind_assoc]
  refine .run_bind hmembers id (.refl s) ?_
  cases outer.members? s name with
  | none =>
    change Keeps quiet (openBase schema (.relation target) scope) s _
    refine .lift_bind fun t ht => ?_
    exact ((qualify_plain t.name scope).quiet s).bind fun label _ _ _ =>
      .of_pure ⟨t, label, ht, rfl⟩
  | some members =>
    change Keeps quiet (openBase schema (.union members target) scope) s _
    refine (freshUnion_plain.quiet s).bind fun label s1 _ _ => ?_
    refine ((Plain.forM fun m _ => needAll_plain m).quiet s1).bind fun _ s2 _ _ => ?_
    exact .lift_bind fun t ht => .of_pure ⟨t, label, ht, rfl⟩

lemma stageRows_params (name : String) : (stageRows name).params = [] := by
  rfl

lemma relatedItem_params (t : Relation) (label : String) (members : Option (List String)) :
    tokenParams (relatedItem t label members).tokens = [] := by
  cases members with
  | none => simp [relatedItem, tableItem]
  | some members =>
    rw [relatedItem, FromItem.params_derived, Statement.params_union, List.flatMap_eq_nil_iff]
    intro statement hstatement
    obtain ⟨name, -, rfl⟩ := List.mem_map.mp hstatement
    exact stageRows_params name

/-! ### Lateral joins -/

/-- The SELECT of a lookup, whose rows are linked to the outer row. -/
def linkedRows (inner : Scan) (own : String) (outer : Expr) : Select :=
  inner.select.filter (.binary .eq (.of inner.qualifier own) outer)

/-- **The join of a lookup and the item that it gives**: an array of the linked rows for a reverse
column, and otherwise the linked row itself. Rows are linked by the columns of the link. -/
lemma joinRows_join {s : PlanState} (outer : Outer) (c : Column) (name lateral : String)
    (inner : Scan) :
    Keeps quiet (joinRows outer c name lateral inner) s fun j _ =>
      ∃ own other rows, (c.name = name →
          own = c.linkOf inner.relation ∧ other = c.linkFrom outer.relation) ∧
        j = if c.isReverse then
          (.leftLateral (.select (arrayOf
            (linkedRows inner own (.of outer.qualifier other)) rows [])) lateral,
            labelled (.of lateral "value") name)
        else
          (.leftLateral (.select (linkedRows inner own (.of outer.qualifier other))) lateral,
            labelled (.rowToJson lateral) name) := by
  rw [joinRows]
  split
  · rename_i via hk
    refine ((need_plain _ _).quiet s).bind fun _ s1 _ _ => ?_
    refine ((need_plain _ _).quiet s1).bind fun _ s2 _ _ => ?_
    refine (freshAggregate_plain.quiet s2).bind fun rows _ _ _ => .of_pure ?_
    refine ⟨via, outer.relation.primaryKey, rows, fun _ => ?_, ?_⟩
    · simp [Column.linkOf, Column.linkFrom, hk]
    · rw [Column.isReverse, hk]
      rfl
  · rename_i hk
    refine ((need_plain _ _).quiet s).bind fun _ s1 _ _ => ?_
    refine ((need_plain _ _).quiet s1).bind fun _ s2 _ _ => .of_pure ?_
    refine ⟨inner.relation.primaryKey, name, "", fun hname => ?_, ?_⟩
    · simp [Column.linkOf, Column.linkFrom, hname]
    · rw [Column.isReverse_eq_false hk]
      rfl

lemma arrayOf_params {inner : Select} (h : (Statement.select inner).params = []) (rows : String) :
    (Statement.select (arrayOf inner rows [])).params = [] := by
  refine Select.params_eq_nil ?_ ?_ ?_ ?_ rfl
  · simp [arrayOf, labelled, aggregateRows, Expr.coalesce, Expr.apply, Expr.arrayAgg,
      Expr.rowToJson]
  · simp [arrayOf, h]
  · simp [arrayOf, Select.empty]
  · simp [arrayOf, Select.empty]

/-! ### Planned keys -/

section KeyScan

variable {earlier : Earlier} {stage : Stage} {name : String}

/-- The key of a stage: a stored column is shown by itself, and a reverse one through a join that
binds no value. -/
lemma shapeField_key (outer : Outer) (name : String) :
    Keeps quiet (shapeField schema outer name) s fun sh _ =>
      ∃ c, outer.relation.column? name = some c ∧ if c.isReverse then ∃ j lateral,
          sh = .ofJoin (j, labelled (.of lateral "value") name) ∧ tokenParams j.tokens = []
        else sh = .ofItem ⟨.of outer.qualifier name, none⟩ := by
  refine .lift_bind fun c hc => ?_
  have hcolumn := Relation.column_eq_ok.mp hc
  split
  · rename_i hreverse
    refine .lift_bind fun (c', target) htarget => ?_
    obtain ⟨t, hlink, -⟩ := lookupTarget_link htarget
    obtain ⟨hcolumn', -⟩ := Schema.link?_eq_some.mp hlink
    obtain rfl : c = c' := by simpa [hcolumn] using hcolumn'
    refine (freshLateral_plain.quiet s).bind fun lateral s1 _ _ => ?_
    simp only [scanAll, bind_assoc]
    rw [← bind_assoc]
    refine (openRelated outer name target outer.scope).bind fun o s2 _ ho => ?_
    obtain ⟨t, label, -, rfl⟩ := ho
    refine ((needAllIfEmpty_plain _ _).quiet s2).bind fun _ s3 _ _ => ?_
    refine (joinRows_join outer c name lateral _).bind fun j _ _ hj => .of_pure ⟨c, hcolumn, ?_⟩
    obtain ⟨own, other, rows, -, rfl⟩ := hj
    rw [if_pos hreverse, if_pos hreverse]
    refine ⟨_, lateral, rfl, ?_⟩
    rw [Join.params_leftLateral]
    refine arrayOf_params (Select.params_eq_nil ?_ ?_ ?_ ?_ rfl) rows
    · simp [linkedRows, Opened.scan, Select.filter]
    · simp [linkedRows, Opened.scan, Select.filter, relatedItem_params]
    · simp [linkedRows, Opened.scan, Select.filter]
    · simp [linkedRows, Opened.scan, Select.filter, Select.empty, andCondition, Expr.conjunction?,
        Expr.joined?, Expr.grouped]
  · rename_i hstored
    refine ((need_plain _ _).quiet s).bind fun _ _ _ _ => .of_pure ⟨c, hcolumn, ?_⟩
    rw [if_neg hstored]

lemma openStage_run (hstage : s.stages.find? (·.name == name) = some stage) :
    openBase schema (.stage name) [] s =
      .ok (⟨.table name none, name, stage.relation, some name⟩, s) := by
  have hget : (get : Plan PlanState) s = .ok (s, s) := rfl
  have hqualify : qualify name [] s = .ok (name, s) := rfl
  rw [openBase, bind_run hget, hstage, bind_run hqualify, tableItem, if_pos rfl]
  rfl

/-- **The planned key of a stage** is the SELECT of that key if and only if the key is stored. -/
lemma keyScan_isKeyOf (hstage : s.stages.find? (·.name == name) = some stage) :
    Keeps quiet (scanReading schema earlier { Reading.ofBase (.stage name) with
      selection := .ofFields [stage.relation.primaryKey] } []) s fun scan _ =>
        scan.select.IsKeyOf name stage.relation := by
  have hselection : Selection.ofFields [stage.relation.primaryKey] =
      ⟨[stage.relation.primaryKey], []⟩ := rfl
  refine .run_bind (openStage_run hstage) id (.refl s) ?_
  refine .run_bind rfl id (.refl s) (.run_bind rfl id (.refl s) ?_)
  have hshape : Keeps quiet (shape schema earlier
      (Opened.outer ⟨.table name none, name, stage.relation, some name⟩ [])
      ⟨[stage.relation.primaryKey], []⟩) s fun sh _ =>
        ∃ c, stage.relation.column? stage.relation.primaryKey = some c ∧
          if c.isReverse then ∃ j lateral,
            sh = .ofJoin (j, labelled (.of lateral "value") stage.relation.primaryKey) ∧
              tokenParams j.tokens = []
          else sh = .ofItem ⟨.of name stage.relation.primaryKey, none⟩ := by
    rw [shape, shapeFields]
    rw [bind_assoc]
    refine (shapeField_key _ _).bind fun sh s1 _ hsh => ?_
    have happend : (sh.append .empty).append .empty = sh := by simp [Shape.append, Shape.empty]
    refine .of_pure ?_
    rwa [happend]
  refine hshape.bind fun sh s1 _ hsh => .of_pure ?_
  obtain ⟨c, hc, hsh⟩ := hsh
  split at hsh
  · rename_i hreverse
    obtain ⟨j, lateral, rfl, hj⟩ := hsh
    refine ⟨rfl, Select.params_eq_nil ?_ ?_ ?_ ?_ rfl, ?_⟩
    · simp [Shape.ofJoin, labelled]
    · simp [Opened.scan]
    · simpa [Shape.ofJoin] using hj
    · simp [Opened.scan, Select.empty]
    · constructor
      · intro heq
        have hlabel := congrArg (fun select : Select => select.projection.map (·.label)) heq
        simp [Shape.ofJoin, labelled, keySelect] at hlabel
      · rintro ⟨c', hc', hstored⟩
        simp_all
  · rename_i hstored
    subst hsh
    refine ⟨rfl, keySelect_params name stage.relation, fun _ => ⟨c, hc, ?_⟩, fun _ => rfl⟩
    simpa using hstored

end KeyScan

end StagedSql
