import StagedSql.Proofs.Plan.ConditionLaws
import StagedSql.Proofs.Plan.Nodes
import StagedSql.Proofs.Plan.Requirements
import StagedSql.Proofs.Plan.WrittenRows

/-!
What conditions read of stages is noted, wherever the expression is put (`toSql_covers`).
-/

namespace StagedSql

open List Plan Condition StagedSql.Expr

variable {q : String} {rs rs' : Requirements} {schema : Schema} {s s' : PlanState}
  {scope : List String}

/-! ### Names that lead to stages -/

/-- The rows that a name is bound to are of no stage but the given one. -/
def Bindings.Leads (schema : Schema) (env : Bindings) (q : String) (stage : Option String) :
    Prop :=
  ∀ t, env.lookup q = some (some t) → schema.Reserves t → stage = some t

/-- What is read of a stage, if there is one, is noted. -/
def Requirements.Has (rs : Requirements) (stage : Option String) (c : Option String) : Prop :=
  ∀ t, stage = some t → rs.Covers (t, c)

section Leads

variable {env new : Bindings} {name t c : String} {stage : Option String}

namespace Bindings

lemma lookup_cons (name : String) (table : Option String) (env : Bindings) (q : String) :
    List.lookup q ((name, table) :: env) = if q = name then some table else env.lookup q := by
  grind

lemma Leads.cons_none (h : env.Leads schema q stage) (name : String) :
    Leads schema ((name, none) :: env) q stage := by
  intro t ht
  rw [lookup_cons] at ht
  split at ht
  · cases ht
  · exact h t ht

lemma Leads.cons_plain (h : env.Leads schema q stage) (ht : ¬ schema.Reserves t) (name : String) :
    Leads schema ((name, some t) :: env) q stage := by
  intro t' ht' hs
  rw [lookup_cons] at ht'
  split at ht'
  · cases ht'
    exact absurd hs ht
  · exact h t' ht' hs

lemma leads_cons_self {table : Option String}
    (h : ∀ t, table = some t → schema.Reserves t → stage = some t) (env : Bindings) (q : String) :
    Leads schema ((q, table) :: env) q stage := by
  intro t ht
  simp_all

lemma Leads.append_none (hnew : ∀ b ∈ new, b.2 = none)
    (h : env.Leads schema q stage) : Leads schema (new ++ env) q stage := by
  induction new with
  | nil => exact h
  | cons b rest ih =>
    obtain ⟨name, table⟩ := b
    have hb : table = none := hnew (name, table) (by simp)
    subst hb
    exact (ih fun b hb => hnew b (by simp [hb])).cons_none name

lemma lookup_append_none (hnew : ∀ b ∈ new, b.2 = none) (h : ∃ b ∈ new, b.1 = q)
    (env : Bindings) : (new ++ env).lookup q = some none := by
  induction new with
  | nil => simp at h
  | cons b rest ih =>
    grind

/-- A name that is bound here and leads to a table leads to one of those that are bound here. -/
lemma mem_tables_of_lookup {own : Bindings} (hq : ∃ b ∈ own, b.1 = q)
    (h : (own ++ env).lookup q = some (some t)) : t ∈ own.tables := by
  induction own with
  | nil => simp at hq
  | cons b rest ih =>
    obtain ⟨name, table⟩ := b
    rw [cons_append, lookup_cons] at h
    split at h
    · cases h
      simp [tables]
    · rename_i hne
      obtain ⟨b, hb, rfl⟩ := hq
      rcases mem_cons.mp hb with rfl | hb
      · exact absurd rfl hne
      · have := ih ⟨b, hb, rfl⟩ h
        cases table with
        | none => simpa [tables] using this
        | some t' => simp [tables] at this ⊢; exact .inr this

end Bindings

lemma Requirements.Has.mono (h : rs.Has stage (some c)) (hg : rs.Grows rs') :
    rs'.Has stage (some c) :=
  fun t ht => hg _ (h t ht)

lemma of_meets (hl : env.Leads schema q stage) (h : rs.Has stage (some c)) :
    Allowed (rs.Meets schema) ((of q c).reads env) :=
  of_allowed fun t ht hs => h t (hl t ht hs)

lemma of_meets_none (hl : env.Leads schema q none) :
    Allowed (rs.Meets schema) ((of q c).reads env) :=
  of_meets hl (by rintro t ⟨⟩)

end Leads

/-! ### Steps without conditions -/

lemma need_covers (stage : Option String) (column : String) :
    Keeps (covering schema) (need stage column) s fun _ s' =>
      s'.required.Has stage (some column) := by
  cases stage with
  | none => exact .of_pure (by rintro t ⟨⟩)
  | some name =>
    have hrun : need (some name) column s =
        .ok (⟨⟩, { s with required := s.required.require name column }) := rfl
    refine .of_notes hrun { required := Requirements.grows_require _ _ _ } ?_
    rintro t ⟨⟩
    exact Requirements.covers_require.mpr (.inr rfl)

lemma needAll_covers (name : String) :
    Keeps (covering schema) (needAll name) s fun _ s' =>
      ∀ c, s'.required.Covers (name, c) := by
  have hrun : needAll name s = .ok (⟨⟩, { s with required := s.required.requireAll name }) := rfl
  refine .of_notes hrun { required := Requirements.grows_requireAll _ _ } ?_
  exact fun c => Requirements.covers_requireAll.mpr (.inr rfl)

/-- A name for a table. If the scope is known and the table does not have a name that is made up for
relations, the name is not in the scope, and the scope stays known. -/
lemma qualify_covers (name : String) (scope : List String) :
    Keeps (covering schema) (qualify name scope) s fun q s' =>
      s.Knows scope → (∀ k, name ≠ numberedName 'r' k) → q ∉ scope ∧ s'.Knows (scope ++ [q]) := by
  by_cases h : name ∈ scope
  · refine .of_notes (qualify_mem h s) {} fun hk _ =>
      ⟨hk _ (Nat.lt_succ_self _), ?_⟩
    have hk' : PlanState.Knows
        { s with names := { s.names with relations := s.names.relations + 1 } } scope :=
      fun k hlt => hk k (Nat.lt_of_succ_lt hlt)
    refine hk'.append fun k hlt he => ?_
    rw [(numberedName_inj.mp he).2] at hlt
    exact Nat.lt_irrefl _ hlt
  · refine .of_notes (qualify_not_mem h s) {} fun hk hname => ⟨h, hk.append fun k _ => hname k⟩

/-! ### FROM items -/

/-- What is known of a base: a stage is there, and the table of a walk has a name for walks. -/
def Base.Known (s : PlanState) : Base → Prop
  | .stage name => name ∈ s.stageNames
  | .walk name _ => ∃ k, name = numberedName 'c' k
  | _ => True

/-- A FROM item reads nothing of stages but what is noted. It goes by a name that leads to the stage
that is noted for it, and then the name is not in the scope. -/
structure Opened.Covered (schema : Schema) (s : PlanState) (scope : List String) (o : Opened) :
    Prop where
  bound : o.item.bound.1 = o.qualifier
  leads : ∀ t, o.item.bound.2 = some t → schema.Reserves t → o.stage = some t
  fresh : ∀ t, o.stage = some t → o.qualifier ∉ scope
  base : ∀ t, o.stage = some t → t ∈ s.stageNames
  reads : ∀ env, Allowed (s.required.Meets schema) (o.item.reads env)
  knows : s.Knows (scope ++ [o.qualifier])

lemma Opened.Covered.mono {o : Opened} (h : o.Covered schema s scope)
    (hx : s.Advances s') : o.Covered schema s' scope :=
  ⟨h.bound, h.leads, h.fresh, fun t ht => hx.mem_stageNames (h.base t ht),
    fun env => hx.required.allowed (h.reads env), h.knows.mono hx⟩

lemma tableItem_bound (name q : String) : (tableItem name q).bound = (q, some name) := by
  rw [tableItem]
  split
  · rename_i h
    rw [h]
    rfl
  · rfl

section Opened

variable {scope : List String}

lemma valueRows_reads (types : List (Option String)) (rows : List (List Value)) (env : Bindings)
    (P : Read → Prop) : Allowed P (readsRows env (valueRows types rows)) := by
  rw [readsRows_allowed]
  intro row hrow e he
  obtain ⟨v, type, rfl⟩ := typedParam_of_mem_valueRows hrow he
  cases type <;> simp [typedParam, reads]

lemma stageRows_reads {name : String} (h : ∀ c, rs.Covers (name, c))
    (env : Bindings) : Allowed (rs.Meets schema) ((stageRows name).reads env) := by
  have hown : Select.own { Select.empty with source := some (.table name none) } =
      [(name, some name)] := rfl
  rw [stageRows, Statement.reads, Select.reads_allowed, hown]
  refine ⟨fun _ t ht _ => ?_, allowed_nil, allowed_nil, allowed_nil, allowed_nil, allowed_nil⟩
  rw [show t = name by simpa [Bindings.tables] using ht]
  exact h none

lemma openBase_covers (hschema : schema.Qualifies) {base : Base} (hb : base.Known s)
    (hk : s.Knows scope) :
    Keeps (covering schema) (openBase schema base scope) s fun o s' =>
      o.Covered schema s' scope ∧ ∀ t, o.stage = some t → base = .stage t := by
  cases base with
  | relation id =>
    refine .lift_bind fun r hr => ?_
    have hmem := Schema.mem_of_relation hr
    refine (qualify_covers r.name scope).bind fun q s1 _ hq => .of_pure ?_
    obtain ⟨-, hknows⟩ := hq hk (hschema r hmem)
    have hbound := tableItem_bound r.name q
    refine ⟨⟨congrArg Prod.fst hbound, ?_, by rintro t ⟨⟩, by rintro t ⟨⟩, ?_, hknows⟩, by simp⟩
    · intro t ht hs
      cases ht
      exact (hs.2 r hmem rfl).elim
    · exact fun env => by simp [tableItem, FromItem.reads]
  | stage name =>
    refine .of_holds fun hs => .get_bind ?_
    -- a stage's own name is no alias, so it may stand for its rows unless the scope has it
    obtain ⟨n, hn⟩ := hs.isStageName hb
    have hname : ∀ k, name ≠ numberedName 'r' k := by
      intro k
      rw [hn]
      exact numberedName_ne (by decide) n k
    refine (qualify_covers name scope).bind fun q s1 hx hq => .of_pure ?_
    obtain ⟨hfresh, hknows⟩ := hq hk hname
    have hbound := tableItem_bound name q
    refine ⟨⟨congrArg Prod.fst hbound, ?_, fun _ _ => hfresh, ?_, ?_, hknows⟩, by rintro t ⟨⟩; rfl⟩
    · intro t ht _
      exact ht
    · rintro t ⟨⟩
      exact hx.mem_stageNames hb
    · exact fun env => by simp [tableItem, FromItem.reads]
  | values columns rows types =>
    refine .notes_bind rfl {} (.of_pure ?_)
    refine ⟨⟨rfl, by rintro t ⟨⟩, by rintro t ⟨⟩, by rintro t ⟨⟩, ?_, ?_⟩, by simp⟩
    · exact fun env => valueRows_reads _ _ env _
    · exact PlanState.Knows.append hk fun k _ => numberedName_ne (by decide) _ k
  | union members id =>
    refine .notes_bind rfl {} ?_
    have hall : Keeps (covering schema) (members.forM needAll)
        { s with names := { s.names with unions := s.names.unions + 1 } } fun _ s' =>
          ∀ m ∈ members, ∀ c, s'.required.Covers (m, c) :=
      .forM (fun m s1 s2 hx h c => hx.required _ (h c)) fun m _ s1 _ => needAll_covers m
    refine hall.bind fun _ s1 hx hcov => .lift_bind fun r _ => .of_pure ?_
    refine ⟨⟨rfl, by rintro t ⟨⟩, by rintro t ⟨⟩, by rintro t ⟨⟩, ?_, ?_⟩, by simp⟩
    · intro env
      change Allowed _ (Statement.readsEach env (members.map stageRows))
      rw [Statement.readsEach_allowed]
      intro statement hmem
      obtain ⟨m, hm, rfl⟩ := mem_map.mp hmem
      exact stageRows_reads (hcov m hm) env
    · have hk' : s1.Knows scope := fun k hlt => hk k (hx.relations.trans_lt hlt)
      exact hk'.append fun k _ => numberedName_ne (by decide) _ k
  | walk name id =>
    obtain ⟨n, rfl⟩ := hb
    refine .lift_bind fun r _ => .of_pure ?_
    refine ⟨⟨rfl, ?_, by rintro t ⟨⟩, by rintro t ⟨⟩, ?_, ?_⟩, by simp⟩
    · intro t ht hs
      cases ht
      exact absurd hs.1 (not_isStageName_numberedName (by decide) n)
    · exact fun env => by simp [FromItem.reads]
    · exact hk.append fun k _ => numberedName_ne (by decide) n k

lemma needAllIfEmpty_covers (o : Opened) (selection : Selection) :
    Keeps (covering schema) (o.needAllIfEmpty selection) s fun _ s' =>
      selection.isEmpty = true → s'.required.Has o.stage none := by
  rw [Opened.needAllIfEmpty]
  split
  · rename_i name _ hstage
    refine (needAll_covers name).mono fun _ s' _ hcov _ t ht => ?_
    rw [hstage] at ht
    cases ht
    exact hcov none
  · rename_i hnone
    refine .of_pure fun hempty t ht => ?_
    exact absurd ht (hnone t hempty)

end Opened

/-! ### The nodes before -/

/-- A SELECT reads nothing of stages but what is noted. What it reads goes by a name that leads to
the stage that is noted for it, and the names of the scope lead where they led. -/
structure Scan.Covered (schema : Schema) (s : PlanState) (scope : List String) (scan : Scan) : Prop
    extends scan.select.IsOf scan.qualifier where
  reads : ∀ env, Allowed (s.required.Meets schema) (scan.select.reads env)
  leads : ∀ env, (scan.select.bindings env).Leads schema scan.qualifier scan.stage
  outer : ∀ env q stage, q ∈ scope → Bindings.Leads schema env q stage →
    (scan.select.bindings env).Leads schema q stage
  base : ∀ t, scan.stage = some t → t ∈ s.stageNames

lemma Scan.Covered.mono {scan : Scan} (h : scan.Covered schema s scope)
    (hx : s.Advances s') : scan.Covered schema s' scope :=
  ⟨h.toIsOf, fun env => hx.required.allowed (h.reads env), h.leads, h.outer,
    fun t ht => hx.mem_stageNames (h.base t ht)⟩

/-- What is known of a reading: its base, and that it has no conditions with expressions that are
taken as they are. -/
structure Reading.Known (s : PlanState) (r : Reading) : Prop where
  base : r.base.Known s
  noExpr : ∀ c ∈ r.conditions, c.NoExpr

/-- **What is said of nodes**: planning them keeps the reads of stages covered, and what is made of
them reads nothing of stages but what is noted. -/
def coveredNodes (schema : Schema) : NodeLaw where
  law := covering schema
  Staged _ name s := name ∈ s.stageNames
  Paged _ name s := name ∈ s.stageNames
  Reads _ _ r s := r.Known s
  Scope scope s := s.Knows scope
  Scans _ scope _ scan s' := scan.Covered schema s' scope
  Selects _ _ statement s' := ∀ env, Allowed (s'.required.Meets schema) (statement.reads env)

/-! ### Conditions -/

/-- An expression reads nothing of stages but what is noted, if some columns under a name are. That
more is noted later does no harm. -/
def Expr.CoveredBy (schema : Schema) (rs : Requirements) (q : String) (columns : List String)
    (e : Expr) : Prop :=
  ∀ rs' env, rs.Grows rs' →
    (∀ c ∈ columns, Allowed (rs'.Meets schema) ((of q c).reads env)) →
      Allowed (rs'.Meets schema) (e.reads env)

section Conditions

variable {earlier : Earlier} {key field : String} {columns more : List String} {e : Expr}
  {op : Operator} {path : LookupKey} {operand : Operand}

lemma Expr.CoveredBy.mono (h : e.CoveredBy schema rs q columns) (hg : rs.Grows rs')
    (hsub : ∀ c ∈ columns, c ∈ more) : e.CoveredBy schema rs' q more :=
  fun rs'' env hg' hc => h rs'' env (hg.trans hg') fun c hmem => hc c (hsub c hmem)

/-- An expression reads columns of the rows that go by a name, whatever table they are of. -/
def Expr.ReadsOf (q : String) (columns : List String) (e : Expr) : Prop :=
  ∀ env t, List.lookup q env = some (some t) → ∀ c ∈ columns, (t, some c) ∈ e.reads env

lemma of_readsOf (q c : String) : (of q c).ReadsOf q [c] := by
  intro env t ht c' hc'
  rw [mem_singleton.mp hc', of, Expr.reads, Bindings.column, ht]
  exact .head _

lemma compareQuery_reads {query : Statement} (h : compareQuery key (.of q field) op query = .ok e)
    (env : Bindings) : e.reads env = (of q field).reads env ++ query.reads env := by
  cases op <;> simp only [compareQuery, Except.ok.injEq, reduceCtorEq] at h <;> subst h <;>
    simp only [reads]

lemma compareValue_reads {v : Value} (h : compareValue key (.of q field) op v = .ok e)
    (env : Bindings) : e.reads env = (of q field).reads env ++ [] := by
  have hparams : ∀ items : List Value, readsEach env (items.map .param) = [] := by
    intro items
    induction items with
    | nil => rfl
    | cons v rest ih => exact ih
  cases op <;> cases v <;> simp only [compareValue, Except.ok.injEq, reduceCtorEq] at h <;>
    subst h <;> simp only [reads, hparams, append_nil]

lemma comparison_covers {more : Bindings → List Read}
    (h : ∀ env, e.reads env = (of q field).reads env ++ more env)
    (hmore : ∀ env, Allowed (rs.Meets schema) (more env)) :
    e.CoveredBy schema rs q [field] ∧ e.ReadsOf q [field] := by
  refine ⟨fun rs' env hg hc => ?_, fun env t ht c hc => ?_⟩
  · rw [h, allowed_append]
    exact ⟨hc field (.head _), hg.allowed (hmore env)⟩
  · rw [h]
    exact mem_append_left _ (of_readsOf q field env t ht c hc)

lemma leaf_covers (he : earlier.Meets (coveredNodes schema)) (ho : operand.NoExpr) (r : Relation)
    (q : String) : Keeps (covering schema) (leaf earlier.context key path operand r q) s
      fun e s' => ∃ c, r.column? path.field = some c ∧ c.isReverse = false ∧
        e.CoveredBy schema s'.required q [path.field] ∧ e.ReadsOf q [path.field] := by
  rw [leaf]
  split
  · rename_i c hc
    dsimp only
    split
    · exact .throw_bind
    · rename_i hreverse
      have hstored : c.isReverse = false := by simpa using hreverse
      cases operand with
      | expr e => exact ho.elim
      | value v =>
        exact .of_lift fun e h => ⟨c, hc, hstored,
          comparison_covers (compareValue_reads h) fun _ => allowed_nil⟩
      | query h =>
        refine ((he h).subselect s).bind fun statement s1 _ hreads => ?_
        exact .of_lift fun e h => ⟨c, hc, hstored, comparison_covers (compareQuery_reads h) hreads⟩
  · exact .of_throw

lemma existsRow_reads (related name : String) (link inner : Expr) (env : Bindings) :
    (existsRow (tableItem related name) link inner).reads env =
      link.reads ((name, some related) :: env) ++ inner.reads ((name, some related) :: env) := by
  have hitem : (tableItem related name).reads env = [] := by simp [tableItem, FromItem.reads]
  simp [existsRow, reads, Statement.reads, Select.filter, Select.reads, Select.empty,
    SelectItem.readsEach, Expr.int, FromItem.readsOption, Join.readsEach, OrderItem.readsEach,
    andCondition_reads, readsOption, Select.bindings, Select.own, hitem, tableItem_bound]

/-- A row of a relation that is looked for. Its own columns are of no stage, so that nothing is read
of stages but by what links it. The link reads the outer row, unless the name hides it. -/
lemma existsRow_covers (owner : Relation) (q : String) {related : Relation}
    (hrelated : related ∈ schema.relations) (c : Column) {name : String} {inner : Expr}
    {innerColumns : List String}
    (hinner : inner.CoveredBy schema rs name innerColumns) :
    Expr.CoveredBy schema rs q [if c.isReverse then owner.primaryKey else c.name]
        (existsRow (tableItem related.name name) (linkTo c owner q related name) inner) ∧
      (q ≠ name → Expr.ReadsOf q [if c.isReverse then owner.primaryKey else c.name]
        (existsRow (tableItem related.name name) (linkTo c owner q related name) inner)) := by
  obtain ⟨via, hlink⟩ : ∃ via, linkTo c owner q related name = .binary .eq (.of name via)
      (.of q (if c.isReverse then owner.primaryKey else c.name)) := by
    rw [linkTo]
    split
    · rename_i via hkind
      exact ⟨via, by simp [Column.isReverse, hkind]⟩
    · rename_i hkind
      exact ⟨related.primaryKey, by simp [Column.isReverse_eq_false hkind]⟩
  rw [hlink]
  refine ⟨fun rs' env hg hc => ?_, fun hne env t ht c' hc' => ?_⟩
  · have hleads : Bindings.Leads schema ((name, some related.name) :: env) name none :=
      Bindings.leads_cons_self (by rintro t ⟨⟩ hs; exact (hs.2 related hrelated rfl).elim) env name
    rw [existsRow_reads, reads, allowed_append, allowed_append]
    refine ⟨⟨of_meets_none hleads, of_allowed fun t ht hs => ?_⟩,
      hinner rs' _ hg fun c _ => of_meets_none hleads⟩
    rw [Bindings.lookup_cons] at ht
    split at ht
    · cases ht
      exact (hs.2 related hrelated rfl).elim
    · have := hc _ (.head _)
      rw [of, reads, Bindings.column, ht] at this
      exact this (t, some _) (.head _) hs
  · rw [existsRow_reads, reads]
    refine mem_append_left _ (mem_append_right _ (of_readsOf q _ _ t ?_ c' hc'))
    rwa [Bindings.lookup_cons, if_neg hne]

lemma target_eq_ok {segment : String} {owner related : Relation} {c : Column}
    (h : target schema key segment owner = .ok (c, related)) :
    owner.column? segment = some c ∧ related ∈ schema.relations := by
  rw [target] at h
  split at h
  · rename_i c' hc
    split at h
    · split at h
      · rename_i r hr
        cases h
        exact ⟨hc, Schema.mem_of_get? hr⟩
      · cases h
    · cases h
  · cases h

lemma follow_covers (he : earlier.Meets (coveredNodes schema)) (hschema : schema.Qualifies)
    (ho : operand.NoExpr) (links : List String) :
    ∀ {s : PlanState} (owner : Relation) {q : String} {scope : List String}, q ∈ scope →
      Keeps (covering schema)
        (follow earlier.context schema key path operand links owner q scope) s
        fun e s' => ∃ c own, owner.column? (links.head?.getD path.field) = some c ∧
          own = (if c.isReverse then owner.primaryKey else links.head?.getD path.field) ∧
          e.CoveredBy schema s'.required q [own] ∧ (s.Knows scope → e.ReadsOf q [own]) := by
  induction links with
  | nil =>
    intro s owner q _ _
    refine (leaf_covers he ho owner q).mono fun e s' _ ⟨c, hc, hstored, hcov, hreads⟩ => ?_
    exact ⟨c, _, hc, by rw [hstored]; rfl, hcov, fun _ => hreads⟩
  | cons segment rest ih =>
    intro s owner q scope hq
    refine .lift_bind fun ⟨c, related⟩ htarget => ?_
    obtain ⟨hc, hrelated⟩ := target_eq_ok htarget
    refine (qualify_covers related.name scope).bind fun name s1 _ hname => ?_
    refine (ih related (mem_append_right scope (.head [] : name ∈ [name]))).bind
      fun inner s2 _ ⟨_, _, _, _, hinner, _⟩ => .of_pure ?_
    obtain ⟨hcov, hreads⟩ := existsRow_covers owner q hrelated c hinner
    refine ⟨c, _, hc, by rw [Relation.name_of_column? hc]; rfl, hcov, fun hk => hreads ?_⟩
    rintro rfl
    exact (hname hk (hschema related hrelated)).1 hq

/-- The columns of the relation itself that the keys of a condition read. -/
def Condition.columnsOf (r : Relation) (keys : List String) : List String :=
  keys.filterMap (keyColumn? r)

/-- What is said of conditions: they read the columns that their keys begin with. -/
def coveredConditions (schema : Schema) (r : Relation) (q : String) (scope : List String) :
    ConditionLaw where
  law := covering schema
  Known _ := True
  Taken _ := False
  Says c s e s' := e.CoveredBy schema s'.required q (columnsOf r c.keys) ∧
    (s.Knows scope → e.ReadsOf q (columnsOf r c.keys))
  SaysEach items s es s' :=
    (∀ e ∈ es, e.CoveredBy schema s'.required q (columnsOf r (keysOf items))) ∧
      (s.Knows scope → ∀ c ∈ columnsOf r (keysOf items), ∃ e ∈ es, e.ReadsOf q [c])

/-- Conditions that are joined read what each of them reads. -/
lemma joined_covers {es : List Expr} {joined : Option Expr} {missing : Expr} {known : Prop}
    (hjoined : ∀ env, readsOption env joined = es.flatMap (reads env))
    (hmissing : ∀ env, missing.reads env = [])
    (hes : (∀ e ∈ es, e.CoveredBy schema rs q columns) ∧
      (known → ∀ c ∈ columns, ∃ e ∈ es, e.ReadsOf q [c])) :
    (joined.getD missing).CoveredBy schema rs q columns ∧
      (known → (joined.getD missing).ReadsOf q columns) := by
  refine ⟨fun rs' env hg hcols x hx => ?_, fun hk env t ht c hc => ?_⟩
  · rw [getD_reads (hmissing env), hjoined, mem_flatMap] at hx
    obtain ⟨e, he, hx⟩ := hx
    exact hes.1 e he rs' env hg hcols x hx
  · rw [getD_reads (hmissing env), hjoined, mem_flatMap]
    obtain ⟨e, he, hreads⟩ := hes.2 hk c hc
    exact ⟨e, he, hreads env t ht c (.head _)⟩

lemma covers_conditionRules (he : earlier.Meets (coveredNodes schema)) (hschema : schema.Qualifies)
    (r : Relation) (hq : q ∈ scope) :
    (coveredConditions schema r q scope).Rules schema earlier r q scope where
  mono _ _ := trivial
  lookup {key operand s} _ ho := by
    refine .lift_bind fun path hpath => ?_
    refine (follow_covers he hschema (Operand.noExpr_of ho) path.joins r hq).mono
      fun e s' _ ⟨c, own, hcol, hown, hcov⟩ => ?_
    have hcolumns : columnsOf r (Condition.keys (.lookup key operand)) = [own] := by
      simp [columnsOf, Condition.keys, keyColumn?, hpath, hcol, hown]
    simpa only [coveredConditions, hcolumns] using hcov
  nil _ := by simp [coveredConditions, keysOf, columnsOf]
  cons {c rest s s1 s' e es} hx1 hx hfirst hrest := by
    have hsplit : columnsOf r (keysOf (c :: rest)) =
        columnsOf r c.keys ++ columnsOf r (keysOf rest) := by
      rw [keysOf, columnsOf, filterMap_append]
      rfl
    simp only [coveredConditions, hsplit]
    refine ⟨forall_mem_cons.mpr ⟨hfirst.1.mono hx.required fun _ => mem_append_left _,
      fun x hmem => (hrest.1 x hmem).mono (.refl _) fun _ => mem_append_right _⟩,
      fun hk col hcol => ?_⟩
    rcases mem_append.mp hcol with hcol | hcol
    · refine ⟨e, .head _, fun env t ht c' hc' => ?_⟩
      rw [mem_singleton.mp hc']
      exact hfirst.2 hk env t ht col hcol
    · obtain ⟨x, hx, hreads⟩ := hrest.2 (hk.mono hx1) col hcol
      exact ⟨x, .tail _ hx, hreads⟩
  all := joined_covers (fun _ => conjunction?_reads _) fun _ => rfl
  any := joined_covers (fun _ => disjunction?_reads _) fun _ => rfl
  not h := h

lemma toSql_covers (he : earlier.Meets (coveredNodes schema)) (hschema : schema.Qualifies)
    (r : Relation) (q : String) (scope : List String) {c : Condition} (hc : c.NoExpr) :
    Keeps (covering schema) (c.toSql earlier.context schema r q scope) s fun e s' =>
      e.CoveredBy schema s'.required q (c.primaryColumns r) ∧
        (s.Knows (addOnce scope q) → e.ReadsOf q (c.primaryColumns r)) := by
  refine ((covers_conditionRules he hschema r (mem_addOnce.mpr (.inr rfl))).toSqlIn_of_noExpr
    trivial hc).mono fun e s' _ ⟨hcov, hreads⟩ => ⟨hcov.mono (.refl _) fun name hname => ?_,
      fun hk env t ht name hname => hreads hk env t ht name ?_⟩
  · rwa [primaryColumns, mem_distinct]
  · rwa [primaryColumns, mem_distinct] at hname

end Conditions

end StagedSql
