import StagedSql.Proofs.Condition.Meaning
import StagedSql.Proofs.Plan.Marking

/-!
What FROM items and conditions put into a statement.
-/

namespace StagedSql

open List Plan Condition

variable {g : Graph} {s : PlanState} {r : Relation} {R : Relation → String → Prop}

/-! ### FROM items -/

/-- What is known of a base: stages are there, rows that are written out are those of a node, and a
union has members unless some list of rows that refer back is empty. -/
def Base.Valid (g : Graph) (s : PlanState) : Base → Prop
  | .relation _ => True
  | .stage name => name ∈ s.stageNames
  | .values columns rows types => .values columns rows ∈ g.nodes ∧ types.length = columns.length
  | .union members _ => (∀ m ∈ members, m ∈ s.stageNames) ∧ (members = [] → ¬ g.Tidy)
  | .walk name _ => IsWalkName name

/-- The relation whose rows a base gives. -/
def Base.Shows (g : Graph) (s : PlanState) : Base → Relation → Prop
  | .relation id, r => g.schema.relation id = .ok r
  | .stage name, r => s.StageOf name r
  | .values columns _ _, r => r.columns = columns.map Column.scalar
  | .union _ id, r => g.schema.relation id = .ok r
  | .walk _ id, r => g.schema.relation id = .ok r

section Bases

variable {s' : PlanState} {base : Base}

lemma Base.Shows.back (h : base.Shows g s' r) (hx : s.Lengthens s') (hv : base.Valid g s) :
    base.Shows g s r := by
  cases base with
  | stage name => exact PlanState.StageOf.back h hx hv
  | _ => exact h

end Bases

/-- **A base as a FROM item**, which allows what may be read of its relation. -/
structure Opened.Marked (g : Graph) (R : Relation → String → Prop) (s s' : PlanState) (base : Base)
    (o : Opened) : Prop where
  known : g.Knows o.relation
  shows : base.Shows g s' o.relation
  reads : s'.Reads o.stage o.relation
  qualifier : o.item.qualifier = o.qualifier
  allows : ∀ c, R o.relation c → o.item.Allows g R c
  fragment : Fragment g R s s' noRow o.item.marks

lemma Schema.Accepted.eq_of_name {schema : Schema} (h : schema.Accepted) {r r' : Relation}
    (hr : r ∈ schema.relations) (hr' : r' ∈ schema.relations) (hname : r'.name = r.name) :
    r' = r := by
  have hfound := h.named r' hr'
  rw [hname, h.named r hr] at hfound
  exact (Option.some.inj hfound).symm

lemma valueRows_marks (types : List (Option String)) (rows : List (List Value)) :
    Expr.marksRows (valueRows types rows) = [] := by
  have htyped : ∀ (v : Value) (type : Option String), (typedParam v type).marks = [] := by
    intro v type
    cases type <;> simp [typedParam, Expr.marks]
  rw [Expr.marksRows_eq]
  cases rows with
  | nil => rfl
  | cons first rest => simp [valueRows, htyped, Expr.marks, flatMap_map]

lemma valueRows_grammatical {g : Graph} (ht : g.Tidy) {columns : List String}
    {rows : List (List Value)} (hn : .values columns rows ∈ g.nodes)
    {types : List (Option String)} (htypes : types.length = columns.length) :
    (Statement.values (valueRows types rows)).Grammatical := by
  obtain ⟨hcolumns, hrows, hlengths⟩ := ht.values columns rows hn
  have hpos : 0 < columns.length := length_pos_iff.mpr hcolumns
  cases rows with
  | nil => exact (hrows rfl).elim
  | cons first rest =>
    refine ⟨by simp [valueRows], columns.length, hpos, fun row hrow => ?_⟩
    rcases mem_cons.mp hrow with rfl | hrow
    · simp [htypes, hlengths first (by simp)]
    · grind

section Opened

variable {name : String}

/-- A single FROM item whose name has just been made up, if it has to be. -/
lemma Fragment.single {s' : PlanState} (i : FromItem) (hstages : s'.stages = s.stages)
    (hw : i.Within s.names s'.names) {marks : List Mark} (hmarks : ∀ j, .item j ∈ marks → j = i)
    (hgood : ∀ m ∈ marks, m.Good g R noRow marks) : Fragment g R s s' noRow marks := by
  refine ⟨fun m hm => .inr (hgood m hm), fun _ => ⟨?_, ?_, ?_⟩⟩ <;>
    simp only [PlanState.added_of_stages hstages, append_nil]
  · intro j hj
    rwa [hmarks j hj]
  · grind
  · grind

lemma qualify_marks (scope : List String) (hgood : (FromItem.table name none).Good g) :
    Keeps (marking g R) (qualify name scope) s fun q s' =>
      Fragment g R s s' noRow [.item (tableItem name q)] := by
  have hitem : ∀ (q : String) (s' : PlanState), s'.stages = s.stages →
      (tableItem name q).Within s.names s'.names →
        Fragment g R s s' noRow [.item (tableItem name q)] := by
    refine fun q s' hstages hw => .single _ hstages hw (by simp) fun m hm => ?_
    rwa [mem_singleton.mp hm]
  by_cases h : name ∈ scope
  · refine .names_marks (qualify_mem h s) {} rfl (hitem _ _ rfl ?_)
    unfold tableItem
    split
    · trivial
    · exact ⟨_, Nat.lt_succ_self _, le_rfl, rfl⟩
  · refine .names_marks (qualify_not_mem h s) {} rfl (hitem _ _ rfl ?_)
    rw [tableItem, if_pos rfl]
    trivial

lemma stageRows_marks (members : List String) :
    (members.map stageRows).flatMap Statement.marks =
      members.map fun m => .item (.table m none) := by
  rw [flatMap_map]
  exact map_eq_flatMap.symm

lemma openWalk_marks (hw : IsWalkName name) (id : RelationId) (scope : List String) :
    Keeps (marking g R) (openBase g.schema (.walk name id) scope) s fun o s' =>
      o.Marked g R s s' (.walk name id) ∧ o.item = .table name none ∧ o.qualifier = name := by
  refine .lift_bind fun r hr => .of_pure ⟨⟨.inl (Schema.mem_of_relation hr), hr,
    by rintro _ ⟨⟩, rfl, fun c _ => .inr (.inl hw), ?_⟩, rfl, rfl⟩
  simp only [FromItem.marks]
  refine .single (.table name none) rfl trivial (by simp) fun m hm => ?_
  rw [mem_singleton.mp hm]
  exact .inr (.inr hw)

/-- Rows that are written out, under a name that is made up. -/
lemma values_fragment {columns : List String} {rows : List (List Value)}
    (hnode : .values columns rows ∈ g.nodes) {types : List (Option String)}
    (htypes : types.length = columns.length) :
    Fragment g R s { s with names := { s.names with values := s.names.values + 1 } } noRow
      (FromItem.derived (.values (valueRows types rows))
        (numberedName 'v' (s.names.values + 1)) columns).marks := by
  have hwithin : (FromItem.derived (.values (valueRows types rows))
      (numberedName 'v' (s.names.values + 1)) columns).Within s.names
        { s.names with values := s.names.values + 1 } := ⟨_, Nat.lt_succ_self _, le_rfl, rfl⟩
  simp only [FromItem.marks, Statement.marks, valueRows_marks]
  refine .single _ (by rfl) hwithin (fun j hj => ?_) ?_
  · simpa using hj
  · simp only [forall_mem_cons, forall_mem_append, forall_mem_map]
    refine ⟨fun _ => (Statement.IsRows.values _).tokens_ne_nil, fun c hc => .inr ?_,
      fun ht => valueRows_grammatical ht hnode htypes, by simp⟩
    exact ⟨⟨"", columns.map Column.scalar⟩, .inr ⟨columns, rows, hnode, rfl⟩,
      .inr ⟨.scalar c, mem_map_of_mem hc, rfl⟩⟩

/-- The rows of several stages. -/
lemma union_fragment {s' : PlanState} {members : List String} (hx : s.Continues g s')
    (hmembers : ∀ m ∈ members, IsStageName m) (hempty : members = [] → ¬ g.Tidy) (k : Nat) :
    Fragment g R s s' noRow
      (FromItem.derived (.union true (members.map stageRows)) (numberedName 'u' k) []).marks := by
  have hnonempty : g.Tidy → members ≠ [] := fun ht he => hempty he ht
  simp only [FromItem.marks, Statement.marks, Statement.marksEach_eq, stageRows_marks,
    map_nil, nil_append]
  refine (Fragment.nil hx).extend (by simp) (fun i hi => .inr ?_) fun m hm => .inr ?_
  · simp only [mem_cons, mem_map, Mark.item.injEq, reduceCtorEq, false_or] at hi
    rcases hi with rfl | ⟨m, -, rfl⟩
    · exact ⟨'u', by decide, k, rfl⟩
    · trivial
  · simp only [mem_cons, mem_map] at hm
    rcases hm with rfl | rfl | ⟨m, hm, rfl⟩
    · intro ht
      obtain ⟨m, rest, rfl⟩ := exists_cons_of_ne_nil (hnonempty ht)
      exact (Statement.IsRows.union true _ _).tokens_ne_nil
    · exact fun ht => by simpa [Statement.Grammatical] using hnonempty ht
    · exact .inr (.inl (hmembers m hm))

/-- **A base as a FROM item.** -/
lemma openBase_marks (hschema : g.schema.Accepted) (hp : g.Permits R) {base : Base}
    (hb : base.Valid g s) (scope : List String) :
    Keeps (marking g R) (openBase g.schema base scope) s fun o s' =>
      o.Marked g R s s' base := by
  cases base with
  | relation id =>
    refine .lift_bind fun r hr => ?_
    have hmem := Schema.mem_of_relation hr
    refine (qualify_marks scope (.inl ⟨r, hmem, rfl⟩)).bind fun q s1 _ hf => .of_pure ?_
    refine ⟨.inl hmem, hr, by rintro _ ⟨⟩, tableItem_qualifier _ _, fun c hc => ?_, hf⟩
    refine .inr (.inr fun r' hr' hname => ?_)
    rwa [hschema.eq_of_name hmem hr' hname]
  | stage name =>
    refine .of_holds fun hs => .get_bind ?_
    have hname : IsStageName name := hs.isStageName hb
    obtain ⟨r, hr⟩ := PlanState.exists_stageOf hb
    obtain ⟨stage, hfind, rfl⟩ := Option.map_eq_some_iff.mp hr
    dsimp only
    rw [hfind]
    refine (qualify_marks scope (.inr (.inl hname))).bind fun q s1 hx hf => .of_pure ?_
    have hr1 := hr.mono hx.toLengthens
    refine ⟨hs.known hr, hr1, ?_, tableItem_qualifier _ _, fun c _ => .inl hname, hf⟩
    rintro _ ⟨⟩
    exact hr1
  | values columns rows types =>
    obtain ⟨hnode, hlength⟩ := hb
    have htypes : (columnTypes rows types).length = columns.length := by
      simp [columnTypes, hlength]
    exact .names_marks rfl {} rfl ⟨.inr ⟨columns, rows, hnode, rfl⟩, rfl, by rintro _ ⟨⟩, rfl,
      fun c hc r hr => hp.congr hr.symm hc, values_fragment hnode htypes⟩
  | union members id =>
    refine .of_holds fun hs => ?_
    have hshift : s.Shifts { s with names := { s.names with unions := s.names.unions + 1 } } := {}
    refine .run_bind rfl (hshift.marked hs.required) hshift.continues ?_
    refine (Keeps.forM (fun _ _ _ _ h => h) fun m _ s2 _ => needAll_marks m s2).bind
      fun _ s2 hx2 _ => ?_
    refine .lift_bind fun r hr => .of_pure ⟨.inl (Schema.mem_of_relation hr), hr,
      by rintro _ ⟨⟩, rfl, fun _ _ => trivial, ?_⟩
    exact union_fragment (hshift.continues.trans hx2)
      (fun m hm => hs.isStageName (hb.1 m hm)) hb.2 _
  | walk name id => exact (openWalk_marks hb id scope).mono fun _ _ _ h => h.1

end Opened

/-! ### The nodes before -/

/-- **The reading of a source**: its base gives rows of the source's relation, and what it orders by
and links may be read of them. -/
structure Reading.Marked (g : Graph) (R : Relation → String → Prop) (s : PlanState)
    (source : Source) (reading : Reading) : Prop where
  valid : reading.base.Valid g s
  gives : ∀ r, reading.base.Shows g s r → g.Gives source r
  ordering : ∀ r, reading.base.Shows g s r → ∀ key ∈ reading.ordering, R r key.column
  links : ∀ r, reading.base.Shows g s r → reading.selection.Links g R r
  exprs : ∀ c ∈ reading.conditions, ∀ e ∈ c.exprs, e ∈ g.exprs

/-- **A SELECT with good marks**, whose FROM item allows what may be read of its relation. -/
structure Scan.Marked (g : Graph) (R : Relation → String → Prop) (s s' : PlanState) (scan : Scan) :
    Prop where
  known : g.Knows scan.relation
  reads : s'.Reads scan.stage scan.relation
  source : ∃ i, .item i ∈ scan.select.marks ∧ i.qualifier = scan.qualifier ∧
    ∀ c, R scan.relation c → i.Allows g R c
  fragment : Fragment g R s s' noRow scan.select.marks

/-- **What is said of nodes**: what is made of them has good marks, and gives rows of their
relation. -/
def markedNodes (g : Graph) (R : Relation → String → Prop) : NodeLaw where
  law := marking g R
  Staged h name s := s.StagedFor g h name
  Paged h name s := s.StagedFor g h name
  Reads _ source r s := r.Marked g R s source
  Scope _ _ := True
  Scans source _ s scan s' := g.Gives source scan.relation ∧ scan.Marked g R s s'
  Selects _ s statement s' := Fragment g R s s' noRow statement.marks

/-! ### Conditions -/

section Comparisons

variable {key : String} {field e : Expr} {op : Operator} {m : Mark}

lemma compareQuery_marks {query : Statement} (h : compareQuery key field op query = .ok e) :
    e.marks = field.marks ++ query.marks := by
  cases op <;> simp only [compareQuery, Except.ok.injEq, reduceCtorEq] at h <;> subst h <;>
    simp [Expr.marks]

lemma compareValue_marks {v : Value} (h : compareValue key field op v = .ok e)
    (hm : m ∈ e.marks) : m ∈ field.marks ∨ ∃ negated x items, m = .membership negated x items := by
  have hparams : ∀ items : List Value, Expr.marksEach (items.map .param) = [] := by
    intro items
    simp [Expr.marksEach_eq, flatMap_map, Expr.marks]
  cases op <;> cases v <;> simp only [compareValue, Except.ok.injEq, reduceCtorEq] at h <;>
    subst h <;> simp only [Expr.marks, hparams, append_nil, mem_cons] at hm <;>
    first | exact .inl hm | exact hm.symm.imp_right fun he => ⟨_, _, _, he⟩

lemma compareExpr_marks {x : Expr} (h : compareExpr key field op x = .ok e) (hm : m ∈ e.marks) :
    m ∈ field.marks ∨ m ∈ x.marks ∨ ∃ negated y items, m = .membership negated y items := by
  cases op <;> simp only [compareExpr, Except.ok.injEq, reduceCtorEq] at h <;> subst h <;>
    simp only [Expr.marks, Expr.marksEach, append_nil, mem_cons, mem_append] at hm <;>
    first
      | exact hm.imp_right .inl
      | exact hm.elim (fun he => .inr (.inr ⟨_, _, _, he⟩)) fun h => h.imp_right .inl

end Comparisons

lemma existsRow_marks (item : FromItem) (link inner : Expr) :
    (existsRow item link inner).marks = item.marks ++ link.marks ++ inner.marks := by
  rw [existsRow, Expr.marks, Statement.marks, Select.filter_marks, Select.filter_marks,
    Select.single_marks]
  simp [SelectItem.marks, SelectItem.outputName?, Expr.int, Expr.marks]

lemma linkTo_eq (c : Column) (owner : Relation) (q : String) (related : Relation) (name : String) :
    linkTo c owner q related name =
      .binary .eq (.of name (c.linkOf related)) (.of q (c.linkFrom owner)) := by
  rw [linkTo, Column.linkOf, Column.linkFrom]
  cases c.kind <;> rfl

section Conditions

variable {earlier : Earlier} {q : String} {operand : Operand}

/-- **A row that is linked to the one around it**, with a condition on it. -/
lemma Fragment.linked {s1 s' : PlanState} (hx : s.Continues g s1) (hx' : s1.Continues g s')
    {owner related : Relation} {item : FromItem} {name : String} (hname : item.qualifier = name)
    (hallows : ∀ c, R related c → item.Allows g R c) {c c' : String} (hc : R related c)
    (hc' : R owner c') {marks inner : List Mark} (hmem : .item item ∈ marks)
    (hitem : Fragment g R s s1 noRow marks)
    (hinner : Fragment g R s1 s' (rowAround R name related) inner) :
    Fragment g R s s' (rowAround R q owner)
      (marks ++ (Expr.binary .eq (.of name c) (.of q c')).marks ++ inner) := by
  have hboth : Fragment g R s s' (rowAround R q owner) (marks ++ inner) :=
    ((hitem.anywhere.append hx hx' hinner).close (mem_append_left _ hmem) hname hallows).anywhere
  refine hboth.extend (fun i hi => ?_) (fun i hi => .inl ?_) fun m hm => ?_
  · grind
  · simpa [link_marks] using hi
  · simp only [link_marks, mem_append, mem_cons, not_mem_nil, or_false] at hm
    rcases hm with (hm | rfl | rfl) | hm
    · exact .inl (mem_append_left _ hm)
    · refine .inr (.inr ⟨item, ?_, hname, hallows c hc⟩)
      exact mem_append_left _ (mem_append_left _ hmem)
    · exact .inr (.inl ⟨rfl, hc'⟩)
    · exact .inl (mem_append_right _ hm)

variable (hp : g.Permits R) (he : earlier.Meets (markedNodes g R))

include hp he

lemma leaf_marks (key : String) (path : LookupKey) (ho : ∀ x, operand = .expr x → x ∈ g.exprs)
    (hr : g.Knows r) :
    Keeps (marking g R) (leaf earlier.context key path operand r q) s
      fun e s' => Fragment g R s s' (rowAround R q r) e.marks := by
  rw [leaf]
  split
  · rename_i c hc
    dsimp only
    split
    · exact .throw_bind
    · rename_i hrev
      have hfield : R r path.field :=
        hp.stored r hr _ (Relation.mem_storedNames hc (by simpa using hrev))
      have hcolumn : ∀ L, (Mark.column q path.field).Good g R (rowAround R q r) L :=
        fun L => .inl ⟨rfl, hfield⟩
      cases operand with
      | value v =>
        refine .of_lift fun e h => ?_
        refine (Fragment.nil (.refl s)).extend (by simp) (fun i hi => ?_) fun m hm => .inr ?_
        · rcases compareValue_marks h hi with hi | ⟨_, _, _, ⟨⟩⟩
          simp [of_marks] at hi
        · rcases compareValue_marks h hm with hm | ⟨_, _, _, rfl⟩
          · rw [of_marks, mem_singleton] at hm
            rw [hm]
            exact hcolumn _
          · trivial
      | expr x =>
        refine .of_lift fun e h => ⟨fun m hm => ?_, fun hg => ?_⟩
        · rcases compareExpr_marks h hm with hm | hm | ⟨_, _, _, rfl⟩
          · rw [of_marks, mem_singleton] at hm
            rw [hm]
            exact .inr (hcolumn _)
          · exact .inl ⟨x, ho x rfl, hm⟩
          · exact .inr trivial
        · simp_all
      | query h =>
        refine ((he h).subselect s).bind fun statement s1 _ hf => .of_lift fun e hcompare => ?_
        rw [compareQuery_marks hcompare, of_marks]
        have hquery : Fragment g R s s1 (rowAround R q r) statement.marks := hf.anywhere
        refine hquery.extend (fun i => mem_cons_of_mem _)
          (fun i hi => .inl (by simpa using hi)) fun m hm => ?_
        grind
  · exact .of_throw

/-- A key is followed by rows inside one another, each of which is linked to the one around it. -/
lemma follow_marks (hschema : g.schema.Accepted) (key : String) (path : LookupKey)
    (ho : ∀ x, operand = .expr x → x ∈ g.exprs) (links : List String) :
    ∀ {s : PlanState} {owner : Relation}, g.Knows owner → ∀ (q : String) (scope : List String),
      Keeps (marking g R) (follow earlier.context g.schema key path operand links owner q scope) s
        fun e s' => Fragment g R s s' (rowAround R q owner) e.marks := by
  induction links with
  | nil => exact fun hk q _ => leaf_marks hp he key path ho hk
  | cons segment rest ih =>
    intro s owner hk q scope
    refine .lift_bind fun link htarget => ?_
    obtain ⟨c, related⟩ := link
    obtain ⟨hc, target, htarget, hrelated⟩ := Schema.link?_eq_some.mp (target_link? htarget)
    obtain ⟨hof, hfrom⟩ := hp.link hschema hk hc htarget hrelated
    have hmem := Schema.mem_of_get? hrelated
    refine (qualify_marks scope (.inl ⟨related, hmem, rfl⟩)).bind fun name s1 hx1 hitem => ?_
    refine (ih (.inl hmem) name (scope ++ [name])).bind fun inner s2 hx2 hinner => .of_pure ?_
    rw [existsRow_marks, linkTo_eq]
    refine .linked hx1 hx2 (tableItem_qualifier _ _) (fun c hc => ?_) hof hfrom
      (FromItem.item_mem_marks _) hitem hinner
    refine .inr (.inr fun r hr hname => ?_)
    rwa [hschema.eq_of_name hmem hr hname]

/-- What is said of conditions on rows of a relation that go by a name. -/
def markedConditions (g : Graph) (R : Relation → String → Prop) (r : Relation) (q : String) :
    ConditionLaw where
  law := marking g R
  Known _ := True
  Taken x := x ∈ g.exprs
  Says _ s e s' := Fragment g R s s' (rowAround R q r) e.marks
  SaysEach _ s es s' := Fragment g R s s' (rowAround R q r) (es.flatMap Expr.marks)

lemma marks_conditionRules (hschema : g.schema.Accepted) (hr : g.Knows r) (q : String)
    (scope : List String) :
    (markedConditions g R r q).Rules g.schema earlier r q scope where
  mono _ _ := trivial
  lookup _ ho := .lift_bind fun path _ => follow_marks hp he hschema _ path ho path.joins hr q scope
  nil s := .nil (.refl s)
  cons hx1 hx2 hfirst hrest := hfirst.append hx1 hx2 hrest
  all {items s es s'} hes := by
    change Fragment g R s s' _ _
    rwa [Expr.conjunction?_getD_marks]
  any {items s es s'} hes := by
    change Fragment g R s s' _ _
    rwa [Expr.disjunction?_getD_marks]
  not {c s e s'} hf := by
    assumption

/-- **A condition on rows of a relation** that go by a name. -/
lemma toSql_marks (hschema : g.schema.Accepted) (hr : g.Knows r) (q : String) (scope : List String)
    {c : Condition} (hc : ∀ x ∈ c.exprs, x ∈ g.exprs) :
    Keeps (marking g R) (c.toSql earlier.context g.schema r q scope) s fun e s' =>
      Fragment g R s s' (rowAround R q r) e.marks :=
  (marks_conditionRules hp he hschema hr q (addOnce scope q)).toSqlIn trivial c hc

end Conditions

end StagedSql
