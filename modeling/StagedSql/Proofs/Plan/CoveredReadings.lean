import StagedSql.Proofs.Plan.CoveredConditions

/-!
What readings read of stages is noted.
-/

namespace StagedSql

open List Plan Select

variable {rs : Requirements} {q : String} {stage : Option String} {schema : Schema} {s : PlanState}

/-! ### Shapes -/

/-- **Joins and items of rows under a name** that leads to a stage. The joins are lateral and read
nothing of stages but what is noted; the items are columns that are noted, or what joins give. -/
structure Shape.Covered (schema : Schema) (rs : Requirements) (q : String) (stage : Option String)
    (sh : Shape) : Prop where
  joins : ∀ j ∈ sh.joins, ∃ query label, j = .leftLateral query label ∧
    ∀ env, Bindings.Leads schema env q stage → Allowed (rs.Meets schema) (query.reads env)
  items : ∀ item ∈ sh.items, (∃ c, item = ⟨.of q c, none⟩ ∧ rs.Has stage (some c)) ∨
      ∃ label name, (∃ j ∈ sh.joins, j.item.bound.1 = label) ∧
        (item = labelled (.of label "value") name ∨ item = labelled (.rowToJson label) name)

section Shapes

variable {rs' : Requirements} {a b : Shape}

lemma Shape.Covered.mono (h : a.Covered schema rs q stage) (hg : rs.Grows rs') :
    a.Covered schema rs' q stage := by
  refine ⟨fun j hj => ?_, fun item hitem => ?_⟩
  · obtain ⟨query, label, rfl, hq⟩ := h.joins j hj
    exact ⟨query, label, rfl, fun env henv => hg.allowed (hq env henv)⟩
  · rcases h.items item hitem with ⟨c, rfl, hc⟩ | hlabel
    · exact .inl ⟨c, rfl, hc.mono hg⟩
    · exact .inr hlabel

lemma Shape.Covered.append (ha : a.Covered schema rs q stage) (hb : b.Covered schema rs q stage) :
    (a.append b).Covered schema rs q stage := by
  refine ⟨fun j hj => ?_, fun item hitem => ?_⟩
  · rcases mem_append.mp hj with hj | hj
    · exact ha.joins j hj
    · exact hb.joins j hj
  · rcases mem_append.mp hitem with hitem | hitem
    · rcases ha.items item hitem with hc | ⟨label, name, ⟨j, hj, hlabel⟩, hitem⟩
      · exact .inl hc
      · exact .inr ⟨label, name, ⟨j, mem_append_left _ hj, hlabel⟩, hitem⟩
    · rcases hb.items item hitem with hc | ⟨label, name, ⟨j, hj, hlabel⟩, hitem⟩
      · exact .inl hc
      · exact .inr ⟨label, name, ⟨j, mem_append_right _ hj, hlabel⟩, hitem⟩

lemma Shape.Covered.empty : Shape.empty.Covered schema rs q stage :=
  ⟨by simp [Shape.empty], by simp [Shape.empty]⟩

lemma Shape.Covered.bound_none (h : a.Covered schema rs q stage) :
    ∀ b ∈ a.joins.reverse.map (·.item.bound), b.2 = none := by
  intro b hb
  obtain ⟨j, hj, rfl⟩ := mem_map.mp hb
  obtain ⟨query, label, rfl, -⟩ := h.joins j (mem_reverse.mp hj)
  rfl

lemma Shape.Covered.items_allowed (h : a.Covered schema rs q stage) {env : Bindings}
    (henv : env.Leads schema q stage) :
    Allowed (rs.Meets schema)
      (SelectItem.readsEach (a.joins.reverse.map (·.item.bound) ++ env) a.items) := by
  rw [SelectItem.readsEach_allowed]
  intro item hitem
  rcases h.items item hitem with ⟨c, rfl, hc⟩ | ⟨label, name, ⟨j, hj, hlabel⟩, hitem⟩
  · exact of_meets (henv.append_none h.bound_none) hc
  · have hlookup : List.lookup label (a.joins.reverse.map (·.item.bound) ++ env) = some none :=
      Bindings.lookup_append_none h.bound_none
        ⟨j.item.bound, mem_map.mpr ⟨j, mem_reverse.mpr hj, rfl⟩, hlabel⟩ env
    rcases hitem with rfl | rfl
    · exact of_allowed fun t ht => by rw [hlookup] at ht; cases ht
    · change Allowed _ ((Expr.rowToJson label).reads _)
      rw [rowToJson_reads hlookup]
      exact allowed_nil

end Shapes

/-- **A SELECT of an opened base**, of which its shape, its condition and its ordering read nothing
but what is noted. -/
lemma Opened.Covered.scan {s : PlanState} {scope : List String} {o : Opened} {sh : Shape}
    (ho : o.Covered schema s scope) (hsh : sh.Covered schema s.required o.qualifier o.stage)
    (hall : sh.items = [] → s.required.Has o.stage none) {condition : Option Expr}
    (hcondition : ∀ env, Bindings.Leads schema env o.qualifier o.stage →
      Allowed (s.required.Meets schema) (Expr.readsOption env condition))
    {ordering : List OrderItem}
    (hordering : ∀ env, Bindings.Leads schema env o.qualifier o.stage →
      Allowed (s.required.Meets schema) (OrderItem.readsEach env ordering))
    (limit offset : Option UInt64) : Scan.Covered schema s scope
      ⟨⟨sh.items, some o.item, sh.joins, condition, ordering, limit, offset⟩, o.relation,
        o.qualifier, o.stage⟩ := by
  have hbindings : ∀ env, bindings
      ⟨sh.items, some o.item, sh.joins, condition, ordering, limit, offset⟩ env =
        sh.joins.reverse.map (·.item.bound) ++ (o.item.bound :: env) := by
    intro env
    rw [bindings, own, append_assoc]
    rfl
  have hbound : o.item.bound = (o.qualifier, o.item.bound.2) := by rw [← ho.bound]
  have hown : ∀ env, Bindings.Leads schema (o.item.bound :: env) o.qualifier o.stage := by
    intro env
    rw [hbound]
    exact Bindings.leads_cons_self ho.leads env o.qualifier
  have hleads : ∀ env, (bindings
      ⟨sh.items, some o.item, sh.joins, condition, ordering, limit, offset⟩ env).Leads schema
        o.qualifier o.stage := by
    intro env
    rw [hbindings]
    exact (hown env).append_none hsh.bound_none
  refine ⟨⟨⟨o.item, rfl, ho.bound⟩, ?_⟩, ?_, hleads, ?_, ho.base⟩
  · intro item hitem
    rcases hsh.items item hitem with ⟨c, hc, -⟩ | ⟨label, name, -, hl | hl⟩
    · exact .inl ⟨c, hc⟩
    · exact .inr ⟨_, _, hl⟩
    · exact .inr ⟨_, _, hl⟩
  · intro env
    rw [reads_allowed]
    refine ⟨?_, ?_, ho.reads env, ?_, hcondition _ (hleads env), hordering _ (hleads env)⟩
    · intro hempty t ht hs
      -- all columns are read, and of a stage only if the base is one
      obtain ⟨b, hb, hbt⟩ := mem_filterMap.mp ht
      rcases mem_append.mp hb with hb | hb
      · rw [hsh.bound_none b hb] at hbt
        cases hbt
      · rw [mem_singleton.mp hb] at hbt
        exact hall hempty t (ho.leads t hbt hs)
    · rw [hbindings]
      exact hsh.items_allowed (hown env)
    · exact Join.readsEach_allowed (fun env label h => h.cons_none label) hsh.joins env (hown env)
  · intro env q stage hq henv
    rw [hbindings]
    refine Bindings.Leads.append_none hsh.bound_none ?_
    intro t ht hs
    rw [hbound, Bindings.lookup_cons] at ht
    split at ht
    · rename_i hsame
      rw [Option.some.injEq] at ht
      exact absurd (hsame ▸ hq) (ho.fresh t (ho.leads t ht hs))
    · exact henv t ht hs

/-! ### Lookups -/

section Lookups

variable {next relation table : String} {env : Bindings} {link : Expr}

lemma Shape.Covered.ofJoin {query : Statement} {label name : String} {e : Expr}
    (hq : ∀ env, Bindings.Leads schema env q stage → Allowed (rs.Meets schema) (query.reads env))
    (he : e = .of label "value" ∨ e = .rowToJson label) :
    (Shape.ofJoin (.leftLateral query label, labelled e name)).Covered schema rs q stage := by
  refine ⟨?_, ?_⟩
  · intro j hj
    rw [mem_singleton.mp hj]
    exact ⟨query, label, rfl, hq⟩
  · intro item hitem
    rw [mem_singleton.mp hitem]
    refine .inr ⟨label, name, ⟨_, mem_singleton.mpr rfl, rfl⟩, ?_⟩
    grind

lemma arrayOf_allowed {P : Read → Prop} {inner : Select} {rows : String}
    (h : Allowed P (inner.reads env)) {ordering : List OrderItem}
    (ho : Allowed P (OrderItem.readsEach ((rows, none) :: env) ordering)) :
    Allowed P ((Statement.select (arrayOf inner rows ordering)).reads env) := by
  have hlookup : List.lookup rows ((rows, none) :: env) = some none := by
    rw [Bindings.lookup_cons, if_pos rfl]
  rw [Statement.reads, reads_allowed]
  refine ⟨by simp [arrayOf], ?_, ?_, allowed_nil, allowed_nil, allowed_nil⟩
  · change Allowed P (SelectItem.readsEach ((rows, none) :: env)
      [labelled (aggregateRows rows ordering) "value"])
    simp only [SelectItem.readsEach, labelled, aggregateRows, Expr.coalesce, Expr.apply,
      Expr.arrayAgg, Expr.reads, Expr.readsEach, OrderItem.readsEach, rowToJson_reads hlookup,
      append_nil]
    exact ho
  · assumption

/-- Lookups as lateral joins. -/
lemma joinRows_covers (outer : Outer) (houter : outer.qualifier ∈ outer.scope) (c : Column)
    (name lateral : String) {inner : Scan} (h : inner.Covered schema s outer.scope) :
    Keeps (covering schema) (joinRows outer c name lateral inner) s fun j s' =>
      (Shape.ofJoin j).Covered schema s'.required outer.qualifier outer.stage := by
  -- the link compares a column of the inner row with one of the outer row
  have hlink : ∀ {s' : PlanState} (column key : String), s.Advances s' →
      s'.required.Has inner.stage (some column) → s'.required.Has outer.stage (some key) →
      ∀ env, Bindings.Leads schema env outer.qualifier outer.stage →
        Allowed (s'.required.Meets schema) ((inner.select.filter
          (.binary .eq (.of inner.qualifier column) (.of outer.qualifier key))).reads env) := by
    intro s' column key hx hcolumn hkey env henv
    refine filter_allowed ((h.mono hx).reads env) (binary_allowed _ _ _ ?_ ?_)
    · exact of_meets (h.leads env) hcolumn
    · exact of_meets (h.outer env _ _ houter henv) hkey
  rw [joinRows]
  split
  · refine (need_covers _ _).bind fun _ s1 hx1 hkey => ?_
    refine (need_covers _ _).bind fun _ s2 hx2 hcolumn => ?_
    refine .notes_bind rfl {} (.of_pure ?_)
    refine .ofJoin (fun env henv => arrayOf_allowed ?_ allowed_nil) (.inl rfl)
    exact hlink _ _ (hx1.trans hx2) hcolumn (hkey.mono hx2.required) env henv
  · refine (need_covers _ _).bind fun _ s1 hx1 hkey => ?_
    refine (need_covers _ _).bind fun _ s2 hx2 hcolumn => .of_pure ?_
    refine .ofJoin (fun env henv => ?_) (.inr rfl)
    exact hlink _ _ (hx1.trans hx2) hcolumn (hkey.mono hx2.required) env henv

/-- The start and the step of a walk read nothing of stages but what is noted of the outer row. -/
structure Walk.Covered (schema : Schema) (rs : Requirements) (q : String) (stage : Option String)
    (w : Walk) : Prop where
  table : ∃ k, w.table = numberedName 'c' k
  start : ∀ env, Bindings.Leads schema env q stage → Allowed (rs.Meets schema) (w.start.reads env)
  step : ∀ env, Allowed (rs.Meets schema) (w.step.reads env)

lemma walkLink_covers {c : Column} {key previous : String} (hnext : env.Leads schema next none)
    (hprevious : env.Leads schema previous stage)
    (hhas : rs.Has stage (some (if c.isReverse then key else c.name))) :
    Allowed (rs.Meets schema) ((walkLink c key next previous).reads env) := by
  rw [walkLink]
  split
  · rename_i relation via hkind
    rw [Column.isReverse, hkind] at hhas
    exact binary_allowed _ _ _ (of_meets_none hnext) (of_meets hprevious hhas)
  · rename_i hkind
    rw [Column.isReverse_eq_false hkind] at hhas
    exact binary_allowed _ _ _ (of_meets_none hnext) (of_meets hprevious hhas)

lemma walkStart_allowed {first : String} (hplain : ¬ schema.Reserves relation)
    (hlink : Allowed (rs.Meets schema) (link.reads ((first, some relation) :: env))) :
    Allowed (rs.Meets schema) (reads env (filter { empty with
        projection := [⟨.star (some first), none⟩, labelled (.int 1) "depth"]
        source := some (.table relation (some first)) } link)) := by
  refine filter_allowed ?_ hlink
  rw [reads_allowed]
  refine ⟨by simp, ?_, allowed_nil, allowed_nil, allowed_nil, allowed_nil⟩
  change Allowed (rs.Meets schema) (Bindings.row ((first, some relation) :: env) first ++ [])
  rw [append_nil]
  refine row_allowed fun t ht hs => ?_
  simp_all

/-- Neither the rows of the walk nor those that are linked to them are of a stage. -/
lemma walk_leads (hplain : ¬ schema.Reserves relation) (htable : ¬ schema.Reserves table)
    (next : String) (env : Bindings) :
    Bindings.Leads schema ((table, some table) :: (next, some relation) :: env) table none ∧
      Bindings.Leads schema ((table, some table) :: (next, some relation) :: env) next none := by
  refine ⟨Bindings.leads_cons_self ?_ _ table, Bindings.Leads.cons_plain ?_ htable table⟩
  · rintro t ⟨⟩ hs
    exact absurd hs htable
  · refine Bindings.leads_cons_self ?_ env next
    rintro t ⟨⟩ hs
    exact absurd hs hplain

lemma walkStep_allowed (hplain : ¬ schema.Reserves relation) (htable : ¬ schema.Reserves table)
    (env : Bindings) (hlink : Allowed (rs.Meets schema)
      (link.reads ((table, some table) :: (next, some relation) :: env))) :
    Allowed (rs.Meets schema) (reads env { empty with
        projection := [⟨.star (some next), none⟩,
          labelled (.binary .plus (.of table "depth") (.int 1)) "depth"]
        source := some (.table relation (some next))
        joins := [⟨.inner, false, .table table none, some link⟩] }) := by
  obtain ⟨hleads, hnext⟩ := walk_leads hplain htable next env
  rw [reads_allowed]
  refine ⟨by simp, ?_, allowed_nil, ?_, allowed_nil, allowed_nil⟩
  · rw [SelectItem.readsEach_allowed]
    intro item hitem
    rcases mem_cons.mp hitem with rfl | hitem
    · exact row_allowed fun t ht hs => by cases hnext t ht hs
    · rw [mem_singleton.mp hitem]
      exact binary_allowed _ _ _ (of_meets_none hleads) (by simp [Expr.int, Expr.reads])
  · simpa [Join.readsEach, FromItem.reads, Expr.readsOption, FromItem.bound] using hlink

lemma beginWalk_covers (outer : Outer) (c : Column)
    (target : RelationId) (maxDepth : Option UInt32) :
    Keeps (covering schema) (beginWalk schema outer c target maxDepth) s fun w s' =>
      w.Covered schema s'.required outer.qualifier outer.stage := by
  refine .lift_bind fun r hr => ?_
  have hplain : ¬ schema.Reserves r.name :=
    fun h => h.2 r (Schema.mem_of_relation hr) rfl
  dsimp only
  split
  · exact .throw_bind
  · refine (need_covers _ _).bind fun _ s1 _ hhas => ?_
    refine .notes_bind rfl {} ?_
    refine .notes_bind rfl {} ?_
    refine .notes_bind rfl {} (.of_pure ?_)
    have hwalk : ¬ schema.Reserves (numberedName 'c' (s1.names.walks + 1)) :=
      fun h => not_isStageName_numberedName (by decide) _ h.1
    refine ⟨⟨_, rfl⟩, ?_, ?_⟩
    · intro env henv
      refine walkStart_allowed hplain (walkLink_covers ?_ (henv.cons_plain hplain _) hhas)
      exact Bindings.leads_cons_self (by rintro t ⟨⟩ hs; exact absurd hs hplain) env _
    · intro env
      obtain ⟨hleads, hnext⟩ := walk_leads hplain hwalk _ env
      have hlink : Allowed (s1.required.Meets schema) ((walkLink c r.primaryKey _ _).reads _) :=
        walkLink_covers hnext hleads (by rintro t ⟨⟩)
      cases maxDepth with
      | none => exact walkStep_allowed hplain hwalk env hlink
      | some depth =>
        refine filter_allowed (walkStep_allowed hplain hwalk env hlink) ?_
        exact binary_allowed _ _ _ (of_meets_none hleads) (by simp [Expr.int, Expr.reads])

/-- Walks as lateral joins. -/
lemma walkJoin_covers {w : Walk} (hw : w.Covered schema s.required q stage) (name lateral : String)
    {walked : Scan} {scope : List String} (h : walked.Covered schema s scope)
    (hstage : walked.stage = none) :
    Keeps (covering schema) (w.join name lateral walked) s fun j s' =>
      (Shape.ofJoin j).Covered schema s'.required q stage := by
  refine .notes_bind rfl {} (.of_pure ?_)
  refine .ofJoin (fun env henv => ?_) (.inl rfl)
  have hrows : ∀ env, Allowed (s.required.Meets schema) (reads env
      (if walked.select.isStar then walked.select else
        { walked.select with projection := walked.select.projection ++
          [⟨.of walked.qualifier "depth", none⟩] })) := by
    intro env
    have hreads := h.reads env
    split
    · exact hreads
    · rw [reads_allowed] at hreads ⊢
      obtain ⟨-, hitems, hrest⟩ := hreads
      refine ⟨by simp, ?_, hrest⟩
      rw [SelectItem.readsEach_allowed] at hitems ⊢
      intro item hitem
      rcases mem_append.mp hitem with hitem | hitem
      · exact hitems item hitem
      · rw [mem_singleton.mp hitem]
        have hleads := h.leads env
        rw [hstage] at hleads
        exact of_meets_none hleads
  rw [Statement.reads, allowed_append]
  refine ⟨?_, arrayOf_allowed (hrows env) ?_⟩
  · rw [Cte.readsEach_allowed]
    intro cte hcte
    rw [mem_singleton.mp hcte, Statement.reads, Statement.readsEach_allowed]
    intro member hmember
    rcases mem_cons.mp hmember with rfl | hmember
    · exact hw.start env henv
    · rw [mem_singleton.mp hmember]
      exact hw.step env
  · rw [OrderItem.readsEach_allowed]
    intro item hitem
    rw [mem_singleton.mp hitem]
    exact of_meets_none (Bindings.leads_cons_self (by simp) env _)

lemma relatedBase_covers (outer : Outer) (name : String) (target : RelationId) :
    Keeps (covering schema) (relatedBase outer name target) s fun base s' =>
      base.Known s' :=
  .relatedBase trivial fun _ _ _ _ => trivial

end Lookups

/-! ### Selections -/

section Selections

variable {earlier : Earlier} {scope : List String} {r : Reading}

/-- An outer row whose own name is in its scope, which is known. -/
structure Outer.Known (s : PlanState) (outer : Outer) : Prop where
  mem : outer.qualifier ∈ outer.scope
  knows : s.Knows outer.scope

lemma Outer.Known.mono {s' : PlanState} {outer : Outer} (h : outer.Known s) (hx : s.Advances s') :
    outer.Known s' :=
  ⟨h.mem, h.knows.mono hx⟩

lemma Opened.Covered.outer {o : Opened} (h : o.Covered schema s scope) : (o.outer scope).Known s :=
  ⟨mem_concat_self, h.knows⟩

lemma freshLateral_covers : Keeps (covering schema) freshLateral s fun _ _ => True :=
  .of_notes rfl {} trivial

/-- What is to be known of selections: their shapes read nothing of stages but what is noted. -/
def coveredShapes (schema : Schema) : ShapeLaw where
  law := covering schema
  Out outer s := outer.Known s
  Asks _ _ := True
  Leads _ _ _ := True
  Shaped outer _ s' sh := sh.Covered schema s'.required outer.qualifier outer.stage

/-! ### Readings -/

/-- Conditions one after the other. The columns that they read are noted before. -/
lemma addConditions_covers (he : earlier.Meets (coveredNodes schema)) (hschema : schema.Qualifies)
    (outer : Outer) (conditions : List Condition) (hc : ∀ c ∈ conditions, c.NoExpr)
    (select : Select) (hselect : ∀ env, Bindings.Leads schema env outer.qualifier outer.stage →
      Allowed (s.required.Meets schema) (Expr.readsOption env select.condition)) :
    Keeps (covering schema) (addConditions schema earlier outer select conditions) s
      fun filtered s' => ∃ condition, filtered = { select with condition := condition } ∧
        ∀ env, Bindings.Leads schema env outer.qualifier outer.stage →
          Allowed (s'.required.Meets schema) (Expr.readsOption env condition) := by
  induction conditions generalizing s select with
  | nil =>
    refine .of_pure ⟨select.condition, ?_, hselect⟩
    cases select
    rfl
  | cons c rest ih =>
    have hneed : Keeps (covering schema)
        ((c.primaryColumns outer.relation).forM (need outer.stage)) s fun _ s' =>
          ∀ name ∈ c.primaryColumns outer.relation, s'.required.Has outer.stage (some name) :=
      .forM (fun name s1 s2 hx h => h.mono hx.required) fun name _ s1 _ => need_covers _ _
    refine hneed.bind fun _ s1 hx1 hhas => ?_
    refine (toSql_covers he hschema outer.relation outer.qualifier outer.scope
      (hc c (by simp))).bind fun e s2 hx2 ⟨hcov, _⟩ => ?_
    refine ih (fun c hmem => hc c (by simp [hmem])) (select.filter e) ?_
    intro env henv
    refine andCondition_allowed ((hx1.trans hx2).required.allowed (hselect env henv)) ?_
    exact hcov _ env (.refl _) fun name hname =>
      of_meets henv ((hhas name hname).mono hx2.required)

lemma orderItem_covers (outer : Outer) (key : SortKey) :
    Keeps (covering schema) (orderItem outer key) s fun item s' =>
      ∀ env, Bindings.Leads schema env outer.qualifier outer.stage →
        Allowed (s'.required.Meets schema) (item.expr.reads env) :=
  (need_covers outer.stage key.column).bind fun _ _ _ hhas =>
    .of_pure fun _ henv => of_meets henv hhas

lemma scanReading_covers_of (he : earlier.Meets (coveredNodes schema)) (hschema : schema.Qualifies)
    (hr : r.Known s) (hk : s.Knows scope)
    (hshape : (coveredShapes schema).Shapes schema earlier r.selection) :
    Keeps (covering schema) (scanReading schema earlier r scope) s fun scan s' =>
      scan.Covered schema s' scope := by
  refine (openBase_covers hschema hr.base hk).bind fun o s1 _ ⟨hopened, _⟩ => ?_
  refine (addConditions_covers he hschema (o.outer scope) r.conditions hr.noExpr
    (o.scan [] []).select fun _ _ => allowed_nil).bind fun filtered s2 hx2 hfiltered => ?_
  obtain ⟨condition, rfl, hcondition⟩ := hfiltered
  refine (needAllIfEmpty_covers o r.selection).bind fun _ s3 hx3 hall => ?_
  have hopened3 := (hopened.mono hx2).mono hx3
  refine (hshape hopened3.outer trivial).bind fun sh s4 hx4 ⟨hsh, hlisted⟩ => ?_
  have hordering : Keeps (covering schema) (r.ordering.mapM (orderItem (o.outer scope))) s4
      fun items s' => Forall₂ (fun (_ : SortKey) (item : OrderItem) =>
        ∀ env, Bindings.Leads schema env o.qualifier o.stage →
          Allowed (s'.required.Meets schema) (item.expr.reads env)) r.ordering items :=
    .mapM (fun key item s1 s2 hx h env henv => hx.required.allowed (h env henv))
      fun key _ s1 _ => orderItem_covers (o.outer scope) key
  refine hordering.bind fun ordering s5 hx5 hitems => .of_pure ?_
  refine (hopened3.mono (hx4.trans hx5)).scan (hsh.mono hx5.required) ?_ ?_ ?_ r.limit r.offset
  · intro hempty t ht
    have hnone : r.selection.listed = [] := by
      rwa [hempty, ListsNames, map_nil, eq_comm, map_eq_nil_iff] at hlisted
    exact (hx4.trans hx5).required _ (hall (Selection.isEmpty_iff.mpr hnone) t ht)
  · exact fun env henv => ((hx3.trans hx4).trans hx5).required.allowed (hcondition env henv)
  · intro env henv
    rw [OrderItem.readsEach_allowed]
    intro item hitem
    obtain ⟨key, -, h⟩ := exists_of_forall₂_right hitems item hitem
    exact h env henv

/-- Selections. -/
lemma covers_shapeRules (he : earlier.Meets (coveredNodes schema)) (hschema : schema.Qualifies) :
    (coveredShapes schema).Rules schema earlier where
  mono ho hx := ho.mono hx
  empty _ _ := .empty
  append _ hx ha hb := (ha.mono hx.required).append hb
  leads _ _ _ := trivial
  leads_empty _ _ := trivial
  stored {outer _ name _} _ _ _ := by
    refine (need_covers outer.stage name).mono fun _ s' _ hhas => ⟨by simp [Shape.ofItem], ?_⟩
    intro item hitem
    rw [mem_singleton.mp hitem]
    exact .inl ⟨name, rfl, hhas⟩
  lookup {outer _ name c target lookup} ho _ _ hshape := by
    refine freshLateral_covers.bind fun lateral s1 hx1 _ => ?_
    have ho1 : outer.Known s1 := ho.mono hx1
    cases lookup with
    | nested selection =>
      rw [shapeLookup_nested]
      refine (relatedBase_covers outer name target).bind fun base s2 hx2 hb => ?_
      have hr : (Reading.selecting base selection).Known s2 := ⟨hb, by simp [Reading.selecting,
        Reading.ofBase]⟩
      refine (scanReading_covers_of he hschema hr (ho1.mono hx2).knows (hshape _ rfl)).bind
        fun inner s3 _ hinner => joinRows_covers outer ho.mem c name lateral hinner
    | query h =>
      exact ((he h).scan outer.scope s1 ho1.knows).bind fun inner _ _ hinner =>
        joinRows_covers outer ho.mem c name lateral hinner
    | recursive selection maxDepth =>
      rw [shapeLookup_recursive]
      refine (beginWalk_covers outer c target maxDepth).bind fun w s2 hx2 hw => ?_
      have hk : s2.Knows (outer.scope ++ [w.table]) := by
        refine (ho1.mono hx2).knows.append fun k _ => ?_
        obtain ⟨n, hn⟩ := hw.table
        rw [hn]
        exact numberedName_ne (by decide) n k
      have hr : (Reading.selecting (.walk w.table target) selection).Known s2 :=
        ⟨hw.table, by simp [Reading.selecting, Reading.ofBase]⟩
      have hscan := (scanReading_covers_of he hschema hr hk (hshape _ rfl)).and
        (scanReading_walk w.table selection _)
      refine hscan.bind ?_
      rintro walked s3 hx3 ⟨hwalked, -, -, hstage, -⟩
      have hw3 : w.Covered schema s3.required outer.qualifier outer.stage :=
        ⟨hw.table, fun env henv => hx3.required.allowed (hw.start env henv),
          fun env => hx3.required.allowed (hw.step env)⟩
      exact walkJoin_covers hw3 name lateral hwalked hstage

/-- **The SELECT of a reading** reads nothing of stages but what is noted. -/
lemma scanReading_covers (he : earlier.Meets (coveredNodes schema)) (hschema : schema.Qualifies)
    (hr : r.Known s) (hk : s.Knows scope) :
    Keeps (covering schema) (scanReading schema earlier r scope) s fun scan s' =>
      scan.Covered schema s' scope :=
  scanReading_covers_of he hschema hr hk ((covers_shapeRules he hschema).shape r.selection)

end Selections

end StagedSql
