import StagedSql.Plan.Statement
import StagedSql.Proofs.Graph.Builds
import StagedSql.Proofs.Plan.LateralJoins

/-!
Selection trees are planned into shapes that show them.

Planning goes down the tree with a scope that holds the names of all rows around. A relation that is
met again below itself gets a new name, so no name of an outer row is ever taken by an inner one.
-/

namespace StagedSql

open List Plan

variable {ops : Operators} {schema : Schema} {r : Relation} {id : RelationId}
  {name qualifier : String} {db : Database} {s : PlanState} {ts : Tables} {sel : Selection}
  {g : Graph}

/-! ### Steps of planning -/

/-- A planning step for a row of a relation succeeds, only makes up names, and gives a shape that
shows the members. -/
def PlannedShape (ops : Operators) (schema : Schema) (db : Database) (r : Relation)
    (qualifier : String) (x : Plan Shape) (s : PlanState)
    (members : (String → Value) → List (String × Json)) : Prop :=
  ∃ sh s', x s = .ok (sh, s') ∧ s.NamesGrow s' ∧
    sh.Shows ops (db.tables schema) r qualifier s.names.laterals s'.names.laterals members

lemma PlannedShape.append {x y : Plan Shape} {m m' : (String → Value) → List (String × Json)}
    (hx : PlannedShape ops schema db r qualifier x s m)
    (hy : ∀ s', s.NamesGrow s' → PlannedShape ops schema db r qualifier y s' m') :
    PlannedShape ops schema db r qualifier (do let a ← x; return a.append (← y)) s
      fun values => m values ++ m' values := by
  obtain ⟨a, s1, ha, hn1, hsa⟩ := hx
  obtain ⟨b, s2, hb, hn2, hsb⟩ := hy s1 hn1
  refine ⟨a.append b, s2, ?_, hn1.trans hn2, hsa.append hsb⟩
  rw [bind_run ha, bind_run hb]
  rfl

lemma openBase_run {t : Relation} {scope : List String} (hrel : schema.relation id = .ok t)
    (ht : isGeneratedName t.name = false) (hk : KnownScope s scope) :
    ∃ q s', openBase schema (.relation id) scope s =
        .ok (⟨tableItem t.name q, q, t, none⟩, s') ∧ s.NamesGrow s' ∧
      s'.names.laterals = s.names.laterals ∧ q ∉ scope ∧ KnownScope s' (scope ++ [q]) := by
  obtain ⟨q, s', hq, hn, hl, hnot, hk'⟩ := qualify_run ht hk
  refine ⟨q, s', ?_, hn, hl, hnot, hk'⟩
  rw [openBase, bind_run (lift_run hrel s), bind_run hq]
  rfl

lemma lookupTarget_eq_ok {outer : Outer} {target : String} {c : Column}
    (hc : outer.relation.column? name = some c) (htarget : c.related? = some target)
    (hid : schema.resolve target = .ok id) : lookupTarget schema outer name = .ok (c, id) := by
  simp [lookupTarget, Relation.column_eq_ok.mpr hc, htarget, hid, bind, Except.bind, pure,
    Except.pure]

lemma needAllIfEmpty_run {o : Opened} (h : o.stage = none) (selection : Selection)
    (s : PlanState) : o.needAllIfEmpty selection s = .ok ((), s) := by
  rw [Opened.needAllIfEmpty, h]
  cases selection.isEmpty <;> rfl

lemma freshLateral_run (s : PlanState) : ∃ s', freshLateral s =
    .ok (numberedName 'j' (s.names.laterals + 1), s') ∧ s.NamesGrow s' ∧
      s'.names.laterals = s.names.laterals + 1 :=
  ⟨{ s with names := { s.names with laterals := s.names.laterals + 1 } }, rfl,
    ⟨rfl, le_rfl, Nat.le_succ _⟩, rfl⟩

lemma Shape.Shows.ofField (hnd : r.storedNames.Nodup) (hn : name ∈ r.storedNames)
    (hname : isGeneratedName name = false) (n : Nat) :
    (Shape.ofItem ⟨.of qualifier name, none⟩).Shows ops ts r qualifier n n fun values =>
      [(name, (values name).toJson)] where
  le := le_rfl
  labels := by simp [Shape.ofItem]
  nodup := nodup_nil
  sources := ⟨[], rfl⟩
  items := by
    intro item hi
    rw [mem_singleton.mp hi]
    exact ⟨rfl, rfl, hname⟩
  few := by simp [Shape.ofItem]
  names := fun _ => rfl
  cells := by
    intro values level env hl _
    refine ⟨[], ?_, by simp [Level.Between], by simp [Level.Plain], ?_⟩
    · rw [append_nil]
      rfl
    · intro later _ _
      have hfound : (level ++ [] ++ later : Level).find? (·.label == qualifier) =
          some ⟨qualifier, r.row values, true⟩ := by
        rw [append_nil, find?_append, hl.found]
        rfl
      refine ⟨[(name, values name)], ?_, rfl⟩
      rw [Shape.ofItem, SelectItem.cells, Expr.of, SelectItem.itemCells, Expr.eval, Env.column?,
        Env.binding?, hfound]
      · simp only [Option.bind_some, r.row_cell? hnd hn]
        rfl
      · simp

section Trees

variable {db : Database} {qualifier : String} {scope : List String} {c : Column}

/-- **A field** shows its value, and a reverse column the rows that refer back. -/
lemma shapeField_shows (hfits : db.Fits ops schema) {s : PlanState} (hr : r ∈ schema.relations)
    (hq : qualifier ∈ scope) (hk : KnownScope s scope) (hc : r.column? name = some c) :
    PlannedShape ops schema db r qualifier (shapeField schema ⟨r, qualifier, none, scope⟩ name) s
      fun values => [(name, fieldJson ops schema db r values name)] := by
  have hname : isGeneratedName name = false := by
    rw [← Relation.name_of_column? hc]
    exact (hfits.plain r hr).2 c (Relation.mem_of_column? hc)
  have hcolumn : (liftM (r.column name) : Plan Column) s = .ok (c, s) :=
    lift_run (Relation.column_eq_ok.mpr hc) s
  cases hrev : c.isReverse with
  | false =>
    have hjson : ∀ values, fieldJson ops schema db r values name = (values name).toJson := by
      intro values
      simp [fieldJson, hc, hrev]
    refine ⟨.ofItem ⟨.of qualifier name, none⟩, s, ?_, .refl s, ?_⟩
    · rw [shapeField, bind_run hcolumn, hrev]
      rfl
    · simp only [hjson]
      exact .ofField (Relation.storedNames_nodup (hfits.linked.columns_nodup r hr))
        (Relation.mem_storedNames hc hrev) hname _
  | true =>
    obtain ⟨target, via, hkind⟩ : ∃ target via, c.kind = .reverse target via := by
      rw [Column.isReverse] at hrev
      grind
    have htarget : c.related? = some target := by simp [Column.related?, hkind]
    obtain ⟨t, hg, -⟩ := hfits.linked.reverse r hr c (Relation.mem_of_column? hc) target via hkind
    obtain ⟨id, hid, hrel⟩ := Schema.relation_of_resolve hg
    obtain ⟨s1, hlateral, hn1, hl1⟩ := freshLateral_run s
    obtain ⟨q, s2, hopen, hn2, hl2, hnot, hk2⟩ := openBase_run hrel
      (hfits.plain t (Schema.mem_of_get? hg)).1 (hk.mono hn1)
    have hne : q ≠ qualifier := fun he => hnot (he ▸ hq)
    have hempty : Shape.empty.Shows ops (db.tables schema) t q (s.names.laterals + 1)
        (s.names.laterals + 1) fun _ => [] := .empty _
    obtain ⟨j, s3, hj, hn3, hl3, hshows⟩ := joinRows_shows hfits hr hc hne
      (hk2.ne_lateral (by simp)) (hk.ne_lateral hq) hempty htarget hg scope s2
    refine ⟨.ofJoin j, s3, ?_, hn1.trans (hn2.trans hn3), ?_⟩
    · have hscan : scanAll schema (.relation id) scope s1 =
          .ok ((⟨tableItem t.name q, q, t, none⟩ : Opened).scan Shape.empty.joins
            Shape.empty.items, s2) := by
        rw [scanAll, bind_run hopen]
        rfl
      have hbase : relatedBase ⟨r, qualifier, none, scope⟩ name id s1 =
          .ok (.relation id, s1) := rfl
      rw [shapeField, bind_run hcolumn, hrev, if_pos rfl,
        bind_run (lift_run (lookupTarget_eq_ok hc htarget hid) s)]
      dsimp only
      rw [bind_run hlateral, bind_run hbase, bind_run hscan, bind_run hj]
      rfl
    · have hjson : ∀ values, fieldJson ops schema db r values name =
          relatedJson ops schema db r values name wholeObject := by
        intro values
        simp [fieldJson, hc, hrev]
      simp only [hjson]
      rwa [hl3, hl2, hl1]

lemma shapeFields_shows (hfits : db.Fits ops schema) (hr : r ∈ schema.relations)
    (hq : qualifier ∈ scope) {fields : List String}
    (hfields : ∀ name ∈ fields, ∃ c, r.column? name = some c) :
    ∀ {s : PlanState}, KnownScope s scope → PlannedShape ops schema db r qualifier
        (shapeFields schema ⟨r, qualifier, none, scope⟩ fields) s fun values =>
          fields.map fun name => (name, fieldJson ops schema db r values name) := by
  induction fields with
  | nil => exact fun {s} _ => ⟨.empty, s, rfl, .refl s, .empty _⟩
  | cons name rest ih =>
    intro s hk
    obtain ⟨c, hc⟩ := hfields name (by simp)
    exact (shapeField_shows hfits hr hq hk hc).append fun s' hn =>
      ih (fun n hn => hfields n (by simp [hn])) (hk.mono hn)

/-- The members of the object that a selection shows of a row. -/
def Selection.members (ops : Operators) (schema : Schema) (db : Database) (r : Relation)
    (sel : Selection) (values : String → Value) : List (String × Json) :=
  sel.fields.map (fun name => (name, fieldJson ops schema db r values name)) ++
    Lookup.members ops schema db r values sel.lookups

lemma Shape.Shows.shownObject_eq {sh : Shape} {lo hi : Nat} {sel : Selection}
    (h : sh.Shows ops (db.tables schema) r qualifier lo hi (sel.members ops schema db r))
    (values : String → Value) :
    sh.shownObject r (sel.members ops schema db r) values = sel.object ops schema db r values := by
  obtain ⟨fields, lookups⟩ := sel
  have hnames := congrArg List.length (h.names values)
  rw [length_map, length_map] at hnames
  rw [Selection.object, Shape.shownObject]
  cases fields with
  | nil =>
    cases lookups with
    | nil =>
      have hitems : sh.items = [] := eq_nil_of_length_eq_zero hnames.symm
      simp [hitems]
    | cons l rest =>
      have hitems : sh.items ≠ [] := by
        intro he
        rw [he] at hnames
        simp [Selection.members, Lookup.members] at hnames
      simp [hitems, Selection.members]
  | cons name rest =>
    have hitems : sh.items ≠ [] := by
      intro he
      rw [he] at hnames
      simp [Selection.members] at hnames
    simp [hitems, Selection.members]

/-- What a column shows depends on what is shown of the relation that it leads to. -/
lemma relatedJson_congr {t : Relation} {target : String}
    {shown shown' : Relation → (String → Value) → Json} {values : String → Value}
    (hc : r.column? name = some c) (htarget : c.related? = some target)
    (hg : schema.get? target = some t) (h : ∀ row, shown t row = shown' t row) :
    relatedJson ops schema db r values name shown =
      relatedJson ops schema db r values name shown' := by
  have hfun : shown t = shown' t := funext h
  rw [relatedJson, relatedJson, hc, Option.map_some]
  cases hk : c.kind with
  | scalar => rfl
  | forward relation =>
    have he : relation = target := by simpa [Column.related?, hk] using htarget
    simp only [he, hg, hfun]
  | reverse relation via =>
    have he : relation = target := by simpa [Column.related?, hk] using htarget
    simp only [he, hg, hfun]

mutual

/-- **The shape of a selection tree** shows it, wherever the tree is planned. -/
theorem shape_shows (hfits : db.Fits ops schema) {g : Graph} (hschema : g.schema = schema)
    (earlier : Earlier) {id : RelationId} {r : Relation} {qualifier : String}
    {scope : List String} {s : PlanState} (hrel : schema.relation id = .ok r)
    (hq : qualifier ∈ scope) (hk : KnownScope s scope) :
    ∀ {sel : Selection}, sel.IsTree → checkSelection g id sel = .ok () →
      PlannedShape ops schema db r qualifier
        (shape schema earlier ⟨r, qualifier, none, scope⟩ sel) s (sel.members ops schema db r)
  | ⟨fields, lookups⟩, htree, hcheck => by
    obtain ⟨r', hr', hfields, hlookups⟩ := checkSelection_eq_ok hcheck
    rw [hschema, hrel] at hr'
    cases hr'
    have hr := Schema.mem_of_relation hrel
    exact (shapeFields_shows hfits hr hq hfields hk).append fun s' hn =>
      shapeLookups_shows hfits hschema earlier hr hq (hk.mono hn) htree hlookups

theorem shapeLookups_shows (hfits : db.Fits ops schema) {g : Graph} (hschema : g.schema = schema)
    (earlier : Earlier) {r : Relation} {qualifier : String} {scope : List String} {s : PlanState}
    (hr : r ∈ schema.relations) (hq : qualifier ∈ scope) (hk : KnownScope s scope) :
    ∀ {lookups : List (String × Lookup)}, Lookup.AreTrees lookups →
      checkLookups g r lookups = .ok () →
      PlannedShape ops schema db r qualifier
        (shapeLookups schema earlier ⟨r, qualifier, none, scope⟩ lookups) s fun values =>
          Lookup.members ops schema db r values lookups
  | [], _, _ => ⟨.empty, s, rfl, .refl s, .empty _⟩
  | (name, l) :: rest, htrees, hcheck => by
    obtain ⟨c, target, id, t, hc, htarget, hg, hid, hrel, hl, hrest⟩ := checkLookups_cons hcheck
    rw [hschema] at hg hid hrel
    obtain ⟨s1, hlateral, hn1, hl1⟩ := freshLateral_run s
    obtain ⟨j, s2, hj, hn2, hshows⟩ := shapeLookup_shows hfits hschema earlier hr hq (hk.mono hn1)
      hc htarget hg hrel hl1 htrees.1 hl
    obtain ⟨sh, s3, hsh, hn3, hrestShows⟩ :=
      shapeLookups_shows hfits hschema earlier hr hq (hk.mono (hn1.trans hn2)) htrees.2 hrest
    refine ⟨(Shape.ofJoin j).append sh, s3, ?_, hn1.trans (hn2.trans hn3), ?_⟩
    · rw [shapeLookups, bind_run (lift_run (lookupTarget_eq_ok hc htarget hid) s)]
      dsimp only
      rw [bind_run hlateral, bind_run hj, bind_run hsh]
      rfl
    · exact hshows.append hrestShows

/-- A lookup of a selection tree: the tree below it is planned with its row in the scope. -/
theorem shapeLookup_shows (hfits : db.Fits ops schema) {g : Graph} (hschema : g.schema = schema)
    (earlier : Earlier) {r t : Relation} {name target qualifier : String} {c : Column}
    {id : RelationId} {scope : List String} {s : PlanState} {lo : Nat}
    (hr : r ∈ schema.relations) (hq : qualifier ∈ scope) (hk : KnownScope s scope)
    (hc : r.column? name = some c) (htarget : c.related? = some target)
    (hg : schema.get? target = some t) (hrel : schema.relation id = .ok t)
    (hlo : s.names.laterals = lo + 1) :
    ∀ {l : Lookup}, l.IsTree → checkLookup g r name target id l = .ok () →
      ∃ j s', shapeLookup schema earlier ⟨r, qualifier, none, scope⟩ name c id
          (numberedName 'j' (lo + 1)) l s = .ok (j, s') ∧ s.NamesGrow s' ∧
        (Shape.ofJoin j).Shows ops (db.tables schema) r qualifier lo s'.names.laterals
          fun values => [(name, Lookup.json ops schema db r values name l)]
  | .nested sel, htree, hcheck => by
    obtain ⟨q, s1, hopen, hn1, hl1, hnot, hk1⟩ := openBase_run hrel
      (hfits.plain t (Schema.mem_of_get? hg)).1 hk
    obtain ⟨sh, s2, hsh, hn2, hshows⟩ :=
      shape_shows hfits hschema earlier hrel (mem_append_right scope (mem_singleton_self q)) hk1
        htree hcheck
    rw [hl1, hlo] at hshows
    have hne : q ≠ qualifier := fun he => hnot (he ▸ hq)
    obtain ⟨j, s3, hj, hn3, hl3, hjoin⟩ := joinRows_shows hfits hr hc hne
      (hk1.ne_lateral (by simp)) (hk.ne_lateral hq) hshows htarget hg scope s2
    refine ⟨j, s3, ?_, hn1.trans (hn2.trans hn3), ?_⟩
    · have hbase : relatedBase ⟨r, qualifier, none, scope⟩ name id s = .ok (.relation id, s) := rfl
      rw [shapeLookup, bind_run hbase, bind_run hopen,
        bind_run (needAllIfEmpty_run rfl _ _), Opened.outer, bind_run hsh, hj]
    · rw [hl3]
      have hjson : ∀ values, Lookup.json ops schema db r values name (.nested sel) =
          relatedJson ops schema db r values name
            fun t' => sh.shownObject t' (sel.members ops schema db t) := by
        intro values
        exact relatedJson_congr hc htarget hg fun row => (hshows.shownObject_eq row).symm
      simp only [hjson]
      exact hjoin
  | .query _, htree, _ => htree.elim
  | .recursive _ _, htree, _ => htree.elim

end

end Trees

/-! ### Queries of one relation -/

lemma select_ofTable_eq_ok {q : Query} {g' : Graph}
    (h : (do (← Query.ofTable name).select sel : Build Query) g = (.ok q, g')) :
    ∃ id r, g.schema.get? name = some r ∧ g.schema.relation id = .ok r ∧
      checkSelection g id sel = .ok () ∧
      g' = g.push (.select (.ofSource (.relation id) sel)) ∧
      q = ⟨g.id, .node g.nextHandle, []⟩ := by
  obtain ⟨q0, g0, h0, h⟩ := Build.bind_eq_ok h
  obtain ⟨_, _, hget, h0⟩ := Build.bind_eq_ok h0
  cases hget
  obtain ⟨id, _, hid, h0⟩ := Build.bind_eq_ok h0
  obtain ⟨hid, rfl⟩ := Build.lift_eq_ok hid
  cases h0
  obtain ⟨r, hg, hrel⟩ := Schema.get?_of_resolve hid
  obtain ⟨node, _, hnode, h⟩ := Build.bind_eq_ok h
  cases hnode
  obtain ⟨_, _, hget, h⟩ := Build.bind_eq_ok h
  cases hget
  obtain ⟨target, _, htarget, h⟩ := Build.bind_eq_ok h
  obtain ⟨htarget, rfl⟩ := Build.lift_eq_ok htarget
  cases htarget
  obtain ⟨_, _, hcheck, h⟩ := Build.bind_eq_ok h
  obtain ⟨hcheck, rfl⟩ := Build.lift_eq_ok hcheck
  cases h
  exact ⟨id, r, hg, hrel, hcheck, rfl, rfl⟩

lemma jsonRows_rows {inner : Select} {rows : List Row} (hr : inner.rows ops ts [] = some rows)
    (hrows : ∀ row ∈ rows, ∀ e ∈ row, isGeneratedName e.1 = false) :
    (jsonRows inner).rows ops ts [] =
      some (rows.map fun row => [("row_to_json", .json row.toJson)]) := by
  have hitem : FromItem.rows ops ts [] (.derived (.select inner) "x" []) =
      some (rows.map id) := by
    rw [FromItem.rows, Statement.rows, hr]
    simp [Row.renamed_nil]
  have hcells : ∀ row ∈ rows, projected ops ts [] [⟨.rowToJson "x", none⟩] [⟨"x", row, true⟩] =
      some [("row_to_json", .json row.toJson)] := by
    intro row hrow
    have hplain : Env.Plain [[⟨"x", row, true⟩]] := by
      refine Env.Plain.cons ?_ (by simp [Env.Plain])
      intro b hb
      rw [mem_singleton.mp hb]
      exact hrows row hrow
    have heval : (Expr.rowToJson "x").eval ops ts [[⟨"x", row, true⟩]] none =
        some (.json row.toJson) := hplain.rowToJson isGeneratedName_x rfl
    rw [projected, SelectItem.cells, SelectItem.itemCells, heval]
    · rfl
    · simp [Expr.rowToJson, Expr.apply]
  rw [jsonRows, Select.empty, Statement.rows]
  have hall : Select.rows ops ts [] ⟨[⟨.rowToJson "x", none⟩],
      some (.derived (.select inner) "x" []), [], none, [], none, none⟩ =
      some ((rows.filter fun _ => true).map fun row => [("row_to_json", .json row.toJson)]) :=
    Select.rows_plain (nodup_singleton _) rfl hitem rfl (fun _ _ => rfl) (fun _ _ => rfl) hcells
  rw [hall, filter_true]

/-- **A selection tree as a statement**: one SELECT of a shape that shows it. -/
lemma toStatement_select (hfits : db.Fits ops g.schema) (htree : sel.IsTree)
    (hrel : g.schema.relation id = .ok r) (hcheck : checkSelection g id sel = .ok ()) :
    ∃ (qualifier : String) (sh : Shape) (lo hi : Nat), (∀ k, qualifier ≠ numberedName 'j' k) ∧
      Query.toStatement (g.push (.select (.ofSource (.relation id) sel)))
          ⟨g.id, .node g.nextHandle, []⟩ =
        .ok (jsonRows ⟨sh.items, some (tableItem r.name qualifier), sh.joins, none, [], none,
          none⟩) ∧
      sh.Shows ops (db.tables g.schema) r qualifier lo hi (sel.members ops g.schema db r) := by
  have hk : KnownScope .initial [] := by simp [KnownScope]
  obtain ⟨q, s1, hopen, hn1, hl1, hnot, hk1⟩ := openBase_run hrel
    (hfits.plain r (Schema.mem_of_relation hrel)).1 hk
  obtain ⟨sh, s2, hsh, hn2, hshows⟩ := shape_shows hfits rfl (Earlier.ofNodes g.id g.schema g.nodes)
    hrel (mem_append_right [] (mem_singleton_self q)) hk1 htree hcheck
  refine ⟨q, sh, _, _, hk1.ne_lateral (by simp), ?_, hshows⟩
  have hread : readAt g (Earlier.ofNodes g.id g.schema g.nodes) false g.nextHandle
      (.select (.ofSource (.relation id) sel)) .initial =
      .ok (⟨.relation id, sel, [], none, none, []⟩, .initial) := rfl
  have hscan : scanReading g.schema (Earlier.ofNodes g.id g.schema g.nodes)
      ⟨.relation id, sel, [], none, none, []⟩ [] .initial =
      .ok (⟨⟨sh.items, some (tableItem r.name q), sh.joins, none, [], none, none⟩, r, q, none⟩,
        s2) := by
    rw [scanReading, bind_run hopen]
    dsimp only [addConditions]
    rw [bind_run (show (pure _ : Plan Select) s1 = .ok (_, s1) from rfl),
      bind_run (needAllIfEmpty_run rfl _ _), Opened.outer, bind_run hsh]
    rfl
  have hplan : Query.plan (g.push (.select (.ofSource (.relation id) sel)))
      ⟨g.id, .node g.nextHandle, []⟩ .initial =
      .ok (⟨⟨sh.items, some (tableItem r.name q), sh.joins, none, [], none, none⟩, r, q, none⟩,
        s2) := by
    have hearlier : (g.push (.select (.ofSource (.relation id) sel))).planner.scan g.nextHandle [] =
        scanAt g (Earlier.ofNodes g.id g.schema g.nodes) g.nextHandle
          (.select (.ofSource (.relation id) sel)) [] := if_pos rfl
    have hbranches : ([] : List Handle).forM (fun h => discard
        ((g.push (.select (.ofSource (.relation id) sel))).planner.stage h)) PlanState.initial =
        .ok ((), PlanState.initial) := rfl
    rw [Query.plan, bind_run hbranches]
    dsimp only
    rw [hearlier, scanAt, bind_run hread, hscan]
  have hstages : s2.stages = [] := by
    rw [(hn1.trans hn2).rest]
    rfl
  rw [Query.toStatement, StateT.run, hplan]
  change Except.ok (withStages (widenStages s2.required s2.stages) _) = _
  rw [hstages]
  rfl

/-- **Selection trees are compiled correctly.** In an accepted schema without made up names and with
stored primary keys, over contents in which these are unique, the statement of a selection tree that
is accepted for a relation gives one row for each row of the relation, in order: the object that the
tree shows of it. -/
theorem select_tree_rows {ops : Operators} {db : Database} {g g' : Graph}
    {relations : List Relation} {name : String} {sel : Selection} {q : Query}
    (hschema : Schema.ofRelations g.schema.id relations = .ok g.schema)
    (hplain : g.schema.PlainNames) (hstored : g.schema.StoredKeys)
    (hkeyed : db.Keyed ops g.schema) (htree : sel.IsTree)
    (hq : (do (← Query.ofTable name).select sel : Build Query) g = (.ok q, g')) :
    ∃ r statement, g.schema.get? name = some r ∧ q.toStatement g' = .ok statement ∧
      statement.rows ops (db.tables g.schema) [] =
        some ((db.rows r.name).map fun values =>
          [("row_to_json", .json (sel.object ops g.schema db r values))]) := by
  have hfits : db.Fits ops g.schema := ⟨linked_of_ofRelations hschema, hplain, hstored, hkeyed⟩
  obtain ⟨id, r, hg, hrel, hcheck, rfl, rfl⟩ := select_ofTable_eq_ok hq
  obtain ⟨qualifier, sh, lo, hi, hqualifier, hstatement, hshows⟩ :=
    toStatement_select hfits htree hrel hcheck
  have hgr : g.schema.get? r.name = some r := by rw [Schema.name_of_get? hg, hg]
  have hall : ∀ values : String → Value, ∀ found : Level, found.Between lo hi →
      Expr.holds ops (db.tables g.schema) [[⟨qualifier, r.row values, true⟩] ++ found] none =
        some true := fun _ _ _ => rfl
  obtain ⟨cells, hrows, hcells⟩ := shapeSelect_rows hgr hplain hqualifier hshows
    (by simp [Env.Plain]) hall
  rw [filter_true] at hrows
  refine ⟨r, _, hg, hstatement, ?_⟩
  rw [jsonRows_rows hrows]
  · rw [map_map]
    congr 1
    refine map_congr_left fun values _ => ?_
    rw [Function.comp_apply, (hcells values).1, hshows.shownObject_eq]
  · intro row hrow
    obtain ⟨values, -, rfl⟩ := mem_map.mp hrow
    exact (hcells values).2

/-! ### A library -/

/-- The integer that a value is. -/
def Value.int? : Value → Option Int64
  | .int n => some n
  | _ => none

/-- Operators that tell values apart by the integers that they are. -/
def integerOperators : Operators where
  equal a b := decide (a.int? = b.int?)
  less _ _ := false
  plus l _ := l
  overlap _ _ := false
  like _ _ _ := false
  cast v _ := v
  equal_equivalence := ⟨by simp, by simp [eq_comm], by simp +contextual⟩

/-- Authors and their books. -/
def libraryRelations : List Relation :=
  [⟨"author", [.primary "id", .scalar "name", .reverse "books" "book" "author"]⟩,
    ⟨"book", [.primary "id", .scalar "title", .forward "author" "author"]⟩]

def library : Graph := .empty 0 ⟨0, libraryRelations⟩

/-- Two authors, the first of whom has written a book. -/
def libraryContents : Database where
  rows name :=
    if name = "author" then
      [fun c => if c = "id" then .int 1 else .text "first",
        fun c => if c = "id" then .int 2 else .text "second"]
    else [fun c => if c = "title" then .text "book" else .int 1]

/-- The books of an author, each with its author again. -/
def libraryTree : Selection :=
  ⟨["name"], [("books", .nested ⟨["title"], [("author", .nested .empty)]⟩)]⟩

lemma libraryContents_keyed : libraryContents.Keyed integerOperators library.schema := by
  intro r hr
  rcases mem_cons.mp hr with rfl | hr
  · exact pairwise_pair.mpr (by decide)
  · rw [mem_singleton.mp hr]
    exact pairwise_singleton _ _

lemma library_storedKeys : library.schema.StoredKeys := by
  rw [Schema.StoredKeys]
  decide

/-- In the library, the tree goes from authors to books and back. -/
theorem select_tree_rows_library :
    ∃ statement,
      Query.toStatement (library.push (.select (.ofSource (.relation ⟨0, 0⟩) libraryTree)))
          ⟨0, .node ⟨0, 0⟩, []⟩ = .ok statement ∧
        statement.rows integerOperators (libraryContents.tables library.schema) [] =
          some [[("row_to_json", .json (.obj [("name", .str "first"), ("books", .arr [.obj
              [("title", .str "book"), ("author", .obj
                [("id", .int 1), ("name", .str "first")])]])]))],
            [("row_to_json", .json (.obj [("name", .str "second"), ("books", .arr [])]))]] := by
  have hschema : Schema.ofRelations library.schema.id libraryRelations = .ok library.schema := rfl
  have hplain : library.schema.PlainNames := by
    simp only [Schema.PlainNames]
    decide
  have htree : libraryTree.IsTree := by
    simp [libraryTree, Selection.empty, Selection.IsTree, Lookup.AreTrees, Lookup.IsTree]
  have hq : (do (← Query.ofTable "author").select libraryTree : Build Query) library =
      (.ok ⟨0, .node ⟨0, 0⟩, []⟩,
        library.push (.select (.ofSource (.relation ⟨0, 0⟩) libraryTree))) := rfl
  obtain ⟨r, statement, hg, hs, hrows⟩ :=
    select_tree_rows hschema hplain library_storedKeys libraryContents_keyed htree hq
  cases hg
  exact ⟨statement, hs, hrows⟩

/-! ### Keys that are not stored -/

/-- Authors whose primary key is a reverse column, and books that refer to them. -/
def unkeyed : Graph := .empty 0 ⟨0,
  [⟨"author", [.reverse "id" "book" "author", .scalar "name"]⟩,
    ⟨"book", [.primary "id", .forward "author" "author"]⟩]⟩

/-- An author and a book. -/
def unkeyedContents : Database where
  rows _ := [fun c => if c = "name" then .text "first" else .int 1]

/-- **A key that is not stored** is looked up all the same. The schema is accepted and so is a tree
that shows books with their authors, but its statement compares a column that no table has. -/
theorem unstored_key_lookup :
    let tree : Selection := ⟨["id"], [("author", .nested ⟨["name"], []⟩)]⟩
    Schema.ofRelations 0 unkeyed.schema.relations = .ok unkeyed.schema ∧
      unkeyedContents.Keyed integerOperators unkeyed.schema ∧
      ∃ q g' statement,
        (do (← Query.ofTable "book").select tree : Build Query) unkeyed = (.ok q, g') ∧
        q.toStatement g' = .ok statement ∧
        statement.rows integerOperators (unkeyedContents.tables unkeyed.schema) [] = none := by
  exact ⟨rfl, fun _ _ => pairwise_singleton _ _, _, _, _, rfl, rfl, rfl⟩

end StagedSql
