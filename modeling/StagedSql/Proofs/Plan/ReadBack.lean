import StagedSql.Proofs.Plan.ViewReadings
import StagedSql.Proofs.Plan.WrittenTrees

/-!
Rows that a statement writes, read back by the same statement.

A lookup on an inserted row takes the rows of a column that the insert has filled from the stages
which have inserted them. Lookups on rows that were looked up take their rows from the tables.
-/

namespace StagedSql

open List Plan

variable {earlier : Earlier} {m : Nat} {s : PlanState}

/-! ### Where rows come from -/

mutual

/-- The tables that a FROM item takes its rows from. -/
def FromItem.rowTables : FromItem → List String
  | .table name _ => [name]
  | .derived query _ _ => query.rowTables

def FromItem.rowTablesOption : Option FromItem → List String
  | none => []
  | some item => item.rowTables

/-- The tables that a statement takes its rows from. -/
def Statement.rowTables : Statement → List String
  | .select ⟨_, source, _, _, _, _, _⟩ => FromItem.rowTablesOption source
  | .union _ members => Statement.rowTablesEach members
  | _ => []

def Statement.rowTablesEach : List Statement → List String
  | [] => []
  | s :: rest => s.rowTables ++ Statement.rowTablesEach rest

end

def Select.rowTables (s : Select) : List String := FromItem.rowTablesOption s.source

lemma rowTables_relatedItem (t : Relation) (label : String) (members : Option (List String)) :
    (relatedItem t label members).rowTables = members.getD [t.name] := by
  cases members with
  | none => rw [relatedItem, tableItem, FromItem.rowTables, Option.getD_none]
  | some members =>
    rw [relatedItem, FromItem.rowTables, Statement.rowTables]
    induction members with
    | nil => rfl
    | cons name rest ih =>
      rw [map_cons, Statement.rowTablesEach, ih]
      rfl

/-! ### Lookups -/

/-- The joins and items of a SELECT. -/
def Select.shape (s : Select) : Shape := ⟨s.joins, s.projection⟩

/-- The joins of a shape are those of lookups, whose items are among its items in order. -/
structure Shape.Gives (sh : Shape) (shown : List (Join × SelectItem)) : Prop where
  joins : sh.joins = shown.map Prod.fst
  items : (shown.map Prod.snd).Sublist sh.items

lemma Shape.Gives.append {a b : Shape} {shown shown' : List (Join × SelectItem)}
    (ha : a.Gives shown) (hb : b.Gives shown') : (a.append b).Gives (shown ++ shown') := by
  refine ⟨?_, ?_⟩
  · rw [Shape.append, ha.joins, hb.joins, map_append]
  · rw [map_append]
    exact ha.items.append hb.items

lemma Shape.gives_ofJoin (j : Join × SelectItem) : (Shape.ofJoin j).Gives [j] :=
  ⟨rfl, .refl _⟩

/-- **A lookup through a column** of a relation `r` that leads to the relation `t`: a lateral join
and the item that shows it. Its rows are taken from the stages that the column was filled by, if
there are any, and otherwise from the table. -/
structure LooksUp (schema : Schema) (filled : String → Option (List String)) (r : Relation)
    (name : String) (shown : Join × SelectItem) (t : Relation) (rows : Select) : Prop where
  link : ∃ c, schema.link? r name = some (c, t) ∧ if c.isReverse then ∃ label lateral,
      shown = (.leftLateral (.select (arrayOf rows label [])) lateral,
        labelled (.of lateral "value") name)
    else ∃ lateral,
      shown = (.leftLateral (.select rows) lateral, labelled (.rowToJson lateral) name)
  tables : rows.rowTables = (filled name).getD [t.name]

/-- Whether a column stands for the rows that refer back. -/
def Relation.refersBack (r : Relation) (name : String) : Bool :=
  ((r.column? name).map Column.isReverse).getD false

/-- A field that stands for the rows which refer back shows all columns of these rows. -/
def FieldReadBy (schema : Schema) (filled : String → Option (List String)) (r : Relation)
    (name : String) (shown : Join × SelectItem) : Prop :=
  ∃ t rows, LooksUp schema filled r name shown t rows ∧ rows.shape = .empty

section ReadBy

variable (schema : Schema)

mutual

/-- **Where the lookups of a selection take their rows from**, given the stages that the columns of
the outer row were filled by. For lookups on looked up rows no column counts as filled. -/
def Selection.ReadBy (filled : String → Option (List String)) (r : Relation) :
    Selection → Shape → Prop
  | ⟨fields, lookups⟩, sh => ∃ first last, sh.Gives (first ++ last) ∧
      Forall₂ (FieldReadBy schema filled r) (fields.filter r.refersBack) first ∧
      Lookup.EachReadBy filled r lookups last

/-- Where a nested lookup takes its rows from. -/
def Lookup.ReadBy (filled : String → Option (List String)) (r : Relation) (name : String) :
    Lookup → Join × SelectItem → Prop
  | .nested selection, shown => ∃ t rows, LooksUp schema filled r name shown t rows ∧
      selection.ReadBy (fun _ => none) t rows.shape
  | .query _, _ => True
  | .recursive _ _, _ => True

/-- Where several lookups take their rows from, one after the other. -/
def Lookup.EachReadBy (filled : String → Option (List String)) (r : Relation) :
    List (String × Lookup) → List (Join × SelectItem) → Prop
  | [], shown => shown = []
  | (name, lookup) :: rest, shown => ∃ one others, shown = one :: others ∧
      lookup.ReadBy filled r name one ∧ Lookup.EachReadBy filled r rest others

end

end ReadBy

/-! ### Planned lookups -/

lemma Plan.Keeps.grows {α : Type} {x : Plan α} {s : PlanState} {post : α → PlanState → Prop}
    (h : Keeps quiet x s post) (m : Nat) : Keeps (growing m) x s post := by
  intro hs a s' hx
  obtain ⟨-, hq, hpost⟩ := h trivial a s' hx
  exact ⟨⟨hq.numbered hs.1, hq.count ▸ hs.2⟩, hq.grows m, hpost⟩

/-- The outer row is of no stage, or of one of the first `m`. -/
def Outer.Within (outer : Outer) (m : Nat) : Prop :=
  ∀ name ∈ outer.stage, ∃ k ≤ m, name = rowName k

section Lookups

variable {schema : Schema} {s' : PlanState} {outer : Outer}

lemma members?_quiet (h : s.Quiet s') : outer.members? s' = outer.members? s := by
  funext name
  rw [Outer.members?, Outer.members?, h.written]

lemma members?_grows (hwithin : outer.Within m) (h : s.Grows m s') :
    outer.members? s' = outer.members? s := by
  funext column
  rw [Outer.members?, Outer.members?]
  cases hstage : outer.stage with
  | none => rfl
  | some name =>
    obtain ⟨k, hk, rfl⟩ := hwithin name hstage
    exact h.written k hk column

lemma joinRelated {name : String} {c : Column} {t : Relation} (label lateral : String)
    (sh : Shape) (filled : String → Option (List String))
    (hlink : schema.link? outer.relation name = some (c, t)) :
    Keeps quiet (joinRows outer c name lateral
      (Opened.scan ⟨relatedItem t label (filled name), label, t, none⟩ sh.joins sh.items)) s
      fun j _ => ∃ rows, LooksUp schema filled outer.relation name j t rows ∧ rows.shape = sh := by
  refine (joinRows_join outer c name lateral _).mono fun j s' _ hj => ?_
  obtain ⟨own, other, label', -, rfl⟩ := hj
  refine ⟨linkedRows (Opened.scan ⟨relatedItem t label (filled name), label, t, none⟩ sh.joins
    sh.items) own (.of outer.qualifier other), ⟨⟨c, hlink, ?_⟩, ?_⟩, rfl⟩
  · by_cases hreverse : c.isReverse
    · rw [if_pos hreverse, if_pos hreverse]
      exact ⟨label', lateral, rfl⟩
    · rw [if_neg hreverse, if_neg hreverse]
      exact ⟨lateral, rfl⟩
  · exact rowTables_relatedItem t label (filled name)

/-- A field: a column that stands for the rows which refer back is looked up. -/
lemma shapeField_readBy (name : String) :
    Keeps quiet (shapeField schema outer name) s fun sh _ =>
      if outer.relation.refersBack name then ∃ j, sh = .ofJoin j ∧
        FieldReadBy schema (outer.members? s) outer.relation name j
      else sh.joins = [] := by
  refine .lift_bind fun c hc => ?_
  have hcolumn := Relation.column_eq_ok.mp hc
  have hback : outer.relation.refersBack name = c.isReverse := by
    rw [Relation.refersBack, hcolumn]
    rfl
  rw [hback]
  split
  · refine .lift_bind fun (c', target) htarget => ?_
    obtain ⟨t, hlink, ht⟩ := lookupTarget_link htarget
    refine (freshLateral_plain.quiet s).bind fun lateral s₁ hq1 _ => ?_
    simp only [scanAll, bind_assoc]
    rw [← bind_assoc]
    refine (openRelated outer name target outer.scope).bind fun o s2 _ ho => ?_
    obtain ⟨t', label, ht', rfl⟩ := ho
    rw [ht] at ht'
    cases ht'
    refine ((needAllIfEmpty_plain _ _).quiet s2).bind fun _ s3 _ _ => ?_
    refine (joinRelated label lateral .empty (outer.members? s₁) hlink).bind
      fun j _ _ hj => .of_pure ⟨j, rfl, ?_⟩
    rw [members?_quiet hq1] at hj
    obtain ⟨rows, hrows, hempty⟩ := hj
    exact ⟨t, rows, hrows, hempty⟩
  · exact ((need_plain _ _).quiet s).bind fun _ _ _ _ => .of_pure rfl

lemma shapeFields_readBy (names : List String) :
    Keeps quiet (shapeFields schema outer names) s fun sh _ => ∃ shown, sh.Gives shown ∧
      Forall₂ (FieldReadBy schema (outer.members? s) outer.relation)
        (names.filter outer.relation.refersBack) shown := by
  induction names generalizing s with
  | nil => exact .of_pure ⟨[], ⟨rfl, .refl _⟩, .nil⟩
  | cons name rest ih =>
    refine (shapeField_readBy name).bind fun sh s₁ hq1 hsh => ?_
    refine ih.bind fun sh' s2 _ hrest => .of_pure ?_
    rw [members?_quiet hq1] at hrest
    obtain ⟨shown, hgives, hall⟩ := hrest
    by_cases hback : outer.relation.refersBack name
    · rw [if_pos hback] at hsh
      obtain ⟨j, rfl, hj⟩ := hsh
      rw [filter_cons_of_pos hback]
      exact ⟨j :: shown, (Shape.gives_ofJoin j).append hgives, .cons hj hall⟩
    · rw [if_neg hback] at hsh
      rw [filter_cons_of_neg hback]
      have hnone : sh.Gives [] := ⟨hsh, nil_sublist _⟩
      exact ⟨shown, hnone.append hgives, hall⟩

mutual

/-- **A selection is planned so**, by recursion on the selection. -/
theorem shape_readBy (he : earlier.Obeys (growing m)) {outer : Outer} {s : PlanState}
    (hwithin : outer.Within m) : ∀ selection : Selection,
      Keeps (growing m) (shape schema earlier outer selection) s fun sh _ =>
        selection.ReadBy schema (outer.members? s) outer.relation sh
  | ⟨fields, lookups⟩ => by
    refine ((shapeFields_readBy fields).grows m).bind fun sh s₁ hg1 hfields => ?_
    refine (shapeLookups_readBy he hwithin lookups).bind fun sh' s2 _ hlookups => .of_pure ?_
    rw [members?_grows hwithin hg1] at hlookups
    obtain ⟨first, hfirst, hall⟩ := hfields
    obtain ⟨last, hlast, heach⟩ := hlookups
    exact ⟨first, last, hfirst.append hlast, hall, heach⟩

theorem shapeLookups_readBy (he : earlier.Obeys (growing m)) {outer : Outer} {s : PlanState}
    (hwithin : outer.Within m) : ∀ lookups : List (String × Lookup),
      Keeps (growing m) (shapeLookups schema earlier outer lookups) s fun sh _ =>
        ∃ shown, sh.Gives shown ∧
          Lookup.EachReadBy schema (outer.members? s) outer.relation lookups shown
  | [] => .of_pure ⟨[], ⟨rfl, .refl _⟩, rfl⟩
  | (name, lookup) :: rest => by
    refine .lift_bind fun (c, target) htarget => ?_
    refine ((freshLateral_plain.grows m) s).bind fun lateral s₁ hg1 _ => ?_
    refine (shapeLookup_readBy he lateral htarget lookup).bind fun j s2 hg2 hj => ?_
    refine (shapeLookups_readBy he hwithin rest).bind fun sh s3 _ hrest => .of_pure ?_
    rw [members?_grows hwithin (hg1.trans hg2)] at hrest
    rw [members?_grows hwithin hg1] at hj
    obtain ⟨shown, hgives, heach⟩ := hrest
    exact ⟨j :: shown, (Shape.gives_ofJoin j).append hgives, j, shown, rfl, hj, heach⟩

theorem shapeLookup_readBy (he : earlier.Obeys (growing m)) {outer : Outer} {s : PlanState}
    {name : String} {c : Column} {target : RelationId} (lateral : String)
    (htarget : lookupTarget schema outer name = .ok (c, target)) : ∀ lookup : Lookup,
      Keeps (growing m) (shapeLookup schema earlier outer name c target lateral lookup) s
        fun j _ => lookup.ReadBy schema (outer.members? s) outer.relation name j
  | .nested selection => by
    obtain ⟨t, hlink, ht⟩ := lookupTarget_link htarget
    rw [shapeLookup, ← bind_assoc]
    refine ((openRelated outer name target outer.scope).grows m).bind fun o s₁ hg1 ho => ?_
    obtain ⟨t', label, ht', rfl⟩ := ho
    rw [ht] at ht'
    cases ht'
    refine ((needAllIfEmpty_plain _ selection).grows m s₁).bind fun _ s2 _ _ => ?_
    -- rows that are looked up belong to no stage, so nothing is known of what they lead to
    have hinner : Outer.Within (Opened.outer ⟨relatedItem t label (outer.members? s name), label,
        t, none⟩ outer.scope) m := fun _ h => by cases h
    refine (shape_readBy he hinner selection).bind fun sh s3 _ hsh => ?_
    refine ((joinRelated label lateral sh (outer.members? s) hlink).grows m).mono
      fun j s4 _ hj => ?_
    obtain ⟨rows, hrows, rfl⟩ := hj
    exact ⟨t, rows, hrows, hsh⟩
  | .query _ | .recursive _ _ =>
    ((shapeLookup_asks schema outer name c target lateral _).grows he s).forget

end

end Lookups

/-! ### Chains over an insert -/

/-- **The reading of a chain over an inserted row**: its rows are those of a stage that leads to the
same rows as the insert, and the stages of the inserted tree come first. -/
structure ReadsInsert (new : NewRows) (r : Relation) (view : View) (reading : Reading)
    (s : PlanState) : Prop where
  numbered : s.Numbered
  selection : reading.selection = view.asked.selection
  inserted : ∃ first later, s.stages = first ++ later ∧
    Forall₂ Stage.Inserts (new.rows.zipIdx 1) first
  base : ∃ k ≤ s.names.stages, reading.base = .stage (rowName k) ∧
    (∃ stage, s.stages.find? (·.name == rowName k) = some stage ∧ stage.relation = r) ∧
    ∀ column, s.written.lookup (rowName k, column) = leadNames new.leads column

section Chains

variable {schema : Schema} {reading : Reading} {new : NewRows} {r : Relation} {view : View}

lemma scanStage_readBy (he : earlier.Obeys (growing m)) {k : Nat} (hk : k ≤ m) {stage : Stage}
    (hbase : reading.base = .stage (rowName k))
    (hstage : s.stages.find? (·.name == rowName k) = some stage) :
    Keeps (growing m) (scanReading schema earlier reading []) s fun scan _ =>
      scan.relation = stage.relation ∧ scan.stage = some (rowName k) ∧
        reading.selection.ReadBy schema (fun c => s.written.lookup (rowName k, c)) stage.relation
          scan.select.shape := by
  rw [scanReading, hbase]
  refine .run_bind (openStage_run hstage) id (.refl m s) ?_
  refine ((addConditions_asks schema _ _ _).grows he s).bind fun filtered s₁ hg1 _ => ?_
  refine ((needAllIfEmpty_plain _ _).grows m s₁).bind fun _ s2 hg2 _ => ?_
  have hwithin : Outer.Within (Opened.outer ⟨.table (rowName k) none, rowName k, stage.relation,
      some (rowName k)⟩ []) m := by
    rintro name ⟨⟩
    exact ⟨k, hk, rfl⟩
  refine (shape_readBy he hwithin reading.selection).bind fun sh s3 _ hsh => ?_
  rw [members?_grows hwithin (hg1.trans hg2)] at hsh
  refine (Obeys.mapM (fun key _ => (orderItem_plain _ key).grows m) s3).bind
    fun ordering _ _ _ => .of_pure ⟨rfl, rfl, hsh⟩

/-- A page of the rows of the insert leads to the same rows as the insert. -/
lemma ReadsInsert.page {g : Graph} (h : ReadsInsert new r view reading s) (a : Asked)
    (own : Handle) :
    Ensures (scanReading g.schema g.planner (reading.ask { a with selection := .empty }) []) s
      fun scan s' => ReadsInsert new r (.select view a) (a.readPage s'.nextStage)
        (s'.addPage own scan) := by
  obtain ⟨k, hk, hbase, ⟨stage, hstage, hrelation⟩, hleads⟩ := h.base
  have hbase' : (reading.ask { a with selection := .empty }).base = .stage (rowName k) := hbase
  refine (scanStage_readBy (planner_grows k g) (Nat.le_refl k) hbase' hstage
    ⟨h.numbered, hk⟩).mono fun scan s' hscan => ?_
  obtain ⟨⟨hs', -⟩, hgrows, hrelation', hstage', -⟩ := hscan
  obtain ⟨first, later, hstages, hrows⟩ := h.inserted
  obtain ⟨more, hmore⟩ := hgrows.stages
  refine ⟨(s'.addPage_adds own scan).numbered hs', rfl,
    ⟨first, later ++ (more ++ [s'.stageOf scan]), ?_, hrows⟩, s'.names.stages + 1, Nat.le_refl _,
    rfl,
    ⟨s'.stageOf scan, PlanState.addPage_find? hs' own scan, hrelation'.trans hrelation⟩,
    fun column => ?_⟩
  · rw [(s'.addPage_adds own scan).stages, hmore, hstages]
    simp
  · exact (PlanState.addPage_written hs' own hstage' column).trans
      ((hgrows.written k (Nat.le_refl k) column).trans (hleads column))

lemma readsInsert_rule {first last : Graph} {c : Changes} {h : Handle} {hs : List Handle}
    (hbuilt : c.Built first r none h hs) (hnodup : hs.Nodup) :
    ViewRule first last (.node h) (ReadsInsert (c.newRows first.schema 0 r none) r) where
  base {g} enclosed hg _ := by
    have hbuilt' : c.Built g r ((none : Option ParentLink).map ParentLink.column) h hs :=
      hbuilt.mono hg
    have hread := (stageRow_staged c hbuilt' hnodup (s := .initial) (fun _ _ => rfl)
      PlanState.numbered_initial (by simp [PlanState.HasParent])).2 enclosed
    intro reading s hrun
    obtain ⟨⟨hs', -⟩, -⟩ :=
      ((planner_grows 0 g).read enclosed h).run ⟨PlanState.numbered_initial, Nat.zero_le _⟩ hrun
    obtain ⟨name, rfl, hstaged⟩ := hread reading s hrun
    rw [hg.schema] at hstaged
    obtain ⟨stage, hfound, hrelation⟩ := hstaged.stage
    obtain ⟨k, hk, hname⟩ := hs'.1 stage (mem_of_find?_eq_some hfound)
    have hstage : stage.name = name := by simpa using find?_some hfound
    obtain rfl : name = rowName k := hstage.symm.trans hname
    obtain ⟨more, hmore, hrows⟩ := hstaged.inserts.stages
    exact ⟨hs', rfl, ⟨more, [], by rw [hmore]; simp [PlanState.initial], hrows⟩, k, hk, rfl,
      ⟨stage, hfound, hrelation⟩, hstaged.leads⟩
  filter _ h := ⟨h.numbered, h.selection, h.inserted, h.base⟩
  select _ _ h := ⟨h.numbered, rfl, h.inserted, h.base⟩
  page a own _ _ _ h := h.page a own

lemma ReadsInsert.of_root
    (h : RootReading (ReadsInsert new r) view reading s) : ReadsInsert new r view reading s := by
  rcases h with ⟨h, -⟩ | ⟨source, a, inner, rfl, -, h, rfl⟩
  · exact h
  · exact ⟨h.numbered, rfl, h.inserted, h.base⟩

end Chains

lemma inserts_ctes {rows : List (NewRow × Nat)} {first : List Stage} (later : List Stage)
    (rs : Requirements) (inner : Select) (h : Forall₂ Stage.Inserts rows first) :
    ∃ inserts rest, (withStages (widenStages rs (first ++ later)) (jsonRows inner)).ctes =
      inserts ++ rest ∧ Forall₂ Cte.Inserts rows inserts := by
  have hwidened := forall₂_take first.length (inserts_widened rs (first ++ later))
  rw [take_left] at hwidened
  refine ⟨_, _, (take_append_drop first.length _).symm, ?_⟩
  rw [withStages_ctes, ← map_take, forall₂_map_right_iff]
  exact forall₂_step h hwidened fun numbered a b hrow hab =>
    ⟨(hab numbered hrow).name, (hab numbered hrow).statement⟩

/-- **The SELECT over an insert.** For a chain on an insert, the rows of the tree are inserted by
the first stages, and the SELECT is that of a reading of one of them. -/
lemma insert_chain_scan {g g' : Graph} {name : String} {changes : Changes} {ops : List ReadOp}
    {q : Query} {statement : Statement} (htree : changes.IsTree)
    (hbuild : (do ReadOp.runAll (← (← Query.ofTable name).insert changes) ops : Build Query) g =
      (.ok q, g'))
    (hstatement : q.toStatement g' = .ok statement) :
    ∃ earlier stage k reading s₁ scan s inserts later,
      g.schema.get? name = some stage.relation ∧ reading.base = .stage (rowName k) ∧
      reading.selection = (ReadOp.view ops).asked.selection ∧
      s₁.stages.find? (·.name == rowName k) = some stage ∧
      scanReading g.schema earlier reading [] s₁ = .ok (scan, s) ∧
      statement = withStages (widenStages s.required s.stages) (jsonRows scan.select) ∧
      statement.ctes = inserts ++ later ∧
      Forall₂ Cte.Inserts ((changes.newRows g.schema 0 stage.relation none).rows.zipIdx 1)
        inserts ∧
      (ReadOp.view ops).asked.selection.ReadBy g.schema
        (leadNames (changes.newRows g.schema 0 stage.relation none).leads) stage.relation
        scan.select.shape := by
  rw [← bind_assoc] at hbuild
  obtain ⟨q₁, first, hinsert, hops⟩ := Build.bind_eq_ok hbuild
  obtain ⟨r, h, hs, hname, rfl, hbuilt, hspans⟩ := insert_ofTable_built htree q₁ first hinsert
  have hbase : first.IsBase (.node h) := by
    cases hbuilt with
    | row _ _ hnode => exact .insert hnode
  obtain ⟨⟨hviews, -, hbranches⟩, -⟩ := runAll_views ops
    (.base hbase (.refl first) : first.Views (.node h) first (.node h) .base)
    (fun _ _ heq => by cases heq) q g' hops
  obtain ⟨past, reading, s₁, scan, s, -, hroot, hscan, rfl⟩ := toStatement_views
    (readsInsert_rule hbuilt hspans.nodup) hbranches hviews hstatement
  have hreads := ReadsInsert.of_root hroot
  rw [hspans.within.schema] at hreads
  rw [hviews.within.schema, hspans.within.schema] at hscan
  obtain ⟨k, hk, hbase, ⟨stage, hstage, rfl⟩, hleads⟩ := hreads.base
  obtain ⟨-, hgrows, -, -, hreadBy⟩ := scanStage_readBy (planner_grows k past) (Nat.le_refl k) hbase
    hstage ⟨hreads.numbered, hk⟩ scan s hscan
  obtain ⟨inserted, later, hstages, hrows⟩ := hreads.inserted
  obtain ⟨more, hmore⟩ := hgrows.stages
  rw [hstages, append_assoc] at hmore
  obtain ⟨inserts, rest, hctes, hinserts⟩ :=
    inserts_ctes (later ++ more) s.required scan.select hrows
  refine ⟨_, stage, k, reading, s₁, scan, s, inserts, rest, hname, hbase, hreads.selection, hstage,
    hscan, rfl, ?_, hinserts, ?_⟩
  · rwa [hmore]
  · rwa [hreads.selection, funext hleads] at hreadBy

/-- **Rows that a statement has inserted are read back from its own stages.** For every tree of
changes that is inserted and every chain of selects, filters, orderings, limits and offsets on top
of the insert, the stages of the tree come first. Lookups on the inserted row take the rows of a
column that the insert has filled from the stages of these rows, and those of other columns from the
tables. Lookups on rows that were looked up take all rows from the tables. -/
theorem insert_read_back {g g' : Graph} {name : String} {changes : Changes} {ops : List ReadOp}
    {q : Query} {statement : Statement} (htree : changes.IsTree)
    (hbuild : (do ReadOp.runAll (← (← Query.ofTable name).insert changes) ops : Build Query) g =
      (.ok q, g'))
    (hstatement : q.toStatement g' = .ok statement) :
    ∃ r stages rows inserts later, g.schema.get? name = some r ∧
      statement = withStages stages (jsonRows rows) ∧ statement.ctes = inserts ++ later ∧
      Forall₂ Cte.Inserts ((changes.newRows g.schema 0 r none).rows.zipIdx 1) inserts ∧
      (ReadOp.view ops).asked.selection.ReadBy g.schema
        (leadNames (changes.newRows g.schema 0 r none).leads) r rows.shape := by
  obtain ⟨_, stage, _, _, _, scan, s, inserts, later, hname, -, -, -, -, hshape, hctes, hinserts,
    hread⟩ := insert_chain_scan htree hbuild hstatement
  exact ⟨stage.relation, _, scan.select, inserts, later, hname, hshape, hctes, hinserts, hread⟩

/-- A movie with the names and countries of its actors, and its studio. -/
def filmSelection : Selection :=
  ⟨["title"], [("actors", .nested ⟨["name"], [("address", .nested ⟨["country"], []⟩)]⟩),
      ("studio", .nested ⟨["name"], []⟩)]⟩

/-- A page of the movies of a title, in that shape. -/
def filmOps : List ReadOp :=
  [.orderBy "-title", .limit 10, .filter (.lookup "title" (.value (.text "Birds"))),
    .select filmSelection]

/-- The studio and the actors are read from the stages that insert them, through a page. The address
is read from its table, although the third stage inserts it. -/
theorem insert_read_back_film :
    ∃ (q : Query) (g' : Graph) (statement : Statement) (stages : List Stage)
      (rows actors studio address : Select) (l₁ l₂ l₃ l₄ : String),
      (do ReadOp.runAll (← (← Query.ofTable "movie").insert filmTree) filmOps : Build Query)
          (.empty 0 ⟨0, filmRelations⟩) = (.ok q, g') ∧
        q.toStatement g' = .ok statement ∧ statement = withStages stages (jsonRows rows) ∧
        (∃ cte ∈ statement.ctes, Cte.Inserts (⟨⟨"address", [.primary "id", .scalar "country"]⟩,
          [("country", .value (.text "US"))]⟩, 3) cte) ∧
        rows.joins = [.leftLateral (.select (arrayOf actors l₁ [])) l₂,
          .leftLateral (.select studio) l₃] ∧
        actors.joins = [.leftLateral (.select address) l₄] ∧
        actors.rowTables = ["t4", "t5"] ∧ studio.rowTables = ["t1"] ∧
        address.rowTables = ["address"] := by
  have hruns : Build.compiles
      (do ReadOp.runAll (← (← Query.ofTable "movie").insert filmTree) filmOps)
      (.empty 0 ⟨0, filmRelations⟩) = true := by decide +kernel
  obtain ⟨q, g', rendered, hbuild, hcompile⟩ := Build.exists_of_compiles hruns
  obtain ⟨statement, hstatement, -⟩ := Except.bind_ok hcompile
  have htree : filmTree.IsTree := by
    simp [filmTree, Changes.IsTree, Change.AreTrees, Change.IsTree, Changes.AreTrees]
  obtain ⟨r, stages, rows, inserts, later, hname, hshape, hctes, hinserts, hread⟩ :=
    insert_read_back htree hbuild hstatement
  cases hname
  obtain _ | ⟨-, _ | ⟨-, _ | ⟨hthird, -⟩⟩⟩ := hinserts
  obtain ⟨first, _, hgives, hfields, one, _, rfl, ⟨actor, actors, hactors, hinner⟩, two, _, rfl,
    ⟨_, studio, hstudio, -⟩, rfl⟩ := hread
  cases hfields
  obtain ⟨c, hlink, hshown⟩ := hactors.link
  cases hlink
  obtain ⟨l₁, l₂, rfl⟩ := hshown
  obtain ⟨c, hlink, hshown⟩ := hstudio.link
  cases hlink
  obtain ⟨l₃, rfl⟩ := hshown
  obtain ⟨first, _, hgives', hfields, three, _, rfl, ⟨_, address, haddress, -⟩, rfl⟩ := hinner
  cases hfields
  obtain ⟨c, hlink, hshown⟩ := haddress.link
  cases hlink
  obtain ⟨l₄, rfl⟩ := hshown
  refine ⟨q, g', statement, stages, rows, actors, studio, address, l₁, l₂, l₃, l₄, hbuild,
    hstatement, hshape, ⟨_, ?_, hthird⟩, hgives.joins, hgives'.joins, hactors.tables,
    hstudio.tables, haddress.tables⟩
  rw [hctes]
  simp

end StagedSql
