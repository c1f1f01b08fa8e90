import Mathlib.Data.List.Induction
import Mathlib.Data.Set.Finite.Basic
import StagedSql.Proofs.Condition.Conjuncts
import StagedSql.Proofs.Plan.CoveredStages
import StagedSql.Proofs.Plan.Widening

/-!
Stages give what is read of them.

What a statement reads of its stages is noted while it is planned, stages are then widened by what
was noted, and what widened stages read is noted as well. So a write gives back every column that is
read of it at any depth.
-/

namespace StagedSql

open List

variable {s : PlanState} {g : Graph} {q : Query}

/-! ### Stages in order -/

section Chained

variable {schema : Schema}

lemma Stage.Fits.mono {before more : List String} {stage : Stage} (h : stage.Fits schema before)
    (hsub : ∀ t ∈ before, t ∈ more) : stage.Fits schema more := by
  rcases h with hwrite | ⟨select, q, hs⟩
  · exact .inl hwrite
  · exact .inr ⟨select, q, { hs with base := fun t ht => hsub t (hs.base t ht) }⟩

lemma PlanState.Covered.nodup (h : s.Covered schema) : s.stageNames.Nodup := by
  rw [h.names]
  exact stageNames_nodup _

/-- The stages of a state, taken from the last one on, are ready to be widened. -/
lemma PlanState.Covered.chained (h : s.Covered schema) :
    Stage.Chained schema s.stages.reverse := by
  -- by induction on what is left in front, from its end
  have hfront : ∀ front rest : List Stage, s.stages = front ++ rest →
      Stage.Chained schema front.reverse := by
    intro front
    induction front using List.reverseRecOn with
    | nil => exact fun _ _ => trivial
    | append_singleton front stage ih =>
      intro rest heq
      rw [append_assoc, singleton_append] at heq
      rw [reverse_append, reverse_singleton, singleton_append]
      refine ⟨?_, ?_, ih (stage :: rest) heq⟩
      · exact (h.fits front stage rest heq).mono fun t ht => by simpa using ht
      · have hnodup := h.nodup
        rw [PlanState.stageNames, heq, map_append, nodup_append] at hnodup
        simp_all
  exact hfront s.stages [] (by simp)

end Chained

/-! ### Queries -/

section Queries

variable {scan : Scan}

lemma initial_covered (schema : Schema) : PlanState.initial.Covered schema :=
  ⟨rfl, by simp [PlanState.initial], by simp [PlanState.initial], by simp [PlanState.initial],
    by simp [PlanState.initial]⟩

lemma plan_covers (hschema : g.schema.Qualifies) (hg : g.NoExpr) (q : Query) (s : PlanState) :
    Plan.Keeps (covering g.schema) (q.plan g) s fun scan s' => scan.Covered g.schema s' [] := by
  have he := planner_covers hschema hg
  have hbranches := branches_keep (s := s) (fun _ _ _ _ h => h)
    (fun h s => ((he h).stage s).forget) q.branches
  refine hbranches.bind fun _ s1 _ _ => ?_
  cases q.root with
  | relation id =>
    have hknown : (Reading.ofBase (.relation id)).Known s1 :=
      ⟨trivial, by simp [Reading.ofBase]⟩
    exact scanReading_covers (.none _) hschema hknown (knows_nil s1)
  | node h => exact (he h).scan [] s1 (knows_nil s1)

lemma withStages_allowed {P : Read → Prop} {stages : List Stage} {inner : Select}
    (hstages : ∀ stage ∈ stages, Allowed P (stage.statement.reads []))
    (hinner : Allowed P (inner.reads [])) :
    Allowed P ((withStages stages (jsonRows inner)).reads []) := by
  have hbody : Allowed P ((jsonRows inner).reads []) := by
    rw [jsonRows, Statement.reads, Select.reads_allowed]
    refine ⟨by rintro ⟨⟩, ?_, ?_, allowed_nil, allowed_nil, allowed_nil⟩
    · rw [SelectItem.readsEach_allowed]
      intro item hitem
      rw [mem_singleton.mp hitem]
      exact allowed_nil
    · change Allowed P ((Statement.select inner).reads [])
      rwa [Statement.reads]
  cases stages with
  | nil => exact hbody
  | cons stage rest =>
    change Allowed P ((Statement.withCtes false
      ((stage :: rest).map fun s => ⟨s.name, s.statement⟩) (jsonRows inner)).reads [])
    rw [Statement.reads, allowed_append, Cte.readsEach_allowed]
    simp_all

/-- **What is required in the end.** There are requirements that cover all that a statement reads of
its stages, and each stage gives what they ask of it. All columns are asked of no more stages than
was noted while planning. -/
lemma toStatement_required (hschema : g.schema.PlainRelations) (hg : g.NoExpr)
    (hplan : (q.plan g).run .initial = .ok (scan, s)) :
    ∃ statement rs, q.toStatement g = .ok statement ∧ s.Covered g.schema ∧
      Requirements.Within s.stageNames s.required rs ∧
      Allowed (fun r => IsStageName r.1 → rs.Covers r) (statement.reads []) ∧
      Forall₂ (fun stage (cte : Cte) => cte.name = stage.name ∧
        cte.statement = stage.given (rs.lookup stage.name)) s.stages statement.ctes := by
  obtain ⟨hs, -, hscan⟩ := plan_covers hschema.qualifies hg q .initial
    (initial_covered g.schema) scan s hplan
  obtain ⟨rs, hwithin, hreads, hgiven⟩ := widenFromLast_reads hs.chained
    fun stage hstage => hs.reads stage (mem_reverse.mp hstage)
  refine ⟨_, rs, by rw [Query.toStatement, hplan]; rfl, hs, ?_, ?_, ?_⟩
  · exact hwithin.mono fun t ht => by simpa [PlanState.stageNames] using ht
  · refine Allowed.mono (withStages_allowed (fun stage hstage => ?_)
      (hwithin.grows.allowed (hscan.reads []))) fun r hr hname => hr (hschema.reserves hname)
    exact hreads stage (mem_reverse.mp hstage)
  · rw [withStages_ctes, forall₂_map_right_iff]
    have h := rel_reverse hgiven
    rwa [reverse_reverse] at h

end Queries

/-! ### Conditions -/

section Conditions

/-- There is a name for a stage of which nothing is required. -/
lemma Requirements.exists_reserved (schema : Schema) (rs : Requirements) :
    ∃ t, schema.Reserves t ∧ ∀ c, ¬ rs.Covers (t, c) := by
  have hinj : (numberedName 't').Injective := fun _ _ h => (numberedName_inj.mp h).2
  obtain ⟨_, ⟨n, rfl⟩, hn⟩ := (Set.infinite_range_of_injective hinj).exists_notMem_finset
    (schema.relations.map (·.name) ++ rs.map (·.1)).toFinset
  rw [mem_toFinset, mem_append, not_or] at hn
  refine ⟨_, ⟨⟨n, rfl⟩, fun r hr h => hn.1 (mem_map.mpr ⟨r, hr, h⟩)⟩, fun c ⟨required, h, _⟩ => ?_⟩
  obtain ⟨before, after, rfl, -⟩ := lookup_eq_some_iff.mp h
  exact hn.2 (by simp)

variable {c : Condition} {r : Relation} {name : String} {scope : List String} {e : Expr}
  {s' : PlanState}

/-- **A condition reads its primary columns**, and no others of the rows that it is about. A column
of them is free in the expression if it is read of them whatever table they are of. The names of
the scope were made up before, and no relation is named like one that is made up for relations. -/
theorem condition_reads_primary_columns (hschema : g.schema.Qualifies) (hc : c.NoExpr)
    (hg : c.handles ≠ [] → g.NoExpr) (hname : name ∈ scope) (hs : s.Covered g.schema)
    (hk : s.Knows scope) (h : c.toSql g.planner.context g.schema r name scope s = .ok (e, s'))
    (column : String) :
    (∀ t, (t, some column) ∈ e.reads [(name, some t)]) ↔ column ∈ c.primaryColumns r := by
  obtain ⟨earlier, he, hrun⟩ : ∃ earlier : Earlier, earlier.Meets (coveredNodes g.schema) ∧
      c.toSql earlier.context g.schema r name scope s = .ok (e, s') := by
    by_cases hnone : c.handles = []
    · have hsame : ∀ h ∈ c.handles, g.planner.subselect h = Earlier.none.subselect h := by
        simp [hnone]
      rw [Condition.toSql, toSqlIn_congr hsame] at h
      exact ⟨.none, .none _, h⟩
    · exact ⟨g.planner, planner_covers hschema (hg hnone), h⟩
  obtain ⟨-, -, hcov, hreads⟩ := toSql_covers he hschema r name scope hc hs e s' hrun
  refine ⟨fun hfree => ?_, fun hcolumn t => ?_⟩
  · -- let the rows be those of a stage of which nothing but the primary columns is required
    obtain ⟨t, ht, hnew⟩ := s'.required.exists_reserved g.schema
    have hgrows : s'.required.Grows ((t, .columns (c.primaryColumns r)) :: s'.required) := by
      rintro ⟨t', c'⟩ ⟨required, hlookup, hcovers⟩
      refine ⟨required, ?_, hcovers⟩
      rwa [lookup_cons, beq_false_of_ne]
      rintro rfl
      exact hnew c' ⟨required, hlookup, hcovers⟩
    obtain ⟨required, hlookup, hcovers⟩ := hcov _ [(name, some t)] hgrows (by
      refine fun c' hc' => of_allowed fun t' ht' _ => ?_
      cases lookup_cons_self.symm.trans ht'
      exact ⟨_, lookup_cons_self, hc'⟩) _ (hfree t) ht
    cases lookup_cons_self.symm.trans hlookup
    exact hcovers
  · have hscope : addOnce scope name = scope := by simp [addOnce, hname]
    rw [hscope] at hreads
    exact hreads hk _ t lookup_cons_self column hcolumn

/-- Folders, each with the folder that it is in. -/
def folder : Relation := ⟨"folder", [.primary "id", .scalar "name", .forward "parent" "folder"]⟩

def folders : Graph := ⟨0, ⟨0, [folder]⟩, []⟩

/-- The folders in the root. -/
def inRoot : Condition := .lookup "parent__name" (.value (.text "root"))

/-- The folder that a folder is in goes by another name, so that its name is not free. -/
theorem condition_reads_primary_columns_folder :
    ∃ e s', inRoot.toSql folders.planner.context folders.schema folder "folder" ["folder"]
        .initial = .ok (e, s') ∧
      ∀ column, (∀ t, (t, some column) ∈ e.reads [("folder", some t)]) ↔ column = "parent" := by
  have hplain : folders.schema.PlainRelations := by
    simp [Schema.PlainRelations, folders, folder]
    rfl
  have hc : inRoot.NoExpr := by simp [inRoot, Condition.NoExpr, Operand.NoExpr]
  obtain ⟨e, s', h⟩ : ∃ e s', inRoot.toSql folders.planner.context folders.schema folder "folder"
      ["folder"] .initial = .ok (e, s') := ⟨_, _, rfl⟩
  refine ⟨e, s', h, fun column => (condition_reads_primary_columns hplain.qualifies hc
    (fun h => (h rfl).elim) (.head _) (initial_covered _) (fun k _ hk => ?_) h column).trans
      mem_singleton⟩
  exact hplain.qualifies folder (.head _) k (mem_singleton.mp hk).symm

end Conditions

/-! ### Writes -/

/-- Whether a write gives back a column. -/
def Returning.Gives : Returning → String → Prop
  | .all, _ => True
  | .nothing, _ => False
  | .columns names, c => c ∈ names

section Returning

variable {r : Returning} {required : Required} {c : String}

lemma Returning.gives_require {name : String} :
    (r.require name).Gives c ↔ r.Gives c ∨ c = name := by
  cases r with
  | all => simp [Returning.require, Returning.Gives]
  | nothing => simp [Returning.require, Returning.Gives]
  | columns names => exact mem_addOnce

lemma Returning.gives_foldl_require {names : List String} :
    (names.foldl Returning.require r).Gives c ↔ r.Gives c ∨ c ∈ names := by
  induction names generalizing r with
  | nil => simp
  | cons name rest ih => rw [foldl_cons, ih, Returning.gives_require, mem_cons, or_assoc]

lemma Returning.gives_widen :
    (r.widen required).Gives c ↔ r.Gives c ∨ required.Covers (some c) := by
  cases required with
  | all => simp [Returning.widen, Returning.requireAll, Returning.Gives, Required.Covers]
  | columns names => exact Returning.gives_foldl_require

lemma Returning.widen_eq_all (h : required.Covers none) : r.widen required = .all := by
  cases required with
  | all => rfl
  | columns names => exact h.elim

lemma Statement.giving_returning (statement : Statement) (qualifier : Option String)
    (required : Required) : (statement.giving qualifier required).returning? =
      statement.returning?.map fun (table, r) => (table, r.widen required) := by
  cases statement with
  | select s => cases required <;> cases qualifier <;> rfl
  | _ => rfl

end Returning

section Writes

variable {statement : Statement} {cte : Cte} {table : String} {returning : Returning}

lemma Stage.given_returning {stage : Stage} {required : Option Required}
    (h : (stage.given required).returning? = some (table, returning)) :
    ∃ r, stage.statement.returning? = some (table, r) ∧ (∀ c, r.Gives c → returning.Gives c) ∧
      ∀ x, required = some x → returning = r.widen x := by
  cases required with
  | none => exact ⟨returning, h, fun _ hc => hc, by simp⟩
  | some x =>
    change (stage.statement.giving stage.qualifier x).returning? = _ at h
    rw [Statement.giving_returning] at h
    obtain ⟨⟨table', r⟩, hr, heq⟩ := Option.map_eq_some_iff.mp h
    cases heq
    exact ⟨r, hr, fun c hc => Returning.gives_widen.mpr (.inl hc), by rintro y ⟨⟩; rfl⟩

/-- **Writes give back what is read of them.** Let no relation have a name of the form that is made
up, and let no condition hold an expression that is taken as it is. Then each INSERT, UPDATE or
DELETE that is run under a name gives back every column that is read of this name at any depth of
the statement, it gives back all columns if all are read, and it gives back the primary key of its
relation in any case. -/
theorem writes_give_reads (hschema : g.schema.PlainRelations) (hg : g.NoExpr)
    (h : q.toStatement g = .ok statement) (hcte : cte ∈ statement.ctes)
    (hwrite : cte.statement.returning? = some (table, returning)) :
    (∀ c, (cte.name, some c) ∈ statement.reads [] → returning.Gives c) ∧
      ((cte.name, none) ∈ statement.reads [] → returning = .all) ∧
      ∃ r ∈ g.schema.relations, r.name = table ∧ returning.Gives r.primaryKey := by
  obtain ⟨⟨scan, s⟩, hplan, -⟩ := Except.bind_ok h
  obtain ⟨statement', rs, heq, hs, -, hreads, hgiven⟩ := toStatement_required hschema hg hplan
  cases h.symm.trans heq
  obtain ⟨stage, hstage, hname, hstatement⟩ := exists_of_forall₂_right hgiven cte hcte
  rw [hstatement] at hwrite
  obtain ⟨r, hr, hkeeps, hwiden⟩ := Stage.given_returning hwrite
  have hstageName := hs.isStageName (mem_map_of_mem hstage)
  have hrequired : ∀ c, (cte.name, c) ∈ statement.reads [] →
      ∃ required, returning = r.widen required ∧ required.Covers c := by
    intro c hc
    rw [hname] at hc
    obtain ⟨required, hlookup, hcov⟩ := hreads _ hc hstageName
    exact ⟨required, hwiden required hlookup, hcov⟩
  refine ⟨fun c hc => ?_, fun hall => ?_, ?_⟩
  · obtain ⟨required, rfl, hcov⟩ := hrequired (some c) hc
    exact Returning.gives_widen.mpr (.inr hcov)
  · obtain ⟨required, rfl, hcov⟩ := hrequired none hall
    exact Returning.widen_eq_all hcov
  · obtain ⟨before, after, hsplit⟩ := append_of_mem hstage
    rcases hs.fits before stage after hsplit with ⟨relation, hmem, hkey⟩ | ⟨select, name, hselect⟩
    · rw [hr] at hkey
      cases hkey
      refine ⟨relation, hmem, rfl, hkeeps _ ?_⟩
      simp [Returning.ofColumns, Returning.Gives, mem_distinct]
    · rw [hselect.statement] at hr
      cases hr

/-- A note that is inserted, and its text if it has a given title. -/
def noteInsert : Graph where
  id := 0
  schema := ⟨0, [⟨"note", [.primary "id", .scalar "title", .scalar "body"]⟩]⟩
  nodes :=
    [.select (.ofSource (.node ⟨0, 1⟩) (.ofFields ["body"])),
      .filter (.node ⟨0, 0⟩) (.lookup "title" (.value (.text "List"))),
      .insert ⟨0, 0⟩ (.values [("title", .value (.text "List"))]) []]

/-- The title is read in a condition only, and is given back. -/
theorem writes_give_reads_note :
    ∃ statement : Statement,
      (⟨0, .node ⟨0, 2⟩, []⟩ : Query).toStatement noteInsert = .ok statement ∧
      ∃ cte ∈ statement.ctes, ∃ returning,
        cte.statement.returning? = some ("note", returning) ∧
        (cte.name, some "title") ∈ statement.reads [] ∧ returning.Gives "title" := by
  have hschema : noteInsert.schema.PlainRelations := by
    simp [Schema.PlainRelations, noteInsert]
    rfl
  have hg : noteInsert.NoExpr := by
    simp [Graph.NoExpr, noteInsert, Node.NoExpr, Condition.NoExpr, Operand.NoExpr]
  obtain ⟨statement, hs, cte, hcte, returning, hwrite, hread⟩ : ∃ statement : Statement,
      (⟨0, .node ⟨0, 2⟩, []⟩ : Query).toStatement noteInsert = .ok statement ∧
        ∃ cte ∈ statement.ctes, ∃ returning,
          cte.statement.returning? = some ("note", returning) ∧
          (cte.name, some "title") ∈ statement.reads [] :=
    ⟨_, rfl, _, mem_singleton_self _, _, rfl, by decide⟩
  refine ⟨statement, hs, cte, hcte, returning, hwrite, hread, ?_⟩
  exact (writes_give_reads hschema hg hs hcte hwrite).1 "title" hread

end Writes

/-- **A SELECT gives a column as it is stored**: it gives all columns of what it reads, or one item
at least has the name of the column, and each that has it is this column of what it reads. -/
def Select.GivesStored (s : Select) (c : String) : Prop :=
  s.isStar = true ∨ (∃ item ∈ s.projection, item.outputName? = some c) ∧
      ∀ item ∈ s.projection, item.outputName? = some c →
        ∃ source, s.source = some source ∧ item = ⟨.of source.bound.1 c, none⟩

/-- No item of a SELECT is labelled with a name. -/
def Select.Unlabelled (s : Select) (c : String) : Prop := ∀ item ∈ s.projection, item.label ≠ some c

/-! ### Items -/

section Items

variable {s : Select} {q c : String}

lemma Select.mem_outputNames :
    c ∈ s.outputNames ↔ ∃ item ∈ s.projection, item.outputName? = some c := by
  rw [Select.outputNames, mem_distinct, mem_filterMap]

/-- A column is given as it is stored if it is given and is no label. -/
lemma Select.IsOf.givesStored_iff (h : s.IsOf q) :
    s.GivesStored c ↔ s.isStar = true ∨ (s.Unlabelled c ∧ c ∈ s.outputNames) := by
  obtain ⟨source, hsource, hq⟩ := h.source
  rw [Select.mem_outputNames]
  refine or_congr_right ⟨fun ⟨hgiven, hstored⟩ => ⟨fun item hitem hlabel => ?_, hgiven⟩,
    fun ⟨hunlabelled, hgiven⟩ => ⟨hgiven, fun item hitem hname => ?_⟩⟩
  · obtain ⟨source', -, rfl⟩ := hstored item hitem (by simp [SelectItem.outputName?, hlabel])
    cases hlabel
  · rcases h.items item hitem with ⟨c', rfl⟩ | ⟨e, label, rfl⟩
    · cases hname
      exact ⟨source, hsource, by rw [hq]⟩
    · cases hname
      exact absurd rfl (hunlabelled _ hitem)

end Items

/-! ### Added columns -/

section Added

variable {s : Select} {q c : String} {names : List String}

lemma Select.IsOf.ensureEach (h : s.IsOf q) (names : List String) :
    (s.ensureEach q names).IsOf q := by
  obtain ⟨added, heq, hadded⟩ := s.ensureEach_eq q names
  rw [heq]
  refine ⟨h.source, fun item hitem => ?_⟩
  rcases mem_append.mp hitem with hitem | hitem
  · exact h.items item hitem
  · grind

lemma Select.ensureEach_unlabelled (s : Select) (q : String) (names : List String) :
    (s.ensureEach q names).Unlabelled c ↔ s.Unlabelled c := by
  obtain ⟨added, heq, hadded⟩ := s.ensureEach_eq q names
  rw [heq]
  refine ⟨fun h item hitem => h item (mem_append_left _ hitem), fun h item hitem => ?_⟩
  rcases mem_append.mp hitem with hitem | hitem
  · exact h item hitem
  · obtain ⟨c', -, rfl⟩ := hadded item hitem
    simp

lemma Select.ensureColumn_gives (s : Select) (q c : String) :
    (s.ensureColumn q c).isStar = true ∨ c ∈ (s.ensureColumn q c).outputNames := by
  rw [Select.ensureColumn]
  split
  · rename_i h
    simpa using h
  · refine .inr (Select.mem_outputNames.mpr ⟨⟨.of q c, none⟩, ?_, rfl⟩)
    exact mem_append_right _ (mem_singleton_self _)

lemma Select.ensureEach_keeps (h : s.isStar = true ∨ c ∈ s.outputNames) (q : String)
    (names : List String) :
    (s.ensureEach q names).isStar = true ∨ c ∈ (s.ensureEach q names).outputNames := by
  induction names generalizing s with
  | nil => exact h
  | cons name rest ih =>
    refine ih (s := s.ensureColumn q name) ?_
    rw [Select.ensureColumn]
    split
    · exact h
    · rename_i hnew
      rcases h with hstar | hc
      · simp [hstar] at hnew
      · obtain ⟨item, hitem, hname⟩ := Select.mem_outputNames.mp hc
        exact .inr (Select.mem_outputNames.mpr ⟨item, mem_append_left _ hitem, hname⟩)

lemma Select.ensureEach_gives (hc : c ∈ names) (s : Select) (q : String) :
    (s.ensureEach q names).isStar = true ∨ c ∈ (s.ensureEach q names).outputNames := by
  induction names generalizing s with
  | nil => cases hc
  | cons name rest ih =>
    rcases mem_cons.mp hc with rfl | hc
    · exact Select.ensureEach_keeps (s.ensureColumn_gives q c) q rest
    · exact ih hc (s.ensureColumn q name)

/-- **Added columns are given as they are stored**, unless something else has their name. -/
lemma Select.IsOf.ensureEach_givesStored (h : s.IsOf q) (hc : c ∈ names) :
    (s.ensureEach q names).GivesStored c ↔ s.isStar = true ∨ s.Unlabelled c := by
  by_cases hstar : s.isStar = true
  · rw [Select.ensureEach_of_isStar hstar]
    exact ⟨fun _ => .inl hstar, fun _ => .inl hstar⟩
  · have hnot : ¬ (s.ensureEach q names).isStar = true := by
      rw [h.isStar_iff] at hstar
      obtain ⟨added, heq, -⟩ := s.ensureEach_eq q names
      rw [(h.ensureEach names).isStar_iff, heq]
      exact fun hnil => hstar (append_eq_nil_iff.mp hnil).1
    have hgiven := (Select.ensureEach_gives hc s q).resolve_left hnot
    rw [(h.ensureEach names).givesStored_iff, Select.ensureEach_unlabelled]
    simp only [hnot, hstar, hgiven, and_true]

end Added

/-! ### Queries -/

section Queries

variable {g : Graph} {q : Query} {scan : Scan} {s : PlanState} {statement : Statement} {cte : Cte}
  {w : Select}

lemma Stage.Fits.isSelect {schema : Schema} {before : List String} {stage : Stage}
    {required : Option Required} (h : stage.Fits schema before)
    (hw : stage.given required = .select w) : ∃ p name, stage.IsSelect schema before p name := by
  rcases h with ⟨r, -, hreturning⟩ | hselect
  · cases required with
    | none =>
      change stage.statement = .select w at hw
      rw [hw] at hreturning
      cases hreturning
    | some required =>
      change stage.statement.giving stage.qualifier required = .select w at hw
      have hgiving := Statement.giving_returning stage.statement stage.qualifier required
      rw [hw, hreturning] at hgiving
      cases hgiving
  · exact hselect

/-- **Staged SELECTs give what is read of them as it is stored, but for two cases.** Let no relation
have a name of the form that is made up, and let no condition hold an expression that is taken as it
is. Let a SELECT be run under a name, as it was planned before columns were added to it. A column
that is read of this name at any depth of the statement is then given as it is stored if and only if
the SELECT was planned to give all columns, or the column has the name of no lookup and either was
among the columns that the SELECT was planned to give or no reader asks for all columns. -/
theorem staged_select_gives_stored_iff (hschema : g.schema.PlainRelations) (hg : g.NoExpr)
    (hplan : (q.plan g).run .initial = .ok (scan, s)) (h : q.toStatement g = .ok statement)
    (hcte : cte ∈ statement.ctes) (hselect : cte.statement = .select w) :
    ∃ stage ∈ s.stages, ∃ p, stage.name = cte.name ∧ stage.statement = .select p ∧
      ∀ c, (cte.name, some c) ∈ statement.reads [] →
        (w.GivesStored c ↔ p.isStar = true ∨
          p.Unlabelled c ∧ (c ∈ p.outputNames ∨ ¬ s.required.Covers (cte.name, none))) := by
  obtain ⟨statement', rs, heq, hs, hwithin, hreads, hgiven⟩ := toStatement_required hschema hg hplan
  cases h.symm.trans heq
  obtain ⟨stage, hstage, hname, hstatement⟩ := exists_of_forall₂_right hgiven cte hcte
  obtain ⟨before, after, hsplit⟩ := append_of_mem hstage
  rw [hselect] at hstatement
  obtain ⟨p, name, hp⟩ := (hs.fits before stage after hsplit).isSelect hstatement.symm
  refine ⟨stage, hstage, p, hname.symm, hp.statement, fun c hc => ?_⟩
  rw [hname] at hc ⊢
  obtain ⟨required, hlookup, hcov⟩ := hreads _ hc (hs.isStageName (mem_map_of_mem hstage))
  rw [hlookup, Stage.given, hp.statement, hp.qualifier] at hstatement
  cases required with
  | all =>
      -- a stage of which all columns are required is left as it was planned
      cases hstatement
      have hall : s.required.Covers (stage.name, none) :=
        hwithin.all stage.name ⟨.all, hlookup, trivial⟩
      rw [hp.toIsOf.givesStored_iff]
      simp only [hall, not_true_eq_false, or_false]
  | columns names =>
      cases hstatement
      have hnot : ¬ s.required.Covers (stage.name, none) := by
        intro hall
        obtain ⟨required, hlookup', hnone⟩ := hwithin.grows _ hall
        cases hlookup.symm.trans hlookup'
        exact hnone
      rw [hp.toIsOf.ensureEach_givesStored hcov]
      simp only [hnot, not_false_eq_true, or_true, and_true]

/-- The ids of all movies, and those of them that have a given title. -/
def movieIds : Graph where
  id := 0
  schema := ⟨0, [⟨"movie", [.primary "id", .scalar "title"]⟩]⟩
  nodes :=
    [.filter (.node ⟨0, 0⟩) (.lookup "title" (.value (.text "Birds"))),
      .select (.ofSource (.relation ⟨0, 0⟩) (.ofFields ["id"]))]

/-- The ids are a branch of their own. The filter asks for all of their columns and compares the
title, which they do not have. -/
theorem staged_select_gives_stored_iff_movie :
    ∃ (statement : Statement) (w : Select),
      (⟨0, .node ⟨0, 1⟩, [⟨0, 0⟩]⟩ : Query).toStatement movieIds = .ok statement ∧
      ⟨"t1", .select w⟩ ∈ statement.ctes ∧ ("t1", some "title") ∈ statement.reads [] ∧
      ¬ w.GivesStored "title" := by
  have hschema : movieIds.schema.PlainRelations := by
    simp [Schema.PlainRelations, movieIds]
    rfl
  have hg : movieIds.NoExpr := by
    simp [Graph.NoExpr, movieIds, Node.NoExpr, Condition.NoExpr, Operand.NoExpr]
  obtain ⟨scan, s, p, hplan, hstages, hstar, hnames, hall⟩ : ∃ (scan : Scan) (s : PlanState)
      (p : Select), ((⟨0, .node ⟨0, 1⟩, [⟨0, 0⟩]⟩ : Query).plan movieIds).run .initial =
        .ok (scan, s) ∧ s.stages.map (·.statement) = [.select p] ∧ p.isStar = false ∧
        "title" ∉ p.outputNames ∧ s.required.lookup "t1" = some .all :=
    ⟨_, _, _, rfl, rfl, rfl, by decide, rfl⟩
  obtain ⟨statement, w, hs, hcte, hread⟩ : ∃ (statement : Statement) (w : Select),
      (⟨0, .node ⟨0, 1⟩, [⟨0, 0⟩]⟩ : Query).toStatement movieIds = .ok statement ∧
        ⟨"t1", .select w⟩ ∈ statement.ctes ∧ ("t1", some "title") ∈ statement.reads [] :=
    ⟨_, _, rfl, mem_singleton_self _, by decide⟩
  obtain ⟨stage, hstage, p', -, hp', hiff⟩ :=
    staged_select_gives_stored_iff hschema hg hplan hs hcte rfl
  have hsame : Statement.select p' ∈ s.stages.map (·.statement) :=
    mem_map.mpr ⟨stage, hstage, hp'⟩
  rw [hstages, mem_singleton] at hsame
  cases hsame
  refine ⟨statement, w, hs, hcte, hread, fun hgives => ?_⟩
  rcases (hiff "title" hread).mp hgives with hstar' | ⟨-, hnames' | hnone⟩
  · rw [hstar] at hstar'
    cases hstar'
  · exact hnames hnames'
  · exact hnone ⟨.all, hall, trivial⟩

end Queries

end StagedSql
