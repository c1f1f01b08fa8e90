import StagedSql.Proofs.Plan.ScopedStages
import StagedSql.Proofs.Plan.Widening

/-!
Statements are closed, and their names do not hide each other.

This holds of the whole statement: with its named statements in order, each of which sees those
before it, and with its last SELECT (`toStatement_sites`).
-/

namespace StagedSql

open List

variable {P : Site → Prop}

/-! ### Widened stages -/

section Widened

variable {tables named : List String}

lemma Select.ensureEach_sites (hP : ∀ site : Site, site.Good tables → P site) {s : Select}
    {qualifier : String} (names : List String) (hnodup : s.qualifiers.Nodup)
    (hq : qualifier ∈ s.qualifiers) (h : ∀ site ∈ s.sites named [], P site) :
    ∀ site ∈ (s.ensureEach qualifier names).sites named [], P site := by
  obtain ⟨added, heq, hadded⟩ := s.ensureEach_eq qualifier names
  rw [Select.sites_eq, forall_mem_cons] at h
  rw [heq, Select.sites_eq, forall_mem_cons]
  refine ⟨hP _ (good_binds hnodup (.inl (by simp))), Select.append_clauseSites h.2 ?_⟩
  intro item hitem
  obtain ⟨c, -, rfl⟩ := hadded item hitem
  exact of_good hP (mem_append_left _ hq) _

/-- **Widening a stage** keeps its sites as stated: what a write gives back uses no names. -/
lemma Stage.given_sites (hP : ∀ site : Site, site.Good tables → P site) {stage : Stage}
    (required : Option Required)
    (hselect : ∀ select, stage.statement = .select select →
      select.qualifiers.Nodup ∧ ∀ q, stage.qualifier = some q → q ∈ select.qualifiers)
    (h : ∀ site ∈ stage.statement.sites named [], P site) :
    ∀ site ∈ (stage.given required).sites named [], P site := by
  obtain ⟨name, statement, relation, qualifier, base⟩ := stage
  cases required with
  | none => exact h
  | some required =>
    change ∀ site ∈ (statement.giving qualifier required).sites named [], P site
    cases statement with
    | select s =>
      cases required with
      | all => exact h
      | columns names =>
        cases qualifier with
        | none => exact h
        | some q =>
          obtain ⟨hnodup, hq⟩ := hselect s rfl
          exact Select.ensureEach_sites hP names hnodup (hq q rfl) h
    | insert s =>
      cases s
      simpa only [Statement.giving, Statement.sites] using h
    | update s =>
      cases s
      simpa only [Statement.giving, Statement.sites] using h
    | delete s =>
      cases s
      simpa only [Statement.giving, Statement.sites] using h
    | _ => exact h

/-- A place in a list is one in any list that it is related to. -/
lemma split_of_forall₂ {α β : Type} {R : α → β → Prop} {l : List α} {before after : List β} {b : β}
    (h : Forall₂ R l (before ++ b :: after)) :
    ∃ front a rest, l = front ++ a :: rest ∧ Forall₂ R front before ∧ R a b := by
  induction before generalizing l with
  | nil =>
    obtain ⟨a, rest, hab, -, rfl⟩ := forall₂_cons_right_iff.mp h
    exact ⟨[], a, rest, rfl, .nil, hab⟩
  | cons first more ih =>
    obtain ⟨x, xs, hx, hxs, rfl⟩ := forall₂_cons_right_iff.mp h
    obtain ⟨front, a, rest, rfl, hfront, hab⟩ := ih hxs
    exact ⟨x :: front, a, rest, rfl, .cons hx hfront, hab⟩

/-- The stages of a statement have the names of those planned, in the same order. -/
lemma widenStages_given (rs : Requirements) (stages : List Stage) :
    Forall₂ (fun stage widened => widened.name = stage.name ∧
      ∃ required, widened.statement = stage.given required) stages (widenStages rs stages) := by
  refine widenStages_forall₂ (fun rs stage => ?_) rs stages
  rw [widenStage_eq]
  exact ⟨rfl, _, rfl⟩

lemma map_name_of_forall₂ {R : Stage → Stage → Prop} {l m : List Stage}
    (h : Forall₂ (fun a b => b.name = a.name ∧ R a b) l m) :
    m.map (·.name) = l.map (·.name) := by
  induction h with
  | nil => rfl
  | cons hab _ ih => rw [map_cons, map_cons, ih, hab.1]

/-- The stages of a statement have sites as stated, given the names of those before. -/
lemma PlanState.Scoped.widened {s : PlanState} (hP : ∀ site : Site, site.Good tables → P site)
    (hs : s.Scoped P) (rs : Requirements) {before after : List Stage} {stage : Stage}
    (hsplit : widenStages rs s.stages = before ++ stage :: after) :
    ∀ site ∈ stage.statement.sites (before.map (·.name)) [], P site := by
  have hall := widenStages_given rs s.stages
  rw [hsplit] at hall
  obtain ⟨front, planned, rest, heq, hfront, -, required, hstatement⟩ := split_of_forall₂ hall
  rw [map_name_of_forall₂ hfront, hstatement]
  refine Stage.given_sites hP required ?_ (hs.sites front planned rest heq)
  exact hs.selects planned (by rw [heq]; simp)

end Widened

/-! ### Queries -/

section Queries

variable {g : Graph} {q : Query} {statement : Statement}

lemma initial_scoped (P : Site → Prop) : PlanState.initial.Scoped P :=
  ⟨rfl, by simp [PlanState.initial], by simp [PlanState.initial], by simp [PlanState.initial],
    by simp [PlanState.initial], by simp [PlanState.initial], by simp [PlanState.initial]⟩

/-- **Planning a query** keeps names apart. -/
lemma plan_scopes (hP : ∀ site : Site, site.Good g.schema.tableNames → P site)
    (hschema : g.schema.Unnumbered) (hg : ∀ e ∈ g.exprs, e.Everywhere P) (q : Query)
    (s : PlanState) :
    Plan.Keeps (scoping P) (q.plan g) s fun scan s' =>
      ∃ walks laterals, scan.Scoped P s'.stageNames walks laterals [] := by
  have he := planner_scopes hP hschema hg
  have hbranches := branches_keep (s := s) (fun _ _ _ _ h => h)
    (fun h s => ((he h).stage s).forget) q.branches
  refine hbranches.bind fun _ s1 _ _ => ?_
  cases q.root with
  | relation id =>
    have hr : (Reading.ofBase (.relation id)).Scoped P s1 :=
      ⟨trivial, by simp [Reading.ofBase]⟩
    exact (scanReading_scopes hP (.none _) hschema hr (Names.knows_nil _)).mono
      fun scan s2 _ hscan => ⟨_, _, hscan⟩
  | node h =>
    exact ((he h).scan [] s1 (Names.knows_nil _)).mono fun scan s2 _ hscan => ⟨_, _, hscan⟩

lemma jsonRows_sites {tables named : List String}
    (hP : ∀ site : Site, site.Good tables → P site) {inner : Select}
    (h : ∀ site ∈ inner.sites named [], P site) :
    ∀ site ∈ (jsonRows inner).sites named [], P site := by
  rw [jsonRows, Statement.sites, Select.sites_eq, forall_mem_cons]
  refine ⟨hP _ (good_binds ?_ (.inl (by simp))), Select.single_clauseSites ?_ ?_⟩
  · change ["x"].Nodup
    simp
  · rwa [FromItem.sites, Statement.sites]
  · rw [forall_mem_singleton, rowToJson_sites, forall_mem_singleton]
    exact hP _ (good_uses mem_cons_self)

/-- A name that is given to a statement is none of those before, and is not that of a relation. -/
lemma stageNames_good {schema : Schema} (hschema : schema.Unnumbered) {n : Nat}
    {names before after : List String} {name : String}
    (hnames : names = (List.range n).map fun i => numberedName 't' (i + 1))
    (hsplit : names = before ++ name :: after) :
    name ∉ schema.tableNames ∧ name ∉ before := by
  have hnodup : names.Nodup := hnames ▸ stageNames_nodup n
  refine ⟨fun hmem => ?_, ?_⟩
  · have hname : name ∈ names := by simp [hsplit]
    rw [hnames] at hname
    obtain ⟨i, -, rfl⟩ := mem_map.mp hname
    exact hschema.of_mem hmem _ (by decide) _ rfl
  · grind

/-- **The sites of the statement of a query.** The named statements are numbered, each has sites as
stated where it sees those before it, and so has the statement as a whole. -/
lemma toStatement_sites (hP : ∀ site : Site, site.Good g.schema.tableNames → P site)
    (hschema : g.schema.Unnumbered) (hg : ∀ e ∈ g.exprs, e.Everywhere P)
    (h : q.toStatement g = .ok statement) :
    (∃ n, statement.ctes.map (·.name) = (List.range n).map fun i => numberedName 't' (i + 1)) ∧
      (∀ before cte after, statement.ctes = before ++ cte :: after →
        ∀ site ∈ cte.statement.sites (before.map (·.name)) [], P site) ∧
      ∀ site ∈ statement.sites [] [], P site := by
  obtain ⟨⟨scan, s⟩, hplan, heq⟩ := Except.bind_ok h
  obtain ⟨hs, -, walks, laterals, hscan⟩ :=
    plan_scopes hP hschema hg q .initial (initial_scoped P) scan s hplan
  cases heq
  set stages := widenStages s.required s.stages with hstages
  have hnames : stages.map (·.name) = s.stageNames :=
    map_name_of_forall₂ (widenStages_given s.required s.stages)
  have hctes : (withStages stages (jsonRows scan.select)).ctes =
      stages.map fun s => ⟨s.name, s.statement⟩ := withStages_ctes _ _
  have hcteNames : (withStages stages (jsonRows scan.select)).ctes.map (·.name) =
      (List.range s.names.stages).map fun i => numberedName 't' (i + 1) := by
    rw [hctes, map_map, ← hs.names, ← hnames]
    rfl
  have hplace : Position s.stageNames walks laterals [] s.stageNames [] :=
    (hs.position walks).weaken (fun _ => id) (Nat.le_refl _) (Nat.zero_le _)
  have heach : ∀ before cte after,
      (withStages stages (jsonRows scan.select)).ctes = before ++ cte :: after →
        ∀ site ∈ cte.statement.sites (before.map (·.name)) [], P site := by
    intro before cte after hsplit
    rw [hctes] at hsplit
    obtain ⟨front, rest, hlist, rfl, hrest⟩ := map_eq_append_iff.mp hsplit
    obtain ⟨stage, more, rfl, rfl, -⟩ := map_eq_cons_iff.mp hrest
    have h := hs.widened hP s.required (hstages.symm.trans hlist)
    rwa [map_map]
  refine ⟨⟨_, hcteNames⟩, heach, ?_⟩
  have hbody := jsonRows_sites hP (hscan.sites hP s.stageNames [] hplace)
  cases hlist : stages with
  | nil =>
    rw [hlist] at hnames
    rwa [← hnames] at hbody
  | cons stage rest =>
    change ∀ site ∈ (Statement.withCtes false
      ((stage :: rest).map fun s => ⟨s.name, s.statement⟩) (jsonRows scan.select)).sites [] [],
        P site
    rw [Statement.sites, forall_mem_append, ← hlist, ← hctes]
    constructor
    · rw [if_neg (by simp), Cte.sitesEach_forall]
      intro before cte after hsplit
      have hsplitNames := congrArg (List.map (·.name)) hsplit
      rw [map_append] at hsplitNames
      exact ⟨hP _ ⟨trivial, stageNames_good hschema hcteNames hsplitNames⟩,
        heach before cte after hsplit⟩
    · rwa [hcteNames, ← hs.names]

/-- **Statements are closed.** Let no relation have a name that may be made up, and let no condition
hold an expression that is taken as it is. Then the named statements of a query have different
names, none of which is that of a relation. Each of them reads no other table than relations and the
statements named before it, and uses no name of rows but those that are bound in it where it is
used: by the same SELECT, by the UPDATE or DELETE around it, or by a SELECT around it that is
visible there. The same holds of the statement as a whole. -/
theorem statement_resolves_names (hschema : g.schema.Unnumbered) (hg : g.NoExpr)
    (h : q.toStatement g = .ok statement) :
    (statement.ctes.map (·.name)).Nodup ∧
      (∀ cte ∈ statement.ctes, cte.name ∉ g.schema.tableNames) ∧
      (∀ before cte after, statement.ctes = before ++ cte :: after →
        ∀ site ∈ cte.statement.sites (before.map (·.name)) [],
          site.Resolved g.schema.tableNames) ∧
      ∀ site ∈ statement.sites [] [], site.Resolved g.schema.tableNames := by
  have hexprs : ∀ e ∈ g.exprs, e.Everywhere (Site.Resolved g.schema.tableNames) := by
    simp [Graph.exprs_of_noExpr hg]
  obtain ⟨⟨n, hnames⟩, hctes, hsites⟩ :=
    toStatement_sites (fun _ hgood => hgood.1) hschema hexprs h
  refine ⟨hnames ▸ stageNames_nodup n, fun cte hcte => ?_, hctes, hsites⟩
  obtain ⟨before, after, hsplit⟩ := append_of_mem (mem_map_of_mem hcte)
  exact (stageNames_good hschema hnames hsplit).1

/-- Folders: one is inserted, and is read with its parent and all that is in it, if its parent has a
given name and its own name is an operand. -/
def folderInsert (operand : Operand) : Graph where
  id := 0
  schema := ⟨0, [⟨"folder", [.primary "id", .scalar "name", .forward "parent" "folder",
    .reverse "children" "folder" "parent"]⟩]⟩
  nodes :=
    [.select (.ofSource (.node ⟨0, 1⟩) ⟨["name"], [("parent", .nested (.ofFields ["name"])),
          ("children", .recursive (.ofFields ["name"]) none)]⟩),
      .filter (.node ⟨0, 0⟩) (.all [.lookup "parent__name" (.value (.text "root")),
        .lookup "name" operand]),
      .insert ⟨0, 0⟩ (.values [("name", .value (.text "docs"))]) []]

lemma folderInsert_unnumbered (operand : Operand) :
    (folderInsert operand).schema.Unnumbered := by
  have hplain : (folderInsert operand).schema.PlainRelations := by
    simp [Schema.PlainRelations, folderInsert]
    rfl
  exact hplain.unnumbered

lemma folderInsert_exprs (x : Expr) : (folderInsert (.expr x)).exprs = [x] := by
  simp [Graph.exprs, folderInsert, Node.exprs, Condition.exprs, Condition.exprsEach]

lemma exists_ok_of_toOption {α β : Type} {x : Except Error α} {f : α → β} {b : β}
    (h : x.toOption.map f = some b) : ∃ a, x = .ok a ∧ f a = b := by
  cases x with
  | error e => cases h
  | ok a => exact ⟨a, rfl, Option.some.inj h⟩

/-- A folder is read under its own name, in lateral joins, in a condition and in a walk. -/
theorem statement_resolves_names_folder :
    ∃ statement : Statement,
      (⟨0, .node ⟨0, 2⟩, []⟩ : Query).toStatement (folderInsert (.value (.text "docs"))) =
          .ok statement ∧
        statement.ctes.map (·.name) = ["t1"] ∧
        ∀ site ∈ statement.sites [] [], site.Resolved ["folder"] := by
  have hg : (folderInsert (.value (.text "docs"))).NoExpr := by
    simp [Graph.NoExpr, folderInsert, Node.NoExpr, Condition.NoExpr, Condition.NoExprEach,
      Operand.NoExpr]
  obtain ⟨statement, hs, hnames⟩ : ∃ statement : Statement,
      (⟨0, .node ⟨0, 2⟩, []⟩ : Query).toStatement (folderInsert (.value (.text "docs"))) =
          .ok statement ∧ statement.ctes.map (·.name) = ["t1"] :=
    exists_ok_of_toOption (by decide +kernel)
  exact ⟨statement, hs, hnames,
    (statement_resolves_names (folderInsert_unnumbered _) hg hs).2.2.2⟩

/-- **Names do not hide each other.** Let no relation have a name that may be made up, and let
expressions that conditions take as they are do no harm by themselves. Then no name of a named
statement is that of a relation or of a statement that is visible there, no relation that is read is
hidden by a named statement, and the rows of each SELECT go by different names, which are none of
those around it unless it uses nothing of what is around it. -/
theorem statement_keeps_names_apart (hschema : g.schema.Unnumbered)
    (hg : ∀ e ∈ g.exprs, e.Everywhere (Site.Apart g.schema.tableNames))
    (h : q.toStatement g = .ok statement) :
    ∀ site ∈ statement.sites [] [], site.Apart g.schema.tableNames :=
  (toStatement_sites (fun _ hgood => hgood.2) hschema hg h).2.2

/-- The same folders, compared with an expression that is taken as it is. -/
theorem statement_keeps_names_apart_folder :
    ∃ statement : Statement,
      (⟨0, .node ⟨0, 2⟩, []⟩ : Query).toStatement
          (folderInsert (.expr (.of "t1" "name"))) = .ok statement ∧
        (folderInsert (.expr (.of "t1" "name"))).exprs = [.of "t1" "name"] ∧
        statement.ctes.map (·.name) = ["t1"] ∧
        ∀ site ∈ statement.sites [] [], site.Apart ["folder"] := by
  have hg : ∀ e ∈ (folderInsert (.expr (.of "t1" "name"))).exprs,
      e.Everywhere (Site.Apart ["folder"]) := by
    rw [folderInsert_exprs, forall_mem_singleton]
    intro named bound
    rw [of_sites, forall_mem_singleton]
    trivial
  obtain ⟨statement, hs, hnames⟩ : ∃ statement : Statement,
      (⟨0, .node ⟨0, 2⟩, []⟩ : Query).toStatement
          (folderInsert (.expr (.of "t1" "name"))) = .ok statement ∧
        statement.ctes.map (·.name) = ["t1"] :=
    exists_ok_of_toOption (by decide +kernel)
  exact ⟨statement, hs, folderInsert_exprs _, hnames,
    statement_keeps_names_apart (folderInsert_unnumbered _) hg hs⟩

end Queries

end StagedSql
