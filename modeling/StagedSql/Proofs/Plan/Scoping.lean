import StagedSql.Proofs.Plan.CoveredConditions
import StagedSql.Proofs.Sql.Scopes

/-!
Names that planning keeps apart.

Whatever is planned in a scope is put where the names of the scope are bound, and besides these only
names of lateral joins that were made up before. All this is about a property `P` of sites that good
sites have.
-/

namespace StagedSql

open List Plan

variable {name : String} {scope tables named bound : List String} {P : Site → Prop}
  {walks laterals : Nat} {s s' : PlanState} {schema : Schema}

/-! ### Names that are made up -/

/-- A name that is none of those that are made up. -/
def IsUnnumbered (name : String) : Prop :=
  ∀ letter ∈ generatedLetters, ∀ k, name ≠ numberedName letter k

/-- No relation has a name that may be made up. -/
def Schema.Unnumbered (schema : Schema) : Prop := ∀ r ∈ schema.relations, IsUnnumbered r.name

lemma Schema.PlainRelations.unnumbered (h : schema.PlainRelations) : schema.Unnumbered :=
  fun r hr _ hl _ => ne_numberedName (h r hr) hl

namespace Names

variable {letter : Char}

/-- How many names have been made up with a letter. -/
def count (n : Names) : Char → Nat
  | 'r' => n.relations
  | 'j' => n.laterals
  | 'u' => n.unions
  | 'c' => n.walks
  | 'v' => n.values
  | _ => 0

/-- More names have been made up. -/
structure Le (n n' : Names) : Prop where
  relations : n.relations ≤ n'.relations
  laterals : n.laterals ≤ n'.laterals
  unions : n.unions ≤ n'.unions
  walks : n.walks ≤ n'.walks
  values : n.values ≤ n'.values

/-- A name that a scope may hold: one of a relation or a stage, or one that has been made up for a
relation, a union, a walk or rows that are written out. -/
inductive Made (n : Names) : String → Prop
  | plain {name : String} (h : IsUnnumbered name) : Made n name
  | stage (k : Nat) : Made n (numberedName 't' k)
  | numbered {letter : Char} {k : Nat} (hl : letter ∈ ['r', 'u', 'c', 'v'])
      (hk : k ≤ n.count letter) : Made n (numberedName letter k)

/-- A scope holds no other names. -/
def Knows (n : Names) (scope : List String) : Prop := ∀ name ∈ scope, n.Made name

variable {n n' n'' : Names}

lemma Le.refl (n : Names) : n.Le n :=
  ⟨le_rfl, le_rfl, le_rfl, le_rfl, le_rfl⟩

lemma Le.trans (h : n.Le n') (h' : n'.Le n'') : n.Le n'' :=
  ⟨h.relations.trans h'.relations, h.laterals.trans h'.laterals,
    h.unions.trans h'.unions, h.walks.trans h'.walks,
    h.values.trans h'.values⟩

lemma Le.count (h : n.Le n') (letter : Char) : n.count letter ≤ n'.count letter := by
  unfold Names.count
  split
  · exact h.relations
  · exact h.laterals
  · exact h.unions
  · exact h.walks
  · exact h.values
  · exact le_rfl

lemma Made.mono (h : n.Made name) (hle : n.Le n') : n'.Made name := by
  cases h with
  | plain h => exact .plain h
  | stage k => exact .stage k
  | numbered hl hk => exact .numbered hl (hk.trans (hle.count _))

/-- A name that is still to be made up is not in a scope. -/
lemma Made.ne_fresh (h : n.Made name) {k : Nat} (hl : letter ∈ generatedLetters) (ht : letter ≠ 't')
    (hk : n.count letter < k) : name ≠ numberedName letter k := by
  cases h with
  | plain h => exact h _ hl k
  | stage m => exact numberedName_ne (Ne.symm ht) m k
  | numbered _ hm =>
    intro he
    obtain ⟨rfl, rfl⟩ := numberedName_inj.mp he
    omega

lemma Made.ne_label (h : n.Made name) (hl : letter ∈ ['j', 'a']) (k : Nat) :
    name ≠ numberedName letter k := by
  have hgen : letter ∈ generatedLetters := by
    have hsub : ∀ l ∈ ['j', 'a'], l ∈ generatedLetters := by simp [generatedLetters]
    exact hsub letter hl
  have hother : ∀ l ∈ ['r', 'u', 'c', 'v', 't'], l ≠ letter := by
    grind
  cases h with
  | plain h => exact h _ hgen k
  | stage m => exact numberedName_ne (hother 't' (by decide)) m k
  | numbered hm _ => exact numberedName_ne (hother _ (mem_append_left ['t'] hm)) _ k

lemma Knows.mono (h : n.Knows scope) (hle : n.Le n') : n'.Knows scope :=
  fun name hmem => (h name hmem).mono hle

lemma Knows.append (h : n.Knows scope) (hname : n.Made name) : n.Knows (scope ++ [name]) := by
  intro q hq
  rcases mem_append.mp hq with hq | hq
  · exact h q hq
  · rwa [mem_singleton.mp hq]

lemma knows_nil (n : Names) : n.Knows [] := by simp [Knows]

end Names

/-! ### Positions -/

/-- **Where something that was planned in a scope may be put.** The given tables have names there,
names of WITH clauses are those of stages and of walks that began before, and the names of rows are
those of the scope and of lateral joins that were made up before. -/
structure Position (tables : List String) (walks laterals : Nat) (scope named bound : List String) :
    Prop where
  sees : ∀ t ∈ tables, t ∈ named
  names : ∀ t ∈ named, IsStageName t ∨ ∃ k ≤ walks, t = numberedName 'c' k
  binds : ∀ q ∈ scope, q ∈ bound
  only : ∀ q ∈ bound, q ∈ scope ∨ ∃ k ≤ laterals, q = numberedName 'j' k

/-- Wherever it may be put, the sites are as stated. -/
def Placed (P : Site → Prop) (tables : List String) (walks laterals : Nat) (scope : List String)
    (sites : List String → List String → List Site) : Prop :=
  ∀ named bound, Position tables walks laterals scope named bound →
    ∀ site ∈ sites named bound, P site

section Positions

variable {more : List String} {walks' laterals' : Nat} {scope' : List String} {q : String}

namespace Position

lemma weaken (h : Position more walks' laterals' scope named bound)
    (ht : ∀ t ∈ tables, t ∈ more) (hw : walks' ≤ walks) (hl : laterals' ≤ laterals) :
    Position tables walks laterals scope named bound := by
  refine ⟨fun t hmem => h.sees t (ht t hmem), fun t hmem => ?_, h.binds, fun q hq => ?_⟩
  · rcases h.names t hmem with hs | ⟨k, hk, rfl⟩
    · exact .inl hs
    · exact .inr ⟨k, hk.trans hw, rfl⟩
  · rcases h.only q hq with hs | ⟨k, hk, rfl⟩
    · exact .inl hs
    · exact .inr ⟨k, hk.trans hl, rfl⟩

variable (h : Position tables walks laterals scope named bound)

include h

lemma bind (hscope : ∀ name, name ∈ scope' ↔ name ∈ scope ∨ name = q) :
    Position tables walks laterals scope' named (q :: bound) := by
  refine ⟨h.sees, h.names, fun name hname => ?_, fun name hname => ?_⟩
  · rcases (hscope name).mp hname with hs | rfl
    · exact .tail _ (h.binds name hs)
    · exact mem_cons_self
  · rcases mem_cons.mp hname with rfl | hname
    · exact .inl ((hscope name).mpr (.inr rfl))
    · rcases h.only name hname with hs | hj
      · exact .inl ((hscope name).mpr (.inl hs))
      · exact .inr hj

lemma label (hl : laterals ≤ laterals') :
    Position tables walks laterals' scope named (numberedName 'j' laterals' :: bound) := by
  have h' := h.weaken (fun t ht => ht) le_rfl hl
  refine ⟨h'.sees, h'.names, fun q hq => .tail _ (h'.binds q hq), fun q hq => ?_⟩
  rcases mem_cons.mp hq with rfl | hq
  · exact .inr ⟨laterals', le_rfl, rfl⟩
  · exact h'.only q hq

lemma alone : Position tables walks 0 [] named [] :=
  ⟨h.sees, h.names, by simp, by simp⟩

/-- A name is not bound if it is not in the scope and not one of a lateral join. -/
lemma not_mem (hscope : q ∉ scope) (hj : ∀ k, q ≠ numberedName 'j' k) : q ∉ bound := by
  intro hq
  rcases h.only q hq with hs | ⟨k, -, rfl⟩
  · exact hscope hs
  · exact hj k rfl

end Position

lemma Placed.mono {sites : List String → List String → List Site}
    (h : Placed P tables walks laterals scope sites) (ht : ∀ t ∈ tables, t ∈ more)
    (hw : walks' ≤ walks) (hl : laterals' ≤ laterals) :
    Placed P more walks' laterals' scope sites :=
  fun named bound hplace => h named bound (hplace.weaken ht hw hl)

/-- The names of a list that is put after others are those of a scope with one more name. -/
lemma mem_append_singleton : name ∈ scope ++ [q] ↔ name ∈ scope ∨ name = q := by
  rw [mem_append, mem_singleton]

end Positions

/-! ### The law -/

namespace PlanState

/-- **Names are kept apart**: stages are numbered in order and have sites as stated, given the names
of the stages before, and all that is noted leads to stages. -/
structure Scoped (P : Site → Prop) (s : PlanState) : Prop where
  names : s.stageNames = (List.range s.names.stages).map fun i => numberedName 't' (i + 1)
  sites : ∀ before stage after, s.stages = before ++ stage :: after →
    ∀ site ∈ stage.statement.sites (before.map (·.name)) [], P site
  selects : ∀ stage ∈ s.stages, ∀ select, stage.statement = .select select →
    select.qualifiers.Nodup ∧ ∀ q, stage.qualifier = some q → q ∈ select.qualifiers
  staged : ∀ e ∈ s.staged, e.2 ∈ s.stageNames
  pages : ∀ e ∈ s.pages, e.2 ∈ s.stageNames
  written : ∀ e ∈ s.written, ∀ m ∈ e.2, m ∈ s.stageNames
  parents : ∀ p ∈ s.parents, p.stage ∈ s.stageNames

/-- There are more names and stages. -/
structure Lengthens (s s' : PlanState) : Prop where
  names : s.names.Le s'.names
  stages : s.Longer s'

/-- Nothing changes but that there are more names and that more is noted of what is read. -/
structure Shifts (s s' : PlanState) : Prop extends s.Quiet s' where
  names : s.names.Le s'.names := by constructor <;> simp

variable {s'' : PlanState}

lemma Lengthens.refl (s : PlanState) : s.Lengthens s := ⟨.refl _, .of_stages rfl⟩

lemma Lengthens.trans (h : s.Lengthens s') (h' : s'.Lengthens s'') : s.Lengthens s'' :=
  ⟨h.names.trans h'.names, h.stages.trans h'.stages⟩

lemma Lengthens.mem_stageNames (h : s.Lengthens s') :
    ∀ name ∈ s.stageNames, name ∈ s'.stageNames :=
  fun _ => h.stages.mem_stageNames

lemma Scoped.isStageName (h : s.Scoped P) (hn : name ∈ s.stageNames) : IsStageName name :=
  isStageName_of_mem (h.names ▸ hn)

lemma Shifts.lengthens (h : s.Shifts s') : s.Lengthens s' :=
  ⟨h.names, .of_stages h.stages⟩

lemma Shifts.scoped (h : s.Shifts s') (hs : s.Scoped P) : s'.Scoped P := by
  have hnames : s'.stageNames = s.stageNames := by rw [stageNames, stageNames, h.stages]
  refine ⟨?_, ?_, ?_, ?_, ?_, ?_, ?_⟩
  · rw [hnames, h.count]
    exact hs.names
  · rw [h.stages]
    exact hs.sites
  · rw [h.stages]
    exact hs.selects
  · rw [h.staged, hnames]
    exact hs.staged
  · rw [h.pages, hnames]
    exact hs.pages
  · rw [h.written, hnames]
    exact hs.written
  · rw [h.parents, hnames]
    exact hs.parents

end PlanState

/-- The law of planning: names are kept apart. -/
def scoping (P : Site → Prop) : Law where
  holds s := s.Scoped P
  grows s s' := s.Lengthens s'
  refl s := .refl s
  trans h h' := h.trans h'

section Shifts

variable {α β : Type} {x : Plan α} {a : α}

lemma Plan.Keeps.of_shifts {post : α → PlanState → Prop} (hx : x s = .ok (a, s'))
    (hn : s.Shifts s') (h : post a s') : Keeps (scoping P) x s post :=
  .of_run hx hn.scoped hn.lengthens h

lemma Plan.Keeps.shifts_bind {f : α → Plan β} {post : β → PlanState → Prop}
    (hx : x s = .ok (a, s')) (hn : s.Shifts s') (h : Keeps (scoping P) (f a) s' post) :
    Keeps (scoping P) (x >>= f) s post :=
  .run_bind hx hn.scoped hn.lengthens h

lemma need_scopes (stage : Option String) (column : String) :
    Keeps (scoping P) (need stage column) s fun _ s' => s'.names = s.names := by
  cases stage with
  | none => exact .of_pure rfl
  | some name => exact .of_shifts rfl {} rfl

lemma needAll_scopes (name : String) :
    Keeps (scoping P) (needAll name) s fun _ _ => True :=
  .of_shifts rfl {} trivial

lemma needAllIfEmpty_scopes (o : Opened) (selection : Selection) :
    Keeps (scoping P) (o.needAllIfEmpty selection) s fun _ _ => True := by
  rw [Opened.needAllIfEmpty]
  split
  · exact needAll_scopes _
  · exact .of_pure trivial

lemma qualify_scopes (hk : s.names.Knows scope) (hname : s.names.Made name) :
    Keeps (scoping P) (qualify name scope) s fun q s' =>
      q ∉ scope ∧ s'.names.Made q := by
  by_cases h : name ∈ scope
  · refine .of_shifts (qualify_mem h s) {} ⟨fun hmem => ?_, ?_⟩
    · exact (hk _ hmem).ne_fresh (by decide) (by decide) (Nat.lt_succ_self s.names.relations) rfl
    · exact .numbered (by decide) (Nat.le_refl (s.names.relations + 1))
  · refine .of_shifts (qualify_not_mem h s) {} ⟨h, hname⟩

end Shifts

/-! ### Good sites -/

def Schema.tableNames (schema : Schema) : List String := schema.relations.map (·.name)

lemma Schema.Unnumbered.of_mem (hschema : schema.Unnumbered)
    (h : name ∈ schema.tableNames) : IsUnnumbered name := by
  obtain ⟨r, hr, rfl⟩ := mem_map.mp h
  exact hschema r hr

section Scans

variable (h : Position tables walks laterals scope named bound) (hschema : schema.Unnumbered)

include h hschema

lemma Position.scans_relation {r : Relation} (hr : r ∈ schema.relations) :
    (Site.scans r.name named).Good schema.tableNames := by
  refine ⟨.inr (mem_map_of_mem hr), fun _ hmem => ?_⟩
  rcases h.names _ hmem with ⟨k, hk⟩ | ⟨k, -, hk⟩
  · exact hschema r hr _ (by decide) k hk
  · exact hschema r hr _ (by decide) k hk

lemma Position.scans_table {table : String} (ht : table ∈ tables) :
    (Site.scans table named).Good schema.tableNames := by
  have hmem := h.sees table ht
  refine ⟨.inl hmem, fun hrelation => ?_⟩
  have hplain := hschema.of_mem hrelation
  rcases h.names table hmem with ⟨k, hk⟩ | ⟨k, -, hk⟩
  · exact absurd hk (hplain _ (by decide) k)
  · exact absurd hk (hplain _ (by decide) k)

end Scans

lemma good_uses (h : name ∈ bound) : (Site.uses name bound).Good tables :=
  ⟨h, trivial⟩

lemma of_good (hP : ∀ site : Site, site.Good tables → P site) (h : name ∈ bound) (c : String) :
    ∀ site ∈ (Expr.of name c).sites named bound, P site := by
  rw [of_sites, forall_mem_singleton]
  exact hP _ (good_uses h)

lemma good_binds {s : Select} (hnodup : s.qualifiers.Nodup)
    (h : (∀ q ∈ s.qualifiers, q ∉ bound) ∨ s.Closed) : (Site.binds s bound).Good tables :=
  ⟨trivial, hnodup, h⟩

lemma stageRows_closed (name : String) :
    Select.Closed { Select.empty with source := some (.table name none) } := by
  tauto

lemma stageRows_good (hplace : Position tables walks laterals scope named bound)
    (hschema : schema.Unnumbered) (h : name ∈ tables) :
    ∀ site ∈ (stageRows name).sites named bound, site.Good schema.tableNames := by
  rw [stageRows, Statement.sites, Select.sites_eq, forall_mem_cons]
  refine ⟨good_binds (by simp [Select.qualifiers, Select.empty]) (.inr (stageRows_closed name)),
    Select.single_clauseSites ?_ ?_⟩
  · simpa [FromItem.sites] using hplace.scans_table hschema h
  · simp [Select.empty]

lemma valueRows_sites (types : List (Option String)) (rows : List (List Value))
    (named bound : List String) (P : Site → Prop) :
    ∀ site ∈ Expr.sitesRows named bound (valueRows types rows), P site := by
  rw [Expr.sitesRows_forall]
  intro row hrow e he
  obtain ⟨v, type, rfl⟩ := typedParam_of_mem_valueRows hrow he
  cases type <;> simp [typedParam, Expr.sites]

/-! ### FROM items -/

/-- What is known of a base: its stages are there. Walks are opened by their lookups. -/
def Base.Scoped (s : PlanState) : Base → Prop
  | .stage name => name ∈ s.stageNames
  | .union members _ => ∀ m ∈ members, m ∈ s.stageNames
  | .walk _ _ => False
  | _ => True

/-- A FROM item goes by a name that is not in the scope, and its sites are as stated. -/
structure Opened.Scoped (P : Site → Prop) (s : PlanState) (scope : List String) (o : Opened) :
    Prop where
  qualifier : o.item.qualifier = o.qualifier
  fresh : o.qualifier ∉ scope
  made : s.names.Made o.qualifier
  item : ∀ walks laterals, Placed P s.stageNames walks laterals scope
    fun named bound => o.item.sites named bound

lemma Opened.Scoped.mono {o : Opened} (h : o.Scoped P s scope)
    (hx : s.Lengthens s') : o.Scoped P s' scope :=
  ⟨h.qualifier, h.fresh, h.made.mono hx.names, fun walks laterals =>
    (h.item walks laterals).mono hx.mem_stageNames le_rfl le_rfl⟩

lemma FromItem.bound_fst (item : FromItem) : item.bound.1 = item.qualifier := by
  cases item with
  | table name label => cases label <;> rfl
  | derived query label columns => rfl

section Opened

variable (hP : ∀ site : Site, site.Good schema.tableNames → P site) (hschema : schema.Unnumbered)

include hP hschema

lemma tableItem_scoped {table q : String} {r : Relation} {stage : Option String}
    (ht : table ∈ s.stageNames ∨ ∃ r ∈ schema.relations, r.name = table) (hfresh : q ∉ scope)
    (hmade : s.names.Made q) : Opened.Scoped P s scope ⟨tableItem table q, q, r, stage⟩ := by
  refine ⟨?_, hfresh, hmade, fun walks laterals named bound hplace => ?_⟩
  · rw [← FromItem.bound_fst, tableItem_bound]
  · have hgood : (Site.scans table named).Good schema.tableNames := by
      rcases ht with ht | ⟨r, hr, rfl⟩
      · exact hplace.scans_table hschema ht
      · exact hplace.scans_relation hschema hr
    simpa [tableItem, FromItem.sites] using hP _ hgood

/-- **A base as a FROM item.** -/
lemma openBase_scopes {base : Base} (hb : base.Scoped s) (hk : s.names.Knows scope) :
    Keeps (scoping P) (openBase schema base scope) s fun o s' => o.Scoped P s' scope := by
  cases base with
  | relation id =>
    refine .lift_bind fun r hr => ?_
    have hmem := Schema.mem_of_relation hr
    refine (qualify_scopes hk (.plain (hschema r hmem))).bind fun q s1 _ ⟨hfresh, hmade⟩ => ?_
    exact .of_pure (tableItem_scoped hP hschema (.inr ⟨r, hmem, rfl⟩) hfresh hmade)
  | stage name =>
    refine .of_holds fun hs => .get_bind ?_
    obtain ⟨n, hn⟩ := hs.isStageName hb
    have hmade : s.names.Made name := by
      rw [hn]
      exact .stage n
    refine (qualify_scopes hk hmade).bind fun q s1 hx ⟨hfresh, hmade⟩ => ?_
    exact .of_pure (tableItem_scoped hP hschema (.inl (hx.mem_stageNames name hb)) hfresh hmade)
  | values columns rows types =>
    refine .shifts_bind rfl {} (.of_pure ⟨rfl, fun hmem => ?_, ?_, ?_⟩)
    · exact (hk _ hmem).ne_fresh (by decide) (by decide) (Nat.lt_succ_self s.names.values) rfl
    · exact .numbered (by decide) (Nat.le_refl (s.names.values + 1))
    · exact fun walks laterals named bound _ => valueRows_sites _ rows named bound P
  | union members id =>
    refine .shifts_bind rfl {} ?_
    have hall : Keeps (scoping P) (members.forM needAll)
        { s with names := { s.names with unions := s.names.unions + 1 } } fun _ _ =>
          ∀ m ∈ members, True :=
      .forM (fun _ _ _ _ h => h) fun m _ s1 _ => needAll_scopes m
    refine hall.bind fun _ s1 hx _ => .lift_bind fun r _ => .of_pure ⟨rfl, fun hmem => ?_, ?_, ?_⟩
    · exact (hk _ hmem).ne_fresh (by decide) (by decide) (Nat.lt_succ_self s.names.unions) rfl
    · exact .numbered (by decide) hx.names.unions
    · intro walks laterals named bound hplace
      change ∀ site ∈ Statement.sitesEach named bound (members.map stageRows), P site
      rw [Statement.sitesEach_forall]
      intro statement hmem site hsite
      obtain ⟨m, hm, rfl⟩ := mem_map.mp hmem
      have hstage := hx.mem_stageNames m (hb m hm)
      exact hP site (stageRows_good hplace hschema hstage site hsite)
  | walk name id => exact hb.elim

end Opened

open Condition

/-! ### The nodes before -/

/-- Wherever an expression is put, its sites are as stated. -/
def Expr.Everywhere (P : Site → Prop) (e : Expr) : Prop :=
  ∀ named bound, ∀ site ∈ e.sites named bound, P site

/-- A SELECT whose rows go by different names, none of which is bound where it may be put. The sites
of its clauses are as stated. -/
structure Scan.Scoped (P : Site → Prop) (tables : List String) (walks laterals : Nat)
    (scope : List String) (scan : Scan) : Prop where
  own : scan.qualifier ∈ scan.select.qualifiers
  nodup : scan.select.qualifiers.Nodup
  apart : ∀ named bound, Position tables walks laterals scope named bound →
    ∀ q ∈ scan.select.qualifiers, q ∉ bound
  clauses : Placed P tables walks laterals scope
    fun named bound => scan.select.clauseSites named bound

/-- What is known of a reading: its base, and that expressions which its conditions take as they are
have sites as stated. -/
structure Reading.Scoped (P : Site → Prop) (s : PlanState) (r : Reading) : Prop where
  base : r.base.Scoped s
  exprs : ∀ c ∈ r.conditions, ∀ e ∈ c.exprs, e.Everywhere P

/-- **What is said of nodes**: planning them keeps names apart, and what is made of them has sites
as stated. -/
def scopedNodes (P : Site → Prop) : NodeLaw where
  law := scoping P
  Staged _ name s := name ∈ s.stageNames
  Paged _ name s := name ∈ s.stageNames
  Reads _ _ r s := r.Scoped P s
  Scope scope s := s.names.Knows scope
  Scans _ scope s scan s' := scan.Scoped P s'.stageNames s.names.walks s.names.laterals scope
  Selects _ s statement s' :=
    Placed P s'.stageNames s.names.walks 0 [] fun named bound => statement.sites named bound

/-! ### Conditions -/

/-- An expression whose sites are as stated wherever a scope is bound, whichever lateral joins are
bound besides. -/
def Expr.ScopedIn (P : Site → Prop) (tables : List String) (walks : Nat) (scope : List String)
    (e : Expr) : Prop :=
  ∀ laterals, Placed P tables walks laterals scope fun named bound => e.sites named bound

section Conditions

variable {P : Site → Prop} {schema : Schema} {earlier : Earlier} {s : PlanState}
  {tables more scope named bound : List String} {walks walks' : Nat} {q key : String}
  {e column : Expr} {op : Operator} {operand : Operand}

lemma Expr.ScopedIn.mono (h : e.ScopedIn P tables walks scope) (ht : ∀ t ∈ tables, t ∈ more)
    (hw : walks' ≤ walks) : e.ScopedIn P more walks' scope :=
  fun laterals => (h laterals).mono ht hw le_rfl

lemma compareQuery_sites {query : Statement} (h : compareQuery key column op query = .ok e)
    (hcolumn : ∀ site ∈ column.sites named bound, P site)
    (hquery : ∀ site ∈ query.sites named [], P site) : ∀ site ∈ e.sites named bound, P site := by
  cases op <;> simp only [compareQuery, Except.ok.injEq, reduceCtorEq] at h <;> subst h <;>
    simp only [Expr.sites, forall_mem_append] <;> exact ⟨hcolumn, hquery⟩

lemma compareValue_sites {v : Value} (h : compareValue key column op v = .ok e)
    (hcolumn : ∀ site ∈ column.sites named bound, P site) :
    ∀ site ∈ e.sites named bound, P site := by
  have hparams : ∀ items : List Value,
      ∀ site ∈ Expr.sitesEach named bound (items.map .param), P site := by
    intro items
    rw [Expr.sitesEach_forall]
    intro x hx
    obtain ⟨v, -, rfl⟩ := mem_map.mp hx
    simp [Expr.sites]
  cases op <;> cases v <;> simp only [compareValue, Except.ok.injEq, reduceCtorEq] at h <;>
    subst h <;> simp only [Expr.sites, append_nil, forall_mem_append] <;>
    first | exact hcolumn | exact ⟨hcolumn, hparams _⟩

lemma compareExpr_sites {x : Expr} (h : compareExpr key column op x = .ok e)
    (hcolumn : ∀ site ∈ column.sites named bound, P site)
    (hx : ∀ site ∈ x.sites named bound, P site) : ∀ site ∈ e.sites named bound, P site := by
  cases op <;> simp only [compareExpr, Except.ok.injEq, reduceCtorEq] at h <;> subst h <;>
    simp only [Expr.sites, Expr.sitesEach, append_nil, forall_mem_append] <;>
    exact ⟨hcolumn, hx⟩

variable (hP : ∀ site : Site, site.Good schema.tableNames → P site)

include hP

lemma leaf_scopes (he : earlier.Meets (scopedNodes P)) (key : String) (path : LookupKey)
    (ho : ∀ x, operand = .expr x → x.Everywhere P) (r : Relation) (hq : q ∈ scope) :
    Keeps (scoping P) (leaf earlier.context key path operand r q) s
      fun e s' => e.ScopedIn P s'.stageNames s.names.walks scope := by
  rw [leaf]
  split
  · dsimp only
    split
    · exact .throw_bind
    · cases operand with
      | expr x =>
        refine .of_lift fun e h laterals named bound hplace => ?_
        exact compareExpr_sites h (of_good hP (hplace.binds q hq) _) (ho x rfl named bound)
      | value v =>
        refine .of_lift fun e h laterals named bound hplace => ?_
        exact compareValue_sites h (of_good hP (hplace.binds q hq) _)
      | query h =>
        refine ((he h).subselect s).bind fun statement s1 _ hsites => ?_
        refine .of_lift fun e h laterals named bound hplace => ?_
        exact compareQuery_sites h (of_good hP (hplace.binds q hq) _)
          (hsites named [] hplace.alone)
  · exact .of_throw

lemma existsRow_scopes (hschema : schema.Unnumbered) {related : Relation}
    (hrelated : related ∈ schema.relations) {name : String} (hfresh : name ∉ scope)
    (hj : ∀ k, name ≠ numberedName 'j' k) {link inner : Expr}
    (hlink : link.ScopedIn P tables walks (scope ++ [name]))
    (hinner : inner.ScopedIn P tables walks (scope ++ [name])) :
    (existsRow (tableItem related.name name) link inner).ScopedIn P tables walks
      scope := by
  intro laterals named bound hplace
  have hitem : (tableItem related.name name).qualifier = name := by
    rw [← FromItem.bound_fst, tableItem_bound]
  have hplace' : Position tables walks laterals (scope ++ [name]) named (name :: bound) :=
    hplace.bind fun _ => mem_append_singleton
  have hscan := hP _ (hplace.scans_relation hschema hrelated)
  change ∀ site ∈ (existsRow (tableItem related.name name) link inner).sites named bound, P site
  rw [existsRow, Expr.sites, Statement.sites, Select.sites_eq, forall_mem_cons]
  refine ⟨hP _ (good_binds ?_ (.inl ?_)),
    Select.filter_clauseSites (Select.filter_clauseSites (Select.single_clauseSites ?_ ?_) ?_) ?_⟩
  · change [(tableItem related.name name).qualifier].Nodup
    simp
  · change ∀ q ∈ [(tableItem related.name name).qualifier], q ∉ bound
    simpa [hitem] using hplace.not_mem hfresh hj
  · simpa [tableItem, FromItem.sites] using hscan
  · simp [Expr.int, Expr.sites]
  · change ∀ site ∈ link.sites named ((tableItem related.name name).qualifier :: bound), P site
    rw [hitem]
    exact hlink laterals named _ hplace'
  · change ∀ site ∈ inner.sites named ((tableItem related.name name).qualifier :: bound), P site
    rw [hitem]
    exact hinner laterals named _ hplace'

lemma link_scopedIn {q1 q2 a b : String} (h1 : q1 ∈ scope) (h2 : q2 ∈ scope) :
    (Expr.binary .eq (.of q1 a) (.of q2 b)).ScopedIn P tables walks scope := by
  intro laterals named bound hplace
  exact binary_sites _ _ _ (of_good hP (hplace.binds q1 h1) a) (of_good hP (hplace.binds q2 h2) b)

/-- A key is followed by rows inside one another, each under a name of its own. -/
lemma follow_scopes (he : earlier.Meets (scopedNodes P)) (hschema : schema.Unnumbered)
    (key : String) (path : LookupKey) (ho : ∀ x, operand = .expr x → x.Everywhere P)
    (links : List String) :
    ∀ {s : PlanState} (owner : Relation) {q : String} {scope : List String}, q ∈ scope →
      s.names.Knows scope → Keeps (scoping P)
        (follow earlier.context schema key path operand links owner q scope) s
        fun e s' => e.ScopedIn P s'.stageNames s.names.walks scope := by
  induction links with
  | nil => exact fun owner _ _ hq _ => leaf_scopes hP he key path ho owner hq
  | cons segment rest ih =>
    intro s owner q scope hq hk
    refine .lift_bind fun ⟨c, related⟩ htarget => ?_
    have hrelated := (target_eq_ok htarget).2
    refine (qualify_scopes hk (.plain (hschema related hrelated))).bind
      fun name s1 hx1 ⟨hfresh, hmade⟩ => ?_
    have hname : name ∈ scope ++ [name] := by simp
    have hq' : q ∈ scope ++ [name] := mem_append_left _ hq
    refine (ih related hname ((hk.mono hx1.names).append hmade)).bind
      fun inner s2 _ hinner => .of_pure ?_
    refine existsRow_scopes hP hschema hrelated hfresh (hmade.ne_label (by decide)) ?_
      (hinner.mono (fun _ => id) hx1.names.walks)
    rw [linkTo]
    split
    · exact link_scopedIn hP hname hq'
    · exact link_scopedIn hP hname hq'

/-- What is said of conditions: sites in a scope are as stated. -/
def scopedConditions (P : Site → Prop) (scope : List String) : ConditionLaw where
  law := scoping P
  Known s := s.names.Knows scope
  Taken x := x.Everywhere P
  Says _ s e s' := e.ScopedIn P s'.stageNames s.names.walks scope
  SaysEach _ s es s' := ∀ e ∈ es, e.ScopedIn P s'.stageNames s.names.walks scope

lemma scopes_conditionRules (he : earlier.Meets (scopedNodes P)) (hschema : schema.Unnumbered)
    (r : Relation) (hq : q ∈ scope) :
    (scopedConditions P scope).Rules schema earlier r q scope where
  mono hx hk := hk.mono hx.names
  lookup hk ho := .lift_bind fun path _ => follow_scopes hP he hschema _ path ho path.joins r hq hk
  nil _ := by simp [scopedConditions]
  cons hx1 hx2 hfirst hrest := forall_mem_cons.mpr ⟨hfirst.mono hx2.mem_stageNames le_rfl,
      fun x hx => (hrest x hx).mono (fun _ => id) hx1.names.walks⟩
  all hes laterals named bound hplace := getD_sites
    (Expr.conjunction?_of binary_sites paren_sites fun e he => hes e he laterals named bound hplace)
    (by simp [Expr.bool, Expr.sites])
  any hes laterals named bound hplace := getD_sites
    (Expr.disjunction?_of binary_sites paren_sites fun e he => hes e he laterals named bound hplace)
    (by simp [Expr.bool, Expr.sites])
  not hscoped laterals named bound hplace := by
    tauto

/-- **A condition in a scope** that holds the name of the rows it is about. -/
lemma toSql_scopes (he : earlier.Meets (scopedNodes P)) (hschema : schema.Unnumbered) (r : Relation)
    (hq : q ∈ scope) {c : Condition} (hc : ∀ x ∈ c.exprs, x.Everywhere P)
    (hk : s.names.Knows scope) :
    Keeps (scoping P) (c.toSql earlier.context schema r q scope) s fun e s' =>
      e.ScopedIn P s'.stageNames s.names.walks scope := by
  have hscope : addOnce scope q = scope := by simp [addOnce, hq]
  rw [toSql, hscope]
  exact (scopes_conditionRules hP he hschema r hq).toSqlIn hk c hc

end Conditions

end StagedSql
