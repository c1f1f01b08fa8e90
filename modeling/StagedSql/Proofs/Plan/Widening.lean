import StagedSql.Plan.Statement
import StagedSql.Proofs.Plan.Requirements

/-!
Stages after widening.

Widening visits the stages from the last to the first. A write gives back more, and a SELECT gives
more columns of what it reads, which are then required of the stage that it reads. Each stage reads
stages before it only, so all that is required of a stage is known when widening comes to it.
-/

namespace StagedSql

/-- A SELECT that gives more columns of what it reads. -/
def Select.ensureEach (s : Select) (qualifier : String) (names : List String) : Select :=
  names.foldl (fun s c => s.ensureColumn qualifier c) s

/-- A statement that gives what is required of it. -/
def Statement.giving (qualifier : Option String) (required : Required) : Statement → Statement
  | .insert s => .insert { s with returning := s.returning.widen required }
  | .update s => .update { s with returning := s.returning.widen required }
  | .delete s => .delete { s with returning := s.returning.widen required }
  | .select s =>
    match required, qualifier with
    | .columns names, some qualifier => .select (s.ensureEach qualifier names)
    | _, _ => .select s
  | other => other

/-- A SELECT gives more columns and is otherwise the same. -/
lemma Statement.giving_select (s : Select) (qualifier : Option String) (required : Required) :
    ∃ s' : Select, (Statement.select s).giving qualifier required = .select s' ∧
      (s' = s ∨ ∃ q names, s' = s.ensureEach q names) := by
  cases required with
  | all => exact ⟨s, rfl, .inl rfl⟩
  | columns names =>
    cases qualifier with
    | none => exact ⟨s, rfl, .inl rfl⟩
    | some q => exact ⟨_, rfl, .inr ⟨q, names, rfl⟩⟩

/-- What a stage gives, if some columns are required of it. -/
def Stage.given (stage : Stage) (required : Option Required) : Statement :=
  match required with
  | none => stage.statement
  | some required => stage.statement.giving stage.qualifier required

/-- Columns are added at the end, as columns of what is read. -/
lemma Select.ensureEach_eq (s : Select) (qualifier : String) (names : List String) :
    ∃ added, s.ensureEach qualifier names = { s with projection := s.projection ++ added } ∧
      ∀ item ∈ added, ∃ c ∈ names, item = ⟨.of qualifier c, none⟩ := by
  induction names generalizing s with
  | nil =>
    cases s
    exact ⟨[], by rw [List.append_nil]; rfl, by simp⟩
  | cons c rest ih =>
    obtain ⟨added, heq, hadded⟩ := ih (s.ensureColumn qualifier c)
    have hstep : s.ensureEach qualifier (c :: rest) =
        (s.ensureColumn qualifier c).ensureEach qualifier rest := rfl
    rw [hstep, heq]
    have hrest : ∀ item ∈ added, ∃ c' ∈ c :: rest, item = ⟨.of qualifier c', none⟩ := by
      simp_all
    rw [Select.ensureColumn]
    split
    · exact ⟨added, rfl, hrest⟩
    · simp_all

lemma Select.ensureEach_of_isStar {s : Select} {qualifier : String} {names : List String}
    (h : s.isStar = true) : s.ensureEach qualifier names = s := by
  induction names with
  | nil => rfl
  | cons c rest ih =>
    have hsame : s.ensureColumn qualifier c = s := by simp [Select.ensureColumn, h]
    change (s.ensureColumn qualifier c).ensureEach qualifier rest = s
    rw [hsame, ih]

lemma widenSelect_fst (qualifier : String) (base : Option String) (state : Select × Requirements)
    (c : String) : (widenSelect qualifier base state c).1 = state.1.ensureColumn qualifier c := by
  unfold widenSelect Select.ensureColumn
  dsimp only
  split <;> rfl

lemma foldl_widenSelect_fst (qualifier : String) (base : Option String) (names : List String)
    (state : Select × Requirements) :
    (names.foldl (widenSelect qualifier base) state).1 = state.1.ensureEach qualifier names := by
  induction names generalizing state with
  | nil => rfl
  | cons c rest ih =>
    rw [List.foldl_cons, ih, widenSelect_fst]
    rfl

/-- **Widening a stage** gives what is required of it. -/
lemma widenStage_eq (rs : Requirements) (stage : Stage) :
    (widenStage rs stage).1 =
      { stage with statement := stage.given (rs.lookup stage.name) } := by
  obtain ⟨name, statement, relation, qualifier, base⟩ := stage
  rw [widenStage]
  cases rs.lookup name with
  | none => rfl
  | some required =>
    cases statement with
    | select s =>
      cases required with
      | all => rfl
      | columns names =>
        cases qualifier with
        | none => rfl
        | some q =>
          simp only [Stage.given, Statement.giving, ← foldl_widenSelect_fst q base names (s, rs)]
    | _ => rfl

section Each

variable {P : Stage → Stage → Prop} (hP : ∀ rs stage, P stage (widenStage rs stage).1)

include hP

lemma widenFromLast_forall₂ (rs : Requirements) (stages : List Stage) :
    List.Forall₂ P stages (widenFromLast rs stages) := by
  induction stages generalizing rs with
  | nil => exact .nil
  | cons stage before ih => exact .cons (hP rs stage) (ih _)

/-- What holds of a stage and the same one widened holds of all stages. -/
lemma widenStages_forall₂ (rs : Requirements) (stages : List Stage) :
    List.Forall₂ P stages (widenStages rs stages) := by
  have h := List.rel_reverse (widenFromLast_forall₂ hP rs stages.reverse)
  rwa [List.reverse_reverse] at h

end Each

/-! ### The statement -/

lemma withStages_ctes (stages : List Stage) (inner : Select) :
    (withStages stages (jsonRows inner)).ctes = stages.map fun s => ⟨s.name, s.statement⟩ := by
  cases stages <;> rfl

/-! ### Further requirements -/

/-- More columns are required, but only of stages with given names, and of none all columns. -/
structure Requirements.Within (names : List String) (rs rs' : Requirements) : Prop where
  grows : rs.Grows rs'
  frame : ∀ t, t ∉ names → rs'.lookup t = rs.lookup t
  all : ∀ t, rs'.Covers (t, none) → rs.Covers (t, none)

namespace Requirements.Within

variable {names more : List String} {rs rs' rs'' : Requirements}

lemma refl (names : List String) (rs : Requirements) : Within names rs rs :=
  ⟨.refl rs, fun _ _ => rfl, fun _ h => h⟩

lemma trans (h : Within names rs rs') (h' : Within names rs' rs'') : Within names rs rs'' :=
  ⟨h.grows.trans h'.grows, fun t ht => (h'.frame t ht).trans (h.frame t ht),
    fun t ht => h.all t (h'.all t ht)⟩

lemma mono (h : Within names rs rs') (hsub : ∀ t ∈ names, t ∈ more) : Within more rs rs' :=
  ⟨h.grows, fun t ht => h.frame t fun hmem => ht (hsub t hmem), h.all⟩

lemma require (rs : Requirements) {stage : String} (hmem : stage ∈ names) (column : String) :
    Within names rs (rs.require stage column) := by
  refine ⟨grows_require rs stage column, fun t ht => ?_, fun t ht => ?_⟩
  · rw [Requirements.require, lookup_putKey, if_neg]
    rintro rfl
    exact ht hmem
  · rcases covers_require.mp ht with h | h
    · exact h
    · cases h

end Requirements.Within

/-! ### One stage -/

section Stage

variable {rs : Requirements} {q : String} {base : Option String} {before : List String}

lemma widenSelect_snd (hbase : ∀ t, base = some t → t ∈ before) (state : Select × Requirements)
    (c : String) :
    Requirements.Within before state.2 (widenSelect q base state c).2 ∧
      ∀ item ∈ (widenSelect q base state c).1.projection, item ∈ state.1.projection ∨
        (item = ⟨.of q c, none⟩ ∧ ∀ t, base = some t →
          (widenSelect q base state c).2.Covers (t, some c)) := by
  obtain ⟨s, rs⟩ := state
  unfold widenSelect
  dsimp only
  split
  · exact ⟨.refl _ _, fun item hitem => .inl hitem⟩
  · rename_i hnew
    have hitems : ∀ rs' : Requirements, (∀ t, base = some t → rs'.Covers (t, some c)) →
        ∀ item ∈ (s.ensureColumn q c).projection, item ∈ s.projection ∨
          (item = ⟨.of q c, none⟩ ∧ ∀ t, base = some t → rs'.Covers (t, some c)) := by
      intro rs' hcov item hitem
      rw [Select.ensureColumn, if_neg hnew] at hitem
      simp_all
    cases base with
    | none => exact ⟨.refl _ _, hitems rs (by simp)⟩
    | some name =>
      refine ⟨.require rs (hbase name rfl) c, hitems _ ?_⟩
      rintro t ⟨⟩
      exact Requirements.covers_require.mpr (.inr rfl)

lemma foldl_widenSelect_snd (hbase : ∀ t, base = some t → t ∈ before) (names : List String)
    (state : Select × Requirements) :
    Requirements.Within before state.2 (names.foldl (widenSelect q base) state).2 ∧
      ∀ item ∈ (names.foldl (widenSelect q base) state).1.projection, item ∈ state.1.projection ∨
        ∃ c, item = ⟨.of q c, none⟩ ∧ ∀ t, base = some t →
          (names.foldl (widenSelect q base) state).2.Covers (t, some c) := by
  induction names generalizing state with
  | nil => exact ⟨.refl _ _, fun item hitem => .inl hitem⟩
  | cons c rest ih =>
    obtain ⟨hfirst, hitem⟩ := widenSelect_snd hbase state c
    obtain ⟨hrest, hitems⟩ := ih (widenSelect q base state c)
    refine ⟨hfirst.trans hrest, fun item hmem => ?_⟩
    rcases hitems item hmem with hmem | hadded
    · rcases hitem item hmem with hmem | ⟨rfl, hcov⟩
      · exact .inl hmem
      · exact .inr ⟨c, rfl, fun t ht => hrest.grows _ (hcov t ht)⟩
    · exact .inr hadded

lemma giving_reads_of_returning {statement : Statement} (h : statement.returning?.isSome = true)
    (qualifier : Option String) (required : Required) (env : Bindings) :
    (statement.giving qualifier required).reads env = statement.reads env := by
  cases statement with
  | insert s =>
    cases s
    rw [Statement.giving, Statement.reads, Statement.reads]
  | update s =>
    cases s
    rw [Statement.giving, Statement.reads, Statement.reads]
  | delete s =>
    cases s
    rw [Statement.giving, Statement.reads, Statement.reads]
  | _ => cases h

/-- A SELECT with more columns of the stage that it reads, of which they are required. -/
lemma widenedSelect_reads {stage : Stage} {s : Select} (hs : stage.IsSelect schema before s q)
    (hreads : Allowed (rs.Meets schema) (s.reads [])) (names : List String) :
    Allowed (Requirements.Meets schema (names.foldl (widenSelect q stage.base) (s, rs)).2)
      ((s.ensureEach q names).reads []) := by
  obtain ⟨hwithin, hitems⟩ := foldl_widenSelect_snd hs.base names (s, rs)
  rw [foldl_widenSelect_fst] at hitems
  have hold := hwithin.grows.allowed hreads
  obtain ⟨added, heq, -⟩ := s.ensureEach_eq q names
  rw [heq] at hitems ⊢
  rw [Select.reads_allowed] at hold ⊢
  obtain ⟨hall, holdItems, hrest⟩ := hold
  refine ⟨fun hnil => hall (List.append_eq_nil_iff.mp hnil).1, ?_, hrest⟩
  rw [SelectItem.readsEach_allowed] at holdItems ⊢
  intro item hitem
  rcases hitems item hitem with hitem | ⟨c, rfl, hcov⟩
  · exact holdItems item hitem
  · refine of_allowed fun t ht hstage => hcov t (hs.leads t ?_ hstage)
    rwa [Select.bindings, List.append_nil] at ht

/-- **One stage is widened.** What is then required is of stages before it only, and what it reads
is required. -/
lemma widenStage_reads {schema : Schema} {stage : Stage} (hfits : stage.Fits schema before)
    (hreads : Allowed (rs.Meets schema) (stage.statement.reads [])) :
    Requirements.Within before rs (widenStage rs stage).2 ∧
      Allowed (Requirements.Meets schema (widenStage rs stage).2)
        ((widenStage rs stage).1.statement.reads []) := by
  rcases hfits with ⟨r, -, hreturning⟩ | ⟨s, q, hs⟩
  · have hsnd : (widenStage rs stage).2 = rs := by
      rw [widenStage]
      split
      · rfl
      · split <;> first | rfl | (rename_i h; rw [h] at hreturning; cases hreturning)
    rw [hsnd, widenStage_eq]
    refine ⟨.refl _ _, ?_⟩
    cases rs.lookup stage.name with
    | none => exact hreads
    | some required =>
      change Allowed (rs.Meets schema) ((stage.statement.giving stage.qualifier required).reads [])
      rwa [giving_reads_of_returning (by rw [hreturning]; rfl)]
  · have hselect : Allowed (rs.Meets schema) (s.reads []) := by
      rwa [hs.statement] at hreads
    rw [widenStage]
    cases rs.lookup stage.name with
    | none => exact ⟨.refl _ _, hreads⟩
    | some required =>
      simp only [hs.statement, hs.qualifier]
      cases required with
      | all => exact ⟨.refl _ _, hreads⟩
      | columns names =>
        refine ⟨(foldl_widenSelect_snd hs.base names (s, rs)).1, ?_⟩
        rw [Statement.reads, foldl_widenSelect_fst]
        exact widenedSelect_reads hs hselect names

end Stage

/-! ### All stages -/

/-- Stages, the last of which comes first, that are ready to be widened: each has a name of its own
and fits those before it. -/
def Stage.Chained (schema : Schema) : List Stage → Prop
  | [] => True
  | stage :: before => stage.Fits schema (before.map (·.name)) ∧
      stage.name ∉ before.map (·.name) ∧ Stage.Chained schema before

/-- **Widening all stages.** There are requirements that cover what all widened stages read, and
each stage gives what they ask of it. -/
lemma widenFromLast_reads {schema : Schema} {stages : List Stage} (h : Stage.Chained schema stages)
    {rs : Requirements}
    (hreads : ∀ stage ∈ stages, Allowed (rs.Meets schema) (stage.statement.reads [])) :
    ∃ rs', Requirements.Within (stages.map (·.name)) rs rs' ∧
      (∀ w ∈ widenFromLast rs stages, Allowed (rs'.Meets schema) (w.statement.reads [])) ∧
      List.Forall₂ (fun stage w => w.name = stage.name ∧
        w.statement = stage.given (rs'.lookup stage.name)) stages (widenFromLast rs stages) := by
  induction stages generalizing rs with
  | nil => exact ⟨rs, .refl _ _, by simp [widenFromLast], .nil⟩
  | cons stage before ih =>
    obtain ⟨hfits, hname, hbefore⟩ := h
    obtain ⟨hwithin, hfirst⟩ := widenStage_reads hfits (hreads stage (by simp))
    obtain ⟨rs', hwithin', hrest, hgiven⟩ := ih hbefore fun st hst =>
      hwithin.grows.allowed (hreads st (by simp [hst]))
    have hall := hwithin.trans hwithin'
    refine ⟨rs', hall.mono fun t ht => by simp [ht], ?_, .cons ⟨?_, ?_⟩ hgiven⟩
    · intro w hw
      rcases List.mem_cons.mp hw with rfl | hw
      · exact hwithin'.grows.allowed hfirst
      · exact hrest w hw
    · change (widenStage rs stage).1.name = stage.name
      rw [widenStage_eq]
    · -- nothing more is required of the stage after it was widened
      change (widenStage rs stage).1.statement = _
      rw [hall.frame stage.name hname, widenStage_eq]

end StagedSql
