import Mathlib.Data.List.Nodup
import StagedSql.Plan.Lookup
import StagedSql.Proofs.Plan.Runs
import StagedSql.Proofs.Sql.Reads

/-!
What is required of stages covers what is read of them.

While a statement is planned, the columns that are read of each stage are noted. Whatever is made
reads nothing of a stage but what is noted by then, wherever it is put (`PlanState.Covered`).
-/

namespace StagedSql

open List

variable {α : Type} {schema : Schema} {s s' : PlanState} {name : String} {xs : List α} {y : α}

/-! ### Names of stages -/

/-- Whether a name is one that is made up for stages. -/
def IsStageName (name : String) : Prop := ∃ n, name = numberedName 't' n

lemma not_isStageName_of_plain (h : isGeneratedName name = false) : ¬ IsStageName name := by
  rintro ⟨n, rfl⟩
  exact ne_numberedName h (by decide) rfl

lemma not_isStageName_numberedName {letter : Char} (h : letter ≠ 't') (n : Nat) :
    ¬ IsStageName (numberedName letter n) := by
  rintro ⟨m, hm⟩
  exact numberedName_ne h n m hm

lemma isStageName_of_mem {n : Nat}
    (h : name ∈ (List.range n).map fun i => numberedName 't' (i + 1)) : IsStageName name := by
  obtain ⟨i, -, rfl⟩ := mem_map.mp h
  exact ⟨i + 1, rfl⟩

lemma stageNames_nodup (n : Nat) :
    ((List.range n).map fun i => numberedName 't' (i + 1)).Nodup := by
  refine List.Nodup.map (fun i j hij => ?_) nodup_range
  exact Nat.succ.inj (numberedName_inj.mp hij).2

/-- No relation has a name of the form that is made up. -/
def Schema.PlainRelations (s : Schema) : Prop :=
  ∀ r ∈ s.relations, isGeneratedName r.name = false

/-- A name is made up for stages, and no relation has it. -/
def Schema.Reserves (schema : Schema) (name : String) : Prop :=
  IsStageName name ∧ ∀ r ∈ schema.relations, r.name ≠ name

/-- No relation has a name that is made up for what is read of relations. -/
def Schema.Qualifies (schema : Schema) : Prop :=
  ∀ r ∈ schema.relations, ∀ k, r.name ≠ numberedName 'r' k

lemma Schema.PlainRelations.reserves (h : schema.PlainRelations) (hname : IsStageName name) :
    schema.Reserves name := by
  refine ⟨hname, fun r hr he => ?_⟩
  exact not_isStageName_of_plain (h r hr) (he ▸ hname)

lemma Schema.PlainRelations.qualifies (h : schema.PlainRelations) : schema.Qualifies :=
  fun r hr _ => ne_numberedName (h r hr) (by decide)

/-! ### Requirements -/

/-- Whether a column is among those required, or all columns are. -/
def Required.Covers : Required → Option String → Prop
  | .all, _ => True
  | .columns names, some c => c ∈ names
  | .columns _, none => False

lemma mem_addOnce [BEq α] [LawfulBEq α] {x : α} : y ∈ addOnce xs x ↔ y ∈ xs ∨ y = x := by
  rw [addOnce]
  grind

lemma mem_distinct [BEq α] [LawfulBEq α] : y ∈ distinct xs ↔ y ∈ xs := by
  have hfold : ∀ acc : List α, y ∈ xs.foldl addOnce acc ↔ y ∈ acc ∨ y ∈ xs := by
    induction xs with
    | nil => simp
    | cons x rest ih =>
      intro acc
      rw [foldl_cons, ih, mem_addOnce, mem_cons, or_assoc]
  rw [distinct, hfold]
  simp

lemma Required.covers_add {required : Required} {c : Option String} :
    (required.add name).Covers c ↔ required.Covers c ∨ c = some name := by
  cases required with
  | all => simp [Required.add, Required.Covers]
  | columns names =>
    cases c with
    | none => simp [Required.add, Required.Covers]
    | some c => simp [Required.add, Required.Covers, mem_addOnce]

lemma lookup_putKey (key k : String) (value : α) (entries : List (String × α)) :
    (putKey key value entries).lookup k = if k = key then some value else entries.lookup k := by
  induction entries with
  | nil =>
    by_cases h : k = key
    · simp [putKey, h]
    · simp [putKey, List.lookup_cons, beq_false_of_ne h, h]
  | cons e rest ih =>
    obtain ⟨k', v⟩ := e
    rw [putKey]
    grind

namespace Requirements

variable {rs rs' rs'' : Requirements} {stage column : String} {r : Read}

/-- A read is noted. -/
def Covers (rs : Requirements) (r : Read) : Prop :=
  ∃ required, rs.lookup r.1 = some required ∧ required.Covers r.2

/-- A read of a stage is noted. -/
def Meets (schema : Schema) (rs : Requirements) (r : Read) : Prop :=
  schema.Reserves r.1 → rs.Covers r

/-- All that is noted stays so. -/
def Grows (rs rs' : Requirements) : Prop := ∀ r, rs.Covers r → rs'.Covers r

lemma Grows.refl (rs : Requirements) : rs.Grows rs := fun _ h => h

lemma Grows.trans (h : rs.Grows rs') (h' : rs'.Grows rs'') : rs.Grows rs'' :=
  fun r hr => h' r (h r hr)

lemma Grows.allowed (h : rs.Grows rs') {reads : List Read} (ha : Allowed (rs.Meets schema) reads) :
    Allowed (rs'.Meets schema) reads :=
  ha.mono fun r hr hs => h r (hr hs)

lemma covers_require : (rs.require stage column).Covers r ↔
    rs.Covers r ∨ r = (stage, some column) := by
  obtain ⟨t, c⟩ := r
  rw [Covers, require, lookup_putKey]
  by_cases h : t = stage
  · subst h
    simp only [if_true, Option.some.injEq, exists_eq_left', Required.covers_add, Prod.mk.injEq,
      true_and, Covers]
    cases rs.lookup t with
    | none => cases c <;> simp [Required.Covers]
    | some required => simp
  · simp [h, Covers]

lemma grows_require (rs : Requirements) (stage column : String) :
    rs.Grows (rs.require stage column) :=
  fun _ h => covers_require.mpr (.inl h)

lemma covers_requireAll : (rs.requireAll stage).Covers r ↔ rs.Covers r ∨ r.1 = stage := by
  obtain ⟨t, c⟩ := r
  rw [Covers, requireAll, lookup_putKey]
  by_cases h : t = stage
  · simp [h, Required.Covers]
  · simp [h, Covers]

lemma grows_requireAll (rs : Requirements) (stage : String) : rs.Grows (rs.requireAll stage) :=
  fun _ h => covers_requireAll.mpr (.inl h)

end Requirements

/-! ### Stages -/

/-- The table that a write changes and what it gives back. -/
def Statement.returning? : Statement → Option (String × Returning)
  | .insert s => some (s.table, s.returning)
  | .update s => some (s.table, s.returning)
  | .delete s => some (s.table, s.returning)
  | _ => none

/-- A SELECT of what goes by a name. Its items are columns under that name or have labels of their
own. -/
structure Select.IsOf (s : Select) (q : String) : Prop where
  source : ∃ item, s.source = some item ∧ item.bound.1 = q
  items : ∀ item ∈ s.projection, (∃ c, item = ⟨.of q c, none⟩) ∨ ∃ e label, item = labelled e label

lemma Select.IsOf.isStar_iff {s : Select} {q : String} (h : s.IsOf q) :
    s.isStar = true ↔ s.projection = [] := by
  -- an item is a column or has a label, so it does not stand for all columns
  have hnone : s.projection.any SelectItem.isStar = false := by
    rw [any_eq_false]
    intro item hitem
    rcases h.items item hitem with ⟨c, rfl⟩ | ⟨e, label, rfl⟩
    · simp [SelectItem.isStar, Expr.of]
    · simp [SelectItem.isStar, labelled]
  rw [Select.isStar, hnone, Bool.or_false, List.isEmpty_iff]

/-- A stage is a SELECT of what goes by a name. If the name leads to a stage, this is the base that
is noted, which is one of those before. -/
structure Stage.IsSelect (schema : Schema) (before : List String) (stage : Stage) (s : Select)
    (q : String) : Prop
    extends s.IsOf q where
  statement : stage.statement = .select s
  qualifier : stage.qualifier = some q
  leads : ∀ t, s.own.lookup q = some (some t) → schema.Reserves t → stage.base = some t
  base : ∀ t, stage.base = some t → t ∈ before

/-- **What widening relies on in a stage**, given the names of those before: a write gives back the
primary key of its relation, and all others are SELECTs. -/
def Stage.Fits (schema : Schema) (before : List String) (stage : Stage) : Prop :=
  (∃ r ∈ schema.relations, stage.statement.returning? = some (r.name, .ofColumns [r.primaryKey])) ∨
    ∃ s q, stage.IsSelect schema before s q

namespace PlanState

variable {name : String} {scope : List String}

def stageNames (s : PlanState) : List String := s.stages.map (·.name)

/-- There are more stages. -/
def Longer (s s' : PlanState) : Prop := ∃ new, s'.stages = s.stages ++ new

/-- **The reads of stages are covered**: they are noted, and the stages are ready to be widened. -/
structure Covered (schema : Schema) (s : PlanState) : Prop where
  names : s.stageNames = (List.range s.names.stages).map fun i => numberedName 't' (i + 1)
  reads : ∀ stage ∈ s.stages, Allowed (s.required.Meets schema) (stage.statement.reads [])
  fits : ∀ before stage after, s.stages = before ++ stage :: after →
    stage.Fits schema (before.map (·.name))
  staged : ∀ e ∈ s.staged, e.2 ∈ s.stageNames
  pages : ∀ e ∈ s.pages, e.2 ∈ s.stageNames

/-- More is noted, and there are more names and stages. -/
structure Advances (s s' : PlanState) : Prop where
  relations : s.names.relations ≤ s'.names.relations
  required : s.required.Grows s'.required
  stages : s.Longer s'

/-- Nothing changes but that more is noted and that there are more names. -/
structure Notes (s s' : PlanState) : Prop extends s.Steady s' where
  required : s.required.Grows s'.required := by exact .refl _

/-- The next name for a relation is not in a scope, nor is any later one. -/
def Knows (s : PlanState) (scope : List String) : Prop :=
  ∀ k, s.names.relations < k → numberedName 'r' k ∉ scope

variable {s'' : PlanState}

lemma Longer.of_stages (h : s'.stages = s.stages) : s.Longer s' := ⟨[], by rw [h, append_nil]⟩

lemma Longer.trans (h : s.Longer s') (h' : s'.Longer s'') : s.Longer s'' := by
  obtain ⟨new, hn⟩ := h
  obtain ⟨new', hn'⟩ := h'
  exact ⟨new ++ new', by rw [hn', hn, append_assoc]⟩

lemma Longer.mem_stageNames (h : s.Longer s') (hn : name ∈ s.stageNames) :
    name ∈ s'.stageNames := by
  obtain ⟨new, hnew⟩ := h
  rw [stageNames, hnew, map_append]
  exact mem_append_left _ hn

lemma Advances.refl (s : PlanState) : s.Advances s := ⟨Nat.le_refl _, .refl _, .of_stages rfl⟩

lemma Advances.trans (h : s.Advances s') (h' : s'.Advances s'') : s.Advances s'' :=
  ⟨Nat.le_trans h.relations h'.relations, h.required.trans h'.required, h.stages.trans h'.stages⟩

lemma Advances.mem_stageNames (h : s.Advances s') (hn : name ∈ s.stageNames) :
    name ∈ s'.stageNames := h.stages.mem_stageNames hn

lemma Knows.mono (h : s.Knows scope) (hx : s.Advances s') : s'.Knows scope :=
  fun k hk => h k (Nat.lt_of_le_of_lt hx.relations hk)

lemma Knows.append (h : s.Knows scope)
    (hname : ∀ k, s.names.relations < k → name ≠ numberedName 'r' k) :
    s.Knows (scope ++ [name]) := by
  intro k hk hmem
  rcases mem_append.mp hmem with hmem | hmem
  · exact h k hk hmem
  · exact hname k hk (mem_singleton.mp hmem).symm

lemma Covered.isStageName (h : s.Covered schema) (hn : name ∈ s.stageNames) : IsStageName name :=
  isStageName_of_mem (h.names ▸ hn)

lemma Notes.advances (h : s.Notes s') : s.Advances s' :=
  ⟨h.relations, h.required, .of_stages h.stages⟩

lemma Notes.covered (h : s.Notes s') (hs : s.Covered schema) : s'.Covered schema := by
  obtain ⟨names, reads, fits, staged, pages⟩ := hs
  refine ⟨?_, ?_, ?_, ?_, ?_⟩
  · rwa [stageNames, h.stages, h.count]
  · rw [h.stages]
    exact fun stage hstage => h.required.allowed (reads stage hstage)
  · rwa [h.stages]
  · rwa [stageNames, h.stages, h.staged]
  · rwa [stageNames, h.stages, h.pages]

end PlanState

/-! ### Steps that keep it -/

/-- The law of planning: the reads of stages are covered, and what is noted stays so. -/
def covering (schema : Schema) : Plan.Law where
  holds s := s.Covered schema
  grows s s' := s.Advances s'
  refl s := .refl s
  trans h h' := h.trans h'

section Notes

variable {β : Type} {x : Plan α} {a : α}

lemma Plan.Keeps.of_notes {post : α → PlanState → Prop} (hx : x s = .ok (a, s'))
    (hn : s.Notes s') (h : post a s') : Keeps (covering schema) x s post :=
  .of_run hx hn.covered hn.advances h

lemma Plan.Keeps.notes_bind {f : α → Plan β} {post : β → PlanState → Prop}
    (hx : x s = .ok (a, s')) (hn : s.Notes s') (h : Keeps (covering schema) (f a) s' post) :
    Keeps (covering schema) (x >>= f) s post :=
  .run_bind hx hn.covered hn.advances h

end Notes

end StagedSql
