import StagedSql.Proofs.Graph.GivenRows
import StagedSql.Proofs.Plan.ScopedStages
import StagedSql.Proofs.Sql.Marks

/-!
What planning puts into a statement.

Each mark of a statement is of a form that planning makes, or comes from an expression that a
condition takes as it is. Columns that may be read of the rows of a relation are given by a relation
`R` between the two.
-/

namespace StagedSql

open List Plan

variable {g : Graph} {R : Relation → String → Prop} {free free' : String → String → Prop}
  {L L' : List Mark} {s s1 s' : PlanState} {r : Relation} {i : FromItem}

/-! ### Names -/

/-- A name that is made up for the table of a walk. -/
def IsWalkName (name : String) : Prop := ∃ k, name = numberedName 'c' k

/-- A name of rows that are taken as a whole: the outermost ones, those of a lateral join, and those
that are gathered into an array. -/
def IsRowName (name : String) : Prop :=
  name = "x" ∨ ∃ letter ∈ ['j', 'a'], ∃ k, name = numberedName letter k

/-! ### Good marks -/

/-- **A graph whose lists are filled**: no expression is taken as it is, rows that refer back to
another one are some, each relation has a stored column, and rows that are written out are as long
as the list of their columns. -/
structure Graph.Tidy (g : Graph) : Prop where
  exprs : g.exprs = []
  rows : ∀ id payload reverse, .insert id payload reverse ∈ g.nodes → ∀ e ∈ reverse, e.2 ≠ []
  stored : ∀ r ∈ g.schema.relations, r.storedNames ≠ []
  values : ∀ columns rows, .values columns rows ∈ g.nodes →
    columns ≠ [] ∧ rows ≠ [] ∧ ∀ row ∈ rows, row.length = columns.length

/-- **Columns that may be read through a FROM item**: those that may be read of the relation which
it scans, and those of rows that are written out. What is read of named statements and of derived
tables is left open. -/
def FromItem.Allows (g : Graph) (R : Relation → String → Prop) : FromItem → String → Prop
  | .table name _, c => IsStageName name ∨ IsWalkName name ∨
      ∀ r ∈ g.schema.relations, r.name = name → R r c
  | .derived (.values _) _ columns, c =>
    ∀ r : Relation, r.columns = columns.map Column.scalar → R r c
  | .derived _ _ _, _ => True

/-- A FROM item scans a relation, a stage or a walk, or has a statement whose text is not empty. -/
def FromItem.Good (g : Graph) : FromItem → Prop
  | .table name _ =>
    (∃ r ∈ g.schema.relations, r.name = name) ∨ IsStageName name ∨ IsWalkName name
  | .derived query _ _ => g.Tidy → query.tokens ≠ []

/-- A column is read through a FROM item that allows it. -/
def Resolves (g : Graph) (R : Relation → String → Prop) (L : List Mark) (q c : String) : Prop :=
  ∃ i, .item i ∈ L ∧ i.qualifier = q ∧ i.Allows g R c

/-- **The marks that planning makes** among the marks of a list. Columns that are read through the
row around it are given by `free`. -/
def Mark.Good (g : Graph) (R : Relation → String → Prop) (free : String → String → Prop)
    (L : List Mark) : Mark → Prop
  | .column q c => free q c ∨ Resolves g R L q c
  | .wholeRow name => IsRowName name
  | .item i => i.Good g
  | .shows name => name ∈ ["value", "depth"] ∨
      ∃ r, g.Knows r ∧ (R r name ∨ ∃ c ∈ r.columns, c.name = name)
  | .part s => g.Tidy → s.Grammatical
  | .membership .. => True
  | .named _ => True

/-- A mark of an expression that a condition takes as it is. -/
def Mark.Raw (g : Graph) (m : Mark) : Prop := ∃ e ∈ g.exprs, m ∈ e.marks

lemma Graph.Tidy.not_raw (h : g.Tidy) {m : Mark} : ¬ m.Raw g := by
  rintro ⟨e, he, -⟩
  rw [h.exprs] at he
  cases he

section Good

variable {m : Mark}

lemma Resolves.mono {q c : String} (h : Resolves g R L q c)
    (hitems : ∀ i, .item i ∈ L → .item i ∈ L') : Resolves g R L' q c := by
  obtain ⟨i, hi, hq, ha⟩ := h
  exact ⟨i, hitems i hi, hq, ha⟩

lemma Mark.Good.mono (h : m.Good g R free L) (hitems : ∀ i, .item i ∈ L → .item i ∈ L')
    (hfree : ∀ q c, free q c → free' q c ∨ Resolves g R L' q c) : m.Good g R free' L' := by
  cases m with
  | column q c =>
    rcases h with h | h
    · exact hfree q c h
    · exact .inr (h.mono hitems)
  | _ => exact h

end Good

/-! ### Names that differ -/

/-- A FROM item under a name of its own table, or a derived table other than rows that are written
out. Nothing has to be known of its name. -/
def FromItem.Neutral : FromItem → Prop
  | .table _ none => True
  | .table _ (some _) => False
  | .derived (.values _) _ _ => False
  | .derived _ label _ => ∃ letter ∈ ['u', 'j', 'a'], ∃ k, label = numberedName letter k

/-- A name that was made up for a FROM item has a number between those of two states. -/
def FromItem.Within (n n' : Names) : FromItem → Prop
  | .table _ (some label) => ∃ k, n.relations < k ∧ k ≤ n'.relations ∧ label = numberedName 'r' k
  | .derived (.values _) label _ => ∃ k, n.values < k ∧ k ≤ n'.values ∧ label = numberedName 'v' k
  | i => i.Neutral

lemma FromItem.Neutral.within (h : i.Neutral) (n n' : Names) : i.Within n n' := by
  unfold FromItem.Within
  split
  · exact h.elim
  · exact h.elim
  · exact h

lemma FromItem.Within.mono {n n1 n2 n' : Names} (h : i.Within n1 n2) (hl : n.Le n1)
    (hr : n2.Le n') : i.Within n n' := by
  unfold FromItem.Within at h ⊢
  split at h
  · obtain ⟨k, hlow, hhigh, hk⟩ := h
    exact ⟨k, hl.relations.trans_lt hlow, hhigh.trans hr.relations, hk⟩
  · obtain ⟨k, hlow, hhigh, hk⟩ := h
    exact ⟨k, hl.values.trans_lt hlow, hhigh.trans hr.values, hk⟩
  · exact h

namespace PlanState

/-- The marks of the stages that a later state has besides those of a state. -/
def added (s s' : PlanState) : List Mark :=
  (s'.stages.drop s.stages.length).flatMap (·.statement.marks)

/-- **Names of FROM items are numbered between two states**, and of two relations or two lists of
rows none go by one name. This is about a list of marks and those of the stages that were added. -/
structure Spans (s s' : PlanState) (L : List Mark) : Prop where
  within : ∀ i, .item i ∈ L ++ s.added s' → i.Within s.names s'.names
  tables : ∀ {name name' label : String}, .item (.table name (some label)) ∈ L ++ s.added s' →
    .item (.table name' (some label)) ∈ L ++ s.added s' → name = name'
  values : ∀ {rows rows' : List (List Expr)} {label : String} {columns columns' : List String},
    .item (.derived (.values rows) label columns) ∈ L ++ s.added s' →
    .item (.derived (.values rows') label columns') ∈ L ++ s.added s' → columns = columns'

lemma added_of_stages (h : s'.stages = s.stages) : s.added s' = [] := by
  rw [added, h, drop_length, flatMap_nil]

/-- What is added between two states is what is added up to a state between them and then. -/
lemma added_trans (h : s.Lengthens s1) (h' : s1.Lengthens s') :
    s.added s' = s.added s1 ++ s1.added s' := by
  obtain ⟨new, hn⟩ := h.stages
  obtain ⟨new', hn'⟩ := h'.stages
  have hall : s'.stages.drop s.stages.length = new ++ new' := by
    rw [hn', hn, append_assoc, drop_left]
  have hfirst : s1.stages.drop s.stages.length = new := by rw [hn, drop_left]
  have hrest : s'.stages.drop s1.stages.length = new' := by rw [hn', drop_left]
  rw [added, added, added, hall, hfirst, hrest, flatMap_append]

lemma added_stage {stage : Stage} (h : s'.stages = s.stages ++ [stage]) :
    s.added s' = stage.statement.marks := by
  simp [added, h]

lemma Spans.nil (h : s'.stages = s.stages) : s.Spans s' [] := by
  refine ⟨?_, ?_, ?_⟩ <;> simp [added_of_stages h]

lemma Spans.extend (h : s.Spans s' L) (hitems : ∀ i, .item i ∈ L' → .item i ∈ L ∨ i.Neutral) :
    s.Spans s' L' := by
  have hmem : ∀ {i : FromItem}, ¬ i.Neutral → .item i ∈ L' ++ s.added s' →
      .item i ∈ L ++ s.added s' := by
    grind
  refine ⟨fun i hi => ?_, fun hi hi' => h.tables (hmem id hi) (hmem id hi'),
    fun hi hi' => h.values (hmem id hi) (hmem id hi')⟩
  by_cases hn : i.Neutral
  · exact hn.within _ _
  · exact h.within i (hmem hn hi)

/-- **What was planned between states one after the other.** Numbers grow, so names differ. -/
lemma Spans.append (hx : s.Lengthens s1) (hx' : s1.Lengthens s') (h : s.Spans s1 L)
    (h' : s1.Spans s' L') : s.Spans s' (L ++ L') := by
  have hsplit : ∀ {m : Mark}, m ∈ L ++ L' ++ s.added s' →
      m ∈ L ++ s.added s1 ∨ m ∈ L' ++ s1.added s' := by
    intro m hm
    rw [added_trans hx hx'] at hm
    simp only [mem_append] at hm ⊢
    tauto
  -- a number that was given before is none that is given later
  have happart : ∀ {letter : Char} {label : String} {low mid high : Nat},
      (∃ k, low < k ∧ k ≤ mid ∧ label = numberedName letter k) →
      (∃ k, mid < k ∧ k ≤ high ∧ label = numberedName letter k) → False := by
    rintro letter label low mid high ⟨k, -, hk, rfl⟩ ⟨k', hk', -, he⟩
    have := (numberedName_inj.mp he).2
    omega
  refine ⟨fun i hi => ?_, fun {name name' label} hi hi' => ?_,
    fun {rows rows' label columns columns'} hi hi' => ?_⟩
  · rcases hsplit hi with hi | hi
    · exact (h.within i hi).mono (.refl _) hx'.names
    · exact (h'.within i hi).mono hx.names (.refl _)
  · rcases hsplit hi with hi | hi <;> rcases hsplit hi' with hi' | hi'
    · exact h.tables hi hi'
    · exact (happart (h.within _ hi) (h'.within _ hi')).elim
    · exact (happart (h.within _ hi') (h'.within _ hi)).elim
    · exact h'.tables hi hi'
  · rcases hsplit hi with hi | hi <;> rcases hsplit hi' with hi' | hi'
    · exact h.values hi hi'
    · exact (happart (h.within _ hi) (h'.within _ hi')).elim
    · exact (happart (h.within _ hi') (h'.within _ hi)).elim
    · exact h'.values hi hi'

/-- **One state is planned from another one**: there are more names and stages, and the same parent
rows. Names in the stages that were added are numbered between the two. -/
structure Continues (g : Graph) (s s' : PlanState) : Prop extends s.Lengthens s' where
  parents : s'.parents = s.parents
  spans : g.exprs = [] → s.Spans s' []

lemma Continues.refl (s : PlanState) : s.Continues g s := ⟨.refl s, rfl, fun _ => .nil rfl⟩

lemma Continues.of_stages (h : s.Lengthens s') (hstages : s'.stages = s.stages)
    (hparents : s'.parents = s.parents) : s.Continues g s' :=
  ⟨h, hparents, fun _ => .nil hstages⟩

lemma Continues.trans (h : s.Continues g s1) (h' : s1.Continues g s') : s.Continues g s' :=
  ⟨h.toLengthens.trans h'.toLengthens, h'.parents.trans h.parents,
    fun hg => (h.spans hg).append h.toLengthens h'.toLengthens (h'.spans hg)⟩

end PlanState

/-! ### Fragments -/

/-- **Something that was planned between two states**, by its marks. -/
structure Fragment (g : Graph) (R : Relation → String → Prop) (s s' : PlanState)
    (free : String → String → Prop) (L : List Mark) : Prop where
  good : ∀ m ∈ L, m.Raw g ∨ m.Good g R free L
  spans : g.exprs = [] → s.Spans s' L

/-- No row is around it. -/
def noRow : String → String → Prop := fun _ _ => False

/-- Columns that may be read of a row of a relation under a name. -/
def rowAround (R : Relation → String → Prop) (q : String) (r : Relation) : String → String → Prop :=
  fun q' c => q' = q ∧ R r c

namespace Fragment

lemma nil (hx : s.Continues g s') : Fragment g R s s' free [] :=
  ⟨by simp, hx.spans⟩

lemma append (hx : s.Continues g s1) (hx' : s1.Continues g s') (h : Fragment g R s s1 free L)
    (h' : Fragment g R s1 s' free L') : Fragment g R s s' free (L ++ L') := by
  refine ⟨fun m hm => ?_, fun hg =>
    (h.spans hg).append hx.toLengthens hx'.toLengthens (h'.spans hg)⟩
  rcases mem_append.mp hm with hm | hm
  · refine (h.good m hm).imp_right fun hgood => ?_
    exact hgood.mono (fun i hi => mem_append_left _ hi) fun _ _ hf => .inl hf
  · refine (h'.good m hm).imp_right fun hgood => ?_
    exact hgood.mono (fun i hi => mem_append_right _ hi) fun _ _ hf => .inl hf

/-- **More marks**, none of which is a FROM item that has to be numbered. -/
lemma extend (h : Fragment g R s s' free L) (hitems : ∀ i, .item i ∈ L → .item i ∈ L')
    (hnew : ∀ i, .item i ∈ L' → .item i ∈ L ∨ i.Neutral)
    (hgood : ∀ m ∈ L', m ∈ L ∨ m.Good g R free L') : Fragment g R s s' free L' := by
  refine ⟨fun m hm => ?_, fun hg => (h.spans hg).extend hnew⟩
  rcases hgood m hm with hm | hm
  · exact (h.good m hm).imp_right fun hgood => hgood.mono hitems fun _ _ hf => .inl hf
  · exact .inr hm

lemma congr (h : Fragment g R s s' free L) (hm : ∀ m, m ∈ L' ↔ m ∈ L) :
    Fragment g R s s' free L' :=
  h.extend (fun _ hi => (hm _).mpr hi) (fun _ hi => .inl ((hm _).mp hi))
    fun m hmem => .inl ((hm m).mp hmem)

/-- **Columns of the row around it** are those of another one, or are found in it. -/
lemma rebase (h : Fragment g R s s' free L)
    (hfree : ∀ q c, free q c → free' q c ∨ Resolves g R L q c) : Fragment g R s s' free' L :=
  ⟨fun m hm => (h.good m hm).imp_right fun hgood => hgood.mono (fun _ hi => hi) hfree, h.spans⟩

/-- What reads nothing of the row around it may stand anywhere. -/
lemma anywhere (h : Fragment g R s s' noRow L) : Fragment g R s s' free L :=
  h.rebase fun _ _ hf => hf.elim

lemma after (hx : s.Continues g s1) (hx' : s1.Continues g s') (h : Fragment g R s1 s' free L) :
    Fragment g R s s' free L :=
  (nil hx).append hx hx' h

lemma before (hx : s.Continues g s1) (hx' : s1.Continues g s') (h : Fragment g R s s1 free L) :
    Fragment g R s s' free L := by
  have hboth := h.append hx hx' (nil hx')
  rwa [append_nil] at hboth

lemma close {q : String} {i : FromItem} (h : Fragment g R s s' (rowAround R q r) L)
    (hi : .item i ∈ L) (hq : i.qualifier = q) (ha : ∀ c, R r c → i.Allows g R c) :
    Fragment g R s s' noRow L := by
  refine h.rebase ?_
  rintro _ c ⟨rfl, hc⟩
  exact .inr ⟨i, hi, hq, ha c hc⟩

end Fragment

/-! ### The law -/

namespace PlanState

/-- The relation whose rows a stage gives. -/
def StageOf (s : PlanState) (name : String) (r : Relation) : Prop :=
  (s.stages.find? (·.name == name)).map (·.relation) = some r

/-- A stage gives rows of the relation of a node. -/
def StagedFor (g : Graph) (s : PlanState) (h : Handle) (name : String) : Prop :=
  ∃ r, g.Gives (.node h) r ∧ s.StageOf name r

/-- If rows are those of a stage, it gives rows of a relation. -/
def Reads (s : PlanState) (stage : Option String) (r : Relation) : Prop :=
  ∀ name, stage = some name → s.StageOf name r

end PlanState

/-- The columns that are required of stages may be read of them. -/
def Requirements.Permitted (R : Relation → String → Prop) (s : PlanState) (rs : Requirements) :
    Prop :=
  ∀ name columns, rs.lookup name = some (.columns columns) →
    ∀ c ∈ columns, ∃ r, s.StageOf name r ∧ R r c

/-- A stage whose marks are good. A SELECT can give more columns of what it reads, which is a stage
of the same relation if it is one. -/
structure Stage.Marked (g : Graph) (R : Relation → String → Prop) (s : PlanState) (stage : Stage) :
    Prop where
  known : g.Knows stage.relation
  marks : ∀ m ∈ stage.statement.marks, m.Raw g ∨ m.Good g R noRow stage.statement.marks
  select : ∀ select q, stage.statement = .select select → stage.qualifier = some q →
    ∃ i, .item i ∈ select.marks ∧ i.qualifier = q ∧ ∀ c, R stage.relation c → i.Allows g R c
  base : s.Reads stage.base stage.relation

namespace PlanState

variable {stage : Stage}

/-- **The marks of all stages are good**, and whatever is noted leads to stages of the right
relation. -/
structure Marked (g : Graph) (R : Relation → String → Prop) (s : PlanState) : Prop where
  names : s.stageNames = (List.range s.names.stages).map fun i => numberedName 't' (i + 1)
  stages : ∀ stage ∈ s.stages, stage.Marked g R s
  staged : ∀ e ∈ s.staged, s.StagedFor g e.1 e.2
  pages : ∀ e ∈ s.pages, s.StagedFor g e.1 e.2
  written : ∀ e ∈ s.written, (∀ m ∈ e.2, m ∈ s.stageNames) ∧ (e.2 = [] → ¬ g.Tidy)
  required : s.required.Permitted R s
  parents : ∀ p ∈ s.parents, ∃ r ∈ g.schema.relations, s.StageOf p.stage r ∧ p.key = r.primaryKey

variable {name : String} {r' : Relation}

lemma StageOf.unique (h : s.StageOf name r) (h' : s.StageOf name r') : r = r' :=
  Option.some.inj (h.symm.trans h')

lemma StageOf.exists_stage (h : s.StageOf name r) :
    ∃ stage ∈ s.stages, stage.name = name ∧ stage.relation = r := by
  obtain ⟨stage, hfind, hr⟩ := Option.map_eq_some_iff.mp h
  grind

lemma StageOf.mem (h : s.StageOf name r) : name ∈ s.stageNames := by
  obtain ⟨stage, hmem, rfl, -⟩ := h.exists_stage
  exact mem_map_of_mem hmem

lemma StageOf.mono (h : s.StageOf name r) (hx : s.Lengthens s') : s'.StageOf name r := by
  obtain ⟨new, hn⟩ := hx.stages
  obtain ⟨stage, hfind, hr⟩ := Option.map_eq_some_iff.mp h
  rw [StageOf, hn, find?_append, hfind]
  exact congrArg some hr

lemma StagedFor.mono {h : Handle} (hs : s.StagedFor g h name) (hx : s.Lengthens s') :
    s'.StagedFor g h name :=
  hs.imp fun _ hr => ⟨hr.1, hr.2.mono hx⟩

lemma exists_stageOf (h : name ∈ s.stageNames) : ∃ r, s.StageOf name r := by
  obtain ⟨stage, hmem, rfl⟩ := mem_map.mp h
  have hsome : (s.stages.find? (·.name == stage.name)).isSome := by
    rw [find?_isSome]
    exact ⟨stage, hmem, by simp⟩
  obtain ⟨found, hfound⟩ := Option.isSome_iff_exists.mp hsome
  exact ⟨found.relation, by rw [StageOf, hfound]; rfl⟩

lemma StageOf.back (h : s'.StageOf name r) (hx : s.Lengthens s') (hmem : name ∈ s.stageNames) :
    s.StageOf name r := by
  obtain ⟨r', hr'⟩ := exists_stageOf hmem
  rwa [(h.unique (hr'.mono hx))]

lemma Reads.mono {stage : Option String} (h : s.Reads stage r) (hx : s.Lengthens s') :
    s'.Reads stage r :=
  fun name hname => (h name hname).mono hx

lemma Marked.isStageName (h : s.Marked g R) (hn : name ∈ s.stageNames) : IsStageName name :=
  isStageName_of_mem (h.names ▸ hn)

lemma Marked.nodup (h : s.Marked g R) : s.stageNames.Nodup := by
  rw [h.names]
  exact stageNames_nodup _

lemma Marked.stageOf (h : s.Marked g R) (hmem : stage ∈ s.stages) :
    s.StageOf stage.name stage.relation := by
  obtain ⟨r, hr⟩ := exists_stageOf (s := s) (mem_map_of_mem hmem)
  obtain ⟨found, hfound, hname, hrelation⟩ := hr.exists_stage
  have hsame : found = stage := inj_on_of_nodup_map h.nodup hfound hmem hname
  rwa [← hrelation, hsame] at hr

lemma Marked.known (h : s.Marked g R) (hs : s.StageOf name r) : g.Knows r := by
  obtain ⟨stage, hmem, -, rfl⟩ := hs.exists_stage
  exact (h.stages stage hmem).known

lemma Stage.Marked.mono (h : stage.Marked g R s) (hx : s.Lengthens s') : stage.Marked g R s' :=
  ⟨h.known, h.marks, h.select, h.base.mono hx⟩

lemma Shifts.continues (h : s.Shifts s') : s.Continues g s' :=
  .of_stages h.lengthens h.stages h.parents

lemma Shifts.marked (h : s.Shifts s') (hrequired : s'.required.Permitted R s)
    (hs : s.Marked g R) : s'.Marked g R := by
  have hnames : s'.stageNames = s.stageNames := by rw [stageNames, stageNames, h.stages]
  have hx := h.lengthens
  refine ⟨?_, ?_, ?_, ?_, ?_, ?_, ?_⟩
  · rw [hnames, h.count]
    exact hs.names
  · rw [h.stages]
    exact fun stage hmem => Stage.Marked.mono (hs.stages stage hmem) hx
  · rw [h.staged]
    exact fun e he => (hs.staged e he).mono hx
  · rw [h.pages]
    exact fun e he => (hs.pages e he).mono hx
  · rw [h.written, hnames]
    exact hs.written
  · exact fun name columns hl c hc => (hrequired name columns hl c hc).imp fun r hr =>
      ⟨hr.1.mono hx, hr.2⟩
  · rw [h.parents]
    exact fun p hp => (hs.parents p hp).imp fun r hr => ⟨hr.1, hr.2.1.mono hx, hr.2.2⟩

end PlanState

/-- The law of planning: the marks of all stages are good. -/
def marking (g : Graph) (R : Relation → String → Prop) : Law where
  holds s := s.Marked g R
  grows s s' := s.Continues g s'
  refl s := .refl s
  trans h h' := h.trans h'

section Steps

variable {α β : Type} {x : Plan α} {a : α} {c : String} {l : List α}

lemma Plan.Keeps.names_marks {post : α → PlanState → Prop} (hx : x s = .ok (a, s'))
    (hn : s.Shifts s') (hr : s'.required = s.required) (h : post a s') :
    Keeps (marking g R) x s post :=
  .of_run hx (fun hs => hn.marked (by rw [hr]; exact hs.required) hs) hn.continues h

lemma freshLateral_marks :
    Keeps (marking g R) freshLateral s fun lateral _ =>
      ∃ k, lateral = numberedName 'j' k :=
  .names_marks rfl {} rfl ⟨_, rfl⟩

lemma freshAggregate_marks :
    Keeps (marking g R) freshAggregate s fun rows _ =>
      ∃ k, rows = numberedName 'a' k :=
  .names_marks rfl {} rfl ⟨_, rfl⟩

lemma Requirements.Permitted.require {rs : Requirements} (h : rs.Permitted R s) {name : String}
    (hstage : s.StageOf name r) (hc : R r c) : (rs.require name c).Permitted R s := by
  intro n columns hlookup c' hc'
  rw [Requirements.require, lookup_putKey] at hlookup
  split at hlookup
  · rename_i hn
    subst hn
    cases hold : rs.lookup n with
    | none =>
      rw [hold] at hlookup
      cases hlookup
      have hsame : c' = c := by simpa [addOnce] using hc'
      rw [hsame]
      exact ⟨r, hstage, hc⟩
    | some required =>
      cases required with
      | all => rw [hold] at hlookup; cases hlookup
      | columns old =>
        rw [hold] at hlookup
        cases hlookup
        rcases mem_addOnce.mp hc' with hc' | rfl
        · exact h n old hold c' hc'
        · exact ⟨r, hstage, hc⟩
  · exact h n columns hlookup c' hc'

lemma need_marks {stage : Option String} (hstage : s.Reads stage r)
    (hc : R r c) : Keeps (marking g R) (need stage c) s fun _ _ => True := by
  cases stage with
  | none => exact .of_pure trivial
  | some name =>
    have hshift : s.Shifts { s with required := s.required.require name c } := {}
    exact .of_run rfl (fun hs => hshift.marked (hs.required.require (hstage name rfl) hc) hs)
      hshift.continues trivial

lemma needAll_marks (name : String) : Obeys (marking g R) (needAll name) := by
  intro s
  have hshift : s.Shifts { s with required := s.required.requireAll name } := {}
  refine .of_run rfl (fun hs => hshift.marked ?_ hs) hshift.continues trivial
  intro n columns hlookup
  rw [Requirements.requireAll, lookup_putKey] at hlookup
  split at hlookup
  · cases hlookup
  · exact hs.required n columns hlookup

lemma needAllIfEmpty_marks (o : Opened) (selection : Selection) :
    Obeys (marking g R) (o.needAllIfEmpty selection) := by
  rw [Opened.needAllIfEmpty]
  split
  · exact needAll_marks _
  · exact .pure _

/-- Steps for the elements of a list, with their results. -/
lemma mapM_marks {f : α → Plan β} {marks : β → List Mark}
    (h : ∀ a ∈ l, ∀ s1, s.Continues g s1 → Keeps (marking g R) (f a) s1 fun b s' =>
      Fragment g R s1 s' free (marks b)) :
    Keeps (marking g R) (l.mapM f) s fun bs s' => Fragment g R s s' free (bs.flatMap marks) := by
  induction l generalizing s with
  | nil => exact .of_pure (.nil (.refl s))
  | cons a rest ih =>
    rw [mapM_cons]
    refine (h a (by simp) s (.refl s)).bind fun b s1 hx1 hfirst => ?_
    have hrest := ih fun b hb s2 hx2 => h b (by simp [hb]) s2 (hx1.trans hx2)
    exact hrest.bind fun bs s2 hx2 hmore => .of_pure (hfirst.append hx1 hx2 hmore)

end Steps

end StagedSql
