import Mathlib.Data.List.Nodup
import StagedSql.Schema.Basic

/-!
What holds of the relations of an accepted schema.
-/

namespace StagedSql

open List Schema

variable {c : Column} {r : Relation} {name : String} {s : Schema} {ε α : Type} {id : RelationId}
  {relations : List Relation}

/-! ### Checks that succeed -/

lemma Except.bind_ok {β : Type} {x : Except ε α} {f : α → Except ε β} {b : β}
    (h : x >>= f = .ok b) : ∃ a, x = .ok a ∧ f a = .ok b := by
  cases x with
  | error e => cases h
  | ok a => exact ⟨a, rfl, h⟩

/-- A check that is made for each element of a list succeeds if it does for each of them. -/
lemma Except.forM_ok {f : α → Except ε Unit} {l : List α} :
    l.forM f = .ok () ↔ ∀ a ∈ l, f a = .ok () := by
  induction l with
  | nil => exact ⟨fun _ => by simp, fun _ => rfl⟩
  | cons a rest ih =>
    rw [forall_mem_cons, ← ih, List.forM]
    cases f a <;> simp [bind, Except.bind]

/-! ### Relations -/

/-- The columns that are in the table of a relation. -/
def Relation.storedNames (r : Relation) : List String :=
  (r.columns.filter fun c => !c.isReverse).map (·.name)

lemma Column.isReverse_eq_false
    (h : ∀ relation column, c.kind = .reverse relation column → False) : c.isReverse = false := by
  rw [Column.isReverse]
  simp

lemma Relation.name_of_column? (h : r.column? name = some c) : c.name = name := by
  simpa using find?_some h

lemma Relation.mem_of_column? (h : r.column? name = some c) : c ∈ r.columns :=
  mem_of_find?_eq_some h

lemma Relation.column_eq_ok : r.column name = .ok c ↔ r.column? name = some c := by
  rw [Relation.column]
  cases r.column? name <;> simp

lemma Relation.mem_storedNames (h : r.column? name = some c)
    (hc : c.isReverse = false) : name ∈ r.storedNames := by
  refine mem_map.mpr ⟨c, mem_filter.mpr ⟨Relation.mem_of_column? h, ?_⟩, Relation.name_of_column? h⟩
  simp [hc]

/-! ### Schemas -/

namespace Schema

/-- **Primary keys that are stored**: the key of each relation is a column of its table. A schema is
accepted without this if a reverse column has the name of the key. -/
def StoredKeys (s : Schema) : Prop := ∀ r ∈ s.relations, r.primaryKey ∈ r.storedNames

/-- **A schema whose links fit together**: the columns of a relation differ in name, and the
column that a reverse link goes back by is a forward column of the relation that it leads to. -/
structure Linked (s : Schema) : Prop where
  columns_nodup : ∀ r ∈ s.relations, (r.columns.map (·.name)).Nodup
  forward : ∀ r ∈ s.relations, ∀ c ∈ r.columns, ∀ target, c.kind = .forward target →
    ∃ t, s.get? target = some t
  reverse : ∀ r ∈ s.relations, ∀ c ∈ r.columns, ∀ target via, c.kind = .reverse target via →
    ∃ t, s.get? target = some t ∧ ∃ link, t.column? via = some link ∧ link.kind = .forward r.name

lemma mem_of_get? (h : s.get? name = some r) : r ∈ s.relations :=
  mem_of_find?_eq_some h

lemma name_of_get? (h : s.get? name = some r) : r.name = name := by
  simpa using find?_some h

lemma relation_of_resolve (h : s.get? name = some r) :
    ∃ id, s.resolve name = .ok id ∧ s.relation id = .ok r := by
  obtain ⟨i, hi⟩ : ∃ i, s.relations.findIdx? (·.name == name) = some i := by
    rw [← Option.isSome_iff_exists, findIdx?_isSome, any_eq_true]
    exact ⟨r, mem_of_get? h, by simp [name_of_get? h]⟩
  refine ⟨⟨s.id, i⟩, by simp [resolve, lookup?, hi], ?_⟩
  obtain ⟨hlt, hp, hmin⟩ := findIdx?_eq_some_iff_getElem.mp hi
  have hfirst : s.get? name = some s.relations[i] :=
    find?_eq_some_iff_getElem.mpr ⟨hp, i, hlt, rfl, fun j hj => by simpa using hmin j hj⟩
  have hr : s.relations[i]? = some r := by
    rw [← h, hfirst, getElem?_eq_getElem hlt]
  simp [relation, hr]

lemma get?_of_resolve
    (h : s.resolve name = .ok id) : ∃ r, s.get? name = some r ∧ s.relation id = .ok r := by
  cases hg : s.get? name with
  | none =>
    exfalso
    rw [get?, find?_eq_none] at hg
    have hnone : s.relations.findIdx? (·.name == name) = none := by
      simp_all
    simp [resolve, lookup?, hnone] at h
  | some r =>
    obtain ⟨id', hid, hr⟩ := relation_of_resolve hg
    rw [h] at hid
    cases hid
    exact ⟨r, rfl, hr⟩

lemma mem_of_relation (h : s.relation id = .ok r) : r ∈ s.relations := by
  rw [relation] at h
  grind

/-- The column of a name and the relation that it leads to. -/
def link? (schema : Schema) (r : Relation) (name : String) : Option (Column × Relation) := do
  let c ← r.column? name
  let t ← schema.get? (← c.related?)
  return (c, t)

lemma link?_eq_some {schema : Schema} {t : Relation} :
    schema.link? r name = some (c, t) ↔ r.column? name = some c ∧
      ∃ target, c.related? = some target ∧ schema.get? target = some t := by
  simp only [link?, Option.bind_eq_bind, Option.bind_eq_some_iff, Option.pure_def,
    Option.some.injEq, Prod.mk.injEq]
  simp

/-- **Columns that pass their check**: they differ from each other and from those seen, and the
types that they declare are types. -/
lemma checkColumns_eq_ok {relation : String} {columns : List Column} {seen : List String} :
    checkColumns relation seen columns = .ok () ↔
      (columns.map (·.name)).Nodup ∧ (∀ c ∈ columns, c.name ∉ seen) ∧
        ∀ c ∈ columns, ∀ t ∈ c.type?, isTypeName t = true := by
  induction columns generalizing seen with
  | nil => simp [checkColumns]
  | cons c rest ih =>
    rw [checkColumns]
    by_cases hseen : c.name ∈ seen
    · simp [hseen, throw, throwThe, MonadExceptOf.throw, bind, Except.bind]
    · cases htype : c.type? with
      | none =>
        simp [hseen, htype, ih]
        grind
      | some t =>
        by_cases ht : isTypeName t
        · simp [hseen, htype, ht, ih]
          grind
        · simp [hseen, htype, ht, throw, throwThe, MonadExceptOf.throw, bind, Except.bind]

lemma repeated?_eq_none {seen names : List String} :
    repeated? seen names = none ↔ names.Nodup ∧ ∀ name ∈ names, name ∉ seen := by
  induction names generalizing seen with
  | nil => simp [repeated?]
  | cons name rest ih =>
    rw [repeated?]
    grind

lemma checkRelation_eq_ok : s.checkRelation r = .ok () ↔
    checkColumns r.name [] r.columns = .ok () ∧ checkPrimaryKey r = .ok () ∧
      ∀ c ∈ r.columns, s.checkLink r c = .ok () := by
  rw [checkRelation, ← Except.forM_ok]
  cases checkColumns r.name [] r.columns <;> cases checkPrimaryKey r <;>
    simp [bind, Except.bind]

/-- **A schema is accepted** if its relations differ in name and pass their checks. -/
lemma ofRelations_eq_ok {id : Nat} : ofRelations id relations = .ok s ↔
    s = ⟨id, relations⟩ ∧ (relations.map (·.name)).Nodup ∧
      ∀ r ∈ relations, s.checkRelation r = .ok () := by
  rw [ofRelations]
  constructor
  · intro h
    split at h
    · cases h
    · rename_i hnames
      split at h
      next hcheck =>
        cases h
        exact ⟨rfl, (repeated?_eq_none.mp hnames).1, Except.forM_ok.mp hcheck⟩
      · cases h
  · rintro ⟨rfl, hnames, hchecked⟩
    rw [repeated?_eq_none.mpr ⟨hnames, by simp⟩, check, Except.forM_ok.mpr hchecked]

lemma refersTo_iff {column target : String} :
    r.refersTo column target = true ↔
      ∃ c, r.column? column = some c ∧ c.kind = .forward target := by
  rw [Relation.refersTo]
  cases r.column? column with
  | none => simp
  | some c => simp

end Schema

/-- **Every accepted schema is linked.** -/
theorem linked_of_ofRelations {id : Nat} (h : ofRelations id relations = .ok s) : s.Linked := by
  obtain ⟨rfl, -, hchecked⟩ := ofRelations_eq_ok.mp h
  have hlinks := fun r hr => (checkRelation_eq_ok.mp (hchecked r hr)).2.2
  refine ⟨fun r hr => ?_, fun r hr c hc target hk => ?_, fun r hr c hc target via hk => ?_⟩
  · exact (checkColumns_eq_ok.mp (checkRelation_eq_ok.mp (hchecked r hr)).1).1
  · have hlink := hlinks r hr c hc
    rw [checkLink, hk] at hlink
    cases hg : get? ⟨id, relations⟩ target with
    | none => simp [hg] at hlink
    | some t => exact ⟨t, rfl⟩
  · have hlink := hlinks r hr c hc
    rw [checkLink, hk] at hlink
    cases hg : get? ⟨id, relations⟩ target with
    | none => simp [hg] at hlink
    | some t =>
      by_cases href : t.refersTo via r.name
      · exact ⟨t, rfl, refersTo_iff.mp href⟩
      · simp [hg, href] at hlink

/-! ### Names and keys -/

/-- **What is known of an accepted schema**: it is linked, each relation is found by its name, and
has its primary key among its columns. -/
structure Schema.Accepted (s : Schema) : Prop extends Schema.Linked s where
  named : ∀ r ∈ s.relations, s.get? r.name = some r
  key : ∀ r ∈ s.relations, ∃ c, r.column? r.primaryKey = some c

lemma Schema.get?_of_mem (h : (s.relations.map (·.name)).Nodup)
    (hr : r ∈ s.relations) : s.get? r.name = some r := by
  obtain ⟨found, hfound⟩ : ∃ found, s.get? r.name = some found := by
    rw [← Option.isSome_iff_exists, get?, find?_isSome]
    exact ⟨r, hr, by simp⟩
  have hsame : found = r :=
    inj_on_of_nodup_map h (mem_of_get? hfound) hr (name_of_get? hfound)
  rw [hfound, hsame]

lemma Schema.key_of_checkPrimaryKey (h : checkPrimaryKey r = .ok ()) :
    ∃ c, r.column? r.primaryKey = some c := by
  cases hc : r.column? r.primaryKey with
  | some c => exact ⟨c, rfl⟩
  | none =>
    exfalso
    rw [checkPrimaryKey] at h
    by_cases hlen : 1 < (r.columns.filter (·.primaryKey)).length
    · simp [hlen, throw, throwThe, MonadExceptOf.throw, bind, Except.bind] at h
    · simp [hlen, hc, throw, throwThe, MonadExceptOf.throw] at h

/-- **Every schema that is made of relations is accepted.** -/
theorem accepted_of_ofRelations {id : Nat} (h : ofRelations id relations = .ok s) : s.Accepted := by
  have hlinked := linked_of_ofRelations h
  obtain ⟨rfl, hnames, hchecked⟩ := ofRelations_eq_ok.mp h
  refine ⟨hlinked, fun r hr => get?_of_mem hnames hr, fun r hr => ?_⟩
  exact key_of_checkPrimaryKey (checkRelation_eq_ok.mp (hchecked r hr)).2.1

end StagedSql
