import StagedSql.Proofs.Plan.ShownShapes

/-!
Lookups of related rows as lateral joins.

Every lookup becomes a lateral join that finds exactly one row for each outer row, so joins neither
drop nor repeat rows (`joinRows_shows`).
-/

namespace StagedSql

open List StagedSql.Expr

variable {ops : Operators} {schema : Schema} {db : Database} {t : Relation} {qi qo a b : String}
  {sh : Shape} {lo hi : Nat} {members : (String → Value) → List (String × Json)} {env : Env}
  {v : Value}

/-! ### The rows that a link leads to -/

lemma tableItem_qualifier (name qualifier : String) :
    (tableItem name qualifier).qualifier = qualifier := by
  by_cases h : name = qualifier
  · simp [tableItem, FromItem.qualifier, h]
  · simp [tableItem, FromItem.qualifier, h]

lemma Expr.holds_link {ts : Tables} {q1 q2 : String} {w : Value}
    (hv : env.column? (some q1) a = some v) (hw : env.column? (some q2) b = some w) :
    holds ops ts env (some (.binary .eq (.of q1 a) (.of q2 b))) = some (ops.same v w) := by
  rw [holds, eval, of, of, eval, eval, hv, hw]
  simp only [Option.bind_eq_bind, Option.bind_some, Operators.apply]
  cases hn : (v.isNull || w.isNull) with
  | true =>
    have hs : ops.same v w = false := by
      rcases (Bool.or_eq_true _ _).mp hn with h | h <;> simp [Operators.same, h]
    simp [Value.truth?, hs]
  | false =>
    obtain ⟨h1, h2⟩ := (Bool.or_eq_false_iff).mp hn
    simp [Value.truth?, Operators.same, h1, h2]

lemma SelectItem.columns_simple {items : List SelectItem} (sources : List (String × List String))
    (h : ∀ item ∈ items, item.isStar = false) :
    SelectItem.columns sources items = some (items.map (·.givenName)) := by
  induction items with
  | nil => rfl
  | cons item rest ih =>
    have hstar := h item (by simp)
    have hrest := ih fun i hi => h i (by simp [hi])
    obtain ⟨e, label⟩ := item
    cases label with
    | some l => simp [SelectItem.columns, hrest]
    | none =>
      cases e
      case star => exact absurd hstar (by simp [SelectItem.isStar])
      all_goals simp [SelectItem.columns, hrest]

/-- The object that a shape shows: all stored columns if it has no items. -/
def Shape.shownObject (sh : Shape) (t : Relation)
    (members : (String → Value) → List (String × Json)) (values : String → Value) : Json :=
  if sh.items = [] then wholeObject t values else .obj (members values)

/-- The SELECT of a shape over a relation, linked to an outer row by two columns. -/
def linkedSelect (t : Relation) (qi : String) (sh : Shape) (a qo b : String) : Select :=
  ((⟨tableItem t.name qi, qi, t, none⟩ : Opened).scan sh.joins sh.items).select.filter
    (.binary .eq (.of qi a) (.of qo b))

lemma linkedSelect_eq (a b : String) : linkedSelect t qi sh a qo b =
    ⟨sh.items, some (tableItem t.name qi), sh.joins, some (.binary .eq (.of qi a) (.of qo b)), [],
      none, none⟩ := rfl

lemma linkedSelect_columns (hg : schema.get? t.name = some t) (hplain : schema.PlainNames)
    (hsh : sh.Shows ops (db.tables schema) t qi lo hi members) (a qo b : String) :
    ∃ columns, (linkedSelect t qi sh a qo b).columns (db.tables schema).catalog = some columns ∧
      ∀ c ∈ columns, isGeneratedName c = false := by
  obtain ⟨sources, hs⟩ := hsh.sources
  have hitem : FromItem.sources (db.tables schema).catalog (some (tableItem t.name qi)) =
      some [((tableItem t.name qi).qualifier, t.storedNames)] := by
    have hcat : (db.tables schema).catalog t.name = some t.storedNames := by
      rw [Tables.catalog, Database.tables, hg]
      rfl
    rw [FromItem.sources, tableItem, FromItem.columns, hcat]
    rfl
  rw [linkedSelect_eq, Select.columns, hitem, hs]
  by_cases he : sh.items = []
  · have hnil : sources = [] := by
      rw [hsh.few he] at hs
      cases hs
      rfl
    refine ⟨t.storedNames, by simp [he, hnil], ?_⟩
    intro c hc
    obtain ⟨col, hcol, rfl⟩ := mem_map.mp hc
    exact (hplain t (Schema.mem_of_get? hg)).2 col (mem_filter.mp hcol).1
  · refine ⟨sh.items.map (·.givenName), ?_, ?_⟩
    · simp only [List.isEmpty_iff, he]
      exact SelectItem.columns_simple _ fun item hi => (hsh.items item hi).1
    · intro c hc
      obtain ⟨item, hi, rfl⟩ := mem_map.mp hc
      exact (hsh.items item hi).2.2

/-- **The rows of a shape.** The SELECT of a shape over a relation gives the rows that its condition
keeps, each as the shape shows it. -/
lemma shapeSelect_rows (hg : schema.get? t.name = some t) (hplain : schema.PlainNames)
    (hqi : ∀ k, qi ≠ numberedName 'j' k) (hsh : sh.Shows ops (db.tables schema) t qi lo hi members)
    (hp : env.Plain) {condition : Option Expr} {keep : (String → Value) → Bool}
    (hcond : ∀ values, ∀ found : Level, found.Between lo hi →
      holds ops (db.tables schema) (([⟨qi, t.row values, true⟩] ++ found) :: env) condition =
        some (keep values)) :
    ∃ cells : (String → Value) → Row, Select.rows ops (db.tables schema) env
          ⟨sh.items, some (tableItem t.name qi), sh.joins, condition, [], none, none⟩ =
          some (((db.rows t.name).filter keep).map cells) ∧
        ∀ values, (cells values).toJson = sh.shownObject t members values ∧
          ∀ e ∈ cells values, isGeneratedName e.1 = false := by
  have ht := Schema.mem_of_get? hg
  have hstart : ∀ values : String → Value,
      Level.Holds [⟨qi, t.row values, true⟩] t qi lo values := by
    intro values
    refine ⟨by simp, ?_⟩
    intro x hx
    exact .inl (by rw [mem_singleton.mp hx])
  have hstartPlain : ∀ values : String → Value, Level.Plain [⟨qi, t.row values, true⟩] := by
    intro values x hx
    rw [mem_singleton.mp hx]
    exact t.row_plain hplain ht values
  -- for each row, what the joins find and what the items then give
  choose found hjoin hbetween hfplain hcells using fun values =>
    hsh.cells values [⟨qi, t.row values, true⟩] env (hstart values)
      (Env.Plain.cons (hstartPlain values) hp)
  choose row hrow hmem using fun values =>
    hcells values [] (by simp [Level.Above]) (by simp [Level.Plain])
  obtain ⟨sources, hs⟩ := hsh.sources
  have hitem : (tableItem t.name qi).qualifier = qi := tableItem_qualifier _ _
  have hnames : (boundNames (some (tableItem t.name qi)) sh.joins).Nodup := by
    refine nodup_cons.mpr ⟨?_, hsh.nodup⟩
    intro hmem
    obtain ⟨j, hj, he⟩ := mem_map.mp hmem
    obtain ⟨k, -, -, hl⟩ := hsh.labels j hj
    exact hqi k (by rw [← hl, he, hitem])
  have hrows : (tableItem t.name qi).rows ops (db.tables schema) env =
      some ((db.rows t.name).map t.row) := by
    rw [tableItem, FromItem.rows, Database.tables, hg]
    rfl
  have hproj : ∀ values ∈ db.rows t.name, projected ops (db.tables schema) env sh.items
      ([⟨qi, t.row values, true⟩] ++ found values) =
      some (if sh.items = [] then t.row values else row values) := by
    intro values _
    by_cases he : sh.items = []
    · have hf : found values = [] := by
        have := hjoin values
        rw [hsh.few he, Join.levels] at this
        simpa using this
      simp [projected, he, hf]
    · have := hrow values
      rw [append_nil] at this
      rwa [projected, if_neg (by simpa using he), if_neg he]
  refine ⟨fun values => if sh.items = [] then t.row values else row values, ?_, ?_⟩
  · refine Select.rows_plain hnames ?_ hrows hs (fun values _ => ?_)
      (fun values _ => hcond values _ (hbetween values)) hproj
    · rw [any_eq_false]
      exact fun item hi => by simpa using (hsh.items item hi).2.1
    · rw [hitem]
      exact hjoin values
  · intro values
    by_cases he : sh.items = []
    · simp only [he, Shape.shownObject]
      exact ⟨rfl, t.row_plain hplain ht values⟩
    · simp only [he, if_false, Shape.shownObject]
      refine ⟨by rw [Row.toJson, hmem], ?_⟩
      intro e hmemRow
      have hname : e.1 ∈ (members values).map (·.1) := by
        grind
      rw [hsh.names] at hname
      obtain ⟨item, hi, hgiven⟩ := mem_map.mp hname
      rw [← hgiven]
      exact (hsh.items item hi).2.2

/-- **The rows that a link leads to.** A linked SELECT gives the rows of the relation in which the
link column is equal to that of the outer row, each as its shape shows it. -/
lemma linkedSelect_rows (hg : schema.get? t.name = some t) (hplain : schema.PlainNames)
    (hnd : t.storedNames.Nodup) (ha : a ∈ t.storedNames) (hne : qi ≠ qo)
    (hqi : ∀ k, qi ≠ numberedName 'j' k) (hqo : ∀ k, qo ≠ numberedName 'j' k)
    (hsh : sh.Shows ops (db.tables schema) t qi lo hi members) (hp : env.Plain)
    (hv : env.column? (some qo) b = some v) :
    ∃ cells : (String → Value) → Row,
      (linkedSelect t qi sh a qo b).rows ops (db.tables schema) env =
          some ((db.linked ops t a v).map cells) ∧
        ∀ values, (cells values).toJson = sh.shownObject t members values ∧
          ∀ e ∈ cells values, isGeneratedName e.1 = false := by
  refine shapeSelect_rows hg hplain hqi hsh hp fun values found hbetween => holds_link ?_ ?_
  · simp [Env.column?, Env.binding?, t.row_cell? hnd ha]
  · -- the outer name is not bound again, neither by the relation nor by its joins
    have hnone : ([⟨qi, t.row values, true⟩] ++ found : Level).find? (·.label == qo) = none := by
      rw [find?_eq_none]
      intro x hx
      rcases mem_append.mp hx with hx | hx
      · rw [mem_singleton.mp hx]
        simpa using hne
      · obtain ⟨k, -, -, hl⟩ := hbetween x hx
        rw [hl]
        simpa using (hqo k).symm
    rw [← hv, Env.column?, Env.column?, Env.binding?, hnone]

/-! ### Rows as an array -/

section Arrays

variable {ts : Tables} {n : Nat} {rows : List Row} {ordering : List OrderItem}
  {keys : Row → List (Value × Bool)} {inner : Select}

lemma Value.toJson_array_json (docs : List Json) :
    (Value.array (docs.map .json)).toJson = .arr docs := by
  rw [Value.toJson]
  congr 1
  induction docs with
  | nil => rfl
  | cons doc rest ih => rw [map_cons, Value.toJsonItems, ih, Value.toJson]

lemma gatheredArray_single (vs : List Value) :
    gatheredArray (vs.map fun v => [v]) = some (if vs.isEmpty then .null else .array vs) := by
  have h : (vs.map fun v => [v]).mapM only? = some vs := by
    have honly : ∀ v : Value, (only? ∘ fun v => [v]) v = some (id v) := fun _ => rfl
    rw [mapM_map, mapM_eq_some_map fun v _ => honly v, map_id]
  rw [gatheredArray, h]
  rfl

/-- The rows of a derived table gathered into an array in the order of sort keys, which is empty if
there are none. -/
lemma aggregateRows_eval (hp : env.Plain)
    (hrows : ∀ row ∈ rows, ∀ e ∈ row, isGeneratedName e.1 = false)
    (hkeys : ∀ row ∈ rows, OrderItem.keys ops ts ([⟨numberedName 'a' n, row, true⟩] :: env)
      ordering = some (keys row)) (seen : Env) :
    (aggregateRows (numberedName 'a' n) ordering).eval ops ts seen
        (some (rows.map fun row => [⟨numberedName 'a' n, row, true⟩] :: env)) =
      some (.array (((ops.sorted (rows.map fun row => (keys row, row))).map Row.toJson).map
        .json)) := by
  have hitems : (rows.map fun row => ([⟨numberedName 'a' n, row, true⟩] :: env : Env)).mapM
      (fun env => do
        return (← OrderItem.keys ops ts env ordering,
          ← evalEach ops ts env none [.rowToJson (numberedName 'a' n)])) =
      some (rows.map fun row => (keys row, [Value.json row.toJson])) := by
    rw [mapM_map]
    refine mapM_eq_some_map fun row hrow => ?_
    have hplain : Env.Plain ([⟨numberedName 'a' n, row, true⟩] :: env) := by
      refine Env.Plain.cons ?_ hp
      intro b hb
      rw [mem_singleton.mp hb]
      exact hrows row hrow
    have heval : (rowToJson (numberedName 'a' n)).eval ops ts
        ([⟨numberedName 'a' n, row, true⟩] :: env) none = some (.json row.toJson) := by
      have hgen : isGeneratedName (numberedName 'a' n) = true :=
        isGeneratedName_numberedName (by decide) n
      have hfound : Env.binding? ([⟨numberedName 'a' n, row, true⟩] :: env)
          (numberedName 'a' n) = some ⟨numberedName 'a' n, row, true⟩ := by
        simp [Env.binding?]
      exact hplain.rowToJson hgen hfound
    simp [hkeys row hrow, evalEach, heval]
  have hsorted : ops.sorted (rows.map fun row => (keys row, [Value.json row.toJson])) =
      (((ops.sorted (rows.map fun row => (keys row, row))).map Row.toJson).map Value.json).map
        fun v => [v] := by
    rw [ops.sorted_map (fun row : Row => [Value.json row.toJson]), map_map, map_map]
    rfl
  generalize ops.sorted (rows.map fun row => (keys row, row)) = listed at hsorted ⊢
  have hgathered : (arrayAgg (.rowToJson (numberedName 'a' n)) ordering).eval ops ts seen
        (some (rows.map fun row => [⟨numberedName 'a' n, row, true⟩] :: env)) =
      some (if listed.isEmpty then .null else .array ((listed.map Row.toJson).map .json)) := by
    rw [arrayAgg, eval]
    simp only [Option.bind_eq_bind, Option.bind_some] at hitems ⊢
    rw [hitems, Option.bind_some, hsorted, gatheredArray_single]
    simp
  rw [aggregateRows, coalesce, apply, eval, evalEach, hgathered]
  cases listed <;> rfl

/-- **The rows of a SELECT as an array**: one row, which holds all of them in the order of sort
keys. -/
lemma arrayOf_ordered_rows (hp : env.Plain) (hr : inner.rows ops ts env = some rows)
    (hrows : ∀ row ∈ rows, ∀ e ∈ row, isGeneratedName e.1 = false)
    (hkeys : ∀ row ∈ rows, OrderItem.keys ops ts ([⟨numberedName 'a' n, row, true⟩] :: env)
      ordering = some (keys row)) :
    (arrayOf inner (numberedName 'a' n) ordering).rows ops ts env =
      some [[("value", .array (((ops.sorted (rows.map fun row => (keys row, row))).map
        Row.toJson).map .json))]] := by
  have hbase : FromItem.levels ops ts env
      (some (.derived (.select inner) (numberedName 'a' n) [])) =
      some (rows.map fun row => [⟨numberedName 'a' n, row, true⟩]) := by
    rw [FromItem.levels, FromItem.rows, Statement.rows, hr]
    simp [Row.renamed_nil, FromItem.qualifier]
  have hkept : filterOption (fun level => holds ops ts (level :: env) none)
      (rows.map fun row => [⟨numberedName 'a' n, row, true⟩]) =
      some (rows.map fun row => [⟨numberedName 'a' n, row, true⟩]) := by
    rw [filterOption_eq fun _ _ => show holds ops ts _ none = some true from rfl, filter_true]
  have hagg : [labelled (aggregateRows (numberedName 'a' n) ordering) "value"].any
      (·.expr.aggregates) = true := rfl
  have hcells : ∀ seen : Env, SelectItem.cells ops ts seen
      (some ((rows.map fun row => ([⟨numberedName 'a' n, row, true⟩] : Level)).map (· :: env)))
      [labelled (aggregateRows (numberedName 'a' n) ordering) "value"] =
      some [("value", .array (((ops.sorted (rows.map fun row => (keys row, row))).map
        Row.toJson).map .json))] := by
    intro seen
    rw [SelectItem.cells, SelectItem.itemCells_labelled, map_map]
    rw [Function.comp_def, aggregateRows_eval hp hrows hkeys seen]
    rfl
  rw [arrayOf, Select.empty, Select.rows]
  simp only [Option.bind_eq_bind, hbase, Option.bind_some, Join.levels, hkept, hcells]
  rfl

lemma arrayOf_rows (hp : env.Plain) (hr : inner.rows ops ts env = some rows)
    (hrows : ∀ row ∈ rows, ∀ e ∈ row, isGeneratedName e.1 = false) :
    (arrayOf inner (numberedName 'a' n) []).rows ops ts env =
      some [[("value", .array ((rows.map Row.toJson).map .json))]] := by
  have hkeys : ∀ row ∈ rows, OrderItem.keys ops ts ([⟨numberedName 'a' n, row, true⟩] :: env) [] =
      some [] := fun _ _ => rfl
  rw [arrayOf_ordered_rows hp hr hrows hkeys, Operators.sorted_unordered]

lemma arrayOf_columns {catalog : Catalog} {columns : List String}
    (h : inner.columns catalog = some columns) (rows : String) :
    (arrayOf inner rows []).columns catalog = some ["value"] := by
  rw [arrayOf, Select.columns, FromItem.sources, FromItem.columns, Statement.columns, h]
  rfl

end Arrays

/-! ### Joins of lookups -/

section Related

variable {r : Relation} {name target : String} {c : Column}

lemma Database.Keyed.linked_key (h : db.Keyed ops schema) (ht : t ∈ schema.relations) (v : Value) :
    db.linked ops t t.primaryKey v = [] ∨ ∃ row, db.linked ops t t.primaryKey v = [row] := by
  have hfar := (h t ht).filter fun row => ops.same (row t.primaryKey) v
  rw [Database.linked]
  cases hrows : (db.rows t.name).filter fun row => ops.same (row t.primaryKey) v with
  | nil => exact .inl rfl
  | cons a rest =>
    cases rest with
    | nil => exact .inr ⟨a, rfl⟩
    | cons b more =>
      exfalso
      have hkept : ∀ x ∈ a :: b :: more, ops.same (x t.primaryKey) v = true := by
        grind
      have ha := hkept a (by simp)
      have hb := hkept b (by simp)
      rw [hrows] at hfar
      have hab := (pairwise_cons.mp hfar).1 b (by simp)
      simp only [Operators.same, Bool.and_eq_true] at ha hb
      have heq : ops.equal (a t.primaryKey) (b t.primaryKey) = true :=
        ops.equal_equivalence.trans ha.2 (ops.equal_equivalence.symm hb.2)
      simp [Operators.same, ha.1.1, hb.1.1, heq] at hab

lemma Level.Holds.column? {level : Level} {values : String → Value}
    (h : level.Holds r qo lo values) (hnd : r.storedNames.Nodup) (hn : name ∈ r.storedNames)
    (env : Env) : Env.column? (level :: env) (some qo) name = some (values name) := by
  rw [Env.column?, Env.binding?, h.found]
  exact r.row_cell? hnd hn values

variable (hfits : db.Fits ops schema) (hr : r ∈ schema.relations) (hc : r.column? name = some c)
  (hne : qi ≠ qo)
  (hqi : ∀ k, qi ≠ numberedName 'j' k) (hqo : ∀ k, qo ≠ numberedName 'j' k)
  (hsh : sh.Shows ops (db.tables schema) t qi (lo + 1) hi members)

include hfits hr hc hne hqi hqo hsh

/-- **A forward lookup** shows the one row that its column refers to, or null. -/
lemma forwardJoin_shows (hk : c.kind = .forward target) (hg : schema.get? target = some t) :
    (Shape.ofJoin (.leftLateral (.select (linkedSelect t qi sh t.primaryKey qo name))
        (numberedName 'j' (lo + 1)), labelled (.rowToJson (numberedName 'j' (lo + 1))) name)).Shows
      ops (db.tables schema) r qo lo hi fun values =>
        [(name, relatedJson ops schema db r values name fun t => sh.shownObject t members)] := by
  have ht := Schema.mem_of_get? hg
  have hgt : schema.get? t.name = some t := by rw [Schema.name_of_get? hg, hg]
  have hstored : name ∈ r.storedNames :=
    Relation.mem_storedNames hc (by simp [Column.isReverse, hk])
  have hgen : isGeneratedName (numberedName 'j' (lo + 1)) = true :=
    isGeneratedName_numberedName (by decide) _
  obtain ⟨columns, hcolumns, hcplain⟩ :=
    linkedSelect_columns hgt hfits.plain hsh t.primaryKey qo name
  refine Shape.Shows.ofJoin hsh.le hqo hcolumns rfl ?_ ?_
  · rw [← Relation.name_of_column? hc]
    exact (hfits.plain r hr).2 c (Relation.mem_of_column? hc)
  · intro values level env hl hp
    obtain ⟨cells, hrows, hcells⟩ := linkedSelect_rows hgt hfits.plain
      (Relation.storedNames_nodup (hfits.linked.columns_nodup t ht)) (hfits.stored t ht) hne
      hqi hqo hsh hp
      (hl.column? (Relation.storedNames_nodup (hfits.linked.columns_nodup r hr)) hstored env)
    have hlevels := Join.levels_leftLateral hcolumns hrows (numberedName 'j' (lo + 1))
    -- one row at most is found, and a row of nulls stands for none
    rcases hfits.keyed.linked_key ht (values name) with hnone | ⟨row, hone⟩
    · rw [hnone] at hlevels
      refine ⟨_, rfl, ?_, hlevels, ?_⟩
      · intro b hb e he
        grind
      · intro seen hs hb
        refine ⟨.null, ?_, by simp [relatedJson, hc, hk, hg, hnone, Value.toJson]⟩
        rw [eval_rowToJson, hs.rowToJson hgen hb]
        rfl
    · rw [hone] at hlevels
      refine ⟨_, rfl, ?_, hlevels, ?_⟩
      · intro b hb e he
        rw [mem_singleton.mp hb] at he
        exact (hcells row).2 e he
      · intro seen hs hb
        refine ⟨.json (cells row).toJson, ?_, ?_⟩
        · rw [eval_rowToJson, hs.rowToJson hgen hb]
          rfl
        · simp [relatedJson, hc, hk, hg, hone, Value.toJson, (hcells row).1]

/-- **A reverse lookup** shows the array of all rows that refer back. -/
lemma reverseJoin_shows {via : String} (hk : c.kind = .reverse target via)
    (hg : schema.get? target = some t) (n : Nat) :
    (Shape.ofJoin (.leftLateral
        (.select (arrayOf (linkedSelect t qi sh via qo r.primaryKey) (numberedName 'a' n) []))
        (numberedName 'j' (lo + 1)), labelled (.of (numberedName 'j' (lo + 1)) "value") name)).Shows
      ops (db.tables schema) r qo lo hi fun values =>
        [(name, relatedJson ops schema db r values name fun t => sh.shownObject t members)] := by
  have ht := Schema.mem_of_get? hg
  have hgt : schema.get? t.name = some t := by rw [Schema.name_of_get? hg, hg]
  have hvia : via ∈ t.storedNames := by
    obtain ⟨t', hg', link, hlink, hkind⟩ :=
      hfits.linked.reverse r hr c (Relation.mem_of_column? hc) target via hk
    rw [hg] at hg'
    cases hg'
    exact Relation.mem_storedNames hlink (by simp [Column.isReverse, hkind])
  obtain ⟨columns, hcolumns, -⟩ := linkedSelect_columns hgt hfits.plain hsh via qo r.primaryKey
  refine Shape.Shows.ofJoin hsh.le hqo (arrayOf_columns hcolumns _) rfl ?_ ?_
  · rw [← Relation.name_of_column? hc]
    exact (hfits.plain r hr).2 c (Relation.mem_of_column? hc)
  · intro values level env hl hp
    obtain ⟨cells, hrows, hcells⟩ := linkedSelect_rows hgt hfits.plain
      (Relation.storedNames_nodup (hfits.linked.columns_nodup t ht)) hvia hne hqi hqo hsh hp
      (hl.column? (Relation.storedNames_nodup (hfits.linked.columns_nodup r hr))
        (hfits.stored r hr) env)
    have harray := arrayOf_rows (n := n) hp hrows (by
      intro row hrow
      obtain ⟨w, -, rfl⟩ := mem_map.mp hrow
      exact (hcells w).2)
    have hlevels := Join.levels_leftLateral (arrayOf_columns hcolumns _) harray
      (numberedName 'j' (lo + 1))
    refine ⟨_, rfl, ?_, hlevels, ?_⟩
    · intro b hb e he
      rw [mem_singleton.mp hb] at he
      rw [mem_singleton.mp he]
      change isGeneratedName "value" = false
      decide
    · intro seen hs hb
      have heval : (of (numberedName 'j' (lo + 1)) "value").eval ops (db.tables schema) seen
          none = some (.array ((((db.linked ops t via (values r.primaryKey)).map cells).map
            Row.toJson).map .json)) := by
        rw [of, eval, Env.column?, hb]
        rfl
      refine ⟨_, heval, ?_⟩
      rw [Value.toJson_array_json]
      simp only [relatedJson, hc, hk, hg, Option.map_some, map_map]
      congr 1
      exact map_congr_left fun w _ => (hcells w).1

/-- **The join of a lookup** shows what the column leads to. -/
lemma joinRows_shows (htarget : c.related? = some target) (hg : schema.get? target = some t)
    (scope : List String) (s : PlanState) :
    ∃ j s', joinRows ⟨r, qo, none, scope⟩ c name (numberedName 'j' (lo + 1))
        ((⟨tableItem t.name qi, qi, t, none⟩ : Opened).scan sh.joins sh.items) s = .ok (j, s') ∧
      s.NamesGrow s' ∧ s'.names.laterals = s.names.laterals ∧
      (Shape.ofJoin j).Shows ops (db.tables schema) r qo lo hi fun values =>
        [(name, relatedJson ops schema db r values name fun t => sh.shownObject t members)] := by
  cases hk : c.kind with
  | scalar => simp [Column.related?, hk] at htarget
  | forward relation =>
    have he : relation = target := by simpa [Column.related?, hk] using htarget
    subst he
    refine ⟨_, s, ?_, .refl s, rfl, forwardJoin_shows hfits hr hc hne hqi hqo hsh hk hg⟩
    rw [joinRows, hk]
    rfl
  | reverse relation via =>
    have he : relation = target := by simpa [Column.related?, hk] using htarget
    subst he
    refine ⟨_, { s with names := { s.names with aggregates := s.names.aggregates + 1 } }, ?_,
      ⟨rfl, le_rfl, le_rfl⟩, rfl, reverseJoin_shows hfits hr hc hne hqi hqo hsh hk hg
      (s.names.aggregates + 1)⟩
    rw [joinRows, hk]
    rfl

end Related

end StagedSql
