import StagedSql.Proofs.Plan.ScannedRows
import StagedSql.Proofs.Plan.ScopedReadings
import StagedSql.Proofs.Sql.RecursiveTables

/-!
The rows that a walk finds.

The table of a walk is recursive: it begins with the rows that are linked to an outer row, and goes
on with rows that are linked to rows found before. It holds one row for each trail
(`exists_walkTable`).
-/

namespace StagedSql

open List Plan SelectItem

variable {name table : String} {ts : Tables} {env : Env} {ops : Operators} {a b : Row}

/-! ### The SELECTs of a walk -/

/-- The rows that are linked to the row `outer`. -/
def walkStart (r : Relation) (c : Column) (first outer : String) : Select :=
  ⟨[⟨.star (some first), none⟩, labelled (.int 1) "depth"], some (.table r.name (some first)), [],
    some (.binary .eq (.of first (c.linkOf r)) (.of outer (c.linkFrom r))), [], none, none⟩

/-- The rows that are linked to rows of the table. -/
def walkStep (r : Relation) (c : Column) (table next : String) (maxDepth : Option UInt32) :
    Select :=
  ⟨[⟨.star (some next), none⟩, labelled (.binary .plus (.of table "depth") (.int 1)) "depth"],
    some (.table r.name (some next)),
    [⟨.inner, false, .table table none,
      some (.binary .eq (.of next (c.linkOf r)) (.of table (c.linkFrom r)))⟩],
    maxDepth.map fun n => .binary .lt (.of table "depth") (.int n.toUInt64.toInt64), [], none, none⟩

/-- What a shape shows of the rows of a walk, and their depth. -/
def walkedRows (table : String) (sh : Shape) : Select :=
  ⟨if sh.items = [] then [] else sh.items ++ [⟨.of table "depth", none⟩],
    some (.table table none), sh.joins, none, [], none, none⟩

/-- The statement of a walk. -/
def walkStatement (table : String) (start step shown : Select) (rows : String) : Statement :=
  .withCtes true [⟨table, .union true [.select start, .select step]⟩]
    (.select (arrayOf shown rows [⟨.of rows "depth", none⟩]))

section Planned

variable {schema : Schema} {earlier : Earlier} {outer : Outer} {s : PlanState} {r : Relation}
  {target : RelationId}

lemma beginWalk_selects (c : Column) (hr : schema.relation target = .ok r)
    (maxDepth : Option UInt32) :
    Ensures (beginWalk schema outer c target maxDepth) s fun w _ => ∃ a b k,
      s.names.relations < a ∧ w = ⟨numberedName 'c' k, target,
        walkStart r c (numberedName 'r' a) outer.qualifier,
        walkStep r c (numberedName 'c' k) (numberedName 'r' b) maxDepth⟩ := by
  refine .lift_bind fun r' hr' => ?_
  obtain rfl : r = r' := by simpa [hr] using hr'
  dsimp only
  split
  · exact .throw_bind
  · refine ((need_plain _ _).quiet s trivial).bind fun _ s1 hq => ?_
    refine .run_bind rfl (.run_bind rfl (.run_bind rfl (.of_pure ?_)))
    refine ⟨s1.names.relations + 1, s1.names.relations + 1 + 1, s1.names.walks + 1,
      Nat.lt_succ_of_le hq.2.1.relations, ?_⟩
    rw [walkLink_eq, walkLink_eq]
    cases maxDepth <;> rfl

lemma shape_stored (selection : Selection) (hl : selection.lookups = [])
    (hf : ∀ f ∈ selection.fields, ∀ c, outer.relation.column? f = some c → c.isReverse = false) :
    Ensures (shape schema earlier outer selection) s fun sh _ =>
      sh = ⟨[], selection.fields.map fun f => ⟨.of outer.qualifier f, none⟩⟩ := by
  obtain ⟨fields, lookups⟩ := selection
  obtain rfl : lookups = [] := hl
  have hfields : ∀ s, Ensures (shapeFields schema outer fields) s fun sh _ =>
      sh = ⟨[], fields.map fun f => ⟨.of outer.qualifier f, none⟩⟩ := by
    induction fields with
    | nil => exact fun s => .of_pure rfl
    | cons name rest ih =>
      intro s
      obtain ⟨hname, hrest⟩ := forall_mem_cons.mp hf
      have hfield : Ensures (shapeField schema outer name) s fun sh _ =>
          sh = .ofItem ⟨.of outer.qualifier name, none⟩ := by
        refine .lift_bind fun c hc => ?_
        rw [hname c (Relation.column_eq_ok.mp hc)]
        exact .bind_any fun _ _ => .of_pure rfl
      refine hfield.bind fun sh s1 hsh => (ih hrest s1).bind fun sh' _ hsh' => .of_pure ?_
      rw [hsh, hsh']
      rfl
  refine (hfields s).bind fun sh _ hsh => .run_bind rfl (.of_pure ?_)
  rw [hsh, Shape.append, Shape.empty, append_nil, append_nil]

/-- **The statement of a planned walk.** -/
lemma shapeLookup_walk (name lateral : String) (c : Column) (hr : schema.relation target = .ok r)
    (selection : Selection) (maxDepth : Option UInt32) :
    Ensures (shapeLookup schema earlier outer name c target lateral
        (.recursive selection maxDepth)) s fun j _ => ∃ a b k n sh,
      s.names.relations < a ∧ sh.Of r ∧ (selection.lookups = [] →
          (∀ f ∈ selection.fields, ∀ c, r.column? f = some c → c.isReverse = false) →
          sh = ⟨[], selection.fields.map fun f => ⟨.of (numberedName 'c' k) f, none⟩⟩) ∧
        j = (.leftLateral (walkStatement (numberedName 'c' k)
          (walkStart r c (numberedName 'r' a) outer.qualifier)
          (walkStep r c (numberedName 'c' k) (numberedName 'r' b) maxDepth)
          (walkedRows (numberedName 'c' k) sh) (numberedName 'a' n)) lateral,
          labelled (.of lateral "value") name) := by
  refine (beginWalk_selects c hr maxDepth).bind ?_
  rintro w s1 ⟨a, b, k, ha, rfl⟩
  have hopen : openBase schema (.walk (numberedName 'c' k) target)
      (outer.scope ++ [numberedName 'c' k]) s1 =
        .ok (⟨.table (numberedName 'c' k) none, numberedName 'c' k, r, none⟩, s1) := by
    rw [openBase, hr]
    rfl
  refine .run_bind hopen ?_
  intro j s' hj
  obtain ⟨sh, s2, hsh, hj⟩ := bind_eq_ok hj
  obtain ⟨hof, -⟩ := shape_of selection sh s2 hsh
  refine ⟨a, b, k, s2.names.aggregates + 1, sh, ha, hof,
    fun hl hf => shape_stored selection hl hf sh s2 hsh, ?_⟩
  cases hj
  have hstar : (sh.items.isEmpty || sh.items.any isStar) = sh.items.isEmpty := by
    rw [any_eq_false.mpr fun item hi => by simp [(hof.items item hi).one], Bool.or_false]
  simp only [Opened.scan, Select.isStar, hstar, walkStatement, walkedRows]
  cases sh.items <;> rfl

end Planned

/-! ### Depths -/

/-- **The database counts** up to a number: it orders values, compares integers as such, and adds
one to a smaller number. -/
structure Operators.Counts (ops : Operators) (n : Nat) : Prop extends ops.Orders where
  range : n < 2 ^ 63
  less : ∀ a b : Int64, ops.less (.int a) (.int b) = decide (a < b)
  plus : ∀ k < n, ops.plus (.int (Int64.ofNat k)) (.int 1) = .int (Int64.ofNat (k + 1))

lemma Operators.Counts.less_limit {n k : Nat} (h : ops.Counts n) (hk : k ≤ n) (limit : UInt32) :
    ops.less (.int (Int64.ofNat k)) (.int limit.toUInt64.toInt64) = decide (k < limit.toNat) := by
  have hlimit : limit.toUInt64.toInt64.toInt = limit.toNat := by
    have := limit.toNat_lt
    change limit.toUInt64.toBitVec.toInt = _
    rw [BitVec.toInt_eq_toNat_of_lt] <;> simp
    omega
  rw [h.less, decide_eq_decide, Int64.lt_iff_toInt_lt, hlimit,
    Int64.toInt_ofNat_of_lt (hk.trans_lt h.range)]
  exact Int.ofNat_lt

lemma Row.cell?_append_left (h : ∀ e ∈ b, e.1 ≠ name) : Row.cell? (a ++ b) name = a.cell? name := by
  have hb : b.filter (·.1 == name) = [] :=
    filter_eq_nil_iff.mpr fun e he => by simpa using h e he
  rw [Row.cell?, Row.cell?, filter_append, hb, append_nil]

lemma Row.cell?_append_right (h : ∀ e ∈ a, e.1 ≠ name) :
    Row.cell? (a ++ b) name = b.cell? name := by
  have ha : a.filter (·.1 == name) = [] :=
    filter_eq_nil_iff.mpr fun e he => by simpa using h e he
  rw [Row.cell?, Row.cell?, filter_append, ha, nil_append]

lemma Row.renamed_self (row : Row) : row.renamed (row.map (·.1)) = row := by
  rw [Row.renamed, zip_map']
  simp

/-! ### Rounds -/

lemma Relation.column?_isSome {r : Relation} (h : name ∈ r.storedNames) :
    (r.column? name).isSome := by
  obtain ⟨c, hc, rfl⟩ := mem_map.mp h
  exact find?_isSome.mpr ⟨c, (mem_filter.mp hc).1, beq_self_eq_true _⟩

/-- The columns that a walk reads are stored, and no column is named like its depth. -/
structure Walkable (r : Relation) (c : Column) : Prop where
  nodup : r.storedNames.Nodup
  depth : r.column? "depth" = none
  linkOf : c.linkOf r ∈ r.storedNames
  linkFrom : c.linkFrom r ∈ r.storedNames

section Rounds

variable (ops : Operators) (r : Relation) (c : Column) (rows : List (String → Value)) (v : Value)
  {first outer next : String}

/-- The row at a place is linked to a value of the outer row. -/
def startsAt (i : Fin rows.length) : Bool := ops.same (rows.get i (c.linkOf r)) v

/-- The column leads from the row at a place to that at another one. -/
def leadsTo (i j : Fin rows.length) : Bool :=
  ops.same (rows.get j (c.linkOf r)) (rows.get i (c.linkFrom r))

/-- **The row of a trail**: the row at its last place, and the number of its places. -/
def walkEntry : List (Fin rows.length) → Row
  | [] => []
  | i :: p => r.row (rows.get i) ++ [("depth", .int (Int64.ofNat (p.length + 1)))]

/-- The table of a walk that has found trails. -/
def walkTable (trails : List (List (Fin rows.length))) : Table :=
  ⟨r.storedNames ++ ["depth"], trails.map (walkEntry r rows)⟩

variable {ops r c rows v}

lemma Walkable.ne_depth (hw : Walkable r c) (hn : (r.column? name).isSome) : name ≠ "depth" := by
  rintro rfl
  rw [hw.depth] at hn
  cases hn

lemma Walkable.cell (hw : Walkable r c) (hn : name ∈ r.storedNames) (i : Fin rows.length)
    (p : List (Fin rows.length)) :
    (walkEntry r rows (i :: p)).cell? name = some (rows.get i name) := by
  rw [walkEntry, Row.cell?_append_left, r.row_cell? hw.nodup hn]
  rw [forall_mem_singleton]
  exact (hw.ne_depth (Relation.column?_isSome hn)).symm

lemma Walkable.cell_depth (hw : Walkable r c) (i : Fin rows.length) (p : List (Fin rows.length)) :
    (walkEntry r rows (i :: p)).cell? "depth" = some (.int (Int64.ofNat (p.length + 1))) := by
  rw [walkEntry, Row.cell?_append_right]
  · rfl
  · intro e he
    obtain ⟨name, hn, rfl⟩ := mem_map.mp he
    exact hw.ne_depth (Relation.column?_isSome hn)

lemma projected_depth {level : Level} {label : String} {b : Binding} {e : Expr} {depth : Value}
    (hb : Env.binding? (level :: env) label = some b)
    (he : e.eval ops ts (level :: env) none = some depth) :
    projected ops ts env [⟨.star (some label), none⟩, labelled e "depth"] level =
      some (b.row ++ [("depth", depth)]) := by
  rw [projected, cells, cells, itemCells, itemCells_labelled, Env.starCells, hb, he]
  rfl

variable (hw : Walkable r c) (hts : ts r.name = some ⟨r.storedNames, rows.map r.row⟩)

include hts

lemma tableRows (label : Option String) :
    FromItem.rows ops ts env (.table r.name label) =
      some ((List.finRange rows.length).map fun i => r.row (rows.get i)) := by
  have hplaces := congrArg (List.map r.row) (map_get_finRange rows)
  rw [map_map] at hplaces
  rw [FromItem.rows, hts]
  exact congrArg some hplaces.symm

include hw

/-- **The first round** gives the rows that are linked to the outer row. -/
lemma walkStart_rows (hne : first ≠ outer) (hv : env.column? (some outer) (c.linkFrom r) = some v) :
    (walkStart r c first outer).rows ops ts env =
      some (((List.finRange rows.length).filter (startsAt ops r c rows v)).map
        fun i => walkEntry r rows [i]) := by
  refine Select.rows_plain (nodup_singleton first) rfl (tableRows hts _) rfl (fun _ _ => rfl)
    (fun i _ => Expr.holds_link ?_ ?_) fun i _ => ?_
  · simp [Env.column?, FromItem.qualifier, Env.binding?, r.row_cell? hw.nodup hw.linkOf]
  · rw [← hv, Env.column?, Env.column?, ← Env.binding?_around hne (r.row (rows.get i)) env]
    rfl
  · exact projected_depth (Env.binding?_self _ _ _) rfl

/-- **The next round** goes on from the trails of the last one. -/
lemma walkStep_rows (hne : next ≠ table) (hname : r.name ≠ table) (hcounts : ops.Counts rows.length)
    (hacyclic : Acyclic (leadsTo ops r c rows)) {first : Fin rows.length → Bool}
    (maxDepth : Option UInt32) {last : List (List (Fin rows.length))}
    (hlast : ∀ p ∈ last, Trail first (leadsTo ops r c rows) p) :
    (walkStep r c table next maxDepth).rows ops (ts.define table (walkTable r rows last)) env =
      some ((nextTrails (leadsTo ops r c rows) (maxDepth.map UInt32.toNat) last).map
        (walkEntry r rows)) := by
  have htable : (ts.define table (walkTable r rows last)) table =
      some (walkTable r rows last) := if_pos rfl
  have hrows : (ts.define table (walkTable r rows last)) r.name =
      some ⟨r.storedNames, rows.map r.row⟩ := (if_neg hname).trans hts
  generalize ts.define table (walkTable r rows last) = ts' at htable hrows
  -- what is seen of a row and of the trail that it is joined with
  have hnext : ∀ (level : Level) (row : Row), Env.binding?
      (([⟨next, row, true⟩] ++ level) :: env) next = some ⟨next, row, true⟩ := by
    simp [Env.binding?]
  have hseen : ∀ row row' : Row, Env.binding?
      (([⟨next, row, true⟩] ++ [⟨table, row', true⟩]) :: env) table =
        some ⟨table, row', true⟩ := by
    simp [Env.binding?, hne]
  have hcons : ∀ p ∈ last, ∃ i q, p = i :: q := fun p hp =>
    exists_cons_of_ne_nil (hlast p hp).ne_nil
  have hbase : FromItem.levels ops ts' env (some (.table r.name (some next))) =
      some ((List.finRange rows.length).map fun j => [⟨next, r.row (rows.get j), true⟩]) := by
    rw [FromItem.levels, tableRows hrows]
    simp [FromItem.qualifier]
  have hjoin : Join.levels ops ts' env (walkStep r c table next maxDepth).joins
      ((List.finRange rows.length).map fun j => [⟨next, r.row (rows.get j), true⟩]) =
      some ((furtherPlaces (leadsTo ops r c rows) last).map fun x =>
        [⟨next, r.row (rows.get x.1), true⟩] ++ [⟨table, walkEntry r rows x.2, true⟩]) := by
    refine Join.levels_inner htable fun j _ p hp => ?_
    obtain ⟨i, q, rfl⟩ := hcons p hp
    refine Expr.holds_link ?_ ?_
    · rw [Env.column?, hnext]
      exact r.row_cell? hw.nodup hw.linkOf _
    · rw [Env.column?, hseen]
      exact hw.cell hw.linkFrom i q
  have hdepth : ∀ (row : Row) (i : Fin rows.length) (q : List (Fin rows.length)),
      (Expr.of table "depth").eval ops ts' (([⟨next, row, true⟩] ++
        [⟨table, walkEntry r rows (i :: q), true⟩]) :: env) none =
        some (.int (Int64.ofNat (q.length + 1))) := by
    intro row i q
    rw [Expr.of, Expr.eval, Env.column?, hseen]
    exact hw.cell_depth i q
  have hlength : ∀ x ∈ furtherPlaces (leadsTo ops r c rows) last, ∃ i q, x.2 = i :: q ∧
      q.length + 1 < rows.length := by
    intro x hx
    obtain ⟨hmem, i, q, he, hl⟩ := mem_furtherPlaces.mp hx
    exact ⟨i, q, he, ((he ▸ hlast _ hmem).next hl).length_le hacyclic⟩
  have hrun : (walkStep r c table next maxDepth).rows ops ts' env =
      some ((pageOf none none (ops.sorted (((furtherPlaces (leadsTo ops r c rows) last).filter
        fun x => (maxDepth.map UInt32.toNat).all (x.2.length < ·)).map fun x => ([], x)))).map
          fun x => walkEntry r rows (x.1 :: x.2)) := by
    refine Select.rows_bound (by simp [boundNames, FromItem.qualifier, hne]) rfl hbase
      hjoin (fun x hx => ?_) (fun _ _ => rfl) fun x hx => ?_
    · obtain ⟨i, q, he, hq⟩ := hlength x hx
      rw [he]
      cases maxDepth with
      | none => rfl
      | some d =>
        rw [Option.map_some, Expr.holds, Expr.eval, hdepth]
        simpa [Expr.int, Expr.eval, Literal.value, Operators.apply, Value.isNull, Value.truth?]
          using hcounts.less_limit hq.le d
    · obtain ⟨i, q, he, hq⟩ := hlength x hx
      rw [he]
      refine projected_depth (hnext _ _) ?_
      rw [Expr.eval, hdepth]
      exact congrArg some (hcounts.plus _ hq)
  rw [Operators.sorted_unordered] at hrun
  rw [hrun, nextTrails, map_map]
  rfl

/-- **The table of a walk** holds one row for each trail within the limit, and nothing else. -/
lemma exists_walkTable (hfirst : first ≠ outer) (hne : next ≠ table) (hname : r.name ≠ table)
    (hcounts : ops.Counts rows.length) (hacyclic : Acyclic (leadsTo ops r c rows))
    (hv : env.column? (some outer) (c.linkFrom r) = some v) (maxDepth : Option UInt32) :
    ∃ trails : List (List (Fin rows.length)), trails.Nodup ∧
      (∀ p, p ∈ trails ↔ Trail (startsAt ops r c rows v) (leadsTo ops r c rows) p ∧
        ∀ d ∈ maxDepth, p.length ≤ max 1 d.toNat) ∧
      RecursiveTable ops ts env table (walkStart r c first outer)
        (walkStep r c table next maxDepth) (walkTable r rows trails) := by
  have hentry : ∀ p ≠ [], (walkEntry r rows p).renamed (r.storedNames ++ ["depth"]) =
      walkEntry r rows p := by
    intro p hp
    obtain ⟨i, q, rfl⟩ := exists_cons_of_ne_nil hp
    have hnames : (walkEntry r rows (i :: q)).map (·.1) = r.storedNames ++ ["depth"] := by
      simp [walkEntry, Relation.row, Function.comp_def]
    rw [← hnames, Row.renamed_self]
  have hstart : ∀ p : List (Fin rows.length),
      p ∈ ((List.finRange rows.length).filter (startsAt ops r c rows v)).map (fun i => [i]) ↔
        Trail (startsAt ops r c rows v) (leadsTo ops r c rows) p ∧
          Trail.Within (maxDepth.map UInt32.toNat) p ∧ p.length = 0 + 1 := by
    intro p
    simp only [mem_map, mem_filter, mem_finRange, true_and]
    constructor
    · rintro ⟨i, hi, rfl⟩
      exact ⟨.first hi, fun d _ => le_max_left _ _, rfl⟩
    · rintro ⟨ht, -, hl⟩
      cases ht with
      | first h => exact ⟨_, h, rfl⟩
      | next => simp at hl
  have hnext : ∀ last : List (List (Fin rows.length)),
      (∀ p ∈ last, Trail (startsAt ops r c rows v) (leadsTo ops r c rows) p ∧
        Trail.Within (maxDepth.map UInt32.toNat) p) →
      ((walkStep r c table next maxDepth).rows ops (ts.define table (walkTable r rows last))
          env).map (·.map (Row.renamed (r.storedNames ++ ["depth"]))) =
        some ((nextTrails (leadsTo ops r c rows) (maxDepth.map UInt32.toNat) last).map
          (walkEntry r rows)) := by
    intro last hlast
    rw [walkStep_rows hw hts hne hname hcounts hacyclic maxDepth fun p hp => (hlast p hp).1,
      Option.map_some, map_map]
    refine congrArg some (map_congr_left fun p hp => hentry p ?_)
    obtain ⟨x, -, rfl⟩ := mem_map.mp hp
    simp
  -- no trail meets a row twice, so one round after the longest finds nothing more
  obtain ⟨trails, hnodup, hmem, hrounds⟩ := exists_rounds (walkEntry r rows)
    (fun last => ((walkStep r c table next maxDepth).rows ops (ts.define table
      ⟨r.storedNames ++ ["depth"], last⟩) env).map
        (·.map (Row.renamed (r.storedNames ++ ["depth"]))))
    (fun p ht _ => ht.length_le hacyclic) hnext
    (((nodup_finRange _).filter _).map singleton_injective) hstart
  refine ⟨trails, hnodup, fun p => ?_, ?_, ?_, _, walkStart_rows hw hts hfirst hv, ?_⟩
  · rw [hmem, Trail.Within]
    refine and_congr_right fun ht => ?_
    have hpos := length_pos_iff.mpr ht.ne_nil
    simp [Nat.succ_le_of_lt hpos]
  · simp [walkTable, walkStart, Select.columns, FromItem.sources, Join.sources, FromItem.columns,
      Tables.catalog, hts, columns, FromItem.qualifier, labelled, givenName]
  · simp [walkTable, walkStep, Select.columns, FromItem.sources, Join.sources, FromItem.columns,
      Tables.catalog, Tables.define, hname, hts, columns, FromItem.qualifier, labelled,
      givenName]
  · rwa [map_map] at hrounds

end Rounds

/-! ### Walked rows as an array -/

lemma SelectItem.cells_names {items : List SelectItem} {row : Row}
    (hone : ∀ item ∈ items, item.isStar = false)
    (h : cells ops ts env none items = some row) :
    row.map (·.1) = items.map (·.givenName) := by
  induction items generalizing row with
  | nil =>
    cases h
    rfl
  | cons item rest ih =>
    obtain ⟨hitem, hrest⟩ := forall_mem_cons.mp hone
    obtain ⟨here, hhere, h⟩ := Option.bind_eq_some_iff.mp h
    obtain ⟨others, hothers, h⟩ := Option.bind_eq_some_iff.mp h
    cases h
    have hname : here.map (·.1) = [item.givenName] := by
      obtain ⟨e, label⟩ := item
      rw [itemCells] at hhere
      · obtain ⟨v, -, hhere⟩ := Option.bind_eq_some_iff.mp hhere
        cases hhere
        rfl
      · rintro table rfl rfl
        exact absurd hitem (by simp [isStar])
    rw [map_append, hname, ih hrest hothers]
    rfl

section Listed

variable {ops : Operators} {r : Relation} {c : Column} {rows : List (String → Value)} {sh : Shape}
  {order : List (List (Fin rows.length))} {found : List Row}

/-- A row that shows a trail: its columns are columns of the relation, and the depth. -/
structure ShowsTrail (r : Relation) (p : List (Fin rows.length)) (row : Row) : Prop where
  depth : row.cell? "depth" = some (.int (Int64.ofNat p.length))
  names : ∀ e ∈ row, (r.column? e.1).isSome ∨ e.1 = "depth"

/-- Rows of lower depth come first. -/
def ByDepth (listed : List Row) : Prop :=
  listed.Pairwise fun a b => ∀ x y, a.cell? "depth" = some (.int x) →
    b.cell? "depth" = some (.int y) → x ≤ y

/-- **What is shown of the rows of a walk**: something of each trail, with its depth. -/
lemma walkedRows_grouped (hw : Walkable r c) (hsh : sh.Of r) (horder : ∀ p ∈ order, p ≠ [])
    (htable : ts table = some (walkTable r rows order))
    (hfound : (walkedRows table sh).rows ops ts env = some found) :
    ∃ shown : List (Fin rows.length) → List Row, found = order.flatMap shown ∧
      ∀ p ∈ order, shown p ≠ [] ∧ ∀ row ∈ shown p, ShowsTrail r p row := by
  have hrows : FromItem.rows ops ts env (.table table none) =
      some (order.map (walkEntry r rows)) := by
    rw [FromItem.rows, htable]
    rfl
  obtain ⟨shown, hshown, heach⟩ := Select.rows_grouped (by
    split
    · rfl
    · rw [any_append, any_eq_false.mpr fun item hi => by simp [(hsh.items item hi).single]]
      rfl) hrows (fun j hj => by
        obtain ⟨statement, label, rfl⟩ := hsh.joins j hj
        rfl) hfound
  refine ⟨shown, hshown, fun p hp => ⟨(heach p hp).1, fun row hrow => ?_⟩⟩
  obtain ⟨more, hlength, hproj⟩ := (heach p hp).2 row hrow
  obtain ⟨i, q, rfl⟩ := exists_cons_of_ne_nil (horder p hp)
  by_cases he : sh.items = []
  · -- all columns of the table, and there are no joins
    rw [hsh.few he, length_nil, length_eq_zero_iff] at hlength
    subst hlength
    obtain rfl : row = walkEntry r rows (i :: q) := by simpa [projected, he] using hproj.symm
    refine ⟨hw.cell_depth i q, fun e hmem => ?_⟩
    rcases mem_append.mp hmem with hmem | hmem
    · obtain ⟨name, hn, rfl⟩ := mem_map.mp hmem
      exact .inl (Relation.column?_isSome hn)
    · exact .inr (by rw [mem_singleton.mp hmem])
  · rw [if_neg he, projected, if_neg (by simp), cells_append] at hproj
    obtain ⟨own, hown, hproj⟩ := Option.bind_eq_some_iff.mp hproj
    obtain ⟨last, hlast, hproj⟩ := Option.bind_eq_some_iff.mp hproj
    cases hproj
    have hnames := cells_names (fun item hi => (hsh.items item hi).one) hown
    have hknown : ∀ e ∈ own, (r.column? e.1).isSome := by
      intro e hmem
      have hname : e.1 ∈ sh.items.map (·.givenName) := hnames ▸ mem_map_of_mem hmem
      obtain ⟨item, hi, hitem⟩ := mem_map.mp hname
      rw [← hitem]
      exact (hsh.items item hi).known
    obtain rfl : last = [("depth", .int (Int64.ofNat (q.length + 1)))] := by
      have heval : (Expr.of table "depth").eval ops ts ((⟨table, walkEntry r rows (i :: q), true⟩ ::
          more) :: env) none = some (.int (Int64.ofNat (q.length + 1))) := by
        rw [Expr.of, Expr.eval, ← hw.cell_depth i q]
        simp [Env.column?, Env.binding?]
      rw [cells, itemCells, cells] at hlast
      · simp only [FromItem.qualifier, Option.getD_none, heval] at hlast
        cases hlast
        rfl
      · simp [Expr.of]
    refine ⟨?_, fun e hmem => ?_⟩
    · rw [Row.cell?_append_right]
      · rfl
      · exact fun e hmem => hw.ne_depth (hknown e hmem)
    · grind

lemma walkedRows_isSome (hw : Walkable r c) (horder : ∀ p ∈ order, p ≠ [])
    (htable : ts table = some (walkTable r rows order)) {fields : List String}
    (hfields : ∀ f ∈ fields, f ∈ r.storedNames) :
    ((walkedRows table ⟨[], fields.map fun f => ⟨.of table f, none⟩⟩).rows ops ts env).isSome := by
  have hrows : FromItem.rows ops ts env (.table table none) =
      some (order.map (walkEntry r rows)) := by
    rw [FromItem.rows, htable]
    rfl
  have hcells : ∀ (row : Row) (names : List String), (∀ f ∈ names, (row.cell? f).isSome) →
      (cells ops ts ([⟨table, row, true⟩] :: env) none
        (names.map fun f => ⟨.of table f, none⟩)).isSome := by
    intro row names h
    induction names with
    | nil => rfl
    | cons f rest ih =>
      obtain ⟨hf, hrest⟩ := forall_mem_cons.mp h
      obtain ⟨v, hv⟩ := Option.isSome_iff_exists.mp hf
      obtain ⟨others, ho⟩ := Option.isSome_iff_exists.mp (ih hrest)
      have heval : (Expr.of table f).eval ops ts ([⟨table, row, true⟩] :: env) none = some v := by
        rw [Expr.of, Expr.eval, Env.column?, Env.binding?_self, Option.bind_some, hv]
      rw [map_cons, cells, ho, itemCells, heval]
      · rfl
      · simp [Expr.of]
  have hproj : ∀ p ∈ order, (projected ops ts env
      (walkedRows table ⟨[], fields.map fun f => ⟨.of table f, none⟩⟩).projection
      [⟨table, walkEntry r rows p, true⟩]).isSome := by
    intro p hp
    obtain ⟨i, q, rfl⟩ := exists_cons_of_ne_nil (horder p hp)
    by_cases hnil : fields = []
    · simp [walkedRows, hnil, projected]
    · have := hcells (walkEntry r rows (i :: q)) (fields ++ ["depth"]) (by
        intro f hf
        rcases mem_append.mp hf with hf | hf
        · rw [hw.cell (hfields f hf), Option.isSome_some]
        · rw [mem_singleton.mp hf, hw.cell_depth, Option.isSome_some])
      simpa [walkedRows, hnil, projected] using this
  have hrun : (walkedRows table ⟨[], fields.map fun f => ⟨.of table f, none⟩⟩).rows ops ts env =
      some ((order.filter fun _ => true).map fun p => (projected ops ts env
        (walkedRows table ⟨[], fields.map fun f => ⟨.of table f, none⟩⟩).projection
        [⟨table, walkEntry r rows p, true⟩]).getD []) :=
    Select.rows_plain (nodup_singleton table) (by
      split <;> simp [Expr.of, Expr.aggregates]) hrows rfl (fun _ _ => rfl) (fun _ _ => rfl)
      fun p hp => by
        obtain ⟨out, hout⟩ := Option.isSome_iff_exists.mp (hproj p hp)
        exact hout.trans (congrArg (fun o => some (o.getD [])) hout).symm
  rw [hrun, Option.isSome_some]

/-- **Walked rows are listed by their depth**, in whatever order the table gives them. -/
lemma walkedRows_listed (hp : env.Plain) (hcounts : ops.Counts rows.length)
    (hplain : ∀ c ∈ r.columns, isGeneratedName c.name = false)
    (hshown : ∀ row ∈ found, ∃ p : List (Fin rows.length), ShowsTrail r p row)
    (hfound : (walkedRows table sh).rows ops ts env = some found) (n : Nat) :
    ∃ listed : List Row, listed.Perm found ∧ ByDepth listed ∧
      (arrayOf (walkedRows table sh) (numberedName 'a' n)
        [⟨.of (numberedName 'a' n) "depth", none⟩]).rows ops ts env =
          some [[("value", .array ((listed.map Row.toJson).map .json))]] := by
  refine ⟨ops.arranged [⟨"depth", false⟩] found, Operators.arranged_perm _ _, ?_, ?_⟩
  · refine (hcounts.arranged_pairwise _ _).imp fun {a b} h x y hx hy => ?_
    rw [Operators.rowLe_cons, Operators.keyBefore, Operators.keyBefore] at h
    simp only [hx, hy, Option.getD_some, Operators.before, Value.isNull, hcounts.less,
      Bool.false_eq_true, if_false, Bool.false_or, decide_eq_true_eq, decide_eq_false_iff_not,
      Int64.not_lt] at h
    exact h.elim Int64.le_of_lt And.left
  · refine arrayOf_ordered_rows hp hfound (fun row hrow e he => ?_) fun row hrow => ?_
    · obtain ⟨p, hrow⟩ := hshown row hrow
      rcases hrow.names e he with hname | hname
      · obtain ⟨c, hc⟩ := Option.isSome_iff_exists.mp hname
        rw [← Relation.name_of_column? hc]
        exact hplain c (Relation.mem_of_column? hc)
      · rw [hname]
        decide
    · obtain ⟨p, hrow⟩ := hshown row hrow
      have hkey : ∀ key ∈ [(⟨"depth", false⟩ : SortKey)], (row.cell? key.column).isSome := by
        rw [forall_mem_singleton, hrow.depth, Option.isSome_some]
      exact keys_orderItems (Env.binding?_self _ _ _) hkey

end Listed

end StagedSql
