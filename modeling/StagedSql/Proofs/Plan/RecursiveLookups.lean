import StagedSql.Proofs.Plan.Flattening
import StagedSql.Proofs.Plan.ReadBack
import StagedSql.Proofs.Plan.WalkedRows

/-!
Recursive lookups walk along links.

A nested lookup on an inserted row takes its rows from the stages that have inserted them. A walk
does not: both of its SELECTs take their rows from the table of the relation, whatever was inserted
with the row.
-/

namespace StagedSql

open List

/-- **The columns of a walk are stored** if the primary key is. -/
lemma Walkable.of_linked {schema : Schema} (hlinked : schema.Linked) {r : Relation}
    (hr : r ∈ schema.relations) {name : String} {c : Column}
    (hlink : schema.link? r name = some (c, r)) (hkey : r.primaryKey ∈ r.storedNames)
    (hdepth : r.column? "depth" = none) : Walkable r c := by
  obtain ⟨hc, target, hrelated, hget⟩ := Schema.link?_eq_some.mp hlink
  refine ⟨Relation.storedNames_nodup (hlinked.columns_nodup r hr), hdepth, ?_, ?_⟩
  · cases hk : c.kind with
    | reverse related via =>
      obtain ⟨t, ht, link, hvia, hforward⟩ :=
        hlinked.reverse r hr c (Relation.mem_of_column? hc) related via hk
      obtain rfl : related = target := by simpa [Column.related?, hk] using hrelated
      obtain rfl : t = r := by simpa [hget] using ht.symm
      simpa [Column.linkOf, hk] using
        Relation.mem_storedNames hvia (by simp [Column.isReverse, hforward])
    | scalar => simpa [Column.linkOf, hk] using hkey
    | forward _ => simpa [Column.linkOf, hk] using hkey
  · cases hk : c.kind with
    | reverse related via => simpa [Column.linkFrom, hk] using hkey
    | scalar => simp [Column.related?, hk] at hrelated
    | forward related =>
      rw [Column.linkFrom, hk, Relation.name_of_column? hc]
      exact Relation.mem_storedNames hc (by simp [Column.isReverse, hk])

/-- **Recursive lookups walk exactly the linked rows.** The table of a walk with the limit `d` has
one row for each trail of at most `max 1 d` links from the outer row: the limit bounds the further
rounds and not the first one. The array lists these rows by their depth. The primary key of the
relation is stored, none of its columns is named like the depth, and no name of the schema is one
that is made up. -/
theorem recursive_lookup_lists_trails {id : Nat} {relations : List Relation} {schema : Schema}
    (haccepted : Schema.ofRelations id relations = .ok schema) (hplain : schema.PlainNames)
    {earlier : Earlier} {outer : Outer} {name lateral : String} {c : Column} {target : RelationId}
    (htarget : lookupTarget schema outer name = .ok (c, target)) {r : Relation}
    (hself : schema.relation target = .ok r) (houter : outer.relation = r)
    (hkey : r.primaryKey ∈ r.storedNames) (hdepth : r.column? "depth" = none)
    {selection : Selection} {maxDepth : Option UInt32} {s s' : PlanState}
    (hscope : outer.Scoped s) {j : Join × SelectItem}
    (hrun : shapeLookup schema earlier outer name c target lateral
      (.recursive selection maxDepth) s = .ok (j, s'))
    {ops : Operators} {ts : Tables} {env : Env} {rows : List (String → Value)} {v : Value}
    (hts : ts r.name = some ⟨r.storedNames, rows.map r.row⟩) (hcounts : ops.Counts rows.length)
    (hacyclic : Acyclic (leadsTo ops r c rows)) (henv : env.Plain)
    (hv : env.column? (some outer.qualifier) (c.linkFrom r) = some v) :
    ∃ (table : String) (start step shown : Select) (n : Nat)
      (trails : List (List (Fin rows.length))),
      j = (.leftLateral (walkStatement table start step shown (numberedName 'a' n)) lateral,
        labelled (.of lateral "value") name) ∧
      -- the table of the walk
      (∀ t, RecursiveTable ops ts env table start step t ↔ t = walkTable r rows trails) ∧
      trails.Nodup ∧
      (∀ p, p ∈ trails ↔ Trail (startsAt ops r c rows v) (leadsTo ops r c rows) p ∧
        ∀ d ∈ maxDepth, p.length ≤ max 1 d.toNat) ∧
      (walkTable r rows trails).columns.Nodup ∧
      -- the array of its rows, whose order in the table is left open
      ∀ order : List (List (Fin rows.length)), order.Perm trails →
        (selection.lookups = [] →
          (∀ f ∈ selection.fields, ∃ c, r.column? f = some c ∧ c.isReverse = false) →
          (shown.rows ops (ts.define table (walkTable r rows order)) env).isSome) ∧
        ∀ found, shown.rows ops (ts.define table (walkTable r rows order)) env = some found →
          (∃ parts : List (Fin rows.length) → List Row, found = order.flatMap parts ∧
            ∀ p ∈ order, parts p ≠ [] ∧ ∀ row ∈ parts p, ShowsTrail r p row) ∧
          ∃ listed : List Row, listed.Perm found ∧ ByDepth listed ∧
            (arrayOf shown (numberedName 'a' n) [⟨.of (numberedName 'a' n) "depth", none⟩]).rows
              ops (ts.define table (walkTable r rows order)) env =
                some [[("value", .array ((listed.map Row.toJson).map .json))]] := by
  have hlinked := linked_of_ofRelations haccepted
  have hr := Schema.mem_of_relation hself
  obtain ⟨t, hlink, ht⟩ := lookupTarget_link htarget
  obtain rfl : t = r := by simpa [hself] using ht.symm
  rw [houter] at hlink
  have hw := Walkable.of_linked hlinked hr hlink hkey hdepth
  obtain ⟨a, b, k, n, sh, ha, hsh, hstored, rfl⟩ :=
    shapeLookup_walk name lateral c hself selection maxDepth j s' hrun
  have hfirst : numberedName 'r' a ≠ outer.qualifier :=
    ((hscope.knows _ hscope.mem).ne_fresh (by decide) (by decide) ha).symm
  have hnext : numberedName 'r' b ≠ numberedName 'c' k := numberedName_ne (by decide) b k
  have hname : t.name ≠ numberedName 'c' k := ne_numberedName (hplain _ hr).1 (by decide)
  obtain ⟨trails, hnodup, hmem, htable⟩ :=
    exists_walkTable hw hts hfirst hnext hname hcounts hacyclic hv maxDepth
  refine ⟨_, _, _, _, n, trails, rfl, fun t' => ⟨fun h => htable.unique h, fun h => h ▸ htable⟩,
    hnodup, hmem, ?_, fun order horder => ?_⟩
  · refine nodup_append.mpr ⟨hw.nodup, nodup_singleton _, ?_⟩
    intro a ha b hb
    rw [mem_singleton.mp hb]
    exact hw.ne_depth (Relation.column?_isSome ha)
  · have hne : ∀ p ∈ order, p ≠ [] := fun p hp =>
      ((hmem p).mp (horder.mem_iff.mp hp)).1.ne_nil
    have hdefined : (ts.define (numberedName 'c' k) (walkTable t rows order))
        (numberedName 'c' k) = some (walkTable t rows order) := if_pos rfl
    refine ⟨fun hlookups hfields => ?_, fun found hfound => ?_⟩
    · rw [hstored hlookups fun f hf c hc => ?_]
      · refine walkedRows_isSome hw hne hdefined fun f hf => ?_
        obtain ⟨c, hc, hreverse⟩ := hfields f hf
        exact Relation.mem_storedNames hc hreverse
      · obtain ⟨c', hc', hreverse⟩ := hfields f hf
        rw [hc, Option.some.injEq] at hc'
        rwa [hc']
    · obtain ⟨parts, hparts, heach⟩ := walkedRows_grouped hw hsh hne hdefined hfound
      refine ⟨⟨parts, hparts, heach⟩, walkedRows_listed henv hcounts (hplain _ hr).2
        (fun row hrow => ?_) hfound n⟩
      rw [hparts] at hrow
      obtain ⟨p, hp, hrow⟩ := mem_flatMap.mp hrow
      exact ⟨p, (heach p hp).2 row hrow⟩

/-- A relation with a column named like the depth: no row of a walk has one value for it. -/
theorem walkEntry_depth_ambiguous {r : Relation} (hstored : "depth" ∈ r.storedNames)
    (rows : List (String → Value)) (i : Fin rows.length) (p : List (Fin rows.length)) :
    (walkEntry r rows (i :: p)).cell? "depth" = none := by
  have hown : (r.row (rows.get i)).filter (·.1 == "depth") ≠ [] := by
    refine ne_nil_of_mem (mem_filter.mpr ⟨mem_map_of_mem hstored, ?_⟩)
    exact beq_self_eq_true _
  obtain ⟨e, es, he⟩ := exists_cons_of_ne_nil hown
  rw [walkEntry, Row.cell?, filter_append, he]
  cases es <;> rfl

/-! ### Folders -/

/-- Folders, which may lie in one another. -/
def nestedFolders : Relation where
  name := "folder"
  columns := [.primary "id", .forward "parent" "folder", .reverse "children" "folder" "parent"]

/-- Three folders, each in the one before it. -/
def folderRows : List (String → Value) :=
  [fun c => if c = "id" then .int 1 else .null, fun c => if c = "id" then .int 2 else .int 1,
    fun c => if c = "id" then .int 3 else .int 2]

/-- Operators on integers, which are ordered and counted. -/
def countingOperators : Operators :=
  { rankOperators with
    plus := fun l r => ((l.int?.bind fun a => r.int?.map fun b => .int (a + b))).getD .null }

lemma countingOperators_counts : countingOperators.Counts 3 := by
  refine ⟨⟨rankOperators_orders.asymm, rankOperators_orders.split⟩, by decide, fun a b => ?_,
    fun k _ => ?_⟩
  · exact decide_eq_decide.mpr Int64.lt_iff_toInt_lt.symm
  · exact congrArg Value.int (Int64.ofNat_add k 1).symm

lemma folderRows_acyclic :
    Acyclic (leadsTo countingOperators nestedFolders (.reverse "children" "folder" "parent")
      folderRows) := by
  intro i h
  have hstep : ∀ i j : Fin folderRows.length, leadsTo countingOperators nestedFolders
      (.reverse "children" "folder" "parent") folderRows i j = true → i < j := by decide
  have hlt : ∀ j, Relation.TransGen (fun i j => leadsTo countingOperators nestedFolders
      (.reverse "children" "folder" "parent") folderRows i j = true) i j → i < j := by
    intro j hj
    induction hj with
    | single h => exact hstep _ _ h
    | tail _ h ih => exact ih.trans (hstep _ _ h)
  exact lt_irrefl i (hlt i h)

/-- The folders as they are stored. -/
def folderTables : Tables := fun name =>
  if name = "folder" then
    some ⟨nestedFolders.storedNames, folderRows.map nestedFolders.row⟩
  else none

/-- What is seen where the folders in the first one are looked up. -/
def firstFolder : Env :=
  [[⟨"folder", nestedFolders.row fun c => if c = "id" then .int 1 else .null, true⟩]]

/-- The walk through all that is in a folder. -/
def walkFolders (maxDepth : Option UInt32) : Plan (Join × SelectItem) :=
  shapeLookup ⟨0, [nestedFolders]⟩ .none ⟨nestedFolders, "folder", none, ["folder"]⟩
    "children" (.reverse "children" "folder" "parent") ⟨0, 0⟩ "j1"
    (.recursive (.ofFields ["id"]) maxDepth)

lemma folder_scoped :
    (⟨nestedFolders, "folder", none, ["folder"]⟩ : Outer).Scoped PlanState.initial := by
  refine ⟨mem_singleton_self _, fun name hname => ?_⟩
  rw [mem_singleton.mp hname]
  exact .plain fun letter hl k => ne_numberedName (by decide) hl

/-- A walk of depth one finds the second folder, which is in the first one, and not the third
one. -/
theorem recursive_lookup_lists_trails_folders :
    ∃ (s : PlanState) (table : String) (start step shown : Select) (n : Nat),
      walkFolders (some 1) .initial = .ok ((.leftLateral
        (walkStatement table start step shown (numberedName 'a' n)) "j1",
          labelled (.of "j1" "value") "children"), s) ∧
      ∀ t, RecursiveTable countingOperators folderTables firstFolder table start step t ↔
        t = ⟨["id", "parent", "depth"],
          [[("id", .int 2), ("parent", .int 1), ("depth", .int 1)]]⟩ := by
  obtain ⟨j, s, hrun⟩ : ∃ j s, walkFolders (some 1) .initial = .ok (j, s) := ⟨_, _, rfl⟩
  have haccepted : Schema.ofRelations 0 [nestedFolders] = .ok ⟨0, [nestedFolders]⟩ := rfl
  have hplain : (⟨0, [nestedFolders]⟩ : Schema).PlainNames := by
    simp only [Schema.PlainNames]
    decide
  have henv : firstFolder.Plain := by
    simp only [Env.Plain, Level.Plain]
    decide
  have hstored : folderTables "folder" =
      some ⟨nestedFolders.storedNames, folderRows.map nestedFolders.row⟩ := rfl
  obtain ⟨table, start, step, shown, n, trails, rfl, htable, hnodup, hmem, -⟩ :=
    recursive_lookup_lists_trails haccepted hplain rfl rfl rfl (by decide) rfl folder_scoped hrun
      hstored countingOperators_counts folderRows_acyclic henv rfl
  have hfirst : ∀ i, startsAt countingOperators nestedFolders
      (.reverse "children" "folder" "parent") folderRows (.int 1) i = true ↔
        i = ⟨1, by decide⟩ := by decide
  have htrails : ∀ p, p ∈ trails ↔ p ∈ [[(⟨1, by decide⟩ : Fin folderRows.length)]] := by
    intro p
    rw [hmem, mem_singleton]
    constructor
    · rintro ⟨ht, hle⟩
      cases ht with
      | first h => rw [(hfirst _).mp h]
      | next => simp at hle
    · rintro rfl
      exact ⟨.first ((hfirst _).mpr rfl), by simp⟩
  rw [perm_singleton.mp ((perm_ext_iff_of_nodup hnodup (by simp)).mpr htrails)] at htable
  exact ⟨s, table, start, step, shown, n, hrun, htable⟩

/-- **The limit does not bound the first round**: a walk of depth zero has a row of depth one. -/
theorem walk_exceeds_zero :
    ∃ (s : PlanState) (table : String) (start step shown : Select) (n : Nat) (t : Table),
      walkFolders (some 0) .initial = .ok ((.leftLateral
        (walkStatement table start step shown (numberedName 'a' n)) "j1",
          labelled (.of "j1" "value") "children"), s) ∧
      RecursiveTable countingOperators folderTables firstFolder table start step t ∧
      ∃ row ∈ t.rows, row.cell? "depth" = some (.int 1) := by
  have hwalkable : Walkable nestedFolders (.reverse "children" "folder" "parent") :=
    ⟨by decide, rfl, by decide, by decide⟩
  have hstored : folderTables "folder" =
      some ⟨nestedFolders.storedNames, folderRows.map nestedFolders.row⟩ := rfl
  have hseen : firstFolder.column? (some "folder") "id" = some (.int 1) := rfl
  obtain ⟨trails, -, hmem, htable⟩ := exists_walkTable hwalkable hstored
    (show "r1" ≠ "folder" by decide) (show "r2" ≠ "c1" by decide) (by decide)
    countingOperators_counts folderRows_acyclic hseen (some 0)
  refine ⟨_, _, _, _, _, _, _, rfl, htable, _, mem_map_of_mem ((hmem
    [⟨1, by decide⟩]).mpr ⟨.first (by decide), by simp⟩), rfl⟩

open Plan

/-- **A walk through a column of the outer row**, which goes by the name `outer`: both SELECTs take
their rows from the table of the relation. -/
def Shape.Walks (schema : Schema) (r : Relation) (outer : String) (sh : Shape) (name : String)
    (maxDepth : Option UInt32) : Prop :=
  ∃ (c : Column) (a b : Nat) (table : String) (walked : Select) (label lateral : String),
    schema.link? r name = some (c, r) ∧
    .leftLateral (walkStatement table (walkStart r c (numberedName 'r' a) outer)
      (walkStep r c table (numberedName 'r' b) maxDepth) walked label) lateral ∈ sh.joins ∧
    labelled (.of lateral "value") name ∈ sh.items

section Planned

variable {schema : Schema} {earlier : Earlier} {outer : Outer} {s : PlanState} {r : Relation}
  {label name : String} {sh : Shape} {maxDepth : Option UInt32} {target : RelationId}

lemma Shape.Walks.append_left (h : sh.Walks schema r label name maxDepth) (other : Shape) :
    (sh.append other).Walks schema r label name maxDepth := by
  obtain ⟨c, a, b, table, walked, rows, lateral, hlink, hj, hi⟩ := h
  exact ⟨c, a, b, table, walked, rows, lateral, hlink, mem_append_left _ hj, mem_append_left _ hi⟩

lemma Shape.Walks.append_right (h : sh.Walks schema r label name maxDepth) (other : Shape) :
    (other.append sh).Walks schema r label name maxDepth := by
  obtain ⟨c, a, b, table, walked, rows, lateral, hlink, hj, hi⟩ := h
  exact ⟨c, a, b, table, walked, rows, lateral, hlink, mem_append_right _ hj, mem_append_right _ hi⟩

/-- Only a relation that a column leads back to is walked. -/
lemma beginWalk_self (c : Column) {t : Relation} (ht : schema.relation target = .ok t)
    (maxDepth : Option UInt32) :
    Ensures (beginWalk schema outer c target maxDepth) s fun _ _ =>
      t.name = outer.relation.name := by
  refine .lift_bind fun t' ht' => ?_
  obtain rfl : t = t' := by simpa [ht] using ht'
  dsimp only
  split
  · exact .throw_bind
  · rename_i hself
    exact fun _ _ _ => not_not.mp hself

lemma shapeLookup_walks (hself : schema.get? outer.relation.name = some outer.relation) {c : Column}
    (htarget : lookupTarget schema outer name = .ok (c, target)) (lateral : String)
    (selection : Selection) (maxDepth : Option UInt32) :
    Ensures (shapeLookup schema earlier outer name c target lateral
      (.recursive selection maxDepth)) s fun j _ =>
        (Shape.ofJoin j).Walks schema outer.relation outer.qualifier name maxDepth := by
  intro j s' hrun
  obtain ⟨t, hlink, ht⟩ := lookupTarget_link htarget
  obtain ⟨a, b, k, n, sh, -, -, -, rfl⟩ :=
    shapeLookup_walk name lateral c ht selection maxDepth j s' hrun
  obtain ⟨w, s₁, hbegin, -⟩ := bind_eq_ok (by rwa [shapeLookup] at hrun)
  have hname := beginWalk_self c ht maxDepth w s₁ hbegin
  obtain ⟨-, related, -, hget⟩ := Schema.link?_eq_some.mp hlink
  obtain rfl : t = outer.relation := by
    rw [← Schema.name_of_get? hget, hname] at hget
    exact Option.some.inj (hget.symm.trans hself)
  exact ⟨c, a, b, _, _, _, lateral, hlink, mem_singleton_self _, mem_singleton_self _⟩

/-- **The recursive lookups of a selection are planned as walks**, by induction on the lookups. -/
lemma shapeLookups_walks (hself : schema.get? outer.relation.name = some outer.relation)
    {lookups : List (String × Lookup)} :
    Ensures (shapeLookups schema earlier outer lookups) s fun sh _ =>
      ∀ name selection maxDepth, (name, .recursive selection maxDepth) ∈ lookups →
        sh.Walks schema outer.relation outer.qualifier name maxDepth := by
  induction lookups generalizing s with
  | nil =>
    exact .of_pure (by simp)
  | cons entry rest ih =>
    obtain ⟨name, lookup⟩ := entry
    refine .lift_bind ?_
    rintro ⟨c, target⟩ htarget
    refine .bind_any fun lateral s₁ => ?_
    have hone : Ensures (shapeLookup schema earlier outer name c target lateral lookup) s₁
        fun j _ => ∀ selection maxDepth, lookup = .recursive selection maxDepth →
          (Shape.ofJoin j).Walks schema outer.relation outer.qualifier name maxDepth := by
      rintro j s2 hj selection maxDepth rfl
      exact shapeLookup_walks hself htarget lateral selection maxDepth j s2 hj
    refine hone.bind fun j s2 hj => ih.bind fun sh _ hrest => .of_pure ?_
    intro name' selection maxDepth hmem
    rcases mem_cons.mp hmem with heq | hmem
    · cases heq
      exact (hj selection maxDepth rfl).append_left sh
    · exact (hrest name' selection maxDepth hmem).append_right _

lemma addConditions_rest (outer : Outer) {conditions : List Condition} :
    ∀ {select : Select} {s : PlanState},
      Ensures (addConditions schema earlier outer select conditions) s fun filtered _ =>
        filtered = { select with condition := filtered.condition } := by
  induction conditions with
  | nil =>
    intro select s
    refine .of_pure ?_
    cases select
    rfl
  | cons c rest ih =>
    intro select s
    refine .bind_any fun _ s₁ => .bind_any fun e s2 => ih.mono fun filtered s3 h => ?_
    rw [h]
    rfl

/-- The SELECT of a reading of a stage takes its rows from the stage, and walks from them. -/
lemma scanStage_walks {k : Nat} {reading : Reading} {stage : Stage}
    (hbase : reading.base = .stage (rowName k))
    (hstage : s.stages.find? (·.name == rowName k) = some stage)
    (hself : schema.get? stage.relation.name = some stage.relation) :
    Ensures (scanReading schema earlier reading []) s fun scan _ =>
      scan.select.source = some (.table (rowName k) none) ∧ ∀ name selection maxDepth,
          (name, .recursive selection maxDepth) ∈ reading.selection.lookups →
            scan.select.shape.Walks schema stage.relation (rowName k) name maxDepth := by
  rw [scanReading, hbase]
  refine .run_bind (openStage_run hstage) ?_
  refine (addConditions_rest _).bind fun filtered s₁ hfiltered => .bind_any fun _ s2 => ?_
  obtain ⟨-, selection, ordering, limit, offset, conditions⟩ := reading
  obtain ⟨fields, lookups⟩ := selection
  rw [shape, bind_assoc]
  refine .bind_any fun first s3 => ?_
  rw [bind_assoc]
  refine (shapeLookups_walks hself).bind fun sh s4 hsh => ?_
  rw [pure_bind]
  refine .bind_any fun items s5 => .of_pure ⟨?_, fun name selection maxDepth hmem => ?_⟩
  · rw [hfiltered]
    rfl
  · exact (hsh name selection maxDepth hmem).append_right first

end Planned

/-- **Walks pass over the rows that were inserted.** For every tree of changes that is inserted and
every chain of selects, filters, orderings, limits and offsets on top of the insert, the rows of the
tree are inserted by the first stages, and the rows of the chain are taken from a stage. A recursive
lookup on these rows begins with the stored rows that are linked to them, and with no others,
although the column may have been filled by stages (`leadNames`), from which a nested lookup would
take its rows. -/
theorem insert_walks_pass_over {g g' : Graph} {name : String} {changes : Changes}
    {reads : List ReadOp} {q : Query} {statement : Statement} (htree : changes.IsTree)
    (hbuild : (do ReadOp.runAll (← (← Query.ofTable name).insert changes) reads : Build Query) g =
      (.ok q, g'))
    (hstatement : q.toStatement g' = .ok statement) :
    ∃ r stages rows inserts later k, g.schema.get? name = some r ∧
      statement = withStages stages (jsonRows rows) ∧ statement.ctes = inserts ++ later ∧
      Forall₂ Cte.Inserts ((changes.newRows g.schema 0 r none).rows.zipIdx 1) inserts ∧
      rows.source = some (.table (rowName k) none) ∧
      ∀ column selection maxDepth,
        (column, .recursive selection maxDepth) ∈ (ReadOp.view reads).asked.selection.lookups →
        ∃ c first next table walked label lateral, g.schema.link? r column = some (c, r) ∧
          .leftLateral (walkStatement table (walkStart r c first (rowName k))
            (walkStep r c table next maxDepth) walked label) lateral ∈ rows.joins ∧
          labelled (.of lateral "value") column ∈ rows.projection ∧
          ∀ (ops : Operators) (ts : Tables) (env : Env) (stored : List (String → Value))
            (key : Value), Walkable r c →
            ts r.name = some ⟨r.storedNames, stored.map r.row⟩ →
            env.column? (some (rowName k)) (c.linkFrom r) = some key →
            (walkStart r c first (rowName k)).rows ops ts env =
              some (((List.finRange stored.length).filter (startsAt ops r c stored key)).map
                fun i => walkEntry r stored [i]) := by
  obtain ⟨earlier, stage, k, reading, s₁, scan, s, inserts, later, hname, hbase, hselection, hstage,
    hscan, hshape, hctes, hinserts, -⟩ := insert_chain_scan htree hbuild hstatement
  have hself : g.schema.get? stage.relation.name = some stage.relation := by
    rw [Schema.name_of_get? hname, hname]
  obtain ⟨hsource, hwalks⟩ := scanStage_walks hbase hstage hself scan s hscan
  rw [hselection] at hwalks
  refine ⟨stage.relation, _, scan.select, inserts, later, k, hname, hshape, hctes, hinserts,
    hsource, fun column selection maxDepth hmem => ?_⟩
  obtain ⟨c, a, b, table, walked, label, lateral, hlink, hj, hi⟩ :=
    hwalks column selection maxDepth hmem
  refine ⟨c, _, _, table, walked, label, lateral, hlink, hj, hi, ?_⟩
  intro ops ts env stored key hwalkable hts hkey
  exact walkStart_rows hwalkable hts (numberedName_ne (by decide) a k) hkey

/-- A folder with another one in it. -/
def subfolder : Changes := ⟨[("children", .many [⟨[], none⟩])], none⟩

/-- All that is in a folder is asked for, at any depth. -/
def folderReads : List ReadOp :=
  [.select ⟨["id"], [("children", .recursive (.ofFields ["id"]) none)]⟩]

/-- A folder is inserted with another one in it by two stages. The walk through what is in it finds
nothing if there are no other folders. -/
theorem insert_walks_pass_over_subfolder :
    ∃ (q : Query) (g' : Graph) (statement : Statement) (stages : List Stage) (rows : Select)
      (start step walked : Select) (stage table label lateral : String),
      (do ReadOp.runAll (← (← Query.ofTable "folder").insert subfolder) folderReads : Build Query)
          (.empty 0 ⟨0, [nestedFolders]⟩) = (.ok q, g') ∧
        q.toStatement g' = .ok statement ∧ statement = withStages stages (jsonRows rows) ∧
        (∃ cte ∈ statement.ctes,
          Cte.Inserts (⟨nestedFolders, [("parent", .parent 1 nestedFolders)]⟩, 2) cte) ∧
        rows.source = some (.table stage none) ∧
        .leftLateral (walkStatement table start step walked label) lateral ∈ rows.joins ∧
        ∀ (ops : Operators) (ts : Tables) (env : Env) (key : Value),
          ts "folder" = some ⟨["id", "parent"], []⟩ →
          env.column? (some stage) "id" = some key → start.rows ops ts env = some [] := by
  have hruns : Build.compiles
      (do ReadOp.runAll (← (← Query.ofTable "folder").insert subfolder) folderReads)
      (.empty 0 ⟨0, [nestedFolders]⟩) = true := by decide +kernel
  obtain ⟨q, g', rendered, hbuild, hcompile⟩ := Build.exists_of_compiles hruns
  obtain ⟨statement, hstatement, -⟩ := Except.bind_ok hcompile
  have htree : subfolder.IsTree := by
    simp [subfolder, Changes.IsTree, Change.AreTrees, Change.IsTree, Changes.AreTrees]
  obtain ⟨r, stages, rows, inserts, later, k, hname, hshape, hctes, hinserts, hsource, hwalks⟩ :=
    insert_walks_pass_over htree hbuild hstatement
  cases hname
  obtain _ | ⟨-, _ | ⟨hsecond, -⟩⟩ := hinserts
  obtain ⟨c, first, next, table, walked, label, lateral, hlink, hj, -, hstart⟩ :=
    hwalks "children" _ none (mem_singleton_self _)
  cases hlink
  have hwalkable : Walkable nestedFolders (.reverse "children" "folder" "parent") :=
    ⟨by decide, rfl, by decide, by decide⟩
  refine ⟨q, g', statement, stages, rows, _, _, walked, rowName k, table, label, lateral, hbuild,
    hstatement, hshape, ⟨_, ?_, hsecond⟩, hsource, hj, fun ops ts env key hts hkey => ?_⟩
  · rw [hctes]
    simp
  · exact hstart ops ts env [] key hwalkable hts hkey

end StagedSql
