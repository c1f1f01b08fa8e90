import StagedSql.Proofs.Graph.Builds

/-!
Trees of changes, and the nodes that an inserted one is built into.

A tree stands for a list of new rows: for each of its nodes the rows of the nested changes, then the
node's own row, then the rows that refer back to it. Links between rows are given by their numbers.
Each row becomes a node, and a nested row is read through a select of its primary key.
-/

namespace StagedSql

/-! ### Trees -/

mutual

/-- Whether changes are made of values, nested changes and rows that refer back, at any depth. -/
def Changes.IsTree : Changes → Prop
  | ⟨entries, source⟩ => source = none ∧ Change.AreTrees entries

def Change.IsTree : Change → Prop
  | .value _ => True
  | .nested changes => changes.IsTree
  | .query _ => False
  | .many rows => Changes.AreTrees rows

def Change.AreTrees : List (String × Change) → Prop
  | [] => True
  | (_, change) :: rest => change.IsTree ∧ Change.AreTrees rest

def Changes.AreTrees : List Changes → Prop
  | [] => True
  | row :: rest => row.IsTree ∧ Changes.AreTrees rest

end

/-! ### Rows -/

/-- What is written into a column of a new row. -/
inductive NewCell where
  | value (v : Value)
  /-- The key of the nested row of a number, which is inserted before into a relation. -/
  | nested (row : Nat) (relation : Relation)
  /-- The key of the parent row of a number, which belongs to a relation. -/
  | parent (row : Nat) (relation : Relation)

/-- A row to insert into a relation. -/
structure NewRow where
  relation : Relation
  cells : List (String × NewCell)

/-- The parent row of rows that refer back to it by a column. -/
structure ParentLink where
  column : String
  row : Nat
  relation : Relation

/-- The cell that refers back to a parent row. -/
def ParentLink.cell (p : ParentLink) : String × NewCell := (p.column, .parent p.row p.relation)

/-- The rows of a tree of changes. -/
structure NewRows where
  rows : List NewRow
  own : Nat
  /-- The numbers of the rows that the columns of its own row lead to. The newest entry of a column
  counts. -/
  leads : List (String × List Nat)

/-- The row that a cell leads to, if it was nested. -/
def NewCell.lead? : String × NewCell → Option (String × List Nat)
  | (name, .nested row _) => some (name, [row])
  | _ => none

/-- The column by which the rows that a reverse column stands for refer back, and their relation. -/
def Schema.backLink? (schema : Schema) (r : Relation) (name : String) :
    Option (String × Relation) :=
  match schema.link? r name with
  | some (⟨_, _, _, _, .reverse _ via, _⟩, t) => some (via, t)
  | _ => none

section Rows

variable (schema : Schema)

mutual

/-- **The rows of a tree of changes** to a relation, of which `before` others are inserted before.
-/
def Changes.newRows (before : Nat) (r : Relation) (parent : Option ParentLink) : Changes → NewRows
  | ⟨entries, _⟩ =>
    let (first, cells) := Change.firstRows before r entries
    let own := before + first.length + 1
    let (last, leads) := Change.lastRows own own r entries
    { rows := first ++ ⟨r, cells ++ parent.toList.map ParentLink.cell⟩ :: last
      own := own
      leads := cells.filterMap NewCell.lead? ++ leads }

/-- The rows that are inserted before their owner, and the cells of the owner. -/
def Change.firstRows (before : Nat) (r : Relation) :
    List (String × Change) → List NewRow × List (String × NewCell)
  | [] => ([], [])
  | (name, .value v) :: rest =>
    let (rows, cells) := Change.firstRows before r rest
    (rows, (name, .value v) :: cells)
  | (name, .nested changes) :: rest =>
    match schema.link? r name with
    | none => Change.firstRows before r rest
    | some (_, t) =>
      let inner := changes.newRows before t none
      let (rows, cells) := Change.firstRows (before + inner.rows.length) r rest
      (inner.rows ++ rows, (name, .nested inner.own t) :: cells)
  | (_, .query _) :: rest => Change.firstRows before r rest
  | (_, .many _) :: rest => Change.firstRows before r rest

/-- The rows that refer back to the row `own`, and their numbers by column. -/
def Change.lastRows (before own : Nat) (r : Relation) :
    List (String × Change) → List NewRow × List (String × List Nat)
  | [] => ([], [])
  | (_, .value _) :: rest => Change.lastRows before own r rest
  | (_, .nested _) :: rest => Change.lastRows before own r rest
  | (_, .query _) :: rest => Change.lastRows before own r rest
  | (name, .many changes) :: rest =>
    match schema.backLink? r name with
    | none => Change.lastRows before own r rest
    | some (via, t) =>
      let (rows, numbers) := Changes.rowsEach before t ⟨via, own, r⟩ changes
      let (last, leads) := Change.lastRows (before + rows.length) own r rest
      (rows ++ last, (name, numbers) :: leads)

/-- The rows of several trees that refer back to one parent row, and the numbers of their own
rows. -/
def Changes.rowsEach (before : Nat) (t : Relation) (parent : ParentLink) :
    List Changes → List NewRow × List Nat
  | [] => ([], [])
  | row :: rest =>
    let inner := row.newRows before t (some parent)
    let (rows, numbers) := Changes.rowsEach (before + inner.rows.length) t parent rest
    (inner.rows ++ rows, inner.own :: numbers)

end

end Rows

/-- The value that a cell takes from the outside. -/
def NewCell.value? : NewCell → Option Value
  | .value v => some v
  | _ => none

/-- The values that a row takes from the outside, in the order of its columns. -/
def NewRow.values (row : NewRow) : List Value := row.cells.filterMap fun c => c.2.value?

open List

variable {g g' : Graph} {hs : List Handle} {r t : Relation} {link : Option String} {c : Changes}
  {h : Handle}

/-! ### The nodes of a tree -/

/-- The select by which the primary key of what a node gives is read. -/
def keyNode (h : Handle) (r : Relation) : Node :=
  .select (.ofSource (.node h) (.ofFields [r.primaryKey]))

/-- The column that takes the key of a parent row, if there is one. -/
def parentEntries (link : Option String) : List (String × PayloadValue) :=
  link.toList.map fun column => (column, .parentKey)

mutual

/-- **The node of a row and of all rows under it.** The row goes into a relation, and `link` is the
column that refers back to its parent row. The last argument lists all nodes. -/
inductive Changes.Built : Graph → Relation → Option String → Changes → Handle → List Handle → Prop
  | row {g past : Graph} {id : RelationId} {r : Relation} {link : Option String}
      {entries : List (String × Change)} {values : List (String × PayloadValue)}
      {reverse : List (String × List Handle)} {first last : List Handle}
      (hr : past.schema.relation id = .ok r)
      (hentries : Change.Built past r entries values reverse first last)
      (hnode : (past.push (.insert id (.values (values ++ parentEntries link)) reverse)).Within g) :
      Changes.Built g r link ⟨entries, none⟩ past.nextHandle (past.nextHandle :: (first ++ last))

/-- The columns of a row: the values that are written, the rows that refer back by column, and the
nodes of the rows that go before and of those that come after. -/
inductive Change.Built : Graph → Relation → List (String × Change) →
    List (String × PayloadValue) → List (String × List Handle) → List Handle → List Handle → Prop
  | nil {g : Graph} {r : Relation} : Change.Built g r [] [] [] [] []
  | value {g : Graph} {r : Relation} {name : String} {v : Value} {rest : List (String × Change)}
      {values : List (String × PayloadValue)} {reverse : List (String × List Handle)}
      {first last : List Handle} (hrest : Change.Built g r rest values reverse first last) :
      Change.Built g r ((name, .value v) :: rest) ((name, .value v) :: values) reverse first last
  | nested {g past : Graph} {r t : Relation} {name : String} {c : Column} {changes : Changes}
      {h : Handle} {hs : List Handle} {rest : List (String × Change)}
      {values : List (String × PayloadValue)} {reverse : List (String × List Handle)}
      {first last : List Handle} (hlink : g.schema.link? r name = some (c, t))
      (hforward : c.isForward = true) (hrow : Changes.Built past t none changes h hs)
      (hkey : (past.push (keyNode h t)).Within g)
      (hrest : Change.Built g r rest values reverse first last) :
      Change.Built g r ((name, .nested changes) :: rest)
        ((name, .query past.nextHandle) :: values) reverse (past.nextHandle :: (hs ++ first)) last
  | many {g : Graph} {r t : Relation} {name via : String} {rows : List Changes}
      {children hs : List Handle} {rest : List (String × Change)}
      {values : List (String × PayloadValue)} {reverse : List (String × List Handle)}
      {first last : List Handle} (hlink : g.schema.backLink? r name = some (via, t))
      (hrows : Changes.EachBuilt g t via rows children hs)
      (hrest : Change.Built g r rest values reverse first last) :
      Change.Built g r ((name, .many rows) :: rest) values ((name, children) :: reverse) first
        (hs ++ last)

/-- The nodes of rows that refer back by one column. -/
inductive Changes.EachBuilt : Graph → Relation → String → List Changes → List Handle →
    List Handle → Prop
  | nil {g : Graph} {t : Relation} {via : String} : Changes.EachBuilt g t via [] [] []
  | cons {g : Graph} {t : Relation} {via : String} {row : Changes} {h : Handle} {hs : List Handle}
      {rest : List Changes} {children hs' : List Handle}
      (hrow : Changes.Built g t (some via) row h hs)
      (hrest : Changes.EachBuilt g t via rest children hs') :
      Changes.EachBuilt g t via (row :: rest) (h :: children) (hs ++ hs')

end

/-! ### Growing graphs -/

lemma Changes.Built.mono (hb : c.Built g r link h hs)
    (hg : g.Within g') : c.Built g' r link h hs := by
  cases hb with
  | row hr hentries hnode => exact .row hr hentries (hnode.trans hg)

lemma Changes.Built.isMutation
    (hb : c.Built g r link h hs) : ∃ node, g.node h = .ok node ∧ node.isMutation = true := by
  cases hb with
  | row hr hentries hnode => exact ⟨_, hnode.node_eq, rfl⟩

lemma Changes.EachBuilt.mono {via : String} {rows : List Changes} {children : List Handle}
    (hb : Changes.EachBuilt g t via rows children hs)
    (hg : g.Within g') : Changes.EachBuilt g' t via rows children hs := by
  induction rows generalizing children hs with
  | nil =>
    cases hb
    exact .nil
  | cons row rest ih =>
    cases hb with
    | cons hrow hrest => exact .cons (hrow.mono hg) (ih hrest)

/-- Different handles, all of nodes that were added between two graphs. -/
structure Graph.Spans (g g' : Graph) (hs : List Handle) : Prop where
  within : g.Within g'
  nodup : hs.Nodup
  bounds : ∀ h ∈ hs, h.graph = g.id ∧ g.size ≤ h.index ∧ h.index < g'.size

namespace Graph.Spans

variable {g' g'' : Graph} {hs' : List Handle}

lemma nil (h : g.Within g') : g.Spans g' [] := ⟨h, .nil, by simp⟩

lemma append (h : g.Spans g' hs) (h' : g'.Spans g'' hs') : g.Spans g'' (hs ++ hs') := by
  refine ⟨h.within.trans h'.within, nodup_append.mpr ⟨h.nodup, h'.nodup, ?_⟩, ?_⟩
  · rintro a ha b hb rfl
    have hlt := (h.bounds a ha).2.2
    have hle := (h'.bounds a hb).2.1
    omega
  · intro a ha
    have hsize := h'.within.size_le
    have hsize' := h.within.size_le
    rcases mem_append.mp ha with ha | ha
    · obtain ⟨hid, hle, hlt⟩ := h.bounds a ha
      exact ⟨hid, hle, by omega⟩
    · obtain ⟨hid, hle, hlt⟩ := h'.bounds a ha
      exact ⟨hid.trans h.within.id, by omega, hlt⟩

lemma perm (h : g.Spans g' hs) (hp : hs.Perm hs') : g.Spans g' hs' :=
  ⟨h.within, hp.nodup_iff.mp h.nodup, fun a ha => h.bounds a (hp.mem_iff.mpr ha)⟩

lemma push (h : g.Spans g' hs) (node : Node) :
    g.Spans (g'.push node) (g'.nextHandle :: hs) := by
  have hown : g'.Spans (g'.push node) [g'.nextHandle] :=
    ⟨within_push g' node, by simp, by simp [nextHandle]⟩
  exact (h.append hown).perm (perm_append_singleton _ _)

end Graph.Spans

/-! ### Building -/

lemma keyOf_insert {id : RelationId} {payload : Payload} {reverse : List (String × List Handle)}
    (ht : g.schema.relation id = .ok t) :
    Build.Ensures (keyOf g.nextHandle) (g.push (.insert id payload reverse)) fun k g' =>
      k = (g.push (.insert id payload reverse)).nextHandle ∧
        g' = (g.push (.insert id payload reverse)).push (keyNode g.nextHandle t) := by
  have hrel : (g.push (.insert id payload reverse)).relationOf (.node g.nextHandle) =
      .ok (some id) := if_pos rfl
  refine .get_bind (.lift_bind fun id? hid => ?_)
  rw [hrel] at hid
  cases hid
  refine .lift_bind fun t' ht' => ?_
  rw [Graph.schema_push, ht] at ht'
  cases ht'
  intro k g' hk
  cases hk
  exact ⟨rfl, rfl⟩

mutual

/-- **A tree of changes is built into nodes**, by recursion on the tree. -/
theorem payloadOf_built {g : Graph} {id : RelationId} {r : Relation}
    (hr : g.schema.relation id = .ok r) : ∀ c : Changes, c.IsTree →
      Build.Ensures (payloadOf id .insert c) g fun result g' =>
        ∃ entries values first last, c = ⟨entries, none⟩ ∧ result.1 = .values values ∧
          Change.Built g' r entries values result.2 first last ∧ g.Spans g' (first ++ last)
  | ⟨entries, _⟩, ⟨rfl, htrees⟩ => by
    refine .get_bind (.lift_bind fun r' hr' => ?_)
    rw [hr] at hr'
    cases hr'
    refine (partsOf_built .empty entries htrees).bind fun parts g' hparts => ?_
    obtain ⟨values, reverse, first, last, rfl, hbuilt, hspans⟩ := hparts
    exact .of_pure ⟨entries, values, first, last, rfl, rfl, hbuilt, hspans⟩

theorem partsOf_built {g : Graph} {r : Relation} (parts : RowParts) :
    ∀ entries : List (String × Change), Change.AreTrees entries →
      Build.Ensures (partsOf r .insert parts entries) g fun parts' g' =>
        ∃ values reverse first last, parts' = ⟨parts.values ++ values, parts.reverse ++ reverse⟩ ∧
            Change.Built g' r entries values reverse first last ∧ g.Spans g' (first ++ last)
  | [], _ => .of_pure ⟨[], [], [], [], by simp, .nil, .nil (.refl g)⟩
  | (name, .value v) :: rest, htrees => by
    refine .lift_bind fun c _ => ?_
    rw [changeInto]
    split
    · exact .of_error rfl
    · refine (partsOf_built _ rest htrees.2).mono fun parts' g' hrest => ?_
      obtain ⟨values, reverse, first, last, rfl, hbuilt, hspans⟩ := hrest
      exact ⟨(name, .value v) :: values, reverse, first, last, by simp [RowParts.addValue],
        .value hbuilt, hspans⟩
  | (name, .nested changes) :: rest, htrees => by
    refine .lift_bind fun c hc => ?_
    -- the inner row is built before the node of its key
    have hchange : Build.Ensures (changeInto c name .insert parts (.nested changes)) g
        fun parts' g' => ∃ past t h hs, parts' = parts.addValue name (.query past.nextHandle) ∧
            g' = past.push (keyNode h t) ∧ g.schema.link? r name = some (c, t) ∧
            c.isForward = true ∧ changes.Built past t none h hs ∧ g.Spans past hs := by
      rw [changeInto]
      split
      · rename_i target hk
        refine .get_bind (.lift_bind fun id hid => ?_)
        obtain ⟨t, htarget, ht⟩ := Schema.get?_of_resolve hid
        refine (payloadOf_built ht changes htrees.1).bind fun result g1 hpayload => ?_
        obtain ⟨payload, reverse⟩ := result
        obtain ⟨entries, values, first, last, rfl, rfl, hbuilt, hspans⟩ := hpayload
        have ht1 : g1.schema.relation id = .ok t := by rw [hspans.within.schema, ht]
        refine .push_bind ((keyOf_insert ht1).bind fun k g2 hkey => ?_)
        obtain ⟨rfl, rfl⟩ := hkey
        refine .of_pure ⟨_, t, _, _, rfl, rfl, ?_, ?_, ?_, hspans.push _⟩
        · refine Schema.link?_eq_some.mpr ⟨Relation.column_eq_ok.mp hc, target, ?_, htarget⟩
          rw [Column.related?, hk]
        · rw [Column.isForward, hk]
        · refine .row ht1 hbuilt ?_
          rw [parentEntries, Option.toList_none, map_nil, append_nil]
          exact .refl _
      · exact .of_error rfl
    refine hchange.bind fun parts1 g1 h1 => ?_
    obtain ⟨past, t, h, hs, rfl, rfl, hlink, hforward, hrow, hspans⟩ := h1
    refine (partsOf_built _ rest htrees.2).mono fun parts' g' hrest => ?_
    obtain ⟨values, reverse, first, last, rfl, hbuilt, hspans'⟩ := hrest
    have hschema : g'.schema = g.schema := by
      rw [hspans'.within.schema, Graph.schema_push, hspans.within.schema]
    refine ⟨_, _, _, last, ?_, .nested (hschema ▸ hlink) hforward hrow hspans'.within hbuilt, ?_⟩
    · simp [RowParts.addValue]
    · simpa using (hspans.push (keyNode h t)).append hspans'
  | (_, .query _) :: _, htrees => htrees.1.elim
  | (name, .many rows) :: rest, htrees => by
    refine .lift_bind fun c hc => ?_
    have hchange : Build.Ensures (changeInto c name .insert parts (.many rows)) g
        fun parts' g' => ∃ t via children hs, parts' = parts.addReverse name children ∧
          g.schema.backLink? r name = some (via, t) ∧
            Changes.EachBuilt g' t via rows children hs ∧ g.Spans g' hs := by
      rw [changeInto]
      split
      · rename_i hmode
        cases hmode
      · split
        · rename_i target via hk
          refine .get_bind (.lift_bind fun id hid => ?_)
          obtain ⟨t, htarget, ht⟩ := Schema.get?_of_resolve hid
          refine (rowsInto_built ht name via rows htrees.1).bind fun children g1 hrows => ?_
          obtain ⟨hs, hrows, hspans⟩ := hrows
          refine .of_pure ⟨t, via, children, hs, rfl, ?_, hrows, hspans⟩
          have hlink : g.schema.link? r name = some (c, t) := by
            refine Schema.link?_eq_some.mpr ⟨Relation.column_eq_ok.mp hc, target, ?_, htarget⟩
            rw [Column.related?, hk]
          obtain ⟨_, _, _, _, _, _⟩ := c
          cases hk
          rw [Schema.backLink?, hlink]
        · exact .of_error rfl
    refine hchange.bind fun parts1 g1 h1 => ?_
    obtain ⟨t, via, children, hs, rfl, hlink, hrows, hspans⟩ := h1
    refine (partsOf_built _ rest htrees.2).mono fun parts' g' hrest => ?_
    obtain ⟨values, reverse, first, last, rfl, hbuilt, hspans'⟩ := hrest
    have hschema : g'.schema = g.schema := by rw [hspans'.within.schema, hspans.within.schema]
    refine ⟨values, _, first, _, ?_, .many (hschema ▸ hlink) (hrows.mono hspans'.within) hbuilt, ?_⟩
    · simp [RowParts.addReverse]
    · -- the rows that point back are built here, but written after those of the rest
      refine (hspans.append hspans').perm ?_
      grind

theorem rowsInto_built {g : Graph} {id : RelationId} {t : Relation}
    (ht : g.schema.relation id = .ok t) (name via : String) :
    ∀ rows : List Changes, Changes.AreTrees rows →
      Build.Ensures (rowsInto name via id rows) g fun children g' =>
        ∃ hs, Changes.EachBuilt g' t via rows children hs ∧ g.Spans g' hs
  | [], _ => .of_pure ⟨[], .nil, .nil (.refl g)⟩
  | row :: rest, htrees => by
    rw [rowsInto]
    split
    · exact .of_error rfl
    · refine (payloadOf_built ht row htrees.1).bind fun result g1 hpayload => ?_
      obtain ⟨payload, reverse⟩ := result
      obtain ⟨entries, values, first, last, rfl, rfl, hbuilt, hspans⟩ := hpayload
      have ht1 : g1.schema.relation id = .ok t := by rw [hspans.within.schema, ht]
      refine .push_bind ?_
      refine (rowsInto_built (by exact ht1) name via rest htrees.2).bind fun children g2 hrest => ?_
      obtain ⟨hs, hrest, hspans'⟩ := hrest
      exact .of_pure ⟨_, .cons (.row ht1 hbuilt hspans'.within) hrest,
        (hspans.push _).append hspans'⟩

end

/-- **An insert of a tree of changes into a relation.** -/
theorem insert_ofTable_built {name : String} {changes : Changes} (htree : changes.IsTree) :
    Build.Ensures (do (← Query.ofTable name).insert changes : Build Query) g fun q g' =>
      ∃ r h hs, g.schema.get? name = some r ∧ q = ⟨g.id, .node h, []⟩ ∧
        changes.Built g' r none h hs ∧ g.Spans g' hs := by
  refine (ofTable_relation name).bind fun q g1 hq => ?_
  obtain ⟨rfl, id, r, rfl, hname, hr⟩ := hq
  refine (payloadOf_built hr changes htree).bind fun result g2 hpayload => ?_
  obtain ⟨payload, reverse⟩ := result
  obtain ⟨entries, values, first, last, rfl, rfl, hbuilt, hspans⟩ := hpayload
  have hr2 : g2.schema.relation id = .ok r := by rw [hspans.within.schema, hr]
  refine .push_bind (.of_pure ⟨r, _, _, hname, rfl, .row hr2 hbuilt ?_, hspans.push _⟩)
  rw [parentEntries, Option.toList_none, map_nil, append_nil]
  exact .refl _

end StagedSql
