import StagedSql.Proofs.Plan.RowStatements

/-!
Planning an inserted tree stages its rows.

The rows that a row refers to are staged while its statement is planned, and those that refer back
to it after its own stage. So the stage of a row has the number of the row (`stageRow_staged`).
-/

namespace StagedSql

open List Plan ParentLink Change

variable {s : PlanState} {values : List (String × PayloadValue)} {cells : List (String × NewCell)}
  {parent : Option ParentLink}

/-! ### Stages of rows -/

/-- The stage of a number inserts a row. -/
structure Stage.Inserts (numbered : NewRow × Nat) (stage : Stage) : Prop where
  name : stage.name = rowName numbered.2
  relation : stage.relation = numbered.1.relation
  statement : numbered.1.IsInsertedBy stage.statement

/-- **Stages for rows have been added**, one for each row in order, and nodes among `hs` have been
noted as staged. -/
structure PlanState.Inserts (hs : List Handle) (rows : List NewRow) (s s' : PlanState) : Prop where
  stages : ∃ more, s'.stages = s.stages ++ more ∧
    Forall₂ Stage.Inserts (rows.zipIdx (s.names.stages + 1)) more
  count : s'.names.stages = s.names.stages + rows.length
  staged : ∃ new, s'.staged = new ++ s.staged ∧ ∀ e ∈ new, e.1 ∈ hs
  pages : s'.pages = s.pages

namespace PlanState

variable {hs hs' : List Handle} {rows rows' : List NewRow} {s' s'' : PlanState} {x : Handle}

/-- None of the nodes has a stage yet. -/
def Free (s : PlanState) (hs : List Handle) : Prop := ∀ h ∈ hs, s.staged.lookup h = none

lemma Inserts.of_eq (hstages : s'.stages = s.stages) (hcount : s'.names.stages = s.names.stages)
    (hstaged : s'.staged = s.staged) (hpages : s'.pages = s.pages) : s.Inserts [] [] s' :=
  ⟨⟨[], by simp [hstages], .nil⟩, hcount, ⟨[], by simp [hstaged], by simp⟩, hpages⟩

lemma Quiet.inserts (h : s.Quiet s') : s.Inserts [] [] s' :=
  .of_eq h.stages h.count h.staged h.pages

lemma Inserts.trans (h : s.Inserts hs rows s') (h' : s'.Inserts hs' rows' s'') :
    s.Inserts (hs ++ hs') (rows ++ rows') s'' := by
  obtain ⟨more, hmore, hrows⟩ := h.stages
  obtain ⟨more', hmore', hrows'⟩ := h'.stages
  obtain ⟨new, hnew, hin⟩ := h.staged
  obtain ⟨new', hnew', hin'⟩ := h'.staged
  refine ⟨⟨more ++ more', ?_, ?_⟩, ?_, ⟨new' ++ new, ?_, ?_⟩, h'.pages.trans h.pages⟩
  · rw [hmore', hmore, append_assoc]
  · rw [zipIdx_append]
    refine rel_append hrows ?_
    rwa [Nat.add_right_comm, ← h.count]
  · rw [h'.count, h.count, length_append, Nat.add_assoc]
  · rw [hnew', hnew, append_assoc]
  · grind

lemma Inserts.mono (h : s.Inserts hs rows s') (hsub : hs ⊆ hs') : s.Inserts hs' rows s' := by
  obtain ⟨new, hnew, hin⟩ := h.staged
  exact ⟨h.stages, h.count, ⟨new, hnew, fun e he => hsub (hin e he)⟩, h.pages⟩

lemma Inserts.lookup_staged (h : s.Inserts hs rows s') (hx : x ∉ hs) :
    s'.staged.lookup x = s.staged.lookup x := by
  obtain ⟨new, hnew, hin⟩ := h.staged
  grind

lemma Inserts.free (h : s.Inserts hs rows s') (hfree : s.Free hs') (hdisjoint : hs.Disjoint hs') :
    s'.Free hs' := by
  intro x hx
  rw [h.lookup_staged fun hmem => hdisjoint hmem hx]
  exact hfree x hx

lemma Inserts.keeps_staged (h : s.Inserts hs rows s') (hfree : s.Free hs) {name : String}
    (hx : s.staged.lookup x = some name) : s'.staged.lookup x = some name := by
  rw [h.lookup_staged, hx]
  intro hmem
  rw [hfree x hmem] at hx
  cases hx

lemma addWrite_inserts {row : NewRow} {statement : Statement} (h : Handle)
    (hrow : row.IsInsertedBy statement) :
    s.Inserts [h] [row] (s.addWrite h statement row.relation) :=
  ⟨⟨_, rfl, .cons ⟨rfl, rfl, hrow⟩ .nil⟩, rfl, ⟨[(h, rowName (s.names.stages + 1))], rfl, by simp⟩,
    rfl⟩

end PlanState

/-! ### Staged rows -/

/-- The parent row, if there is one, is on top of the stack. -/
def PlanState.HasParent (s : PlanState) (parent : Option ParentLink) : Prop :=
  ∀ p ∈ parent, ∃ rest, s.parents = ⟨rowName p.row, p.relation.primaryKey⟩ :: rest

/-- The stages that hold the rows which a column leads to, by the numbers of the rows. -/
def leadNames (leads : List (String × List Nat)) (column : String) : Option (List String) :=
  (leads.reverse.lookup column).map fun numbers => numbers.map rowName

lemma leadNames_append (leads later : List (String × List Nat)) (column : String) :
    leadNames (leads ++ later) column = (leadNames later column).or (leadNames leads column) := by
  rw [leadNames, reverse_append, lookup_append, Option.map_or]
  rfl

lemma lookup_leads (leads : List (String × List Nat)) (stage column : String) :
    (leads.map fun e => ((stage, e.1), e.2.map rowName)).reverse.lookup (stage, column) =
      leadNames leads column := by
  rw [leadNames, ← map_reverse]
  induction leads.reverse with
  | nil => rfl
  | cons e rest ih =>
    grind

/-- **A row has been staged with all rows under it**: there are stages for the rows of the tree, the
node is noted under the stage of its own row, and so are the stages that its columns lead to. -/
structure RowStaged (schema : Schema) (c : Changes) (r : Relation) (parent : Option ParentLink)
    (h : Handle) (hs : List Handle) (s : PlanState) (name : String) (s' : PlanState) : Prop where
  named : name = rowName (c.newRows schema s.names.stages r parent).own
  inserts : s.Inserts hs (c.newRows schema s.names.stages r parent).rows s'
  staged : s'.staged.lookup h = some name
  stage : ∃ stage, s'.stages.find? (·.name == name) = some stage ∧ stage.relation = r
  leads : ∀ column, s'.written.lookup (name, column) =
    leadNames (c.newRows schema s.names.stages r parent).leads column

section Rows

variable {schema : Schema} {past : Graph} {r : Relation} {staged : List (Handle × String)}
  {earlier : Earlier}

lemma newRows_rows (before : Nat) (parent : Option ParentLink) (entries : List (String × Change))
    (source : Option Handle) :
    Changes.newRows schema before r parent ⟨entries, source⟩ =
      { rows := (firstRows schema before r entries).1 ++
          ⟨r, (firstRows schema before r entries).2 ++ parent.toList.map cell⟩ ::
          (lastRows schema (before + (firstRows schema before r entries).1.length + 1)
            (before + (firstRows schema before r entries).1.length + 1) r entries).1
        own := before + (firstRows schema before r entries).1.length + 1
        leads := (firstRows schema before r entries).2.filterMap NewCell.lead? ++
          (lastRows schema (before + (firstRows schema before r entries).1.length + 1)
            (before + (firstRows schema before r entries).1.length + 1) r entries).2 } := by
  rw [Changes.newRows]

/-- What is noted of the nodes tells the stage of a cell: that of the insert which a nested cell
takes its key from. -/
def CellNoted (past : Graph) (r : Relation) (staged : List (Handle × String))
    (entry : String × PayloadValue) (cell : String × NewCell) : Prop :=
  entry.1 = cell.1 ∧ match cell.2 with
    | .nested n _ => ∃ (c : Column) (k inner : Handle) (t : Relation) (node : Node),
        r.column? cell.1 = some c ∧ c.isForward = true ∧ entry.2 = .query k ∧
          past.node k = .ok (keyNode inner t) ∧ past.node inner = .ok node ∧
          node.isMutation = true ∧ staged.lookup inner = some (rowName n)
    | _ => ∀ k, entry.2 ≠ .query k

lemma CellNoted.mono {staged' : List (Handle × String)} {entry : String × PayloadValue}
    {cell : String × NewCell} (h : CellNoted past r staged entry cell)
    (hkeep : ∀ x name, staged.lookup x = some name → staged'.lookup x = some name) :
    CellNoted past r staged' entry cell := by
  obtain ⟨name, cell⟩ := cell
  refine ⟨h.1, ?_⟩
  cases cell with
  | nested n t =>
    obtain ⟨c, k, inner, t', node, hc, hforward, hentry, hk, hinner, hwrite, hstage⟩ := h.2
    exact ⟨c, k, inner, t', node, hc, hforward, hentry, hk, hinner, hwrite, hkeep _ _ hstage⟩
  | value | parent => exact h.2

/-- **The stages of nested rows are noted** as those that the columns lead to. -/
lemma linkForward_notes (h : Forall₂ (CellNoted past r staged) values cells)
    (link : Option String) (stage : String) : ∀ s : PlanState, s.staged = staged →
      linkForward past stage r (values ++ parentEntries link) s = .ok ((), { s with
        written := ((cells.filterMap NewCell.lead?).map fun e =>
          ((stage, e.1), e.2.map rowName)).reverse ++ s.written }) := by
  induction h with
  | nil =>
    intro s _
    cases link <;> rfl
  | @cons entry cell _ _ hentry _ ih =>
    intro s hs
    obtain ⟨name, v⟩ := entry
    obtain ⟨name', cell⟩ := cell
    obtain ⟨hname, hentry⟩ := hentry
    subst hname
    cases cell with
    | nested n t =>
      obtain ⟨c, k, inner, t', node, hc, hforward, rfl, hk, hinner, hwrite, hstage⟩ := hentry
      have hcolumn : ((r.column? name).map Column.isForward).getD false = true := by
        rw [hc, Option.map_some, hforward]
        rfl
      have hstageOf : stageOf? inner s = .ok (some (rowName n), s) := by
        rw [← hstage, ← hs]
        rfl
      rw [cons_append, linkForward]
      rw [if_pos hcolumn, bind_run (lift_run hk s)]
      dsimp only [keyNode, SelectNode.ofSource]
      rw [bind_run (lift_run hinner s), if_pos hwrite, bind_run hstageOf]
      refine (ih { s with written := ((stage, name), [rowName n]) :: s.written } hs).trans ?_
      simp [NewCell.lead?]
    | value w =>
      cases v with
      | query k => exact (hentry k rfl).elim
      | value | parentKey => exact ih s hs
    | parent n t =>
      cases v with
      | query k => exact (hentry k rfl).elim
      | value | parentKey => exact ih s hs

/-! ### The statement of a row -/

/-- The expression of a cell is assigned to its column. -/
def CellAssigned (cell : String × NewCell) (item : Assignment) : Prop :=
  item.column = cell.1 ∧ cell.2.IsWrittenAs item.value

lemma cellsAssigned_split {items : List Assignment} (h : Forall₂ CellAssigned cells items) :
    items.map (·.column) = cells.map (·.1) ∧
      Forall₂ (fun cell e => cell.2.IsWrittenAs e) cells (items.map (·.value)) := by
  induction h with
  | nil => exact ⟨rfl, .nil⟩
  | cons hcell _ ih =>
    obtain ⟨hcolumns, hvalues⟩ := ih
    rw [map_cons, hcolumns, hcell.1]
    exact ⟨rfl, .cons hcell.2 hvalues⟩

lemma parentEntries_assigned (hparent : s.HasParent parent) :
    Keeps quiet ((parentEntries (parent.map column)).mapM (assignment earlier)) s
      fun items _ => Forall₂ CellAssigned (parent.toList.map cell) items := by
  cases parent with
  | none => exact .of_pure .nil
  | some p =>
    obtain ⟨rest, hparents⟩ := hparent p rfl
    have hkey : Keeps quiet (parentKey p.column) s fun e _ =>
        e = .subquery (.select (keySelect (rowName p.row) p.relation)) := by
      refine .get_bind ?_
      rw [hparents]
      exact ((need_plain _ _).quiet s).bind fun _ _ _ _ => .of_pure rfl
    rw [parentEntries, Option.map_some, Option.toList_some, map_singleton, mapM_cons]
    refine .bind (hkey.bind fun e _ _ he => .of_pure ⟨rfl, he⟩) fun _ _ _ hcell =>
      .of_pure (.cons hcell .nil)

/-- **The INSERT of a row**, once the rows that it refers to are staged. -/
lemma insertStatement_row {mid : PlanState → Prop}
    (hvalues : Ensures (values.mapM (assignment earlier)) s fun items s' =>
      mid s' ∧ s'.HasParent parent ∧ Forall₂ CellAssigned cells items) :
    Ensures (insertStatement schema earlier r
      (.values (values ++ parentEntries (parent.map column)))) s fun statement s' =>
        (∃ s1, mid s1 ∧ s1.Quiet s') ∧
          NewRow.IsInsertedBy ⟨r, cells ++ parent.toList.map cell⟩ statement := by
  simp only [insertStatement, assignedOf, mapM_append, bind_assoc]
  refine hvalues.bind fun items s1 hitems => ?_
  obtain ⟨hmid, hparent, hcells⟩ := hitems
  intro statement s' hrun
  obtain ⟨items', s2, hrun', hrest⟩ := bind_eq_ok hrun
  obtain ⟨-, hquiet, hlink⟩ := parentEntries_assigned hparent trivial items' s2 hrun'
  have hall : Forall₂ CellAssigned (cells ++ parent.toList.map cell)
      (items ++ items') := rel_append hcells hlink
  obtain ⟨hcolumns, hwritten⟩ := cellsAssigned_split hall
  generalize items ++ items' = all at hrest hall hcolumns hwritten
  generalize cells ++ parent.toList.map cell = row at hall hcolumns hwritten ⊢
  cases hall with
  | nil =>
    cases hrest
    exact ⟨⟨s1, hmid, hquiet⟩, [], .ofColumns [r.primaryKey], rfl, .nil⟩
  | cons hcell hrow =>
    cases hrest
    refine ⟨⟨s1, hmid, hquiet⟩, _, .ofColumns [r.primaryKey], ?_, hwritten⟩
    rw [← hcolumns]
    rfl

/-! ### The stage of a row -/

/-- The steps that stage the rows which refer back to a row. -/
def stageChildren (earlier : Earlier) (stage : String) (reverse : List (String × List Handle)) :
    Plan PUnit :=
  reverse.forM fun (column, children) => do
    setWritten stage column (← children.mapM earlier.stage)

/-- While the rows that refer back to a row are staged, it is on top of the stack. -/
lemma stageReverse_ensures {stage : String} {reverse : List (String × List Handle)}
    {post : PlanState → Prop} (h : Ensures (stageChildren earlier stage reverse)
      { s with parents := ⟨stage, r.primaryKey⟩ :: s.parents } fun _ s' =>
        post { s' with parents := s'.parents.tail }) :
    Ensures (stageReverse earlier stage r reverse) s fun _ s' => post s' := by
  cases reverse with
  | nil =>
    refine Ensures.of_pure ?_
    exact h _ _ rfl
  | cons entry rest =>
    refine .run_bind rfl ?_
    refine h.bind fun _ s1 hpost => ?_
    intro _ s' hrun
    cases hrun
    exact hpost

section Row

variable {entries : List (String × Change)} {firsts : List NewRow}
  {reverse : List (String × List Handle)} {first last : List Handle} {s2 : PlanState}
  {id : RelationId}

/-- How the rows that refer back to the row `own` are staged. -/
def ChildrenStaged (past : Graph) (r : Relation) (entries : List (String × Change))
    (reverse : List (String × List Handle)) (last : List Handle) : Prop :=
  ∀ (own : Nat) (s : PlanState), s.Free last → s.Numbered → own ≤ s.names.stages →
    (∃ rest, s.parents = ⟨rowName own, r.primaryKey⟩ :: rest) →
    Ensures (stageChildren past.planner (rowName own) reverse) s fun _ s' =>
      s.Inserts last (lastRows past.schema s.names.stages own r entries).1 s' ∧
        ∀ column, s'.written.lookup (rowName own, column) =
          (leadNames (lastRows past.schema s.names.stages own r entries).2 column).or
            (s.written.lookup (rowName own, column))

/-- **A row is staged** after the rows that it refers to, and those that refer back follow. -/
lemma linkWrite_row {statement : Statement} (hnodup : (past.nextHandle :: (first ++ last)).Nodup)
    (hfree : s.Free (past.nextHandle :: (first ++ last))) (hs2 : s2.Numbered)
    (hrows : firstRows past.schema s.names.stages r entries = (firsts, cells))
    (hfirst : s.Inserts first firsts s2)
    (hnoted : Forall₂ (CellNoted past r s2.staged) values cells)
    (hrow : NewRow.IsInsertedBy ⟨r, cells ++ parent.toList.map cell⟩ statement)
    (hlast : ChildrenStaged past r entries reverse last) :
    Ensures (linkWrite past past.planner (rowName (s2.names.stages + 1)) r (.insert id
      (.values (values ++ parentEntries (parent.map column))) reverse))
      (s2.addWrite past.nextHandle statement r) fun _ s' =>
        RowStaged past.schema ⟨entries, none⟩ r parent past.nextHandle
          (past.nextHandle :: (first ++ last)) s (rowName (s2.names.stages + 1)) s' := by
  have hown : s.Inserts (first ++ [past.nextHandle])
      (firsts ++ [⟨r, cells ++ parent.toList.map cell⟩])
      (s2.addWrite past.nextHandle statement r) :=
    hfirst.trans (PlanState.addWrite_inserts past.nextHandle hrow)
  obtain ⟨hnotown, hnodup⟩ := nodup_cons.mp hnodup
  have hlastFree : (s2.addWrite past.nextHandle statement r).Free last := by
    refine hown.free (fun x hx => hfree x (by simp [hx])) fun x hx hx' => ?_
    grind
  have hnoted' : Forall₂
      (CellNoted past r (s2.addWrite past.nextHandle statement r).staged) values cells := by
    have hfreeOwn : s2.Free [past.nextHandle] :=
      hfirst.free (fun x hx => hfree x (by simp_all)) (by
        rintro x hx hx'
        rw [mem_singleton.mp hx'] at hx
        exact hnotown (mem_append_left _ hx))
    refine hnoted.imp fun entry cell h => h.mono fun x name hx => ?_
    exact (PlanState.addWrite_inserts past.nextHandle hrow).keeps_staged hfreeOwn hx
  -- what is noted of the nested rows, and the row as the parent of those that refer back
  let forward := ((cells.filterMap NewCell.lead?).map fun e =>
    ((rowName (s2.names.stages + 1), e.1), e.2.map rowName)).reverse
  let pushed : PlanState := { s2.addWrite past.nextHandle statement r with
    written := forward ++ s2.written
    parents := ⟨rowName (s2.names.stages + 1), r.primaryKey⟩ :: s2.parents }
  have hpushed : pushed.Numbered := by
    have hkeys : ∀ e ∈ forward, e.1.1 = rowName (s2.names.stages + 1) := by
      grind
    exact PlanState.numbered_append ⟨s2.names.stages + 1, Nat.le_refl _, rfl⟩ hkeys
      ((s2.addWrite_adds past.nextHandle statement r).numbered hs2)
  have hchildren := hlast (s2.names.stages + 1) pushed hlastFree hpushed (Nat.le_refl _) ⟨_, rfl⟩
  refine .run_bind (linkForward_notes hnoted' _ _ _ rfl) ?_
  refine stageReverse_ensures (hchildren.mono fun _ s' hstaged => ?_)
  obtain ⟨hlater, hleads⟩ := hstaged
  have hcount : s2.names.stages + 1 = s.names.stages + firsts.length + 1 := by rw [hfirst.count]
  have hnew : Changes.newRows past.schema s.names.stages r parent ⟨entries, none⟩ =
      { rows := firsts ++ ⟨r, cells ++ parent.toList.map cell⟩ ::
          (lastRows past.schema (s2.names.stages + 1) (s2.names.stages + 1) r entries).1
        own := s2.names.stages + 1
        leads := cells.filterMap NewCell.lead? ++
          (lastRows past.schema (s2.names.stages + 1) (s2.names.stages + 1) r entries).2 } := by
    rw [newRows_rows, hrows, hcount]
  obtain ⟨more, hmore, -⟩ := hlater.stages
  have hfound : ∃ stage, s'.stages.find? (·.name == rowName (s2.names.stages + 1)) = some stage ∧
      stage.relation = r := by
    rw [hmore]
    exact ⟨_, (s2.addWrite_adds past.nextHandle statement r).find? hs2 more, rfl⟩
  refine ⟨by rw [hnew], ?_, ?_, hfound, fun column => ?_⟩
  · have hown' : s.Inserts (first ++ [past.nextHandle])
        (firsts ++ [⟨r, cells ++ parent.toList.map cell⟩]) pushed :=
      ⟨hown.stages, hown.count, hown.staged, hown.pages⟩
    have hall := (hown'.trans hlater).mono (fun x hx => by
      simp only [mem_append, mem_cons] at hx ⊢
      tauto : _ ⊆ past.nextHandle :: (first ++ last))
    rw [append_assoc] at hall
    rw [hnew]
    exact ⟨hall.stages, hall.count, hall.staged, hall.pages⟩
  · exact hlater.keeps_staged hlastFree (lookup_cons_self ..)
  · rw [hnew, leadNames_append]
    have hnone := hs2.lookup_written (Nat.lt_succ_self _) column
    have hforward : pushed.written.lookup (rowName (s2.names.stages + 1), column) =
        leadNames (cells.filterMap NewCell.lead?) column := by
      rw [lookup_append, lookup_leads, rowName, hnone, Option.or_none]
    rw [hleads, hforward]
    rfl

/-- How the rows that a row refers to are staged, while the values of its columns are planned. -/
def ValuesStaged (past : Graph) (r : Relation) (entries : List (String × Change))
    (values : List (String × PayloadValue)) (first : List Handle) (s : PlanState) : Prop :=
  Ensures (values.mapM (assignment past.planner)) s fun items s' =>
    s.Inserts first (firstRows past.schema s.names.stages r entries).1 s' ∧
      Forall₂ CellAssigned (firstRows past.schema s.names.stages r entries).2 items ∧
      Forall₂ (CellNoted past r s'.staged) values (firstRows past.schema s.names.stages r entries).2

/-- **The node of a row is staged** with all rows under it. -/
lemma stageWrite_row (hr : past.schema.relation id = .ok r)
    (hnodup : (past.nextHandle :: (first ++ last)).Nodup)
    (hfree : s.Free (past.nextHandle :: (first ++ last))) (hs : s.Numbered)
    (hparent : s.HasParent parent) (hfirst : ValuesStaged past r entries values first s)
    (hlast : ChildrenStaged past r entries reverse last) :
    Ensures (stageWrite past past.planner past.nextHandle (.insert id
      (.values (values ++ parentEntries (parent.map column))) reverse)) s
      fun result s' => ∃ name, result = some name ∧
        RowStaged past.schema ⟨entries, none⟩ r parent past.nextHandle
          (past.nextHandle :: (first ++ last)) s name s' := by
  rcases hrows : firstRows past.schema s.names.stages r entries with ⟨firsts, cells⟩
  have hobeys : Obeys (growing 0) (values.mapM (assignment past.planner)) :=
    .mapM fun entry _ => (assignment_asks entry).grows (planner_grows 0 past)
  have hvalues : Ensures (values.mapM (assignment past.planner)) s fun items s1 =>
      (s.Inserts first firsts s1 ∧ Forall₂ (CellNoted past r s1.staged) values cells) ∧
        s1.HasParent parent ∧ Forall₂ CellAssigned cells items := by
    intro items s1 hrun
    obtain ⟨hinserts, hassigned, hnoted⟩ := hfirst items s1 hrun
    rw [hrows] at hinserts hassigned hnoted
    refine ⟨⟨hinserts, hnoted⟩, fun p hp => ?_, hassigned⟩
    rw [(hobeys.run ⟨hs, Nat.zero_le _⟩ hrun).2.parents]
    exact hparent p hp
  have hstatement : Ensures (writeStatement past.schema past.planner (.insert id
      (.values (values ++ parentEntries (parent.map column))) reverse)) s
      fun result s2 => ∃ statement, result = some (statement, r) ∧
        (∃ s1, (s.Inserts first firsts s1 ∧
          Forall₂ (CellNoted past r s1.staged) values cells) ∧ s1.Quiet s2) ∧
        NewRow.IsInsertedBy ⟨r, cells ++ parent.toList.map cell⟩ statement := by
    refine .lift_bind fun r' hr' => ?_
    rw [hr] at hr'
    cases hr'
    exact (insertStatement_row hvalues).bind fun statement s2 hrow =>
      .of_pure ⟨statement, rfl, hrow⟩
  refine .bind_grows ((writeStatement_asks past.schema _).grows (planner_grows 0 past)) hs
    (Nat.zero_le _) hstatement fun result s2 hs2 _ hresult => ?_
  obtain ⟨statement, rfl, ⟨s1, ⟨hinserts, hnoted⟩, hquiet⟩, hrow⟩ := hresult
  have hbefore : s.Inserts first firsts s2 := by simpa using hinserts.trans hquiet.inserts
  rw [← hquiet.staged] at hnoted
  -- the stage is named, added and noted, before it is linked to the others
  refine .run_bind rfl (.run_bind rfl (.run_bind rfl ?_))
  exact (linkWrite_row hnodup hfree hs2 hrows hbefore hnoted hrow hlast).bind
    fun _ s' hstaged => .of_pure ⟨_, rfl, hstaged⟩

end Row

/-! ### Trees of rows -/

/-- **The sub-select of the key of a nested row**, which stages the row. -/
lemma subselect_key {g : Graph} {t : Relation} {c : Changes} {h : Handle} {hs : List Handle}
    (hkey : (past.push (keyNode h t)).Within g) (hfree : s.staged.lookup past.nextHandle = none)
    (hread : Ensures (past.planner.read true h) s fun reading s' =>
      ∃ name, reading = .ofBase (.stage name) ∧ RowStaged past.schema c t none h hs s name s') :
    Ensures (g.planner.subselect past.nextHandle) s fun statement s' =>
      ∃ select name s1, statement = .select select ∧ select.IsKeyOf name t ∧
        RowStaged past.schema c t none h hs s name s1 ∧ s1.Quiet s' := by
  obtain ⟨-, -, -, hplanned⟩ := hkey.planner_eq
  rw [hplanned]
  have hreading : Ensures (readAt past past.planner false past.nextHandle (keyNode h t)) s
      fun reading s' => ∃ name, reading = { Reading.ofBase (.stage name) with
        selection := .ofFields [t.primaryKey] } ∧
          RowStaged past.schema c t none h hs s name s' := by
    refine .run_bind (congrArg (fun found => Except.ok (found, s)) hfree) ?_
    refine hread.bind fun reading s1 hreading => ?_
    obtain ⟨name, rfl, hstaged⟩ := hreading
    exact .of_pure ⟨name, rfl, hstaged⟩
  refine hreading.bind fun reading s1 hreading => ?_
  obtain ⟨name, rfl, hstaged⟩ := hreading
  obtain ⟨stage, hfound, rfl⟩ := hstaged.stage
  refine .run_bind rfl ((keyScan_isKeyOf hfound trivial).bind fun scan s2 hscan => ?_)
  obtain ⟨-, hquiet, hkeyOf⟩ := hscan
  exact .of_pure ⟨scan.select, name, s1, rfl, hkeyOf, hstaged, hquiet⟩

mutual

/-- **Planning the node of a tree stages its rows**, whether the node is staged or read. By
recursion on the tree. -/
theorem stageRow_staged {g : Graph} {r : Relation} {parent : Option ParentLink} {h : Handle}
    {hs : List Handle} {s : PlanState} : ∀ c : Changes,
    c.Built g r (parent.map column) h hs → hs.Nodup → s.Free hs → s.Numbered → s.HasParent parent →
      Ensures (g.planner.stage h) s (RowStaged g.schema c r parent h hs s) ∧
        ∀ enclosed, Ensures (g.planner.read enclosed h) s fun reading s' =>
          ∃ name, reading = .ofBase (.stage name) ∧ RowStaged g.schema c r parent h hs s name s'
  | ⟨entries, source⟩, hbuilt, hnodup, hfree, hs, hparent => by
    cases hbuilt with
    | @row _ past id _ _ _ values reverse first last hr hentries hnode =>
    have hschema : g.schema = past.schema := hnode.schema
    rw [hschema]
    obtain ⟨hfirst, hlast, -⟩ := nodup_append.mp (nodup_cons.mp hnodup).2
    have hwrite := stageWrite_row hr hnodup hfree hs hparent
      (firstRows_staged entries hentries hfirst (fun x hx => hfree x (by simp [hx])) hs)
      (lastRows_staged entries hentries hlast)
    obtain ⟨hstage, hread, -, -⟩ := hnode.planner_eq
    have hfound : stageOf? past.nextHandle s = .ok (none, s) :=
      congrArg (fun found => Except.ok (found, s)) (hfree _ (by simp))
    refine ⟨?_, fun enclosed => ?_⟩
    · rw [hstage]
      refine .run_bind hfound (hwrite.bind fun result s' hresult => ?_)
      obtain ⟨name, rfl, hstaged⟩ := hresult
      exact .of_pure hstaged
    · rw [hread]
      refine .run_bind hfound (hwrite.bind fun result s' hresult => ?_)
      obtain ⟨name, rfl, hstaged⟩ := hresult
      exact .of_pure ⟨name, rfl, hstaged⟩

theorem firstRows_staged {g : Graph} {r : Relation} {values : List (String × PayloadValue)}
    {reverse : List (String × List Handle)} {first last : List Handle} {s : PlanState} :
    ∀ entries : List (String × Change), Change.Built g r entries values reverse first last →
      first.Nodup → s.Free first → s.Numbered → ValuesStaged g r entries values first s
  | [], .nil, _, _, _ => .of_pure ⟨.of_eq rfl rfl rfl rfl, .nil, .nil⟩
  | (name, .value v) :: rest, hbuilt, hnodup, hfree, hs => by
    cases hbuilt with
    | value hrest =>
    rw [ValuesStaged, mapM_cons]
    refine .run_bind rfl ((firstRows_staged rest hrest hnodup hfree hs).bind fun items s' h => ?_)
    obtain ⟨hinserts, hassigned, hnoted⟩ := h
    exact .of_pure ⟨hinserts, .cons ⟨rfl, rfl⟩ hassigned,
      .cons ⟨rfl, fun k hk => by cases hk⟩ hnoted⟩
  | (name, .nested changes) :: rest, hbuilt, hnodup, hfree, hs => by
    cases hbuilt with
    | @nested _ past _ t _ c _ h hs' _ values _ first _ hlink hforward hrow hkey hrest =>
    have hschema : g.schema = past.schema := hkey.schema
    obtain ⟨-, hnodup⟩ := nodup_cons.mp hnodup
    obtain ⟨hinnerNodup, hrestNodup, hdisjoint⟩ := nodup_append.mp hnodup
    have hrow' : changes.Built past t ((none : Option ParentLink).map column) h hs' :=
      hrow
    have hinnerFree : s.Free hs' := fun x hx => hfree x (by simp [hx])
    -- the cell asks for the key of the inner row, which stages that row with all it holds
    have hsub := subselect_key hkey (hfree _ (by simp))
      ((stageRow_staged changes hrow' hinnerNodup hinnerFree hs (by simp [PlanState.HasParent])).2
        true)
    rw [← hschema] at hsub
    have hcell : Ensures (assignment g.planner (name, .query past.nextHandle)) s fun item s1 =>
        CellAssigned (name, .nested (changes.newRows g.schema s.names.stages t none).own t) item ∧
          s.Inserts hs' (changes.newRows g.schema s.names.stages t none).rows s1 ∧
          s1.staged.lookup h =
            some (rowName (changes.newRows g.schema s.names.stages t none).own) := by
      simp only [assignment, payloadExpr, bind_assoc]
      refine hsub.bind fun statement s2 hstatement => .of_pure ?_
      obtain ⟨select, _, s1, rfl, hkeyOf, hstaged, hquiet⟩ := hstatement
      have hinserts := hstaged.inserts.trans hquiet.inserts
      rw [append_nil, append_nil] at hinserts
      obtain ⟨rfl, -, hlookup, -, -⟩ := hstaged
      rw [← hquiet.staged] at hlookup
      exact ⟨⟨rfl, select, rfl, hkeyOf⟩, hinserts, hlookup⟩
    rw [ValuesStaged, firstRows, hlink, mapM_cons]
    refine .bind_grows ((assignment_asks _).grows (planner_grows 0 g)) hs (Nat.zero_le _) hcell
      fun item s1 hs1 _ hitem => ?_
    obtain ⟨hassigned, hinserts, hlookup⟩ := hitem
    have hrestFree : s1.Free first := hinserts.free (fun x hx => hfree x (by simp [hx]))
      fun x hx hx' => hdisjoint x hx x hx' rfl
    have hrest' := firstRows_staged rest hrest hrestNodup hrestFree hs1
    rw [ValuesStaged, hinserts.count] at hrest'
    refine hrest'.bind fun items s' h' => .of_pure ?_
    obtain ⟨hlater, hassigned', hnoted'⟩ := h'
    obtain ⟨hcolumn, -⟩ := Schema.link?_eq_some.mp hlink
    obtain ⟨node, hnode, hwrite⟩ :=
      (hrow.mono ((Graph.within_push _ _).trans hkey)).isMutation
    refine ⟨(hinserts.trans hlater).mono (subset_cons_self _ _), .cons hassigned hassigned',
      .cons ⟨rfl, c, _, h, t, node, hcolumn, hforward, rfl, hkey.node_eq, hnode, hwrite,
        hlater.keeps_staged hrestFree hlookup⟩ hnoted'⟩
  | (_, .many _) :: rest, .many _ _ hrest, hnodup, hfree, hs =>
    firstRows_staged rest hrest hnodup hfree hs

theorem lastRows_staged {g : Graph} {r : Relation} {values : List (String × PayloadValue)}
    {reverse : List (String × List Handle)} {first last : List Handle} :
    ∀ entries : List (String × Change), Change.Built g r entries values reverse first last →
      last.Nodup → ChildrenStaged g r entries reverse last
  | [], .nil, _ => fun own s _ _ _ _ => .of_pure ⟨.of_eq rfl rfl rfl rfl, fun _ => rfl⟩
  | (_, .value _) :: rest, .value hrest, hnodup => lastRows_staged rest hrest hnodup
  | (_, .nested _) :: rest, .nested _ _ _ _ hrest, hnodup => lastRows_staged rest hrest hnodup
  | (name, .many rows) :: rest, hbuilt, hnodup => by
    intro own s hfree hs hown hparents
    cases hbuilt with
    | @many _ _ t _ via _ children hs' _ _ reverse _ last hlink hrows hrest =>
    obtain ⟨hinnerNodup, hrestNodup, hdisjoint⟩ := nodup_append.mp hnodup
    have hinnerFree : s.Free hs' := fun x hx => hfree x (by simp [hx])
    have hrows' : Changes.EachBuilt g t (mk via own r).column rows children hs' :=
      hrows
    have hchildren := rowsEach_staged rows hrows' hinnerNodup hinnerFree hs
      (by rintro p ⟨⟩; exact hparents)
    have hobeys : Obeys (growing own) (children.mapM g.planner.stage) :=
      .mapM fun child _ => (planner_grows own g).stage child
    rw [lastRows, hlink]
    dsimp only
    generalize Changes.rowsEach g.schema s.names.stages t ⟨via, own, r⟩ rows = new at hchildren ⊢
    change Ensures ((children.mapM g.planner.stage >>= fun members =>
      setWritten (rowName own) name members) >>= fun _ =>
        stageChildren g.planner (rowName own) reverse) s _
    rw [bind_assoc]
    refine .bind_grows hobeys hs hown hchildren fun members s1 hs1 hgrows hmembers => ?_
    obtain ⟨rfl, hinserts⟩ := hmembers
    let noted : PlanState := { s1 with
      written := [((rowName own, name), new.2.map rowName)] ++ s1.written }
    have hown' : own ≤ s1.names.stages := Nat.le_trans hown hgrows.count
    have hgiven : s1.Given (rowName own) := ⟨own, hown', rfl⟩
    have hnoted : noted.Numbered := PlanState.numbered_append hgiven (by simp) hs1
    have hinserts' : s.Inserts hs' new.1 noted :=
      ⟨hinserts.stages, hinserts.count, hinserts.staged, hinserts.pages⟩
    have hrestFree : noted.Free last := hinserts'.free (fun x hx => hfree x (by simp [hx]))
      fun x hx hx' => hdisjoint x hx x hx' rfl
    have hrest' := lastRows_staged rest hrest hrestNodup own noted hrestFree hnoted hown'
      (by rw [← hgrows.parents] at hparents; exact hparents)
    rw [hinserts'.count] at hrest'
    refine .run_bind rfl (hrest'.mono fun _ s' h' => ?_)
    obtain ⟨hlater, hleads⟩ := h'
    refine ⟨hinserts'.trans hlater, fun column => ?_⟩
    have hlookup : noted.written.lookup (rowName own, column) =
        (leadNames [(name, new.2)] column).or (s.written.lookup (rowName own, column)) := by
      have hkept := hgrows.written own (Nat.le_refl _) column
      rw [lookup_append, ← lookup_leads _ (rowName own), rowName, hkept]
      rfl
    rw [hleads, hlookup, ← Option.or_assoc, ← leadNames_append]
    rfl

theorem rowsEach_staged {g : Graph} {t : Relation} {parent : ParentLink}
    {children hs : List Handle} {s : PlanState} : ∀ rows : List Changes,
    Changes.EachBuilt g t parent.column rows children hs → hs.Nodup → s.Free hs → s.Numbered →
      s.HasParent (some parent) →
      Ensures (children.mapM g.planner.stage) s fun names s' =>
        names = (Changes.rowsEach g.schema s.names.stages t parent rows).2.map rowName ∧
          s.Inserts hs (Changes.rowsEach g.schema s.names.stages t parent rows).1 s'
  | [], .nil, _, _, _, _ => .of_pure ⟨rfl, .of_eq rfl rfl rfl rfl⟩
  | row :: rest, hbuilt, hnodup, hfree, hs, hparent => by
    cases hbuilt with
    | @cons _ _ _ _ h hs' _ children hs'' hrow hrest =>
    obtain ⟨hinnerNodup, hrestNodup, hdisjoint⟩ := nodup_append.mp hnodup
    have hrow' : row.Built g t ((some parent).map column) h hs' := hrow
    have hstage := (stageRow_staged row hrow' hinnerNodup (fun x hx => hfree x (by simp [hx])) hs
      hparent).1
    rw [mapM_cons]
    refine .bind_grows ((planner_grows 0 g).stage h) hs (Nat.zero_le _) hstage
      fun name s1 hs1 hgrows hstaged => ?_
    have hinserts := hstaged.inserts
    obtain rfl := hstaged.named
    have hrestFree : s1.Free hs'' := hinserts.free (fun x hx => hfree x (by simp [hx]))
      fun x hx hx' => hdisjoint x hx x hx' rfl
    have hparent' : s1.HasParent (some parent) := by
      intro p hp
      rw [hgrows.parents]
      exact hparent p hp
    have hrest' := rowsEach_staged rest hrest hrestNodup hrestFree hs1 hparent'
    rw [hinserts.count] at hrest'
    refine hrest'.bind fun names s' hnames => .of_pure ?_
    obtain ⟨rfl, hlater⟩ := hnames
    exact ⟨rfl, hinserts.trans hlater⟩

end

end Rows

end StagedSql
