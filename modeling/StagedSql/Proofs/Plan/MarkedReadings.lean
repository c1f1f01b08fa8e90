import StagedSql.Proofs.Plan.MarkedConditions
import StagedSql.Proofs.Plan.RowStatements

/-!
What readings put into a statement.

A lookup is planned for a row around it, and reads columns of that row only.
-/

namespace StagedSql

open List Plan Select

variable {g : Graph} {s s' : PlanState} {R : Relation → String → Prop} {a b : Shape}

/-! ### Clauses that are put together -/

lemma leftLateral_marks (query : Statement) (label : String) :
    (Join.leftLateral query label).marks = .item (.derived query label []) :: query.marks := by
  simp [Join.leftLateral, Join.marks, FromItem.marks, Expr.marksOption, Expr.bool, Expr.marks]

lemma arrayOf_marks (select : Select) (rows : String) (ordering : List OrderItem) :
    (arrayOf select rows ordering).marks = .item (.derived (.select select) rows []) ::
      (select.marks ++
        (.shows "value" :: .wholeRow rows :: ordering.flatMap fun item => item.expr.marks)) := by
  have hitem : (labelled (aggregateRows rows ordering) "value").marks =
      .shows "value" :: .wholeRow rows :: ordering.flatMap fun item => item.expr.marks := by
    simp only [SelectItem.marks, labelled, SelectItem.outputName?, aggregateRows, Expr.coalesce,
      Expr.apply, Expr.arrayAgg, Expr.marks, Expr.marksEach, rowToJson_marks,
      OrderItem.marksEach_eq]
    simp [wholeRows]
  rw [arrayOf, single_marks]
  simp [FromItem.marks, Statement.marks, hitem]

/-- The marks of the joins and items of a shape. -/
def Shape.marks (sh : Shape) : List Mark :=
  sh.joins.flatMap Join.marks ++ sh.items.flatMap SelectItem.marks

lemma Shape.mem_append_marks {m : Mark} : m ∈ (a.append b).marks ↔ m ∈ a.marks ++ b.marks := by
  simp only [Shape.marks, Shape.append, flatMap_append, mem_append]
  tauto

lemma Shape.ofJoin_marks (j : Join × SelectItem) :
    (Shape.ofJoin j).marks = j.1.marks ++ j.2.marks := by
  simp [Shape.marks, Shape.ofJoin]

lemma Opened.scan_marks (o : Opened) (sh : Shape) :
    (o.scan sh.joins sh.items).select.marks = o.item.marks ++ sh.marks := by
  rw [marks_eq]
  simp [Opened.scan, empty, Shape.marks, FromItem.marksOption, Expr.marksOption]

section Fragments

variable {s1 : PlanState} {free : String → String → Prop} {select : Select}

lemma Fragment.enclose {L L' : List Mark} (h : Fragment g R s s' free L) (hsub : ∀ m ∈ L, m ∈ L')
    (hnew : ∀ m ∈ L', m ∈ L ∨ m.Good g R free L' ∧ ∀ i, m = .item i → i.Neutral) :
    Fragment g R s s' free L' :=
  h.extend (fun _ hi => hsub _ hi) (fun i hi => (hnew _ hi).imp_right fun hm => hm.2 i rfl)
    fun m hm => (hnew m hm).imp_right And.left

/-- **The rows of a SELECT as an array**, in an order of their own columns. -/
lemma Fragment.array (h : Fragment g R s s' free select.marks) {rows : String}
    (hrows : ∃ k, rows = numberedName 'a' k) {ordering : List OrderItem}
    (ho : ∀ m ∈ ordering.flatMap fun item => item.expr.marks, ∃ c, m = .column rows c) :
    Fragment g R s s' free (arrayOf select rows ordering).marks := by
  obtain ⟨k, rfl⟩ := hrows
  rw [arrayOf_marks]
  refine h.enclose (fun m hm => by simp [hm]) fun m hm => ?_
  simp only [mem_cons, mem_append] at hm
  rcases hm with rfl | hm | rfl | rfl | hm
  · refine .inr ⟨fun _ => (Statement.IsRows.select select).tokens_ne_nil, ?_⟩
    rintro i ⟨⟩
    exact ⟨'a', by decide, k, rfl⟩
  · exact .inl hm
  · exact .inr ⟨.inl (by simp), by simp⟩
  · exact .inr ⟨.inr ⟨'a', by decide, k, rfl⟩, by simp⟩
  · obtain ⟨c, rfl⟩ := ho m hm
    exact .inr ⟨.inr ⟨_, mem_cons_self, rfl, trivial⟩, by simp⟩

/-- **A statement as a lateral join**, and what is shown of its rows under the name of a column. -/
lemma Fragment.lateral {query : Statement} (h : Fragment g R s s' free query.marks)
    (hrows : query.IsRows) (hvalues : ∀ rows, query ≠ .values rows) {k : Nat} {shown : Expr}
    (hshown : shown = .of (numberedName 'j' k) "value" ∨ shown = .rowToJson (numberedName 'j' k))
    {r : Relation} (hr : g.Knows r) {c : Column} (hc : c ∈ r.columns) :
    Fragment g R s s' free
      (Shape.ofJoin (.leftLateral query (numberedName 'j' k), labelled shown c.name)).marks := by
  have hitem : ∀ m ∈ (labelled shown c.name).marks, m = .shows c.name ∨
      m = .column (numberedName 'j' k) "value" ∨ m = .wholeRow (numberedName 'j' k) := by
    rcases hshown with rfl | rfl <;>
      simp [labelled, SelectItem.marks, SelectItem.outputName?, of_marks, rowToJson_marks]
  obtain ⟨hallows, hneutral⟩ :
      (FromItem.derived query (numberedName 'j' k) []).Allows g R "value" ∧
        (FromItem.derived query (numberedName 'j' k) []).Neutral := by
    cases query with
    | values rows => exact (hvalues rows rfl).elim
    | _ => exact ⟨trivial, 'j', by decide, k, rfl⟩
  rw [Shape.ofJoin_marks, leftLateral_marks]
  refine h.enclose (fun m hm => by simp [hm]) fun m hm => ?_
  rw [cons_append, mem_cons, mem_append] at hm
  rcases hm with rfl | hm | hm
  · refine .inr ⟨fun _ => hrows.tokens_ne_nil, ?_⟩
    rintro i ⟨⟩
    exact hneutral
  · exact .inl hm
  · rcases hitem m hm with rfl | rfl | rfl
    · exact .inr ⟨.inr ⟨r, hr, .inr ⟨c, hc, rfl⟩⟩, by simp⟩
    · exact .inr ⟨.inr ⟨_, mem_cons_self, rfl, hallows⟩, by simp⟩
    · exact .inr ⟨.inr ⟨'j', by decide, k, rfl⟩, by simp⟩

lemma Opened.Marked.scan {base : Base} {o : Opened} (ho : o.Marked g R s s1 base)
    (hx : s.Continues g s1) (hx' : s1.Continues g s') {rest : List Mark}
    (hrest : Fragment g R s1 s' (rowAround R o.qualifier o.relation) rest)
    (hmarks : ∀ m, m ∈ select.marks ↔ m ∈ o.item.marks ++ rest) :
    Scan.Marked g R s s' ⟨select, o.relation, o.qualifier, o.stage⟩ := by
  have hitem : .item o.item ∈ o.item.marks ++ rest :=
    mem_append_left _ (FromItem.item_mem_marks _)
  refine ⟨ho.known, ho.reads.mono hx'.toLengthens,
    ⟨o.item, (hmarks _).mpr hitem, ho.qualifier, ho.allows⟩, ?_⟩
  exact ((ho.fragment.anywhere.append hx hx' hrest).close hitem ho.qualifier ho.allows).congr hmarks

end Fragments

/-! ### Lookups -/

/-- An outer row of a known relation, which is that of its stage if it has one. -/
structure Outer.Marked (g : Graph) (s : PlanState) (outer : Outer) : Prop where
  known : g.Knows outer.relation
  reads : s.Reads outer.stage outer.relation

/-- Columns that may be read of an outer row. -/
def Outer.row (R : Relation → String → Prop) (outer : Outer) : String → String → Prop :=
  rowAround R outer.qualifier outer.relation

lemma Outer.Marked.mono {outer : Outer} (h : outer.Marked g s)
    (hx : s.Continues g s') : outer.Marked g s' :=
  ⟨h.known, h.reads.mono hx.toLengthens⟩

lemma Opened.Marked.outer {base : Base} {o : Opened} (h : o.Marked g R s s' base)
    (scope : List String) : (o.outer scope).Marked g s' :=
  ⟨h.known, h.reads⟩

section Lookups

variable {s0 : PlanState} {outer : Outer} {c : Column} {name lateral : String} {r : Relation}

lemma relatedBase_marks (outer : Outer) (name : String) (target : RelationId) :
    Keeps (marking g R) (relatedBase outer name target) s fun base s' =>
      base.Valid g s' ∧ ∀ r, base.Shows g s' r → g.schema.relation target = .ok r :=
  .relatedBase ⟨trivial, fun _ hr => hr⟩ fun hs _ _ hlookup =>
    ⟨hs.written _ (mem_of_lookup hlookup), fun _ hr => hr⟩

/-- **A lookup as a lateral join**, whose rows were planned before. -/
lemma joinRows_marks (ho : outer.Marked g s) (hc : outer.relation.column? name = some c)
    (hlateral : ∃ k, lateral = numberedName 'j' k) {inner : Scan} (hinner : inner.Marked g R s0 s)
    (hx : s0.Continues g s) (hof : R inner.relation (c.linkOf inner.relation))
    (hfrom : R outer.relation (c.linkFrom outer.relation)) :
    Keeps (marking g R) (joinRows outer c name lateral inner) s fun j s' =>
      Fragment g R s0 s' (outer.row R) (Shape.ofJoin j).marks := by
  have hname : c.name = name := Relation.name_of_column? hc
  obtain ⟨item, hitem, hq, hallows⟩ := hinner.source
  obtain ⟨k, rfl⟩ := hlateral
  -- the two columns of the link, and the SELECT with it
  have hlinked : ∀ s', s.Continues g s' →
      Fragment g R s0 s' (rowAround R outer.qualifier outer.relation)
        (inner.select.filter (.binary .eq (.of inner.qualifier (c.linkOf inner.relation))
          (.of outer.qualifier (c.linkFrom outer.relation)))).marks := by
    intro s' hx'
    rw [filter_marks]
    have h := Fragment.linked (q := outer.qualifier) hx hx' hq hallows hof hfrom hitem
      hinner.fragment (.nil hx')
    rwa [append_nil] at h
  have hmem := Relation.mem_of_column? hc
  rw [joinRows]
  split
  · rename_i target via hkind
    have hto : c.linkOf inner.relation = via := by simp [Column.linkOf, hkind]
    have hback : c.linkFrom outer.relation = outer.relation.primaryKey := by
      simp [Column.linkFrom, hkind]
    rw [hto] at hof hlinked
    rw [hback] at hfrom hlinked
    refine (need_marks ho.reads hfrom).bind fun _ s1 hx1 _ => ?_
    refine (need_marks (hinner.reads.mono hx1.toLengthens) hof).bind fun _ s2 hx2 _ => ?_
    refine freshAggregate_marks.bind fun rows s3 hx3 hrows => .of_pure ?_
    have hselect := hlinked s3 ((hx1.trans hx2).trans hx3)
    rw [← hname]
    exact Fragment.lateral (hselect.array hrows (by simp)) (.select _) (by simp) (.inl rfl)
      ho.known hmem
  · rename_i hkind
    have hto : c.linkOf inner.relation = inner.relation.primaryKey := by
      rw [Column.linkOf]
      split
      · exact (hkind _ _ ‹_›).elim
      · rfl
    have hback : c.linkFrom outer.relation = name := by
      rw [Column.linkFrom]
      simp_all
    rw [hto] at hof hlinked
    rw [hback] at hfrom hlinked
    refine (need_marks ho.reads hfrom).bind fun _ s1 hx1 _ => ?_
    refine (need_marks (hinner.reads.mono hx1.toLengthens) hof).bind fun _ s2 hx2 _ => .of_pure ?_
    have hrows := hlinked s2 (hx1.trans hx2)
    rw [← hname] at hrows ⊢
    exact Fragment.lateral hrows (.select _) (by simp) (.inr rfl) ho.known hmem

/-! ### Walks -/

/-- A walk from an outer row, which was planned between two states. -/
structure Walk.Marked (g : Graph) (R : Relation → String → Prop) (s s' : PlanState) (outer : Outer)
    (w : Walk) : Prop where
  table : IsWalkName w.table
  fragment : Fragment g R s s' (rowAround R outer.qualifier outer.relation)
    (w.start.marks ++ w.step.marks)

lemma freshWalk_marks : Keeps (marking g R) freshWalk s fun table _ => IsWalkName table :=
  .names_marks rfl {} rfl ⟨_, rfl⟩

lemma freshRelation_marks (hr : r ∈ g.schema.relations) :
    Keeps (marking g R) freshRelation s fun name s' =>
      Fragment g R s s' noRow [.item (.table r.name (some name))] := by
  let s1 : PlanState := { s with names := { s.names with relations := s.names.relations + 1 } }
  let label := numberedName 'r' (s.names.relations + 1)
  have hshift : s.Shifts s1 := { relations := by simp [s1], names := by constructor <;> simp [s1] }
  have hwithin : (FromItem.table r.name (some label)).Within s.names s1.names :=
    ⟨_, Nat.lt_succ_self _, le_rfl, rfl⟩
  refine .names_marks (show _ = Except.ok (label, s1) from rfl) hshift rfl ?_
  refine .single _ hshift.stages hwithin (by simp) fun m hm => ?_
  rw [mem_singleton.mp hm]
  exact .inl ⟨r, hr, rfl⟩

lemma walkStart_marks (table first : String) (link : Expr) :
    (filter { empty with
        projection := [⟨.star (some first), none⟩, labelled (.int 1) "depth"]
        source := some (.table table (some first)) } link).marks =
      .item (.table table (some first)) :: .shows "depth" :: link.marks := by
  rw [filter_marks, single_marks]
  rfl

lemma walkStep_marks (table next walk : String) (link : Expr) :
    marks { empty with
      projection := [⟨.star (some next), none⟩,
        labelled (.binary .plus (.of walk "depth") (.int 1)) "depth"]
      source := some (.table table (some next))
      joins := [⟨.inner, false, .table walk none, some link⟩] } =
    .item (.table table (some next)) :: .item (.table walk none) ::
      (link.marks ++ [.shows "depth", .column walk "depth"]) := by
  rw [marks_eq]
  simp [empty, FromItem.marksOption, FromItem.marks, Join.marks, Expr.marksOption,
    SelectItem.marks, SelectItem.outputName?, labelled, Expr.int, Expr.marks, of_marks]

lemma Fragment.walk {first next walk q : String} (h : Fragment g R s s' (rowAround R q r)
      [.item (.table r.name (some first)), .item (.table r.name (some next))])
    (hschema : g.schema.Accepted) (hr : r ∈ g.schema.relations) {a b : String} (ha : R r a)
    (hb : R r b) (hwalk : IsWalkName walk) (extra : List Mark)
    (hextra : ∀ m ∈ extra, m = .column walk "depth") :
    Fragment g R s s' (rowAround R q r) (.item (.table r.name (some first)) :: .shows "depth" ::
      .column first a :: .column q b :: .item (.table r.name (some next)) ::
        .item (.table walk none) :: .column next a :: .column walk b :: .shows "depth" ::
          .column walk "depth" :: extra) := by
  have hallows : ∀ label c, R r c → (FromItem.table r.name label).Allows g R c := by
    refine fun label c hc => .inr (.inr fun r' hr' hname => ?_)
    rwa [hschema.eq_of_name hr hr' hname]
  have hvalue : ∀ L : List Mark, .item (.table walk none) ∈ L → ∀ c,
      (Mark.column walk c).Good g R (rowAround R q r) L := fun L hL c =>
    .inr ⟨.table walk none, hL, rfl, .inr (.inl hwalk)⟩
  have hdepth : (Mark.shows "depth").Good g R (rowAround R q r) [] := .inl (by simp)
  refine h.enclose (by simp) fun m hm => ?_
  simp only [mem_cons] at hm
  rcases hm with rfl | rfl | rfl | rfl | rfl | rfl | rfl | rfl | rfl | rfl | hm
  · exact .inl (by simp)
  · exact .inr ⟨hdepth, by simp⟩
  · exact .inr ⟨.inr ⟨_, mem_cons_self, rfl, hallows _ a ha⟩, by simp⟩
  · exact .inr ⟨.inl ⟨rfl, hb⟩, by simp⟩
  · exact .inl (by simp)
  · refine .inr ⟨.inr (.inr hwalk), ?_⟩
    rintro i ⟨⟩
    trivial
  · exact .inr ⟨.inr ⟨.table r.name (some next), by simp, rfl, hallows _ a ha⟩, by simp⟩
  · exact .inr ⟨hvalue _ (by simp) b, by simp⟩
  · exact .inr ⟨hdepth, by simp⟩
  · exact .inr ⟨hvalue _ (by simp) _, by simp⟩
  · grind

/-- **A walk** begins with rows that are linked to the outer row, and goes on with rows that are
linked to those found before. -/
lemma beginWalk_marks (hschema : g.schema.Accepted) (hp : g.Permits R) (ho : outer.Marked g s)
    (hc : outer.relation.column? name = some c) {t : String} (ht : c.related? = some t)
    {related : Relation} (hrelated : g.schema.get? t = some related) {target : RelationId}
    (hr : g.schema.relation target = .ok related) (maxDepth : Option UInt32) :
    Keeps (marking g R) (beginWalk g.schema outer c target maxDepth) s fun w s' =>
      w.Marked g R s s' outer := by
  obtain ⟨hof, hfrom⟩ := hp.link hschema ho.known hc ht hrelated
  have hmem := Schema.mem_of_relation hr
  have howner := ho.known.mem_of_related (Relation.mem_of_column? hc) ht
  refine .lift_bind fun r hr' => ?_
  rw [hr] at hr'
  cases hr'
  dsimp only
  split
  · exact .throw_bind
  · rename_i hname
    -- the relation is the one of the outer row
    have hsame : related = outer.relation :=
      hschema.eq_of_name howner hmem (not_not.mp hname)
    subst hsame
    have hneed : (if c.isReverse = true then outer.relation.primaryKey else c.name) =
        c.linkFrom outer.relation := by
      rw [Column.linkFrom, Column.isReverse]
      cases c.kind <;> rfl
    rw [hneed]
    refine (need_marks ho.reads hfrom).bind fun _ s1 hx1 _ => ?_
    refine freshWalk_marks.bind fun table s2 hx2 htable => ?_
    refine (freshRelation_marks hmem).bind fun first s3 hx3 hfirst => ?_
    refine (freshRelation_marks hmem).bind fun next s4 hx4 hnext => .of_pure ⟨htable, ?_⟩
    have htables : Fragment g R s s4 (rowAround R outer.qualifier outer.relation)
        [.item (.table outer.relation.name (some first)),
          .item (.table outer.relation.name (some next))] :=
      ((hfirst.after (hx1.trans hx2) hx3).append ((hx1.trans hx2).trans hx3) hx4 hnext).anywhere
    have hwalk := htables.walk hschema hmem hof hfrom htable
    rw [walkLink_eq, walkLink_eq, walkStart_marks]
    cases maxDepth with
    | none => simpa [walkStep_marks, link_marks] using hwalk [] (by simp)
    | some n =>
      have hdepth : (Expr.binary .lt (.of table "depth") (.int n.toUInt64.toInt64)).marks =
          [.column table "depth"] := rfl
      simpa [filter_marks, walkStep_marks, link_marks, hdepth] using
        hwalk [.column table "depth"] (by simp)

/-- **A walk as a lateral join.** Its rows are gathered from its own table. -/
lemma walkJoin_marks (ho : outer.Marked g s) (hc : outer.relation.column? name = some c)
    (hlateral : ∃ k, lateral = numberedName 'j' k) {w : Walk} {s1 : PlanState}
    (hw : w.Marked g R s0 s1 outer) (hx : s0.Continues g s1) {walked : Scan}
    (hwalked : walked.Marked g R s1 s) (hx' : s1.Continues g s)
    (hitem : .item (.table w.table none) ∈ walked.select.marks) (hq : walked.qualifier = w.table) :
    Keeps (marking g R) (w.join name lateral walked) s fun j s' =>
      Fragment g R s0 s' (outer.row R) (Shape.ofJoin j).marks := by
  obtain ⟨k, rfl⟩ := hlateral
  refine freshAggregate_marks.bind fun rows s2 hx2 hrows => .of_pure ?_
  have hwhole : Fragment g R s1 s2 (rowAround R outer.qualifier outer.relation)
      walked.select.marks :=
    (hwalked.fragment.before hx' hx2).anywhere
  -- rows that are not given as a whole get their depth as well
  have hselect : Fragment g R s1 s2 (rowAround R outer.qualifier outer.relation)
      (if walked.select.isStar = true then walked.select else
        { walked.select with
          projection := walked.select.projection ++
            [⟨.of walked.qualifier "depth", none⟩] }).marks := by
    split
    · exact hwhole
    · refine hwhole.enclose (fun m hm => ?_) fun m hm => ?_
      · exact mem_append_marks.mpr (mem_append_left _ hm)
      · rcases mem_append.mp (mem_append_marks.mp hm) with hm | hm
        · exact .inl hm
        · simp only [flatMap_cons, flatMap_nil, column_item_marks, append_nil,
            mem_cons, not_mem_nil, or_false] at hm
          rcases hm with rfl | rfl
          · exact .inr ⟨.inl (by simp), by simp⟩
          · refine .inr ⟨.inr ⟨.table w.table none, ?_, hq.symm, .inr (.inl hw.table)⟩, by simp⟩
            exact mem_append_marks.mpr (mem_append_left _ hitem)
  rw [← Relation.name_of_column? hc]
  refine Fragment.lateral ?_ (.withCtes _ _ _) (by simp) (.inl rfl) ho.known
    (Relation.mem_of_column? hc)
  have hordering : ∀ m ∈ [(⟨.of rows "depth", none⟩ : OrderItem)].flatMap fun item =>
      item.expr.marks, ∃ c, m = .column rows c := by simp [of_marks]
  have hboth := hw.fragment.append hx (hx'.trans hx2) (hselect.array hrows hordering)
  simp only [Statement.marks, Cte.marksEach, Statement.marksEach, append_nil]
  refine hboth.enclose (fun m hm => ?_) fun m hm => ?_
  · tauto
  · rw [cons_append, cons_append, mem_cons, mem_cons] at hm
    rcases hm with rfl | rfl | hm
    · exact .inr ⟨trivial, by simp⟩
    · tauto
    · exact .inl hm

end Lookups

/-! ### Selections -/

section Selections

variable {r : Reading} {outer : Outer}

/-- What is to be known of selections. -/
def markedShapes (g : Graph) (R : Relation → String → Prop) : ShapeLaw where
  law := marking g R
  Out outer s := outer.Marked g s
  Asks r selection := selection.Links g R r
  Leads r name lookup := ∀ c, r.column? name = some c → lookup.Links g R c
  Shaped outer s s' sh := Fragment g R s s' (outer.row R) sh.marks

variable {earlier : Earlier}

lemma primaryColumns_permitted (hp : g.Permits R) {r : Relation} (hr : g.Knows r) (c : Condition) :
    ∀ name ∈ c.primaryColumns r, R r name := by
  intro name hname
  rw [Condition.primaryColumns, mem_distinct] at hname
  obtain ⟨key, -, hkey⟩ := mem_filterMap.mp hname
  unfold Condition.keyColumn? at hkey
  split at hkey
  · cases hkey
  · dsimp only at hkey
    split at hkey
    · cases hkey
    · rename_i column hcolumn
      cases hkey
      split
      · rename_i hrev
        obtain ⟨target, -, -, htarget⟩ := Column.related?_of_isReverse hrev
        exact hp.key r (hr.mem_of_related (Relation.mem_of_column? hcolumn) htarget)
      · rename_i hstored
        exact hp.stored r hr _ (Relation.mem_storedNames hcolumn (by simpa using hstored))

lemma needColumns_marks (hp : g.Permits R) (ho : outer.Marked g s) (c : Condition) :
    Keeps (marking g R) ((c.primaryColumns outer.relation).forM (need outer.stage)) s
      fun _ _ => True :=
  (Keeps.forM (fun _ _ _ _ h => h) fun name hname _ hx => need_marks (ho.mono hx).reads
    (primaryColumns_permitted hp ho.known c name hname)).forget

variable (hschema : g.schema.Accepted) (hp : g.Permits R) (he : earlier.Meets (markedNodes g R))

include hschema hp he

/-- **Conditions one after the other** change nothing but the condition of a SELECT. -/
lemma addConditions_marks (ho : outer.Marked g s) (conditions : List Condition)
    (hc : ∀ c ∈ conditions, ∀ e ∈ c.exprs, e ∈ g.exprs) (select : Select) :
    Keeps (marking g R) (addConditions g.schema earlier outer select conditions) s
      fun filtered s' => ∃ condition L, filtered = { select with condition := condition } ∧
        Expr.marksOption condition = Expr.marksOption select.condition ++ L ∧
          Fragment g R s s' (rowAround R outer.qualifier outer.relation) L := by
  induction conditions generalizing s select with
  | nil =>
    refine .of_pure ⟨select.condition, [], ?_, by simp, .nil (.refl s)⟩
    cases select
    rfl
  | cons c rest ih =>
    refine (needColumns_marks hp ho c).bind fun _ s1 hx1 _ => ?_
    refine (toSql_marks hp he hschema ho.known outer.qualifier outer.scope
      (hc c (by simp))).bind fun e s2 hx2 hf2 => ?_
    have hx := hx1.trans hx2
    refine (ih (ho.mono hx) (fun c hmem => hc c (by simp [hmem])) (select.filter e)).mono ?_
    rintro filtered s3 hx3 ⟨condition, L, rfl, hmarks, hf3⟩
    refine ⟨condition, e.marks ++ L, rfl, ?_, (hf2.after hx1 hx2).append hx hx3 hf3⟩
    rw [hmarks, Select.filter, andCondition_marks, append_assoc]

omit hschema hp he in
lemma orderItem_marks (ho : outer.Marked g s) {key : SortKey} (hkey : R outer.relation key.column) :
    Keeps (marking g R) (orderItem outer key) s fun item s' =>
      Fragment g R s s' (rowAround R outer.qualifier outer.relation) item.expr.marks := by
  refine (need_marks ho.reads hkey).bind fun _ s1 hx1 _ => .of_pure ?_
  refine (Fragment.nil hx1).enclose (by simp) fun m hm => .inr ?_
  rw [mem_singleton.mp hm]
  exact ⟨.inl ⟨rfl, hkey⟩, by simp⟩

lemma scanReading_marks_of (hvalid : r.base.Valid g s)
    (hkeys : ∀ relation, r.base.Shows g s relation → ∀ key ∈ r.ordering, R relation key.column)
    (hlinks : ∀ relation, r.base.Shows g s relation → r.selection.Links g R relation)
    (hexprs : ∀ c ∈ r.conditions, ∀ e ∈ c.exprs, e ∈ g.exprs)
    (hshape : (markedShapes g R).Shapes g.schema earlier r.selection) (scope : List String) :
    Keeps (marking g R) (scanReading g.schema earlier r scope) s fun scan s' =>
      r.base.Shows g s scan.relation ∧ scan.Marked g R s s' := by
  refine (openBase_marks hschema hp hvalid scope).bind fun o s1 hx1 hopened => ?_
  have hshows := hopened.shows.back hx1.toLengthens hvalid
  have houter := hopened.outer scope
  refine (addConditions_marks hschema hp he houter r.conditions hexprs
    (o.scan [] []).select).bind ?_
  rintro filtered s2 hx2 ⟨condition, L, rfl, hcondition, hfiltered⟩
  refine (needAllIfEmpty_marks o r.selection s2).bind fun _ s3 hx3 _ => ?_
  have hx13 := hx2.trans hx3
  refine (hshape (houter.mono hx13) (hlinks _ hshows)).bind fun sh s4 hx4 ⟨hsh, _⟩ => ?_
  have hx14 := hx13.trans hx4
  have hordering : Keeps (marking g R) (r.ordering.mapM (orderItem (o.outer scope))) s4
      fun items s' => Fragment g R s4 s' (rowAround R o.qualifier o.relation)
        (items.flatMap fun item => item.expr.marks) :=
    mapM_marks fun key hkey s5 hx =>
      orderItem_marks (houter.mono (hx14.trans hx)) (hkeys _ hshows key hkey)
  refine hordering.bind fun ordering s5 hx5 hitems => .of_pure ⟨hshows, ?_⟩
  have hshaped := (hfiltered.before hx2 hx3).append hx13 hx4 hsh
  have hclauses := hshaped.append hx14 hx5 hitems
  refine hopened.scan hx1 (hx14.trans hx5) hclauses fun m => ?_
  have hempty : Expr.marksOption condition = L := hcondition
  rw [marks_eq]
  simp only [hempty, Shape.marks, Opened.scan, FromItem.marksOption, mem_append]
  tauto

lemma shapeLookup_marks (ho : outer.Marked g s) {name lateral : String} {c : Column}
    {target : RelationId} {lookup : Lookup}
    (htarget : lookupTarget g.schema outer name = .ok (c, target))
    (hlateral : ∃ k, lateral = numberedName 'j' k) (hlinks : lookup.Links g R c)
    (hshape : ∀ selection, lookup.selection? = some selection →
      (markedShapes g R).Shapes g.schema earlier selection) :
    Keeps (marking g R)
      (shapeLookup g.schema earlier outer name c target lateral lookup) s fun j s' =>
        Fragment g R s s' (outer.row R) (Shape.ofJoin j).marks := by
  obtain ⟨related, hlink, hrelation⟩ := lookupTarget_link htarget
  obtain ⟨hc, t, ht, hrelated⟩ := Schema.link?_eq_some.mp hlink
  obtain ⟨hof, hfrom⟩ := hp.link hschema ho.known hc ht hrelated
  cases lookup with
  | nested selection =>
    rw [shapeLookup_nested]
    refine (relatedBase_marks outer name target).bind fun base s1 hx1 hpost => ?_
    obtain ⟨hb, hshows⟩ := hpost
    have hsame : ∀ r, base.Shows g s1 r → r = related := by
      grind
    refine (scanReading_marks_of hschema hp he hb (by simp [Reading.selecting, Reading.ofBase])
      (fun r hr => hsame r hr ▸ hlinks t _ ht hrelated)
      (by simp [Reading.selecting, Reading.ofBase]) (hshape _ rfl) outer.scope).bind
      fun inner s2 hx2 hpost => ?_
    rw [← hsame _ hpost.1] at hof
    exact (joinRows_marks (ho.mono (hx1.trans hx2)) hc hlateral hpost.2 hx2 hof hfrom).mono
      fun j s3 hx3 hj => hj.after hx1 (hx2.trans hx3)
  | query h =>
    refine ((he h).scan outer.scope s trivial).bind fun inner s1 hx1 hpost => ?_
    obtain ⟨hgives, hinner⟩ := hpost
    exact joinRows_marks (ho.mono hx1) hc hlateral hinner hx1 (hlinks _ hgives) hfrom
  | recursive selection maxDepth =>
    refine (beginWalk_marks hschema hp ho hc ht hrelated hrelation maxDepth).bind
      fun w s1 hx1 hw => ?_
    refine (openWalk_marks hw.table target _).bind fun o s2 hx2 hpost => ?_
    obtain ⟨hopened, hitem, hq⟩ := hpost
    have hsame : o.relation = related := by
      have hshows : g.schema.relation target = .ok o.relation := hopened.shows
      rw [hrelation] at hshows
      exact (Except.ok.inj hshows).symm
    rw [← hsame] at hrelated
    refine (hshape _ rfl (hopened.outer _) (hlinks t _ ht hrelated)).bind ?_
    rintro sh s3 hx3 ⟨hsh, -⟩
    have hwalked : (o.scan sh.joins sh.items).Marked g R s1 s3 :=
      hopened.scan hx2 hx3 hsh fun m =>
        iff_of_eq (congrArg (m ∈ ·) (o.scan_marks sh))
    refine walkJoin_marks (ho.mono ((hx1.trans hx2).trans hx3)) hc hlateral hw hx1 hwalked
      (hx2.trans hx3) ?_ hq
    rw [o.scan_marks sh, ← hitem]
    exact mem_append_left _ (FromItem.item_mem_marks _)

/-- Selections. -/
lemma marks_shapeRules : (markedShapes g R).Rules g.schema earlier where
  mono ho hx := ho.mono hx
  empty _ s := .nil (.refl s)
  append hx hx' ha hb := (Fragment.append hx hx' ha hb).congr fun _ => Shape.mem_append_marks
  leads {r fields lookups} hlinks := by
    change Selection.Links g R r ⟨fields, lookups⟩ at hlinks
    rw [Selection.Links] at hlinks
    induction lookups with
    | nil => simp
    | cons e rest ih =>
      exact forall_mem_cons.mpr ⟨hlinks.1, ih hlinks.2⟩
  leads_empty _ _ c _ := fun _ _ _ _ => Selection.links_of_nil rfl
  stored {outer _ name _} ho hc hstored := by
    have hfield : R outer.relation name :=
      hp.stored _ ho.known _ (Relation.mem_storedNames hc hstored)
    refine (need_marks ho.reads hfield).mono fun _ s1 hx1 _ => ?_
    change Fragment g R _ s1 (outer.row R) [.shows name, .column outer.qualifier name]
    refine (Fragment.nil hx1).enclose (by simp) fun m hm => .inr ?_
    simp only [mem_cons, not_mem_nil, or_false] at hm
    rcases hm with rfl | rfl
    · exact ⟨.inr ⟨_, ho.known, .inl hfield⟩, by simp⟩
    · exact ⟨.inl ⟨rfl, hfield⟩, by simp⟩
  lookup {outer _ name c _ _} ho hleads htarget hshape := by
    obtain ⟨_, hlink, -⟩ := lookupTarget_link htarget
    have hc := (Schema.link?_eq_some.mp hlink).1
    refine freshLateral_marks.bind fun lateral s1 hx1 hlateral => ?_
    exact (shapeLookup_marks hschema hp he (ho.mono hx1) htarget hlateral (hleads c hc)
      hshape).mono fun j s2 hx2 hj => hj.after hx1 hx2

/-- **The SELECT of a reading in a scope.** -/
lemma scanReading_marks {source : Source} (hr : r.Marked g R s source) (scope : List String) :
    Keeps (marking g R) (scanReading g.schema earlier r scope) s fun scan s' =>
      g.Gives source scan.relation ∧ scan.Marked g R s s' :=
  (scanReading_marks_of hschema hp he hr.valid hr.ordering hr.links hr.exprs
    ((marks_shapeRules hschema hp he).shape r.selection) scope).mono fun _ _ _ hpost =>
      ⟨hr.gives _ hpost.1, hpost.2⟩

end Selections

end StagedSql
