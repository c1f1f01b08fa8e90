import StagedSql.Proofs.Plan.Scoping

/-!
Names that readings keep apart.
-/

namespace StagedSql

open List Plan Select

variable {scope tables more : List String} {P : Site → Prop} {walks walks' lo mid hi laterals : Nat}
  {schema : Schema} {s : PlanState}

/-! ### Lateral joins -/

/-- **Lateral joins one after the other**, with numbers after `lo` and up to `hi`. Each of them may
be put behind those before it. -/
inductive Join.Chain (P : Site → Prop) (tables : List String) (walks : Nat) (scope : List String) :
    Nat → Nat → List Join → Prop
  | nil {lo hi : Nat} (h : lo ≤ hi) : Chain P tables walks scope lo hi []
  | cons {lo k hi : Nat} {query : Statement} {rest : List Join} (hk : lo < k)
      (hq : Placed P tables walks k scope fun named bound => query.sites named bound)
      (hrest : Chain P tables walks scope k hi rest) :
      Chain P tables walks scope lo hi (.leftLateral query (numberedName 'j' k) :: rest)

namespace Join.Chain

variable {lo' : Nat} {a b joins : List Join}

lemma le (h : Chain P tables walks scope lo hi joins) : lo ≤ hi := by
  induction h with
  | nil h => exact h
  | cons hk _ _ ih => exact Nat.le_trans hk.le ih

lemma lower (h : Chain P tables walks scope lo hi joins) (hlo : lo' ≤ lo) :
    Chain P tables walks scope lo' hi joins := by
  cases h with
  | nil h => exact .nil (hlo.trans h)
  | cons hk hq hrest => exact .cons (hlo.trans_lt hk) hq hrest

lemma mono (h : Chain P tables walks scope lo hi joins) (ht : ∀ t ∈ tables, t ∈ more)
    (hw : walks' ≤ walks) : Chain P more walks' scope lo hi joins := by
  induction h with
  | nil h => exact .nil h
  | cons hk hq _ ih => exact .cons hk (hq.mono ht hw le_rfl) ih

lemma append (ha : Chain P tables walks scope lo mid a)
    (hb : Chain P tables walks scope mid hi b) : Chain P tables walks scope lo hi (a ++ b) := by
  induction ha with
  | nil h => exact hb.lower h
  | cons hk hq _ ih => exact .cons hk hq (ih hb)

lemma exists_number (h : Chain P tables walks scope lo hi joins) :
    ∀ q ∈ joins.map (·.item.qualifier), ∃ k, lo < k ∧ k ≤ hi ∧ q = numberedName 'j' k := by
  induction h with
  | nil h => simp
  | cons hk _ hrest ih =>
    intro q hq
    rcases mem_cons.mp hq with rfl | hq
    · exact ⟨_, hk, hrest.le, rfl⟩
    · grind

lemma nodup (h : Chain P tables walks scope lo hi joins) :
    (joins.map (·.item.qualifier)).Nodup := by
  induction h with
  | nil h => exact nodup_nil
  | cons _ _ hrest ih =>
    refine nodup_cons.mpr ⟨fun hmem => ?_, ih⟩
    -- the names behind have greater numbers
    obtain ⟨m, hm, -, he⟩ := hrest.exists_number _ hmem
    have := (numberedName_inj.mp he).2
    omega

/-- The sites of the joins, each of which sees those before it. -/
lemma sites (h : Chain P tables walks scope lo hi joins) {named bound : List String}
    (outer : List String) (hplace : Position tables walks lo scope named bound) :
    ∀ site ∈ Join.sitesEach named outer bound joins, P site := by
  induction h generalizing bound with
  | nil h => simp [Join.sitesEach]
  | cons hk hq _ ih =>
    have hrest := ih (hplace.label hk.le)
    have hquery := hq named bound (hplace.weaken (fun _ => id) le_rfl hk.le)
    rw [Join.leftLateral, Join.sitesEach, forall_mem_append, forall_mem_append]
    tauto

end Join.Chain

/-! ### Shapes -/

/-- **Joins and items behind rows under a name.** Each item uses that name or one of a join. -/
structure Shape.Scoped (P : Site → Prop) (tables : List String) (walks lo hi : Nat)
    (scope : List String) (q : String) (sh : Shape) : Prop where
  joins : Join.Chain P tables walks scope lo hi sh.joins
  items : ∀ item ∈ sh.items, ∃ name ∈ q :: sh.joins.map (·.item.qualifier),
    ∀ named bound, item.expr.sites named bound = [.uses name bound]

/-- A join under the name with a number, and an item that uses this name. -/
def JoinedBy (P : Site → Prop) (tables : List String) (walks k : Nat) (scope : List String)
    (j : Join × SelectItem) : Prop :=
  (∃ query, j.1 = .leftLateral query (numberedName 'j' k) ∧
    Placed P tables walks k scope fun named bound => query.sites named bound) ∧
    ∀ named bound, j.2.expr.sites named bound = [.uses (numberedName 'j' k) bound]

section Shapes

variable {q : String} {a b : Shape}

lemma Shape.Scoped.mono (h : a.Scoped P tables walks lo hi scope q)
    (ht : ∀ t ∈ tables, t ∈ more) (hw : walks' ≤ walks) :
    a.Scoped P more walks' lo hi scope q :=
  ⟨h.joins.mono ht hw, h.items⟩

lemma Shape.Scoped.empty (h : lo ≤ hi) : Shape.empty.Scoped P tables walks lo hi scope q :=
  ⟨.nil h, by simp [Shape.empty]⟩

lemma Shape.Scoped.append (ha : a.Scoped P tables walks lo mid scope q)
    (hb : b.Scoped P tables walks mid hi scope q) :
    (a.append b).Scoped P tables walks lo hi scope q := by
  have hnames : ∀ name, name ∈ q :: (a.append b).joins.map (·.item.qualifier) ↔
      name ∈ q :: a.joins.map (·.item.qualifier) ∨ name ∈ q :: b.joins.map (·.item.qualifier) := by
    intro name
    simp only [Shape.append, map_append, mem_cons, mem_append]
    tauto
  refine ⟨ha.joins.append hb.joins, fun item hitem => ?_⟩
  rcases mem_append.mp hitem with hitem | hitem
  · obtain ⟨name, hname, hsites⟩ := ha.items item hitem
    exact ⟨name, (hnames name).mpr (.inl hname), hsites⟩
  · obtain ⟨name, hname, hsites⟩ := hb.items item hitem
    exact ⟨name, (hnames name).mpr (.inr hname), hsites⟩

lemma JoinedBy.shape {k : Nat} {j : Join × SelectItem} (h : JoinedBy P tables walks k scope j)
    (hlo : lo < k) (hhi : k ≤ hi) : (Shape.ofJoin j).Scoped P tables walks lo hi scope q := by
  obtain ⟨⟨query, hjoin, hq⟩, hitem⟩ := h
  obtain ⟨join, item⟩ := j
  subst hjoin
  refine ⟨.cons hlo hq (.nil hhi), fun i hi => ?_⟩
  rw [mem_singleton.mp hi]
  exact ⟨numberedName 'j' k, by simp [Shape.ofJoin, Join.leftLateral, FromItem.qualifier], hitem⟩

end Shapes

/-! ### SELECTs -/

section Selects

variable {inner : List String} {laterals' : Nat} {scan : Scan} {o : Opened} {sh : Shape}
  {ordering : List OrderItem}

lemma Scan.Scoped.mono (h : scan.Scoped P tables walks laterals scope)
    (ht : ∀ t ∈ tables, t ∈ more) (hw : walks' ≤ walks) (hl : laterals' ≤ laterals) :
    scan.Scoped P more walks' laterals' scope :=
  ⟨h.own, h.nodup, fun named bound hplace => h.apart named bound (hplace.weaken ht hw hl),
    h.clauses.mono ht hw hl⟩

variable (hP : ∀ site : Site, site.Good schema.tableNames → P site)

include hP

lemma Scan.Scoped.sites (h : scan.Scoped P tables walks laterals scope) :
    Placed P tables walks laterals scope fun named bound => scan.select.sites named bound := by
  intro named bound hplace
  simp only [sites_eq, forall_mem_cons]
  exact ⟨hP _ (good_binds h.nodup (.inl (h.apart named bound hplace))),
    h.clauses named bound hplace⟩

/-- **A SELECT of a FROM item** whose name is not in the scope, with a shape, a condition and an
ordering that were planned in the scope with this name. -/
lemma Opened.scan_scoped (hq : o.item.qualifier = o.qualifier) (hfresh : o.qualifier ∉ scope)
    (hj : ∀ k, o.qualifier ≠ numberedName 'j' k) (hlabels : ∀ k, numberedName 'j' k ∉ scope)
    (hitem : Placed P tables walks laterals scope fun named bound => o.item.sites named bound)
    (hinner : ∀ name, name ∈ inner ↔ name ∈ scope ∨ name = o.qualifier)
    (hsh : sh.Scoped P tables walks lo hi inner o.qualifier) (hlo : laterals ≤ lo)
    {condition : Option Expr}
    (hcondition : ∀ e, condition = some e → e.ScopedIn P tables walks inner)
    (hordering : ∀ i ∈ ordering, i.expr.ScopedIn P tables walks inner)
    (limit offset : Option UInt64) :
    Scan.Scoped P tables walks laterals scope
      ⟨⟨sh.items, some o.item, sh.joins, condition, ordering, limit, offset⟩, o.relation,
        o.qualifier, o.stage⟩ := by
  have hqualifiers : qualifiers
      ⟨sh.items, some o.item, sh.joins, condition, ordering, limit, offset⟩ =
        o.qualifier :: sh.joins.map (·.item.qualifier) := by
    rw [← hq]
    rfl
  refine ⟨?_, ?_, ?_, ?_⟩
  · rw [hqualifiers]
    exact mem_cons_self
  · rw [hqualifiers]
    refine nodup_cons.mpr ⟨fun hmem => ?_, hsh.joins.nodup⟩
    obtain ⟨k, -, -, he⟩ := hsh.joins.exists_number _ hmem
    exact hj k he
  · intro named bound hplace name hname
    rw [hqualifiers] at hname
    rcases mem_cons.mp hname with rfl | hname
    · exact hplace.not_mem hfresh hj
    · -- a join that was made up later than all that is bound around
      obtain ⟨k, hk, -, rfl⟩ := hsh.joins.exists_number _ hname
      intro hmem
      rcases hplace.only _ hmem with hs | ⟨m, hm, he⟩
      · exact hlabels k hs
      · have := (numberedName_inj.mp he).2
        omega
  · intro named bound hplace
    have hbound : Position tables walks laterals inner named (o.qualifier :: bound) :=
      hplace.bind hinner
    -- the condition and the order are read where every join is bound as well
    have hall : Position tables walks hi inner named
        ((o.qualifier :: sh.joins.map (·.item.qualifier)) ++ bound) := by
      refine ⟨hbound.sees, hbound.names, fun name hname => ?_, fun name hname => ?_⟩
      · rcases mem_cons.mp (hbound.binds name hname) with rfl | hmem
        · simp
        · exact mem_append_right _ hmem
      · have hcases : name ∈ o.qualifier :: bound ∨ name ∈ sh.joins.map (·.item.qualifier) := by
          simp only [mem_append, mem_cons] at hname ⊢
          tauto
        rcases hcases with hmem | hmem
        · rcases hbound.only name hmem with hs | ⟨k, hk, rfl⟩
          · exact .inl hs
          · exact .inr ⟨k, hk.trans (hlo.trans hsh.joins.le), rfl⟩
        · obtain ⟨k, -, hk, rfl⟩ := hsh.joins.exists_number _ hmem
          exact .inr ⟨k, hk, rfl⟩
    simp only [clauseSites_forall, hqualifiers]
    refine ⟨?_, hitem named bound hplace, ?_, ?_, ?_⟩
    · rw [SelectItem.sitesEach_forall]
      intro item hmem
      obtain ⟨name, hname, hsites⟩ := hsh.items item hmem
      rw [hsites, forall_mem_singleton]
      exact hP _ (good_uses (mem_append_left _ hname))
    · have hsource : (Option.toList (some o.item)).map FromItem.qualifier = [o.qualifier] := by
        rw [← hq]
        rfl
      rw [hsource]
      exact hsh.joins.sites bound (hbound.weaken (fun _ => id) le_rfl hlo)
    · rw [Expr.sitesOption_forall]
      exact fun e he => hcondition e he hi named _ hall
    · rw [OrderItem.sitesEach_forall]
      exact fun i hmem => hordering i hmem hi named _ hall

lemma Scan.Scoped.linked (h : scan.Scoped P tables walks laterals scope) {q : String}
    (hq : q ∈ scope) (a b : String) :
    Placed P tables walks laterals scope fun named bound =>
      (scan.select.filter (.binary .eq (.of scan.qualifier a) (.of q b))).sites named bound := by
  intro named bound hplace
  simp only [sites_eq, forall_mem_cons]
  refine ⟨hP _ (good_binds h.nodup (.inl (h.apart named bound hplace))),
    filter_clauseSites (h.clauses named bound hplace) (binary_sites _ _ _ ?_ ?_)⟩
  · exact of_good hP (mem_append_left _ h.own) a
  · exact of_good hP (mem_append_right _ (hplace.binds q hq)) b

lemma arrayOf_sites {named bound : List String} {select : Select} {rows : String}
    (hfresh : rows ∉ bound) (h : ∀ site ∈ select.sites named bound, P site)
    (ho : ∀ i ∈ ordering, ∀ site ∈ i.expr.sites named (rows :: bound), P site) :
    ∀ site ∈ (Statement.select (arrayOf select rows ordering)).sites named bound, P site := by
  rw [Statement.sites, sites_eq, forall_mem_cons]
  refine ⟨hP _ (good_binds ?_ (.inl ?_)), single_clauseSites ?_ ?_⟩
  · change [rows].Nodup
    simp
  · change ∀ q ∈ [rows], q ∉ bound
    simpa using hfresh
  · assumption
  · intro i hi
    rw [mem_singleton.mp hi]
    have huses : P (.uses rows (rows :: bound)) := hP _ (good_uses mem_cons_self)
    change ∀ site ∈ (aggregateRows rows ordering).sites named (rows :: bound), P site
    simp only [aggregateRows, Expr.coalesce, Expr.apply, Expr.arrayAgg, Expr.sites, Expr.sitesEach,
      OrderItem.sitesEach, rowToJson_sites, append_nil, forall_mem_append,
      forall_mem_singleton]
    exact ⟨huses, OrderItem.sitesEach_forall.mpr ho⟩

end Selects

/-! ### Lookups -/

/-- An outer row whose own name is in its scope, which holds no name that is still to be made up. -/
structure Outer.Scoped (s : PlanState) (outer : Outer) : Prop where
  mem : outer.qualifier ∈ outer.scope
  knows : s.names.Knows outer.scope

lemma Outer.Scoped.mono {s' : PlanState} {outer : Outer} (h : outer.Scoped s)
    (hx : s.Lengthens s') : outer.Scoped s' :=
  ⟨h.mem, h.knows.mono hx.names⟩

lemma Opened.Scoped.outer {o : Opened} (h : o.Scoped P s scope)
    (hk : s.names.Knows scope) : (o.outer scope).Scoped s :=
  ⟨mem_concat_self, hk.append h.made⟩

/-- The start and the step of a walk from a row of a scope. -/
structure Walk.Scoped (P : Site → Prop) (tables : List String) (scope : List String) (w : Walk) :
    Prop where
  start : ∀ walks laterals, Placed P (w.table :: tables) walks laterals scope
    fun named bound => w.start.sites named bound
  step : ∀ walks laterals, Placed P (w.table :: tables) walks laterals scope
    fun named bound => w.step.sites named bound

lemma Walk.Scoped.mono {w : Walk} (h : w.Scoped P tables scope)
    (ht : ∀ t ∈ tables, t ∈ more) : w.Scoped P more scope := by
  have hcons : ∀ t ∈ w.table :: tables, t ∈ w.table :: more := by
    simp_all
  exact ⟨fun walks laterals => (h.start walks laterals).mono hcons le_rfl le_rfl,
    fun walks laterals => (h.step walks laterals).mono hcons le_rfl le_rfl⟩

lemma Position.walk {named named' bound : List String} {k : Nat}
    (h : Position tables walks laterals scope named bound) (hk : walks < k)
    (hnamed : ∀ t, t ∈ named' ↔ t = numberedName 'c' k ∨ t ∈ named) :
    Position (numberedName 'c' k :: tables) k laterals scope named' bound := by
  refine ⟨fun t ht => ?_, fun t ht => ?_, h.binds, h.only⟩
  · rcases mem_cons.mp ht with rfl | ht
    · exact (hnamed _).mpr (.inl rfl)
    · exact (hnamed t).mpr (.inr (h.sees t ht))
  · rcases (hnamed t).mp ht with rfl | ht
    · exact .inr ⟨k, le_rfl, rfl⟩
    · rcases h.names t ht with hs | ⟨m, hm, rfl⟩
      · exact .inl hs
      · exact .inr ⟨m, Nat.le_of_lt (hm.trans_lt hk), rfl⟩

section Lookups

variable {named bound : List String} {k : Nat} {outer : Outer} {next : String} {r : Relation}

lemma relatedBase_scopes (outer : Outer) (name : String) (target : RelationId) :
    Keeps (scoping P) (relatedBase outer name target) s fun base s' => base.Scoped s' :=
  .relatedBase trivial fun hs _ _ hlookup => hs.written _ (mem_of_lookup hlookup)

lemma freshLateral_scopes : Keeps (scoping P) freshLateral s fun lateral s' =>
    lateral = numberedName 'j' (s.names.laterals + 1) ∧ s'.names.laterals = s.names.laterals + 1 :=
  .of_shifts rfl {} ⟨rfl, rfl⟩

lemma freshAggregate_scopes (hk : s.names.Knows scope) :
    Keeps (scoping P) freshAggregate s fun rows _ =>
      ∀ {tables named bound : List String} {walks laterals : Nat},
        Position tables walks laterals scope named bound → rows ∉ bound := by
  refine .of_shifts rfl {} fun hplace => ?_
  refine hplace.not_mem (fun hmem => ?_) fun k => numberedName_ne (by decide) _ k
  exact (hk _ hmem).ne_label (by decide) _ rfl

variable (hP : ∀ site : Site, site.Good schema.tableNames → P site)

include hP

/-- **A lookup as a lateral join.** -/
lemma joinRows_scopes (ho : outer.Scoped s) (c : Column) (name : String) {inner : Scan}
    (h : inner.Scoped P s.stageNames walks k outer.scope) :
    Keeps (scoping P) (joinRows outer c name (numberedName 'j' k) inner) s fun j s' =>
      JoinedBy P s'.stageNames walks k outer.scope j := by
  rw [joinRows]
  split
  · refine (need_scopes _ _).bind fun _ s1 hx1 _ => (need_scopes _ _).bind fun _ s2 hx2 _ => ?_
    have hk2 := ((ho.mono hx1).mono hx2).knows
    refine (freshAggregate_scopes hk2).bind fun rows s3 hx3 hrows => .of_pure ⟨⟨_, rfl, ?_⟩, ?_⟩
    · intro named bound hplace
      have hx := (hx1.trans hx2).trans hx3
      have hlinked := (h.mono hx.mem_stageNames le_rfl le_rfl).linked hP ho.mem
      exact arrayOf_sites hP (hrows hplace) (hlinked _ _ named bound hplace) (by simp)
    · exact fun named bound => of_sites _ _
  · refine (need_scopes _ _).bind fun _ s1 hx1 _ => (need_scopes _ _).bind fun _ s2 hx2 _ => ?_
    refine .of_pure ⟨⟨_, rfl, ?_⟩, fun named bound => rowToJson_sites _⟩
    intro named bound hplace
    have hx := hx1.trans hx2
    have hlinked := (h.mono hx.mem_stageNames le_rfl le_rfl).linked hP ho.mem
    tauto

lemma walkLink_sites (c : Column) (key : String) {previous : String} (hnext : next ∈ bound)
    (hprevious : previous ∈ bound) :
    ∀ site ∈ (walkLink c key next previous).sites named bound, P site := by
  rw [walkLink]
  split <;> exact binary_sites _ _ _ (of_good hP hnext _) (of_good hP hprevious _)

variable (hschema : schema.Unnumbered)

include hschema

/-- The rows that a walk begins with go by a name of their own and are linked to the outer row. -/
lemma walkStart_sites (hr : r ∈ schema.relations) {first q : String}
    (hplace : Position tables walks laterals scope named bound) (hfirst : first ∉ bound)
    (hq : q ∈ bound) (c : Column) (key : String) :
    ∀ site ∈ sites named bound (filter { empty with
        projection := [⟨.star (some first), none⟩, labelled (.int 1) "depth"]
        source := some (.table r.name (some first)) } (walkLink c key first q)), P site := by
  rw [sites_eq, forall_mem_cons]
  refine ⟨hP _ (good_binds ?_ (.inl ?_)), filter_clauseSites (single_clauseSites ?_ ?_) ?_⟩
  · change [first].Nodup
    simp
  · change ∀ q ∈ [first], q ∉ bound
    simpa using hfirst
  · simpa [FromItem.sites] using hP _ (hplace.scans_relation hschema hr)
  · have huses : P (.uses first (first :: bound)) := hP _ (good_uses mem_cons_self)
    simpa [labelled, Expr.int, Expr.sites, FromItem.qualifier] using huses
  · exact walkLink_sites hP c key mem_cons_self (.tail _ hq)

/-- The rows that a walk goes on with stand beside those found before. -/
lemma walkStep_sites (hr : r ∈ schema.relations) {table : String} (htable : table ∈ tables)
    (hne : next ≠ table) (hplace : Position tables walks laterals scope named bound)
    (hnext : next ∉ bound) (hfresh : table ∉ bound) (c : Column) (key : String) (extra : List Expr)
    (hextra : ∀ e ∈ extra, ∀ site ∈ e.sites named ([next, table] ++ bound), P site) :
    ∀ site ∈ sites named bound (extra.foldl filter { empty with
        projection := [⟨.star (some next), none⟩,
          labelled (.binary .plus (.of table "depth") (.int 1)) "depth"]
        source := some (.table r.name (some next))
        joins := [⟨.inner, false, .table table none, some (walkLink c key next table)⟩] }),
      P site := by
  -- conditions change neither the names nor the other clauses
  have hfold : ∀ (es : List Expr) (select : Select), select.qualifiers = [next, table] →
      (∀ e ∈ es, ∀ site ∈ e.sites named ([next, table] ++ bound), P site) →
      (∀ site ∈ select.clauseSites named bound, P site) →
        ∀ site ∈ (es.foldl filter select).sites named bound, P site := by
    intro es
    induction es with
    | nil =>
      intro select hqualifiers _ hclauses
      rw [sites_eq, forall_mem_cons]
      refine ⟨hP _ (good_binds ?_ (.inl ?_)), hclauses⟩
      · simpa [hqualifiers] using hne
      · simpa [hqualifiers] using ⟨hnext, hfresh⟩
    | cons e rest ih =>
      intro select hqualifiers hes hclauses
      refine ih (select.filter e) hqualifiers (fun x hx => hes x (by simp [hx])) ?_
      refine filter_clauseSites hclauses ?_
      rw [hqualifiers]
      exact hes e (by simp)
  refine hfold extra _ rfl hextra ?_
  rw [clauseSites_forall]
  have hscan := hP _ (hplace.scans_relation hschema hr)
  have htableScan := hP _ (hplace.scans_table hschema htable)
  have huses : ∀ q ∈ [next, table], P (.uses q ([next, table] ++ bound)) :=
    fun q hq => hP _ (good_uses (mem_append_left _ hq))
  refine ⟨?_, ?_, ?_, by simp [empty, Expr.sitesOption], by simp [empty, OrderItem.sitesEach]⟩
  · have hnextUses := huses next (by simp)
    have htableUses := huses table (by simp)
    simpa [SelectItem.sitesEach, labelled, Expr.sites, Expr.int, of_sites] using
      ⟨hnextUses, htableUses⟩
  · simpa [FromItem.sitesOption, FromItem.sites] using hscan
  · simp only [Join.sitesEach, FromItem.sites, Expr.sitesOption, append_nil,
      forall_mem_append, forall_mem_singleton]
    exact ⟨htableScan, walkLink_sites hP c key (by simp [FromItem.qualifier])
      (by simp [FromItem.qualifier])⟩

/-- **A walk** has a table of the next number, which is not in the scope. -/
lemma beginWalk_scopes (ho : outer.Scoped s) (c : Column) (target : RelationId)
    (maxDepth : Option UInt32) :
    Keeps (scoping P) (beginWalk schema outer c target maxDepth) s fun w s' =>
      w.Scoped P s'.stageNames outer.scope ∧ w.table ∉ outer.scope ∧
        ∃ k, w.table = numberedName 'c' k ∧ s.names.walks < k ∧ k ≤ s'.names.walks := by
  refine .lift_bind fun r hr => ?_
  have hmem := Schema.mem_of_relation hr
  dsimp only
  split
  · exact .throw_bind
  · refine (need_scopes _ _).bind fun _ s1 hx1 _ => ?_
    have ho1 := ho.mono hx1
    refine .shifts_bind rfl {} ?_
    refine .shifts_bind rfl {} ?_
    refine .shifts_bind rfl {} (.of_pure ?_)
    -- names that are made up here are bound nowhere around
    have hfresh : ∀ {letter : Char} {k : Nat} {tables named bound : List String}
        {walks laterals : Nat}, letter ∈ generatedLetters → letter ≠ 't' → letter ≠ 'j' →
        s1.names.count letter < k → Position tables walks laterals outer.scope named bound →
          numberedName letter k ∉ bound := by
      intro letter k tables named bound walks laterals hl ht hj hk hplace
      refine hplace.not_mem (fun hscope => ?_) fun m => numberedName_ne hj k m
      exact (ho1.knows _ hscope).ne_fresh hl ht hk rfl
    refine ⟨⟨fun walks laterals named bound hplace => ?_,
      fun walks laterals named bound hplace => ?_⟩, fun hscope => ?_, ?_⟩
    · exact walkStart_sites hP hschema hmem hplace
        (hfresh (by decide) (by decide) (by decide) (Nat.lt_succ_self s1.names.relations) hplace)
        (hplace.binds _ ho.mem) c r.primaryKey
    · have hnext : numberedName 'r' (s1.names.relations + 1 + 1) ∉ bound :=
        hfresh (by decide) (by decide) (by decide)
          (Nat.lt_succ_of_lt (Nat.lt_succ_self s1.names.relations)) hplace
      have htable : numberedName 'c' (s1.names.walks + 1) ∉ bound :=
        hfresh (by decide) (by decide) (by decide) (Nat.lt_succ_self s1.names.walks) hplace
      have hstep := walkStep_sites hP hschema hmem mem_cons_self
        (numberedName_ne (by decide) _ _) hplace hnext htable c r.primaryKey
      cases maxDepth with
      | none => exact hstep [] (by simp)
      | some depth =>
        refine hstep [.binary .lt (.of _ "depth") (.int depth.toUInt64.toInt64)] ?_
        rw [forall_mem_singleton]
        exact binary_sites _ _ _ (of_good hP (by simp) _) (by simp [Expr.int, Expr.sites])
    · exact (ho1.knows _ hscope).ne_fresh (by decide) (by decide)
        (Nat.lt_succ_self s1.names.walks) rfl
    · grind

/-- **A walk as a lateral join.** Its rows are gathered from its own table. -/
lemma walkJoin_scopes {w : Walk} (hw : w.Scoped P s.stageNames scope)
    (htable : w.table = numberedName 'c' k) (hk : walks < k) (hknows : s.names.Knows scope)
    (name : String) {lateral : Nat} {walked : Scan}
    (h : walked.Scoped P (w.table :: s.stageNames) k lateral scope) :
    Keeps (scoping P) (w.join name (numberedName 'j' lateral) walked) s fun j s' =>
      JoinedBy P s'.stageNames walks lateral scope j := by
  refine (freshAggregate_scopes hknows).bind fun rows s1 hx1 hrows =>
    .of_pure ⟨⟨_, rfl, ?_⟩, fun named bound => of_sites _ _⟩
  intro named bound hplace
  have hplace1 := hplace.weaken hx1.mem_stageNames le_rfl le_rfl
  -- the table of the walk is visible in its own statement and in the rows
  have hinside : ∀ {named' : List String}, (∀ t, t ∈ named' ↔ t = w.table ∨ t ∈ named) →
      Position (w.table :: s.stageNames) k lateral scope named' bound := by
    intro named' hnamed
    rw [htable] at hnamed ⊢
    exact hplace1.walk hk hnamed
  change ∀ site ∈ Statement.sites named bound (.withCtes true
    [⟨w.table, .union true [.select w.start, .select w.step]⟩] (.select (arrayOf _ rows _))), P site
  rw [Statement.sites, forall_mem_append]
  constructor
  · have hboth : Position (w.table :: s.stageNames) k lateral scope ([w.table] ++ named) bound :=
      hinside (by simp)
    simp only [if_true, map_cons, map_nil, Cte.sitesEach, Statement.sites,
      Statement.sitesEach, append_nil, forall_mem_cons, forall_mem_append]
    refine ⟨hP _ ⟨trivial, fun hrelation => ?_, fun hmem => ?_⟩,
      hw.start _ _ _ bound hboth, hw.step _ _ _ bound hboth⟩
    · exact hschema.of_mem hrelation _ (by decide) k htable
    · -- walks that are visible here began before
      rw [htable] at hmem
      rcases hplace.names _ hmem with ⟨m, hm⟩ | ⟨m, hm, he⟩
      · exact numberedName_ne (by decide) _ _ hm
      · have := (numberedName_inj.mp he).2
        omega
  · have hbody : Position (w.table :: s.stageNames) k lateral scope (named ++ [w.table]) bound :=
      hinside (by simp [or_comm])
    refine arrayOf_sites hP (hrows hbody) ?_ ?_
    · have hclauses := h.clauses _ bound hbody
      rw [sites_eq, forall_mem_cons]
      split
      · exact ⟨hP _ (good_binds h.nodup (.inl (h.apart _ bound hbody))), hclauses⟩
      · refine ⟨hP _ (good_binds h.nodup (.inl (h.apart _ bound hbody))),
          append_clauseSites hclauses ?_⟩
        rw [forall_mem_singleton]
        exact of_good hP (mem_append_left _ h.own) _
    · rw [forall_mem_singleton]
      exact of_good hP mem_cons_self _

end Lookups

/-! ### Selections -/

section Selections

variable {outer : Outer} {r : Reading}

/-- What is to be known of selections: the sites of their shapes are as stated. -/
def scopedShapes (P : Site → Prop) : ShapeLaw where
  law := scoping P
  Out outer s := outer.Scoped s
  Asks _ _ := True
  Leads _ _ _ := True
  Shaped outer s s' sh := sh.Scoped P s'.stageNames s.names.walks s.names.laterals
    s'.names.laterals outer.scope outer.qualifier

variable {earlier : Earlier} (hP : ∀ site : Site, site.Good schema.tableNames → P site)
  (he : earlier.Meets (scopedNodes P)) (hschema : schema.Unnumbered)

include hP he hschema

/-- Conditions one after the other, whose names are made up after those of the position. -/
lemma addConditions_scopes (ho : outer.Scoped s) (hwalks : walks ≤ s.names.walks)
    (conditions : List Condition) (hc : ∀ c ∈ conditions, ∀ e ∈ c.exprs, e.Everywhere P)
    (select : Select)
    (hselect : ∀ e, select.condition = some e → e.ScopedIn P s.stageNames walks outer.scope) :
    Keeps (scoping P) (addConditions schema earlier outer select conditions) s
      fun filtered s' => ∃ condition, filtered = { select with condition := condition } ∧
        ∀ e, condition = some e → e.ScopedIn P s'.stageNames walks outer.scope := by
  induction conditions generalizing s select with
  | nil =>
    refine .of_pure ⟨select.condition, ?_, hselect⟩
    cases select
    rfl
  | cons c rest ih =>
    have hneed : Keeps (scoping P)
        ((c.primaryColumns outer.relation).forM (need outer.stage)) s fun _ _ =>
          ∀ name ∈ c.primaryColumns outer.relation, True :=
      .forM (fun _ _ _ _ h => h) fun name _ s1 _ =>
        (need_scopes _ _).forget
    refine hneed.bind fun _ s1 hx1 _ => ?_
    have ho1 := ho.mono hx1
    refine (toSql_scopes hP he hschema outer.relation ho.mem (hc c (by simp)) ho1.knows).bind
      fun e s2 hx2 hscoped => ?_
    have hx := hx1.trans hx2
    refine ih (ho.mono hx) (hwalks.trans hx.names.walks)
      (fun c hmem => hc c (by simp [hmem])) (select.filter e) ?_
    refine andCondition_of ?_ ?_ (fun x hcond => ?_) ?_
    · exact fun op l r hl hr laterals named bound hplace =>
        binary_sites op l r (hl laterals named bound hplace) (hr laterals named bound hplace)
    · tauto
    · exact (hselect x hcond).mono hx.mem_stageNames le_rfl
    · exact hscoped.mono (fun _ => id) (hwalks.trans hx1.names.walks)

omit he hschema in
lemma orderItem_scopes (ho : outer.Scoped s) (walks : Nat) (key : SortKey) :
    Keeps (scoping P) (orderItem outer key) s fun item s' =>
      item.expr.ScopedIn P s'.stageNames walks outer.scope := by
  refine (need_scopes outer.stage key.column).bind fun _ _ _ _ =>
    .of_pure fun laterals named bound hplace => ?_
  exact of_good hP (hplace.binds _ ho.mem) key.column

lemma scanReading_scopes_of (hr : r.Scoped P s) (hk : s.names.Knows scope)
    (hshape : (scopedShapes P).Shapes schema earlier r.selection) :
    Keeps (scoping P) (scanReading schema earlier r scope) s fun scan s' =>
      scan.Scoped P s'.stageNames s.names.walks s.names.laterals scope := by
  refine (openBase_scopes hP hschema hr.base hk).bind fun o s1 hx1 hopened => ?_
  have ho1 := hopened.outer (hk.mono hx1.names)
  refine (addConditions_scopes hP he hschema ho1 hx1.names.walks r.conditions hr.exprs
    (o.scan [] []).select (by rintro e ⟨⟩)).bind fun filtered s2 hx2 hfiltered => ?_
  obtain ⟨condition, rfl, hcondition⟩ := hfiltered
  refine (needAllIfEmpty_scopes o r.selection).bind fun _ s3 hx3 _ => ?_
  have hx13 := hx2.trans hx3
  refine (hshape (ho1.mono hx13) trivial).bind fun sh s4 hx4 ⟨hsh, _⟩ => ?_
  have ho4 := ho1.mono (hx13.trans hx4)
  have hordering : Keeps (scoping P) (r.ordering.mapM (orderItem (o.outer scope))) s4
      fun items s' => Forall₂ (fun (_ : SortKey) (item : OrderItem) =>
        item.expr.ScopedIn P s'.stageNames s.names.walks (o.outer scope).scope) r.ordering items :=
    .mapM (fun _ _ _ _ hx h => h.mono hx.mem_stageNames le_rfl)
      fun key _ s5 hx => orderItem_scopes hP (ho4.mono hx) _ key
  refine hordering.bind fun ordering s5 hx5 hitems => .of_pure ?_
  have hopened5 := hopened.mono ((hx13.trans hx4).trans hx5)
  have hx := hx1.trans hx13
  refine Opened.scan_scoped hP hopened5.qualifier hopened5.fresh
    (hopened5.made.ne_label (by decide)) (fun k hmem => (hk _ hmem).ne_label (by decide) k rfl)
    (hopened5.item _ _) (fun _ => mem_append_singleton)
    (hsh.mono hx5.mem_stageNames hx.names.walks) hx.names.laterals ?_ ?_ r.limit r.offset
  · exact fun e he => (hcondition e he).mono ((hx3.trans hx4).trans hx5).mem_stageNames le_rfl
  · intro item hitem
    obtain ⟨key, -, h⟩ := exists_of_forall₂_right hitems item hitem
    exact h

/-- A lookup as a join, whose name is the last that was made up for joins. -/
lemma shapeLookup_scopes (ho : outer.Scoped s) (name : String) (c : Column) (target : RelationId)
    {lookup : Lookup} (hshape : ∀ selection, lookup.selection? = some selection →
      (scopedShapes P).Shapes schema earlier selection) :
    Keeps (scoping P) (shapeLookup schema earlier outer name c target
        (numberedName 'j' s.names.laterals) lookup) s fun j s' =>
      JoinedBy P s'.stageNames s.names.walks s.names.laterals outer.scope j := by
  cases lookup with
  | nested selection =>
    rw [shapeLookup_nested]
    refine (relatedBase_scopes outer name target).bind fun base s1 hx1 hb => ?_
    have hr : (Reading.selecting base selection).Scoped P s1 :=
      ⟨hb, by simp [Reading.selecting, Reading.ofBase]⟩
    refine (scanReading_scopes_of hP he hschema hr (ho.mono hx1).knows (hshape _ rfl)).bind
      fun inner s2 hx2 hinner => ?_
    exact joinRows_scopes hP (ho.mono (hx1.trans hx2)) c name
      (hinner.mono (fun _ => id) hx1.names.walks hx1.names.laterals)
  | query h =>
    refine ((he h).scan outer.scope s ho.knows).bind fun inner s1 hx1 hinner => ?_
    exact joinRows_scopes hP (ho.mono hx1) c name hinner
  | recursive selection maxDepth =>
    refine (beginWalk_scopes hP hschema ho c target maxDepth).bind ?_
    rintro w s1 hx1 ⟨hw, hfresh, k, htable, hk, hle⟩
    have hopen : Keeps (scoping P)
        (openBase schema (.walk w.table target) (outer.scope ++ [w.table])) s1 fun o s' =>
          s' = s1 ∧ ∃ r, o = ⟨.table w.table none, w.table, r, none⟩ :=
      .lift_bind fun r _ => .of_pure ⟨rfl, r, rfl⟩
    refine hopen.bind ?_
    rintro o s2 - ⟨rfl, r, rfl⟩
    have hmade : s2.names.Made w.table := by
      rw [htable]
      exact .numbered (by decide) hle
    have hknows := (ho.mono hx1).knows
    have houter : (Opened.outer ⟨.table w.table none, w.table, r, none⟩
        (outer.scope ++ [w.table])).Scoped s2 :=
      ⟨mem_concat_self, (hknows.append hmade).append hmade⟩
    refine (hshape _ rfl houter trivial).bind ?_
    rintro sh s3 hx3 ⟨hsh, -⟩
    have hwalked :
        (Opened.scan ⟨.table w.table none, w.table, r, none⟩ sh.joins sh.items).Scoped P
          (w.table :: s3.stageNames) k s2.names.laterals outer.scope := by
      refine Opened.scan_scoped hP rfl hfresh (hmade.ne_label (by decide))
        (fun k hmem => (ho.knows _ hmem).ne_label (by decide) k rfl) ?_ ?_
        (hsh.mono (fun _ ht => .tail _ ht) hle) le_rfl
        (by rintro e ⟨⟩) (by simp [empty]) none none
      · intro named bound hplace
        simpa [FromItem.sites] using hP _ (hplace.scans_table hschema mem_cons_self)
      · intro q
        simp only [Opened.outer, mem_append, mem_singleton]
        tauto
    exact walkJoin_scopes hP hschema (hw.mono hx3.mem_stageNames) htable hk
      (hknows.mono hx3.names) name
      (hwalked.mono (fun _ => id) le_rfl hx1.names.laterals)

/-- Selections. -/
lemma scopes_shapeRules : (scopedShapes P).Rules schema earlier where
  mono ho hx := ho.mono hx
  empty _ _ := .empty le_rfl
  append hx hx' ha hb := (ha.mono hx'.mem_stageNames le_rfl).append
    (hb.mono (fun _ => id) hx.names.walks)
  leads _ _ _ := trivial
  leads_empty _ _ := trivial
  stored {outer _ name _} _ _ _ := by
    refine (need_scopes outer.stage name).mono fun _ s1 hx1 _ => ⟨.nil hx1.names.laterals, ?_⟩
    intro item hitem
    rw [mem_singleton.mp hitem]
    tauto
  lookup {outer _ name c target _} ho _ _ hshape := by
    refine freshLateral_scopes.bind fun lateral s1 hx1 ⟨hlateral, hcount⟩ => ?_
    subst hlateral
    rw [← hcount]
    refine (shapeLookup_scopes hP he hschema (ho.mono hx1) name c target hshape).mono
      fun j s2 hx2 hj => ?_
    have hsh := hj.shape (q := outer.qualifier) (Nat.lt_of_succ_le (Nat.le_of_eq hcount.symm))
      hx2.names.laterals
    exact hsh.mono (fun _ => id) hx1.names.walks

/-- **The SELECT of a reading in a scope.** -/
lemma scanReading_scopes (hr : r.Scoped P s) (hk : s.names.Knows scope) :
    Keeps (scoping P) (scanReading schema earlier r scope) s fun scan s' =>
      scan.Scoped P s'.stageNames s.names.walks s.names.laterals scope :=
  scanReading_scopes_of hP he hschema hr hk ((scopes_shapeRules hP he hschema).shape r.selection)

end Selections

end StagedSql
