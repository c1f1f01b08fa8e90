import StagedSql.Proofs.Plan.MarkedStatements
import StagedSql.Proofs.Plan.SafeStages

/-!
Errors that are left for planning.

Selections, orders, links and references are checked when they are given. What is left are the keys
of conditions, which are read only when a condition is written, and updates that have nothing to
write.
-/

namespace StagedSql

/-- **Planning a query** whose nodes are in a plain part. -/
lemma plan_safe {g : Graph} {part : List (Handle × Node)} (hg : g.Sound) (hp : g.PlainPart part)
    {q : Query} (hq : q.On g) (hin : ∀ h ∈ q.root.handles ++ q.branches, h ∈ part.map Prod.fst)
    (s : PlanState) : Plan.Safe g part (q.plan g) s := by
  have he := planner_safe hg hp
  have hkeeps : ∀ h s1, Plan.Keeps (marking g fun _ _ => True)
      (discard (g.planner.stage h)) s1 fun _ _ => True :=
    fun h s1 => ((he.marks h).stage s1).bind fun _ _ _ _ => .of_pure trivial
  refine .bind (.forM (fun _ _ _ _ h => h) fun h _ s1 _ => hkeeps h s1)
    (.forM (fun h _ s1 _ => hkeeps h s1) fun h hh s1 _ => ?_) fun _ s1 _ _ => ?_
  · have hopen := hq.branches h hh
    exact (he.stage h s1 hopen.has (hin h (List.mem_append_right _ hh))
      (.inl hopen)).bind_total fun _ => .pure _
  · obtain ⟨graph, root, branches⟩ := q
    cases root with
    | relation id =>
      have hr : (Reading.ofBase (.relation id)).Marked g (fun _ _ => True) s1 (.relation id) :=
        ⟨trivial, fun r hr => .relation hr, by simp,
          fun _ _ => Selection.links_of_nil rfl, by simp [Reading.ofBase]⟩
      have ha : (Reading.ofBase (.relation id)).Asks g (.empty g.id g.schema) part (.relation id) :=
        ⟨hq.root, fun _ _ => Selection.fits_empty _ _, by
          simp [Reading.ofBase, Selection.empty, Selection.handles, Lookup.handlesOf],
          by simp [Reading.ofBase]⟩
      exact scanReading_safe hg.schema (.none g part g.id g.schema) hr ha []
    | node h =>
      exact he.scan h [] s1 ⟨hq.root, hin h (List.mem_append_left _ (List.mem_singleton.mpr rfl))⟩

lemma compile_eq_error {g : Graph} {q : Query} {placeholder : Placeholder} {e : Error}
    (h : q.compile g placeholder = .error e) : q.plan g .initial = .error e := by
  cases hplan : q.plan g .initial with
  | error err =>
    rw [Query.compile, Query.toStatement, StateT.run, hplan] at h
    cases h
    rfl
  | ok r =>
    rw [Query.compile, Query.toStatement, StateT.run, hplan] at h
    cases h

/-- **What was checked when a query was built is not found wrong later.** Let a query be built by
any sequence of operations on one graph, and let it need no rows that are written out and no rows
that are taken from a query as a whole. Then it compiles, or one of the nodes that it needs has a
condition with a wrong key, or is an update that has nothing to write. -/
theorem built_queries_fail_on_keys_and_empty_updates {schema : Schema} {relations : List Relation}
    (hschema : Schema.ofRelations schema.id relations = .ok schema) {w : Workbench}
    (hw : w.Reached schema) {q : Query} (hq : q ∈ w.queries)
    (hplain : ∀ p ∈ w.graph.reachable (q.root.handles ++ q.branches), p.2.isPlain = true)
    (placeholder : Placeholder) :
    (∃ rendered, q.compile w.graph placeholder = .ok rendered) ∨
      (∃ p ∈ w.graph.reachable (q.root.handles ++ q.branches), ∃ key ∈ p.2.keys, ∃ segment issue,
        q.compile w.graph placeholder = .error (.invalidLookup key segment issue)) ∨
      ∃ p ∈ w.graph.reachable (q.root.handles ++ q.branches), ∃ id condition r,
        p.2 = .update id (.values []) condition ∧ w.graph.schema.relation id = .ok r ∧
          q.compile w.graph placeholder = .error (.invalidValue r.name .nothingToUpdate) := by
  have hsound := hw.sound (accepted_of_ofRelations hschema)
  have hpart := hsound.graph.plainPart hplain
  have hin : ∀ h ∈ q.root.handles ++ q.branches,
      h ∈ (w.graph.reachable (q.root.handles ++ q.branches)).map Prod.fst := fun h hh =>
    Graph.reachable_of_wanted hh (hsound.open_of_names (.inr ⟨q, hq, hh⟩)).has
  cases hcompile : q.compile w.graph placeholder with
  | ok rendered => exact .inl ⟨rendered, rfl⟩
  | error e =>
      have hexpected : e.Expected w.graph _ :=
        plan_safe hsound.graph hpart (hsound.queries q hq) hin .initial
          (initial_marked w.graph _) e (compile_eq_error hcompile)
      refine .inr ?_
      unfold Error.Expected at hexpected
      split at hexpected
      · obtain ⟨p, hp, hkey⟩ := hexpected
        exact .inl ⟨p, hp, _, hkey, _, _, rfl⟩
      · obtain ⟨p, hp, id, condition, r, hupdate, hr, rfl⟩ := hexpected
        exact .inr ⟨p, hp, id, condition, r, hupdate, hr, rfl⟩
      · exact hexpected.elim

/-- The author with a book: nothing that is needed has a condition or is an update, and rows that
are written out are elsewhere in the graph. -/
theorem bookshop_selection_compiles :
    Workbench.Reached bookshopSchema bookshop ∧
      (⟨0, .node ⟨0, 3⟩, []⟩ : Query) ∈ bookshop.queries ∧
      (∀ p ∈ bookshop.graph.reachable [⟨0, 3⟩], p.2.isPlain = true) ∧
      ∃ rendered,
        (⟨0, .node ⟨0, 3⟩, []⟩ : Query).compile bookshop.graph .numbered = .ok rendered := by
  have hq : (⟨0, .node ⟨0, 3⟩, []⟩ : Query) ∈ bookshop.queries := by decide +kernel
  have hneeded : bookshop.graph.reachable [⟨0, 3⟩] =
      [(⟨0, 1⟩, .insert ⟨0, 1⟩ (.values [("title", .value (.text "Birds")),
          ("author", .parentKey)]) []),
        (⟨0, 2⟩, .insert ⟨0, 0⟩ (.values [("name", .value (.text "first"))]) [("books", [⟨0, 1⟩])]),
        (⟨0, 3⟩, .select (.ofSource (.node ⟨0, 2⟩)
          ⟨["name"], [("books", .nested (.ofFields ["title"]))]⟩))] := rfl
  have hplain : ∀ p ∈ bookshop.graph.reachable [⟨0, 3⟩], p.2.isPlain = true := by
    simp [hneeded, Node.isPlain]
  refine ⟨bookshop_reached, hq, hplain, ?_⟩
  rcases built_queries_fail_on_keys_and_empty_updates
    (show Schema.ofRelations 0 bookshopSchema.relations = .ok bookshopSchema from rfl)
    bookshop_reached hq hplain .numbered with
    hok | ⟨p, hp, key, hkey, -⟩ | ⟨p, hp, id, condition, r, hupdate, -⟩
  · exact hok
  · change p ∈ bookshop.graph.reachable [⟨0, 3⟩] at hp
    rw [hneeded] at hp
    simp only [List.mem_cons, List.not_mem_nil, or_false] at hp
    rcases hp with rfl | rfl | rfl <;> cases hkey
  · change p ∈ bookshop.graph.reachable [⟨0, 3⟩] at hp
    rw [hneeded] at hp
    simp only [List.mem_cons, List.not_mem_nil, or_false] at hp
    rcases hp with rfl | rfl | rfl <;> cases hupdate

end StagedSql
