import Mathlib.Data.List.Basic
import StagedSql.Proofs.Sql.Lexing
import StagedSql.Settings.Expansion

/-!
What the expansion of a text is.

A name between braces ends at the first closing brace, and a name without braces is as long as can
be. A text that is cut between two pieces is expanded part by part (`expand_substitutes`).
-/

namespace StagedSql

open List

/-! ### Pieces -/

/-- **A text is cut into pieces** in front of another one. -/
inductive Cuts (t : List Char) : List Char → List Piece → Prop
  | nil : Cuts t [] []
  | char {c : Char} {cs : List Char} {ps : List Piece} : c ≠ '$' → Cuts t cs ps →
      Cuts t (c :: cs) (.plain c :: ps)
  | dollar {cs : List Char} {ps : List Piece} :
      (∀ d ∈ (cs ++ t).head?, d ≠ '{' ∧ isVariableChar d = false) → Cuts t cs ps →
      Cuts t ('$' :: cs) (.plain '$' :: ps)
  | braced {name cs : List Char} {ps : List Piece} : '}' ∉ name → Cuts t cs ps →
      Cuts t ('$' :: '{' :: (name ++ '}' :: cs)) (.reference name :: ps)
  | unclosed {name : List Char} : '}' ∉ name → t = [] →
      Cuts t ('$' :: '{' :: name) [.reference name]
  | bare {name cs : List Char} {ps : List Piece} : name ≠ [] →
      (∀ c ∈ name, isVariableChar c = true) → (∀ d ∈ (cs ++ t).head?, isVariableChar d = false) →
      Cuts t cs ps → Cuts t ('$' :: (name ++ cs)) (.reference name :: ps)

variable {cs s t name : List Char} {ps : List Piece}

lemma pieces_dollar (h : ∀ d ∈ cs.head?, d ≠ '{') :
    pieces ('$' :: cs) = if (cs.takeWhile isVariableChar).isEmpty then .plain '$' :: pieces cs
      else .reference (cs.takeWhile isVariableChar) :: pieces (cs.dropWhile isVariableChar) := by
  rw [pieces]
  rintro rest rfl
  exact h '{' rfl rfl

lemma pieces_braced (hname : '}' ∉ name) :
    pieces ('$' :: '{' :: name) = [.reference name] ∧ ∀ cs,
      pieces ('$' :: '{' :: (name ++ '}' :: cs)) = .reference name :: pieces cs := by
  have hrun : ∀ c ∈ name, decide (c ≠ '}') = true := fun c hc =>
    decide_eq_true (ne_of_mem_of_not_mem hc hname)
  refine ⟨?_, fun cs => ?_⟩
  · have h := run_append hrun (fun c (hc : c ∈ [].head?) => by cases hc)
    rw [append_nil] at h
    rw [pieces, h.1, h.2, drop_nil, pieces]
  · obtain ⟨htake, hdrop⟩ : _ ∧ (name ++ '}' :: cs).dropWhile (· ≠ '}') = '}' :: cs :=
      run_append hrun (by simp)
    rw [pieces, htake, hdrop, drop_one, tail_cons]

/-- **The pieces that a text is cut into** come first, and those of the text behind it follow. -/
lemma Cuts.pieces_append (h : Cuts t s ps) : pieces (s ++ t) = ps ++ pieces t := by
  induction h with
  | nil => rfl
  | char hc _ ih =>
    rw [cons_append, cons_append, ← ih, pieces]
    · simp_all
    · simp_all
  | @dollar cs ps hhead _ ih =>
    have hrun : (cs ++ t).takeWhile isVariableChar = [] := by
      cases hcs : cs ++ t <;> simp_all
    simp [pieces_dollar fun d hd => (hhead d hd).1, hrun, ih]
  | braced hname _ ih => simp [(pieces_braced hname).2, ih]
  | unclosed hname ht => simp [(pieces_braced hname).1, ht, pieces]
  | @bare name cs ps hne hname hhead _ ih =>
    obtain ⟨htake, hdrop⟩ := run_append hname hhead
    have hopen : ∀ d ∈ (name ++ (cs ++ t)).head?, d ≠ '{' := by
      rw [head?_append_of_ne_nil _ hne]
      rintro d hd rfl
      exact absurd (hname _ (mem_of_mem_head? hd)) (by decide)
    simp [pieces_dollar hopen, htake, hdrop, hne, ih]

/-- What stands behind a text only matters for where it ends. -/
lemma Cuts.alone (h : Cuts t s ps) : Cuts [] s ps := by
  have hhead : ∀ {cs : List Char} {p : Char → Prop}, (∀ d ∈ (cs ++ t).head?, p d) →
      ∀ d ∈ (cs ++ []).head?, p d := by
    intro cs p h
    cases cs <;> simp_all
  induction h with
  | nil => exact .nil
  | char hc _ ih => exact .char hc ih
  | dollar hd _ ih => exact .dollar (hhead hd) ih
  | braced hname _ ih => exact .braced hname ih
  | unclosed hname _ => exact .unclosed hname rfl
  | bare hne hname hd _ ih => exact .bare hne hname (hhead hd) ih

lemma cuts_pieces (s : List Char) : Cuts [] s (pieces s) := by
  fun_induction pieces s with
  | case1 => exact .nil
  | case2 cs ih =>
    obtain ⟨name, rest, htake, hdrop, rfl, hname, hhead⟩ := exists_run (· ≠ '}') cs
    rw [hdrop] at ih
    rw [htake, hdrop]
    have hname : '}' ∉ name := fun h => by simpa using hname _ h
    cases rest with
    | nil => simpa [pieces] using Cuts.unclosed hname rfl
    | cons d rest =>
      obtain rfl : d = '}' := by simpa using hhead d rfl
      exact .braced hname ih
  | case3 cs hopen hrun ih =>
    refine .dollar (fun d hd => ?_) ih
    cases cs with
    | nil => cases hd
    | cons c cs =>
      cases hd
      exact ⟨fun h => hopen cs (by rw [h]), by simpa using hrun⟩
  | case4 cs hopen hrun ih =>
    obtain ⟨name, rest, htake, hdrop, rfl, hname, hhead⟩ := exists_run isVariableChar cs
    rw [htake] at hrun ⊢
    rw [hdrop] at ih ⊢
    exact .bare (by simpa using hrun) hname (by simpa using hhead) ih
  | case5 c cs _ hc ih => exact .char hc ih

/-! ### Expansion -/

/-- A character stays, and a reference becomes the value of its variable. -/
def Piece.replaced (env : String → Option String) : Piece → String
  | .plain c => String.ofList [c]
  | .reference name => (env (String.ofList name)).getD ""

/-- The first variable of a list of pieces that is not set. -/
def unset? (env : String → Option String) (ps : List Piece) : Option String :=
  (ps.filterMap Piece.name?).find? fun name => (env name).isNone

/-- The pieces are replaced from left to right, and the first one that cannot be is reported. -/
lemma mapM_text (env : String → Option String) (ps : List Piece) :
    ps.mapM (Piece.text env) = (unset? env ps).elim (.ok (ps.map (Piece.replaced env))) .error := by
  induction ps with
  | nil => rfl
  | cons p ps ih =>
    rw [mapM_cons, ih]
    cases p with
    | plain c =>
      change _ = (unset? env ps).elim _ _
      cases unset? env ps <;> rfl
    | reference name =>
      cases hvalue : env (String.ofList name) with
      | none => simp [Piece.text, unset?, Piece.name?, hvalue, bind, Except.bind]
      | some value =>
        have hunset : unset? env (.reference name :: ps) = unset? env ps := by
          simp [unset?, Piece.name?, hvalue]
        have htext : Piece.text env (.reference name) = .ok value := by simp [Piece.text, hvalue]
        rw [hunset, htext]
        cases unset? env ps with
        | none => simp [Piece.replaced, hvalue, bind, Except.bind, pure, Except.pure]
        | some => rfl

/-- **The expansion of a text** replaces its references from left to right. Every text is cut into
pieces in one way, which settles its expansion: the values of the variables stand in the places of
their references as they are, or the first variable that is not set is reported. A text that is cut
between two pieces is expanded part by part. -/
theorem expand_substitutes (env : String → Option String) :
    (∀ (s : String) ps, Cuts [] s.toList ps ↔ ps = pieces s.toList) ∧
    (∀ (s : String) ps, Cuts [] s.toList ps → expand env s =
      (unset? env ps).elim (.ok (String.join (ps.map (Piece.replaced env)))) .error) ∧
    ∀ (s t : String) ps, Cuts t.toList s.toList ps →
      expand env (s ++ t) = do return (← expand env s) ++ (← expand env t) := by
  have hpieces : ∀ {s : List Char} {ps}, Cuts [] s ps → pieces s = ps := by
    intro s ps h
    simpa [pieces] using h.pieces_append
  refine ⟨fun s ps => ⟨fun h => (hpieces h).symm, ?_⟩, fun s ps h => ?_, fun s t ps h => ?_⟩
  · rintro rfl
    exact cuts_pieces s.toList
  · rw [expand, hpieces h, mapM_text]
    cases unset? env ps <;> rfl
  · rw [expand, String.toList_append, h.pieces_append, expand, hpieces h.alone, expand, mapM_append]
    cases ps.mapM (Piece.text env) with
    | error name => rfl
    | ok texts =>
      cases (pieces t.toList).mapM (Piece.text env) with
      | error name => rfl
      | ok more => exact congrArg Except.ok (by simp [String.join_append])

/-- A value with a reference in it, and a `$` that stands for itself. -/
theorem expand_substitutes_value :
    Cuts "$A".toList "$\x7bA\x7d$-".toList [.reference ['A'], .plain '$', .plain '-'] ∧
      expand (fun _ => some "$B") ("$\x7bA\x7d$-" ++ "$A") = .ok "$B$-$B" := by
  have hcut : Cuts "$A".toList "$\x7bA\x7d$-".toList
      [.reference ['A'], .plain '$', .plain '-'] := by
    refine .braced (show '}' ∉ ['A'] by decide) (.dollar ?_ (.char (by decide) .nil))
    rintro d ⟨⟩
    decide
  exact ⟨hcut, ((expand_substitutes _).2.2 _ _ _ hcut).trans (by decide +kernel)⟩

end StagedSql
