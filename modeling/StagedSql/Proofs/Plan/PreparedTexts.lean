import StagedSql.Plan.Statement
import StagedSql.Proofs.Sql.RenderedLexemes

/-!
The texts of a query after the settings of a session.
-/

namespace StagedSql

open List

/-- The lexemes of a setting: those of a role, or of a name between dots and of its value. -/
def SetLocal.lexemes : SetLocal → List Lexeme
  | .role name => [.word "SET", .word "LOCAL", .word "ROLE", .name name]
  | .var name value => [.word "SET", .word "LOCAL"] ++
      [.symbol "."].intercalate
        ((splitAtChar '.' name.toList).map fun part => [.name (String.ofList part)]) ++
      [.word "TO", .string value.plainText]

/-- The settings of a session in order: its role, and its variables. -/
def Session.setLocals (session : Session) : List SetLocal :=
  session.role.toList.map .role ++ session.vars.map fun var => .var var.1 var.2

/-- The tokens of a name are quoted words and dots, which are read as names and dots. -/
lemma dotted_tokens (parts : List (List Char)) (ts : List Token) :
    let tokens := tokensBetween [.symbol .dot] (parts.map fun part => [.ident (String.ofList part)])
    (∀ t ∈ tokens, t.param? = none ∧ t.Plain) ∧ tokenLexemes 0 (tokens ++ ts) =
      [.symbol "."].intercalate (parts.map fun part => [.name (String.ofList part)]) ++
        tokenLexemes 0 ts := by
  induction parts with
  | nil => exact ⟨nofun, rfl⟩
  | cons part rest ih =>
    cases rest with
    | nil => exact ⟨by simp [tokensBetween, Token.param?, Token.Plain], rfl⟩
    | cons next rest =>
      refine ⟨by simpa [tokensBetween, Token.param?, Token.Plain] using ih.1, ?_⟩
      simp only [map_cons, intercalate_cons_cons, append_assoc] at ih ⊢
      exact congrArg ([.name (String.ofList part), .symbol "."] ++ ·) ih.2

/-- A setting has no parameters, and is read with its names and its value as they are. -/
lemma SetLocal.tokens_lexemes (s : SetLocal) :
    (∀ t ∈ s.tokens, t.param? = none ∧ t.Plain) ∧ tokenLexemes 0 s.tokens = s.lexemes := by
  cases s with
  | role name => exact ⟨by simp [tokens, word, Token.param?, Token.Plain], rfl⟩
  | var name value =>
    obtain ⟨hname, hlexemes⟩ := dotted_tokens (splitAtChar '.' name.toList)
      (innerWord .TO ++ [.string value.plainText])
    constructor
    · simp only [tokens, forall_mem_append]
      refine ⟨⟨⟨?_, hname⟩, ?_⟩, ?_⟩ <;> simp [word, innerWord, Token.param?, Token.Plain]
    · rw [tokens, append_assoc, append_assoc]
      exact congrArg ([.word "SET", .word "LOCAL"] ++ ·) hlexemes

/-- **The text of a setting is read as this setting** and nothing else, whatever its role or value
is. -/
lemma lex_setLocal (placeholder : Placeholder) (s : SetLocal) :
    ((Statement.setLocal s).render placeholder).args = [] ∧
      lex ((Statement.setLocal s).render placeholder).sql.toList = some s.lexemes := by
  obtain ⟨htokens, hlexemes⟩ := s.tokens_lexemes
  have hbare : ∀ t ∈ s.tokens, t.param? = none := fun t ht => (htokens t ht).1
  refine ⟨filterMap_eq_nil_iff.mpr hbare, ?_⟩
  have hlex := lex_tokenTexts (phrase_setLocal s).separated (fun t ht => (htokens t ht).2) 0
  rw [tokenTexts_bare hbare, ← tokenTexts_bare hbare placeholder 0, ← String.toList_join,
    hlexemes] at hlex
  exact hlex

/-- **A statement after the settings of a session**, which is as it was if there are none. -/
lemma Session.wrap_eq_ok {session : Session} {statement wrapped : Statement} :
    session.wrap statement = .ok wrapped ↔ ((∀ role ∈ session.role, role ≠ "") ∧
      ∀ var ∈ session.vars, isDottedName var.1 = true ∧ isScalar var.2 = true) ∧
        wrapped = if session.isEmpty then statement
          else .sequence (session.setLocals.map .setLocal ++ [statement]) := by
  have hsettings : session.setLocals.map .setLocal =
      session.role.toList.map (fun role => Statement.setLocal (.role role)) ++
        session.vars.map fun var => .setLocal (.var var.1 var.2) := by
    simp [setLocals, Function.comp_def]
  rw [wrap, hsettings]
  by_cases hempty : session.isEmpty = true
  · have hnone : session.role = none ∧ session.vars = [] := by simpa [isEmpty] using hempty
    rw [if_pos hempty, if_pos hempty, hnone.1, hnone.2]
    exact ⟨fun h => ⟨by simp, by cases h; rfl⟩, fun h => by rw [h.2]; rfl⟩
  · rw [if_neg hempty, if_neg hempty]
    constructor
    · intro h
      obtain ⟨settings, hsettings, h⟩ := Except.bind_ok h
      obtain ⟨hok, rfl⟩ := settings_eq_ok.mp hsettings
      cases h
      exact ⟨hok, rfl⟩
    · rintro ⟨hok, rfl⟩
      rw [settings_eq_ok.mpr ⟨hok, rfl⟩]
      rfl

lemma Query.parts_toStatement {g : Graph} {q : Query} {statement : Statement}
    (h : q.toStatement g = .ok statement) : statement.parts = [statement] := by
  obtain ⟨⟨scan, s⟩, -, h⟩ := Except.bind_ok h
  cases h
  rw [withStages]
  split <;> rfl

/-- **Sessions frame a statement and leave it as it is.** A query is prepared if and only if it
compiles, the role has a name, and each variable has a name of words joined by dots and a value that
is neither an array nor a document. The last text is that of the query without a session. Before it
there is a text for each setting, without parameters, which is read as this setting and nothing
else. -/
theorem prepare_frames_statement (g : Graph) (session : Session) (placeholder : Placeholder)
    (q : Query) :
    ((∃ batch, q.prepare g session placeholder = .ok batch) ↔
      (∃ rendered, q.compile g placeholder = .ok rendered) ∧
        (∀ role ∈ session.role, role ≠ "") ∧ ∀ var ∈ session.vars,
          (∃ first rest, (∀ w ∈ first :: rest, isWord w = true) ∧
            var.1.toList = first ++ rest.flatMap ('.' :: ·)) ∧ Session.isScalar var.2 = true) ∧
      ∀ batch, q.prepare g session placeholder = .ok batch →
        ∃ rendered, q.compile g placeholder = .ok rendered ∧ batch.main? = some rendered ∧
          Forall₂ (fun (s : SetLocal) text => text.args = [] ∧ lex text.sql.toList = some s.lexemes)
            session.setLocals batch.prelude := by
  simp only [← isDottedName_iff]
  constructor
  · constructor
    · rintro ⟨batch, h⟩
      obtain ⟨statement, hstatement, h⟩ := Except.bind_ok h
      obtain ⟨wrapped, hwrapped, -⟩ := Except.bind_ok h
      refine ⟨⟨statement.render placeholder, ?_⟩, (Session.wrap_eq_ok.mp hwrapped).1⟩
      rw [Query.compile, hstatement]
      rfl
    · rintro ⟨⟨rendered, h⟩, hok⟩
      obtain ⟨statement, hstatement, -⟩ := Except.bind_ok h
      rw [Query.prepare, hstatement]
      change ∃ batch, (session.wrap statement >>= _ : Except Error Batch) = .ok batch
      rw [Session.wrap_eq_ok.mpr ⟨hok, rfl⟩]
      exact ⟨_, rfl⟩
  · intro batch h
    obtain ⟨statement, hstatement, h⟩ := Except.bind_ok h
    obtain ⟨wrapped, hwrapped, h⟩ := Except.bind_ok h
    cases h
    refine ⟨statement.render placeholder, by rw [Query.compile, hstatement]; rfl, ?_⟩
    rw [Batch.main?, Batch.prelude, Statement.batch, (Session.wrap_eq_ok.mp hwrapped).2]
    split
    · rename_i hempty
      have hnone : session.setLocals = [] := by
        simpa [Session.isEmpty, Session.setLocals] using hempty
      rw [Query.parts_toStatement hstatement, hnone]
      exact ⟨rfl, .nil⟩
    · rw [Statement.parts, map_append, map_singleton, getLast?_concat, dropLast_concat, map_map]
      refine ⟨rfl, ?_⟩
      rw [forall₂_map_right_iff]
      exact forall₂_same.mpr fun s _ => lex_setLocal placeholder s

/-- A role and a value with quotes in them. -/
theorem prepare_frames_statement_quoted :
    ∃ batch, Query.prepare (.empty 0 ⟨0, [⟨"item", [.primary "id"]⟩]⟩)
        ⟨some "o\"k", [("app.user", .text "' OR '")]⟩ .numbered ⟨0, .relation ⟨0, 0⟩, []⟩ =
          .ok batch ∧
      batch.prelude.map (fun text => lex text.sql.toList) =
        [some [.word "SET", .word "LOCAL", .word "ROLE", .name "o\"k"],
          some [.word "SET", .word "LOCAL", .name "app", .symbol ".", .name "user", .word "TO",
            .string "' OR '"]] := by
  refine ⟨_, rfl, ?_⟩
  obtain ⟨-, -, -, hprelude⟩ := (prepare_frames_statement _ _ _ _).2 _ (rfl : Query.prepare
    (.empty 0 ⟨0, [⟨"item", [.primary "id"]⟩]⟩) ⟨some "o\"k", [("app.user", .text "' OR '")]⟩
      .numbered ⟨0, .relation ⟨0, 0⟩, []⟩ = _)
  cases hprelude with
  | cons hrole hrest =>
    cases hrest with
    | cons hvar hrest => exact congrArg₂ (fun role var => [role, var]) hrole.2 hvar.2

end StagedSql
