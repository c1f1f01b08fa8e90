import Mathlib.Data.List.Chain
import StagedSql.Sql.Tokens

/-!
How the tokens of statements are put together, and how a condition is read.

The parentheses of a text are matched first. Then OR separates the alternatives of a condition and
AND the conjuncts of an alternative, NOT negates what stands behind it, and what is left is the
comparison of a column.
-/

namespace StagedSql

open List

/-! ### Phrases -/

/-- A blank, or a mark that is no parenthesis: nothing runs together with it. -/
def Token.isGap : Token → Bool
  | .space | .symbol .comma | .symbol .dot | .symbol .semicolon => true
  | _ => false

def Token.isParen : Token → Bool
  | .symbol .leftParen | .symbol .rightParen => true
  | _ => false

lemma Token.isGap_cases {t : Token} (h : t.isGap = true) :
    t = .space ∨ t = .symbol .comma ∨ t = .symbol .dot ∨ t = .symbol .semicolon := by
  revert h
  fun_cases Token.isGap <;> simp

/-- **Tokens that are put together** from single ones, with a gap or parentheses between any two. -/
inductive Phrase : List Token → Prop
  | nil : Phrase []
  | single {t : Token} (h : t.isParen = false) : Phrase [t]
  | gap {t : Token} {ts us : List Token} (h : t.isGap = true) (hts : Phrase ts) (hus : Phrase us) :
      Phrase (ts ++ t :: us)
  | group {ts us vs : List Token} (hts : Phrase ts) (hus : Phrase us) (hvs : Phrase vs) :
      Phrase (ts ++ parenthesized us ++ vs)

/-- Tokens that may be put behind a phrase. -/
def Tail (us : List Token) : Prop := ∀ ts, Phrase ts → Phrase (ts ++ us)

section Pieces

variable {ts us separator : List Token} {t : Token} {tss : List (List Token)}

lemma Tail.phrase (h : Tail us) : Phrase us := h _ .nil

lemma tail_nil : Tail [] := fun _ h => by rwa [append_nil]

lemma Tail.append (hts : Tail ts) (hus : Tail us) : Tail (ts ++ us) := fun _ h => by
  rw [← append_assoc]
  exact hus _ (hts _ h)

lemma Phrase.afterGap (h : Phrase us) (ht : t.isGap = true) : Tail (t :: us) :=
  fun _ hts => .gap ht hts h

lemma Phrase.inParens (h : Phrase us) : Tail (parenthesized us) := fun _ hts => by
  simpa using Phrase.group hts h .nil

lemma Phrase.afterWord (h : Phrase us) (k : Keyword) : Phrase (word k ++ us) :=
  .gap rfl (.single rfl) h

lemma Phrase.afterInnerWord (h : Phrase us) (k : Keyword) : Tail (innerWord k ++ us) :=
  (h.afterWord k).afterGap rfl

lemma Phrase.operator (hts : Phrase ts) (hus : Phrase us) (ht : t.isParen = false) :
    Phrase (ts ++ [.space, t, .space] ++ us) := by
  rw [append_assoc]
  exact .gap rfl hts (.gap rfl (.single ht) hus)

lemma phrase_between (hsep : ∀ {us}, Phrase us → Tail (separator ++ us))
    (h : ∀ ts ∈ tss, Phrase ts) : Phrase (tokensBetween separator tss) := by
  induction tss with
  | nil => exact .nil
  | cons ts rest ih =>
    rw [forall_mem_cons] at h
    cases rest with
    | nil => exact h.1
    | cons us rest =>
      rw [tokensBetween, append_assoc]
      · exact hsep (ih h.2) _ h.1
      · simp

lemma phrase_commaSeparated (h : ∀ ts ∈ tss, Phrase ts) : Phrase (commaSeparated tss) :=
  phrase_between (fun hus => (hus.afterGap rfl).phrase.afterGap rfl) h

lemma phrase_nameList (names : List String) : Phrase (nameList names) := by
  refine phrase_commaSeparated fun ts hts => ?_
  obtain ⟨name, -, rfl⟩ := mem_map.mp hts
  exact .single rfl

lemma tail_labelTokens (label : Option String) : Tail (labelTokens label) := by
  cases label with
  | none => exact tail_nil
  | some label => exact (Phrase.single rfl).afterInnerWord .AS

lemma Phrase.qualified (h : Phrase ts) (table : Option String) :
    Phrase (qualifierTokens table ++ ts) := by
  cases table with
  | none => exact h
  | some table => exact .gap rfl (.single rfl) h

lemma tail_negationTokens (negated : Bool) : Tail (negationTokens negated) := by
  cases negated with
  | false => exact tail_nil
  | true => exact (Phrase.single rfl).afterGap rfl

lemma tail_countTokens (k : Keyword) (n : Option UInt64) : Tail (countTokens k n) := by
  cases n with
  | none => exact tail_nil
  | some n => exact (Phrase.single rfl).afterInnerWord k

lemma tail_listClause (k : Keyword) (h : ∀ ts ∈ tss, Phrase ts) : Tail (listClause k tss) := by
  cases tss with
  | nil => exact tail_nil
  | cons ts tss => exact (phrase_commaSeparated h).afterInnerWord k

lemma tail_returning (r : Returning) : Tail r.tokens := by
  cases r with
  | nothing => exact tail_nil
  | all => exact (Phrase.single rfl).afterInnerWord .RETURNING
  | columns names => exact (phrase_nameList names).afterInnerWord .RETURNING

lemma phrase_setLocal (s : SetLocal) : Phrase s.tokens := by
  cases s with
  | role name => exact (((Phrase.single rfl).afterWord .ROLE).afterWord .LOCAL).afterWord .SET
  | var name value =>
    have hname : Phrase (tokensBetween [.symbol .dot]
        ((splitAtChar '.' name.toList).map fun part => [.ident (String.ofList part)])) := by
      refine phrase_between (fun hus => hus.afterGap rfl) fun ts hts => ?_
      obtain ⟨part, -, rfl⟩ := mem_map.mp hts
      exact .single rfl
    have hvalue : Tail (innerWord .TO ++ [.string value.plainText]) :=
      (Phrase.single rfl).afterInnerWord .TO
    simp only [SetLocal.tokens, append_assoc]
    exact ((hvalue _ hname).afterWord .LOCAL).afterWord .SET

lemma BinaryOp.isParen_token (op : BinaryOp) : op.token.isParen = false := by
  cases op <;> rfl

lemma Literal.isParen_token (l : Literal) : l.token.isParen = false := by
  rcases l with _ | _ | (_ | _) | _ <;> rfl

end Pieces

/-! ### Trees -/

section Trees

mutual

theorem Expr.tokens_phrase : ∀ e : Expr, Phrase e.tokens
  | .column table name => (Phrase.single rfl).qualified table
  | .literal l => .single l.isParen_token
  | .param v => .single rfl
  | .binary op l r => l.tokens_phrase.operator r.tokens_phrase op.isParen_token
  | .not e => e.tokens_phrase.afterWord .NOT
  | .call function args ordering => by
    have hargs := phrase_commaSeparated (Expr.tokenLists_phrase args)
    have hordering := tail_listClause .ORDER_BY (OrderItem.tokenLists_phrase ordering)
    exact (hordering _ hargs).inParens _ (.single rfl)
  | .cast e type => by
    rw [Expr.tokens, append_assoc]
    have htype : Tail (innerWord .AS ++ [.typeName type]) := (Phrase.single rfl).afterInnerWord .AS
    exact (htype _ e.tokens_phrase).inParens _ (.single rfl)
  | .subquery query => query.tokens_phrase.inParens.phrase
  | .existence negated query => by
    have hexists := query.tokens_phrase.inParens.phrase.afterWord .EXISTS
    cases negated with
    | false => exact hexists
    | true => exact hexists.afterWord .NOT
  | .inList negated e [] => .single rfl
  | .inList negated e (item :: items) => by
    rw [Expr.tokens, append_assoc, append_assoc]
    have hitems : ∀ ts ∈ item.tokens :: Expr.tokenLists items, Phrase ts :=
      forall_mem_cons.mpr ⟨item.tokens_phrase, Expr.tokenLists_phrase items⟩
    have hin := (phrase_commaSeparated hitems).inParens.phrase.afterInnerWord .IN
    exact (tail_negationTokens negated).append hin _ e.tokens_phrase
  | .inQuery negated e query => by
    rw [Expr.tokens, append_assoc, append_assoc]
    have hin := query.tokens_phrase.inParens.phrase.afterInnerWord .IN
    exact (tail_negationTokens negated).append hin _ e.tokens_phrase
  | .isNull negated e => .gap rfl e.tokens_phrase (.single rfl)
  | .like negated e pattern escape => by
    have hescape : Tail (innerWord .ESCAPE ++ [.string (String.singleton escape)]) :=
      (Phrase.single rfl).afterInnerWord .ESCAPE
    have hlike := (hescape _ pattern.tokens_phrase).afterInnerWord .LIKE
    simp only [Expr.tokens, append_assoc]
    exact (tail_negationTokens negated).append hlike _ e.tokens_phrase
  | .star table => (Phrase.single rfl).qualified table
  | .paren e => e.tokens_phrase.inParens.phrase

theorem Expr.tokenLists_phrase : ∀ es : List Expr, ∀ ts ∈ Expr.tokenLists es, Phrase ts
  | [] => by simp [Expr.tokenLists]
  | e :: rest => by
    rw [Expr.tokenLists, forall_mem_cons]
    exact ⟨e.tokens_phrase, Expr.tokenLists_phrase rest⟩

theorem Expr.clause_tail (k : Keyword) : ∀ e : Option Expr, Tail (Expr.clause k e)
  | none => tail_nil
  | some e => e.tokens_phrase.afterInnerWord k

theorem Expr.rowLists_phrase : ∀ rows : List (List Expr), ∀ ts ∈ Expr.rowLists rows, Phrase ts
  | [] => by simp [Expr.rowLists]
  | row :: rest => by
    rw [Expr.rowLists, forall_mem_cons]
    exact ⟨(phrase_commaSeparated (Expr.tokenLists_phrase row)).inParens.phrase,
      Expr.rowLists_phrase rest⟩

theorem OrderItem.tokens_phrase : ∀ item : OrderItem, Phrase item.tokens
  | ⟨e, none⟩ => e.tokens_phrase
  | ⟨e, some d⟩ => by
    exact .gap rfl e.tokens_phrase (.single rfl)

theorem OrderItem.tokenLists_phrase :
    ∀ items : List OrderItem, ∀ ts ∈ OrderItem.tokenLists items, Phrase ts
  | [] => by simp [OrderItem.tokenLists]
  | item :: rest => by
    rw [OrderItem.tokenLists, forall_mem_cons]
    exact ⟨item.tokens_phrase, OrderItem.tokenLists_phrase rest⟩

theorem SelectItem.tokens_phrase : ∀ item : SelectItem, Phrase item.tokens
  | ⟨e, label⟩ => tail_labelTokens label _ e.tokens_phrase

theorem SelectItem.tokenLists_phrase :
    ∀ items : List SelectItem, ∀ ts ∈ SelectItem.tokenLists items, Phrase ts
  | [] => by simp [SelectItem.tokenLists]
  | item :: rest => by
    rw [SelectItem.tokenLists, forall_mem_cons]
    exact ⟨item.tokens_phrase, SelectItem.tokenLists_phrase rest⟩

theorem FromItem.tokens_phrase : ∀ item : FromItem, Phrase item.tokens
  | .table name label => tail_labelTokens label _ (.single rfl)
  | .derived query label columns => by
    rw [FromItem.tokens]
    have hlabel := tail_labelTokens (some label) _ query.tokens_phrase.inParens.phrase
    split
    · exact tail_nil _ hlabel
    · exact (phrase_nameList columns).inParens _ hlabel

theorem FromItem.clause_tail : ∀ item : Option FromItem, Tail (FromItem.clause item)
  | none => tail_nil
  | some item => item.tokens_phrase.afterInnerWord .FROM

theorem Join.tokens_phrase : ∀ join : Join, Phrase join.tokens
  | ⟨kind, lateral, item, condition⟩ => by
    have hitem := Expr.clause_tail .ON condition _ item.tokens_phrase
    cases lateral with
    | false => exact (hitem.afterWord .JOIN).afterWord kind.keyword
    | true => exact ((hitem.afterWord .LATERAL).afterWord .JOIN).afterWord kind.keyword

theorem Join.clauses_tail : ∀ joins : List Join, Tail (Join.clauses joins)
  | [] => tail_nil
  | join :: rest => (Join.clauses_tail rest _ join.tokens_phrase).afterGap rfl

/-- What stands behind the first word of a SELECT is a phrase. -/
theorem Select.tokens_phrase : ∀ s : Select, ∃ ts, s.tokens = word .SELECT ++ ts ∧ Phrase ts
  | ⟨projection, source, joins, condition, ordering, limit, offset⟩ => by
    have hprojection : Phrase (if projection.isEmpty then [.symbol .star]
        else commaSeparated (SelectItem.tokenLists projection)) := by
      split
      · exact .single rfl
      · exact phrase_commaSeparated (SelectItem.tokenLists_phrase projection)
    have hsource := FromItem.clause_tail source _ hprojection
    have hwhere := Expr.clause_tail .WHERE condition _ (Join.clauses_tail joins _ hsource)
    have hordering := tail_listClause .ORDER_BY (OrderItem.tokenLists_phrase ordering) _ hwhere
    exact ⟨_, rfl, tail_countTokens .OFFSET offset _ (tail_countTokens .LIMIT limit _ hordering)⟩

theorem InsertSource.tokens_tail : ∀ source : InsertSource, Tail source.tokens
  | .rows rows => (phrase_commaSeparated (Expr.rowLists_phrase rows)).afterInnerWord .VALUES
  | .query query => query.tokens_phrase.afterGap rfl
  | .defaults => (Phrase.single rfl).afterInnerWord .DEFAULT

theorem Insert.tokens_phrase : ∀ s : Insert, Phrase s.tokens
  | ⟨table, columns, source, returning⟩ => by
    have htable : Phrase (word .INSERT ++ word .INTO ++ [.ident table]) :=
      ((Phrase.single rfl).afterWord .INTO).afterWord .INSERT
    refine tail_returning returning _ (source.tokens_tail _ ?_)
    split
    · exact tail_nil _ htable
    · exact tail_nil _ htable
    · exact (phrase_nameList columns).inParens.phrase.afterGap rfl _ htable

theorem Assignment.tokenLists_phrase :
    ∀ items : List Assignment, ∀ ts ∈ Assignment.tokenLists items, Phrase ts
  | [] => by simp [Assignment.tokenLists]
  | ⟨column, value⟩ :: rest => by
    rw [Assignment.tokenLists, forall_mem_cons]
    exact ⟨(Phrase.single (t := .ident column) rfl).operator value.tokens_phrase rfl,
      Assignment.tokenLists_phrase rest⟩

theorem Assignments.tokens_phrase : ∀ a : Assignments, Phrase a.tokens
  | .columns items => phrase_commaSeparated (Assignment.tokenLists_phrase items)
  | .query columns query =>
    (phrase_nameList columns).inParens.phrase.operator query.tokens_phrase.inParens.phrase rfl

theorem Update.tokens_phrase : ∀ s : Update, Phrase s.tokens
  | ⟨table, assignments, condition, returning⟩ => by
    have htable : Phrase (word .UPDATE ++ [.ident table]) := (Phrase.single rfl).afterWord .UPDATE
    exact tail_returning returning _ (Expr.clause_tail .WHERE condition _
      (assignments.tokens_phrase.afterInnerWord .SET _ htable))

theorem Delete.tokens_phrase : ∀ s : Delete, Phrase s.tokens
  | ⟨table, condition, returning⟩ => by
    have htable : Phrase (word .DELETE ++ word .FROM ++ [.ident table]) :=
      ((Phrase.single rfl).afterWord .FROM).afterWord .DELETE
    exact tail_returning returning _ (Expr.clause_tail .WHERE condition _ htable)

theorem Cte.tokenLists_phrase : ∀ ctes : List Cte, ∀ ts ∈ Cte.tokenLists ctes, Phrase ts
  | [] => by simp [Cte.tokenLists]
  | ⟨name, statement⟩ :: rest => by
    rw [Cte.tokenLists, forall_mem_cons]
    exact ⟨statement.tokens_phrase.inParens.phrase.afterInnerWord .AS _ (.single rfl),
      Cte.tokenLists_phrase rest⟩

/-- **The tokens of a statement are a phrase.** -/
theorem Statement.tokens_phrase : ∀ s : Statement, Phrase s.tokens
  | .select s => by
    obtain ⟨ts, hts, hphrase⟩ := s.tokens_phrase
    rw [Statement.tokens, hts]
    exact hphrase.afterWord .SELECT
  | .insert s => s.tokens_phrase
  | .update s => s.tokens_phrase
  | .delete s => s.tokens_phrase
  | .values rows => (phrase_commaSeparated (Expr.rowLists_phrase rows)).afterWord .VALUES
  | .union all members => by
    refine phrase_between (fun hus => ?_) (Statement.tokenLists_phrase members)
    cases all with
    | false => exact hus.afterInnerWord .UNION
    | true => exact (hus.afterWord .ALL).afterInnerWord .UNION
  | .withCtes recursive ctes body => by
    rw [Statement.tokens]
    have hctes := body.tokens_phrase.afterGap (t := .space) rfl _
      (phrase_commaSeparated (Cte.tokenLists_phrase ctes))
    split
    · exact body.tokens_phrase
    · simp only [append_assoc]
      cases recursive with
      | false => exact hctes.afterWord .WITH
      | true => exact (hctes.afterWord .RECURSIVE).afterWord .WITH
  | .setLocal s => phrase_setLocal s
  | .sequence parts =>
    phrase_between (fun hus => (hus.afterGap rfl).phrase.afterGap rfl)
      (Statement.tokenLists_phrase parts)

theorem Statement.tokenLists_phrase :
    ∀ parts : List Statement, ∀ ts ∈ Statement.tokenLists parts, Phrase ts
  | [] => by simp [Statement.tokenLists]
  | s :: rest => by
    rw [Statement.tokenLists, forall_mem_cons]
    exact ⟨s.tokens_phrase, Statement.tokenLists_phrase rest⟩

end

end Trees

/-! ### Parentheses -/

/-- A token, or what stands in parentheses. -/
inductive Tree where
  | token (t : Token)
  | group (inside : List Tree)

variable {ps qs : List Tree}

/-- Matches the parentheses of tokens behind the trees `here`, which stand in as many parentheses as
there are lists around them. -/
def nestFrom (around : List (List Tree)) (here : List Tree) : List Token → Option (List Tree)
  | [] => if around.isEmpty then some here else none
  | .space :: rest => nestFrom around here rest
  | .symbol .leftParen :: rest => nestFrom (here :: around) [] rest
  | .symbol .rightParen :: rest =>
    match around with
    | [] => none
    | outer :: around => nestFrom around (outer ++ [.group here]) rest
  | t :: rest => nestFrom around (here ++ [.token t]) rest

/-- The trees of tokens; nothing if the parentheses do not match. -/
def nest (ts : List Token) : Option (List Tree) := nestFrom [] [] ts

/-- Tokens that have trees wherever they stand. -/
def Nests (ts : List Token) (ps : List Tree) : Prop :=
  ∀ around here rest, nestFrom around here (ts ++ rest) = nestFrom around (here ++ ps) rest

section Nesting

variable {ts us : List Token}

lemma nests_nil : Nests [] [] := fun _ _ _ => by rw [nil_append, append_nil]

lemma Nests.append (hts : Nests ts ps) (hus : Nests us qs) : Nests (ts ++ us) (ps ++ qs) :=
  fun around here rest => by rw [append_assoc, hts, hus, append_assoc]

lemma nests_space : Nests [.space] [] := fun _ _ _ => by
  rw [singleton_append, append_nil, nestFrom]

lemma nests_token {t : Token} (hparen : t.isParen = false) (hspace : t ≠ .space) :
    Nests [t] [.token t] := by
  intro around here rest
  rw [singleton_append, nestFrom]
  · exact hspace
  · rintro rfl
    cases hparen
  · rintro rfl
    cases hparen

lemma Nests.inParens (h : Nests ts ps) : Nests (parenthesized ts) [.group ps] := by
  intro around here rest
  have hopen : parenthesized ts ++ rest =
      .symbol .leftParen :: (ts ++ .symbol .rightParen :: rest) := by
    simp [parenthesized]
  rw [hopen, nestFrom, h, nestFrom, nil_append]

lemma nests_word (k : Keyword) : Nests (word k) [.token (.keyword k)] :=
  (nests_token rfl (by simp)).append nests_space

lemma nests_innerWord (k : Keyword) : Nests (innerWord k) [.token (.keyword k)] :=
  nests_space.append (nests_word k)

/-- **The parentheses of a phrase match.** -/
lemma Phrase.nests (h : Phrase ts) : ∃ ps, Nests ts ps := by
  induction h with
  | nil => exact ⟨[], nests_nil⟩
  | @single t h =>
    by_cases hspace : t = .space
    · exact ⟨[], hspace ▸ nests_space⟩
    · exact ⟨_, nests_token h hspace⟩
  | @gap t ts us h _ _ hts hus =>
    obtain ⟨ps, hps⟩ := hts
    obtain ⟨qs, hqs⟩ := hus
    obtain ⟨rs, hrs⟩ : ∃ rs, Nests [t] rs := by
      rcases Token.isGap_cases h with rfl | rfl | rfl | rfl
      · exact ⟨[], nests_space⟩
      all_goals exact ⟨_, nests_token rfl (by simp)⟩
    exact ⟨_, hps.append (hrs.append hqs)⟩
  | group _ _ _ hts hus hvs =>
    obtain ⟨ps, hps⟩ := hts
    obtain ⟨qs, hqs⟩ := hus
    obtain ⟨rs, hrs⟩ := hvs
    exact ⟨_, (hps.append hqs.inParens).append hrs⟩

lemma Nests.nest_eq (h : Nests ts ps) : nest ts = some ps := by
  have heq := h [] [] []
  rwa [append_nil, nil_append, nestFrom] at heq

def trees (ts : List Token) : List Tree := (nest ts).getD []

lemma Nests.trees_eq (h : Nests ts ps) : trees ts = ps := by
  rw [trees, h.nest_eq, Option.getD_some]

lemma Phrase.nests_trees (h : Phrase ts) : Nests ts (trees ts) := by
  obtain ⟨ps, hps⟩ := h.nests
  rwa [hps.trees_eq]

end Nesting

mutual

/-- How many parentheses stand around the innermost token. -/
def Tree.depth : Tree → Nat
  | .token _ => 0
  | .group ps => Tree.depthEach ps + 1

def Tree.depthEach : List Tree → Nat
  | [] => 0
  | p :: ps => max p.depth (Tree.depthEach ps)

end

lemma Tree.depthEach_append (ps qs : List Tree) :
    Tree.depthEach (ps ++ qs) = max (Tree.depthEach ps) (Tree.depthEach qs) := by
  induction ps with
  | nil => simp [Tree.depthEach]
  | cons p ps ih => rw [cons_append, Tree.depthEach, Tree.depthEach, ih, Nat.max_assoc]

/-! ### Formulas -/

/-- What a column is compared with by an operator: sub-selects are not read further. -/
inductive Term where
  | column (table name : String)
  | param (v : Value)
  | query (inside : List Tree)

/-- What is asked of a column. -/
inductive Test where
  | operator (op : BinaryOp) (operand : Term)
  | null (negated : Bool)
  | among (negated : Bool) (items : List Value)
  | amongRows (negated : Bool) (query : List Tree)
  | like (negated : Bool) (pattern : Value) (escape : String)

/-- What stands between two connectives. -/
inductive Factor where
  | truth (b : Bool)
  | comparison (table column : String) (test : Test)
  | not (alternatives : List (List Factor))
  /-- A row of a table is looked for that meets a condition. -/
  | found (table : String) (label : Option String) (alternatives : List (List Factor))
  /-- Several alternatives among the conjuncts of another one. -/
  | any (alternatives : List (List Factor))

/-- **A condition** as the list of its alternatives, each of which is the list of its conjuncts.
What is no condition has no alternatives. -/
abbrev Formula := List (List Factor)

namespace Formula

def factors : Formula → List Factor
  | [fs] => fs
  | f => [.any f]

def all : List Formula → Formula
  | [f] => f
  | fs => [fs.flatMap factors]

lemma factors_all {fs : List Formula} (h : fs ≠ []) : (all fs).factors = fs.flatMap factors := by
  obtain ⟨f, rest, rfl⟩ := exists_cons_of_ne_nil h
  cases rest with
  | nil => exact (append_nil _).symm
  | cons g rest => rfl

/-- AND is associative. -/
lemma all_append {fs gs : List Formula} (hf : fs ≠ []) (hg : gs ≠ []) :
    all (fs ++ gs) = all [all fs, all gs] := by
  have hmany : all (fs ++ gs) = [(fs ++ gs).flatMap factors] := by
    rw [all]
    rintro f hsingle
    rcases append_eq_singleton_iff.mp hsingle with ⟨rfl, -⟩ | ⟨-, rfl⟩
    · exact hf rfl
    · exact hg rfl
  rw [hmany, flatMap_append, ← factors_all hf, ← factors_all hg]
  exact congrArg (fun fs => [_ ++ fs]) (append_nil _).symm

end Formula

/-! ### Reading -/

/-- **How strongly a keyword binds** in a condition: OR below AND below all others. Those that end
the clause of a condition do not bind at all. -/
def Keyword.strength : Keyword → Nat
  | .OR => 1
  | .AND => 2
  | .NOT | .EXISTS | .IN | .LIKE | .ESCAPE | .IS_NULL | .IS_NOT_NULL | .TRUE | .FALSE | .NULL => 3
  | _ => 0

def Tree.isKeyword (k : Keyword) : Tree → Bool
  | .token (.keyword k') => k' = k
  | _ => false

/-- Whether the clause of a condition ends here. -/
def Tree.endsClause : Tree → Bool
  | .token (.keyword k) => k.strength = 0
  | _ => false

/-- The operator that a mark stands for. -/
def Token.operator? : Token → Option BinaryOp
  | .symbol .equal => some .eq
  | .symbol .notEqual => some .ne
  | .symbol .less => some .lt
  | .symbol .greater => some .gt
  | .symbol .lessEqual => some .le
  | .symbol .greaterEqual => some .ge
  | .symbol .overlap => some .overlap
  | _ => none

def readTerm : List Tree → Option Term
  | [.token (.ident table), .token (.symbol .dot), .token (.ident name)] =>
      some (.column table name)
  | [.token (.param v)] => some (.param v)
  | [.group ps] => some (.query ps)
  | _ => none

/-- Parameters with commas between them. -/
def readItems : List Tree → Option (List Value)
  | [.token (.param v)] => some [v]
  | .token (.param v) :: .token (.symbol .comma) :: rest => (readItems rest).map (v :: ·)
  | _ => none

/-- A test that may have a NOT in front of it. -/
def readMatch (negated : Bool) : List Tree → Option Test
  | [.token (.keyword .IN), .group ps] =>
    some (((readItems ps).map (Test.among negated)).getD (.amongRows negated ps))
  | [.token (.keyword .LIKE), .token (.param v), .token (.keyword .ESCAPE), .token (.string c)] =>
    some (.like negated v c)
  | _ => none

/-- What stands behind a column. -/
def readTest : List Tree → Option Test
  | [.token (.keyword .IS_NULL)] => some (.null false)
  | [.token (.keyword .IS_NOT_NULL)] => some (.null true)
  | .token (.keyword .NOT) :: rest => readMatch true rest
  | .token (.symbol s) :: rest => do
    return .operator (← (Token.symbol s).operator?) (← readTerm rest)
  | rest => readMatch false rest

/-- A comparison of a column, or a truth value. -/
def readComparison : List Tree → Option Factor
  | [.token (.keyword .TRUE)] => some (.truth true)
  | [.token (.keyword .FALSE)] => some (.truth false)
  | .token (.ident table) :: .token (.symbol .dot) :: .token (.ident column) :: rest =>
    (readTest rest).map (.comparison table column)
  | _ => none

/-- The table of a sub-select that looks for a row, and its new name. -/
def readFound : List Tree → Option (String × Option String)
  | .token (.keyword .SELECT) :: .token (.int 1) :: .token (.keyword .FROM) ::
      .token (.ident table) :: rest =>
    match rest with
    | [] => some (table, none)
    | [.token (.keyword .AS), .token (.ident label)] => some (table, some label)
    | _ => none
  | _ => none

/-- The formula of a factor, and the empty one if there is none. -/
def Formula.ofFactor : Option Factor → Formula
  | some f => [[f]]
  | none => []

/-- A formula without connectives at its top. What stands in parentheses is read by `inside`. -/
def readFactor (inside : List Tree → Formula) : List Tree → Formula
  | .token (.keyword .NOT) :: rest => [[.not (readFactor inside rest)]]
  | [.token (.keyword .EXISTS), .group ps] =>
    .ofFactor ((readFound (ps.takeWhile (!·.isKeyword .WHERE))).map fun row =>
      .found row.1 row.2 (inside (ps.dropWhile (!·.isKeyword .WHERE)).tail))
  | [.group ps] => inside ps
  | ps => .ofFactor (readComparison ps)

/-- **The formula of trees** in which parentheses are nested less than `n` times. -/
def readTrees : Nat → List Tree → Formula
  | 0, _ => []
  | n + 1, ps => (ps.splitOnP (·.isKeyword .OR)).flatMap fun part =>
      Formula.all ((part.splitOnP (·.isKeyword .AND)).map (readFactor (readTrees n)))

/-- The formula of a text, up to the end of its clause. -/
def readCondition (ts : List Token) : Option Formula :=
  (nest ts).map fun ps => readTrees (Tree.depthEach ps + 1) (ps.takeWhile (!·.endsClause))

section Reading

variable {n : Nat}

lemma readTrees_or : readTrees (n + 1) (ps ++ .token (.keyword .OR) :: qs) =
    readTrees (n + 1) ps ++ readTrees (n + 1) qs := by
  rw [readTrees, splitOnP_append_cons _ _ rfl, flatMap_append]
  rfl

lemma readTrees_conjuncts (h : ∀ p ∈ ps, p.isKeyword .OR = false) :
    readTrees (n + 1) ps =
      Formula.all ((ps.splitOnP (·.isKeyword .AND)).map (readFactor (readTrees n))) := by
  rw [readTrees, splitOnP_eq_singleton h, flatMap_singleton]

lemma readTrees_and (hps : ∀ p ∈ ps, p.isKeyword .OR = false)
    (hqs : ∀ p ∈ qs, p.isKeyword .OR = false) :
    readTrees (n + 1) (ps ++ .token (.keyword .AND) :: qs) =
      Formula.all [readTrees (n + 1) ps, readTrees (n + 1) qs] := by
  have hboth : ∀ p ∈ ps ++ .token (.keyword .AND) :: qs, p.isKeyword .OR = false :=
    forall_mem_append.mpr ⟨hps, forall_mem_cons.mpr ⟨rfl, hqs⟩⟩
  rw [readTrees_conjuncts hboth, splitOnP_append_cons _ _ rfl, map_append,
    Formula.all_append (by simp) (by simp), readTrees_conjuncts hps, readTrees_conjuncts hqs]

lemma readTrees_factor (hor : ∀ p ∈ ps, p.isKeyword .OR = false)
    (hand : ∀ p ∈ ps, p.isKeyword .AND = false) :
    readTrees (n + 1) ps = readFactor (readTrees n) ps := by
  rw [readTrees_conjuncts hor, splitOnP_eq_singleton hand]
  rfl

lemma readFactor_token (inside : List Tree → Formula) {t : Token} (hnot : t ≠ .keyword .NOT)
    (hexists : t ≠ .keyword .EXISTS) (rest : List Tree) :
    readFactor inside (.token t :: rest) = .ofFactor (readComparison (.token t :: rest)) := by
  rw [readFactor]
  · simpa using hnot
  · simpa using fun _ h => absurd h hexists
  · simp

lemma readFactor_found (inside : List Tree → Formula) {head : List Tree} {table : String}
    {label : Option String} (hhead : ∀ p ∈ head, p.isKeyword .WHERE = false)
    (hread : readFound head = some (table, label)) (body : List Tree) :
    readFactor inside [.token (.keyword .EXISTS),
      .group (head ++ .token (.keyword .WHERE) :: body)] =
        [[.found table label (inside body)]] := by
  have hpos : ∀ p ∈ head, (!p.isKeyword .WHERE) = true := by simpa using hhead
  rw [readFactor, takeWhile_append_of_pos hpos, dropWhile_append_of_pos hpos]
  simp [Tree.isKeyword, hread, Formula.ofFactor]

end Reading

end StagedSql
