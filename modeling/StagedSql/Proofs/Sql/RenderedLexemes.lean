import StagedSql.Proofs.Sql.Lexing
import StagedSql.Proofs.Sql.Phrases
import StagedSql.Sql.Tokens

/-!
The text of a statement is read back as its tokens.
-/

namespace StagedSql

open List

/-! ### The lexemes of tokens -/

/-- The words of a keyword. -/
def Keyword.lexemes (k : Keyword) : List Lexeme :=
  (splitAtChar ' ' k.text.toList).flatMap fun w => [.word (String.ofList w)]

/-- The lexemes of an integer. A sign is a lexeme of its own. -/
def intLexemes (n : Int) : List Lexeme :=
  (if n < 0 then [.symbol "-"] else []) ++ [.integer n.natAbs]

/-- The lexemes of a token, `position` being the number of a parameter. -/
def Token.lexemes (position : Nat) : Token → List Lexeme
  | .keyword k => k.lexemes
  | .symbol s => [.symbol s.text]
  | .space => []
  | .ident name => [.name name]
  | .int n => intLexemes n.toInt
  | .string s => [.string s]
  | .param _ => [.param position]
  | .function name => [.word name]
  | .typeName name => typeLexemes name

/-- The lexemes of tokens of which `count` parameters went before. -/
def tokenLexemes : Nat → List Token → List Lexeme
  | _, [] => []
  | count, .param v :: rest =>
    Token.lexemes (count + 1) (.param v) ++ tokenLexemes (count + 1) rest
  | count, t :: rest => t.lexemes 0 ++ tokenLexemes count rest

/-- What is written without quotes is a word or the name of a type with ASCII digits. -/
def Token.Plain : Token → Prop
  | .function name => isWord name.toList = true
  | .typeName name =>
    isTypeName name = true ∧ ∀ c ∈ name.toList, isDecimalDigit c = true → c.isDigit = true
  | _ => True

instance : DecidablePred Token.Plain
  | .function name => inferInstanceAs (Decidable (isWord name.toList = true))
  | .typeName name =>
    -- the characters of the name are tried, and not all characters that there are
    have := List.decidableBAll (fun c => isDecimalDigit c = true → c.isDigit = true) name.toList
    inferInstanceAs (Decidable (isTypeName name = true ∧
      ∀ c ∈ name.toList, isDecimalDigit c = true → c.isDigit = true))
  | .keyword _ | .symbol _ | .space | .ident _ | .int _ | .string _ | .param _ =>
    inferInstanceAs (Decidable True)

/-! ### Tokens side by side -/

/-- A blank or a mark: nothing runs together with it. -/
def Token.isLoose : Token → Bool
  | .space => true
  | .symbol .comma | .symbol .dot | .symbol .leftParen | .symbol .rightParen => true
  | .symbol .semicolon => true
  | _ => false

/-- Of two tokens side by side one is a blank or a mark. -/
def Separated (ts : List Token) : Prop :=
  ts.IsChain fun t u => t.isLoose = true ∨ u.isLoose = true

lemma Separated.loose {t : Token} {ts us : List Token} (hts : Separated ts) (hus : Separated us)
    (h : t.isLoose = true) : Separated (ts ++ t :: us) := by
  have hcons : Separated (t :: us) :=
    List.IsChain.append (.singleton t) hus fun _ hx _ _ => .inl (by simp_all)
  exact List.IsChain.append hts hcons fun _ _ _ hu => .inr (by simp_all)

/-- **No two tokens of a phrase run together.** -/
lemma Phrase.separated {ts : List Token} (h : Phrase ts) : Separated ts := by
  induction h with
  | nil => exact .nil
  | single _ => exact .singleton _
  | gap h _ _ hts hus =>
    refine hts.loose hus ?_
    rcases Token.isGap_cases h with rfl | rfl | rfl | rfl <;> rfl
  | group _ _ _ hts hus hvs =>
    simpa [parenthesized] using hts.loose (hus.loose hvs rfl) rfl

/-! ### Texts -/

section Texts

variable {t : Token}

lemma Keyword.lexesTo (k : Keyword) : LexesTo k.text.toList k.lexemes := by
  have hwords : (splitAtChar ' ' k.text.toList).all isWord = true := by cases k <;> decide
  exact lexesTo_blankSeparated fun w hw => lexesTo_isWord (all_eq_true.mp hwords w hw)

lemma lexesTo_symbol (s : Symbol) : LexesTo s.text.toList [.symbol s.text] := by
  cases s with
  | comma => exact lexesTo_nil.mark rfl
  | dot => exact lexesTo_nil.mark rfl
  | leftParen => exact lexesTo_nil.mark rfl
  | rightParen => exact lexesTo_nil.mark rfl
  | semicolon => exact lexesTo_nil.mark rfl
  | star => exact lexesTo_operator (by decide)
  | equal => exact lexesTo_operator (by decide)
  | notEqual => exact lexesTo_operator (by decide)
  | less => exact lexesTo_operator (by decide)
  | greater => exact lexesTo_operator (by decide)
  | lessEqual => exact lexesTo_operator (by decide)
  | greaterEqual => exact lexesTo_operator (by decide)
  | plus => exact lexesTo_operator (by decide)
  | overlap => exact lexesTo_operator (by decide)

/-- A sign is no part of an operator in front of it, and none is behind it. -/
lemma lexesTo_int (n : Int) : LexesTo (Json.intText n).toList (intLexemes n) := by
  have hne : decimalDigits n.natAbs ≠ [] := Nat.toDigits_ne_nil
  have hdigits : LexesTo (decimalDigits n.natAbs) [.integer n.natAbs] := by
    have h := lexesTo_digits hne fun _ hd => isDigit_of_mem_decimalDigits hd
    rwa [naturalOf_decimalDigits] at h
  rw [Json.intText, String.toList_ofList, intLexemes]
  by_cases hn : n < 0
  · rw [if_pos hn, if_pos hn]
    intro rest hrest
    have hhead : ∀ d ∈ (decimalDigits n.natAbs ++ rest).head?, isOperatorChar d = false := by
      intro d hd
      rw [head?_append_of_ne_nil _ hne] at hd
      have hdigit := isDigit_of_mem_decimalDigits (mem_of_mem_head? hd)
      rw [Bool.eq_false_iff]
      intro hoperator
      exact absurd hdigit (by simp [(isOperatorChar_cases hoperator).2.2.1])
    have hminus := lex_operator (show "-" ∈ operators by decide) hhead
    rwa [hdigits rest hrest, Option.map_map] at hminus
  · simpa [hn] using hdigits

namespace Token

/-- **How a token is read** in front of what stops it. -/
lemma lexesTo (h : t.Plain) (position : Nat) :
    LexesTo (t.text (Placeholder.numbered.marker position)).toList (t.lexemes position) := by
  cases t with
  | keyword k => exact k.lexesTo
  | symbol s => exact lexesTo_symbol s
  | space => simpa [text, lexemes] using lexesTo_nil.blank
  | ident name => exact lexesTo_name name
  | int n => exact lexesTo_int n.toInt
  | string s => exact lexesTo_string s
  | param v =>
    have hmark : (Placeholder.numbered.marker position).toList = '$' :: decimalDigits position := by
      simp [Placeholder.marker]
    rw [text, hmark]
    exact lexesTo_param position
  | function name =>
    have hword := lexesTo_isWord h
    rwa [String.ofList_toList] at hword
  | typeName name => exact lexesTo_type h.1 h.2

lemma loose_cases (h : t.isLoose = true) :
    t = .space ∨ ∃ s c, t = .symbol s ∧ isMark c = true ∧ s.text = String.singleton c := by
  rcases t with _ | s | _ | _ | _ | _ | _ | _ | _
  case symbol =>
    cases s with
    | comma => exact .inr ⟨_, ',', rfl, rfl, rfl⟩
    | dot => exact .inr ⟨_, '.', rfl, rfl, rfl⟩
    | leftParen => exact .inr ⟨_, '(', rfl, rfl, rfl⟩
    | rightParen => exact .inr ⟨_, ')', rfl, rfl, rfl⟩
    | semicolon => exact .inr ⟨_, ';', rfl, rfl, rfl⟩
    | _ => simp [isLoose] at h
  case space => exact .inl rfl
  all_goals simp [isLoose] at h

lemma lex_loose (h : t.isLoose = true) (mark : String) (position : Nat) (rest : List Char) :
    lex ((t.text mark).toList ++ rest) = (lex rest).map (t.lexemes position ++ ·) := by
  rcases loose_cases h with rfl | ⟨s, c, rfl, hc, hs⟩
  · simp [text, lexemes]
  · rw [text, lexemes, hs, String.toList_singleton, singleton_append, lex_mark hc]
    rfl

lemma stops_loose (h : t.isLoose = true) (mark : String) (rest : List Char) :
    Stops ((t.text mark).toList ++ rest) := by
  rcases loose_cases h with rfl | ⟨s, c, rfl, hc, hs⟩
  · simpa [text] using stops_blank rest
  · rw [text, hs, String.toList_singleton]
    exact stops_mark hc rest

/-- The number of parameters that a token is. -/
def paramCount (t : Token) : Nat := t.param?.toList.length

end Token

lemma tokenTexts_cons (placeholder : Placeholder) (count : Nat) (t : Token) (ts : List Token) :
    tokenTexts placeholder count (t :: ts) = t.text (placeholder.marker (count + 1)) ::
        tokenTexts placeholder (count + t.paramCount) ts := by
  cases t <;> rfl

lemma tokenTexts_append (placeholder : Placeholder) (count : Nat) (ts us : List Token) :
    ∃ later, tokenTexts placeholder count (ts ++ us) =
      tokenTexts placeholder count ts ++ tokenTexts placeholder later us := by
  induction ts generalizing count with
  | nil => exact ⟨count, rfl⟩
  | cons t ts ih =>
    obtain ⟨later, hlater⟩ := ih (count + t.paramCount)
    exact ⟨later, by rw [cons_append, tokenTexts_cons, tokenTexts_cons, hlater, cons_append]⟩

/-- Tokens without parameters are written alike wherever they stand. -/
lemma tokenTexts_bare {ts : List Token} (hts : ∀ t ∈ ts, t.param? = none)
    (placeholder : Placeholder) (count : Nat) :
    tokenTexts placeholder count ts = ts.map (Token.text "") := by
  induction ts generalizing count with
  | nil => rfl
  | cons t ts ih =>
    rw [forall_mem_cons] at hts
    rw [tokenTexts_cons, ih hts.2, map_cons]
    cases t <;> first | rfl | cases hts.1

lemma tokenLexemes_cons (count : Nat) (t : Token) (ts : List Token) :
    tokenLexemes count (t :: ts) =
      t.lexemes (count + 1) ++ tokenLexemes (count + t.paramCount) ts := by
  cases t <;> rfl

/-- **The text of separated tokens has their lexemes.** The induction is on the tokens: one that is
no blank and no mark has nothing behind it, or a blank or a mark, which stops it. -/
lemma lex_tokenTexts {ts : List Token} (hsep : Separated ts) (hplain : ∀ t ∈ ts, t.Plain)
    (count : Nat) :
    lex ((tokenTexts .numbered count ts).flatMap String.toList) = some (tokenLexemes count ts) := by
  induction ts generalizing count with
  | nil => exact lex_nil
  | cons t ts ih =>
    rw [forall_mem_cons] at hplain
    have hrest := ih hsep.tail hplain.2 (count + t.paramCount)
    rw [tokenTexts_cons, tokenLexemes_cons, flatMap_cons]
    by_cases ht : t.isLoose = true
    · rw [Token.lex_loose ht _ (count + 1), hrest]
      rfl
    · have hstop : Stops
          ((tokenTexts .numbered (count + t.paramCount) ts).flatMap String.toList) := by
        cases ts with
        | nil => exact stops_nil
        | cons u ts =>
          rw [tokenTexts_cons]
          exact Token.stops_loose (hsep.rel.resolve_left ht) _ _
      rw [Token.lexesTo hplain.1 (count + 1) _ hstop, hrest]
      rfl

end Texts

/-! ### Parameters -/

section Parameters

lemma filterMap_intercalate_eq_nil {α β : Type} {f : α → Option β} {separator : List α}
    (hsep : separator.filterMap f = []) {xss : List (List α)}
    (h : ∀ xs ∈ xss, xs.filterMap f = []) : (separator.intercalate xss).filterMap f = [] := by
  induction xss with
  | nil => rfl
  | cons xs xss ih =>
    rw [forall_mem_cons] at h
    cases xss with
    | nil => simpa using h.1
    | cons ys xss =>
      simp_all

lemma partLexemes_params (cs : List Char) : (partLexemes cs).filterMap Lexeme.param? = [] := by
  unfold partLexemes
  split <;> split <;> rfl

lemma markLexemes_params (cs : List Char) : (markLexemes cs).filterMap Lexeme.param? = [] := by
  simp [markLexemes, Lexeme.param?]

lemma precisionLexemes_params (cs : List Char) :
    (precisionLexemes cs).filterMap Lexeme.param? = [] := by
  refine filterMap_intercalate_eq_nil rfl fun ls hls => ?_
  obtain ⟨n, -, rfl⟩ := mem_map.mp hls
  rfl

lemma typeLexemes_params (s : String) : (typeLexemes s).filterMap Lexeme.param? = [] := by
  have hdotted : ∀ cs, (dottedLexemes cs).filterMap Lexeme.param? = [] := by
    refine fun cs => filterMap_intercalate_eq_nil rfl fun ls hls => ?_
    obtain ⟨part, -, rfl⟩ := mem_map.mp hls
    exact partLexemes_params part
  have hsuffix : ∀ cs, (suffixLexemes cs).filterMap Lexeme.param? = [] := by
    intro cs
    unfold suffixLexemes
    split
    · rw [cons_append, filterMap_cons_none rfl, filterMap_append,
        precisionLexemes_params, markLexemes_params]
      rfl
    · exact markLexemes_params cs
  rw [typeLexemes, filterMap_append, hsuffix, append_nil, filterMap_flatMap, flatMap_eq_nil_iff]
  exact fun w _ => hdotted w

lemma Token.lexemes_params (t : Token) (position : Nat) :
    (t.lexemes position).filterMap Lexeme.param? = List.replicate t.paramCount position := by
  cases t with
  | keyword k =>
    rw [lexemes, Keyword.lexemes, filterMap_flatMap]
    exact flatMap_eq_nil_iff.mpr fun _ _ => rfl
  | int n =>
    rw [lexemes, intLexemes]
    split <;> rfl
  | typeName name => exact typeLexemes_params name
  | _ => rfl

/-- **The parameters of a text are numbered in order**, from the one after those that went
before. -/
lemma tokenLexemes_params (count : Nat) (ts : List Token) :
    (tokenLexemes count ts).filterMap Lexeme.param? =
      List.range' (count + 1) (ts.filterMap Token.param?).length := by
  induction ts generalizing count with
  | nil => rfl
  | cons t ts ih =>
    rw [tokenLexemes_cons, filterMap_append, ih, Token.lexemes_params]
    cases h : t.param? with
    | none => simp [Token.paramCount, h]
    | some v => simp [Token.paramCount, h, range'_succ]

end Parameters

/-! ### Statements -/

/-- **The text of a statement is read back as its tokens.** Whatever its names, strings and values
are, and however its parts are nested: with function names that are words and types that are types,
the text with numbered parameters has the lexemes of the tokens, one after the other. The parameters
in it are numbered from one to the number of values, and the values are those of the parameters
among the tokens, in the same order. -/
theorem lex_render (s : Statement) (hplain : ∀ t ∈ s.tokens, t.Plain) :
    lex (s.render .numbered).sql.toList = some (tokenLexemes 0 s.tokens) ∧
      (tokenLexemes 0 s.tokens).filterMap Lexeme.param? =
        List.range' 1 (s.render .numbered).args.length ∧
      (s.render .numbered).args = s.tokens.filterMap Token.param? := by
  refine ⟨?_, tokenLexemes_params 0 s.tokens, rfl⟩
  have htexts := lex_tokenTexts s.tokens_phrase.separated hplain 0
  rwa [← String.toList_join] at htexts

/-- A SELECT whose names and strings hold quotes, semicolons and the marks of parameters. -/
def quotingSelect : Statement :=
  .select
    { projection := [⟨.cast (.of "it\"em" "price") "numeric(10, 2)[]", some "'"⟩]
      source := some (.table "it\"em" none)
      joins := []
      condition := some (.binary .eq (.of "it\"em" "name; DROP") (.param (.text "$2")))
      ordering := [⟨.literal (.string "' OR $2 = '"), some .desc⟩]
      limit := some 5
      offset := none }

theorem lex_render_quoting :
    (∀ t ∈ quotingSelect.tokens, t.Plain) ∧
      lex (quotingSelect.render .numbered).sql.toList =
        some [.word "SELECT", .word "CAST", .symbol "(", .name "it\"em", .symbol ".", .name "price",
          .word "AS", .word "numeric", .symbol "(", .integer 10, .symbol ",", .integer 2,
          .symbol ")", .symbol "[", .symbol "]", .symbol ")", .word "AS", .name "'", .word "FROM",
          .name "it\"em", .word "WHERE", .name "it\"em", .symbol ".", .name "name; DROP",
          .symbol "=", .param 1, .word "ORDER", .word "BY", .string "' OR $2 = '", .word "DESC",
          .word "LIMIT", .integer 5] ∧
      (quotingSelect.render .numbered).args = [.text "$2"] := by
  have hplain : ∀ t ∈ quotingSelect.tokens, t.Plain := by decide
  obtain ⟨hlex, -, hargs⟩ := lex_render quotingSelect hplain
  exact ⟨hplain, hlex, hargs⟩

end StagedSql
