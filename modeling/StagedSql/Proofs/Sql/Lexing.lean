import StagedSql.Proofs.Text.Languages

/-!
Reading SQL text as lexemes.

Runs of characters are taken as long as possible, and inside quotes only a lone quote ends the text.
A text that holds anything else outside quotes, such as a comment, has no lexemes.
-/

namespace StagedSql

open List

variable {cs rest : List Char} {c : Char}

/-! ### Lexemes -/

/-- A lexeme of SQL text. -/
inductive Lexeme where
  /-- A keyword or a name without quotes. -/
  | word (text : String)
  /-- A name in double quotes. -/
  | name (text : String)
  | string (text : String)
  | integer (n : Nat)
  | param (n : Nat)
  /-- A punctuation mark or an operator. -/
  | symbol (text : String)
  deriving DecidableEq

def Lexeme.param? : Lexeme → Option Nat
  | .param n => some n
  | _ => none

/-! ### Characters -/

/-- A character that begins a word. Every character beyond ASCII counts as a letter. -/
def isWordStart (c : Char) : Bool := c.isAlpha || c == '_' || decide (128 ≤ c.toNat)

/-- A character that continues a word. -/
def isWordPart (c : Char) : Bool := isWordStart c || c.isDigit || c == '$'

/-- A character that is a lexeme of its own. -/
def isMark (c : Char) : Bool := ",.();[]".toList.contains c

/-- A character of an operator. -/
def isOperatorChar (c : Char) : Bool := "~!@#^&|`?+-*/%<>=".toList.contains c

/-- The operators. A longer run of their characters is none of them, and may begin a comment. -/
def operators : List String := ["=", "<>", "<", ">", "<=", ">=", "+", "-", "*", "&&"]

/-! ### Reading -/

/-- What stands before the next lone mark, and what comes after it. Two marks in a row are one mark
of the text. -/
def readQuoted (mark : Char) : List Char → Option (List Char × List Char)
  | [] => none
  | [c] => if c = mark then some ([], []) else none
  | c :: d :: cs =>
    if c = mark then
      if d = mark then (readQuoted mark cs).map fun r => (mark :: r.1, r.2)
      else some ([], d :: cs)
    else (readQuoted mark (d :: cs)).map fun r => (c :: r.1, r.2)

/-- The natural that digits are written for. -/
def naturalOf (digits : List Char) : Nat := Nat.ofDigitChars 10 digits 0

/-- The lexeme that begins with a character, and the rest of the text. A word with a quote right
behind it would begin another kind of string, and a dollar sign without a number another kind of
quotation: both are refused. -/
def lexemeAt (c : Char) (cs : List Char) : Option (Lexeme × List Char) :=
  if c = '"' then (readQuoted '"' cs).map fun r => (.name (String.ofList r.1), r.2)
  else if c = '\'' then (readQuoted '\'' cs).map fun r => (.string (String.ofList r.1), r.2)
  else if c = '$' then
    if (cs.takeWhile Char.isDigit).isEmpty then none
    else some (.param (naturalOf (cs.takeWhile Char.isDigit)), cs.dropWhile Char.isDigit)
  else if isWordStart c then
    if (cs.dropWhile isWordPart).head? = some '\'' then none
    else some (.word (String.ofList (c :: cs.takeWhile isWordPart)), cs.dropWhile isWordPart)
  else if c.isDigit then
    some (.integer (naturalOf (c :: cs.takeWhile Char.isDigit)), cs.dropWhile Char.isDigit)
  else if isMark c then some (.symbol (String.singleton c), cs)
  else if isOperatorChar c then
    if String.ofList (c :: cs.takeWhile isOperatorChar) ∈ operators then
      some (.symbol (String.ofList (c :: cs.takeWhile isOperatorChar)), cs.dropWhile isOperatorChar)
    else none
  else none

lemma readQuoted_length {mark : Char} {text : List Char}
    (h : readQuoted mark cs = some (text, rest)) : rest.length ≤ cs.length := by
  fun_induction readQuoted mark cs generalizing text rest with
  | case1 => simp at h
  | case2 => simp_all
  | case3 => simp at h
  | case4 cs ih =>
    obtain ⟨⟨t, r⟩, hr, he⟩ := Option.map_eq_some_iff.mp h
    grind
  | case5 => simp_all
  | case6 c d cs _ ih =>
    obtain ⟨⟨t, r⟩, hr, he⟩ := Option.map_eq_some_iff.mp h
    grind

variable {l : Lexeme}

lemma lexemeAt_length (h : lexemeAt c cs = some (l, rest)) : rest.length ≤ cs.length := by
  have hdrop : ∀ p : Char → Bool, (cs.dropWhile p).length ≤ cs.length :=
    fun p => (dropWhile_sublist p).length_le
  unfold lexemeAt at h
  split_ifs at h
  case pos | pos =>
    obtain ⟨r, hr, he⟩ := Option.map_eq_some_iff.mp h
    cases he
    exact readQuoted_length hr
  all_goals cases h
  all_goals first | exact hdrop _ | exact le_refl _

/-- The lexemes of a text; blanks between them are dropped. -/
def lex : List Char → Option (List Lexeme)
  | [] => some []
  | c :: cs =>
    if c = ' ' then lex cs
    else
      match _ : lexemeAt c cs with
      | none => none
      | some (l, rest) => (lex rest).map (l :: ·)
termination_by cs => cs.length
decreasing_by
  · simp
  · have hrest := lexemeAt_length ‹lexemeAt c cs = some (l, rest)›
    simp only [length_cons]
    omega

@[simp] lemma lex_nil : lex [] = some [] := by rw [lex]

@[simp] lemma lex_blank (cs : List Char) : lex (' ' :: cs) = lex cs := by rw [lex, if_pos rfl]

lemma lex_cons (hc : c ≠ ' ')
    (h : lexemeAt c cs = some (l, rest)) : lex (c :: cs) = (lex rest).map (l :: ·) := by
  rw [lex, if_neg hc]
  grind

/-! ### Texts that are read alike wherever they stand -/

/-- A text is empty or begins with a blank or a mark, so that nothing in front of it goes on. -/
def Stops (cs : List Char) : Prop := ∀ c ∈ cs.head?, c = ' ' ∨ isMark c = true

/-- A text is read as given lexemes in front of everything that stops it. -/
def LexesTo (cs : List Char) (ls : List Lexeme) : Prop :=
  ∀ rest, Stops rest → lex (cs ++ rest) = (lex rest).map (ls ++ ·)

section Reading

variable {ls : List Lexeme} {s : String}

lemma stops_nil : Stops [] := by simp [Stops]

lemma stops_blank (cs : List Char) : Stops (' ' :: cs) := by simp [Stops]

lemma stops_mark (h : isMark c = true) (cs : List Char) : Stops (c :: cs) := by
  simp [Stops, h]

lemma isMark_cases (h : c = ' ' ∨ isMark c = true) :
    isWordPart c = false ∧ c.isDigit = false ∧ isOperatorChar c = false ∧ c ≠ '"' ∧ c ≠ '\'' := by
  have hmem : c = ' ' ∨ c ∈ ",.();[]".toList := h.imp_right contains_iff_mem.mp
  simp only [show ",.();[]".toList = [',', '.', '(', ')', ';', '[', ']'] from rfl, mem_cons,
    not_mem_nil, or_false] at hmem
  rcases hmem with rfl | rfl | rfl | rfl | rfl | rfl | rfl | rfl <;> decide

lemma lexesTo_nil : LexesTo [] [] := by
  intro rest _
  simp

lemma LexesTo.append {ds : List Char} {ms : List Lexeme} (hcs : LexesTo cs ls) (hds : LexesTo ds ms)
    (hstop : ∀ rest, Stops rest → Stops (ds ++ rest)) : LexesTo (cs ++ ds) (ls ++ ms) := by
  intro rest hrest
  rw [append_assoc, hcs _ (hstop rest hrest), hds rest hrest, Option.map_map]
  congr 1
  funext xs
  simp

lemma LexesTo.blank (h : LexesTo cs ls) : LexesTo (' ' :: cs) ls := by
  intro rest hrest
  rw [cons_append, lex_blank, h rest hrest]

lemma lex_mark (h : isMark c = true) (cs : List Char) :
    lex (c :: cs) = (lex cs).map (.symbol (String.singleton c) :: ·) := by
  have hmem : c ∈ ",.();[]".toList := contains_iff_mem.mp h
  simp only [show ",.();[]".toList = [',', '.', '(', ')', ';', '[', ']'] from rfl, mem_cons,
    not_mem_nil, or_false] at hmem
  refine lex_cons ?_ ?_
  · rintro rfl
    simp at hmem
  · rcases hmem with rfl | rfl | rfl | rfl | rfl | rfl | rfl <;> rfl

lemma LexesTo.mark (hc : isMark c = true)
    (h : LexesTo cs ls) : LexesTo (c :: cs) (.symbol (String.singleton c) :: ls) := by
  intro rest hrest
  rw [cons_append, lex_mark hc, h rest hrest, Option.map_map]
  rfl

lemma ne_of_kind {kind : Char → Bool} (h : kind c = true) (d : Char) (hd : kind d = false) :
    c ≠ d := by
  rintro rfl
  exact absurd h (by simp [hd])

lemma isDigit_cases (h : c.isDigit = true) :
    isWordStart c = false ∧ c ≠ ' ' ∧ c ≠ '"' ∧ c ≠ '\'' ∧ c ≠ '$' := by
  have hne := ne_of_kind h
  refine ⟨?_, hne _ rfl, hne _ rfl, hne _ rfl, hne _ rfl⟩
  have hrange : 48 ≤ c.toNat ∧ c.toNat ≤ 57 := by
    simpa [Char.isDigit, UInt32.le_iff_toNat_le] using h
  have halpha : c.isAlpha = (decide ('A'.val ≤ c.val ∧ c.val ≤ 'Z'.val) ||
      decide ('a'.val ≤ c.val) && decide (c.val ≤ 'z'.val)) := rfl
  simp only [isWordStart, halpha, Bool.or_eq_false_iff, Bool.and_eq_false_iff,
    decide_eq_false_iff_not, UInt32.le_iff_toNat_le, beq_eq_false_iff_ne]
  simp only [Char.toNat_val, Char.reduceToNat]
  exact ⟨⟨by omega, hne '_' rfl⟩, by omega⟩

lemma isWordStart_cases (h : isWordStart c = true) : c ≠ ' ' ∧ c ≠ '"' ∧ c ≠ '\'' ∧ c ≠ '$' := by
  have hne := ne_of_kind h
  exact ⟨hne _ rfl, hne _ rfl, hne _ rfl, hne _ rfl⟩

/-- A word is read up to the first character that does not continue it. -/
lemma lexesTo_word (hc : isWordStart c = true) (hcs : ∀ d ∈ cs, isWordPart d = true) :
    LexesTo (c :: cs) [.word (String.ofList (c :: cs))] := by
  intro rest hrest
  obtain ⟨hblank, hname, hstring, hdollar⟩ := isWordStart_cases hc
  obtain ⟨htake, hdrop⟩ := run_append hcs fun d hd => (isMark_cases (hrest d hd)).1
  have hquote : rest.head? ≠ some '\'' :=
    fun h => (isMark_cases (hrest '\'' h)).2.2.2.2 rfl
  have hword : lexemeAt c (cs ++ rest) = some (.word (String.ofList (c :: cs)), rest) := by
    simp only [lexemeAt, if_neg hname, if_neg hstring, if_neg hdollar, if_pos hc, htake, hdrop,
      if_neg hquote]
  rw [cons_append, lex_cons hblank hword]
  rfl

/-- Digits are read as a natural, up to the first character that is none. -/
lemma lex_digits (hne : cs ≠ []) (hcs : ∀ d ∈ cs, d.isDigit = true)
    (hrest : ∀ d ∈ rest.head?, d.isDigit = false) :
    lex (cs ++ rest) = (lex rest).map (.integer (naturalOf cs) :: ·) := by
  obtain ⟨c, cs, rfl⟩ := exists_cons_of_ne_nil hne
  rw [forall_mem_cons] at hcs
  obtain ⟨hword, hblank, hname, hstring, hdollar⟩ := isDigit_cases hcs.1
  obtain ⟨htake, hdrop⟩ := run_append hcs.2 hrest
  have hdigits : lexemeAt c (cs ++ rest) = some (.integer (naturalOf (c :: cs)), rest) := by
    simp only [lexemeAt, if_neg hname, if_neg hstring, if_neg hdollar, hword, hcs.1, htake, hdrop,
      Bool.false_eq_true, if_false, if_true]
  rw [cons_append, lex_cons hblank hdigits]

lemma lexesTo_digits (hne : cs ≠ []) (hcs : ∀ d ∈ cs, d.isDigit = true) :
    LexesTo cs [.integer (naturalOf cs)] :=
  fun _ hrest => lex_digits hne hcs fun d hd => (isMark_cases (hrest d hd)).2.1

lemma naturalOf_decimalDigits (n : Nat) : naturalOf (decimalDigits n) = n :=
  Nat.ofDigitChars_ten_toDigits

lemma isDigit_of_mem_decimalDigits {n : Nat} (h : c ∈ decimalDigits n) : c.isDigit = true :=
  Nat.isDigit_of_mem_toDigits (by decide) (by decide) h

lemma lexesTo_param (n : Nat) : LexesTo ('$' :: decimalDigits n) [.param n] := by
  intro rest hrest
  have hne : (decimalDigits n).isEmpty = false := isEmpty_eq_false_iff.mpr Nat.toDigits_ne_nil
  obtain ⟨htake, hdrop⟩ := run_append (fun _ hd => isDigit_of_mem_decimalDigits (n := n) hd)
    fun d hd => (isMark_cases (hrest d hd)).2.1
  have hparam : lexemeAt '$' (decimalDigits n ++ rest) = some (.param n, rest) := by
    simp [lexemeAt, htake, hdrop, hne, naturalOf_decimalDigits]
  rw [cons_append, lex_cons (by decide) hparam]
  rfl

lemma isOperatorChar_cases (h : isOperatorChar c = true) :
    (c ≠ ' ' ∧ c ≠ '"' ∧ c ≠ '\'' ∧ c ≠ '$') ∧
      isWordStart c = false ∧ c.isDigit = false ∧ isMark c = false := by
  have hall : "~!@#^&|`?+-*/%<>=".toList.all (fun c =>
      decide (c ≠ ' ' ∧ c ≠ '"' ∧ c ≠ '\'' ∧ c ≠ '$') &&
        (!isWordStart c && !c.isDigit && !isMark c)) = true := by decide
  have hc := all_eq_true.mp hall c (contains_iff_mem.mp h)
  simpa [and_assoc] using hc

lemma lex_operator (hs : s ∈ operators) (hrest : ∀ d ∈ rest.head?, isOperatorChar d = false) :
    lex (s.toList ++ rest) = (lex rest).map (.symbol s :: ·) := by
  have hall : operators.all (fun s => !s.toList.isEmpty && s.toList.all isOperatorChar) = true := by
    decide
  have hrun := all_eq_true.mp hall s hs
  simp only [Bool.and_eq_true, all_eq_true, Bool.not_eq_true'] at hrun
  obtain ⟨c, cs, hcs⟩ := exists_cons_of_ne_nil (isEmpty_eq_false_iff.mp hrun.1)
  have hchars := hrun.2
  rw [hcs, forall_mem_cons] at hchars
  obtain ⟨⟨hblank, hname, hstring, hdollar⟩, hword, hdigit, hmark⟩ := isOperatorChar_cases hchars.1
  obtain ⟨htake, hdrop⟩ := run_append hchars.2 hrest
  have hof : String.ofList (c :: cs) = s := by rw [← hcs, String.ofList_toList]
  have hoperator : lexemeAt c (cs ++ rest) = some (.symbol s, rest) := by
    simp only [lexemeAt, if_neg hname, if_neg hstring, if_neg hdollar, hword, hdigit, hmark,
      hchars.1, htake, hdrop, hof, if_pos hs, Bool.false_eq_true, if_false, if_true]
  rw [hcs, cons_append, lex_cons hblank hoperator]

lemma lexesTo_operator (hs : s ∈ operators) : LexesTo s.toList [.symbol s] :=
  fun _ hrest => lex_operator hs fun d hd => (isMark_cases (hrest d hd)).2.2.1

/-- What is quoted is read back, if no further mark comes after it. -/
lemma readQuoted_append {mark : Char} (hrest : rest.head? ≠ some mark) (cs : List Char) :
    readQuoted mark (cs.flatMap (fun c => if c = mark then [mark, mark] else [c]) ++ mark :: rest) =
      some (cs, rest) := by
  induction cs with
  | nil =>
    cases rest with
    | nil => simp [readQuoted]
    | cons d rest =>
      have hd : d ≠ mark := by simpa using hrest
      simp [readQuoted, hd]
  | cons c cs ih =>
    by_cases hc : c = mark
    · simp [readQuoted, hc, ih]
    · obtain ⟨d, ds, hds⟩ : ∃ d ds,
          cs.flatMap (fun c => if c = mark then [mark, mark] else [c]) ++ mark :: rest =
            d :: ds :=
        exists_cons_of_ne_nil (by simp)
      simp only [flatMap_cons, if_neg hc, cons_append, nil_append]
      rw [hds] at ih ⊢
      simp [readQuoted, hc, ih]

lemma lexesTo_name (s : String) : LexesTo (quoteIdentifier s).toList [.name s] := by
  intro rest hrest
  have hquote : rest.head? ≠ some '"' := fun h => (isMark_cases (hrest '"' h)).2.2.2.1 rfl
  have hread := readQuoted_append hquote s.toList
  have hname : lexemeAt '"' (s.toList.flatMap (fun c => if c = '"' then ['"', '"'] else [c]) ++
      '"' :: rest) = some (.name s, rest) := by
    simp [lexemeAt, hread]
  simp only [quoteIdentifier, quotedBy, String.toList_ofList, cons_append, append_assoc, nil_append]
  rw [lex_cons (by decide) hname]

lemma lexesTo_string (s : String) : LexesTo (quoteString s).toList [.string s] := by
  intro rest hrest
  have hquote : rest.head? ≠ some '\'' := fun h => (isMark_cases (hrest '\'' h)).2.2.2.2 rfl
  have hread := readQuoted_append hquote s.toList
  have hstring : lexemeAt '\''
      (s.toList.flatMap (fun c => if c = '\'' then ['\'', '\''] else [c]) ++ '\'' :: rest) =
        some (.string s, rest) := by
    simp [lexemeAt, hread]
  simp only [quoteString, quotedBy, String.toList_ofList, cons_append, append_assoc, nil_append]
  rw [lex_cons (by decide) hstring]

end Reading

/-! ### Segments -/

section Segments

variable {sep : Char} {f : List Char → List Lexeme}

/-- A text is read segment by segment, with the lexemes of the separator between them. -/
lemma lexesTo_splitAtChar {ls : List Lexeme} (hstop : ∀ rest, Stops (sep :: rest))
    (hsep : ∀ rest, lex (sep :: rest) = (lex rest).map (ls ++ ·))
    (h : ∀ segment ∈ splitAtChar sep cs, LexesTo segment (f segment)) :
    LexesTo cs (ls.intercalate ((splitAtChar sep cs).map f)) := by
  obtain ⟨first, rest, hsplit⟩ := exists_cons_splitAtChar sep cs
  rw [hsplit, forall_mem_cons] at h
  rw [hsplit, (splitAtChar_eq_cons.mp hsplit).1, map_cons]
  obtain ⟨hfirst, hrest⟩ := h
  clear hsplit
  induction rest generalizing first with
  | nil => simpa using hfirst
  | cons next rest ih =>
    rw [forall_mem_cons] at hrest
    rw [map_cons, intercalate_cons_cons, flatMap_cons, append_assoc]
    refine hfirst.append (fun tail htail => ?_) fun rest _ => hstop _
    rw [cons_append, cons_append, hsep, ih next hrest.1 hrest.2 tail htail, Option.map_map]
    congr 1
    funext xs
    simp

lemma lexesTo_blankSeparated (h : ∀ w ∈ splitAtChar ' ' cs, LexesTo w (f w)) :
    LexesTo cs ((splitAtChar ' ' cs).flatMap f) := by
  have hnil : ∀ lss : List (List Lexeme), ([] : List Lexeme).intercalate lss = lss.flatten := by
    intro lss
    induction lss with
    | nil => rfl
    | cons ls lss ih =>
      cases lss with
      | nil => simp
      | cons ms lss =>
        rw [intercalate_cons_cons, ih, append_nil]
        rfl
  have hlexes : LexesTo cs (([] : List Lexeme).intercalate ((splitAtChar ' ' cs).map f)) :=
    lexesTo_splitAtChar stops_blank (by simp) h
  rwa [hnil, ← flatMap_def] at hlexes

end Segments

/-! ### Words and types -/

/-- The lexemes of a part of a dotted name. Digits in front of it are a number of their own. -/
def partLexemes (cs : List Char) : List Lexeme :=
  (if (cs.takeWhile Char.isDigit).isEmpty then []
    else [.integer (naturalOf (cs.takeWhile Char.isDigit))]) ++
  (if (cs.dropWhile Char.isDigit).isEmpty then []
    else [.word (String.ofList (cs.dropWhile Char.isDigit))])

def dottedLexemes (cs : List Char) : List Lexeme :=
  [Lexeme.symbol "."].intercalate ((splitAtChar '.' cs).map partLexemes)

/-- The lexemes of one number or of two with a comma between them. -/
def precisionLexemes (cs : List Char) : List Lexeme :=
  [Lexeme.symbol ","].intercalate
    ((splitAtChar ',' cs).map fun n => [.integer (naturalOf (dropBlank n))])

def markLexemes (cs : List Char) : List Lexeme :=
  cs.map fun c => .symbol (String.singleton c)

/-- The lexemes of what stands behind the words of a type. -/
def suffixLexemes : List Char → List Lexeme
  | '(' :: cs =>
    .symbol "(" :: precisionLexemes (cs.takeWhile (· != ')')) ++
      markLexemes (cs.dropWhile (· != ')'))
  | cs => markLexemes cs

def typeLexemes (s : String) : List Lexeme :=
  (splitAtChar ' ' (s.toList.takeWhile fun c => c != '(' && c != '[')).flatMap dottedLexemes ++
    suffixLexemes (s.toList.dropWhile fun c => c != '(' && c != '[')

lemma isNameStart_word (h : isNameStart c = true) : isWordStart c = true := by
  simp only [isNameStart, Bool.or_eq_true] at h
  rcases h with h | h <;> simp [isWordStart, h]

lemma isNameChar_word (h : isNameChar c = true) : isWordPart c = true := by
  simp only [isNameChar, Char.isAlphanum, Bool.or_eq_true] at h
  rcases h with (h | h) | h <;> simp_all [isWordPart, isWordStart]

lemma isNameChar_start (h : isNameChar c = true) (hdigit : c.isDigit = false) :
    isWordStart c = true := by
  simp only [isNameChar, Char.isAlphanum, Bool.or_eq_true, hdigit] at h
  rcases h with (h | h) | h <;> simp_all [isWordStart]

lemma lexesTo_isWord (h : isWord cs = true) : LexesTo cs [.word (String.ofList cs)] := by
  cases cs with
  | nil => simp [isWord] at h
  | cons c cs =>
    simp only [isWord, Bool.and_eq_true, all_eq_true] at h
    exact lexesTo_word (isNameStart_word h.1) fun d hd => isNameChar_word (h.2 d hd)

lemma lexesTo_part (h : ∀ c ∈ cs, isNameChar c = true) : LexesTo cs (partLexemes cs) := by
  obtain ⟨digits, word, hdigits, hword, hcs, hall, hhead⟩ := exists_run Char.isDigit cs
  have htail : LexesTo word (if word.isEmpty then [] else [.word (String.ofList word)]) := by
    cases word with
    | nil => exact lexesTo_nil
    | cons c rest =>
      have hname : ∀ d ∈ c :: rest, isNameChar d = true := fun d hd => h d (by simp [← hcs, hd])
      exact lexesTo_word (isNameChar_start (hname c (by simp)) (hhead c rfl)) fun d hd =>
        isNameChar_word (hname d (by simp [hd]))
  rw [partLexemes, hdigits, hword, ← hcs]
  intro rest hrest
  by_cases hempty : digits = []
  · simpa [hempty] using htail rest hrest
  · have hnext : ∀ d ∈ (word ++ rest).head?, d.isDigit = false := by
      cases word with
      | nil => exact fun d hd => (isMark_cases (hrest d hd)).2.1
      | cons c word => exact fun d hd => hhead d hd
    have hsome : digits.isEmpty = false := isEmpty_eq_false_iff.mpr hempty
    rw [append_assoc, lex_digits hempty hall hnext, htail rest hrest, Option.map_map, hsome]
    rfl

lemma lexesTo_dotted (h : ∀ c ∈ cs, isNameChar c = true ∨ c = '.') :
    LexesTo cs (dottedLexemes cs) := by
  refine lexesTo_splitAtChar (stops_mark rfl) (lex_mark rfl) fun segment hsegment => ?_
  refine lexesTo_part fun c hc => ?_
  obtain ⟨hmem, hdot⟩ := mem_of_mem_splitAtChar hsegment hc
  exact (h c hmem).resolve_right hdot

lemma lexesTo_number (h : isDigits (dropBlank cs) = true)
    (hascii : ∀ c ∈ cs, isDecimalDigit c = true → c.isDigit = true) :
    LexesTo cs [.integer (naturalOf (dropBlank cs))] := by
  have hnumber : LexesTo (dropBlank cs) [.integer (naturalOf (dropBlank cs))] := by
    simp only [isDigits, Bool.and_eq_true, Bool.not_eq_true', all_eq_true] at h
    refine lexesTo_digits (isEmpty_eq_false_iff.mp h.1) fun c hc => hascii c ?_ (h.2 c hc)
    rcases dropBlank_cases cs with he | he
    · rwa [he]
    · rw [he]
      exact .tail _ hc
  rcases dropBlank_cases cs with he | he
  · rwa [← he] at hnumber ⊢
  · rw [he]
    exact hnumber.blank

lemma lexesTo_precision (h : isPrecision cs = true)
    (hascii : ∀ c ∈ cs, isDecimalDigit c = true → c.isDigit = true) :
    LexesTo cs (precisionLexemes cs) := by
  have hnumbers : ∀ n ∈ splitAtChar ',' cs, isDigits (dropBlank n) = true := by
    unfold isPrecision at h
    split at h
    · rename_i n hn
      rwa [hn, forall_mem_singleton, dropBlank_of_isDigits h]
    · rename_i n m hn
      rw [Bool.and_eq_true] at h
      rwa [hn, forall_mem_cons, forall_mem_singleton, dropBlank_of_isDigits h.1]
    · simp at h
  refine lexesTo_splitAtChar (stops_mark rfl) (lex_mark rfl) fun n hn => ?_
  refine lexesTo_number (hnumbers n hn) fun c hc => ?_
  exact hascii c (mem_of_mem_splitAtChar hn hc).1

lemma lexesTo_marks (h : ∀ c ∈ cs, isMark c = true) : LexesTo cs (markLexemes cs) := by
  induction cs with
  | nil => exact lexesTo_nil
  | cons c cs ih =>
    rw [forall_mem_cons] at h
    exact (ih h.2).mark h.1

lemma isMark_brackets (k : Nat) : ∀ c ∈ brackets k, isMark c = true := by
  induction k with
  | zero => simp [brackets]
  | succ k ih => exact forall_mem_cons.mpr ⟨rfl, forall_mem_cons.mpr ⟨rfl, ih⟩⟩

lemma stops_marks (h : ∀ c ∈ cs, isMark c = true) (hrest : Stops rest) : Stops (cs ++ rest) := by
  cases cs with
  | nil => exact hrest
  | cons c cs => exact stops_mark (h c (by simp)) _

/-- A precision and brackets are read as they are, and stop the words in front of them. -/
lemma lexesTo_suffix (h : isTypeSuffix cs = true)
    (hascii : ∀ c ∈ cs, isDecimalDigit c = true → c.isDigit = true) :
    LexesTo cs (suffixLexemes cs) ∧ ∀ rest, Stops rest → Stops (cs ++ rest) := by
  rcases isTypeSuffix_iff.mp h with k | ⟨k, hp⟩
  · refine ⟨?_, fun _ => stops_marks (isMark_brackets k)⟩
    cases k <;> exact lexesTo_marks (isMark_brackets _)
  · have hmarks : ∀ d ∈ ')' :: brackets k, isMark d = true :=
      forall_mem_cons.mpr ⟨rfl, isMark_brackets k⟩
    have hnumbers := lexesTo_precision (isPrecision_iff.mpr hp) fun d hd => hascii d (by simp [hd])
    obtain ⟨htake, hdrop⟩ := hp.span (brackets k)
    refine ⟨?_, fun rest _ => stops_mark rfl _⟩
    rw [suffixLexemes, htake, hdrop]
    exact (hnumbers.append (lexesTo_marks hmarks) fun _ => stops_marks hmarks).mark rfl

lemma lexesTo_typeWords (h : isTypeWords (splitAtChar ' ' cs) = true) :
    LexesTo cs ((splitAtChar ' ' cs).flatMap dottedLexemes) := by
  refine lexesTo_blankSeparated fun w hw => lexesTo_dotted fun c hc => ?_
  obtain ⟨first, rest, hsplit⟩ := exists_cons_splitAtChar ' ' cs
  rw [hsplit, isTypeWords, Bool.and_eq_true, all_eq_true] at h
  rw [hsplit] at hw
  rcases mem_cons.mp hw with rfl | hw
  · exact isNameChar_of_isTypeHead h.1 hc
  · exact .inl (isNameChar_of_isWord (h.2 w hw) hc)

/-- **The name of a type** with ASCII digits is read as its words, dots, numbers and brackets. -/
lemma lexesTo_type {s : String} (h : isTypeName s = true)
    (hascii : ∀ c ∈ s.toList, isDecimalDigit c = true → c.isDigit = true) :
    LexesTo s.toList (typeLexemes s) := by
  rw [isTypeName, span_eq_takeWhile_dropWhile, Bool.and_eq_true] at h
  obtain ⟨hsuffix, hstop⟩ := lexesTo_suffix h.2 fun c hc =>
    hascii c ((dropWhile_sublist _).subset hc)
  have htype := (lexesTo_typeWords h.1).append hsuffix hstop
  rwa [takeWhile_append_dropWhile] at htype

end StagedSql
