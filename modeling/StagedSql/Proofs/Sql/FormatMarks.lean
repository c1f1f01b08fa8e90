import StagedSql.Proofs.Sql.RenderedLexemes

/-!
Parameters that are all marked alike.

A text is scanned piece by piece, unless a percent sign at the end of a piece meets an `s`. Tokens
side by side never do, since they are separated.
-/

namespace StagedSql

open List Placeholder

/-! ### Scanning for marks -/

/-- Reads a text in which every percent sign starts a mark: its characters, with nothing in the
place of each mark. -/
def scanMarks : List Char → Option (List (Option Char))
  | [] => some []
  | '%' :: 's' :: rest => (scanMarks rest).map (none :: ·)
  | '%' :: _ => none
  | c :: rest => (scanMarks rest).map (some c :: ·)

/-- Writes the numbers of the marks, of which `count` went before. -/
def numberMarks : Nat → List (Option Char) → List Char
  | _, [] => []
  | count, none :: rest =>
    (numbered.marker (count + 1)).toList ++ numberMarks (count + 1) rest
  | count, some c :: rest => c :: numberMarks count rest

/-- The first text has as many marks as values and no other percent sign. With its marks numbered
it is the second text. -/
def Rendered.MarksAs (marked numbered : Rendered) : Prop :=
  ∃ pieces, scanMarks marked.sql.toList = some pieces ∧
    pieces.count none = marked.args.length ∧ numberMarks 0 pieces = numbered.sql.toList

section Pieces

variable {c : Char} {cs rest : List Char} {ps qs : List (Option Char)}

lemma scanMarks_cons (h : c ≠ '%') : scanMarks (c :: cs) = (scanMarks cs).map (some c :: ·) := by
  rw [scanMarks] <;> simp_all

lemma scanMarks_percent (h : 's' ∉ cs.head?) : scanMarks ('%' :: cs) = none := by
  rw [scanMarks]
  rintro rest rfl
  exact h rfl

lemma scanMarks_of_not_mem (h : '%' ∉ cs) : scanMarks cs = some (cs.map some) := by
  induction cs with
  | nil => rfl
  | cons c cs ih =>
    rw [mem_cons, not_or] at h
    rw [scanMarks_cons (Ne.symm h.1), ih h.2]
    rfl

lemma scanMarks_append (h : scanMarks cs = some ps) (rest : List Char) :
    scanMarks (cs ++ rest) = (scanMarks rest).map (ps ++ ·) := by
  fun_induction scanMarks cs generalizing ps with
  | case1 => simp_all
  | case2 cs ih =>
    obtain ⟨qs, hqs, rfl⟩ := Option.map_eq_some_iff.mp h
    simp [scanMarks, ih hqs, Function.comp_def]
  | case3 => cases h
  | case4 c cs _ hc ih =>
    obtain ⟨qs, hqs, rfl⟩ := Option.map_eq_some_iff.mp h
    rw [cons_append, scanMarks_cons hc, ih hqs, Option.map_map]
    rfl

/-- A percent sign that starts no mark starts none in front of what does not begin with an `s`. -/
lemma scanMarks_append_none (h : scanMarks cs = none) (hrest : 's' ∉ rest.head?) :
    scanMarks (cs ++ rest) = none := by
  fun_induction scanMarks cs with
  | case1 => cases h
  | case2 cs ih => simp_all [scanMarks]
  | case3 cs hcs =>
    refine scanMarks_percent ?_
    cases cs <;> simp_all
  | case4 c cs _ hc ih => simp_all [scanMarks_cons]

lemma none_mem_of_scanMarks (h : scanMarks cs = some ps) (hmem : '%' ∈ cs) : none ∈ ps := by
  fun_induction scanMarks cs generalizing ps with
  | case1 => cases hmem
  | case2 cs ih =>
    obtain ⟨qs, -, rfl⟩ := Option.map_eq_some_iff.mp h
    exact mem_cons_self
  | case3 => cases h
  | case4 c cs _ hc ih =>
    obtain ⟨qs, hqs, rfl⟩ := Option.map_eq_some_iff.mp h
    exact mem_cons_of_mem _ (ih hqs (by grind))

lemma numberMarks_append (count : Nat) (ps qs : List (Option Char)) :
    numberMarks count (ps ++ qs) =
      numberMarks count ps ++ numberMarks (count + ps.count none) qs := by
  induction ps generalizing count with
  | nil => rfl
  | cons p ps ih => cases p <;> simp [numberMarks, ih, Nat.add_assoc, Nat.add_comm 1]

lemma numberMarks_map_some (count : Nat) (cs : List Char) :
    numberMarks count (cs.map some) = cs := by
  induction cs <;> simp_all [numberMarks]

end Pieces

/-! ### Tokens -/

/-- A name or a string with a percent sign. -/
def Token.HasPercent : Token → Prop
  | .ident s | .string s | .function s | .typeName s => '%' ∈ s.toList
  | _ => False

section Tokens

variable {t : Token} {ts : List Token} {ps : List (Option Char)}

lemma percent_mem_quotedBy {mark : Char} (hmark : mark ≠ '%') (s : String) :
    '%' ∈ (quotedBy mark s).toList ↔ '%' ∈ s.toList := by
  simp only [quotedBy, String.toList_ofList, mem_cons, mem_append, mem_flatMap, not_mem_nil,
    or_false, Ne.symm hmark, false_or]
  constructor
  · rintro ⟨c, hc, hpercent⟩
    split at hpercent
    · exact absurd hpercent (by simp [Ne.symm hmark])
    · rwa [mem_singleton.mp hpercent]
  · exact fun h => ⟨_, h, by simp [Ne.symm hmark]⟩

/-- Only what is written as it is given can hold a percent sign, besides the marks. -/
lemma Token.percent_mem_text (h : t.param? = none) (mark : String) :
    '%' ∈ (t.text mark).toList ↔ t.HasPercent := by
  cases t with
  | keyword k =>
    have hkeyword : '%' ∉ k.text.toList := by cases k <;> decide
    exact iff_of_false hkeyword id
  | symbol s =>
    have hsymbol : '%' ∉ s.text.toList := by cases s <;> decide
    exact iff_of_false hsymbol id
  | space => exact iff_of_false (by simp [Token.text]) id
  | ident name => exact percent_mem_quotedBy (by decide) name
  | int n =>
    refine iff_of_false (fun hmem => ?_) id
    rw [Token.text, Json.intText, String.toList_ofList] at hmem
    have hdigits : '%' ∉ decimalDigits n.toInt.natAbs := fun hd =>
      absurd (isDigit_of_mem_decimalDigits hd) (by decide)
    split at hmem <;> simp_all
  | string s => exact percent_mem_quotedBy (by decide) s
  | param v => cases h
  | function name => rfl
  | typeName name => rfl

lemma Token.text_of_param?_eq_none (h : t.param? = none) (mark mark' : String) :
    t.text mark = t.text mark' := by
  cases t <;> first | rfl | cases h

lemma Token.scanMarks_text (h : ¬ t.HasPercent) (count : Nat) :
    ∃ ps, scanMarks (t.text (format.marker (count + 1))).toList = some ps ∧
      ps.count none = t.paramCount ∧
      numberMarks count ps = (t.text (numbered.marker (count + 1))).toList := by
  cases hparam : t.param? with
  | none =>
    rw [t.text_of_param?_eq_none hparam (numbered.marker _)]
    refine ⟨_, scanMarks_of_not_mem ((percent_mem_text hparam _).not.mpr h), ?_,
      numberMarks_map_some count _⟩
    have hnone : none ∉ (t.text (format.marker (count + 1))).toList.map some := by simp
    rw [count_eq_zero.mpr hnone]
    simp [paramCount, hparam]
  | some v =>
    cases t <;> cases hparam
    exact ⟨[none], by simp [Token.text, marker, scanMarks], rfl, append_nil _⟩

lemma length_param?_cons (t : Token) (ts : List Token) :
    ((t :: ts).filterMap Token.param?).length =
      t.paramCount + (ts.filterMap Token.param?).length := by
  cases h : t.param? <;> simp [Token.paramCount, h, Nat.add_comm]

/-- A percent sign in a name or a string is scanned as a mark that stands for no parameter. -/
lemma Token.paramCount_le_of_scanMarks {count : Nat}
    (h : scanMarks (t.text (format.marker count)).toList = some ps) :
    t.paramCount ≤ ps.count none ∧ (t.HasPercent → t.paramCount < ps.count none) := by
  cases hparam : t.param? with
  | none =>
    have hcount : t.paramCount = 0 := by simp [paramCount, hparam]
    rw [hcount, count_pos_iff]
    exact ⟨Nat.zero_le _, fun hpercent =>
      none_mem_of_scanMarks h ((percent_mem_text hparam _).mpr hpercent)⟩
  | some v =>
    cases t <;> cases hparam
    obtain rfl : [none] = ps := by simpa [Token.text, marker, scanMarks] using h
    exact ⟨le_rfl, False.elim⟩

lemma Stops.not_mem_head? {cs : List Char} (h : Stops cs) : 's' ∉ cs.head? := fun hs => by
  rcases h _ hs with hblank | hmark
  · cases hblank
  · exact absurd hmark (by decide)

lemma scanMarks_tokenTexts_cons {count : Nat} (hsep : Separated (t :: ts))
    (h : scanMarks ((tokenTexts .format count (t :: ts)).flatMap String.toList) = some ps) :
    ∃ ps1 ps2, scanMarks (t.text (format.marker (count + 1))).toList = some ps1 ∧
      scanMarks ((tokenTexts .format (count + t.paramCount) ts).flatMap String.toList) = some ps2 ∧
      ps = ps1 ++ ps2 := by
  rw [tokenTexts_cons, flatMap_cons] at h
  cases hscan : scanMarks (t.text (format.marker (count + 1))).toList with
  | some ps1 =>
    rw [scanMarks_append hscan] at h
    obtain ⟨ps2, hps2, rfl⟩ := Option.map_eq_some_iff.mp h
    exact ⟨ps1, ps2, rfl, hps2, rfl⟩
  | none =>
    -- a token that is no blank and no mark has nothing behind it, or a blank or a mark
    have hloose : t.isLoose = false := by
      rw [Bool.eq_false_iff]
      intro hloose
      have hpercent : ¬ t.HasPercent := by
        rcases t.loose_cases hloose with rfl | ⟨s, c, rfl, -⟩ <;> exact id
      obtain ⟨ps, hps, -⟩ := t.scanMarks_text hpercent count
      simp_all
    have hrest : Stops ((tokenTexts .format (count + t.paramCount) ts).flatMap String.toList) := by
      cases ts with
      | nil => exact stops_nil
      | cons u ts =>
        rw [tokenTexts_cons]
        exact Token.stops_loose (hsep.rel.resolve_left (by simp [hloose])) _ _
    rw [scanMarks_append_none hscan hrest.not_mem_head?] at h
    cases h

/-- Without percent signs in names and strings, the marks are those of the parameters. -/
lemma scanMarks_tokenTexts (h : ∀ t ∈ ts, ¬ t.HasPercent) (count : Nat) :
    ∃ ps, scanMarks ((tokenTexts .format count ts).flatMap String.toList) = some ps ∧
      ps.count none = (ts.filterMap Token.param?).length ∧
      numberMarks count ps = (tokenTexts .numbered count ts).flatMap String.toList := by
  induction ts generalizing count with
  | nil => exact ⟨[], rfl, rfl, rfl⟩
  | cons t ts ih =>
    rw [forall_mem_cons] at h
    obtain ⟨ps1, hps1, hcount1, hnumber1⟩ := Token.scanMarks_text h.1 count
    obtain ⟨ps2, hps2, hcount2, hnumber2⟩ := ih h.2 (count + t.paramCount)
    refine ⟨ps1 ++ ps2, ?_, ?_, ?_⟩
    · rw [tokenTexts_cons, flatMap_cons, scanMarks_append hps1, hps2]
      rfl
    · rw [count_append, hcount1, hcount2, ← length_param?_cons]
    · rw [numberMarks_append, hnumber1, hcount1, hnumber2, tokenTexts_cons, flatMap_cons]

/-- There are never fewer marks than parameters, and more of them if a name or a string holds a
percent sign. -/
lemma length_le_count_of_scanMarks {count : Nat} (hsep : Separated ts)
    (h : scanMarks ((tokenTexts .format count ts).flatMap String.toList) = some ps) :
    (ts.filterMap Token.param?).length ≤ ps.count none ∧
      ∀ t ∈ ts, t.HasPercent → (ts.filterMap Token.param?).length < ps.count none := by
  induction ts generalizing count ps with
  | nil => exact ⟨Nat.zero_le _, by simp⟩
  | cons t ts ih =>
    obtain ⟨ps1, ps2, h1, h2, rfl⟩ := scanMarks_tokenTexts_cons hsep h
    obtain ⟨hle1, hlt1⟩ := Token.paramCount_le_of_scanMarks h1
    obtain ⟨hle2, hlt2⟩ := ih hsep.tail h2
    rw [length_param?_cons, count_append]
    refine ⟨by omega, fun u hu hpercent => ?_⟩
    rcases mem_cons.mp hu with rfl | hu
    · have := hlt1 hpercent
      omega
    · have := hlt2 u hu hpercent
      omega

end Tokens

/-! ### Statements -/

lemma renderTokens_marksAs_iff {ts : List Token} (hsep : Separated ts) :
    (renderTokens .format ts).MarksAs (renderTokens .numbered ts) ↔ ∀ t ∈ ts, ¬ t.HasPercent := by
  have htext : ∀ placeholder, (renderTokens placeholder ts).sql.toList =
      (tokenTexts placeholder 0 ts).flatMap String.toList := fun _ => String.toList_join
  constructor
  · rintro ⟨ps, hps, hcount, -⟩ t ht hpercent
    rw [htext] at hps
    exact absurd hcount ((length_le_count_of_scanMarks hsep hps).2 t ht hpercent).ne'
  · intro h
    obtain ⟨ps, hps, hcount, hnumber⟩ := scanMarks_tokenTexts h 0
    exact ⟨ps, by rw [htext, hps], hcount, by rw [htext, hnumber]⟩

/-- **Marks that are all alike are clear if and only if names and strings hold no percent sign.**
Scan the text of a statement for `%s`, every percent sign starting a mark. There are as many marks
as values, no other percent sign, and numbering the marks gives the text with numbered parameters,
if and only if no name of a table, a column, a function or a type in the statement holds a percent
sign, and no string. The same holds of the texts that the parts of a statement are sent as, such as
the settings of a session. -/
theorem format_marks_iff (s : Statement) :
    ((s.render .format).MarksAs (s.render .numbered) ↔ ∀ t ∈ s.tokens, ¬ t.HasPercent) ∧
      (Forall₂ Rendered.MarksAs (s.batch .format).parts (s.batch .numbered).parts ↔
        ∀ part ∈ s.parts, ∀ t ∈ part.tokens, ¬ t.HasPercent) := by
  have hrender : ∀ s : Statement,
      (s.render .format).MarksAs (s.render .numbered) ↔ ∀ t ∈ s.tokens, ¬ t.HasPercent :=
    fun s => renderTokens_marksAs_iff s.tokens_phrase.separated
  refine ⟨hrender s, ?_⟩
  simp only [Statement.batch, forall₂_map_left_iff, forall₂_map_right_iff, forall₂_same, hrender]

/-- A rate in percent, as a variable of a session. -/
def rateSetting : Statement := .setLocal (.var "app.rate" (.text "5%s"))

/-- The text of the rate is sent without values, and holds a mark. -/
theorem rate_is_marked : (rateSetting.render .format).args = [] ∧
    ¬ (rateSetting.render .format).MarksAs (rateSetting.render .numbered) := by
  refine ⟨rfl, fun h => ?_⟩
  have hpercent : Token.HasPercent (.string "5%s") := show '%' ∈ "5%s".toList by decide
  exact (renderTokens_marksAs_iff rateSetting.tokens_phrase.separated).mp h _
    (by simp [rateSetting, Statement.tokens, SetLocal.tokens, Value.plainText]) hpercent

end StagedSql
