import IdlFormat.Proofs.Weaving

/-!
# Beads

Every change of spacing keeps the characters that are no blanks and decides anew before which of
them a space stands. A text is therefore taken apart into beads, characters with a flag for the
blanks before them, and each change of spacing becomes a rule for the flags. A rule that looks only
at the flag itself and at the characters before it is stable if applying it twice sets no other
flags than applying it once; that makes the canonical spacing of statements, attributes and alias
lists stable.
-/

namespace IdlFormat

theorem isWordChar_of_isBlank {c : Char} (blank : isBlank c) : isWordChar c = false := by
  have listed := toNat_mem_of_isBlank blank
  have outside : Text.inRanges c.toNat alphanumericRanges = false ∧ c.toNat ≠ '_'.toNat := by
    generalize c.toNat = n at listed
    clear blank
    revert n
    decide +kernel
  have other : c ≠ '_' := fun same => outside.2 (by rw [same])
  simp [isWordChar, outside.1, other]

/-- A character that is no blank, with a flag that tells whether blanks stand before it. -/
structure Bead where
  /-- Whether blanks stand before the character. -/
  gap : Bool
  /-- The character. -/
  char : Char
  /-- It is no blank. -/
  solid : isBlank char = false

namespace Bead

/-- The beads of a text; `gap` says that blanks stand before the text. Blanks at the end of the text
leave no trace. -/
def ofText (gap : Bool) : Text → List Bead
  | [] => []
  | c :: rest =>
      if solid : isBlank c = false then ⟨gap, c, solid⟩ :: ofText false rest
      else ofText true rest

/-- The text of beads, with one space for each gap. -/
def spell : List Bead → Text
  | [] => []
  | bead :: beads => (if bead.gap then [' '] else []) ++ bead.char :: spell beads

/-- Closes the gap before the first bead. -/
def unlead : List Bead → List Bead
  | [] => []
  | bead :: beads => { bead with gap := false } :: beads

/-- Sets every gap anew by a rule for the previous character, the old gap and the character. -/
def regap (rule : Option Char → Bool → Char → Bool) (before : Option Char) :
    List Bead → List Bead
  | [] => []
  | bead :: beads =>
      { bead with gap := rule before bead.gap bead.char } :: regap rule (some bead.char) beads

/-- The blanks behind a text that spells beads: none or one space. -/
def trail (blank : Bool) : Text :=
  if blank then [' '] else []

theorem trail_false : trail false = [] := rfl

theorem trail_true : trail true = [' '] := rfl

theorem spell_cons (bead : Bead) (beads : List Bead) :
    spell (bead :: beads) = trail bead.gap ++ bead.char :: spell beads := rfl

theorem ofText_blank {c : Char} (blank : isBlank c) (gap : Bool) (rest : Text) :
    ofText gap (c :: rest) = ofText true rest := by
  simp [ofText, blank]

theorem ofText_solid {c : Char} (solid : isBlank c = false) (gap : Bool) (rest : Text) :
    ofText gap (c :: rest) = ⟨gap, c, solid⟩ :: ofText false rest := by
  simp [ofText, solid]

theorem ofText_trail_append (gap blank : Bool) (text : Text) :
    ofText gap (trail blank ++ text) = ofText (gap || blank) text := by
  cases blank with
  | false => simp [trail]
  | true => simp [trail, ofText_blank isBlank_space]

theorem ofText_spell_append (beads : List Bead) (text : Text) :
    ofText false (spell beads ++ text) = beads ++ ofText false text := by
  induction beads with
  | nil => rfl
  | cons bead beads ih =>
      rw [spell_cons, List.append_assoc, ofText_trail_append, List.cons_append,
        ofText_solid bead.solid, ih]
      simp

theorem ofText_trail (gap blank : Bool) : ofText gap (trail blank) = [] := by
  cases blank <;> simp [trail, ofText, isBlank_space]

theorem trail_append_collapseFrom (afterBlank : Bool) (text : Text) :
    ∃ blank, trail afterBlank ++ Text.collapseFrom afterBlank text =
      spell (ofText afterBlank text) ++ trail blank := by
  induction text generalizing afterBlank with
  | nil => exact ⟨afterBlank, by simp [Text.collapseFrom, ofText, spell]⟩
  | cons c rest ih =>
      cases solid : isBlank c with
      | true =>
          obtain ⟨blank, same⟩ := ih true
          refine ⟨blank, ?_⟩
          rw [ofText_blank solid, ← same]
          cases afterBlank <;> simp [Text.collapseFrom, solid, trail]
      | false =>
          obtain ⟨blank, same⟩ := ih false
          refine ⟨blank, ?_⟩
          rw [ofText_solid solid, spell_cons, List.append_assoc, List.cons_append, ← same]
          simp [Text.collapseFrom, solid, trail]

theorem collapse_eq (text : Text) :
    ∃ blank, text.collapse = spell (ofText false text) ++ trail blank := by
  obtain ⟨blank, same⟩ := trail_append_collapseFrom false text
  exact ⟨blank, same⟩

theorem trimEnd_spell_append (beads : List Bead) (blank : Bool) :
    Text.trimEnd (spell beads ++ trail blank) = spell beads := by
  induction beads with
  | nil => cases blank <;> decide
  | cons bead beads ih =>
      rw [spell_cons, List.append_assoc, List.cons_append, Text.trimEnd_append, Text.trimEnd_cons, ih]
      · simp [bead.solid]
      · simp [Text.trimEnd_cons, bead.solid]

theorem trim_spell_append (beads : List Bead) (blank : Bool) :
    Text.trim (spell beads ++ trail blank) = spell (unlead beads) := by
  cases beads with
  | nil => cases blank <;> decide
  | cons bead beads =>
      have started : Text.trimStart (spell (bead :: beads) ++ trail blank) =
          spell (unlead (bead :: beads)) ++ trail blank := by
        rw [spell_cons, List.append_assoc, Text.trimStart_append]
        · simp [Text.trimStart, bead.solid, unlead, spell]
        · cases bead.gap <;> simp [trail, isBlank_space]
      rw [Text.trim, started, trimEnd_spell_append]

theorem trim_collapse (text : Text) :
    text.collapse.trim = spell (unlead (ofText false text)) := by
  obtain ⟨blank, same⟩ := collapse_eq text
  rw [same, trim_spell_append]

theorem head?_spell_append (beads : List Bead) (blank : Bool) :
    (spell beads ++ trail blank).head?.any isBlank =
      match beads with
      | [] => blank
      | bead :: _ => bead.gap := by
  cases beads with
  | nil => cases blank <;> simp [spell, trail, isBlank_space]
  | cons bead beads => cases flag : bead.gap <;> simp [spell, flag, bead.solid, isBlank_space]

/-- A space after each comma. -/
def afterComma (before : Option Char) (gap : Bool) (_ : Char) : Bool :=
  gap || before.any (· = ',')

theorem spaceCommas_blank {c : Char} (blank : isBlank c) (rest : Text) :
    Text.spaceCommas (c :: rest) = c :: Text.spaceCommas rest := by
  have : c ≠ ',' := by
    rintro rfl
    exact absurd blank (by decide)
  simp [Text.spaceCommas, this]

theorem spaceCommas_trail (blank : Bool) (text : Text) :
    Text.spaceCommas (trail blank ++ text) = trail blank ++ Text.spaceCommas text := by
  cases blank <;> simp [trail, spaceCommas_blank isBlank_space]

/-- The character before the end of beads that follow a character. -/
def final (before : Option Char) : List Bead → Option Char
  | [] => before
  | bead :: beads => final (some bead.char) beads

theorem final_regap (rule : Option Char → Bool → Char → Bool) (before first : Option Char)
    (beads : List Bead) : final first (regap rule before beads) = final first beads := by
  induction beads generalizing before first with
  | nil => rfl
  | cons bead beads ih => exact ih _ _

theorem spaceCommas_cons (c : Char) (rest : Text) :
    Text.spaceCommas (c :: rest) =
      c :: (trail (c = ',' && !(rest.head?.any isBlank)) ++ Text.spaceCommas rest) := by
  by_cases comma : c = ',' && !(rest.head?.any isBlank)
  · simp [Text.spaceCommas, comma, trail]
  · simp only [Bool.not_eq_true] at comma
    simp [Text.spaceCommas, comma, trail]

theorem trail_append_trail (first second : Bool) (text : Text) :
    trail (first && !second) ++ (trail second ++ text) = trail (second || first) ++ text := by
  cases first <;> cases second <;> simp [trail]

theorem spaceCommas_spell_append (before : Option Char) (beads : List Bead) (blank : Bool) :
    trail (before.any (· = ',') && !((spell beads ++ trail blank).head?.any isBlank)) ++
        Text.spaceCommas (spell beads ++ trail blank) =
      spell (regap afterComma before beads) ++ trail (blank || (final before beads).any (· = ',')) := by
  induction beads generalizing before with
  | nil =>
      have ended : Text.spaceCommas (trail blank) = trail blank := by cases blank <;> decide
      rw [head?_spell_append]
      simp only [spell, List.nil_append, ended, final, regap]
      simpa using trail_append_trail (before.any (· = ',')) blank []
  | cons bead beads ih =>
      rw [head?_spell_append, spell_cons, List.append_assoc, spaceCommas_trail, trail_append_trail,
        List.cons_append, spaceCommas_cons]
      have later := ih (some bead.char)
      simp only [Option.any_some] at later
      rw [later]
      simp [regap, spell_cons, afterComma, final]

/-- Spaces on both sides of each operator. -/
def aroundOperators (before : Option Char) (gap : Bool) (c : Char) : Bool :=
  gap || isOperator c || before.any isOperator

theorem padOperators_trail (blank : Bool) : Statement.padOperators (trail blank) = trail blank := by
  cases blank <;> decide

theorem ofText_padOperators (before : Option Char) (beads : List Bead) (blank : Bool) :
    ofText (before.any isOperator) (Statement.padOperators (spell beads ++ trail blank)) =
      regap aroundOperators before beads := by
  induction beads generalizing before with
  | nil => rw [spell, List.nil_append, padOperators_trail, ofText_trail, regap]
  | cons bead beads ih =>
      have parts : Statement.padOperators (spell (bead :: beads) ++ trail blank) =
          trail bead.gap ++ ((if isOperator bead.char then [' ', bead.char, ' '] else [bead.char]) ++
            Statement.padOperators (spell beads ++ trail blank)) := by
        rw [spell_cons, List.append_assoc, Statement.padOperators, List.flatMap_append,
          List.cons_append, List.flatMap_cons]
        exact congrArg (· ++ _) (padOperators_trail bead.gap)
      have later := ih (some bead.char)
      rw [parts, ofText_trail_append, regap, ← later]
      cases operator : isOperator bead.char with
      | true =>
          simp [ofText_blank isBlank_space, ofText_solid bead.solid, operator, aroundOperators]
      | false =>
          simp [ofText_solid bead.solid, operator, aroundOperators, Bool.or_comm]

/-- No space before a mark. -/
def tight (mark : Char) (_ : Option Char) (gap : Bool) (c : Char) : Bool :=
  gap && c != mark

theorem tighten_spell_append {mark : Char} (solid : isBlank mark = false) (before : Option Char)
    (beads : List Bead) (blank : Bool) :
    Text.tighten mark (spell beads ++ trail blank) =
      spell (regap (tight mark) before beads) ++ trail blank := by
  induction beads generalizing before with
  | nil => cases blank <;> simp [spell, regap, trail, Text.tighten]
  | cons bead beads ih =>
      have own (rest : Text) :
          Text.tighten mark (bead.char :: rest) = bead.char :: Text.tighten mark rest := by
        simp [Text.tighten_cons, bead.solid]
      rw [spell_cons, List.append_assoc, List.cons_append, regap, spell_cons]
      cases gap : bead.gap with
      | false => simp [trail_false, own, ih (some bead.char), tight]
      | true =>
          by_cases marked : bead.char = mark
          · simp [trail_true, trail_false, Text.tighten_cons, ih (some mark), tight, marked, solid,
              isBlank_space]
          · have unmarked : (bead.char != mark) = true := by simpa using marked
            simp [trail_true, Text.tighten_cons, ih (some bead.char), tight, marked, unmarked,
              bead.solid]

/-- A space between a closing square bracket and a name. -/
def afterBracket (before : Option Char) (gap : Bool) (c : Char) : Bool :=
  gap || (before.any (· = ']') && Statement.startsName c)

theorem spaceAfterBrackets_cons (c : Char) (rest : Text) :
    Statement.spaceAfterBrackets (c :: rest) =
      c :: (trail (c = ']' && rest.head?.any Statement.startsName) ++
        Statement.spaceAfterBrackets rest) := by
  by_cases bracket : c = ']' && rest.head?.any Statement.startsName
  · simp [Statement.spaceAfterBrackets, bracket, trail]
  · simp only [Bool.not_eq_true] at bracket
    simp [Statement.spaceAfterBrackets, bracket, trail]

theorem spaceAfterBrackets_trail (blank : Bool) (text : Text) :
    Statement.spaceAfterBrackets (trail blank ++ text) =
      trail blank ++ Statement.spaceAfterBrackets text := by
  cases blank <;> simp [trail, Statement.spaceAfterBrackets]

theorem spaceAfterBrackets_spell_append (before : Option Char) (beads : List Bead) (blank : Bool) :
    trail (before.any (· = ']') &&
          (spell beads ++ trail blank).head?.any Statement.startsName) ++
        Statement.spaceAfterBrackets (spell beads ++ trail blank) =
      spell (regap afterBracket before beads) ++ trail blank := by
  have space : Statement.startsName ' ' = false := by decide
  induction beads generalizing before with
  | nil => cases blank <;> simp [spell, regap, trail, Statement.spaceAfterBrackets, space]
  | cons bead beads ih =>
      rw [spell_cons, List.append_assoc, spaceAfterBrackets_trail, List.cons_append,
        spaceAfterBrackets_cons]
      have later := ih (some bead.char)
      simp only [Option.any_some] at later
      rw [later]
      cases gap : bead.gap <;> simp [regap, spell_cons, afterBracket, trail, space, gap]

/-- A space between a keyword and a parenthesis; `word` is the word right before the beads, last
character first. -/
def keywordGaps (word : Text) : List Bead → List Bead
  | [] => []
  | bead :: beads =>
      let word := if bead.gap then [] else word
      { bead with gap := bead.gap || (bead.char = '(' && Keyword.spaced.contains word.reverse) } ::
        keywordGaps (if isWordChar bead.char then bead.char :: word else []) beads

theorem nil_not_mem_spaced : [] ∉ Keyword.spaced := by decide

theorem spaceKeywordsFrom_spell_append (word : Text) (beads : List Bead) (blank : Bool) :
    Statement.spaceKeywordsFrom word (spell beads ++ trail blank) =
      spell (keywordGaps word beads) ++ trail blank := by
  have space : isWordChar ' ' = false := by decide
  have opening : isWordChar '(' = false := by decide
  induction beads generalizing word with
  | nil => cases blank <;> simp [spell, keywordGaps, trail, Statement.spaceKeywordsFrom]
  | cons bead beads ih =>
      rw [spell_cons, List.append_assoc, List.cons_append, keywordGaps, spell_cons]
      -- a gap ends the word, so that no keyword stands right before the bead
      have start : Statement.spaceKeywordsFrom word
          (trail bead.gap ++ bead.char :: (spell beads ++ trail blank)) =
          trail bead.gap ++ Statement.spaceKeywordsFrom (if bead.gap then [] else word)
            (bead.char :: (spell beads ++ trail blank)) := by
        cases gap : bead.gap <;> simp [trail, Statement.spaceKeywordsFrom, space]
      rw [start, Statement.spaceKeywordsFrom]
      by_cases keyword : (decide (bead.char = '(') &&
          Keyword.spaced.contains (if bead.gap then [] else word).reverse) = true
      · have notWord : isWordChar bead.char = false := by
          simp only [Bool.and_eq_true, decide_eq_true_eq] at keyword
          rw [keyword.1, opening]
        have noGap : bead.gap = false := by
          cases gap : bead.gap with
          | false => rfl
          | true => simp [gap, nil_not_mem_spaced] at keyword
        simp only [keyword, if_true, ih, notWord, Bool.false_eq_true, if_false, Bool.or_true]
        simp [noGap, trail_true, trail_false]
      · simp only [Bool.not_eq_true] at keyword
        simp only [keyword, Bool.false_eq_true, if_false, ih, Bool.or_false]
        simp

theorem regap_regap (rule other : Option Char → Bool → Char → Bool) (before : Option Char)
    (beads : List Bead) :
    regap rule before (regap other before beads) =
      regap (fun before gap c => rule before (other before gap c) c) before beads := by
  induction beads generalizing before with
  | nil => rfl
  | cons bead beads ih => simp only [regap, ih]

theorem ofText_spell (beads : List Bead) : ofText false (spell beads) = beads := by
  simpa [ofText] using ofText_spell_append beads []

/-- The gaps of a statement, save those that keywords make. -/
def inStatement (before : Option Char) (gap : Bool) (c : Char) : Bool :=
  afterBracket before (tight ';' before (aroundOperators before (afterComma before gap c) c) c) c

/-- Sets the gaps of a statement. -/
def statementGaps (beads : List Bead) : List Bead :=
  unlead (keywordGaps [] (regap inStatement none beads))

theorem statementGaps_unlead (beads : List Bead) :
    statementGaps (unlead beads) = statementGaps beads := by
  cases beads with
  | nil => rfl
  | cons bead beads => simp [statementGaps, unlead, regap, keywordGaps]

/-- Whether a statement needs a space between two characters. -/
def needed (before : Option Char) (c : Char) : Bool :=
  before.any (· = ',') || isOperator c || before.any isOperator ||
    (before.any (· = ']') && Statement.startsName c)

theorem inStatement_eq (before : Option Char) (gap : Bool) (c : Char) :
    inStatement before gap c = (c != ';' && (gap || needed before c)) := by
  by_cases semicolon : c = ';'
  · have noName : Statement.startsName ';' = false := by decide
    simp [inStatement, afterBracket, tight, semicolon, noName]
  · have other : (c != ';') = true := by simpa using semicolon
    simp only [inStatement, afterBracket, tight, aroundOperators, afterComma, other, needed,
      Bool.and_true, Bool.true_and, Bool.or_assoc]

/-- A gap that was set in a statement stays, and so does one that a keyword made. -/
theorem inStatement_inStatement (before : Option Char) (gap : Bool) {c : Char} {keyword : Bool}
    (made : keyword → c = '(') :
    inStatement before (inStatement before gap c || keyword) c =
      (inStatement before gap c || keyword) := by
  cases keyword with
  | true =>
      simp only [inStatement_eq, made rfl]
      simp
  | false =>
      rw [Bool.or_false, inStatement_eq, inStatement_eq]
      cases (c != ';') <;> cases gap <;> cases needed before c <;> rfl

theorem keywordGaps_regap_stable (word : Text) (before : Option Char) (beads : List Bead) :
    keywordGaps word (regap inStatement before (keywordGaps word (regap inStatement before beads))) =
      keywordGaps word (regap inStatement before beads) := by
  induction beads generalizing word before with
  | nil => rfl
  | cons bead beads ih =>
      have opening : isWordChar '(' = false := by decide
      simp only [regap, keywordGaps]
      generalize set : inStatement before bead.gap bead.char = gap
      generalize found : (decide (bead.char = '(') &&
        Keyword.spaced.contains (if gap then [] else word).reverse) = keyword
      have made : keyword → bead.char = '(' := by
        intro isKeyword
        rw [isKeyword, Bool.and_eq_true, decide_eq_true_eq] at found
        exact found.1
      have kept := inStatement_inStatement before bead.gap made
      rw [set] at kept
      rw [kept]
      -- where a keyword made the gap, the parenthesis ends the word in any case
      have sameWord :
          (if isWordChar bead.char then bead.char :: (if gap || keyword then [] else word) else []) =
          if isWordChar bead.char then bead.char :: (if gap then [] else word) else [] := by
        cases keyword with
        | false => simp
        | true => simp [made rfl, opening]
      have sameGap : (gap || keyword || decide (bead.char = '(') &&
          Keyword.spaced.contains (if gap || keyword then [] else word).reverse) =
          (gap || keyword) := by
        cases isSet : gap || keyword with
        | true => simp
        | false =>
            rw [Bool.or_eq_false_iff] at isSet
            rw [isSet.1, isSet.2] at found
            simpa using found
      rw [sameWord, sameGap, ih]

theorem statementGaps_statementGaps (beads : List Bead) :
    statementGaps (statementGaps beads) = statementGaps beads := by
  cases beads with
  | nil => rfl
  | cons bead beads =>
      have stable := keywordGaps_regap_stable (if isWordChar bead.char then [bead.char] else [])
        (some bead.char) beads
      simp only [statementGaps, unlead, regap, keywordGaps, ite_self, stable]

end Bead

theorem Statement.respace_eq (text : Text) :
    respace text = Bead.spell (Bead.statementGaps (Bead.ofText false text)) := by
  have commas := Bead.spaceCommas_spell_append none (Bead.unlead (Bead.ofText false text)) false
  simp only [Option.any_none, Bool.false_and, Bead.trail_false, List.nil_append, List.append_nil,
    Bool.false_or] at commas
  obtain ⟨blank, padded⟩ := Bead.collapse_eq (padOperators (text.collapse.trim.spaceCommas))
  have operators := Bead.ofText_padOperators none
    (Bead.regap Bead.afterComma none (Bead.unlead (Bead.ofText false text)))
    ((Bead.final none (Bead.unlead (Bead.ofText false text))).any (· = ','))
  rw [Option.any_none, ← commas, ← Bead.trim_collapse] at operators
  have brackets (beads : List Bead) :
      spaceAfterBrackets (Bead.spell beads ++ Bead.trail blank) =
        Bead.spell (Bead.regap Bead.afterBracket none beads) ++ Bead.trail blank := by
    simpa [Bead.trail_false] using Bead.spaceAfterBrackets_spell_append none beads blank
  have semicolon : isBlank ';' = false := by decide
  rw [respace, padded, operators, Bead.tighten_spell_append semicolon none, brackets, spaceKeywords,
    Bead.spaceKeywordsFrom_spell_append, Bead.trim_spell_append, Bead.regap_regap, Bead.regap_regap,
    Bead.regap_regap, ← Bead.statementGaps_unlead]
  rfl

theorem Statement.respace_respace (text : Text) : respace (respace text) = respace text := by
  rw [respace_eq, respace_eq text, Bead.ofText_spell, Bead.statementGaps_statementGaps]

namespace Bead

theorem spell_append (left right : List Bead) : spell (left ++ right) = spell left ++ spell right := by
  induction left with
  | nil => rfl
  | cons bead beads ih => simp [spell, ih]

theorem regap_append (rule : Option Char → Bool → Char → Bool) (before : Option Char)
    (left right : List Bead) :
    regap rule before (left ++ right) =
      regap rule before left ++ regap rule (final before left) right := by
  induction left generalizing before with
  | nil => rfl
  | cons bead beads ih => simp [regap, final, ih]

theorem final_append (before : Option Char) (left right : List Bead) :
    final before (left ++ right) = final (final before left) right := by
  induction left generalizing before with
  | nil => rfl
  | cons bead beads ih => simp [final, ih]

theorem ofText_append_solid {c : Char} (solid : isBlank c = false) (gap : Bool) (left right : Text) :
    ofText gap (left ++ c :: right) = ofText gap (left ++ [c]) ++ ofText false right := by
  induction left generalizing gap with
  | nil => simp [ofText_solid solid, ofText]
  | cons d left ih =>
      cases other : isBlank d with
      | true => simp [ofText_blank other, ih]
      | false => simp [ofText_solid other, ih]

theorem final_ofText {c : Char} (solid : isBlank c = false) (gap : Bool) (before : Option Char)
    (left : Text) : final before (ofText gap (left ++ [c])) = some c := by
  induction left generalizing gap before with
  | nil => simp [ofText_solid solid, ofText, final]
  | cons d left ih =>
      cases other : isBlank d with
      | true => simp [ofText_blank other, ih]
      | false => simp [ofText_solid other, final, ih]

theorem exists_ofText_concat {c : Char} (solid : isBlank c = false) (gap : Bool) (text : Text) :
    ∃ own, ofText gap (text ++ [c]) = ofText gap text ++ [⟨own, c, solid⟩] := by
  induction text generalizing gap with
  | nil => exact ⟨gap, by simp [ofText_solid solid, ofText]⟩
  | cons d text ih =>
      cases other : isBlank d with
      | true => simpa [ofText_blank other] using ih true
      | false => simpa [ofText_solid other] using ih false

theorem ofText_compact (gap : Bool) (text : Text) :
    (ofText gap text).map char = text.compact := by
  induction text generalizing gap with
  | nil => rfl
  | cons c rest ih =>
      cases solid : isBlank c with
      | true => simp [ofText_blank solid, Text.compact_cons, solid, ih]
      | false => simp [ofText_solid solid, Text.compact_cons, solid, ih]

theorem spell_ofText_of_solid {text : Text} (solid : ∀ c ∈ text, isBlank c = false) :
    spell (ofText false text) = text := by
  induction text with
  | nil => rfl
  | cons c rest ih =>
      rw [ofText_solid (solid c List.mem_cons_self), spell_cons,
        ih fun d member => solid d (List.mem_cons_of_mem c member)]
      rfl

theorem unlead_regap {rule : Option Char → Bool → Char → Bool} {before : Option Char}
    (keeps : ∀ c, rule before false c = false) (beads : List Bead) :
    regap rule before (unlead beads) = unlead (regap rule before beads) := by
  cases beads with
  | nil => rfl
  | cons bead beads => simp [unlead, regap, keeps]

theorem unlead_append {left : List Bead} (filled : left ≠ []) (right : List Bead) :
    unlead (left ++ right) = unlead left ++ right := by
  cases left with
  | nil => exact absurd rfl filled
  | cons bead beads => rfl

theorem unlead_unlead (beads : List Bead) : unlead (unlead beads) = unlead beads := by
  cases beads <;> rfl

theorem unlead_ofText_trimStart (gap other : Bool) (text : Text) :
    unlead (ofText gap text.trimStart) = unlead (ofText other text) := by
  induction text generalizing other with
  | nil => rfl
  | cons c rest ih =>
      cases solid : isBlank c with
      | true =>
          rw [ofText_blank solid, ← ih true, Text.trimStart, List.dropWhile_cons_of_pos solid]
          rfl
      | false =>
          rw [Text.trimStart, List.dropWhile_cons_of_neg (by simp [solid]), ofText_solid solid,
            ofText_solid solid]
          rfl

theorem ofText_trimEnd (gap : Bool) (text : Text) : ofText gap text.trimEnd = ofText gap text := by
  induction text generalizing gap with
  | nil => rfl
  | cons c rest ih =>
      cases solid : isBlank c with
      | true =>
          rw [ofText_blank solid, ← ih true, Text.trimEnd_cons, solid, Bool.true_and]
          cases empty : Text.trimEnd rest with
          | nil => simp [ofText]
          | cons d others => simp [ofText_blank solid]
      | false => simp [Text.trimEnd_cons, solid, ofText_solid solid, ih]

theorem unlead_ofText_trim (text : Text) :
    unlead (ofText false text.trim) = unlead (ofText false text) := by
  rw [Text.trim, ofText_trimEnd, unlead_ofText_trimStart]

theorem respaceCommasFrom_solid {c : Char} (solid : isBlank c = false) (afterComma : Bool)
    (rest : Text) :
    Text.respaceCommasFrom afterComma (c :: rest) =
      c :: (trail (c = ',') ++ Text.respaceCommasFrom (c = ',') rest) := by
  simp only [Text.respaceCommasFrom, solid, Bool.and_false, Bool.false_eq_true, if_false]
  by_cases comma : c = ',' <;> simp [comma, trail]

theorem respaceCommasFrom_spell_append (before : Option Char) (beads : List Bead) (blank : Bool) :
    trail (before.any (· = ',')) ++
        Text.respaceCommasFrom (before.any (· = ',')) (spell beads ++ trail blank) =
      spell (regap afterComma before beads) ++
        trail (blank || (final before beads).any (· = ',')) := by
  induction beads generalizing before with
  | nil =>
      cases ended : before.any (· = ',') <;> cases blank <;>
        simp [spell, regap, final, trail, Text.respaceCommasFrom, isBlank_space, ended]
  | cons bead beads ih =>
      rw [spell_cons, List.append_assoc, List.cons_append]
      have start (ended : Bool) (text : Text) :
          trail ended ++ Text.respaceCommasFrom ended (trail bead.gap ++ text) =
            trail (bead.gap || ended) ++ Text.respaceCommasFrom ended text := by
        cases ended <;> cases bead.gap <;> simp [trail, Text.respaceCommasFrom, isBlank_space]
      have later := ih (some bead.char)
      simp only [Option.any_some] at later
      rw [start, respaceCommasFrom_solid bead.solid, later]
      simp [regap, spell_cons, afterComma, final]

/-- The gaps of arguments: a space after each comma and none before it. -/
def inArguments (before : Option Char) (gap : Bool) (c : Char) : Bool :=
  afterComma before (tight ',' before gap c) c

theorem respaceCommas_spell_append (beads : List Bead) (blank : Bool) :
    Text.respaceCommas (spell beads ++ trail blank) =
      spell (regap inArguments none beads) ++
        trail (blank || (final none beads).any (· = ',')) := by
  have comma : isBlank ',' = false := by decide
  have spaced := respaceCommasFrom_spell_append none (regap (tight ',') none beads) blank
  simp only [Option.any_none, trail_false, List.nil_append] at spaced
  rw [Text.respaceCommas, tighten_spell_append comma none, spaced, regap_regap, final_regap]
  rfl

theorem inArguments_afterComma (before : Option Char) (gap : Bool) (c : Char) :
    inArguments before (afterComma before (inArguments before gap c) c) c =
      inArguments before gap c := by
  simp only [inArguments, afterComma, tight]
  cases before.any (· = ',') <;> cases (c != ',') <;> cases gap <;> rfl

/-- A gap before a comma is closed, and one behind a comma is made, once and for all. -/
theorem inArguments_inArguments (before : Option Char) (gap : Bool) (c : Char) :
    inArguments before (inArguments before gap c) c = inArguments before gap c := by
  simp only [inArguments, afterComma, tight]
  cases before.any (· = ',') <;> cases (c != ',') <;> cases gap <;> rfl

theorem regap_inArguments_regap (before : Option Char) (beads : List Bead) :
    regap inArguments before (regap inArguments before beads) = regap inArguments before beads := by
  simp only [regap_regap, inArguments_inArguments]

theorem map_char_regap (rule : Option Char → Bool → Char → Bool) (before : Option Char)
    (beads : List Bead) : (regap rule before beads).map char = beads.map char := by
  induction beads generalizing before with
  | nil => rfl
  | cons bead beads ih => simp [regap, ih]

theorem map_char_unlead (beads : List Bead) : (unlead beads).map char = beads.map char := by
  cases beads <;> rfl

theorem unlead_ofText_of_solid {text : Text} (solid : ∀ c ∈ text, isBlank c = false) :
    unlead (ofText false text) = ofText false text := by
  cases text with
  | nil => rfl
  | cons c rest =>
      rw [ofText_solid (solid c List.mem_cons_self)]
      rfl

theorem regap_afterComma_of_not_mem {before : Option Char} (other : before.any (· = ',') = false)
    {beads : List Bead} (noComma : ',' ∉ beads.map char) : regap afterComma before beads = beads := by
  induction beads generalizing before with
  | nil => rfl
  | cons bead beads ih =>
      simp only [List.map_cons, List.mem_cons, not_or] at noComma
      have next : (some bead.char).any (· = ',') = false := by
        simpa using Ne.symm noComma.1
      simp only [regap, afterComma, other, Bool.or_false, ih next noComma.2]

theorem regap_afterComma_regap (before : Option Char) (beads : List Bead) :
    regap afterComma before (regap afterComma before beads) = regap afterComma before beads := by
  have same : (fun before gap c => afterComma before (afterComma before gap c) c) = afterComma := by
    funext before gap c
    simp only [afterComma, Bool.or_assoc, Bool.or_self]
  rw [regap_regap, same]

theorem regap_afterComma_congr {before other : Option Char}
    (same : before.any (· = ',') = other.any (· = ',')) (beads : List Bead) :
    regap afterComma before beads = regap afterComma other beads := by
  cases beads with
  | nil => rfl
  | cons bead beads => simp only [regap, afterComma, same]

end Bead

namespace Attribute

open Bead (spell ofText unlead regap final trail afterComma inArguments)

theorem spaceCommas_spell (beads : List Bead) :
    (spell beads).spaceCommas =
      spell (regap afterComma none beads) ++ trail ((final none beads).any (· = ',')) := by
  simpa [trail] using Bead.spaceCommas_spell_append none beads false

/-- A text that starts with no space is spaced at its commas. -/
theorem spaced_eq (text : Text) :
    text.collapse.trim.spaceCommas =
      spell (regap afterComma none (unlead (ofText false text))) ++
        trail ((final none (unlead (ofText false text))).any (· = ',')) := by
  rw [Bead.trim_collapse, spaceCommas_spell]

theorem compact_spell (beads : List Bead) : (spell beads).compact = beads.map Bead.char := by
  rw [← Bead.ofText_compact false, Bead.ofText_spell]

theorem mem_iff_of_compact_eq {left right : Text} (same : left.compact = right.compact) {c : Char}
    (solid : isBlank c = false) : c ∈ left ↔ c ∈ right := by
  have member (text : Text) : c ∈ text ↔ c ∈ text.compact := by
    simp [Text.compact, solid]
  rw [member left, member right, same]

theorem isBlank_of_mem_compact {text : Text} {c : Char} (member : c ∈ text.compact) :
    isBlank c = false := by
  simp only [Text.compact, List.mem_filter, Bool.not_eq_true'] at member
  exact member.2

/-- Arguments that are spaced at their commas are left alone by one more change of spacing. -/
theorem formatArguments_eq {arguments : Text}
    (spaced : regap afterComma (some '(') (unlead (ofText false arguments)) =
      unlead (ofText false arguments)) :
    ∃ beads, formatArguments arguments = spell beads ∧ unlead beads = beads ∧
      formatArguments (spell (regap afterComma (some '(') beads)) = spell beads := by
  have square : isBlank '[' = false := by decide
  -- the three ways to write arguments depend on the characters other than blanks only
  have compact {beads : List Bead} (same : beads.map Bead.char = arguments.compact) :
      (spell (regap afterComma (some '(') beads)).compact = arguments.compact := by
    rw [compact_spell, Bead.map_char_regap, same]
  by_cases guid : (!arguments.compact.isEmpty && arguments.compact.all isGuidChar) = true
  · have solid : ∀ c ∈ arguments.compact, isBlank c = false := fun _ => isBlank_of_mem_compact
    have chars : (ofText false arguments.compact).map Bead.char = arguments.compact := by
      rw [Bead.ofText_compact, Text.compact_compact]
    have noComma : ',' ∉ arguments.compact := by
      intro comma
      simp only [Bool.and_eq_true, List.all_eq_true] at guid
      exact absurd (guid.2 _ comma) (by decide)
    have written : spell (ofText false arguments.compact) = arguments.compact :=
      Bead.spell_ofText_of_solid solid
    refine ⟨ofText false arguments.compact, ?_, Bead.unlead_ofText_of_solid solid, ?_⟩
    · rw [formatArguments, if_pos guid, written]
    · rw [Bead.regap_afterComma_of_not_mem rfl (by rw [chars]; exact noComma), written, formatArguments,
        Text.compact_compact, if_pos guid]
  by_cases bounds : arguments.contains '[' = true
  · have chars : (unlead (ofText false arguments)).map Bead.char = arguments.compact := by
      rw [Bead.map_char_unlead, Bead.ofText_compact]
    have same := compact chars
    rw [spaced] at same
    refine ⟨unlead (ofText false arguments), ?_, Bead.unlead_unlead _, ?_⟩
    · rw [formatArguments, if_neg guid, if_pos bounds, Bead.trim_collapse]
    · have boundsToo : (spell (unlead (ofText false arguments))).contains '[' = true := by
        simpa [mem_iff_of_compact_eq same square] using bounds
      rw [spaced, formatArguments, same, if_neg guid, if_pos boundsToo, Bead.trim_collapse,
        Bead.ofText_spell, Bead.unlead_unlead]
  · have respaced (text : Text) : text.collapse.respaceCommas.trim =
        spell (unlead (regap inArguments none (ofText false text))) := by
      obtain ⟨blank, collapsed⟩ := Bead.collapse_eq text
      rw [collapsed, Bead.respaceCommas_spell_append, Bead.trim_spell_append]
    have chars : (unlead (regap inArguments none (ofText false arguments))).map Bead.char =
        arguments.compact := by
      rw [Bead.map_char_unlead, Bead.map_char_regap, Bead.ofText_compact]
    have same := compact chars
    refine ⟨unlead (regap inArguments none (ofText false arguments)), ?_, Bead.unlead_unlead _, ?_⟩
    · rw [formatArguments, if_neg guid, if_neg bounds, respaced]
    · have noBounds : ¬ (spell (regap afterComma (some '(')
          (unlead (regap inArguments none (ofText false arguments))))).contains '[' = true := by
        simpa [mem_iff_of_compact_eq same square] using bounds
      have first : regap afterComma (some '(') = regap afterComma none :=
        funext (Bead.regap_afterComma_congr rfl)
      have stable : regap inArguments none (regap afterComma none
          (unlead (regap inArguments none (ofText false arguments)))) =
          unlead (regap inArguments none (ofText false arguments)) := by
        rw [Bead.unlead_regap fun _ => rfl, Bead.unlead_regap fun _ => rfl, Bead.regap_regap,
          Bead.regap_regap]
        simp only [Bead.inArguments_afterComma]
      rw [formatArguments, same, if_neg guid, if_neg noBounds, respaced, Bead.ofText_spell,
        first, stable, Bead.unlead_unlead]

theorem call?_eq {name : Text} (word : ∀ c ∈ name, isWordChar c) (filled : name ≠ []) (inner : Text) :
    call? (name ++ '(' :: (inner ++ [')'])) = some (name, inner) := by
  have opening : isWordChar '(' = false := by decide
  have leading : Text.leadingWord (name ++ '(' :: (inner ++ [')'])) = name := by
    rw [Text.leadingWord, List.takeWhile_append_of_pos word]
    simp [opening]
  simp [call?, leading, isBlank_opening, filled]

theorem spaced_spaced (text : Text) :
    text.collapse.trim.spaceCommas.collapse.trim.spaceCommas = text.collapse.trim.spaceCommas := by
  rw [spaced_eq, spaced_eq text, Bead.ofText_spell_append, Bead.ofText_trail, List.append_nil,
    ← Bead.unlead_regap fun _ => rfl, Bead.unlead_unlead, Bead.regap_afterComma_regap,
    Bead.final_regap]

/-- In a text that is spaced at its commas, so are the arguments of a call. -/
theorem spaced_arguments {text name gap inner : Text}
    (shape : text.collapse.trim.spaceCommas = name ++ gap ++ '(' :: inner ++ [')']) :
    regap afterComma (some '(') (unlead (ofText false inner.trim)) =
      unlead (ofText false inner.trim) := by
  have closing : isBlank ')' = false := by decide
  have spaced : regap afterComma none (ofText false (name ++ gap ++ '(' :: inner ++ [')'])) =
      ofText false (name ++ gap ++ '(' :: inner ++ [')']) := by
    rw [← shape, spaced_eq, Bead.ofText_spell_append, Bead.ofText_trail, List.append_nil,
      Bead.regap_afterComma_regap]
  obtain ⟨own, ended⟩ := Bead.exists_ofText_concat closing false inner
  rw [List.append_assoc, List.cons_append, Bead.ofText_append_solid isBlank_opening,
    Bead.regap_append, Bead.final_ofText isBlank_opening, ended, Bead.regap_append] at spaced
  have length (rule : Option Char → Bool → Char → Bool) (before : Option Char) (beads : List Bead) :
      (regap rule before beads).length = beads.length := by
    rw [← List.length_map Bead.char, Bead.map_char_regap, List.length_map]
  have outer := (List.append_inj spaced (length _ _ _)).2
  have kept := (List.append_inj outer (length _ _ _)).1
  rw [Bead.unlead_ofText_trim, Bead.unlead_regap fun _ => rfl, kept]

/-- A call is spaced at its commas to a call of the same name. -/
theorem call?_spaced {name : Text} (word : ∀ c ∈ name, isWordChar c) (filled : name ≠ [])
    (beads : List Bead) :
    ∃ blank, call? (name ++ '(' :: (spell beads ++ [')'])).collapse.trim.spaceCommas =
      some (name, spell (regap afterComma (some '(') beads) ++ trail blank) := by
  have closing : isBlank ')' = false := by decide
  have solid : ∀ c ∈ name ++ ['('], isBlank c = false := by
    intro c member
    rcases List.mem_append.1 member with inName | opening
    · cases blank : isBlank c with
      | false => rfl
      | true =>
          have inWord := word c inName
          rw [isWordChar_of_isBlank blank] at inWord
          cases inWord
    · rw [List.mem_singleton.1 opening, isBlank_opening]
  have noComma : ',' ∉ (ofText false (name ++ ['('])).map Bead.char := by
    have comma : isWordChar ',' = false := by decide
    rw [Bead.ofText_compact]
    intro member
    rcases List.mem_append.1 (List.mem_filter.1 member).1 with inName | opening
    · exact absurd (word _ inName) (by simp [comma])
    · simp at opening
  have front : ofText false (name ++ ['(']) ≠ [] := by
    obtain ⟨own, ended⟩ := Bead.exists_ofText_concat isBlank_opening false name
    simp [ended]
  have whole : name ++ '(' :: (spell beads ++ [')']) =
      spell (ofText false (name ++ ['(']) ++ (beads ++ [⟨false, ')', closing⟩])) := by
    rw [Bead.spell_append, Bead.spell_append, Bead.spell_ofText_of_solid solid]
    simp [spell]
  refine ⟨(final (some '(') beads).any (· = ','), ?_⟩
  rw [spaced_eq, whole, Bead.ofText_spell, Bead.unlead_append front, Bead.unlead_ofText_of_solid solid,
    Bead.regap_append, Bead.regap_afterComma_of_not_mem rfl noComma, Bead.final_append,
    Bead.final_ofText isBlank_opening, Bead.regap_append, Bead.spell_append, Bead.spell_append,
    Bead.spell_ofText_of_solid solid]
  rw [← call?_eq word filled]
  simp [regap, afterComma, Bead.spell_cons, spell, Bead.final_append, final, Bead.trail_false]

theorem respace_respace (text : Text) : respace (respace text) = respace text := by
  cases found : call? text.collapse.trim.spaceCommas with
  | none => simp only [respace, found, spaced_spaced]
  | some parts =>
      obtain ⟨name, inner⟩ := parts
      obtain ⟨leading, filled, gap, -, shape⟩ := eq_of_call? found
      obtain ⟨beads, written, started, stable⟩ := formatArguments_eq (spaced_arguments shape)
      have word : ∀ c ∈ name, isWordChar c := by
        rw [leading]
        exact fun c member => List.all_eq_true.1 List.all_takeWhile c member
      have same : respace text = name ++ '(' :: (spell beads ++ [')']) := by
        simp [respace, found, written]
      obtain ⟨blank, again⟩ := call?_spaced word filled beads
      have trimmed : Text.trim (spell (regap afterComma (some '(') beads) ++ trail blank) =
          spell (regap afterComma (some '(') beads) := by
        rw [Bead.trim_spell_append, ← Bead.unlead_regap fun _ => rfl, started]
      rw [same, respace]
      simp only [again, trimmed, stable]
      simp

end Attribute

end IdlFormat
