import IdlFormat.Proofs.Rereading
import Mathlib.Data.List.Chain
import Mathlib.Data.List.DropRight

/-!
# Canonical spacing

What the spacing of a statement looks like is said here by what may stand side by side in it, with
its literals and comments hidden: `Statement.Canonical`. The passes of respacing undo part of each
other, so the conditions hold with exceptions before a semicolon and at the ends of the text, and
those are the only ones.

That a text has the spacing is not followed through the passes one by one. A respaced text spells
beads whose gaps are known (`Statement.respace_eq`), and two characters are neighbours in a text that
beads spell if they are those of neighbouring beads without a gap, or a bead and the space in its gap
(`Bead.isChain_spell`). Only the gaps that keywords make depend on more than two characters.
-/

namespace IdlFormat

namespace Bead

/-- Neighbours in a text that beads spell are neighbouring beads, or beads and the spaces in their
gaps. -/
theorem isChain_spell {related : Char → Char → Prop} {beads : List Bead}
    (spaced : ∀ bead ∈ beads, bead.gap = true → related ' ' bead.char)
    (near : beads.IsChain fun first second =>
      if second.gap then related first.char ' ' else related first.char second.char) :
    (spell beads).IsChain related := by
  induction beads with
  | nil => exact .nil
  | cons bead beads ih =>
      rw [List.isChain_cons] at near
      have later := ih (fun other member => spaced other (List.mem_cons_of_mem _ member)) near.2
      have own : (bead.char :: spell beads).IsChain related := by
        refine List.isChain_cons.2 ⟨?_, later⟩
        cases beads with
        | nil => simp [spell]
        | cons next beads =>
            have close := near.1 next rfl
            cases gap : next.gap <;> simpa [spell_cons, trail, gap] using close
      cases gap : bead.gap with
      | false => simpa [spell_cons, trail, gap] using own
      | true =>
          rw [spell_cons, gap, trail_true, List.singleton_append, List.isChain_cons_cons]
          exact ⟨spaced bead List.mem_cons_self gap, own⟩

/-- Blanks before a text leave a gap before its first bead. -/
theorem gap_head?_ofText {text : Text} {bead : Bead}
    (isFirst : (ofText true text).head? = some bead) : bead.gap = true := by
  induction text with
  | nil => simp [ofText] at isFirst
  | cons c rest ih =>
      cases solid : isBlank c with
      | true => exact ih (by rwa [ofText_blank solid] at isFirst)
      | false =>
          rw [ofText_solid solid] at isFirst
          obtain rfl := Option.some.inj isFirst
          rfl

/-- Neighbouring beads without a gap are neighbours in the text that the beads are taken from. -/
theorem isChain_ofText {related : Char → Char → Prop} {text : Text}
    (near : text.IsChain related) (gap : Bool) :
    (ofText gap text).IsChain fun first second =>
      second.gap = false → related first.char second.char := by
  induction text generalizing gap with
  | nil => exact .nil
  | cons c rest ih =>
      rw [List.isChain_cons] at near
      cases solid : isBlank c with
      | true =>
          rw [ofText_blank solid]
          exact ih near.2 true
      | false =>
          rw [ofText_solid solid, List.isChain_cons]
          refine ⟨?_, ih near.2 false⟩
          intro second isNext noGap
          cases rest with
          | nil => simp [ofText] at isNext
          | cons d rest =>
              cases blank : isBlank d with
              | false =>
                  rw [ofText_solid blank] at isNext
                  obtain rfl := Option.some.inj isNext
                  exact near.1 d rfl
              | true =>
                  rw [ofText_blank blank] at isNext
                  have opened := gap_head?_ofText isNext
                  simp [noGap] at opened

/-- The first gap does not matter to a relation that looks at the second gap only. -/
theorem isChain_unlead {related : Bead → Bead → Prop} {beads : List Bead}
    (ignores : ∀ first other second : Bead, first.char = other.char → related first second →
      related other second)
    (near : beads.IsChain related) : (unlead beads).IsChain related := by
  cases beads with
  | nil => exact near
  | cons bead beads =>
      rw [List.isChain_cons] at near
      exact List.isChain_cons.2
        ⟨fun second isNext => ignores bead _ second rfl (near.1 second isNext), near.2⟩

theorem mem_spell {beads : List Bead} {c : Char} (member : c ∈ spell beads) :
    c = ' ' ∨ ∃ bead ∈ beads, bead.char = c := by
  induction beads with
  | nil => simp [spell] at member
  | cons bead beads ih =>
      rw [spell_cons, List.mem_append, List.mem_cons] at member
      rcases member with inGap | rfl | later
      · cases gap : bead.gap <;> simp_all [trail]
      · exact .inr ⟨bead, List.mem_cons_self, rfl⟩
      · rcases ih later with space | ⟨other, inside, same⟩
        · exact .inl space
        · exact .inr ⟨other, List.mem_cons_of_mem _ inside, same⟩

theorem eq_space_of_mem_spell {beads : List Bead} {c : Char} (member : c ∈ spell beads)
    (blank : isBlank c) : c = ' ' := by
  rcases mem_spell member with space | ⟨bead, -, rfl⟩
  · exact space
  · simp [bead.solid] at blank

/-- A gap stands wherever a statement needs one, and none before a semicolon. -/
structure Spaced (beads : List Bead) : Prop where
  /-- The gaps that are needed. -/
  opened : beads.IsChain fun first second =>
    needed (some first.char) second.char → second.char ≠ ';' → second.gap
  /-- No gap before a semicolon. -/
  closed : ∀ bead ∈ beads, bead.gap → bead.char ≠ ';'

theorem spaced_regap (before : Option Char) (beads : List Bead) :
    Spaced (regap inStatement before beads) := by
  induction beads generalizing before with
  | nil => exact ⟨.nil, by simp [regap]⟩
  | cons bead beads ih =>
      have later := ih (some bead.char)
      refine ⟨List.isChain_cons.2 ⟨?_, later.opened⟩, ?_⟩
      · intro second isNext isNeeded other
        cases beads with
        | nil => simp [regap] at isNext
        | cons next beads =>
            obtain rfl := Option.some.inj isNext
            simp [inStatement_eq, isNeeded, other]
      · intro other member
        rcases List.mem_cons.1 member with rfl | member
        · simp only [inStatement_eq]
          intro gap semicolon
          simp [semicolon] at gap
        · exact later.closed other member

/-- Keywords make gaps, and none before a semicolon. -/
theorem Spaced.keywordGaps {beads : List Bead} (spaced : Spaced beads) (word : Text) :
    Spaced (keywordGaps word beads) := by
  induction beads generalizing word with
  | nil => exact spaced
  | cons bead beads ih =>
      obtain ⟨opened, closed⟩ := spaced
      rw [List.isChain_cons] at opened
      rw [Bead.keywordGaps]
      have later := ih ⟨opened.2, fun other member => closed other (List.mem_cons_of_mem _ member)⟩
        (if isWordChar bead.char then bead.char :: (if bead.gap then [] else word) else [])
      refine ⟨List.isChain_cons.2 ⟨?_, later.opened⟩, ?_⟩
      · intro second isNext isNeeded other
        cases beads with
        | nil => simp [Bead.keywordGaps] at isNext
        | cons next beads =>
            rw [Bead.keywordGaps] at isNext
            obtain rfl := Option.some.inj isNext
            have gap := opened.1 next rfl isNeeded other
            simp [gap]
      · intro other member
        rcases List.mem_cons.1 member with rfl | member
        · intro gap semicolon
          have own : bead.char = ';' := semicolon
          have noGap : bead.gap = false := by
            simpa [own] using closed bead List.mem_cons_self
          simp [own, noGap] at gap
        · exact later.closed other member

theorem Spaced.unlead {beads : List Bead} (spaced : Spaced beads) : Spaced (unlead beads) := by
  obtain ⟨opened, closed⟩ := spaced
  refine ⟨isChain_unlead (fun _ _ _ same near => same ▸ near) opened, ?_⟩
  cases beads with
  | nil => exact closed
  | cons bead beads =>
      intro other member
      rcases List.mem_cons.1 member with rfl | member
      · simp
      · exact closed other (List.mem_cons_of_mem _ member)

theorem spaced_statementGaps (beads : List Bead) : Spaced (statementGaps beads) :=
  ((spaced_regap none beads).keywordGaps []).unlead

end Bead

namespace Text

/-- The run of a class that ends a text begins behind the last character outside it. -/
theorem rtakeWhile_append_cons_of_neg {inClass : Char → Bool} {c : Char}
    (outside : inClass c = false) (front rest : Text) :
    (front ++ c :: rest).rtakeWhile inClass = rest.rtakeWhile inClass := by
  induction rest using List.reverseRecOn with
  | nil => simp [outside]
  | append_singleton rest d ih =>
      rw [List.rtakeWhile_concat, ← ih, ← List.rtakeWhile_concat, List.append_assoc,
        List.cons_append]

theorem rtakeWhile_append_of_pos {inClass : Char → Bool} {rest : Text}
    (inside : ∀ c ∈ rest, inClass c) (front : Text) :
    (front ++ rest).rtakeWhile inClass = front.rtakeWhile inClass ++ rest := by
  have turned : ∀ c ∈ rest.reverse, inClass c :=
    fun c member => inside c (List.mem_reverse.1 member)
  rw [List.rtakeWhile, List.reverse_append, List.takeWhile_append_of_pos turned,
    List.reverse_append, List.reverse_reverse, List.rtakeWhile]

/-- A text is its trimmed form with blanks before it, and something behind it. -/
theorem exists_trim (text : Text) :
    ∃ lead trailing, (∀ c ∈ lead, IdlFormat.isBlank c) ∧ text = lead ++ text.trim ++ trailing := by
  obtain ⟨trailing, ended⟩ := Text.trimEnd_prefix text.trimStart
  refine ⟨text.takeWhile IdlFormat.isBlank, trailing, ?_, ?_⟩
  · exact fun c member => List.all_eq_true.1 List.all_takeWhile c member
  · rw [List.append_assoc, Text.trim, ended]
    exact List.takeWhile_append_dropWhile.symm

end Text

namespace Statement

/-- What may stand side by side in a respaced statement. -/
structure Adjoins (first second : Char) : Prop where
  /-- A space before an operator. -/
  beforeOperator : isOperator second → first = ' '
  /-- A space or a semicolon after an operator. -/
  afterOperator : isOperator first → second = ' ' ∨ second = ';'
  /-- A space or a semicolon after a comma. -/
  afterComma : first = ',' → second = ' ' ∨ second = ';'
  /-- No blank before a semicolon. -/
  beforeSemicolon : second = ';' → isBlank first = false
  /-- No name right after a closing square bracket. -/
  afterBracket : first = ']' → startsName second = false
  /-- No second blank after a space. -/
  afterSpace : first = ' ' → isBlank second = false

/-- The canonical spacing of a statement without literals and comments. -/
structure Canonical (text : Text) : Prop where
  /-- No blanks around it. -/
  trimmed : text.trim = text
  /-- No blanks but spaces. -/
  spaces : ∀ c ∈ text, isBlank c → c = ' '
  /-- What stands side by side. -/
  neighbours : text.IsChain Adjoins
  /-- No parenthesis right after a keyword; a word that only ends in a keyword is none. -/
  keywords : ∀ before word after, text = before ++ word ++ '(' :: after → word ∈ Keyword.spaced →
    ∃ c, before.getLast? = some c ∧ isWordChar c

theorem adjoins_space_left {c : Char} (solid : isBlank c = false) (other : c ≠ ';') :
    Adjoins ' ' c where
  beforeOperator _ := rfl
  afterOperator operator := absurd operator (by decide)
  afterComma comma := absurd comma (by decide)
  beforeSemicolon semicolon := absurd semicolon other
  afterBracket bracket := absurd bracket (by decide)
  afterSpace _ := solid

theorem adjoins_space_right {c : Char} (solid : isBlank c = false) : Adjoins c ' ' where
  beforeOperator operator := absurd operator (by decide)
  afterOperator _ := .inl rfl
  afterComma _ := .inl rfl
  beforeSemicolon semicolon := absurd semicolon (by decide)
  afterBracket _ := by decide
  afterSpace space := absurd isBlank_space (by rw [← space, solid]; decide)

/-- Where no space is needed none has to stand. -/
theorem adjoins_of_not_needed {c d : Char} (solid : isBlank c = false) (next : isBlank d = false)
    (free : Bead.needed (some c) d → d = ';') : Adjoins c d := by
  by_cases semicolon : d = ';'
  · subst semicolon
    exact ⟨fun operator => absurd operator (by decide), fun _ => .inr rfl, fun _ => .inr rfl,
      fun _ => solid, fun _ => by decide, fun _ => next⟩
  · have unneeded : Bead.needed (some c) d = false := by
      simpa [semicolon] using free
    simp only [Bead.needed, Option.any_some, Bool.or_eq_false_iff, decide_eq_false_iff_not,
      Bool.and_eq_false_iff] at unneeded
    obtain ⟨⟨⟨noComma, noOperator⟩, afterNone⟩, noName⟩ := unneeded
    exact ⟨fun operator => by simp [noOperator] at operator,
      fun operator => by simp [afterNone] at operator, fun comma => absurd comma noComma,
      fun _ => solid, fun bracket => noName.resolve_left fun other => other bracket, fun _ => next⟩

theorem isChain_adjoins_respace (text : Text) : (respace text).IsChain Adjoins := by
  obtain ⟨opened, closed⟩ := Bead.spaced_statementGaps (Bead.ofText false text)
  rw [respace_eq]
  apply Bead.isChain_spell
  · exact fun bead member gap => adjoins_space_left bead.solid (closed bead member gap)
  · apply opened.imp
    intro first second near
    cases gap : second.gap with
    | true => exact adjoins_space_right first.solid
    | false =>
        refine adjoins_of_not_needed first.solid second.solid fun isNeeded => ?_
        by_contra other
        simp [gap] at near
        exact other (near isNeeded)

/-- Right before a parenthesis the keyword pass leaves no keyword; `word` is the word before the
text. -/
theorem keyword_not_before {word text before after : Text} (inWord : ∀ c ∈ word, isWordChar c)
    (shape : spaceKeywordsFrom word text = before ++ '(' :: after) :
    (word.reverse ++ before).rtakeWhile isWordChar ∉ Keyword.spaced := by
  have opening : isWordChar '(' = false := by decide
  have space : isWordChar ' ' = false := by decide
  fun_induction spaceKeywordsFrom word text generalizing before with
  | case1 word => simp at shape
  | case2 word c rest keyword ih =>
      simp only [Bool.and_eq_true, decide_eq_true_eq] at keyword
      obtain ⟨rfl, -⟩ := keyword
      rcases before with _ | ⟨d, _ | ⟨e, before⟩⟩
      · simp at shape
      · obtain ⟨rfl, -⟩ := List.cons.inj shape
        rw [Text.rtakeWhile_append_cons_of_neg space]
        exact Bead.nil_not_mem_spaced
      · simp only [List.cons_append, List.cons.injEq] at shape
        obtain ⟨rfl, rfl, shape⟩ := shape
        rw [Text.rtakeWhile_append_cons_of_neg space, ← List.nil_append ('(' :: before),
          Text.rtakeWhile_append_cons_of_neg opening]
        exact ih (by simp) shape
  | case3 word c rest noKeyword ih =>
      cases before with
      | nil =>
          obtain ⟨rfl, -⟩ := List.cons.inj shape
          have whole : word.reverse.rtakeWhile isWordChar = word.reverse :=
            List.rtakeWhile_eq_self_iff.2 fun c member => inWord c (List.mem_reverse.1 member)
          simpa [whole] using noKeyword
      | cons d before =>
          simp only [List.cons_append, List.cons.injEq] at shape
          obtain ⟨rfl, shape⟩ := shape
          have later := ih (by split <;> simp_all) shape
          cases wordChar : isWordChar c with
          | true => simpa [wordChar] using later
          | false =>
              rw [Text.rtakeWhile_append_cons_of_neg wordChar]
              simpa [wordChar] using later

theorem isWordChar_of_mem_spaced {word : Text} (keyword : word ∈ Keyword.spaced) :
    ∀ c ∈ word, isWordChar c := by
  have whole : Keyword.spaced.all (·.all isWordChar) := by decide
  exact List.all_eq_true.1 (List.all_eq_true.1 whole word keyword)

theorem exists_wordChar_before_keyword {text before word after : Text}
    (shape : respace text = before ++ word ++ '(' :: after) (keyword : word ∈ Keyword.spaced) :
    ∃ c, before.getLast? = some c ∧ isWordChar c := by
  rw [respace] at shape
  generalize spaceAfterBrackets _ = tightened at shape
  obtain ⟨lead, trailing, blank, whole⟩ := Text.exists_trim (spaceKeywords tightened)
  have spaced : spaceKeywordsFrom [] tightened =
      (lead ++ before ++ word) ++ '(' :: (after ++ trailing) := by
    rw [← spaceKeywords, whole, shape]
    simp
  have notKeyword := keyword_not_before (by simp) spaced
  by_contra alone
  have ended : (lead ++ before).rtakeWhile isWordChar = [] := by
    rcases List.eq_nil_or_concat before with rfl | ⟨front, c, rfl⟩
    · rw [List.append_nil, List.rtakeWhile_eq_nil_iff]
      intro filled
      simp [isWordChar_of_isBlank (blank _ (List.getLast_mem filled))]
    · rw [List.concat_eq_append, ← List.append_assoc, List.rtakeWhile_concat_neg]
      exact fun wordChar => alone ⟨c, by simp, wordChar⟩
  -- nothing that belongs to a word stands before the keyword, so it is the whole word there
  apply notKeyword
  rwa [List.reverse_nil, List.nil_append,
    Text.rtakeWhile_append_of_pos (isWordChar_of_mem_spaced keyword), ended]

theorem canonical_respace (text : Text) : Canonical (respace text) where
  trimmed := Text.trim_trim _
  spaces c member blank := by
    rw [respace_eq] at member
    exact Bead.eq_space_of_mem_spell member blank
  neighbours := isChain_adjoins_respace text
  keywords _ _ _ shape keyword := exists_wordChar_before_keyword shape keyword

/-- Normalizing a statement changes nothing but blanks, and what it gives has the canonical spacing,
both with the literals and comments hidden. A statement of at most `10 ^ 4300` characters never fails
to be normalized. -/
theorem canonical_normalize {text : Text} (noMark : Mask.mark ∉ text) :
    (∀ result, normalize text = .ok result →
      (mask result).text.compact = (mask text).text.compact ∧ Canonical (mask result).text) ∧
      (text.length ≤ 10 ^ Numeral.digitLimit → ∃ result, normalize text = .ok result) := by
  refine ⟨?_, respacing.exists_unmask_eq_ok noMark⟩
  intro result normalized
  rw [respacing.mask_unmask noMark normalized]
  exact ⟨compact_respace _, canonical_respace _⟩

/-- Commas and operators before semicolons and at the end, a keyword and a word that ends in one, an
open literal with marks of punctuation in it, and a line comment. -/
theorem canonical_normalize_mixed :
    Mask.mark ∉ " if(a]b,=\t;,;\n _if(x ,\"s; ,\n]]c<<d // ,;\n) &+;-".toList ∧
      ∃ result, normalize " if(a]b,=\t;,;\n _if(x ,\"s; ,\n]]c<<d // ,;\n) &+;-".toList = .ok result ∧
        result = "if (a] b, =;,; _if(x , \"s; ,\" ]] c < < d /* ,; */ ) & +; -".toList ∧
        (mask result).text.compact =
          "if(a]b,=;,;_if(x,\x000\x00]]c<<d\x001\x00)&+;-".toList ∧
        Canonical (mask result).text := by
  have noMark : Mask.mark ∉ " if(a]b,=\t;,;\n _if(x ,\"s; ,\n]]c<<d // ,;\n) &+;-".toList := by
    decide
  have normalized : normalize " if(a]b,=\t;,;\n _if(x ,\"s; ,\n]]c<<d // ,;\n) &+;-".toList =
      .ok "if (a] b, =;,; _if(x , \"s; ,\" ]] c < < d /* ,; */ ) & +; -".toList := by
    decide +kernel
  obtain ⟨compact, canonical⟩ := (canonical_normalize noMark).1 _ normalized
  exact ⟨noMark, _, normalized, rfl, compact.trans (by decide +kernel), canonical⟩

end Statement

end IdlFormat
