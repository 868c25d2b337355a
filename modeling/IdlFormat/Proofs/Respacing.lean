import IdlFormat.Proofs.Mask
import IdlFormat.Proofs.Spacing

/-!
# Respacing masked texts

No change of spacing looks inside a placeholder: its characters are neither blanks nor marks of
punctuation, and no keyword ends in it. So a masked text can be respaced as its skeleton, with a
single mark for each literal and comment. `Statement.normalize_eq` and `Attribute.format_eq` say
that respacing a text is respacing its skeleton and writing the hidden texts for the marks.
-/

namespace IdlFormat

namespace Mask

/-- The characters of placeholders. -/
def isPlaceholderChar (c : Char) : Bool :=
  [mark, '0', '1', '2', '3', '4', '5', '6', '7', '8', '9'].contains c

theorem isPlaceholderChar_of_isDigit {c : Char} (digit : c.isDigit) : isPlaceholderChar c := by
  simp only [Char.isDigit, Bool.and_eq_true, decide_eq_true_eq, UInt32.le_iff_toNat_le] at digit
  have low : 48 ≤ c.toNat := digit.1
  have high : c.toNat ≤ 57 := digit.2
  have cases : c.toNat = 48 ∨ c.toNat = 49 ∨ c.toNat = 50 ∨ c.toNat = 51 ∨ c.toNat = 52 ∨
      c.toNat = 53 ∨ c.toNat = 54 ∨ c.toNat = 55 ∨ c.toNat = 56 ∨ c.toNat = 57 := by omega
  have same : c = Char.ofNat c.toNat := (Char.ofNat_toNat c).symm
  rcases cases with h | h | h | h | h | h | h | h | h | h <;> rw [same, h] <;> decide

theorem isPlaceholderChar_of_mem {c : Char} {number : Nat} (member : c ∈ placeholder number) :
    isPlaceholderChar c := by
  simp only [placeholder, List.cons_append, List.mem_cons, List.mem_append, List.not_mem_nil,
    or_false] at member
  rcases member with rfl | digit | rfl
  · decide
  · exact isPlaceholderChar_of_isDigit (isDigit_of_mem_ofNat digit)
  · decide

/-- The characters to which no rule of spacing applies. -/
def isInert (c : Char) : Bool :=
  !isBlank c && !isOperator c && !([',', ']', '('].contains c)

theorem isInert_of_mem {c : Char} {number : Nat} (member : c ∈ placeholder number) :
    isInert c := by
  have inside := isPlaceholderChar_of_mem member
  simp only [isPlaceholderChar, List.contains_iff_mem, List.mem_cons, List.not_mem_nil, or_false]
    at inside
  clear member
  rcases inside with rfl | rfl | rfl | rfl | rfl | rfl | rfl | rfl | rfl | rfl | rfl <;> decide

theorem isInert_iff (c : Char) :
    isInert c ↔ isBlank c = false ∧ isOperator c = false ∧ c ≠ ',' ∧ c ≠ ']' ∧ c ≠ '(' := by
  simp [isInert, and_assoc]

theorem head?_fill (next : Nat) (text : Text) : (fill next text).head? = text.head? := by
  cases text with
  | nil => rfl
  | cons c rest =>
      rw [fill]
      split
      · next marked => simp [placeholder, marked]
      · rfl

theorem isEmpty_fill (next : Nat) (text : Text) : (fill next text).isEmpty = text.isEmpty := by
  have same := head?_fill next text
  cases text <;> cases filled : fill next _ <;> simp_all

/-- A change of spacing, run with a state, that passes over placeholders and goes on in one state
can be made before placeholders are written, if that holds for one more character in front. -/
theorem run_fill {State : Type} {change : State → Text → Text} {passed : State}
    (empty : ∀ state, change state [] = [])
    (keepsMark : ∀ state rest, change state (mark :: rest) = mark :: change passed rest)
    (keeps : ∀ state number rest, change state (placeholder number ++ rest) =
      placeholder number ++ change passed rest)
    (step : ∀ state c rest next, c ≠ mark →
      (∀ later, change later (fill next rest) = fill next (change later rest)) →
      change state (c :: fill next rest) = fill next (change state (c :: rest)))
    (state : State) (next : Nat) (text : Text) :
    change state (fill next text) = fill next (change state text) := by
  induction text generalizing state next with
  | nil => rw [fill, empty, fill]
  | cons c rest ih =>
      rw [fill]
      split
      · next marked => rw [keeps, ih, marked, keepsMark, fill, if_pos rfl]
      · next shown => exact step state c rest next shown fun later => ih later next

theorem map_placeholder_append {change : Text → Text}
    (keeps : ∀ c rest, isInert c → change (c :: rest) = c :: change rest) (number : Nat)
    (rest : Text) : change (placeholder number ++ rest) = placeholder number ++ change rest := by
  have inert : ∀ c ∈ placeholder number, isInert c := fun c => isInert_of_mem
  generalize placeholder number = inside at inert
  induction inside with
  | nil => rfl
  | cons c others ih =>
      rw [List.cons_append, keeps _ _ (inert c List.mem_cons_self), ih fun d member =>
        inert d (List.mem_cons_of_mem _ member), List.cons_append]

/-- A change of spacing without a state only has to leave inert characters alone. -/
theorem map_fill {change : Text → Text} (empty : change [] = [])
    (keeps : ∀ c rest, isInert c → change (c :: rest) = c :: change rest)
    (step : ∀ c rest next, c ≠ mark → change (fill next rest) = fill next (change rest) →
      change (c :: fill next rest) = fill next (change (c :: rest)))
    (next : Nat) (text : Text) : change (fill next text) = fill next (change text) := by
  have run := @run_fill Unit (fun _ => change) ()
  apply run
  · exact fun _ => empty
  · exact fun _ rest => keeps mark rest (by decide)
  · exact fun _ => map_placeholder_append keeps
  · exact fun _ c rest next shown ih => step c rest next shown (ih ())
  · exact ()

theorem fill_space (next : Nat) (rest : Text) : fill next (' ' :: rest) = ' ' :: fill next rest :=
  fill_cons (by decide) next rest

theorem collapseFrom_fill (afterBlank : Bool) (next : Nat) (text : Text) :
    Text.collapseFrom afterBlank (fill next text) =
      fill next (Text.collapseFrom afterBlank text) := by
  have keeps (c : Char) (rest : Text) (inert : isInert c) :
      Text.collapseFrom false (c :: rest) = c :: Text.collapseFrom false rest := by
    simp [Text.collapseFrom, (isInert_iff c).1 inert]
  apply run_fill
  · exact fun _ => rfl
  · exact fun _ rest => rfl
  · intro state number rest
    rw [← map_placeholder_append keeps]
    cases state <;> rfl
  · intro state c rest next shown ih
    simp only [Text.collapseFrom]
    split
    · split
      · exact ih true
      · rw [ih, fill_space]
    · rw [ih, fill_cons shown]

theorem respaceCommasFrom_fill (afterComma : Bool) (next : Nat) (text : Text) :
    Text.respaceCommasFrom afterComma (fill next text) =
      fill next (Text.respaceCommasFrom afterComma text) := by
  have keeps (c : Char) (rest : Text) (inert : isInert c) :
      Text.respaceCommasFrom false (c :: rest) = c :: Text.respaceCommasFrom false rest := by
    simp [Text.respaceCommasFrom, (isInert_iff c).1 inert]
  apply run_fill
  · exact fun _ => rfl
  · intro state rest
    cases state <;> rfl
  · intro state number rest
    rw [← map_placeholder_append keeps]
    cases state <;> rfl
  · intro state c rest next shown ih
    simp only [Text.respaceCommasFrom]
    split
    · exact ih true
    · split
      · rw [ih, fill_cons shown, fill_space]
      · rw [ih, fill_cons shown]

theorem dropEndWhile_fill (next : Nat) (text : Text) :
    Text.dropEndWhile isBlank (fill next text) = fill next (Text.dropEndWhile isBlank text) := by
  have cons (c : Char) (rest : Text) : Text.dropEndWhile isBlank (c :: rest) =
      if isBlank c && (Text.dropEndWhile isBlank rest).isEmpty then []
      else c :: Text.dropEndWhile isBlank rest := rfl
  apply map_fill
  · rfl
  · intro c rest inert
    simp [cons, (isInert_iff c).1 inert]
  · intro c rest next shown ih
    rw [cons, cons, ih, isEmpty_fill]
    split
    · rfl
    · rw [fill_cons shown]

theorem spaceCommas_fill (next : Nat) (text : Text) :
    (fill next text).spaceCommas = fill next text.spaceCommas := by
  apply map_fill
  · rfl
  · intro c rest inert
    simp [Text.spaceCommas, (isInert_iff c).1 inert]
  · intro c rest next shown ih
    rw [Text.spaceCommas, Text.spaceCommas, head?_fill, ih]
    split
    · rw [fill_cons shown, fill_space]
    · rw [fill_cons shown]

theorem padOperators_fill (next : Nat) (text : Text) :
    Statement.padOperators (fill next text) = fill next (Statement.padOperators text) := by
  apply map_fill
  · rfl
  · intro c rest inert
    simp [Statement.padOperators, (isInert_iff c).1 inert]
  · intro c rest next shown ih
    simp only [Statement.padOperators, List.flatMap_cons] at ih ⊢
    rw [ih]
    split <;> simp [fill_cons shown, fill_space]

theorem tighten_fill (punctuation : Char) (next : Nat) (text : Text) :
    (fill next text).tighten punctuation = fill next (text.tighten punctuation) := by
  have cons (c : Char) (rest : Text) : Text.tighten punctuation (c :: rest) =
      if isBlank c && (Text.tighten punctuation rest).head? == some punctuation then
        Text.tighten punctuation rest
      else c :: Text.tighten punctuation rest := rfl
  apply map_fill
  · rfl
  · intro c rest inert
    simp [cons, (isInert_iff c).1 inert]
  · intro c rest next shown ih
    rw [cons, cons, ih, head?_fill]
    split
    · rfl
    · rw [fill_cons shown]

theorem spaceAfterBrackets_fill (next : Nat) (text : Text) :
    Statement.spaceAfterBrackets (fill next text) =
      fill next (Statement.spaceAfterBrackets text) := by
  apply map_fill
  · rfl
  · intro c rest inert
    simp [Statement.spaceAfterBrackets, (isInert_iff c).1 inert]
  · intro c rest next shown ih
    rw [Statement.spaceAfterBrackets, Statement.spaceAfterBrackets, head?_fill, ih]
    split
    · rw [fill_cons shown, fill_space]
    · rw [fill_cons shown]

theorem spaceKeywordsFrom_placeholder_append (word : Text) (number : Nat) (rest : Text) :
    Statement.spaceKeywordsFrom word (placeholder number ++ rest) =
      placeholder number ++ Statement.spaceKeywordsFrom [] rest := by
  have inert : ∀ c ∈ mark :: Text.ofNat number, isInert c := fun c member =>
    @isInert_of_mem c number (List.mem_append_left _ member)
  rw [placeholder, List.append_assoc, List.append_assoc]
  generalize mark :: Text.ofNat number = inside at inert
  -- The word before a placeholder ends at its first mark, and the one inside at its last.
  induction inside generalizing word with
  | nil =>
      have notWord : isWordChar mark = false := by decide
      rw [List.nil_append, List.singleton_append, Statement.spaceKeywordsFrom,
        if_neg (by simp [mark]), notWord]
      rfl
  | cons c others ih =>
      have notParen : c ≠ '(' := ((isInert_iff c).1 (inert c List.mem_cons_self)).2.2.2.2
      rw [List.cons_append, Statement.spaceKeywordsFrom, if_neg (by simp [notParen]),
        ih _ fun d member => inert d (List.mem_cons_of_mem _ member)]
      rfl

theorem spaceKeywordsFrom_fill (word : Text) (next : Nat) (text : Text) :
    Statement.spaceKeywordsFrom word (fill next text) =
      fill next (Statement.spaceKeywordsFrom word text) := by
  apply run_fill
  · exact fun _ => rfl
  · exact fun _ rest => rfl
  · exact spaceKeywordsFrom_placeholder_append
  · intro state c rest next shown ih
    simp only [Statement.spaceKeywordsFrom]
    split
    · rw [ih, fill_space, fill_cons shown]
    · rw [ih, fill_cons shown]

theorem dropWhile_fill {inClass : Char → Bool} (outside : inClass mark = false) (next : Nat)
    (text : Text) : (fill next text).dropWhile inClass = fill next (text.dropWhile inClass) := by
  induction text with
  | nil => rfl
  | cons c rest ih =>
      by_cases marked : c = mark
      · subst marked
        rw [List.dropWhile_cons_of_neg (by simp [outside]), fill, if_pos rfl, placeholder,
          List.append_assoc, List.cons_append, List.dropWhile_cons_of_neg (by simp [outside])]
      · rw [fill_cons marked, List.dropWhile_cons, List.dropWhile_cons, ih]
        split
        · rfl
        · rw [fill_cons marked]

theorem trim_fill (next : Nat) (text : Text) : (fill next text).trim = fill next text.trim := by
  rw [Text.trim, Text.trimStart, Text.trimEnd, dropWhile_fill (by decide), dropEndWhile_fill]
  rfl

theorem collapse_fill (next : Nat) (text : Text) :
    (fill next text).collapse = fill next text.collapse :=
  collapseFrom_fill false next text

theorem statementRespace_fill (next : Nat) (text : Text) :
    Statement.respace (fill next text) = fill next (Statement.respace text) := by
  simp only [Statement.respace, Statement.spaceKeywords, collapse_fill, trim_fill, spaceCommas_fill,
    padOperators_fill, tighten_fill, spaceAfterBrackets_fill, spaceKeywordsFrom_fill]

theorem fill_append (next : Nat) (left right : Text) :
    fill next (left ++ right) = fill next left ++ fill (next + left.count mark) right := by
  induction left generalizing next with
  | nil => rfl
  | cons c left ih =>
      by_cases marked : c = mark
      · subst marked
        rw [List.cons_append, fill, if_pos rfl, fill, if_pos rfl, ih, List.append_assoc,
          List.count_cons_self, Nat.add_right_comm, Nat.add_assoc]
      · rw [List.cons_append, fill_cons marked, fill_cons marked, ih, List.cons_append,
          List.count_cons_of_ne marked]

theorem mem_fill_iff {c : Char} (outside : isPlaceholderChar c = false) (next : Nat)
    (text : Text) : c ∈ fill next text ↔ c ∈ text := by
  induction text generalizing next with
  | nil => rfl
  | cons d rest ih =>
      rw [fill]
      split
      · next marked =>
          have notInside : c ∉ placeholder next := fun member => by
            simp [isPlaceholderChar_of_mem member] at outside
          have notMark : c ≠ mark := by
            rintro rfl
            simp [isPlaceholderChar] at outside
          simp [notInside, marked, notMark, ih]
      · simp [ih]

theorem getLast?_fill (next : Nat) (text : Text) : (fill next text).getLast? = text.getLast? := by
  rcases List.eq_nil_or_concat text with rfl | ⟨before, c, rfl⟩
  · rfl
  · rw [List.concat_eq_append, fill_append, List.getLast?_append, List.getLast?_append, fill]
    split
    · next marked =>
        rw [fill, List.append_nil, placeholder, List.getLast?_append]
        simp [marked]
    · simp [fill]

theorem dropLast_fill {text : Text} {c : Char} (last : text.getLast? = some c) (shown : c ≠ mark)
    (next : Nat) : (fill next text).dropLast = fill next text.dropLast := by
  obtain ⟨before, rfl⟩ := List.getLast?_eq_some_iff.1 last
  rw [fill_append, fill_cons shown]
  simp [fill]

theorem compact_fill (next : Nat) (text : Text) :
    (fill next text).compact = fill next text.compact := by
  apply map_fill
  · rfl
  · intro c rest inert
    simp [Text.compact, (isInert_iff c).1 inert]
  · intro c rest next shown ih
    simp only [Text.compact, List.filter_cons] at ih ⊢
    rw [ih]
    split
    · rw [fill_cons shown]
    · rfl

theorem all_isGuidChar_fill (next : Nat) (text : Text) :
    (fill next text).all Attribute.isGuidChar = text.all Attribute.isGuidChar := by
  induction text with
  | nil => rfl
  | cons c rest ih =>
      by_cases marked : c = mark
      · have outside : Attribute.isGuidChar mark = false := by decide
        rw [fill, if_pos marked, marked, placeholder]
        simp [outside]
      · rw [fill_cons marked, List.all_cons, List.all_cons, ih]

theorem formatArguments_fill (next : Nat) (text : Text) :
    Attribute.formatArguments (fill next text) = fill next (Attribute.formatArguments text) := by
  have brackets : (fill next text).contains '[' = text.contains '[' := by
    rw [Bool.eq_iff_iff, List.contains_iff_mem, List.contains_iff_mem]
    exact mem_fill_iff (by decide) next text
  simp only [Attribute.formatArguments, compact_fill, all_isGuidChar_fill, isEmpty_fill, brackets]
  split
  · rfl
  · split
    · rw [collapse_fill, trim_fill]
    · rw [Text.respaceCommas, collapse_fill, tighten_fill, respaceCommasFrom_fill, trim_fill]
      rfl

theorem leadingWord_fill (next : Nat) (text : Text) :
    (fill next text).leadingWord = text.leadingWord := by
  have notWord : isWordChar mark = false := by decide
  induction text with
  | nil => rfl
  | cons c rest ih =>
      by_cases marked : c = mark
      · subst marked
        rw [fill, if_pos rfl, placeholder]
        simp [Text.leadingWord, notWord]
      · simp only [Text.leadingWord] at ih ⊢
        rw [fill_cons marked, List.takeWhile_cons, List.takeWhile_cons, ih]

theorem call?_fill (next : Nat) (text : Text) :
    Attribute.call? (fill next text) =
      (Attribute.call? text).map fun (name, inner) => (name, fill next inner) := by
  simp only [Attribute.call?, Attribute.drop_leadingWord]
  rw [leadingWord_fill, dropWhile_fill (by decide), dropWhile_fill (by decide)]
  cases (text.dropWhile isWordChar).dropWhile isBlank with
  | nil => rfl
  | cons c inner =>
      by_cases paren : c = '('
      · subst paren
        rw [fill_cons (by decide)]
        simp only [getLast?_fill]
        split
        · next closed =>
            have last : inner.getLast? = some ')' := by
              simpa using (Bool.and_eq_true_iff.1 closed).2
            rw [dropLast_fill last (by decide)]
            rfl
        · rfl
      · have first := head?_fill next (c :: inner)
        cases filled : fill next (c :: inner) with
        | nil => simp [filled] at first
        | cons d after =>
            have same : d = c := by simpa [filled] using first
            simp [same, paren]

theorem attributeRespace_fill (next : Nat) (text : Text) :
    Attribute.respace (fill next text) = fill next (Attribute.respace text) := by
  simp only [Attribute.respace, collapse_fill, trim_fill, spaceCommas_fill, call?_fill]
  cases found : Attribute.call? text.collapse.trim.spaceCommas with
  | none => rfl
  | some call =>
      obtain ⟨name, inner⟩ := call
      have noMark : mark ∉ name := by
        rw [(Attribute.eq_of_call? found).1]
        intro member
        have inWord := List.all_eq_true.1 (List.all_takeWhile (p := isWordChar)) mark member
        revert inWord
        decide
      simp only [Option.map_some, trim_fill, formatArguments_fill]
      have opening : '(' ≠ mark := by decide
      have closing : ')' ≠ mark := by decide
      simp [fill_append, fill_of_noMark noMark, List.count_eq_zero.2 noMark, fill, opening, closing]

theorem count_mark_compact (text : Text) : text.compact.count mark = text.count mark :=
  List.count_filter (by decide)

/-- Respacing a masked text is respacing its skeleton, for every change of spacing that leaves
placeholders alone. -/
theorem unmask_respaced {respace : Text → Text}
    (respace_fill : ∀ next text, respace (fill next text) = fill next (respace text))
    (compact_respace : ∀ text, (respace text).compact = text.compact) {text : Text}
    (noMark : mark ∉ text) :
    Settles (Segment.hidden (Segment.split text)).length
      (unmask (mask text).saved (respace (mask text).text))
      (· = insert (Segment.hidden (Segment.split text))
        (respace (Segment.skeleton (Segment.split text)))) := by
  rw [mask_eq noMark]
  simp only [respace_fill]
  apply unmask_fill
  apply Nat.le_of_eq
  rw [← count_mark_compact, compact_respace, count_mark_compact,
    count_skeleton fun c => code_ne_mark noMark]

end Mask

/-- A respaced statement is its respaced skeleton with the hidden texts put back. -/
theorem Statement.normalize_eq {text : Text} (noMark : Mask.mark ∉ text) :
    Settles (Segment.hidden (Segment.split text)).length (normalize text)
      (· = Mask.insert (Segment.hidden (Segment.split text))
        (respace (Segment.skeleton (Segment.split text)))) :=
  Mask.unmask_respaced Mask.statementRespace_fill compact_respace noMark

/-- A formatted attribute is its respaced skeleton with the hidden texts put back. -/
theorem Attribute.format_eq {text : Text} (noMark : Mask.mark ∉ text) :
    Settles (Segment.hidden (Segment.split text)).length (format text)
      (· = Mask.insert (Segment.hidden (Segment.split text))
        (respace (Segment.skeleton (Segment.split text)))) :=
  Mask.unmask_respaced Mask.attributeRespace_fill compact_respace noMark

end IdlFormat
