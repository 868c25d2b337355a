import IdlFormat.Proofs.Clean
import IdlFormat.Proofs.Relayout

/-!
# The width of a level

Two styles that differ only in the width of a level give the same document up to the spaces that its
lines start with. `Text.unindent` drops these spaces. It commutes with each pass of the clean-up, so
that none of them can tell one width from another (`unindent_finalize`), and it sends the lines that
two such styles put together to the same lines (`Layout.sameUnindented_linesFrom`).

The pass that shortens runs of line breaks is the delicate one: on a line of spaces it would count
one break where it counts two once the spaces are gone. It only meets lines that are trimmed
already, and those are never made of spaces.
-/

namespace IdlFormat

namespace Text

/-- Drops the spaces that the lines of a text start with; `atStart` says that the text begins at the
start of a line. -/
def unindentFrom (atStart : Bool) : Text → Text
  | [] => []
  | c :: rest =>
      if c = ' ' && atStart then unindentFrom true rest else c :: unindentFrom (c = '\n') rest

/-- Drops the spaces that the lines of a text start with. -/
def unindent (text : Text) : Text :=
  unindentFrom true text

/-- The lines of a text without the spaces that they start with. -/
def unindentedLines (text : Text) : List Text :=
  (splitOn '\n' text).map (·.dropWhile (· = ' '))

theorem unindentFrom_space (text : Text) : unindentFrom true (' ' :: text) = unindentFrom true text :=
  rfl

theorem unindentFrom_kept {c : Char} {atStart : Bool} (kept : ¬ (c = ' ' ∧ atStart = true))
    (text : Text) : unindentFrom atStart (c :: text) = c :: unindentFrom (c = '\n') text := by
  rw [unindentFrom, if_neg (by simpa using kept)]

theorem unindentFrom_break (atStart : Bool) (text : Text) :
    unindentFrom atStart ('\n' :: text) = '\n' :: unindentFrom true text :=
  rfl

/-- Where a line does not begin, nothing is dropped before its end. -/
theorem head?_unindentFrom_false (text : Text) : (unindentFrom false text).head? = text.head? := by
  cases text <;> simp [unindentFrom]

theorem unindentFrom_of_stops {text : Text} (stops : text = [] ∨ text.head? = some '\n')
    (atStart : Bool) : unindentFrom atStart text = unindentFrom false text := by
  rcases stops with rfl | isBreak
  · rfl
  · rcases List.head?_eq_some_iff.1 isBreak with ⟨rest, rfl⟩
    rfl

theorem unindentFrom_append_break (atStart : Bool) (text rest : Text) :
    unindentFrom atStart (text ++ '\n' :: rest) =
      unindentFrom atStart text ++ '\n' :: unindentFrom true rest := by
  induction text generalizing atStart with
  | nil => rfl
  | cons c text ih =>
      by_cases dropped : c = ' ' ∧ atStart = true
      · rcases dropped with ⟨rfl, rfl⟩
        exact ih true
      · rw [List.cons_append, unindentFrom_kept dropped, unindentFrom_kept dropped, ih]
        rfl

/-- The lines of an unindented text are the unindented lines. -/
theorem splitOn_unindent (text : Text) : splitOn '\n' text.unindent = text.unindentedLines := by
  have general (atStart : Bool) (text line : Text) (lines : List Text)
      (cut : splitOn '\n' text = line :: lines) :
      splitOn '\n' (unindentFrom atStart text) =
        (if atStart then line.dropWhile (· = ' ') else line) ::
          lines.map (·.dropWhile (· = ' ')) := by
    induction text generalizing atStart line lines with
    | nil =>
        obtain ⟨rfl, rfl⟩ : [] = line ∧ [] = lines := by simpa [splitOn] using cut
        cases atStart <;> rfl
    | cons c rest ih =>
        rcases exists_splitOn_eq '\n' rest with ⟨piece, pieces, inner⟩
        by_cases isBreak : c = '\n'
        · subst isBreak
          obtain ⟨rfl, rfl⟩ : [] = line ∧ piece :: pieces = lines := by
            simpa [splitOn_cons_self, inner] using cut
          rw [unindentFrom_break, splitOn_cons_self, ih true piece pieces inner]
          cases atStart <;> rfl
        · obtain ⟨rfl, rfl⟩ : c :: piece = line ∧ pieces = lines := by
            simpa [splitOn_cons isBreak inner] using cut
          by_cases dropped : c = ' ' ∧ atStart = true
          · rcases dropped with ⟨rfl, rfl⟩
            exact ih true piece pieces inner
          · rw [unindentFrom_kept dropped, splitOn_cons isBreak
              (ih (c = '\n') piece pieces inner)]
            have solid : atStart = true → c ≠ ' ' := fun start space => dropped ⟨space, start⟩
            cases atStart with
            | false => simp [isBreak]
            | true => simp [isBreak, solid rfl]
  rcases exists_splitOn_eq '\n' text with ⟨line, lines, cut⟩
  rw [unindent, general true text line lines cut, unindentedLines, cut]
  rfl

theorem unindent_spaces_append (count : Nat) (text : Text) :
    unindent (List.replicate count ' ' ++ text) = text.unindent := by
  induction count with
  | zero => rfl
  | succ count ih => exact ih

theorem unindent_joinLines (lines : List Text) :
    unindent (joinLines lines) = joinLines (lines.map unindent) := by
  induction lines with
  | nil => rfl
  | cons line lines ih =>
      cases lines with
      | nil => rfl
      | cons next lines =>
          rw [joinLines_cons_cons, List.map_cons, List.map_cons,
            joinLines_cons_cons, ← List.map_cons, ← ih]
          exact unindentFrom_append_break true line _

end Text

open Text (unindent unindentFrom unindentedLines)

/-! ## The clean-up -/

namespace Clean

theorem unindentFrom_trimLineEnds (atStart : Bool) (text : Text) :
    unindentFrom atStart (trimLineEnds text) = trimLineEnds (unindentFrom atStart text) := by
  induction text generalizing atStart with
  | nil => rfl
  | cons c rest ih =>
      by_cases dropped : c = ' ' ∧ atStart = true
      · rcases dropped with ⟨rfl, rfl⟩
        rw [Text.unindentFrom_space, ← ih, trimLineEnds_cons]
        split <;> rfl
      · rw [Text.unindentFrom_kept dropped, trimLineEnds_cons, trimLineEnds_cons, ← ih]
        by_cases indents : isIndent c
        · have inLine : c ≠ '\n' := by
            rintro rfl
            exact absurd indents (by decide)
          have same := Text.head?_unindentFrom_false (trimLineEnds rest)
          have sameEnd : (unindentFrom false (trimLineEnds rest)).isEmpty =
              (trimLineEnds rest).isEmpty := by
            cases trimLineEnds rest <;> simp [unindentFrom]
          simp only [inLine, decide_false, indents, Bool.true_and, same, sameEnd]
          split
          · next stops =>
              apply Text.unindentFrom_of_stops
              simpa using stops
          · rw [Text.unindentFrom_kept dropped]
            simp [inLine]
        · simp [indents, Text.unindentFrom_kept dropped]

/-- A trimmed line with a character in it keeps one that is no space. -/
theorem Trimmed.head?_unindentFrom {text : Text} (trimmed : Trimmed text) (filled : text ≠ [])
    (inLine : text.head? ≠ some '\n') (atStart : Bool) :
    (unindentFrom atStart text).head? ≠ some '\n' := by
  induction text generalizing atStart with
  | nil => exact absurd rfl filled
  | cons c rest ih =>
      by_cases dropped : c = ' ' ∧ atStart = true
      · rcases dropped with ⟨rfl, rfl⟩
        rcases trimmed with ⟨goesOn, trimmed⟩
        have more := goesOn (by decide)
        exact ih trimmed more.1 more.2 true
      · rw [Text.unindentFrom_kept dropped]
        exact inLine

theorem capBreaksFrom_of_inLine {text : Text} (inLine : text.head? ≠ some '\n') (breaks : Nat) :
    capBreaksFrom breaks text = capBreaksFrom 0 text := by
  cases text with
  | nil => rfl
  | cons c rest =>
      have other : c ≠ '\n' := by simpa using inLine
      simp [capBreaksFrom, other]

theorem unindentFrom_capBreaksFrom {breaks : Nat} {atStart : Bool} {text : Text}
    (trimmed : Trimmed text) (started : 0 < breaks → atStart = true) :
    unindentFrom atStart (capBreaksFrom breaks text) =
      capBreaksFrom breaks (unindentFrom atStart text) := by
  fun_induction capBreaksFrom breaks text generalizing atStart with
  | case1 => rfl
  | case2 breaks rest less ih =>
      rw [Text.unindentFrom_break, Text.unindentFrom_break, ih trimmed.2 fun _ => rfl]
      simp [capBreaksFrom, less]
  | case3 breaks rest more ih =>
      rw [started (by omega), Text.unindentFrom_break, ih trimmed.2 fun _ => rfl]
      simp [capBreaksFrom, more]
  | case4 breaks c rest other ih =>
      by_cases dropped : c = ' ' ∧ atStart = true
      · rcases dropped with ⟨rfl, rfl⟩
        have goesOn := trimmed.1 (by decide)
        have inLine := trimmed.2.head?_unindentFrom goesOn.1 goesOn.2 true
        rw [Text.unindentFrom_space, Text.unindentFrom_space, ih trimmed.2 fun _ => rfl,
          capBreaksFrom_of_inLine inLine breaks]
      · rw [Text.unindentFrom_kept dropped, Text.unindentFrom_kept dropped,
          ih trimmed.2 fun more => absurd more (by decide)]
        simp [capBreaksFrom, other]

theorem unindent_dropBreaks {text : Text} (trimmed : Trimmed text) :
    unindent (text.dropWhile (· = '\n')) = (unindent text).dropWhile (· = '\n') := by
  induction text with
  | nil => rfl
  | cons c rest ih =>
      by_cases isBreak : c = '\n'
      · subst isBreak
        exact ih trimmed.2
      · have inLine : (c :: rest).head? ≠ some '\n' := by simpa using isBreak
        have kept := trimmed.head?_unindentFrom (List.cons_ne_nil c rest) inLine true
        rw [List.dropWhile_cons_of_neg (by simpa using isBreak), unindent]
        cases shape : unindentFrom true (c :: rest) with
        | nil => rfl
        | cons d more =>
            rw [List.dropWhile_cons_of_neg]
            simpa [shape] using kept

theorem trimEnd_eq_nil_of_unindentFrom {atStart : Bool} {text : Text}
    (empty : unindentFrom atStart text.trimEnd = []) : text.trimEnd = [] := by
  induction text generalizing atStart with
  | nil => rfl
  | cons c rest ih =>
      rw [Text.trimEnd_cons] at empty ⊢
      split at empty
      · next blank => rw [if_pos blank]
      · next kept =>
          by_cases dropped : c = ' ' ∧ atStart = true
          · rcases dropped with ⟨rfl, rfl⟩
            simp [ih empty] at kept
          · rw [Text.unindentFrom_kept dropped] at empty
            exact absurd empty (List.cons_ne_nil c _)

theorem unindentFrom_trimEnd (atStart : Bool) (text : Text) :
    unindentFrom atStart text.trimEnd = (unindentFrom atStart text).trimEnd := by
  induction text generalizing atStart with
  | nil => rfl
  | cons c rest ih =>
      by_cases dropped : c = ' ' ∧ atStart = true
      · rcases dropped with ⟨rfl, rfl⟩
        rw [Text.unindentFrom_space, ← ih, Text.trimEnd_cons]
        split
        · next blank =>
            have empty : Text.trimEnd rest = [] := by simpa using blank
            rw [empty]
        · rfl
      · have sameEnd :
            (unindentFrom (c = '\n') (Text.trimEnd rest)).isEmpty = (Text.trimEnd rest).isEmpty := by
          rw [Bool.eq_iff_iff, List.isEmpty_iff, List.isEmpty_iff]
          refine ⟨trimEnd_eq_nil_of_unindentFrom, ?_⟩
          intro empty
          rw [empty]
          rfl
        rw [Text.unindentFrom_kept dropped, Text.trimEnd_cons, Text.trimEnd_cons, ← ih, sameEnd]
        split
        · rfl
        · exact Text.unindentFrom_kept dropped _

end Clean

/-- The clean-up commutes with dropping the spaces that lines start with. -/
theorem unindent_finalize (text : Text) : unindent (finalize text) = finalize (unindent text) := by
  have trimmed := Clean.trimmed_trimLineEnds text
  have capped : Clean.Trimmed (Clean.capBreaks (Clean.trimLineEnds text)) :=
    Clean.trimmed_capBreaksFrom trimmed
  simp only [finalize]
  calc unindent (Text.trimEnd ((Clean.capBreaks (Clean.trimLineEnds text)).dropWhile (· = '\n')) ++
        ['\n'])
      = unindent (Text.trimEnd ((Clean.capBreaks (Clean.trimLineEnds text)).dropWhile (· = '\n'))) ++
          ['\n'] := Text.unindentFrom_append_break true _ []
    _ = Text.trimEnd ((unindent (Clean.capBreaks (Clean.trimLineEnds text))).dropWhile (· = '\n')) ++
          ['\n'] := by
        rw [← Clean.unindent_dropBreaks capped, unindent, Clean.unindentFrom_trimEnd]
        rfl
    _ = Text.trimEnd ((Clean.capBreaks (Clean.trimLineEnds (unindent text))).dropWhile (· = '\n')) ++
          ['\n'] := by
        rw [unindent, Clean.capBreaks, Clean.unindentFrom_capBreaksFrom trimmed fun _ => rfl,
          Clean.unindentFrom_trimLineEnds]
        rfl

/-! ## Lines of two styles -/

namespace Layout

variable {first second : Style}

theorem unindent_indent_append (style : Style) (level : Int) (text : Text) :
    unindent (style.indent level ++ text) = unindent text :=
  Text.unindent_spaces_append _ text

theorem unindent_separated_eq (first second : Style) (level : Int) (attributes : List Text) :
    (Attribute.separated (first.indent level) attributes).map unindent =
      (Attribute.separated (second.indent level) attributes).map unindent := by
  induction attributes with
  | nil => rfl
  | cons single others ih =>
      cases others with
      | nil => simp only [Attribute.separated, List.map_cons, List.map_nil, unindent_indent_append]
      | cons next others =>
          have own (style : Style) :
              (Attribute.separated (style.indent level) (single :: next :: others)).map unindent =
                unindent (single ++ [',']) ::
                  (Attribute.separated (style.indent level) (next :: others)).map unindent := by
            rw [← unindent_indent_append style level, ← List.append_assoc]
            rfl
          rw [own first, own second, ih]

theorem unindent_arrange_eq (same : first.inlineLimit = second.inlineLimit) (level : Int)
    (attributes : List Text) :
    (Attribute.arrange first level attributes).map unindent =
      (Attribute.arrange second level attributes).map unindent := by
  have wrapped :
      ([first.indent level ++ ['[']] ++ Attribute.separated (first.indent (level + 1)) attributes ++
        [first.indent level ++ [']']]).map unindent =
      ([second.indent level ++ ['[']] ++
        Attribute.separated (second.indent (level + 1)) attributes ++
          [second.indent level ++ [']']]).map unindent := by
    simp only [List.map_append, List.map_cons, List.map_nil, unindent_indent_append,
      unindent_separated_eq first second]
  unfold Attribute.arrange
  simp only
  split
  · simp only [List.map_cons, List.map_nil, unindent_indent_append]
  · rw [same]
    split
    · simp only [List.map_cons, List.map_nil, List.append_assoc, unindent_indent_append]
    · exact wrapped
  · exact wrapped

theorem unindent_formatLine_eq (first second : Style) (level : Int) (margin : Nat) (line : Text) :
    unindent (BlockComment.formatLine (first.indent level) margin line) =
      unindent (BlockComment.formatLine (second.indent level) margin line) := by
  simp only [BlockComment.formatLine]
  split
  · rfl
  · split <;> simp only [List.append_assoc, unindent_indent_append]

theorem unindent_formatComment_eq (first second : Style) (level : Int) (comment : Text) :
    unindent (BlockComment.format (first.indent level) comment) =
      unindent (BlockComment.format (second.indent level) comment) := by
  unfold BlockComment.format
  split
  · have bare (style : Style) : unindent (style.indent level) = unindent [] := by
      rw [← unindent_indent_append style level [], List.append_nil]
    rw [bare, bare]
  · simp only [Text.unindent_joinLines, List.map_cons, List.map_map, unindent_indent_append]
    congr 2
    apply List.map_congr_left
    intro line _
    exact unindent_formatLine_eq first second level _ line

/-- Lines that are the same without the spaces that they start with. -/
def SameUnindented (lines others : List Text) : Prop :=
  lines.map unindent = others.map unindent

theorem sameUnindented_indent_append (first second : Style) (level : Int) (text : Text) :
    SameUnindented [first.indent level ++ text] [second.indent level ++ text] := by
  simp only [SameUnindented, List.map_cons, List.map_nil, unindent_indent_append]

theorem sameUnindented_tokenLines (same : first.inlineLimit = second.inlineLimit) (level : Nat)
    (token : Token) :
    Alongside SameUnindented (tokenLines first level token) (tokenLines second level token) := by
  unfold tokenLines
  simp only
  split
  · exact .ok rfl
  · split
    · next comment _ =>
        exact .ok (congrArg ([·]) (unindent_formatComment_eq first second level comment))
    · exact .ok (sameUnindented_indent_append first second level _)
  · apply (Alongside.refl (fun _ => rfl) _).bind
    rintro attributes _ rfl
    exact .ok (unindent_arrange_eq same level attributes)
  · exact .ok (sameUnindented_indent_append first second level _)
  · exact .ok (sameUnindented_indent_append first second _ _)
  · exact .ok (sameUnindented_indent_append first second level _)

/-- The lines that two styles put together are the same without the spaces that they start with:
blank lines and wrapped attributes do not depend on the width. -/
theorem sameUnindented_linesFrom (same : first.inlineLimit = second.inlineLimit) (level : Nat)
    (previous : Option Token) (tokens : List Token) :
    Alongside SameUnindented (linesFrom first level previous tokens)
      (linesFrom second level previous tokens) := by
  induction tokens generalizing level previous with
  | nil => exact .ok rfl
  | cons token tokens ih =>
      apply (sameUnindented_tokenLines same level token).bind
      intro own otherOwn sameOwn
      apply (ih (nextLevel level token) (some token)).bind
      intro rest otherRest sameRest
      rw [SameUnindented] at sameOwn sameRest
      refine .ok ?_
      simp only [SameUnindented, List.map_append, sameOwn, sameRest]

/-- The document that tokens are printed as depends on the width only in the spaces that its lines
start with. -/
theorem unindentedLines_format (same : first.inlineLimit = second.inlineLimit)
    (tokens : List Token) :
    Alongside (fun document other => unindentedLines document = unindentedLines other)
      (format first tokens) (format second tokens) := by
  apply (sameUnindented_linesFrom same 0 none tokens).bind
  intro lines others sameLines
  refine .ok ?_
  rw [← Text.splitOn_unindent, ← Text.splitOn_unindent, unindent_finalize, unindent_finalize,
    Text.unindent_joinLines, Text.unindent_joinLines, sameLines]

end Layout

namespace Document

/-- The width of a level affects nothing but the spaces that lines start with: under two styles with
the same limit, printing any tokens and formatting any text fail alike, or they give as many lines
that are the same without these spaces. -/
theorem unindentedLines_format_eq {first second : Style}
    (same : first.inlineLimit = second.inlineLimit) :
    (∀ tokens, Alongside (fun document other => unindentedLines document = unindentedLines other)
      (Layout.format first tokens) (Layout.format second tokens)) ∧
    ∀ text, Alongside (fun document other => unindentedLines document = unindentedLines other)
      (format first text) (format second text) := by
  refine ⟨Layout.unindentedLines_format same, ?_⟩
  intro text
  apply (Alongside.refl (fun _ => rfl) (tokens text)).bind
  rintro cut _ rfl
  exact Layout.unindentedLines_format same cut

/-- A wrapped block, a comment with a margin of its own and a body at the widths two and three. -/
theorem unindentedLines_format_eq_margin :
    format { indentWidth := 2 } "\x7b[a,b]/* c\n   d\n    e*/x".toList =
        .ok "\x7b\n  [\n    a,\n    b\n  ]\n  /* c\n  d\n   e*/\n  x\n".toList ∧
      format { indentWidth := 3 } "\x7b[a,b]/* c\n   d\n    e*/x".toList =
        .ok "\x7b\n   [\n      a,\n      b\n   ]\n   /* c\n   d\n    e*/\n   x\n".toList ∧
      Alongside (fun document other => unindentedLines document = unindentedLines other)
        (format { indentWidth := 2 } "\x7b[a,b]/* c\n   d\n    e*/x".toList)
        (format { indentWidth := 3 } "\x7b[a,b]/* c\n   d\n    e*/x".toList) :=
  ⟨by decide +kernel, by decide +kernel,
    (@unindentedLines_format_eq { indentWidth := 2 } { indentWidth := 3 } rfl).2 _⟩

end Document

end IdlFormat
