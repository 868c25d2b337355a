import IdlFormat.Proofs.Indentation

/-!
# Line breaks of a document

A document has line feeds only, whatever the line breaks of its text are: they are normalised first,
and no later stage brings a carriage return back. Respacing is covered by one more monitor, and the
other stages take parts of the text and add characters of their own, none of which is one.

Together with the clean-up this is the shape of every document (`Document.isClean_format`).
-/

namespace IdlFormat

namespace Text

theorem return_not_mem_normalizeBreaks (text : Text) : '\r' ∉ text.normalizeBreaks := by
  fun_induction normalizeBreaks text with
  | case1 => simp
  | case2 rest ih => simpa using ih
  | case3 c rest _ ih =>
      intro member
      rcases List.mem_cons.1 member with first | later
      · split at first
        · exact absurd first (by decide)
        · next other => exact other first.symm
      · exact ih later

/-- Objects to carriage returns. -/
def returns : Monitor Unit where
  Admits _ c := c ≠ '\r'
  next _ _ := ()
  Laxer _ _ := True
  refl _ := trivial
  admits _ admitted := admitted
  after _ _ := trivial
  space _ := by decide
  relaxed _ := trivial
  blank _ _ _ := trivial
  twice _ := trivial
  tight _ _ _ := ⟨id, trivial⟩
  opened _ := trivial
  closing _ := by decide
  guid := by
    rintro _ c guid rfl
    exact absurd guid (by decide)

theorem passes_returns_iff {text : Text} : returns.Passes () text ↔ '\r' ∉ text := by
  induction text with
  | nil => simp [Monitor.Passes]
  | cons c rest ih =>
      rw [List.mem_cons, not_or, ← ih]
      exact and_congr_left fun _ => ne_comm

end Text

open Text (passes_returns_iff)

/-! ## Hidden texts -/

namespace Segment

theorem return_not_mem_text {text : Text} (absent : '\r' ∉ text) {segment : Segment}
    (member : segment ∈ split text) : '\r' ∉ segment.text := by
  intro inside
  apply absent
  rw [← spell_split text]
  exact List.mem_flatMap.2 ⟨segment, member, inside⟩

/-- The characters that are written to close a literal or to bring a comment into block form. -/
def closers : List Char := ['"', '\'', '\\', ' ', '*', '/']

variable {c : Char}

theorem not_mem_repair (other : c ∉ closers) {quote : Char} (quoted : isQuote quote)
    {body repair : Text} (whole : Literal.scan quote false body = ⟨body, [], repair⟩) : c ∉ repair := by
  simp only [closers, List.mem_cons, List.not_mem_nil, or_false, not_or] at other
  have notQuote : c ≠ quote := by
    rcases isQuote_iff.1 quoted with rfl | rfl
    · exact other.1
    · exact other.2.1
  have added := Literal.repair_scan quote false body
  rw [whole] at added
  rcases added with rfl | ⟨lone, rfl⟩
  · exact List.not_mem_nil
  · rw [Literal.repair]
    split <;> simp [notQuote, other]

theorem not_mem_breakCloses (other : c ∉ closers) {text : Text} (absent : c ∉ text) :
    c ∉ Comment.breakCloses text := by
  simp only [closers, List.mem_cons, List.not_mem_nil, or_false, not_or] at other
  fun_induction Comment.breakCloses text <;> simp_all

theorem not_mem_blockForm (other : c ∉ closers) {text : Text} (absent : c ∉ text)
    (form : Comment.Form) : c ∉ Comment.blockForm form text := by
  cases form with
  | block => exact absent
  | line =>
      have body : c ∉ Comment.breakCloses (Text.trim (text.drop 2)) := by
        apply not_mem_breakCloses other
        intro inside
        exact absent (List.mem_of_mem_drop ((Text.trim_sublist _).subset inside))
      simp only [closers, List.mem_cons, List.not_mem_nil, or_false, not_or] at other
      simp only [Comment.blockForm]
      split
      · simp [other]
      · simp [body, other]

theorem Fits.not_mem_closed (other : c ∉ closers) {segment : Segment} {next : Option Char}
    (fits : segment.Fits next) (absent : c ∉ segment.text) : c ∉ segment.closed := by
  cases segment with
  | code d => exact absent
  | comment form text => exact absent
  | literal text repair =>
      rcases fits with ⟨quote, body, rfl, quoted, whole, -⟩
      rw [closed, List.mem_append, not_or]
      exact ⟨absent, not_mem_repair other quoted whole⟩

theorem Fits.not_mem_restored (other : c ∉ closers) {segment : Segment} {next : Option Char}
    (fits : segment.Fits next) (absent : c ∉ segment.text) : c ∉ segment.restored := by
  cases segment with
  | code d => exact absent
  | comment form text => exact not_mem_blockForm other absent form
  | literal text repair => exact fits.not_mem_closed other absent

end Segment

theorem return_not_mem_closeLiterals {text : Text} (absent : '\r' ∉ text) :
    '\r' ∉ closeLiterals text := by
  intro member
  rcases List.mem_flatMap.1 member with ⟨segment, inSplit, inside⟩
  rcases (Segment.lexed_split text).exists_fits segment inSplit with ⟨next, fits⟩
  exact fits.not_mem_closed (by decide) (Segment.return_not_mem_text absent inSplit) inside

namespace Mask

theorem return_not_mem_write {segments : List Segment}
    (absent : ∀ segment ∈ segments, '\r' ∉ segment.text) (next : Nat) :
    '\r' ∉ write next (segments.map Segment.piece) := by
  have numbers (number : Nat) : '\r' ∉ placeholder number := by
    intro member
    exact absurd (isPlaceholderChar_of_mem member) (by decide)
  induction segments generalizing next with
  | nil => exact List.not_mem_nil
  | cons segment segments ih =>
      have own := absent segment List.mem_cons_self
      have others := ih fun other member => absent other (List.mem_cons_of_mem segment member)
      cases segment with
      | code c =>
          intro member
          rcases List.mem_cons.1 member with rfl | later
          · exact own List.mem_cons_self
          · exact others next later
      | literal text repair =>
          rw [List.map_cons, Segment.piece, write, List.mem_append, not_or]
          exact ⟨numbers next, others (next + 1)⟩
      | comment form text =>
          rw [List.map_cons, Segment.piece, write, List.mem_append, not_or]
          exact ⟨numbers next, others (next + 1)⟩

theorem return_not_mem_saved {text hidden : Text} (absent : '\r' ∉ text)
    (member : hidden ∈ (mask text).saved) : '\r' ∉ hidden := by
  change hidden ∈ saved (pieces (closeLiterals text)) at member
  rw [pieces_closeLiterals, saved_map_piece, Segment.hidden] at member
  rcases List.mem_filterMap.1 member with ⟨segment, inSplit, same⟩
  rcases (Segment.lexed_split text).exists_fits segment inSplit with ⟨next, fits⟩
  have restored := fits.not_mem_restored (by decide : '\r' ∉ Segment.closers)
    (Segment.return_not_mem_text absent inSplit)
  cases segment with
  | code c => simp at same
  | literal text repair =>
      rw [← Option.some.inj same]
      exact restored
  | comment form text =>
      rw [← Option.some.inj same]
      exact restored

theorem return_not_mem_restore {saved : List Text} (hidden : ∀ text ∈ saved, '\r' ∉ text)
    {text restored : Text} (absent : '\r' ∉ text) (found : restore saved text = .ok restored) :
    '\r' ∉ restored := by
  fun_induction restore saved text generalizing restored with
  | case1 text digits rest there ih =>
      rcases eq_of_placeholder? there with ⟨rfl, -⟩
      rcases bind_eq_ok_iff.1 found with ⟨number, -, found⟩
      rcases bind_eq_ok_iff.1 found with ⟨more, later, found⟩
      obtain rfl := Except.ok.inj found
      simp only [List.mem_cons, List.mem_append, not_or] at absent
      have put : '\r' ∉ saved.getD number (mark :: digits ++ [mark]) := by
        rw [List.getD_eq_getElem?_getD]
        cases known : saved[number]? with
        | none => simp [absent]
        | some text => exact hidden text (List.mem_of_getElem? known)
      rw [List.mem_append, not_or]
      exact ⟨put, ih absent.2.2.2 later⟩
  | case2 =>
      obtain rfl := Except.ok.inj found
      exact List.not_mem_nil
  | case3 c rest there ih =>
      rcases bind_eq_ok_iff.1 found with ⟨more, later, found⟩
      obtain rfl := Except.ok.inj found
      rw [List.mem_cons, not_or] at absent ⊢
      exact ⟨absent.1, ih absent.2 later⟩

/-- Respacing between hiding and restoring brings no carriage return back. -/
theorem return_not_mem_unmask {respace : Text → Text}
    (passes : ∀ {text : Text}, Text.returns.Passes () text → Text.returns.Passes () (respace text))
    {text result : Text} (absent : '\r' ∉ text)
    (found : unmask (mask text).saved (respace (mask text).text) = .ok result) : '\r' ∉ result := by
  have masked : '\r' ∉ (mask text).text := by
    show '\r' ∉ write 0 (pieces (closeLiterals text))
    rw [pieces_closeLiterals]
    exact return_not_mem_write (fun segment => Segment.return_not_mem_text absent) 0
  have respaced : '\r' ∉ respace (mask text).text :=
    passes_returns_iff.1 (passes (passes_returns_iff.2 masked))
  rw [unmask] at found
  split at found
  · obtain rfl := Except.ok.inj found
    exact respaced
  · exact return_not_mem_restore (fun hidden => return_not_mem_saved absent) respaced found

end Mask

theorem Statement.return_not_mem_normalize {text normalized : Text} (absent : '\r' ∉ text)
    (found : normalize text = .ok normalized) : '\r' ∉ normalized :=
  Mask.return_not_mem_unmask Monitor.passes_statementRespace absent found

theorem Attribute.return_not_mem_format {text formatted : Text} (absent : '\r' ∉ text)
    (found : format text = .ok formatted) : '\r' ∉ formatted :=
  Mask.return_not_mem_unmask Monitor.passes_attributeRespace absent found

/-! ## Tokens -/

theorem EnumMember.return_not_mem_ofPieces {pieces : List Text}
    (absent : ∀ piece ∈ pieces, '\r' ∉ piece) (keepSemicolon : Bool) {member : Text}
    (inside : member ∈ ofPieces keepSemicolon pieces) : '\r' ∉ member := by
  have trimmed {piece : Text} (own : '\r' ∉ piece) : '\r' ∉ piece.trim :=
    fun member => own ((Text.trim_sublist piece).subset member)
  fun_induction ofPieces keepSemicolon pieces with
  | case1 => simp at inside
  | case2 piece member kept empty => simp at inside
  | case3 piece single kept filled =>
      rw [List.mem_singleton.1 inside]
      have own : '\r' ∉ single := trimmed (absent piece List.mem_cons_self)
      have dropped : '\r' ∉ dropTerminator single := by
        rw [dropTerminator]
        split
        · split
          · intro member
            exact own (List.dropLast_subset _ ((Text.trimEnd_sublist _).subset member))
          · exact own
        · exact own
      show '\r' ∉ if _ then _ else _
      split
      · exact own
      · exact dropped
  | case4 piece pieces _ single members empty ih =>
      exact ih (fun other member => absent other (List.mem_cons_of_mem piece member)) inside
  | case5 piece pieces _ single members filled ih =>
      rcases List.mem_cons.1 inside with rfl | later
      · have own : '\r' ∉ single := trimmed (absent piece List.mem_cons_self)
        simp [own]
      · exact ih (fun other member => absent other (List.mem_cons_of_mem piece member)) later

theorem EnumMember.return_not_mem_split {text : Text} (absent : '\r' ∉ text) (keepSemicolon : Bool)
    {member : Text} (inside : member ∈ split keepSemicolon text) : '\r' ∉ member := by
  apply return_not_mem_ofPieces _ keepSemicolon inside
  intro piece isPiece own
  exact absent ((Bracket.isInfix_of_mem_splitTopLevel isPiece).subset own)

theorem CloseBrace.return_not_mem_token {text : Text} (absent : '\r' ∉ text) :
    '\r' ∉ (cut text).token := by
  unfold cut
  simp only
  split
  · simp
  · split
    · simp
    · split
      · simp
      · split
        · simp
        · have aliases : '\r' ∉ (text.dropWhile isIndent).takeWhile (· != ';') := by
            intro inside
            exact absent ((List.dropWhile_sublist _).subset ((List.takeWhile_sublist _).subset inside))
          have spaced := passes_returns_iff.1
            (Monitor.passes_trim (Monitor.passes_collapse (passes_returns_iff.2 aliases)))
          simp [spaced]

theorem Token.Yields.return_not_mem {before : List Token} {after source : Text} {tokens : List Token}
    (yields : Yields before after source tokens) (absent : '\r' ∉ source ++ after) {token : Token}
    (member : token ∈ tokens) : '\r' ∉ token.text := by
  have own : '\r' ∉ source := fun inside => absent (List.mem_append_left after inside)
  cases yields with
  | braceOpen =>
      rw [List.mem_singleton.1 member]
      decide
  | @braceClose rest leaves =>
      rw [List.mem_singleton.1 member]
      apply CloseBrace.return_not_mem_token
      intro inside
      apply absent
      rw [← CloseBrace.taken_append_rest rest, leaves] at inside
      exact List.mem_cons_of_mem _ inside
  | declaration normal =>
      rw [List.mem_singleton.1 member]
      exact Statement.return_not_mem_normalize own normal
  | statement normal =>
      rw [List.mem_singleton.1 member]
      exact Statement.return_not_mem_normalize own normal
  | members normal =>
      rcases List.mem_map.1 member with ⟨text, inside, rfl⟩
      exact EnumMember.return_not_mem_split (Statement.return_not_mem_normalize own normal) _ inside
  | _ =>
      rw [List.mem_singleton.1 member]
      exact own

theorem Token.return_not_mem_ofSource {text : Text} (absent : '\r' ∉ text) {tokens : List Token}
    (found : ofSource text = .ok tokens) {token : Token} (member : token ∈ tokens) :
    '\r' ∉ token.text := by
  rcases ofSource_laid found with ⟨tiles, laid, rfl⟩
  rcases laid.exists_yields member with ⟨_, after, c, tail, group, yields, own, part, -⟩
  exact yields.return_not_mem (fun inside => absent (part.subset inside)) own

/-! ## Lines -/

theorem Style.return_not_mem_indent (style : Style) (level : Int) : '\r' ∉ style.indent level := by
  simp [Style.indent]

namespace Attribute

theorem return_not_mem_split {block single : Text} (absent : '\r' ∉ block)
    (member : single ∈ split block) : '\r' ∉ single := by
  rcases List.mem_map.1 (List.mem_filter.1 member).1 with ⟨piece, isPiece, rfl⟩
  have dropped : '\r' ∉ block.drop 1 := fun inside => absent (List.mem_of_mem_drop inside)
  have inner : '\r' ∉ content block := by
    rw [content]
    split
    · exact fun inside => dropped (List.dropLast_subset _ inside)
    · next missing _ =>
        have closed := return_not_mem_closeLiterals dropped
        intro inside
        rcases List.mem_append.1 inside with own | added
        · exact closed own
        · exact absurd (List.eq_of_mem_replicate added) (by decide)
  intro inside
  exact inner ((Bracket.isInfix_of_mem_splitTopLevel isPiece).subset
    ((Text.trim_sublist piece).subset inside))

theorem return_not_mem_separated {indent : Text} (blank : '\r' ∉ indent) {attributes : List Text}
    (absent : ∀ single ∈ attributes, '\r' ∉ single) {line : Text}
    (member : line ∈ separated indent attributes) : '\r' ∉ line := by
  fun_induction separated indent attributes with
  | case1 => simp at member
  | case2 last =>
      rw [List.mem_singleton.1 member]
      simp [blank, absent last List.mem_cons_self]
  | case3 first others _ ih =>
      rcases List.mem_cons.1 member with rfl | later
      · simp [blank, absent first List.mem_cons_self]
      · exact ih (fun other inside => absent other (List.mem_cons_of_mem first inside)) later

theorem return_not_mem_arrange (style : Style) (level : Int) {attributes : List Text}
    (absent : ∀ single ∈ attributes, '\r' ∉ single) {line : Text}
    (member : line ∈ arrange style level attributes) : '\r' ∉ line := by
  have outer := style.return_not_mem_indent level
  have wrapped {line : Text} (member : line ∈ [style.indent level ++ ['[']] ++
      separated (style.indent (level + 1)) attributes ++ [style.indent level ++ [']']]) :
      '\r' ∉ line := by
    rcases List.mem_append.1 member with front | closing
    · rcases List.mem_append.1 front with opening | inner
      · rw [List.mem_singleton.1 opening]
        simp [outer]
      · exact return_not_mem_separated (style.return_not_mem_indent (level + 1)) absent inner
    · rw [List.mem_singleton.1 closing]
      simp [outer]
  unfold arrange at member
  simp only at member
  split at member
  · rw [List.mem_singleton.1 member]
    simp [outer]
  · next single =>
      split at member
      · rw [List.mem_singleton.1 member]
        simp [outer, absent single List.mem_cons_self]
      · exact wrapped member
  · exact wrapped member

end Attribute

namespace BlockComment

theorem return_not_mem_formatComment {indent : Text} (blank : '\r' ∉ indent) {comment : Text}
    (absent : '\r' ∉ comment) : '\r' ∉ format indent comment := by
  have lines : ∀ line ∈ Text.splitOn '\n' comment, '\r' ∉ line := by
    intro line member inside
    apply absent
    rw [← Text.joinLines_splitOn comment, Text.mem_joinLines_iff (by decide)]
    exact ⟨line, member, inside⟩
  rw [format]
  split
  · exact blank
  · next first rest cut =>
      rw [cut] at lines
      rw [Text.mem_joinLines_iff (by decide)]
      rintro ⟨line, member, inside⟩
      rcases List.mem_cons.1 member with rfl | later
      · rcases List.mem_append.1 inside with indented | own
        · exact blank indented
        · exact lines first List.mem_cons_self ((Text.trim_sublist first).subset own)
      · rcases List.mem_map.1 later with ⟨source, inRest, rfl⟩
        have own := lines source (List.mem_cons_of_mem first inRest)
        exact not_mem_formatLine (by decide) blank own _ inside

end BlockComment

namespace Layout

theorem return_not_mem_formatCloseBrace {text : Text} (absent : '\r' ∉ text) :
    '\r' ∉ formatCloseBrace text := by
  have brace : '\r' ∉ text.takeWhile (· != ' ') := fun inside =>
    absent ((List.takeWhile_sublist _).subset inside)
  have aliases : '\r' ∉ (text.dropWhile (· != ' ')).drop 1 := fun inside =>
    absent ((List.dropWhile_sublist _).subset (List.mem_of_mem_drop inside))
  have spaced := Monitor.passes_trim (passes_returns_iff.2 aliases)
  have collapsed := Monitor.passes_collapse (Monitor.passes_respaceCommas spaced)
  have tightened := passes_returns_iff.1 (Monitor.passes_tighten (by simp : ';' ∈ [',', ';', '(']) collapsed)
  unfold formatCloseBrace
  split
  · rw [List.mem_append, List.mem_append, not_or, not_or]
    exact ⟨⟨brace, by decide⟩, tightened⟩
  · exact absent

theorem Prints.return_not_mem {style : Style} {level : Nat} {token : Token} {lines : List Text}
    (prints : Prints style level token lines) (absent : '\r' ∉ token.text) {line : Text}
    (member : line ∈ lines) : '\r' ∉ line := by
  have indent (level : Int) := style.return_not_mem_indent level
  cases prints with
  | directive =>
      rw [List.mem_singleton.1 member]
      exact absent
  | multiline =>
      rw [List.mem_singleton.1 member]
      exact BlockComment.return_not_mem_formatComment (indent level) absent
  | comment =>
      have trimmed : '\r' ∉ token.text.trim := fun inside =>
        absent ((Text.trim_sublist token.text).subset inside)
      rw [List.mem_singleton.1 member]
      simp [indent level, trimmed]
  | block _ formatted =>
      apply Attribute.return_not_mem_arrange style level _ member
      intro single inside
      rcases exists_of_mapM_eq_ok formatted inside with ⟨source, isSource, same⟩
      exact Attribute.return_not_mem_format (Attribute.return_not_mem_split absent isSource) same
  | braceOpen =>
      rw [List.mem_singleton.1 member]
      simp [indent level]
  | braceClose =>
      rw [List.mem_singleton.1 member, List.mem_append, not_or]
      exact ⟨indent _, return_not_mem_formatCloseBrace absent⟩
  | code =>
      rw [List.mem_singleton.1 member]
      simp [indent level, absent]

theorem return_not_mem_linesFrom {tokens : List Token} (emitted : ∀ token ∈ tokens, token.Emitted)
    (absent : ∀ token ∈ tokens, '\r' ∉ token.text) {style : Style} {lines : List Text}
    (found : linesFrom style 0 none tokens = .ok lines) {line : Text} (member : line ∈ lines) :
    '\r' ∉ line := by
  rcases @exists_rows style [] tokens none lines found with ⟨rows, laid, same⟩
  by_cases empty : line.isEmpty
  · rw [List.isEmpty_iff.1 empty]
    exact List.not_mem_nil
  · have inRows : line ∈ rows.flatten.filter (!·.isEmpty) := by
      rw [← same]
      exact List.mem_filter.2 ⟨member, by simpa using empty⟩
    rcases List.mem_flatten.1 (List.mem_filter.1 inRows).1 with ⟨row, isRow, inRow⟩
    rcases laid.exists_printed isRow with ⟨index, token, there, -, printed⟩
    have isToken : token ∈ tokens := List.mem_of_getElem? there
    exact (prints_of_tokenLines (emitted token isToken) printed).return_not_mem (absent token isToken)
      inRow

end Layout

theorem return_not_mem_finalize {text : Text} (absent : '\r' ∉ text) : '\r' ∉ finalize text := by
  have trimmed : '\r' ∉ Clean.trimLineEnds text := by
    intro inside
    apply absent
    clear absent
    induction text with
    | nil => exact inside
    | cons c rest ih =>
        rw [Clean.trimLineEnds_cons] at inside
        split at inside
        · exact List.mem_cons_of_mem c (ih inside)
        · exact List.mem_cons.2 ((List.mem_cons.1 inside).imp_right ih)
  have capped (breaks : Nat) {text : Text} (absent : '\r' ∉ text) :
      '\r' ∉ Clean.capBreaksFrom breaks text := by
    fun_induction Clean.capBreaksFrom breaks text <;> simp_all
  have started : '\r' ∉ (Clean.capBreaks (Clean.trimLineEnds text)).dropWhile (· = '\n') :=
    fun inside => capped 0 trimmed ((List.dropWhile_sublist _).subset inside)
  intro inside
  rcases List.mem_append.1 inside with ended | added
  · exact started ((Text.trimEnd_sublist _).subset ended)
  · exact absurd (List.mem_singleton.1 added) (by decide)

namespace Document

theorem return_not_mem_format {style : Style} {text document : Text}
    (found : format style text = .ok document) : '\r' ∉ document := by
  rcases bind_eq_ok_iff.1 found with ⟨tokens, cut, found⟩
  rcases bind_eq_ok_iff.1 found with ⟨lines, printed, found⟩
  obtain rfl := Except.ok.inj found
  rcases Token.ofSource_laid cut with ⟨tiles, laid, rfl⟩
  apply return_not_mem_finalize
  rw [Text.mem_joinLines_iff (by decide)]
  rintro ⟨line, member, inside⟩
  apply Layout.return_not_mem_linesFrom (fun token => laid.emitted) _ printed member inside
  intro token
  exact Token.return_not_mem_ofSource (Text.return_not_mem_normalizeBreaks text) cut

/-- The clean-up gives clean texts and leaves exactly those alone, and every document is clean and
has line feeds only. -/
theorem isClean_format :
    (∀ text, IsClean (finalize text)) ∧ (∀ text, finalize text = text ↔ IsClean text) ∧
      (∀ text, finalize (finalize text) = finalize text) ∧
      ∀ style text document, format style text = .ok document →
        IsClean document ∧ '\r' ∉ document := by
  refine ⟨isClean_finalize, finalize_eq_self_iff_isClean, ?_, ?_⟩
  · intro text
    exact finalize_of_isClean (isClean_finalize text)
  · intro style text document found
    refine ⟨?_, return_not_mem_format found⟩
    rcases bind_eq_ok_iff.1 found with ⟨tokens, -, printed⟩
    rcases bind_eq_ok_iff.1 printed with ⟨lines, -, same⟩
    rw [← Except.ok.inj same]
    exact isClean_finalize _

/-- A text with all three conventions of line breaks, blank lines, and blanks at the ends of lines. -/
theorem isClean_format_mixed :
    format {} "\r\r\n\t// a \t\r\n\n\r[b, \rc]\x0b\r\rint\r d; \u2028\n ".toList =
        .ok "// a\n\n[\n    b,\n    c\n]\nint d;\n".toList ∧
      IsClean "// a\n\n[\n    b,\n    c\n]\nint d;\n".toList ∧
      '\r' ∉ "// a\n\n[\n    b,\n    c\n]\nint d;\n".toList := by
  have found : format {} "\r\r\n\t// a \t\r\n\n\r[b, \rc]\x0b\r\rint\r d; \u2028\n ".toList =
      .ok "// a\n\n[\n    b,\n    c\n]\nint d;\n".toList := by
    decide +kernel
  exact ⟨found, isClean_format.2.2.2 _ _ _ found⟩

end Document

end IdlFormat
