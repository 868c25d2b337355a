import IdlFormat.Proofs.Overlong

/-!
# Indentation of a document

Every line starts in the column that the open braces before its token give. The lines fall into rows,
one for each token, with nothing but empty lines between them (`Layout.exists_rows`). What a row looks
like is said by the kind of its token (`Layout.Indented`), and that it starts with a solid character
in the right column rests on one fact about tokens: their texts start with a solid character, because
units are cut off where they do and respacing trims them.
-/

namespace IdlFormat

namespace Text

/-- The text starts with a character that is not blank. -/
def StartsSolid (text : Text) : Prop :=
  ∃ c rest, text = c :: rest ∧ IdlFormat.isBlank c = false

namespace StartsSolid

variable {text : Text}

theorem ne_nil (starts : StartsSolid text) : text ≠ [] := by
  rcases starts with ⟨c, rest, rfl, -⟩
  exact List.cons_ne_nil c rest

theorem append (starts : StartsSolid text) (more : Text) : StartsSolid (text ++ more) := by
  rcases starts with ⟨c, rest, rfl, solid⟩
  exact ⟨c, rest ++ more, rfl, solid⟩

theorem of_head?_eq {other : Text} (starts : StartsSolid text) (same : other.head? = text.head?) :
    StartsSolid other := by
  rcases starts with ⟨c, rest, rfl, solid⟩
  rcases List.head?_eq_some_iff.1 same with ⟨more, rfl⟩
  exact ⟨c, more, rfl, solid⟩

theorem of_start {start : Text} (starts : StartsSolid text) (part : start <+: text)
    (filled : start ≠ []) : StartsSolid start := by
  rcases part with ⟨more, rfl⟩
  exact starts.of_head?_eq (List.head?_append_of_ne_nil start filled).symm

theorem compact_ne_nil (starts : StartsSolid text) : text.compact ≠ [] := by
  rcases starts with ⟨c, rest, rfl, solid⟩
  simp [compact_cons, solid]

end StartsSolid

theorem startsSolid_trim {text : Text} (filled : text.trim ≠ []) : StartsSolid text.trim := by
  have start := trimEnd_prefix text.trimStart
  have nonempty : text.trimStart ≠ [] := by
    intro empty
    exact filled (by rw [trim, empty]; rfl)
  rcases List.exists_cons_of_ne_nil nonempty with ⟨c, rest, shape⟩
  have solid := List.head?_dropWhile_not IdlFormat.isBlank text
  have starts : StartsSolid text.trimStart := by
    refine ⟨c, rest, shape, ?_⟩
    rw [trimStart] at shape
    simpa [shape] using solid
  exact starts.of_start start filled

end Text

open Text (StartsSolid)

/-! ## Respaced texts start with a solid character -/

theorem Statement.startsSolid_respace {text : Text} (starts : StartsSolid text) :
    StartsSolid (respace text) := by
  apply Text.startsSolid_trim
  intro empty
  apply starts.compact_ne_nil
  rw [← compact_respace, ← Text.trim_eq_nil_iff]
  exact (congrArg Text.trim empty : Text.trim (respace text) = _)

theorem Text.head?_spaceCommas (text : Text) : text.spaceCommas.head? = text.head? := by
  fun_cases Text.spaceCommas text <;> rfl

theorem Attribute.startsSolid_respace {text : Text} (starts : StartsSolid text) :
    StartsSolid (respace text) := by
  have trimmed : StartsSolid text.collapse.trim := by
    apply Text.startsSolid_trim
    rw [ne_eq, Text.trim_eq_nil_iff, Text.compact_collapse]
    exact starts.compact_ne_nil
  have spaced := trimmed.of_head?_eq (Text.head?_spaceCommas _)
  simp only [respace]
  split
  · next name inner found =>
      rcases eq_of_call? found with ⟨-, filled, gap, -, same⟩
      rw [same, List.append_assoc, List.append_assoc] at spaced
      rw [List.append_assoc, List.append_assoc]
      exact (spaced.of_start (List.prefix_append _ _) filled).append _
  · exact spaced

namespace Mask

theorem startsSolid_write {text : Text} (starts : StartsSolid text) :
    StartsSolid (write 0 ((Segment.split text).map Segment.piece)) := by
  have spelled := Segment.spell_split text
  cases segments : Segment.split text with
  | nil =>
      rw [segments, Segment.spell_nil] at spelled
      exact absurd spelled.symm starts.ne_nil
  | cons segment others =>
      rw [segments, Segment.spell_cons] at spelled
      have solid : isBlank mark = false := by decide
      cases segment with
      | code c =>
          apply starts.of_head?_eq
          rw [← spelled]
          rfl
      | literal body repair => exact ⟨mark, _, rfl, solid⟩
      | comment form body => exact ⟨mark, _, rfl, solid⟩

theorem startsSolid_saved {text hidden : Text} (member : hidden ∈ (mask text).saved) :
    StartsSolid hidden := by
  change hidden ∈ saved (pieces (closeLiterals text)) at member
  rw [pieces_closeLiterals, saved_map_piece, Segment.hidden] at member
  rcases List.mem_filterMap.1 member with ⟨segment, inSplit, same⟩
  rcases (Segment.lexed_split text).exists_fits segment inSplit with ⟨next, fits⟩
  have slash : isBlank '/' = false := by decide
  cases segment with
  | code c => simp at same
  | literal text repair =>
      rcases fits with ⟨quote, body, rfl, quoted, -⟩
      rw [← Option.some.inj same]
      exact ⟨quote, body ++ repair, rfl, Segment.isBlank_quote quoted⟩
  | comment form body =>
      rw [← Option.some.inj same]
      cases form with
      | block =>
          rcases fits with ⟨inner, rfl, -⟩
          exact ⟨'/', '*' :: inner, rfl, slash⟩
      | line =>
          simp only [Segment.restored, Comment.blockForm]
          split
          · exact ⟨'/', _, rfl, slash⟩
          · exact ⟨'/', _, rfl, slash⟩

theorem startsSolid_restore {saved : List Text} (hidden : ∀ text ∈ saved, StartsSolid text)
    {text restored : Text} (starts : StartsSolid text) (found : restore saved text = .ok restored) :
    StartsSolid restored := by
  rw [restore] at found
  split at found
  · next digits rest there =>
      rcases bind_eq_ok_iff.1 found with ⟨number, -, found⟩
      rcases bind_eq_ok_iff.1 found with ⟨more, -, found⟩
      obtain rfl := Except.ok.inj found
      apply StartsSolid.append
      rw [List.getD_eq_getElem?_getD]
      cases known : saved[number]? with
      | none => exact ⟨mark, _, rfl, by decide⟩
      | some text => exact hidden text (List.mem_of_getElem? known)
  · rcases starts with ⟨c, rest, rfl, solid⟩
    rcases bind_eq_ok_iff.1 found with ⟨more, -, found⟩
    obtain rfl := Except.ok.inj found
    exact ⟨c, more, rfl, solid⟩

theorem startsSolid_unmask {respace : Text → Text}
    (keeps : ∀ {text : Text}, StartsSolid text → StartsSolid (respace text)) {text result : Text}
    (starts : StartsSolid text)
    (found : unmask (mask text).saved (respace (mask text).text) = .ok result) :
    StartsSolid result := by
  have masked : StartsSolid (mask text).text := by
    show StartsSolid (write 0 (pieces (closeLiterals text)))
    rw [pieces_closeLiterals]
    exact startsSolid_write starts
  rw [unmask] at found
  split at found
  · obtain rfl := Except.ok.inj found
    exact keeps masked
  · exact startsSolid_restore (fun hidden => startsSolid_saved) (keeps masked) found

end Mask

theorem Statement.startsSolid_normalize {text normalized : Text} (starts : StartsSolid text)
    (found : normalize text = .ok normalized) : StartsSolid normalized :=
  Mask.startsSolid_unmask startsSolid_respace starts found

theorem Attribute.startsSolid_format {text formatted : Text} (starts : StartsSolid text)
    (found : format text = .ok formatted) : StartsSolid formatted :=
  Mask.startsSolid_unmask startsSolid_respace starts found

theorem Attribute.startsSolid_of_mem_split {block single : Text} (member : single ∈ split block) :
    StartsSolid single := by
  rcases List.mem_filter.1 member with ⟨isPiece, filled⟩
  rcases List.mem_map.1 isPiece with ⟨piece, -, rfl⟩
  apply Text.startsSolid_trim
  simpa using filled

/-! ## Tokens start with a solid character -/

theorem EnumMember.startsSolid_of_mem_ofPieces {keepSemicolon : Bool} {pieces : List Text}
    {member : Text} (inside : member ∈ ofPieces keepSemicolon pieces) : StartsSolid member := by
  fun_induction ofPieces keepSemicolon pieces with
  | case1 => simp at inside
  | case2 piece single kept empty => simp at inside
  | case3 piece single kept filled =>
      rw [List.mem_singleton.1 inside]
      have nonempty : kept ≠ [] := by simpa using filled
      have start : kept <+: single := by
        show (if _ then _ else _) <+: single
        split
        · exact List.prefix_refl _
        · rw [dropTerminator]
          split
          · split
            · exact (Text.trimEnd_prefix _).trans (List.dropLast_prefix _)
            · exact List.prefix_refl _
          · exact List.prefix_refl _
      have starts : StartsSolid single := by
        apply Text.startsSolid_trim
        intro empty
        exact nonempty (List.prefix_nil.1 (empty ▸ start))
      exact starts.of_start start nonempty
  | case4 piece pieces _ single members empty ih => exact ih inside
  | case5 piece pieces _ single members filled ih =>
      rcases List.mem_cons.1 inside with rfl | later
      · apply StartsSolid.append
        apply Text.startsSolid_trim
        simpa using filled
      · exact ih later

theorem CloseBrace.exists_token_eq (text : Text) : ∃ rest, (cut text).token = '}' :: rest := by
  unfold cut
  simp only
  split
  · exact ⟨_, rfl⟩
  · split
    · exact ⟨_, rfl⟩
    · split
      · exact ⟨_, rfl⟩
      · split
        · exact ⟨_, rfl⟩
        · exact ⟨_, rfl⟩

theorem Token.Yields.startsSolid {before : List Token} {after source : Text} {tokens : List Token}
    (yields : Yields before after source tokens) (starts : StartsSolid source) {token : Token}
    (member : token ∈ tokens) : StartsSolid token.text := by
  cases yields with
  | braceOpen =>
      rw [List.mem_singleton.1 member]
      exact starts
  | @braceClose rest _ =>
      rw [List.mem_singleton.1 member]
      rcases CloseBrace.exists_token_eq rest with ⟨more, same⟩
      exact ⟨'}', more, same, by decide⟩
  | declaration normal =>
      rw [List.mem_singleton.1 member]
      exact Statement.startsSolid_normalize starts normal
  | statement normal =>
      rw [List.mem_singleton.1 member]
      exact Statement.startsSolid_normalize starts normal
  | members =>
      rcases List.mem_map.1 member with ⟨text, inside, rfl⟩
      exact EnumMember.startsSolid_of_mem_ofPieces inside
  | _ =>
      rw [List.mem_singleton.1 member]
      exact starts

theorem Token.startsSolid_of_ofSource {text : Text} {tokens : List Token}
    (found : ofSource text = .ok tokens) {token : Token} (member : token ∈ tokens) :
    StartsSolid token.text := by
  rcases ofSource_laid found with ⟨tiles, laid, rfl⟩
  rcases laid.exists_yields member with ⟨_, _, c, tail, _, yields, own, -, solid⟩
  exact yields.startsSolid ⟨c, tail, rfl, solid⟩ own

/-! ## Rows of lines -/

/-- The number of braces that tokens leave open: the opening ones less the closing ones, floored at
zero after every token. -/
def Token.openBraces (tokens : List Token) : Nat :=
  tokens.foldl
    (fun depth token => depth + (if token.kind = .braceOpen then 1 else 0) -
      (if token.kind = .braceClose then 1 else 0))
    0

namespace Layout

theorem openBraces_append_single (before : List Token) (token : Token) :
    Token.openBraces (before ++ [token]) = nextLevel (Token.openBraces before) token := by
  rw [Token.openBraces, List.foldl_concat, ← Token.openBraces, nextLevel]
  cases token.kind <;> rfl

/-- The lines of a token that is cut from source text, by its kind. -/
inductive Prints (style : Style) (level : Nat) (token : Token) : List Text → Prop
  /-- A directive starts in the first column. -/
  | directive (kind : token.kind = .directive) : Prints style level token [token.text]
  /-- A comment of several lines is indented anew. -/
  | multiline (kind : token.kind = .comment) :
      Prints style level token [BlockComment.format (style.indent level) token.text]
  /-- Any other comment is trimmed. -/
  | comment (kind : token.kind = .comment) :
      Prints style level token [style.indent level ++ token.text.trim]
  /-- The attributes of a block are arranged. -/
  | block {attributes : List Text} (kind : token.kind = .attributeBlock)
      (formatted : (Attribute.split token.text).mapM Attribute.format = .ok attributes) :
      Prints style level token (Attribute.arrange style level attributes)
  /-- An opening brace stands alone. -/
  | braceOpen (kind : token.kind = .braceOpen) : Prints style level token [style.indent level ++ ['{']]
  /-- A closing brace stands one level further out. -/
  | braceClose (kind : token.kind = .braceClose) :
      Prints style level token [style.indent (level - 1 : Nat) ++ formatCloseBrace token.text]
  /-- Statements and declarations are printed as they are. -/
  | code (kind : token.kind ∈ [.statement, .declaration]) :
      Prints style level token [style.indent level ++ token.text]

theorem prints_of_tokenLines {style : Style} {level : Nat} {token : Token} (emitted : token.Emitted)
    {lines : List Text} (found : tokenLines style level token = .ok lines) :
    Prints style level token lines := by
  unfold tokenLines at found
  simp only at found
  split at found
  · next kind =>
      obtain rfl := Except.ok.inj found
      exact .directive kind
  · next kind =>
      split at found
      · next comment raw =>
          obtain rfl := Except.ok.inj found
          have same : comment = token.text := by
            rw [Token.multilineText?, if_pos kind, emitted.rawText] at raw
            split at raw
            · exact (Option.some.inj (Option.filter_eq_some_iff.1 raw).1).symm
            · simp at raw
          rw [same]
          exact .multiline kind
      · obtain rfl := Except.ok.inj found
        exact .comment kind
  · next kind =>
      rcases bind_eq_ok_iff.1 found with ⟨attributes, formatted, found⟩
      obtain rfl := Except.ok.inj found
      exact .block kind formatted
  · next kind =>
      obtain rfl := Except.ok.inj found
      exact .braceOpen kind
  · next kind =>
      obtain rfl := Except.ok.inj found
      rw [nextLevel, kind]
      exact .braceClose kind
  · next notDirective notComment notBlock notOpen notClose =>
      obtain rfl := Except.ok.inj found
      have listed := emitted.kind
      simp only [List.mem_cons, List.not_mem_nil, or_false] at listed
      rcases listed with kind | kind | kind | kind | kind | kind | kind
      · exact (notComment kind).elim
      · exact (notDirective kind).elim
      · exact (notBlock kind).elim
      · exact (notOpen kind).elim
      · exact (notClose kind).elim
      · exact .code (by simp [kind])
      · exact .code (by simp [kind])

/-- Rows of lines, one for each of the tokens that follow `before`, in their order. -/
structure Rows (style : Style) (before tokens : List Token) (rows : List (List Text)) : Prop where
  /-- There are as many rows as tokens. -/
  length_eq : rows.length = tokens.length
  /-- A row has the lines of its token, at the level that the tokens in front of it leave. -/
  printed : ∀ index token row, tokens[index]? = some token → rows[index]? = some row →
    tokenLines style (Token.openBraces (before ++ tokens.take index)) token = .ok row

/-- The lines of tokens fall into rows, with empty lines between them. -/
theorem exists_rows {style : Style} {before tokens : List Token} {previous : Option Token}
    {lines : List Text}
    (found : linesFrom style (Token.openBraces before) previous tokens = .ok lines) :
    ∃ rows, Rows style before tokens rows ∧
      lines.filter (!·.isEmpty) = rows.flatten.filter (!·.isEmpty) := by
  induction tokens generalizing before previous lines with
  | nil =>
      obtain rfl := Except.ok.inj found
      exact ⟨[], ⟨rfl, by simp⟩, rfl⟩
  | cons token tokens ih =>
      rcases bind_eq_ok_iff.1 found with ⟨own, printed, found⟩
      rcases bind_eq_ok_iff.1 found with ⟨rest, more, found⟩
      obtain rfl := Except.ok.inj found
      rw [← openBraces_append_single] at more
      rcases ih more with ⟨rows, later, same⟩
      refine ⟨own :: rows, ⟨by simp [later.length_eq], ?_⟩, ?_⟩
      · intro index other row there inRows
        cases index with
        | zero =>
            obtain rfl : token = other := by simpa using there
            obtain rfl : own = row := by simpa using inRows
            simpa using printed
        | succ index =>
            have next := later.printed index other row (by simpa using there) (by simpa using inRows)
            simpa using next
      · have blank (condition : Bool) :
            (if condition then [[]] else [] : List Text).filter (!·.isEmpty) = [] := by
          cases condition <;> rfl
        simp only [List.filter_append, blank, List.nil_append, List.append_nil, List.flatten_cons,
          same]

theorem Rows.exists_printed {style : Style} {before tokens : List Token} {rows : List (List Text)}
    (laid : Rows style before tokens rows) {row : List Text} (member : row ∈ rows) :
    ∃ index token, tokens[index]? = some token ∧ rows[index]? = some row ∧
      tokenLines style (Token.openBraces (before ++ tokens.take index)) token = .ok row := by
  rcases List.getElem?_of_mem member with ⟨index, there⟩
  have within : index < tokens.length := by
    rw [← laid.length_eq]
    exact (List.getElem?_eq_some_iff.1 there).1
  exact ⟨index, tokens[index], List.getElem?_eq_getElem within, there,
    laid.printed index _ row (List.getElem?_eq_getElem within) there⟩

/-! ## Columns -/

/-- A line starts with a solid character in a column, behind spaces only. -/
def StartsAt (column : Nat) (line : Text) : Prop :=
  ∃ text, line = List.replicate column ' ' ++ text ∧ StartsSolid text

/-- A row of lines that start in the columns that belong to a kind of tokens at a level. -/
inductive Indented (width level : Nat) : Token.Kind → List Text → Prop
  /-- A directive starts in the first column. -/
  | directive {line : Text} (starts : StartsAt 0 line) : Indented width level .directive [line]
  /-- Comments, declarations, statements and opening braces start at their level. -/
  | plain {kind : Token.Kind} {line : Text}
      (listed : kind ∈ [.comment, .declaration, .statement, .braceOpen])
      (starts : StartsAt (width * level) line) : Indented width level kind [line]
  /-- A closing brace starts one level further out. -/
  | braceClose {line : Text} (starts : StartsAt (width * (level - 1)) line) :
      Indented width level .braceClose [line]
  /-- A block on one line starts at its level. -/
  | inlineBlock {rest : Text} :
      Indented width level .attributeBlock [List.replicate (width * level) ' ' ++ '[' :: rest]
  /-- The brackets of a wrapped block start at its level, and its attributes one level further in. -/
  | wrappedBlock {attributes : List Text}
      (starts : ∀ line ∈ attributes, StartsAt (width * (level + 1)) line) :
      Indented width level .attributeBlock
        ((List.replicate (width * level) ' ' ++ ['[']) :: attributes ++
          [List.replicate (width * level) ' ' ++ [']']])

theorem startsAt_indent_append (style : Style) (level : Nat) {text : Text}
    (starts : StartsSolid text) :
    StartsAt (style.indentWidth * level) (style.indent level ++ text) :=
  ⟨text, rfl, starts⟩

theorem StartsAt.append {column : Nat} {line : Text} (starts : StartsAt column line) (more : Text) :
    StartsAt column (line ++ more) := by
  rcases starts with ⟨text, rfl, solid⟩
  exact ⟨text ++ more, List.append_assoc _ _ _, solid.append more⟩

theorem StartsAt.ne_nil {column : Nat} {line : Text} (starts : StartsAt column line) :
    line ≠ [] := by
  rcases starts with ⟨text, rfl, solid⟩
  exact List.append_ne_nil_of_right_ne_nil _ solid.ne_nil

theorem Indented.ne_nil {width level : Nat} {kind : Token.Kind} {row : List Text}
    (indented : Indented width level kind row) {line : Text} (member : line ∈ row) : line ≠ [] := by
  cases indented with
  | directive starts =>
      rw [List.mem_singleton.1 member]
      exact starts.ne_nil
  | plain _ starts =>
      rw [List.mem_singleton.1 member]
      exact starts.ne_nil
  | braceClose starts =>
      rw [List.mem_singleton.1 member]
      exact starts.ne_nil
  | inlineBlock =>
      rw [List.mem_singleton.1 member]
      simp
  | wrappedBlock starts =>
      rcases List.mem_append.1 member with front | closing
      · rcases List.mem_cons.1 front with rfl | inner
        · simp
        · exact (starts line inner).ne_nil
      · rw [List.mem_singleton.1 closing]
        simp

theorem startsAt_of_mem_separated (style : Style) (level : Nat) {attributes : List Text}
    (starts : ∀ single ∈ attributes, StartsSolid single) {line : Text}
    (member : line ∈ Attribute.separated (style.indent level) attributes) :
    StartsAt (style.indentWidth * level) line := by
  induction attributes with
  | nil => simp [Attribute.separated] at member
  | cons first others ih =>
      have own := startsAt_indent_append style level (starts first List.mem_cons_self)
      have more := ih fun single inside => starts single (List.mem_cons_of_mem first inside)
      cases others with
      | nil =>
          rw [Attribute.separated, List.mem_singleton] at member
          rw [member]
          exact own
      | cons second others =>
          rcases List.mem_cons.1 member with rfl | later
          · exact own.append [',']
          · exact more later

theorem indented_arrange (style : Style) (level : Nat) {attributes : List Text}
    (starts : ∀ single ∈ attributes, StartsSolid single) :
    Indented style.indentWidth level .attributeBlock (Attribute.arrange style level attributes) := by
  have wrapped : Indented style.indentWidth level .attributeBlock
      ([style.indent level ++ ['[']] ++
        Attribute.separated (style.indent ((level : Int) + 1)) attributes ++
          [style.indent level ++ [']']]) :=
    .wrappedBlock fun line member => startsAt_of_mem_separated style (level + 1) starts member
  unfold Attribute.arrange
  simp only
  split
  · exact .inlineBlock
  · next single =>
      split
      · rw [List.append_assoc, List.append_assoc]
        exact .inlineBlock
      · exact wrapped
  · exact wrapped

theorem startsSolid_formatCloseBrace {text : Text} (starts : StartsSolid text) :
    StartsSolid (formatCloseBrace text) := by
  unfold formatCloseBrace
  split
  · rcases starts with ⟨c, rest, rfl, solid⟩
    have notSpace : c ≠ ' ' := by
      rintro rfl
      exact absurd solid (by decide)
    rw [List.takeWhile_cons_of_pos (by simpa using notSpace)]
    exact ⟨c, _, rfl, solid⟩
  · exact starts

theorem startsAt_formatComment (style : Style) (level : Nat) {comment : Text}
    (starts : StartsSolid comment) :
    StartsAt (style.indentWidth * level) (BlockComment.format (style.indent level) comment) := by
  rcases starts with ⟨c, rest, rfl, solid⟩
  have inLine : c ≠ '\n' := by
    rintro rfl
    exact absurd solid (by decide)
  rcases Text.exists_splitOn_eq '\n' rest with ⟨piece, pieces, cut⟩
  have first : StartsSolid (Text.trim (c :: piece)) := by
    apply Text.startsSolid_trim
    rw [ne_eq, Text.trim_eq_nil_iff, Text.compact_cons, solid]
    simp
  have own := startsAt_indent_append style level first
  rw [BlockComment.format, Text.splitOn_cons inLine cut]
  simp only
  cases pieces with
  | nil => exact own
  | cons second pieces =>
      rw [List.map_cons, Text.joinLines_cons_cons]
      exact own.append _

/-- The lines of a token start in the columns that belong to its kind. -/
theorem Prints.indented {style : Style} {level : Nat} {token : Token} {lines : List Text}
    (prints : Prints style level token lines) (starts : StartsSolid token.text) :
    Indented style.indentWidth level token.kind lines := by
  cases prints with
  | directive kind =>
      rw [kind]
      exact .directive ⟨token.text, rfl, starts⟩
  | multiline kind => exact .plain (by simp [kind]) (startsAt_formatComment style level starts)
  | comment kind =>
      have trimmed : StartsSolid token.text.trim := by
        apply Text.startsSolid_trim
        rw [ne_eq, Text.trim_eq_nil_iff]
        exact starts.compact_ne_nil
      exact .plain (by simp [kind]) (startsAt_indent_append style level trimmed)
  | block kind formatted =>
      rw [kind]
      apply indented_arrange
      intro single member
      rcases exists_of_mapM_eq_ok formatted member with ⟨source, inside, same⟩
      exact Attribute.startsSolid_format (Attribute.startsSolid_of_mem_split inside) same
  | braceOpen kind =>
      exact .plain (by simp [kind]) (startsAt_indent_append style level ⟨'{', [], rfl, by decide⟩)
  | braceClose kind =>
      rw [kind]
      exact .braceClose
        (startsAt_indent_append style (level - 1) (startsSolid_formatCloseBrace starts))
  | code kind =>
      have listed : token.kind ∈ [.comment, .declaration, .statement, .braceOpen] := by
        simp only [List.mem_cons, List.not_mem_nil, or_false] at kind
        rcases kind with kind | kind <;> simp [kind]
      exact .plain listed (startsAt_indent_append style level starts)

end Layout

namespace Document

/-- The tokens of a text and the rows of lines that they are printed as, in the columns that belong
to the kind of each token and to the braces that the tokens before it leave open. -/
structure Indentation (style : Style) (text document : Text) where
  /-- The tokens. -/
  tokens : List Token
  /-- The lines that are put together. -/
  lines : List Text
  /-- The lines of each token. -/
  rows : List (List Text)
  /-- The tokens are those of the text. -/
  tokens_eq : Document.tokens text = .ok tokens
  /-- The lines are those of the tokens. -/
  lines_eq : Layout.linesFrom style 0 none tokens = .ok lines
  /-- The document is the clean form of the lines. -/
  document_eq : document = finalize (Text.joinLines lines)
  /-- The rows have all lines that are not empty, in order. -/
  rows_eq : lines.filter (!·.isEmpty) = rows.flatten
  /-- There are as many rows as tokens. -/
  length_eq : rows.length = tokens.length
  /-- A row has the lines of its token. -/
  printed : ∀ index token row, tokens[index]? = some token → rows[index]? = some row →
    Layout.tokenLines style (Token.openBraces (tokens.take index)) token = .ok row
  /-- The lines of a row start in the right columns. -/
  indented : ∀ index token row, tokens[index]? = some token → rows[index]? = some row →
    Layout.Indented style.indentWidth (Token.openBraces (tokens.take index)) token.kind row

/-- Indentation equals the number of open braces in the lines that are put together, and the clean-up
keeps all of them that are not blank, up to the blanks at their ends. -/
theorem nonempty_indentation {style : Style} {text document : Text}
    (found : format style text = .ok document) :
    Nonempty (Indentation style text document) ∧ ∀ text, Clean.Keeps text (finalize text) := by
  refine ⟨?_, keeps_finalize⟩
  rcases bind_eq_ok_iff.1 found with ⟨cut, cutOk, found⟩
  rcases bind_eq_ok_iff.1 found with ⟨lines, linesOk, found⟩
  rcases @Layout.exists_rows style [] cut none lines linesOk with ⟨rows, laid, same⟩
  have indented (index : Nat) (token : Token) (row : List Text) (there : cut[index]? = some token)
      (inRows : rows[index]? = some row) :
      Layout.Indented style.indentWidth (Token.openBraces (cut.take index)) token.kind row := by
    have member : token ∈ cut := List.mem_of_getElem? there
    have starts := Token.startsSolid_of_ofSource cutOk member
    have printed := laid.printed index token row there inRows
    rcases Token.ofSource_laid cutOk with ⟨tiles, tiled, rfl⟩
    exact (Layout.prints_of_tokenLines (tiled.emitted member) printed).indented starts
  have filled : rows.flatten.filter (!·.isEmpty) = rows.flatten := by
    rw [List.filter_eq_self]
    intro line member
    rcases List.mem_flatten.1 member with ⟨row, inRows, inRow⟩
    rcases laid.exists_printed inRows with ⟨index, token, there, place, -⟩
    simpa using (indented index token row there place).ne_nil inRow
  exact ⟨⟨cut, lines, rows, cutOk, linesOk, (Except.ok.inj found).symm, same.trans filled,
    laid.length_eq, laid.printed, indented⟩⟩

/-- More closing braces than opening ones, a wrapped attribute block, a directive and a comment of
two lines in a body, and a body that stays open. -/
theorem nonempty_indentation_unbalanced :
    format {} "\x7d \x7b[a,\n b] x;#d\n enum E\x7bA\x7d;/* c\n */\x7d\x7d\x7by".toList =
        .ok ("\x7d\n\n\x7b\n    [\n        a,\n        b\n    ]\n    x;\n#d\n\n    enum E\n    " ++
          "\x7b\n        A\n    \x7d;\n    /* c\n     */\n\x7d\n\n\x7d\n\n\x7b\n    y\n").toList ∧
      Nonempty (Indentation {} "\x7d \x7b[a,\n b] x;#d\n enum E\x7bA\x7d;/* c\n */\x7d\x7d\x7by".toList
        ("\x7d\n\n\x7b\n    [\n        a,\n        b\n    ]\n    x;\n#d\n\n    enum E\n    " ++
          "\x7b\n        A\n    \x7d;\n    /* c\n     */\n\x7d\n\n\x7d\n\n\x7b\n    y\n").toList) := by
  have found : format {} "\x7d \x7b[a,\n b] x;#d\n enum E\x7bA\x7d;/* c\n */\x7d\x7d\x7by".toList =
      .ok ("\x7d\n\n\x7b\n    [\n        a,\n        b\n    ]\n    x;\n#d\n\n    enum E\n    " ++
        "\x7b\n        A\n    \x7d;\n    /* c\n     */\n\x7d\n\n\x7d\n\n\x7b\n    y\n").toList := by
    decide +kernel
  exact ⟨found, (nonempty_indentation found).1⟩

end Document

end IdlFormat
