import IdlFormat.Document
import IdlFormat.Proofs.Respacing
import IdlFormat.Proofs.Span

/-!
# The content of a document

Formatting adds, drops and moves blanks, separators, closing square brackets and the marks of
literals and comments. All other characters are content. The content of a document is followed
through every stage: respacing, cutting into spans, tokens, lines and the clean document each keep
it, so nothing is lost, duplicated or reordered on any text, however malformed
(`Document.content_format`). Only the character that marks placeholders has to be absent.
-/

namespace IdlFormat

/-- The characters that formatting neither adds nor drops. -/
def isContent (c : Char) : Bool :=
  !isBlank c && !([',', ';', ']', '"', '\'', '\\', '/', '*'].contains c)

namespace Text

/-- The content of a text. -/
def content (text : Text) : Text :=
  text.filter isContent

@[simp]
theorem content_nil : content [] = [] := rfl

theorem content_cons (c : Char) (text : Text) :
    content (c :: text) = if isContent c then c :: content text else content text :=
  List.filter_cons

@[simp]
theorem content_append (left right : Text) : content (left ++ right) = content left ++ content right :=
  List.filter_append left right

theorem content_cons_of_not {c : Char} (dropped : isContent c = false) (text : Text) :
    content (c :: text) = content text := by
  rw [content_cons, if_neg (by simp [dropped])]

theorem content_compact (text : Text) : text.compact.content = text.content := by
  rw [content, content, compact, List.filter_filter]
  congr 1
  funext c
  simp only [isContent]
  cases IdlFormat.isBlank c <;> simp

/-- Texts with the same characters apart from blanks have the same content. -/
theorem content_eq_of_compact_eq {left right : Text} (same : left.compact = right.compact) :
    left.content = right.content := by
  rw [← content_compact, same, content_compact]

@[simp]
theorem content_trim (text : Text) : text.trim.content = text.content :=
  content_eq_of_compact_eq (compact_trim text)

theorem content_eq_nil_of_blank {text : Text} (blank : text.all IdlFormat.isBlank) :
    text.content = [] := by
  rw [← content_compact, compact_eq_nil blank, content_nil]

theorem mark_mem_content_iff (text : Text) : Mask.mark ∈ text.content ↔ Mask.mark ∈ text := by
  have kept : isContent Mask.mark := by decide
  simp [content, kept]

end Text

namespace Mask

theorem content_insert (hidden : List Text) (text : Text) :
    (insert hidden text).content = insert (hidden.map Text.content) text.content := by
  have kept : isContent mark := by decide
  induction text generalizing hidden with
  | nil => rfl
  | cons c rest ih =>
      by_cases marked : c = mark
      · subst marked
        rw [insert, if_pos rfl, Text.content_append, ih, Text.content_cons, if_pos kept, insert,
          if_pos rfl, List.map_tail]
        cases hidden with
        | nil => simp [Text.content_cons, kept]
        | cons first others => rfl
      · rw [insert, if_neg marked, Text.content_cons, Text.content_cons, ih]
        split
        · rw [insert, if_neg marked]
        · rfl

end Mask

namespace Comment

theorem content_breakCloses (text : Text) : (breakCloses text).content = text.content := by
  fun_induction breakCloses text with
  | case1 => rfl
  | case2 rest ih => simp [Text.content_cons, ih, isContent]
  | case3 c rest _ ih => simp [Text.content_cons, ih]

theorem content_blockForm_line (body : Text) :
    (blockForm .line ('/' :: '/' :: body)).content = Text.content ('/' :: '/' :: body) := by
  have inner : (breakCloses (Text.trim body)).content = Text.content body := by
    rw [content_breakCloses, Text.content_trim]
  have outer : Text.content ('/' :: '/' :: body) = Text.content body := by
    rw [Text.content_cons_of_not (by decide), Text.content_cons_of_not (by decide)]
  simp only [blockForm, List.drop_succ_cons, List.drop_zero]
  rw [outer, ← inner]
  split
  · next empty =>
      rw [List.isEmpty_iff] at empty
      rw [empty]
      decide
  · have opening : Text.content "/* ".toList = [] := by decide
    have closing : Text.content " */".toList = [] := by decide
    rw [Text.content_append, Text.content_append, opening, closing, List.nil_append,
      List.append_nil]

end Comment

namespace Segment

theorem content_repair {quote : Char} (quoted : isQuote quote) (lone : Bool) :
    (Literal.repair quote lone).content = [] := by
  rcases isQuote_iff.1 quoted with rfl | rfl <;> cases lone <;> decide

theorem content_repair_eq_nil {quote : Char} (quoted : isQuote quote) {body repair : Text}
    (whole : Literal.scan quote false body = ⟨body, [], repair⟩) : repair.content = [] := by
  rcases Literal.repair_scan quote false body with closed | ⟨lone, isOpen⟩
  · rw [whole] at closed
    exact congrArg Text.content closed
  · rw [whole] at isOpen
    exact (congrArg Text.content isOpen).trans (content_repair quoted lone)

theorem Fits.content_closed {segment : Segment} {next : Option Char} (fits : segment.Fits next) :
    segment.closed.content = segment.text.content := by
  match segment, fits with
  | .code c, _ => rfl
  | .literal _ repair, ⟨quote, body, rfl, quoted, whole, _⟩ =>
      rw [closed, Text.content_append, content_repair_eq_nil quoted whole, List.append_nil]
      rfl
  | .comment form text, _ => rfl

theorem Fits.content_restored {segment : Segment} {next : Option Char} (fits : segment.Fits next) :
    segment.restored.content = segment.text.content := by
  match segment, fits with
  | .code c, _ => rfl
  | .literal text repair, fits => exact fits.content_closed
  | .comment .line _, ⟨body, rfl, _⟩ => exact Comment.content_blockForm_line body
  | .comment .block _, _ => rfl

theorem Lexed.content_flatMap {write : Segment → Text}
    (keeps : ∀ {segment next}, Fits segment next → (write segment).content = segment.text.content)
    {segments : List Segment} (lexed : Lexed segments) :
    Text.content (segments.flatMap write) = (spell segments).content := by
  induction segments with
  | nil => rfl
  | cons segment segments ih =>
      rw [List.flatMap_cons, Text.content_append, ih lexed.2, keeps lexed.1, spell_cons,
        Text.content_append]

end Segment

theorem content_closeLiterals (text : Text) : (closeLiterals text).content = text.content := by
  rw [closeLiterals, (Segment.lexed_split text).content_flatMap Segment.Fits.content_closed,
    Segment.spell_split]

/-- Hiding, respacing and putting back keeps the content. -/
theorem Mask.content_insert_respaced {respace : Text → Text}
    (compact_respace : ∀ text, (respace text).compact = text.compact) {text : Text}
    (noMark : mark ∉ text) :
    (insert (Segment.hidden (Segment.split text))
      (respace (Segment.skeleton (Segment.split text)))).content = text.content := by
  have same := Text.content_eq_of_compact_eq
    (compact_respace (Segment.skeleton (Segment.split text)))
  rw [content_insert, same, ← content_insert, insert_skeleton fun c => code_ne_mark noMark,
    (Segment.lexed_split text).content_flatMap Segment.Fits.content_restored, Segment.spell_split]

namespace Bracket

theorem content_consFirst (c : Char) (pieces : List Text) :
    (consFirst c pieces).flatMap Text.content = Text.content [c] ++ pieces.flatMap Text.content := by
  cases pieces with
  | nil => simp [consFirst]
  | cons piece pieces =>
      simp only [consFirst, List.flatMap_cons, ← List.append_assoc, ← Text.content_append]
      rfl

/-- Cutting at separators that are no content keeps the content. -/
theorem content_splitFrom {isSeparator : Char → Bool}
    (dropped : ∀ c, isSeparator c → isContent c = false) (tracked : List Bracket)
    (state : Literal.State) (balance : Balance) (text : Text) :
    (splitFrom isSeparator tracked state balance text).flatMap Text.content = text.content := by
  have cons (c : Char) (rest : Text) : Text.content [c] ++ Text.content rest =
      Text.content (c :: rest) := by rw [← Text.content_append]; rfl
  fun_induction splitFrom isSeparator tracked state balance text with
  | case1 => rfl
  | case2 state balance c rest _ bracket change _ ih => rw [content_consFirst, ih, cons]
  | case3 state balance c rest _ _ cuts ih =>
      have separates : isSeparator c := (Bool.and_eq_true_iff.1 cuts).1
      rw [List.flatMap_cons, ih, Text.content_nil, List.nil_append,
        Text.content_cons_of_not (dropped c separates)]
  | case4 state balance c rest _ _ _ ih => rw [content_consFirst, ih, cons]
  | case5 state balance c rest _ ih => rw [content_consFirst, ih, cons]

theorem content_splitAtCommas (tracked : List Bracket) (text : Text) :
    (splitTopLevel (· = ',') tracked text).flatMap Text.content = text.content := by
  apply content_splitFrom
  intro c comma
  rw [of_decide_eq_true comma]
  decide

/-- The depth after a character, which stays positive unless the character closes the block. -/
theorem depth_after {visible : Bool} {c : Char} {depth : Nat} (isOpen : 0 < depth)
    (goesOn : ¬ (visible && c = ']' && (depth : Int) = 1) = true) :
    ∃ after : Nat, 0 < after ∧
      (if visible && c = '[' then depth + 1 else if visible && c = ']' then depth - 1
        else depth) = after ∧
      (if visible && c = '[' then (depth : Int) + 1 else if visible && c = ']' then depth - 1
        else depth) = after := by
  split
  · exact ⟨depth + 1, by omega, rfl, by simp⟩
  · split
    · next closing =>
        have deep : depth ≠ 1 := by
          rintro rfl
          simp [closing] at goesOn
        exact ⟨depth - 1, by omega, rfl, by omega⟩
    · exact ⟨depth, isOpen, rfl, rfl⟩

theorem openDepthFrom_cutClosed {state : Literal.State} {depth : Nat} (isOpen : 0 < depth)
    {text : Text} (followed : (cutClosed state depth text).2 ≠ []) :
    openDepthFrom state depth (cutClosed state depth text).1 = 0 := by
  induction text generalizing state depth with
  | nil => exact absurd rfl followed
  | cons c rest ih =>
      rw [cutClosed] at followed ⊢
      simp only at followed ⊢
      split at followed
      · next closing =>
          simp only [Bool.and_eq_true, decide_eq_true_eq] at closing
          obtain ⟨⟨revealed, rfl⟩, one⟩ := closing
          obtain rfl : depth = 1 := by omega
          simp [openDepthFrom, revealed]
      · next goesOn =>
          rw [if_neg goesOn]
          obtain ⟨after, stillOpen, counted, same⟩ := depth_after isOpen goesOn
          rw [same] at followed ⊢
          rw [openDepthFrom, counted]
          exact ih stillOpen followed

/-- A block without open brackets ends in a bracket. -/
theorem getLast?_cutClosed {state : Literal.State} {depth : Nat} (isOpen : 0 < depth) {text : Text}
    (closed : openDepthFrom state depth (cutClosed state depth text).1 = 0) :
    (cutClosed state depth text).1.getLast? = some ']' := by
  induction text generalizing state depth with
  | nil =>
      simp only [cutClosed, openDepthFrom] at closed
      omega
  | cons c rest ih =>
      rw [cutClosed] at closed ⊢
      simp only at closed ⊢
      split at closed
      · next closing =>
          simp only [Bool.and_eq_true, decide_eq_true_eq] at closing
          rw [if_pos (by simpa using closing), closing.1.2]
          rfl
      · next goesOn =>
          rw [if_neg goesOn]
          obtain ⟨after, stillOpen, counted, same⟩ := depth_after isOpen goesOn
          rw [same] at closed ⊢
          rw [openDepthFrom, counted] at closed
          have last := ih stillOpen closed
          rw [List.getLast?_cons, last]
          rfl

theorem cutBlock_cons (rest : Text) :
    cutBlock ('[' :: rest) =
      ('[' :: (cutClosed .outside (1 : Nat) rest).1, (cutClosed .outside (1 : Nat) rest).2) := by
  simp [cutBlock, cutClosed, Literal.State.reveals, Literal.State.next, isQuote]

/-- A block that is cut off starts with `[`, and it ends in `]` unless it leaves a bracket open. -/
theorem cutBlock_shape (rest : Text) :
    ∃ inner, (cutBlock ('[' :: rest)).1 = '[' :: inner ∧
      (openDepth (cutBlock ('[' :: rest)).1 = 0 → inner.getLast? = some ']') := by
  rw [cutBlock_cons]
  refine ⟨_, rfl, ?_⟩
  intro closed
  apply getLast?_cutClosed (by decide)
  simpa [openDepth, openDepthFrom, Literal.State.reveals, Literal.State.next, isQuote] using closed

/-- A block that something follows leaves no bracket open. -/
theorem openDepth_cutBlock {rest : Text} (followed : (cutBlock ('[' :: rest)).2 ≠ []) :
    openDepth (cutBlock ('[' :: rest)).1 = 0 := by
  rw [cutBlock_cons] at followed ⊢
  have closed := openDepthFrom_cutClosed Nat.one_pos followed
  simpa [openDepth, openDepthFrom, Literal.State.reveals, Literal.State.next, isQuote] using closed

end Bracket

namespace EnumMember

theorem content_dropTerminator (member : Text) :
    (dropTerminator member).content = member.content := by
  unfold dropTerminator
  split
  · next c last =>
      split
      · next terminator =>
          obtain ⟨before, rfl⟩ := List.getLast?_eq_some_iff.1 last
          have dropped : isContent c = false := by
            simp only [Bool.or_eq_true, decide_eq_true_eq] at terminator
            rcases terminator with rfl | rfl <;> decide
          rw [List.dropLast_concat, Text.content_eq_of_compact_eq (Text.compact_trimEnd before),
            Text.content_append, Text.content_cons_of_not dropped, Text.content_nil,
            List.append_nil]
      · rfl
  · rfl

theorem content_ofPieces (keepSemicolon : Bool) (pieces : List Text) :
    (ofPieces keepSemicolon pieces).flatMap Text.content = pieces.flatMap Text.content := by
  fun_induction ofPieces keepSemicolon pieces with
  | case1 => rfl
  | case2 piece member kept empty =>
      have same : kept.content = piece.content := by
        simp only [kept, member]
        split <;> simp [content_dropTerminator]
      rw [List.isEmpty_iff] at empty
      simp [← same, empty]
  | case3 piece member kept filled =>
      have same : kept.content = piece.content := by
        simp only [kept, member]
        split <;> simp [content_dropTerminator]
      simp [same]
  | case4 piece pieces nonempty member members empty ih =>
      rw [List.isEmpty_iff] at empty
      rw [ih, List.flatMap_cons, ← Text.content_trim piece]
      simp [member] at empty
      simp [empty]
  | case5 piece pieces nonempty member members filled ih =>
      rw [List.flatMap_cons, ih, List.flatMap_cons, Text.content_append,
        Text.content_cons_of_not (by decide)]
      simp [member]

theorem content_split (keepSemicolon : Bool) (text : Text) :
    (split keepSemicolon text).flatMap Text.content = text.content := by
  rw [split, content_ofPieces, Bracket.content_splitAtCommas]

end EnumMember

namespace Style

theorem content_indent (style : Style) (level : Int) : (style.indent level).content = [] :=
  Text.content_eq_nil_of_blank (style.all_isBlank_indent level)

end Style

namespace Attribute

/-- What stands between the brackets of a block is its content but for the opening bracket. -/
theorem content_content {block inner : Text} (shape : block = '[' :: inner)
    (ends : Bracket.openDepth block = 0 → inner.getLast? = some ']') :
    block.content = '[' :: (content block).content := by
  have opening : block.content = '[' :: Text.content inner := by
    rw [shape, Text.content_cons, if_pos (by decide)]
  rw [opening, content]
  congr 1
  split
  · next closed =>
      obtain ⟨before, rfl⟩ := List.getLast?_eq_some_iff.1 (ends closed)
      rw [shape, List.drop_succ_cons, List.drop_zero, List.dropLast_concat, Text.content_append,
        Text.content_cons_of_not (by decide), Text.content_nil, List.append_nil]
  · next missing depth =>
      have added : Text.content (List.replicate missing ']') = [] := by
        simp [Text.content]
        intros; decide
      rw [Text.content_append, content_closeLiterals, added, List.append_nil, shape]
      rfl

theorem content_split (block : Text) :
    (split block).flatMap Text.content = (content block).content := by
  have kept (pieces : List Text) : ((pieces.map Text.trim).filter (!·.isEmpty)).flatMap Text.content =
      pieces.flatMap Text.content := by
    induction pieces with
    | nil => rfl
    | cons piece pieces ih =>
        rw [List.map_cons, List.filter_cons]
        split
        · rw [List.flatMap_cons, ih, Text.content_trim, List.flatMap_cons]
        · next empty =>
            have blank : piece.trim = [] := by simpa using empty
            rw [ih, List.flatMap_cons, ← Text.content_trim piece, blank, Text.content_nil,
              List.nil_append]
  rw [split, kept, Bracket.content_splitAtCommas]

theorem content_separated (indent : Text) (blank : indent.content = []) (lines : List Text) :
    (separated indent lines).flatMap Text.content = lines.flatMap Text.content := by
  fun_induction separated indent lines with
  | case1 => rfl
  | case2 last => simp [blank]
  | case3 first others nonempty ih =>
      rw [List.flatMap_cons, ih, Text.content_append, Text.content_append, blank,
        Text.content_cons_of_not (by decide)]
      simp

theorem content_arrange (style : Style) (level : Int) (attributes : List Text) :
    (arrange style level attributes).flatMap Text.content =
      '[' :: attributes.flatMap Text.content := by
  have opening : Text.content ['['] = ['['] := by decide
  have closing : Text.content [']'] = [] := by decide
  have both : Text.content ['[', ']'] = ['['] := by decide
  have wrapped : ([style.indent level ++ ['[']] ++
      separated (style.indent (level + 1)) attributes ++
      [style.indent level ++ [']']]).flatMap Text.content = '[' :: attributes.flatMap Text.content := by
    simp [style.content_indent, opening, closing, content_separated _ (style.content_indent _)]
  unfold arrange
  simp only
  split
  · simp [style.content_indent, both]
  · split
    · rw [List.flatMap_singleton, Text.content_append, Text.content_append, Text.content_append,
        style.content_indent, opening, closing]
      simp
    · exact wrapped
  · exact wrapped

end Attribute

namespace Text

theorem content_splitOn {separator : Char} (dropped : isContent separator = false) (text : Text) :
    (splitOn separator text).flatMap content = text.content := by
  fun_induction splitOn separator text with
  | case1 => rfl
  | case2 rest ih => rw [List.flatMap_cons, ih, content_nil, content_cons_of_not dropped]; rfl
  | case3 c rest _ empty ih =>
      rw [empty] at ih
      rw [List.flatMap_singleton, content_cons, content_cons, ← ih]
      simp
  | case4 c rest _ piece pieces cut ih =>
      rw [cut, List.flatMap_cons] at ih
      rw [List.flatMap_cons, content_cons, content_cons, ← ih]
      split <;> simp

theorem content_joinLines (lines : List Text) :
    (joinLines lines).content = lines.flatMap content := by
  have breaks : content ['\n'] = [] := by decide
  unfold joinLines
  fun_induction join ['\n'] lines with
  | case1 => rfl
  | case2 line => simp
  | case3 line lines _ ih => rw [content_append, content_append, breaks, ih]; simp

end Text

namespace BlockComment

theorem content_formatLine {indent : Text} (blank : indent.all isBlank) {lines : List Text}
    {line : Text} (member : line ∈ lines) :
    (formatLine indent (margin lines) line).content = line.content := by
  rw [← Text.content_trim, trim_formatLine blank member, Text.content_trim]

theorem content_formatComment {indent : Text} (blank : indent.all isBlank) (comment : Text) :
    (format indent comment).content = comment.content := by
  have none : indent.content = [] := Text.content_eq_nil_of_blank blank
  have lines := @Text.content_splitOn '\n' (by decide) comment
  unfold format
  split
  · next empty =>
      rw [empty] at lines
      rw [none, ← lines]
      rfl
  · next first rest cut =>
      have others (part : List Text) (within : ∀ line ∈ part, line ∈ rest) :
          (part.map (formatLine indent (margin rest))).flatMap Text.content =
            part.flatMap Text.content := by
        induction part with
        | nil => rfl
        | cons line part ih =>
            rw [List.map_cons, List.flatMap_cons, List.flatMap_cons,
              content_formatLine blank (within line List.mem_cons_self),
              ih fun line member => within line (List.mem_cons_of_mem _ member)]
      rw [Text.content_joinLines, List.flatMap_cons, others rest fun _ member => member,
        Text.content_append, none, Text.content_trim, ← lines, cut, List.flatMap_cons]
      rfl

end BlockComment

namespace CloseBrace

theorem content_token (text : Text) :
    (cut text).token.content = Text.content ('}' :: (cut text).taken) := by
  have gap : Text.compact (text.takeWhile isIndent) = [] :=
    Text.compact_takeWhile (fun _ => isBlank_of_isIndent) text
  have gapContent : Text.content (text.takeWhile isIndent) = [] := by
    rw [← Text.content_compact, gap, Text.content_nil]
  have brace (rest : Text) : Text.content ('}' :: rest) = '}' :: rest.content := by
    rw [Text.content_cons, if_pos (by decide)]
  have semicolon : Text.content [';'] = [] := by decide
  unfold cut
  simp only
  split
  · rw [brace, brace, Text.content_append, gapContent]
    rfl
  · split
    · rfl
    · split
      · rfl
      · next mark rest after =>
          split
          · rfl
          · have found : mark = ';' := by
              have stopped := List.head?_dropWhile_not (· != ';') (text.dropWhile isIndent)
              rw [after] at stopped
              simpa using stopped
            have aliases (list : Text) : list.collapse.trim.content = list.content := by
              apply Text.content_eq_of_compact_eq
              rw [Text.compact_trim, Text.compact_collapse]
            rw [List.cons_append, List.cons_append, brace, brace,
              Text.content_cons_of_not (by decide), Text.content_append, aliases,
              Text.content_append, Text.content_append, gapContent, found]
            rfl

end CloseBrace

namespace Layout

theorem compact_formatCloseBrace (text : Text) : (formatCloseBrace text).compact = text.compact := by
  unfold formatCloseBrace
  split
  · next spaced =>
      conv => rhs; rw [← List.takeWhile_append_dropWhile (p := (· != ' ')) (l := text)]
      simp only
      rw [Text.compact_append, Text.compact_append, Text.compact_append, Text.compact_tighten,
        Text.compact_collapse, Text.compact_respaceCommas, Text.compact_trim]
      cases after : text.dropWhile (· != ' ') with
      | nil => simp
      | cons c aliases =>
          have stopped := List.head?_dropWhile_not (· != ' ') text
          rw [after] at stopped
          obtain rfl : c = ' ' := by simpa using stopped
          simp
  · rfl

end Layout

namespace Bracket

theorem flatten_consFirst (c : Char) (pieces : List Text) :
    (consFirst c pieces).flatten = c :: pieces.flatten := by
  cases pieces <;> simp [consFirst]

theorem flatten_splitFrom_sublist (isSeparator : Char → Bool) (tracked : List Bracket)
    (state : Literal.State) (balance : Balance) (text : Text) :
    (splitFrom isSeparator tracked state balance text).flatten.Sublist text := by
  fun_induction splitFrom isSeparator tracked state balance text with
  | case1 => exact List.Sublist.refl _
  | case2 state balance c rest _ bracket change _ ih =>
      rw [flatten_consFirst]
      exact ih.cons_cons c
  | case3 state balance c rest _ _ _ ih =>
      rw [List.flatten_cons, List.nil_append]
      exact ih.cons c
  | case4 state balance c rest _ _ _ ih =>
      rw [flatten_consFirst]
      exact ih.cons_cons c
  | case5 state balance c rest _ ih =>
      rw [flatten_consFirst]
      exact ih.cons_cons c

theorem openDepthFrom_le (state : Literal.State) (depth : Nat) (text : Text) :
    openDepthFrom state depth text ≤ depth + text.length := by
  induction text generalizing state depth with
  | nil => exact Nat.le_refl _
  | cons c rest ih =>
      rw [openDepthFrom, List.length_cons]
      apply Nat.le_trans (ih _ _)
      split
      · omega
      · split <;> omega

end Bracket

namespace Attribute

theorem length_le_of_mem_split {block single : Text} (member : single ∈ split block) :
    single.length ≤ 4 * block.length := by
  obtain ⟨piece, isPiece, rfl⟩ := List.mem_map.1 (List.mem_filter.1 member).1
  have trimmed : piece.trim.length ≤ piece.length := Text.length_trim_le piece
  have whole : piece.length ≤ (content block).length :=
    ((List.sublist_flatten_of_mem isPiece).trans
      (Bracket.flatten_splitFrom_sublist _ _ _ _ _)).length_le
  have inner : (content block).length ≤ 4 * block.length := by
    unfold content
    split
    · simp
      omega
    · next missing depth =>
        have few := Bracket.openDepthFrom_le .outside 0 block
        rw [← Bracket.openDepth, depth] at few
        have repaired := length_closeLiterals_le (block.drop 1)
        simp only [List.length_append, List.length_replicate, List.length_drop] at repaired ⊢
        omega
  omega

end Attribute

namespace Span

theorem content_split (text : Text) :
    (split text).flatMap (fun span => span.source.content) = text.content := by
  have leading (text : Text) : Text.content (text.dropWhile isBlank) = text.content :=
    Text.content_eq_of_compact_eq (Text.compact_dropWhile (fun _ blank => blank) text)
  fun_induction split text with
  | case1 text start => rw [← leading text, start]; rfl
  | case2 text c rest start ih =>
      rw [List.flatMap_cons, ih, ← Text.content_append, source_append_cut, ← start, leading]

end Span

namespace Token

/-- What the printer relies on: a raw text is the text itself, and a block is one that was cut off a
source of at most the given size. -/
structure Carries (size : Nat) (token : Token) : Prop where
  /-- The raw text, if there is one, is the text. -/
  raw : ∀ text, token.rawText = some text → text = token.text
  /-- A block starts with `[`, and it ends in `]` unless it leaves a bracket open. -/
  block : token.kind = .attributeBlock → ∃ inner, token.text = '[' :: inner ∧
    (Bracket.openDepth token.text = 0 → inner.getLast? = some ']')
  /-- A block is not longer than the source. -/
  short : token.kind = .attributeBlock → token.text.length ≤ size
  /-- An opening brace is printed as it is. -/
  brace : token.kind = .braceOpen → token.text = ['{']

/-- The content of tokens. -/
def contents (tokens : List Token) : Text :=
  tokens.flatMap fun token => token.text.content

@[simp]
theorem contents_append (left right : List Token) :
    contents (left ++ right) = contents left ++ contents right :=
  List.flatMap_append

theorem carries_of_ne {size : Nat} {kind : Kind} (notBlock : kind ≠ .attributeBlock) {text : Text}
    (brace : kind = .braceOpen → text = ['{']) : Carries size { kind, text } :=
  ⟨by simp, fun same => absurd same notBlock, fun same => absurd same notBlock, brace⟩

theorem ofCodeUnit_settles {text : Text} (noMark : Mask.mark ∉ text) (inEnum closesBody : Bool)
    (size : Nat) :
    Settles text.length (ofCodeUnit inEnum closesBody text) fun tokens =>
      contents tokens = text.content ∧ ∀ token ∈ tokens, token.Carries size := by
  have normalized := (Statement.normalize_eq noMark).grow (length_hidden_split_le text)
  apply normalized.bind
  rintro _ rfl
  have kept := Mask.content_insert_respaced Statement.compact_respace noMark
  generalize Mask.insert _ _ = normal at kept
  have single {kind : Kind} (notBlock : kind ≠ .attributeBlock) (notBrace : kind ≠ .braceOpen) :
      contents [{ kind, text := normal }] = text.content ∧
        ∀ token ∈ [({ kind, text := normal } : Token)], token.Carries size := by
    refine ⟨by simp [contents, kept], ?_⟩
    intro token member
    rw [List.mem_singleton.1 member]
    exact carries_of_ne notBlock fun same => absurd same notBrace
  split
  · exact single (by decide) (by decide)
  · generalize found : (if inEnum then EnumMember.split (!closesBody) normal else []) = members
    simp only
    split
    · exact single (by decide) (by decide)
    · next filled =>
        have inside : EnumMember.split (!closesBody) normal = members := by
          cases inEnum with
          | true => exact found
          | false => simp [← found] at filled
        refine ⟨?_, ?_⟩
        · have split := EnumMember.content_split (!closesBody) normal
          rw [inside, kept] at split
          rw [← split, contents, List.flatMap_map]
        · intro token member
          obtain ⟨text, -, rfl⟩ := List.mem_map.1 member
          exact carries_of_ne (by decide) (by simp)

/-- The tokens of a span have its content. -/
theorem ofSpan_settles {c : Char} {rest : Text} (noMark : Mask.mark ∉ c :: rest)
    (before : List Token) (closesBody : Bool) {size : Nat} (bound : (c :: rest).length ≤ size) :
    Settles size (ofSpan before closesBody (Span.cut c rest).1) fun tokens =>
      contents tokens = (Span.cut c rest).1.source.content ∧
        ∀ token ∈ tokens, token.Carries size := by
  have parts := Span.source_append_cut c rest
  have within : (Span.cut c rest).1.source.length ≤ size := by
    have lengths := congrArg List.length parts
    rw [List.length_append] at lengths
    omega
  have clean : Mask.mark ∉ (Span.cut c rest).1.source := fun member =>
    noMark (parts ▸ List.mem_append_left _ member)
  have plain {kind : Kind} (notBlock : kind ≠ .attributeBlock) {text : Text}
      (brace : kind = .braceOpen → text = ['{']) :
      contents [{ kind, text }] = text.content ∧
        ∀ token ∈ [({ kind, text } : Token)], token.Carries size := by
    refine ⟨by simp [contents], ?_⟩
    intro token member
    rw [List.mem_singleton.1 member]
    exact carries_of_ne notBlock brace
  generalize found : Span.cut c rest = cut at within clean ⊢
  unfold Span.cut at found
  split at found
  · next form opens =>
      subst found
      cases form with
      | line => exact plain (by decide) (by simp)
      | block =>
          refine ⟨by simp [contents, Span.source], ?_⟩
          intro token member
          rw [List.mem_singleton.1 member]
          exact ⟨by simp, by simp, by simp, by simp⟩
  · split at found
    · subst found
      exact plain (by decide) (by simp)
    · split at found
      · next bracket =>
          subst found bracket
          refine ⟨by simp [contents, Span.source], ?_⟩
          intro token member
          rw [List.mem_singleton.1 member]
          exact ⟨by simp, fun _ => Bracket.cutBlock_shape rest, fun _ => within, by simp⟩
      · split at found
        · subst found
          exact plain (by decide) (by simp)
        · split at found
          · next brace =>
              subst found brace
              obtain ⟨kept, carried⟩ := @plain .braceClose (by decide) (CloseBrace.cut rest).token (by simp)
              exact ⟨kept.trans (CloseBrace.content_token rest), carried⟩
          · subst found
            exact (ofCodeUnit_settles clean _ closesBody size).grow within

theorem ofSpansAfter_settles {size : Nat} {spans : List Span}
    (cuts : ∀ span ∈ spans, ∃ c rest, Mask.mark ∉ c :: rest ∧ (c :: rest).length ≤ size ∧
      span = (Span.cut c rest).1)
    {before : List Token} (carried : ∀ token ∈ before, token.Carries size) :
    Settles size (ofSpansAfter before spans) fun tokens =>
      contents tokens =
          contents before.reverse ++ spans.flatMap (fun span => span.source.content) ∧
        ∀ token ∈ tokens, token.Carries size := by
  induction spans generalizing before with
  | nil => exact ⟨by simp, fun token member => carried token (List.mem_reverse.1 member)⟩
  | cons span spans ih =>
      obtain ⟨c, rest, noMark, bound, rfl⟩ := cuts span List.mem_cons_self
      apply (ofSpan_settles noMark before (Span.closesBody spans) bound).bind
      rintro tokens ⟨kept, fresh⟩
      have allCarried : ∀ token ∈ tokens.reverse ++ before, token.Carries size := by
        intro token member
        rcases List.mem_append.1 member with new | old
        · exact fresh token (List.mem_reverse.1 new)
        · exact carried token old
      apply (ih (fun span member => cuts span (List.mem_cons_of_mem _ member)) allCarried).mono
      rintro all ⟨whole, sound⟩
      refine ⟨?_, sound⟩
      rw [whole, List.reverse_append, List.reverse_reverse, contents_append, kept,
        List.flatMap_cons, List.append_assoc]

theorem ofSource_settles {text : Text} (noMark : Mask.mark ∉ text) :
    Settles text.length (ofSource text) fun tokens =>
      contents tokens = text.content ∧ ∀ token ∈ tokens, token.Carries text.length := by
  have spans := @ofSpansAfter_settles text.length (Span.split text) (by
    intro span member
    obtain ⟨c, rest, suffix, same⟩ := Span.exists_cut_of_mem_split member
    exact ⟨c, rest, fun inside => noMark (suffix.subset inside), suffix.length_le, same⟩) []
    (by simp)
  apply spans.mono
  rintro tokens ⟨kept, carried⟩
  exact ⟨by rw [kept, Span.content_split]; rfl, carried⟩

end Token

namespace Attribute

theorem mapM_format_settles {size : Nat} {attributes : List Text}
    (bound : ∀ single ∈ attributes, single.length ≤ size)
    (noMark : ∀ single ∈ attributes, Mask.mark ∉ single) :
    Settles size (attributes.mapM format) fun formatted =>
      formatted.flatMap Text.content = attributes.flatMap Text.content := by
  induction attributes with
  | nil => rfl
  | cons single attributes ih =>
      have clean := noMark single List.mem_cons_self
      have small := Nat.le_trans (length_hidden_split_le single) (bound single List.mem_cons_self)
      rw [List.mapM_cons]
      apply ((format_eq clean).grow small).bind
      rintro _ rfl
      apply (ih (fun other member => bound other (List.mem_cons_of_mem _ member))
        fun other member => noMark other (List.mem_cons_of_mem _ member)).bind
      intro formatted kept
      show List.flatMap Text.content (_ :: formatted) = _
      rw [List.flatMap_cons, List.flatMap_cons, kept,
        Mask.content_insert_respaced compact_respace clean]

theorem mark_not_mem_of_mem_split {block inner : Text} (shape : block = '[' :: inner)
    (ends : Bracket.openDepth block = 0 → inner.getLast? = some ']') (noMark : Mask.mark ∉ block)
    {single : Text} (member : single ∈ split block) : Mask.mark ∉ single := by
  intro inside
  apply noMark
  rw [← Text.mark_mem_content_iff, content_content shape ends, ← content_split]
  exact List.mem_cons_of_mem _ (List.mem_flatMap.2
    ⟨single, member, (Text.mark_mem_content_iff single).2 inside⟩)

theorem formatBlock_settles {block inner : Text} (shape : block = '[' :: inner)
    (ends : Bracket.openDepth block = 0 → inner.getLast? = some ']')
    (noMark : Mask.mark ∉ block) (style : Style) (level : Int) :
    Settles (4 * block.length) (formatBlock style level block) fun lines =>
      lines.flatMap Text.content = block.content := by
  have kept := content_content shape ends
  have formatted := @mapM_format_settles (4 * block.length) (split block)
    (fun single member => length_le_of_mem_split member)
    (fun single => mark_not_mem_of_mem_split shape ends noMark)
  apply formatted.bind
  intro attributes same
  show List.flatMap Text.content (arrange style level attributes) = _
  rw [content_arrange, same, content_split, kept]

end Attribute

namespace Layout

theorem tokenLines_settles {size : Nat} {token : Token} (carried : token.Carries size)
    (noMark : Mask.mark ∉ token.text) (style : Style) (level : Nat) :
    Settles (4 * size) (tokenLines style level token) fun lines =>
      lines.flatMap Text.content = token.text.content := by
  have indented (level : Nat) (text : Text) :
      [style.indent level ++ text].flatMap Text.content = text.content := by
    simp [style.content_indent]
  unfold tokenLines
  simp only
  split
  · simp [Settles]
  · next isComment =>
    split
    · next comment found =>
        have same : comment = token.text := by
          rw [Token.multilineText?, if_pos isComment] at found
          exact carried.raw comment (Option.filter_eq_some_iff.1 found).1
        show List.flatMap Text.content [_] = _
        rw [List.flatMap_singleton, BlockComment.content_formatComment (style.all_isBlank_indent level), same]
    · show List.flatMap Text.content [_] = _
      rw [indented, Text.content_trim]
  · next isBlock =>
      obtain ⟨inner, shape, ends⟩ := carried.block isBlock
      have short := carried.short isBlock
      exact (Attribute.formatBlock_settles shape ends noMark style level).grow (by omega)
  · next isBrace =>
    show List.flatMap Text.content [_] = _
    rw [indented, carried.brace isBrace]
  · show List.flatMap Text.content [_] = _
    rw [indented, Text.content_eq_of_compact_eq (compact_formatCloseBrace token.text)]
  · exact indented level token.text

theorem linesFrom_settles {size : Nat} {tokens : List Token}
    (carried : ∀ token ∈ tokens, token.Carries size)
    (noMark : ∀ token ∈ tokens, Mask.mark ∉ token.text) (style : Style) (level : Nat)
    (previous : Option Token) :
    Settles (4 * size) (linesFrom style level previous tokens) fun lines =>
      lines.flatMap Text.content = Token.contents tokens := by
  induction tokens generalizing level previous with
  | nil => rfl
  | cons token tokens ih =>
      have own := tokenLines_settles (carried token List.mem_cons_self)
        (noMark token List.mem_cons_self) style level
      rw [linesFrom]
      apply own.bind
      intro lines kept
      apply (ih (fun other member => carried other (List.mem_cons_of_mem _ member))
        (fun other member => noMark other (List.mem_cons_of_mem _ member)) _ _).bind
      intro rest later
      have blank (condition : Bool) :
          (if condition then [[]] else [] : List Text).flatMap Text.content = [] := by
        cases condition <;> rfl
      show List.flatMap Text.content (_ ++ lines ++ _ ++ rest) = _
      rw [List.flatMap_append, List.flatMap_append, List.flatMap_append, blank, blank, kept, later]
      simp [Token.contents]

end Layout

namespace Document

theorem format_settles {text : Text} (noMark : Mask.mark ∉ text) (style : Style) :
    Settles (4 * text.length) (format style text) fun document =>
      document.content = text.content := by
  have same : text.normalizeBreaks.content = text.content :=
    Text.content_eq_of_compact_eq text.compact_normalizeBreaks
  have shorter := text.length_normalizeBreaks_le
  have clean : Mask.mark ∉ text.normalizeBreaks := by
    rwa [← Text.mark_mem_content_iff, same, Text.mark_mem_content_iff]
  apply ((Token.ofSource_settles clean).grow (by omega : _ ≤ 4 * text.length)).bind
  rintro tokens ⟨kept, carried⟩
  have tokenClean : ∀ token ∈ tokens, Mask.mark ∉ token.text := by
    intro token member inside
    apply clean
    rw [← Text.mark_mem_content_iff, ← kept]
    exact List.mem_flatMap.2 ⟨token, member, (Text.mark_mem_content_iff token.text).2 inside⟩
  have lines := (Layout.linesFrom_settles carried tokenClean style 0 none).grow
    (by omega : _ ≤ 4 * text.length)
  apply lines.bind
  intro lines whole
  show Text.content (finalize (Text.joinLines lines)) = _
  rw [Text.content_eq_of_compact_eq (compact_finalize _), Text.content_joinLines, whole, kept, same]

/-- No content is lost, duplicated or reordered: a text without placeholder marks formats to a
document with the same content in the same order. Formatting gives a document for every text of
fewer than `10 ^ 4299` characters; on a longer one the number of a placeholder might have too many
digits to be read, but a document that it gives still has the content of the text. -/
theorem content_format {text : Text} (noMark : Mask.mark ∉ text) (style : Style) :
    (∀ document, format style text = .ok document → document.content = text.content) ∧
      (4 * text.length ≤ 10 ^ Numeral.digitLimit →
        ∃ document, format style text = .ok document ∧ document.content = text.content) := by
  have settles := format_settles noMark style
  refine ⟨?_, ?_⟩
  · intro document found
    rwa [found] at settles
  · intro short
    exact settles.exists_ok short

/-- The content of a text with open literals, brackets and comments, and a directive. -/
theorem content_format_malformed :
    Mask.mark ∉ "[a('x, \\\n enum E\x7b,A=\"1;// */b\n\x7dx ,y;#d\\\n\x7d/*\n\t c".toList ∧
      ∃ document, format {} "[a('x, \\\n enum E\x7b,A=\"1;// */b\n\x7dx ,y;#d\\\n\x7d/*\n\t c".toList =
          .ok document ∧
        document.content = "[a(xenumE\x7bA=1b\x7dxy#d\x7dc".toList := by
  have small : 4 * "[a('x, \\\n enum E\x7b,A=\"1;// */b\n\x7dx ,y;#d\\\n\x7d/*\n\t c".toList.length ≤
      10 ^ Numeral.digitLimit :=
    Nat.le_trans (by decide : _ ≤ 10 ^ 3) (Nat.pow_le_pow_right (by decide) (by decide))
  refine ⟨by decide, ?_⟩
  obtain ⟨document, found, same⟩ := (content_format (by decide) {}).2 small
  exact ⟨document, found, same.trans (by decide)⟩

end Document

end IdlFormat
