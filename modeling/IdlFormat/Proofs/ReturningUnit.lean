import IdlFormat.Proofs.EnclosedComment
import IdlFormat.Proofs.Substance
import Mathlib.Tactic.MkIffOfInductiveProp

/-!
# Units that return

A unit that no semicolon ends takes the blanks behind it when it is read again, up to the span that
stops it; respacing drops them.
-/

namespace IdlFormat

/-- Whether units end before the spans that a rule cuts. -/
def Span.Rule.stops : Span.Rule → Bool
  | .attributeBlock | .codeUnit => false
  | _ => true

namespace CodeUnit

open Segment (Lexed QuietFrom spell skeleton)

/-- How the segments of a unit end in front of a span that some rule cuts, or at the end of a text. -/
inductive Closes (segments : List Segment) : Option Span.Rule → Prop
  /-- A semicolon ends them. -/
  | semicolon {body : List Segment} {following : Option Span.Rule}
    (parts : segments = body ++ [.code ';'])
      (passed : Nesting.passes? {} body = some {}) : Closes segments following
  /-- The span that follows stops them. -/
  | stopped {rule : Span.Rule} (passed : Nesting.passes? {} segments = some {}) (stops : rule.stops) :
      Closes segments (some rule)
  /-- Nothing follows. -/
  | ended {after : Nesting} (passed : Nesting.passes? {} segments = some after) : Closes segments none

theorem rule_cut_stops (c : Char) (rest : Text) :
    (Span.cut c rest).1.rule.stops = stops (c :: rest) := by
  unfold Span.cut
  split
  · next form opens => simp [Span.rule, Span.Rule.stops, stops, opens]
  · next none =>
      have noForm : (Comment.form? (c :: rest)).isSome = false := by rw [none]; rfl
      rw [stops, noForm, Bool.false_or, List.head?_cons, Option.any_some]
      by_cases hash : c = '#'
      · rw [hash]; rfl
      · by_cases square : c = '['
        · rw [square]; rfl
        · by_cases opens : c = '{'
          · rw [opens]; rfl
          · by_cases closes : c = '}'
            · rw [closes]; rfl
            · simp [hash, square, opens, closes, Span.rule, Span.Rule.stops]

theorem exists_of_stops {text : Text} (stopping : stops text) :
    ∃ c rest, text = c :: rest ∧ isBlank c = false := by
  cases text with
  | nil => simp [stops, Comment.form?] at stopping
  | cons c rest =>
      refine ⟨c, rest, rfl, ?_⟩
      rw [stops, Bool.or_eq_true, Option.isSome_iff_exists] at stopping
      rcases stopping with ⟨form, opens⟩ | special
      · have slash : c = '/' := by
          cases form with
          | line =>
              obtain ⟨body, same⟩ := Comment.eq_of_form?_eq_line opens
              exact (List.cons.inj same).1
          | block =>
              obtain ⟨body, same⟩ := Comment.eq_of_form?_eq_block opens
              exact (List.cons.inj same).1
        rw [slash]
        decide
      · simp only [List.head?_cons, Option.any_some, List.contains_cons, Bool.or_eq_true,
          beq_iff_eq] at special
        rcases special with rfl | rfl | rfl | none
        · decide
        · decide
        · decide
        · cases none

theorem Ends.closes {segments : List Segment} {rest : Text} (ends : Ends {} segments rest) :
    Closes segments ((Span.split rest).head?.map Span.rule) := by
  cases ends with
  | semicolon passed => exact .semicolon rfl passed
  | stopped passed stopping =>
      obtain ⟨c, tail, rfl, solid⟩ := exists_of_stops stopping
      rw [Span.split_of_cut solid rfl]
      exact .stopped passed ((rule_cut_stops c tail).trans stopping)
  | ended passed =>
      rw [Span.split_eq_nil_of_dropWhile rfl]
      exact .ended passed

theorem cutFrom_blank {state : State} {c : Char} (blank : isBlank c) (rest : Text) :
    cutFrom state (c :: rest) =
      (c :: (cutFrom (state.next c) rest).1, (cutFrom (state.next c) rest).2) := by
  have other (d : Char) (solid : isBlank d = false) : c ≠ d := ne_of_isBlank blank solid
  have noComment : Comment.form? (c :: rest) = none := by
    rw [Comment.form?_cons_eq_none_iff, Comment.opens]
    simp [other '/' (by decide)]
  have unquoted : isQuote c = false := by
    simp [isQuote, other '"' (by decide), other '\'' (by decide)]
  rw [cutFrom_code noComment unquoted, if_neg (other '[' (by decide)), if_neg, if_neg]
  · simp [other ';' (by decide)]
  · simp [State.stopsBefore, other '{' (by decide), other '}' (by decide), other '#' (by decide)]

/-- Blanks at the end of a text belong to the unit before them. -/
theorem cutFrom_of_all_isBlank (state : State) {blanks : Text} (blank : blanks.all isBlank) :
    cutFrom state blanks = (blanks, []) := by
  induction blanks generalizing state with
  | nil =>
      rw [cutFrom]
      rfl
  | cons c blanks ih =>
      rw [List.all_cons, Bool.and_eq_true] at blank
      rw [cutFrom_blank blank.1, ih _ blank.2]

theorem cutFrom_of_stops {state : State} (top : state.isTop) (lineStart : state.atLineStart)
    {rest : Text} (stopping : stops rest) : cutFrom state rest = ([], rest) := by
  rw [cutFrom]
  split
  · simp [top]
  · next none =>
      rw [stops, none, Option.isSome_none, Bool.false_or] at stopping
      cases rest with
      | nil => simp at stopping
      | cons c rest =>
          simp only [List.head?_cons, Option.any_some, List.contains_cons, Bool.or_eq_true,
            beq_iff_eq] at stopping
          rcases stopping with rfl | rfl | rfl | none
          · simp [State.stopsBefore, isQuote, top]
          · simp [State.stopsBefore, isQuote, top]
          · simp [State.stopsBefore, isQuote, top, lineStart]
          · cases none

/-- Blanks at the start of a line are passed over up to what stops a unit. -/
theorem cutFrom_blanks {state : State} (top : state.isTop) (lineStart : state.atLineStart)
    {blanks rest : Text} (blank : blanks.all isBlank) (stopping : stops rest) :
    cutFrom state (blanks ++ rest) = (blanks, rest) := by
  induction blanks generalizing state with
  | nil => exact cutFrom_of_stops top lineStart stopping
  | cons c blanks ih =>
      rw [List.all_cons, Bool.and_eq_true] at blank
      have solid (d : Char) (solid : isBlank d = false) : c ≠ d := ne_of_isBlank blank.1 solid
      have topNext : (state.next c).isTop := by
        simpa [State.isTop, State.next, solid '(' (by decide), solid ')' (by decide),
          solid '<' (by decide), solid '>' (by decide)] using top
      rw [List.cons_append, cutFrom_blank blank.1,
        ih topNext (by simp [State.next, lineStart, blank.1]) blank.2]

theorem cutFrom_semicolon {state : State} (top : state.isTop) (rest : Text) :
    cutFrom state (';' :: rest) = ([';'], rest) := by
  have noComment : Comment.form? (';' :: rest) = none := rfl
  rw [cutFrom_code noComment (by decide), if_neg (by decide), if_neg (by simp [State.stopsBefore]),
    if_pos (by simp [top])]

/-- Behind a line break the blanks are passed over up to what stops a unit. -/
theorem cutFrom_gap {state : State} (top : state.isTop) {more rest : Text}
    (start : more.dropWhile isBlank = rest) (stopping : stops rest) :
    cutFrom state ('\n' :: more) = ('\n' :: more.takeWhile isBlank, rest) := by
  have topNext : (state.next '\n').isTop := by simpa [State.isTop, State.next] using top
  have shape : more = more.takeWhile isBlank ++ rest := by
    rw [← start, List.takeWhile_append_dropWhile]
  rw [cutFrom_blank (by decide)]
  conv => lhs; rw [shape]
  rw [cutFrom_blanks topNext rfl List.all_takeWhile stopping]

/-- A unit is taken whole again, with the blanks behind it if no semicolon ends it. -/
theorem Closes.cutFrom {segments : List Segment} {following : Option Span.Rule}
    (closes : Closes segments following) (lexed : Lexed (segments ++ [.code '\n']))
    (quiet : QuietFrom 0 segments)
    (noDirective : '\n' ∉ skeleton segments ∨ '#' ∉ skeleton segments) {more : Text}
    (sameHead : (Span.split more).head?.map Span.rule = following)
    (last : following = none → more = []) :
    ∃ gap rest, gap.all isBlank ∧
      cutFrom {} (spell segments ++ '\n' :: more) = (spell segments ++ gap, rest) ∧
      Span.split rest = Span.split ('\n' :: more) := by
  have break_ : isBlank '\n' := by decide
  have lines {segments : List Segment}
      (noDirective : '\n' ∉ skeleton segments ∨ '#' ∉ skeleton segments) :
      (State.atLineStart {} = false ∧ '\n' ∉ skeleton segments) ∨ '#' ∉ skeleton segments :=
    noDirective.imp_left fun line => ⟨rfl, line⟩
  cases closes with
  | @semicolon body following parts passed =>
      subst parts
      rw [Segment.skeleton_append, List.mem_append, List.mem_append, not_or, not_or] at noDirective
      have through := through_of_passes? lexed.left quiet (by decide)
        (lines (noDirective.imp (·.1) (·.1))) passed
      obtain ⟨final, top, later⟩ := through.goesOn rfl
      refine ⟨[], '\n' :: more, rfl, ?_, rfl⟩
      have found := later ('\n' :: more)
      rw [cutFrom_semicolon (State.isTop_iff.2 top)] at found
      rw [Segment.spell_append, List.append_assoc, List.append_nil]
      exact found
  | @stopped rule passed stopping =>
      have through := through_of_passes? lexed (quiet.concat_code '\n') (by decide)
        (lines noDirective) passed
      obtain ⟨final, top, later⟩ := through.goesOn rfl
      cases start : more.dropWhile isBlank with
      | nil =>
          rw [Span.split_eq_nil_of_dropWhile start] at sameHead
          cases sameHead
      | cons c rest =>
          rw [Span.split_of_start start] at sameHead
          have stops : stops (c :: rest) := by
            rw [← rule_cut_stops, Option.some.inj sameHead]
            exact stopping
          have blanks : ('\n' :: more.takeWhile isBlank).all isBlank := by simp [break_]
          have behind : '\n' :: more = ('\n' :: more.takeWhile isBlank) ++ (c :: rest) := by
            rw [List.cons_append, ← start, List.takeWhile_append_dropWhile]
          refine ⟨'\n' :: more.takeWhile isBlank, c :: rest, blanks, ?_, ?_⟩
          · rw [later, cutFrom_gap (State.isTop_iff.2 top) start stops]
          · rw [behind, Span.split_blank_append blanks]
  | @ended after passed =>
      obtain rfl := last rfl
      have through := through_of_passes? lexed (quiet.concat_code '\n') (by decide)
        (lines noDirective) passed
      have whole : CodeUnit.cutFrom {} (spell segments ++ ['\n']) =
        (spell segments ++ ['\n'], []) := by
        by_cases flat : after.squares = 0
        · obtain ⟨final, -, later⟩ := through.goesOn flat
          rw [later, cutFrom_of_all_isBlank final (by simp [break_])]
        · exact through.runsOn flat
      refine ⟨['\n'], [], by simp [break_], whole, ?_⟩
      rw [Span.split_eq_nil_of_dropWhile rfl, Span.split_eq_nil_of_dropWhile (by simp [break_])]

end CodeUnit

/-- A line break behind a character opens no comment. -/
theorem Comment.form?_append_break {c : Char} {tail : Text} (noComment : form? (c :: tail) = none)
    (more : Text) : form? (c :: (tail ++ '\n' :: more)) = none := by
  rw [form?_cons_eq_none_iff] at noComment ⊢
  cases tail with
  | nil => simp [opens]
  | cons d tail => exact noComment

namespace CodeUnit

open Segment (Lexed QuietFrom spell skeleton)

/-- A text that is cut off as a unit in front of a span that some rule cuts, or at the end of a
text. -/
structure Rereads (text : Text) (following : Option Span.Rule) : Prop where
  /-- No other rule applies at its first character. -/
  starts : text.head?.any starts
  /-- It starts with no comment. -/
  noComment : Comment.form? text = none
  /-- A line break behind it belongs to none of its segments. -/
  lexed : Lexed (Segment.split text ++ [.code '\n'])
  /-- Its comments in square brackets are quiet. -/
  quiet : QuietFrom 0 (Segment.split text)
  /-- No directive starts in it. -/
  noDirective : '\n' ∉ skeleton (Segment.split text) ∨ '#' ∉ skeleton (Segment.split text)
  /-- It ends in front of what follows. -/
  closes : Closes (Segment.split text) following

theorem Rereads.exists_cut {text more : Text} {following : Option Span.Rule}
    (rereads : Rereads text following) (sameHead : (Span.split more).head?.map Span.rule = following)
    (last : following = none → more = []) :
    ∃ c tail gap rest, text = c :: tail ∧ isBlank c = false ∧ gap.all isBlank ∧
      Span.cut c (tail ++ '\n' :: more) = (.codeUnit (text ++ gap), rest) ∧
      Span.split rest = Span.split ('\n' :: more) := by
  obtain ⟨gap, rest, blank, cut, behind⟩ := rereads.closes.cutFrom rereads.lexed rereads.quiet
    rereads.noDirective sameHead last
  cases text with
  | nil => exact absurd rereads.starts (by simp)
  | cons c tail =>
      have first := rereads.starts
      simp only [List.head?_cons, Option.any_some, CodeUnit.starts, Bool.and_eq_true,
        Bool.not_eq_true', List.contains_cons, Bool.or_eq_false_iff, beq_eq_false_iff_ne] at first
      obtain ⟨solid, notHash, notSquare, notOpen, notClose, -⟩ := first
      have noComment := Comment.form?_append_break rereads.noComment more
      rw [Segment.spell_split, List.cons_append] at cut
      refine ⟨c, tail, gap, rest, rfl, solid, blank, ?_, behind⟩
      rw [Span.cut, noComment]
      simp only [notHash, notSquare, notOpen, notClose, if_false]
      rw [CodeUnit.cut, cut]

/-- The lines of a unit with the tokens `row` come to a text that is cut off as a unit with tokens of
the same outline, whose lines come to it again. -/
def Reprints (style : Style) (level : Nat) (inEnum closesBody : Bool) (following : Option Span.Rule)
    (row : List Token) (lines : List Text) : Prop :=
  ∃ lead text, lead.all isBlank ∧ Clean.ComesTo lines (lead ++ text) ∧ text.trimEnd = text ∧
    Rereads text following ∧
    ∀ gap : Text, gap.all isBlank → ∃ rowAgain own,
      Token.ofCodeUnit inEnum closesBody (text ++ gap) = .ok rowAgain ∧
        rowAgain.map Token.outline = row.map Token.outline ∧
        Layout.rowLines style level rowAgain = .ok own ∧ Clean.ComesTo own (lead ++ text)

end CodeUnit

namespace Span

open Clean (ComesTo)
open Layout (rowLines)
open Token (insideEnumFrom)

/-- A unit returns if its lines reprint it. -/
theorem returns_of_reprints {style : Style} {before : List Token} {closes : Bool} {unit after : Text}
    (again : ∀ level row lines, Token.ofCodeUnit (insideEnumFrom 0 before) closes unit = .ok row →
      rowLines style level row = .ok lines →
      CodeUnit.Reprints style level (insideEnumFrom 0 before) closes
        ((split after).head?.map rule) row lines) :
    Returns style before closes (.codeUnit unit) after := by
  refine returns_of_comesTo fun level row lines found printed => ?_
  obtain ⟨lead, text, leading, comes, kept, rereads, same⟩ := again level row lines found printed
  refine ⟨lead ++ text, comes, ?_, fun more sameHead last => ?_⟩
  · rw [Text.trimEnd_append, kept]
    rw [kept]
    rintro rfl
    exact absurd rereads.starts (by simp)
  · obtain ⟨c, tail, gap, rest, rfl, solid, blank, cut, behind⟩ :=
      rereads.exists_cut sameHead (by simpa using last)
    refine readAgain_of_cut leading solid cut behind rfl fun earlier sameBody => ?_
    rw [Token.ofSpan, sameBody]
    exact same gap blank

end Span

namespace Segment

variable {segments : List Segment} {segment : Segment} {next : Option Char}

/-- Closed segments can stand at the end of a line. -/
theorem Fits.before_break (fits : segment.Fits next) (closed : segment.isClosed) :
    segment.Fits (some '\n') := by
  match segment, fits with
  | .code c, ⟨unquoted, _⟩ => exact ⟨unquoted, by simp [Comment.opens]⟩
  | .literal _ repair, ⟨quote, body, same, quoted, whole, _⟩ =>
      exact ⟨quote, body, same, quoted, whole, .inr (.inr rfl)⟩
  | .comment .line _, ⟨body, same, inLine, _⟩ => exact ⟨body, same, inLine, .inr rfl⟩
  | .comment .block _, ⟨body, rfl, whole, _⟩ => exact ⟨body, rfl, whole, .inl closed⟩

variable {hidden : List Segment} {text : Text}

/-- Blanks behind woven segments belong to none of them. -/
theorem Settled.lexed_append_blank (settled : Settled hidden) (lexed : Lexed (weave hidden text))
    {gap : Text} (blank : gap.all isBlank) : Lexed (weave hidden text ++ gap.map .code) := by
  cases gap with
  | nil => rwa [List.map_nil, List.append_nil]
  | cons c gap =>
      have alone : ∀ gap : Text, gap.all isBlank → Lexed (gap.map .code) := by
        intro gap blank
        induction gap with
        | nil => trivial
        | cons c gap ih =>
            rw [List.all_cons, Bool.and_eq_true] at blank
            refine ⟨⟨?_, ?_⟩, ih blank.2⟩
            · simp [isQuote, ne_of_isBlank blank.1 (d := '"') (by decide),
                ne_of_isBlank blank.1 (d := '\'') (by decide)]
            · simp [Comment.opens, ne_of_isBlank blank.1 (d := '/') (by decide)]
      refine lexed.append (alone _ blank) fun segment member => ?_
      obtain ⟨next, fits⟩ := lexed.exists_fits segment member
      have first : isBlank c := by
        rw [List.all_cons, Bool.and_eq_true] at blank
        exact blank.1
      exact fits.before (List.all_eq_true.1 (all_isInline_weave settled text) segment member)
        (ne_of_isBlank first (by decide)) (ne_of_isBlank first (by decide))

theorem hiddenSegments_append (left right : List Segment) :
    hiddenSegments (left ++ right) = hiddenSegments left ++ hiddenSegments right :=
  List.filterMap_append

theorem weave_concat_code (hidden : List Segment) (text : Text) {c : Char} (shown : c ≠ Mask.mark) :
    weave hidden (text ++ [c]) = weave hidden text ++ [.code c] := by
  induction text generalizing hidden with
  | nil => simp [weave, shown]
  | cons d text ih =>
      rw [List.cons_append, weave, weave]
      split <;> rw [ih, List.cons_append]

end Segment

namespace Statement

/-- Blanks at the end change nothing. -/
theorem respace_append_blank (text : Text) {gap : Text} (blank : gap.all isBlank) :
    respace (text ++ gap) = respace text := by
  have trimmed : Text.trimEnd (text ++ gap) = text.trimEnd := by
    have none : gap.trimEnd = [] := Text.trimEnd_eq_nil_of_compact (Text.compact_eq_nil blank)
    rw [← Text.trimEnd_append_trimEnd, none, List.append_nil]
  rw [respace_eq, respace_eq, ← Bead.ofText_trimEnd, trimmed, Bead.ofText_trimEnd]

theorem normalize_congr {text other : Text} (noMark : Mask.mark ∉ text)
    (noMarkToo : Mask.mark ∉ other)
    (sameHidden : Segment.hidden (Segment.split text) = Segment.hidden (Segment.split other))
    (sameSpacing : respace (Segment.skeleton (Segment.split text)) =
      respace (Segment.skeleton (Segment.split other))) : normalize text = normalize other := by
  simp only [normalize, mask_eq noMark, mask_eq noMarkToo]
  rw [respacing.fill, respacing.fill, sameHidden, sameSpacing]

end Statement

namespace CodeUnit

open Segment (Lexed QuietFrom Settled spell skeleton weave hiddenSegments isClosed)

/-- Units in which the two ways of reading agree: no look-alikes of placeholders, no open comments,
and quiet ones between square brackets. -/
@[mk_iff]
structure Legible (unit : Text) : Prop where
  /-- No placeholder is mistaken. -/
  noMark : Mask.mark ∉ unit
  /-- The comments are closed. -/
  closed : (Segment.split unit).all isClosed
  /-- Comments in square brackets are quiet. -/
  quiet : QuietFrom 0 (Segment.split unit)

instance : DecidablePred Legible := fun unit => decidable_of_iff' _ (legible_iff unit)

namespace Legible

variable {unit result : Text} {following : Option Span.Rule}

theorem settled (legible : Legible unit) : Settled (hiddenSegments (Segment.split unit)) :=
  Segment.settled_hiddenSegments (Segment.lexed_split unit) legible.closed

theorem shown (legible : Legible unit) : ∀ c, .code c ∈ Segment.split unit → c ≠ Mask.mark :=
  fun _ => Mask.code_ne_mark legible.noMark

theorem result_eq (legible : Legible unit) (normalized : Statement.normalize unit = .ok result) :
    result = Mask.insert ((hiddenSegments (Segment.split unit)).map Segment.text)
      (Statement.respace (skeleton (Segment.split unit))) := by
  rw [← Segment.spell_weave, ← Statement.respacing.split_unmask legible.noMark normalized,
    Segment.spell_split]

theorem noMark_result (legible : Legible unit) (normalized : Statement.normalize unit = .ok result) :
    Mask.mark ∉ result := by
  rw [legible.result_eq normalized, ← Segment.hidden_eq_map_text]
  exact Statement.respacing.mark_not_mem_insert legible.noMark

theorem lexed_append_blank (legible : Legible unit)
    (normalized : Statement.normalize unit = .ok result)
    {gap : Text} (blank : gap.all isBlank) : Lexed (Segment.split result ++ gap.map .code) := by
  have lexed := Segment.lexed_split result
  rw [Statement.respacing.split_unmask legible.noMark normalized] at lexed ⊢
  exact legible.settled.lexed_append_blank lexed blank

/-- A respaced unit stays as it is, with whatever blanks behind it. -/
theorem normalize_append_blank (legible : Legible unit)
    (normalized : Statement.normalize unit = .ok result) {gap : Text} (blank : gap.all isBlank) :
    Statement.normalize (result ++ gap) = .ok result := by
  have again : Statement.normalize result = .ok result :=
    Statement.respacing.unmask_again legible.noMark normalized
  have noMark := legible.noMark_result normalized
  have parts : Segment.split (result ++ gap) = Segment.split result ++ gap.map .code := by
    have read := Segment.split_spell (legible.lexed_append_blank normalized blank)
    rwa [Segment.spell_append, Segment.spell_split, Segment.spell_map_code] at read
  refine (Statement.normalize_congr ?_ noMark ?_ ?_).trans again
  · rw [List.mem_append, not_or]
    exact ⟨noMark, fun member => absurd (List.all_eq_true.1 blank _ member) (by decide)⟩
  · rw [parts, Segment.hidden_append, Segment.hidden_map_code, List.append_nil]
  · rw [parts, Segment.skeleton_append, Segment.skeleton_map_code,
      Statement.respace_append_blank _ blank]

theorem skeleton_result (legible : Legible unit)
    (normalized : Statement.normalize unit = .ok result) :
    skeleton (Segment.split result) = Statement.respace (skeleton (Segment.split unit)) :=
  Statement.respacing.skeleton_split_unmask legible.noMark normalized

theorem break_not_mem_skeleton (legible : Legible unit)
    (normalized : Statement.normalize unit = .ok result) :
    '\n' ∉ skeleton (Segment.split result) := by
  rw [legible.skeleton_result normalized]
  intro member
  exact absurd ((Statement.canonical_respace _).spaces _ member (by decide)) (by decide)

theorem inline_result (legible : Legible unit)
    (normalized : Statement.normalize unit = .ok result) :
    (Segment.split result).all Segment.isInline := by
  rw [Statement.respacing.split_unmask legible.noMark normalized]
  exact Segment.all_isInline_weave legible.settled _

theorem trimEnd_result (legible : Legible unit) (normalized : Statement.normalize unit = .ok result) :
    result.trimEnd = result := by
  have trimmed := (Statement.canonical_respace (skeleton (Segment.split unit))).trimmed
  have kept : Text.trimEnd (Statement.respace (skeleton (Segment.split unit))) =
      Statement.respace (skeleton (Segment.split unit)) := by
    rw [← trimmed]
    exact Text.trimEnd_trimEnd _
  rw [legible.result_eq normalized, Mask.trimEnd_insert legible.settled.solid, kept]

theorem closes_result (legible : Legible unit) (normalized : Statement.normalize unit = .ok result)
    (closes : Closes (Segment.split unit) following) : Closes (Segment.split result) following := by
  have parts := Statement.respacing.split_unmask legible.noMark normalized
  have passed := Statement.respacing.passes?_weave legible.shown {}
  cases closes with
  | @semicolon body _ whole ended =>
      have shown : ∀ c, .code c ∈ body → c ≠ Mask.mark := fun c member =>
        legible.shown c (by rw [whole]; exact List.mem_append_left _ member)
      have sameCode := Statement.compact_respace (skeleton (Segment.split unit))
      rw [whole, Segment.skeleton_append, Text.compact_append] at sameCode
      have trimmed := (Statement.canonical_respace (skeleton (Segment.split unit))).trimmed
      rw [whole, Segment.skeleton_append] at trimmed
      obtain ⟨first, sameFirst, respaced⟩ := Text.exists_concat_of_compact trimmed sameCode
      have hidden : hiddenSegments (Segment.split unit) = hiddenSegments body := by
        rw [whole, Segment.hiddenSegments_append]
        exact List.append_nil _
      have passedBody : Nesting.passes? {} (weave (hiddenSegments body) first) = some {} := by
        rw [← Segment.passes?_weave_compact, sameFirst, Segment.passes?_weave_compact,
          Segment.weave_skeleton shown, Segment.passes?_map_inlined, ended]
      refine .semicolon ?_ passedBody
      rw [parts, hidden, whole, Segment.skeleton_append]
      exact (congrArg _ respaced).trans (Segment.weave_concat_code _ _ (by decide))
  | stopped ended stops =>
      rw [parts]
      exact .stopped (passed.trans ended) stops
  | ended ended =>
      rw [parts]
      exact .ended (passed.trans ended)

/-- A respaced unit starts like the unit. -/
theorem starts_result (legible : Legible unit) (normalized : Statement.normalize unit = .ok result)
    (first : unit.head?.any starts) (noComment : Comment.form? unit = none) :
    result.head? = unit.head? ∧ Comment.form? result = none := by
  have parts := Statement.respacing.split_unmask legible.noMark normalized
  have noOther {segment : Segment} {others : List Segment}
      (same : Segment.split result = segment :: others)
      (plain : ∀ form text, segment ≠ .comment form text) : Comment.form? result = none := by
    cases found : Comment.form? result with
    | none => rfl
    | some form =>
        rw [Segment.split_of_comment found] at same
        exact absurd (List.cons.inj same).1.symm (plain _ _)
  have whole := Segment.spell_split result
  cases unit with
  | nil => simp at first
  | cons c rest =>
      have solid : isBlank c = false := by
        obtain ⟨d, others, same, solid⟩ := startsSolid_of_any_starts first
        rwa [(List.cons.inj same).1]
      cases quoted : isQuote c with
      | true =>
          rw [Segment.split_of_quote quoted] at parts
          have head := @head?_respace (skeleton (Segment.split (c :: rest)))
            ⟨Mask.mark, _, by rw [Segment.split_of_quote quoted]; rfl, by decide⟩
          rw [Segment.split_of_quote quoted] at head
          obtain ⟨others, respaced⟩ := List.head?_eq_some_iff.1 head
          rw [respaced, weave, if_pos rfl] at parts
          refine ⟨?_, noOther parts (by simp [hiddenSegments, Segment.inlined])⟩
          rw [← whole, parts]
          rfl
      | false =>
          rw [Segment.split_of_code noComment quoted] at parts
          have head := @head?_respace (skeleton (Segment.split (c :: rest)))
            ⟨c, _, by rw [Segment.split_of_code noComment quoted]; rfl, solid⟩
          rw [Segment.split_of_code noComment quoted] at head
          obtain ⟨others, respaced⟩ := List.head?_eq_some_iff.1 head
          have shown : c ≠ Mask.mark := by
            rintro rfl
            exact legible.noMark List.mem_cons_self
          rw [respaced, weave, if_neg shown] at parts
          refine ⟨?_, noOther parts (by simp)⟩
          rw [← whole, parts]
          rfl

theorem quiet_result (legible : Legible unit)
    (normalized : Statement.normalize unit = .ok result) :
    QuietFrom 0 (Segment.split result) := by
  rw [Statement.respacing.split_unmask legible.noMark normalized]
  exact Statement.respacing.quietFrom_weave legible.shown legible.quiet

theorem rereads (legible : Legible unit) (normalized : Statement.normalize unit = .ok result)
    (first : unit.head?.any starts) (noComment : Comment.form? unit = none)
    (closes : Closes (Segment.split unit) following) : Rereads result following where
  starts := by rwa [(legible.starts_result normalized first noComment).1]
  noComment := (legible.starts_result normalized first noComment).2
  lexed := legible.lexed_append_blank normalized (by decide : List.all ['\n'] isBlank)
  quiet := legible.quiet_result normalized
  noDirective := .inl (legible.break_not_mem_skeleton normalized)
  closes := legible.closes_result normalized closes

/-! ### The clean-up of a respaced unit -/

/-- Only the comments of a respaced unit are cleaned. -/
theorem split_cleaned (legible : Legible unit)
    (normalized : Statement.normalize unit = .ok result) :
    Segment.split (Clean.cleaned result) = (Segment.split result).map Segment.cleaned := by
  refine Segment.split_cleaned (legible.inline_result normalized)
    (legible.break_not_mem_skeleton normalized) fun c last => ?_
  rw [legible.skeleton_result normalized,
    ← (Statement.canonical_respace (skeleton (Segment.split unit))).trimmed] at last
  exact Text.isBlank_getLast_trimEnd last

theorem inline_cleaned (legible : Legible unit)
    (normalized : Statement.normalize unit = .ok result) :
    (Segment.split (Clean.cleaned result)).all Segment.isInline := by
  rw [legible.split_cleaned normalized]
  exact Segment.isInline_map_cleaned (Segment.lexed_split result).exists_fits
    (legible.inline_result normalized)

theorem cleaned (legible : Legible unit) (normalized : Statement.normalize unit = .ok result) :
    Legible (Clean.cleaned result) where
  noMark member :=
    legible.noMark_result normalized ((Clean.cleaned_sublist result).subset member)
  closed := by
    have inline := legible.inline_cleaned normalized
    rw [List.all_eq_true] at inline ⊢
    exact fun segment member =>
      Segment.isClosed_of_isComplete (Segment.isComplete_of_isInline (inline segment member))
  quiet := by
    rw [legible.split_cleaned normalized]
    exact (legible.quiet_result normalized).map_cleaned

/-- A cleaned unit is respaced to itself. -/
theorem normalize_cleaned (legible : Legible unit)
    (normalized : Statement.normalize unit = .ok result) :
    Statement.normalize (Clean.cleaned result) = .ok (Clean.cleaned result) := by
  have noMark := (legible.cleaned normalized).noMark
  have again : Statement.normalize result = .ok result :=
    Statement.respacing.unmask_again legible.noMark normalized
  have reread := Statement.normalize_eq_tidy (legible.noMark_result normalized) noMark (by
    rw [legible.split_cleaned normalized, Segment.length_hidden_map_cleaned]) again
  rwa [Statement.tidy_eq_self noMark (legible.inline_cleaned normalized)] at reread
  rw [legible.split_cleaned normalized, Segment.skeleton_map_cleaned,
    legible.skeleton_result normalized, Statement.respace_respace]

/-- If its comments are neat, a respaced unit is clean. -/
theorem cleaned_eq_self (legible : Legible unit)
    (neat : (Segment.split unit).all Segment.isNeat)
    (normalized : Statement.normalize unit = .ok result) : Clean.cleaned result = result := by
  have same := legible.split_cleaned normalized
  have parts := Statement.respacing.split_unmask legible.noMark normalized
  rw [parts, Segment.map_cleaned_weave (Segment.lexed_split unit) neat, ← parts] at same
  rw [← Segment.spell_split (Clean.cleaned result), same, Segment.spell_split]

theorem closes_cleaned (legible : Legible unit)
    (normalized : Statement.normalize unit = .ok result)
    (closes : Closes (Segment.split result) following) :
    Closes (Segment.split (Clean.cleaned result)) following := by
  rw [legible.split_cleaned normalized]
  cases closes with
  | @semicolon body _ parts passed =>
      have partsClean : List.map Segment.cleaned (Segment.split result) =
          body.map Segment.cleaned ++ [.code ';'] := by
        rw [parts, List.map_append]
        rfl
      exact .semicolon partsClean ((Segment.passes?_map_cleaned _ _).trans passed)
  | stopped passed stops => exact .stopped ((Segment.passes?_map_cleaned _ _).trans passed) stops
  | ended passed => exact .ended ((Segment.passes?_map_cleaned _ _).trans passed)

theorem starts_cleaned (legible : Legible unit)
    (normalized : Statement.normalize unit = .ok result) (first : result.head?.any starts)
    (noComment : Comment.form? result = none) :
    (Clean.cleaned result).head? = result.head? ∧
      Comment.form? (Clean.cleaned result) = none := by
  cases result with
  | nil => simp at first
  | cons c rest =>
      obtain ⟨d, others, same, solid⟩ := startsSolid_of_any_starts first
      obtain rfl := (List.cons.inj same).1
      refine ⟨by rw [Clean.cleaned_cons_solid solid]; rfl, ?_⟩
      have parts := legible.split_cleaned normalized
      cases found : Comment.form? (Clean.cleaned (c :: rest)) with
      | none => rfl
      | some form =>
          -- the first segment would be a comment
          rw [Segment.split_of_comment found] at parts
          cases quoted : isQuote c with
          | true =>
              rw [Segment.split_of_quote quoted] at parts
              cases (List.cons.inj parts).1
          | false =>
              rw [Segment.split_of_code noComment quoted] at parts
              cases (List.cons.inj parts).1

end Legible

end CodeUnit

namespace Token

/-- The tokens of a unit: one with the whole text, or one for each member of a list. -/
theorem ofCodeUnit_cases {inEnum closes : Bool} {unit : Text} {row : List Token}
    (found : ofCodeUnit inEnum closes unit = .ok row) :
    ∃ result, Statement.normalize unit = .ok result ∧
      ((∃ kind, (kind = .declaration ∨ kind = .statement) ∧ row = [{ kind, text := result }]) ∨
        inEnum ∧ Statement.isDeclaration result = false ∧ EnumMember.split (!closes) result ≠ [] ∧
          row = (EnumMember.split (!closes) result).map fun member =>
            { kind := .statement, text := member }) := by
  obtain ⟨result, normalized, rest⟩ := bind_eq_ok_iff.1 found
  refine ⟨result, normalized, ?_⟩
  cases declares : Statement.isDeclaration result with
  | true =>
      rw [declares, if_pos rfl] at rest
      exact .inl ⟨.declaration, .inl rfl, (Except.ok.inj rest).symm⟩
  | false =>
      rw [declares, if_neg (by simp)] at rest
      cases inEnum with
      | false => exact .inl ⟨.statement, .inr rfl, (Except.ok.inj rest).symm⟩
      | true =>
          cases members : EnumMember.split (!closes) result with
          | nil =>
              simp only [members] at rest
              exact .inl ⟨.statement, .inr rfl, (Except.ok.inj rest).symm⟩
          | cons member members' =>
              simp only [members] at rest
              exact .inr ⟨rfl, rfl, by simp, (Except.ok.inj rest).symm⟩

/-- Outside of an enum a unit gives one token. -/
theorem ofCodeUnit_outside {closes : Bool} {unit result : Text}
    (normalized : Statement.normalize unit = .ok result) :
    ofCodeUnit false closes unit =
      .ok [{ kind := if Statement.isDeclaration result then .declaration else .statement,
             text := result }] := by
  rw [ofCodeUnit, normalized]
  cases declares : Statement.isDeclaration result with
  | true => exact if_pos declares
  | false => exact if_neg (by simp [declares])

end Token

namespace CodeUnit

/-- A unit that gives a single token reprints. Inside of an enum its comments have to be clean, as
they may hold what the unit is cut at. -/
theorem Legible.reprints {unit result : Text} (legible : Legible unit) {inEnum closesBody : Bool}
    {following : Option Span.Rule} (first : unit.head?.any starts)
    (noComment : Comment.form? unit = none)
    (closing : Closes (Segment.split unit) following)
    (normalized : Statement.normalize unit = .ok result)
    {kind : Token.Kind} (isCode : kind = .declaration ∨ kind = .statement)
    (found : Token.ofCodeUnit inEnum closesBody unit = .ok [{ kind, text := result }])
    (clean : inEnum → Clean.cleaned result = result) {style : Style}
    {level : Nat} {lines : List Text}
    (printed : Layout.rowLines style level [{ kind, text := result }] = .ok lines) :
    Reprints style level inEnum closesBody following [{ kind, text := result }] lines := by
  have line (text : Text) :
      Layout.rowLines style level [{ kind, text }] = .ok [style.indent level ++ text] := by
    rw [Layout.rowLines_single]
    rcases isCode with rfl | rfl <;> rfl
  obtain rfl := Except.ok.inj (printed.symm.trans (line result))
  obtain ⟨sameFirst, noCommentResult⟩ := legible.starts_result normalized first noComment
  have firstResult : result.head?.any starts := by rwa [sameFirst]
  obtain ⟨sameStart, noCommentClean⟩ :=
    legible.starts_cleaned normalized firstResult noCommentResult
  have legibleClean := legible.cleaned normalized
  have normalizedClean := legible.normalize_cleaned normalized
  have rereads := legibleClean.rereads normalizedClean (by rwa [sameStart]) noCommentClean
    (legible.closes_cleaned normalized (legible.closes_result normalized closing))
  have kept := legible.trimEnd_result normalized
  have filled : result ≠ [] := by
    rintro rfl
    simp at firstResult
  obtain ⟨front, last, same, solid⟩ := Text.exists_concat_of_trimEnd filled kept
  have ends : result.getLast? = some last := by rw [same, List.getLast?_concat]
  have endsClean := Clean.getLast?_cleaned ends solid
  obtain ⟨c, rest, begins, notBlank⟩ := startsSolid_of_any_starts firstResult
  have comes {text : Text} (ends : text.getLast? = some last)
      (begins : (Clean.cleaned text).head? = some c) :
      Clean.ComesTo [style.indent level ++ text] (style.indent level ++ Clean.cleaned text) :=
    Clean.comesTo_cleaned_line (style.break_not_mem_indent level) begins
      (ne_break_of_isBlank notBlank) ends solid
  have beginsClean : (Clean.cleaned result).head? = some c := by rw [sameStart, begins]; rfl
  refine ⟨style.indent level, Clean.cleaned result, style.all_isBlank_indent level,
    comes ends beginsClean, ?_, rereads, fun gap blank => ?_⟩
  · obtain ⟨front, parts⟩ := List.getLast?_eq_some_iff.1 endsClean
    rw [parts, Segment.trimEnd_concat, if_neg (by simp [solid])]
  · have again := legibleClean.normalize_append_blank normalizedClean blank
    have comesAgain := comes endsClean (by rwa [Clean.cleaned_cleaned])
    rw [Clean.cleaned_cleaned] at comesAgain
    refine ⟨[{ kind, text := Clean.cleaned result }], _, ?_, ?_, line _, comesAgain⟩
    · cases inEnum with
      | true =>
          rw [clean rfl] at again ⊢
          rw [← found, Token.ofCodeUnit, Token.ofCodeUnit, again, normalized]
      | false =>
          rw [Token.ofCodeUnit_outside normalized] at found
          have sameKind : (if Statement.isDeclaration result then .declaration else .statement) =
            kind := congrArg Token.kind (List.cons.inj (Except.ok.inj found)).1
          rw [Token.ofCodeUnit_outside again, Statement.isDeclaration, Clean.leadingWord_cleaned,
            ← Statement.isDeclaration, sameKind]
    · rw [List.map_singleton, List.map_singleton, Clean.outline_cleaned]

end CodeUnit

end IdlFormat
