import IdlFormat.Proofs.Scanning
import IdlFormat.Proofs.Spacing
import IdlFormat.Span.Basic

/-!
# Spans of segments

A text without directives can be cut into spans by cutting its segments: no rule cuts through a
literal or a comment, as long as the comments inside square brackets are quiet. `Stretch.split_spell`
says so, and leaves the cutting of texts behind.
-/

namespace IdlFormat

/-- What a character of code does to a unit. -/
theorem CodeUnit.cutFrom_code {c : Char} {rest : Text} (noComment : Comment.form? (c :: rest) = none)
    (unquoted : isQuote c = false) (state : State) :
    cutFrom state (c :: rest) =
      if c = '[' then
        ((Bracket.cutBlock (c :: rest)).1 ++
            (cutFrom state.skip (Bracket.cutBlock (c :: rest)).2).1,
          (cutFrom state.skip (Bracket.cutBlock (c :: rest)).2).2)
      else if state.stopsBefore c then ([], c :: rest)
      else if state.isTop && c = ';' then ([c], rest)
      else (c :: (cutFrom (state.next c) rest).1, (cutFrom (state.next c) rest).2) := by
  rw [cutFrom]
  split
  · next form opens => simp [noComment] at opens
  · simp [unquoted]

namespace Segment

/-- Whether a segment is a character of code from a class. -/
def isCode (inClass : Char → Bool) : Segment → Bool
  | .code c => inClass c
  | _ => false

theorem QuietFrom.right {depth : Nat} {left right : List Segment}
    (quiet : QuietFrom depth (left ++ right)) : QuietFrom 0 right := by
  induction left generalizing depth with
  | nil => exact quiet.of_le (Nat.zero_le _)
  | cons segment left ih => exact ih (quietFrom_cons quiet)

theorem length_cutClosed_lt (depth : Int) (segment : Segment) (rest : List Segment) :
    (cutClosed depth (segment :: rest)).2.length < (segment :: rest).length := by
  have parts := congrArg List.length (cutClosed_append depth (segment :: rest))
  obtain ⟨taken, first⟩ := cutClosed_cons depth segment rest
  simp only [first, List.length_append, List.length_cons] at parts ⊢
  omega

/-- Cuts the rest of a unit off the front of segments. -/
def cutUnit (state : CodeUnit.State) (segments : List Segment) : List Segment × List Segment :=
  match segments with
  | [] => ([], [])
  | .comment form text :: rest =>
      if state.isTop then ([], .comment form text :: rest)
      else
        let more := cutUnit state.skip rest
        (.comment form text :: more.1, more.2)
  | .literal text repair :: rest =>
      let more := cutUnit state.skip rest
      (.literal text repair :: more.1, more.2)
  | .code c :: rest =>
      if c = '[' then
        let block := cutClosed 0 (.code c :: rest)
        let more := cutUnit state.skip block.2
        (block.1 ++ more.1, more.2)
      else if state.stopsBefore c then ([], .code c :: rest)
      else if state.isTop && c = ';' then ([.code c], rest)
      else
        let more := cutUnit (state.next c) rest
        (.code c :: more.1, more.2)
termination_by segments.length
decreasing_by
  · simp
  · simp
  · exact length_cutClosed_lt 0 (.code c) rest
  · simp

theorem cutUnit_append (state : CodeUnit.State) (segments : List Segment) :
    (cutUnit state segments).1 ++ (cutUnit state segments).2 = segments := by
  fun_induction cutUnit state segments with
  | case1 => rfl
  | case2 => rfl
  | case3 state form text rest _ more ih => rw [List.cons_append, ih]
  | case4 state text repair rest more ih => rw [List.cons_append, ih]
  | case5 state rest block more ih => rw [List.append_assoc, ih, cutClosed_append]
  | case6 => rfl
  | case7 => rfl
  | case8 state c rest _ _ _ more ih => rw [List.cons_append, ih]

theorem cutBlock_spell {rest : List Segment} (lexed : Lexed rest) {bound : Nat}
    (quiet : QuietFrom bound (.code '[' :: rest)) :
    Bracket.cutBlock (spell (.code '[' :: rest)) =
      (spell (cutClosed 0 (.code '[' :: rest)).1, spell (cutClosed 0 (.code '[' :: rest)).2) := by
  have inner := @cutClosed_spell rest lexed 1 (bound + 1) (by decide) (by omega) (by
    simpa [square, Bracket.step] using quietFrom_cons quiet)
  have first : isQuote '[' = false := by decide
  have opened : (0 : Int) + Bracket.step '[' = (1 : Nat) := by decide
  rw [Bracket.cutBlock, spell_cons, Segment.text, List.singleton_append,
    Bracket.cutClosed_code first, if_neg (by decide), opened, inner, cutClosed_opening]
  rfl

end Segment

open Segment in
/-- What stands between the brackets of a closed block. -/
theorem Attribute.content_spell_closed {inner : List Segment}
    (lexed : Lexed (Segment.code '[' :: inner ++ [Segment.code ']']))
    (quiet : AllQuiet (Segment.code '[' :: inner ++ [Segment.code ']']))
    (closed : openDepthFrom 0 (Segment.code '[' :: inner ++ [Segment.code ']']) = 0) :
    content (spell (Segment.code '[' :: inner ++ [Segment.code ']'])) = spell inner := by
  have depth : Bracket.openDepth (spell (Segment.code '[' :: inner ++ [Segment.code ']'])) = 0 := by
    rw [Bracket.openDepth, openDepthFrom_spell lexed quiet, closed]
  rw [content, depth]
  simp [Segment.text]

namespace Segment

/-- Units are cut off segments as they are off the text. -/
theorem cutUnit_spell (state : CodeUnit.State) {segments : List Segment} (lexed : Lexed segments)
    (quiet : QuietFrom 0 segments) :
    CodeUnit.cutFrom state (spell segments) =
      (spell (cutUnit state segments).1, spell (cutUnit state segments).2) := by
  fun_induction cutUnit state segments with
  | case1 state =>
      rw [spell_nil, CodeUnit.cutFrom]
      rfl
  | case2 state form text rest top =>
      rw [spell_cons, CodeUnit.cutFrom]
      have found := lexed.1.form?_comment (spell rest)
      split
      · simp [top]
      · next none => simp [Segment.text, found] at none
  | case3 state form text rest deep more ih =>
      have inner := ih lexed.2 (quietFrom_cons quiet)
      rw [spell_cons, Segment.text, CodeUnit.cutFrom]
      have found := lexed.1.form?_comment (spell rest)
      split
      · next other opens =>
          obtain rfl : form = other := by simpa [found] using opens
          simp only [deep, lexed.1.cut_comment, inner]
          simp [Segment.text, more]
      · next none => simp [found] at none
  | case4 state text repair rest more ih =>
      have inner := ih lexed.2 (quietFrom_cons quiet)
      obtain ⟨quote, body, rfl, quoted, noComment, scanned⟩ := lexed.1.scan_literal
      rw [spell_cons, Segment.text, List.cons_append, CodeUnit.cutFrom]
      split
      · next form opens => simp [noComment] at opens
      · simp only [quoted, if_true, scanned, inner]
        simp [Segment.text, more]
  | case5 state rest block more ih =>
      have parts := cutClosed_append 0 (.code '[' :: rest)
      have inner := ih (by rw [← parts] at lexed; exact lexed.right)
        (by rw [← parts] at quiet; exact quiet.right)
      have cut := cutBlock_spell lexed.2 quiet
      rw [spell_cons, Segment.text, List.singleton_append] at cut ⊢
      rw [CodeUnit.cutFrom_code lexed.1.form?_code lexed.1.1, if_pos rfl, cut]
      simp only [block] at inner
      rw [inner]
      simp [more, block]
  | case6 state c rest notOpen stops =>
      rw [spell_cons, Segment.text, List.singleton_append,
        CodeUnit.cutFrom_code lexed.1.form?_code lexed.1.1, if_neg notOpen, if_pos stops]
      rfl
  | case7 state c rest notOpen goesOn ends =>
      rw [spell_cons, Segment.text, List.singleton_append,
        CodeUnit.cutFrom_code lexed.1.form?_code lexed.1.1, if_neg notOpen, if_neg goesOn,
        if_pos ends]
      rfl
  | case8 state c rest notOpen goesOn notEnd more ih =>
      have inner := ih lexed.2 ((quietFrom_cons quiet).of_le (Nat.zero_le _))
      rw [spell_cons, Segment.text, List.singleton_append,
        CodeUnit.cutFrom_code lexed.1.form?_code lexed.1.1, if_neg notOpen, if_neg goesOn,
        if_neg notEnd, inner]
      rfl

/-- A closing brace cut off segments. -/
structure Brace where
  /-- The text of its token. -/
  token : Text
  /-- The segments that it covers after the brace. -/
  taken : List Segment
  /-- What follows. -/
  rest : List Segment

/-- The same with the texts of the segments. -/
def Brace.cut (brace : Brace) : CloseBrace.Cut :=
  ⟨brace.token, spell brace.taken, spell brace.rest⟩

/-- The closing brace before segments that are a gap, a list of aliases and more. -/
def fuse (segments gap aliases : List Segment) : List Segment → Brace
  | .code _ :: rest =>
      if aliases = [] then ⟨['}', ';'], gap ++ [Segment.code ';'], rest⟩
      else if aliases.head? = some (.code '\n') || Text.isBlank (spell aliases) ||
          CloseBrace.blocksAliases (spell aliases) then ⟨['}'], [], segments⟩
      else
        ⟨'}' :: ' ' :: (Text.collapse (spell aliases)).trim ++ [';'],
          gap ++ aliases ++ [Segment.code ';'], rest⟩
  | _ => ⟨['}'], [], segments⟩

/-- Cuts off the closing brace that stands right before segments. -/
def cutBrace (segments : List Segment) : Brace :=
  let after := segments.dropWhile (isCode isIndent)
  fuse segments (segments.takeWhile (isCode isIndent)) (after.takeWhile (isCode (· != ';')))
    (after.dropWhile (isCode (· != ';')))

theorem Fits.head?_hidden {segment : Segment} {next : Option Char} (fits : segment.Fits next)
    (hidden : ∀ c, segment ≠ .code c) : ∃ c tail, segment.text = c :: tail ∧ (isQuote c ∨ c = '/') := by
  match segment, fits with
  | .code c, _ => exact absurd rfl (hidden c)
  | .literal _ _, ⟨quote, body, rfl, quoted, _⟩ => exact ⟨quote, body, rfl, .inl quoted⟩
  | .comment .line _, ⟨body, rfl, _⟩ => exact ⟨'/', '/' :: body, rfl, .inr rfl⟩
  | .comment .block _, ⟨body, rfl, _⟩ => exact ⟨'/', '*' :: body, rfl, .inr rfl⟩

theorem spell_takeWhile_dropWhile {inClass : Char → Bool}
    (outside : ∀ c, isQuote c ∨ c = '/' → inClass c = false) {segments : List Segment}
    (lexed : Lexed segments) :
    (spell segments).takeWhile inClass = spell (segments.takeWhile (isCode inClass)) ∧
      (spell segments).dropWhile inClass = spell (segments.dropWhile (isCode inClass)) := by
  induction segments with
  | nil => exact ⟨rfl, rfl⟩
  | cons segment rest ih =>
      by_cases inside : isCode inClass segment
      · cases segment with
        | code c =>
            have member : inClass c = true := inside
            simpa [isCode, member, Segment.text] using ih lexed.2
        | literal _ _ => simp [isCode] at inside
        | comment _ _ => simp [isCode] at inside
      · have first : ∃ c tail, segment.text = c :: tail ∧ inClass c = false := by
          cases segment with
          | code c => exact ⟨c, [], rfl, by simpa [isCode] using inside⟩
          | literal text repair =>
              obtain ⟨c, tail, same, opens⟩ := lexed.1.head?_hidden (by simp)
              exact ⟨c, tail, same, outside c opens⟩
          | comment form text =>
              obtain ⟨c, tail, same, opens⟩ := lexed.1.head?_hidden (by simp)
              exact ⟨c, tail, same, outside c opens⟩
        obtain ⟨c, tail, same, notMember⟩ := first
        rw [List.takeWhile_cons_of_neg inside, List.dropWhile_cons_of_neg inside, spell_cons, same]
        simp [notMember]

end Segment

namespace CloseBrace

theorem blocksAliases_append (left : Text) {right : Text} (blocked : blocksAliases right) :
    blocksAliases (left ++ right) := by
  induction left with
  | nil => exact blocked
  | cons c left ih => simp [blocksAliases, ih]

/-- What starts with a literal or a comment is no list of aliases, and neither is its part up to a
semicolon. -/
theorem blocksAliases_hidden {segment : Segment} {next : Option Char} (fits : segment.Fits next)
    (hidden : ∀ c, segment ≠ .code c) (rest : Text) :
    blocksAliases ((segment.text ++ rest).takeWhile (· != ';')) := by
  match segment, fits with
  | .code c, _ => exact absurd rfl (hidden c)
  | .literal _ _, ⟨quote, body, rfl, quoted, _⟩ =>
      have notEnd : quote ≠ ';' := by
        rintro rfl
        simp [isQuote] at quoted
      simp [Segment.text, notEnd, blocksAliases, quoted]
  | .comment .line _, ⟨body, rfl, _⟩ =>
      simp [Segment.text, blocksAliases, Comment.form?]
  | .comment .block _, ⟨body, rfl, _⟩ =>
      simp [Segment.text, blocksAliases, Comment.form?]

theorem cut_of_semicolon {text rest : Text} (after : text.dropWhile isIndent = ';' :: rest) :
    cut text = ⟨['}', ';'], text.takeWhile isIndent ++ [';'], rest⟩ := by
  simp [cut, after]

theorem cut_of_no_aliases {text : Text} (notEnd : (text.dropWhile isIndent).head? ≠ some ';')
    (none : (text.dropWhile isIndent).head? = some '\n' ∨
      (text.dropWhile isIndent).dropWhile (· != ';') = [] ∨
      Text.isBlank ((text.dropWhile isIndent).takeWhile (· != ';')) ∨
      blocksAliases ((text.dropWhile isIndent).takeWhile (· != ';'))) :
    cut text = ⟨['}'], [], text⟩ := by
  simp only [cut, if_neg notEnd]
  split
  · rfl
  · next notBreak =>
      split
      · rfl
      · next filled =>
          rw [if_pos]
          simpa [notBreak, filled] using none

theorem cut_of_aliases {text aliases rest : Text}
    (after : text.dropWhile isIndent = aliases ++ ';' :: rest) (plain : ∀ c ∈ aliases, c != ';')
    (notBreak : aliases.head? ≠ some '\n') (filled : Text.isBlank aliases = false)
    (free : blocksAliases aliases = false) :
    cut text = ⟨'}' :: ' ' :: (Text.collapse aliases).trim ++ [';'],
      text.takeWhile isIndent ++ aliases ++ [';'], rest⟩ := by
  have taken := @List.takeWhile_append_of_pos _ _ _ (';' :: rest) plain
  have dropped := @List.dropWhile_append_of_pos _ _ _ (';' :: rest) plain
  cases aliases with
  | nil => simp [Text.isBlank] at filled
  | cons c others =>
      have notEnd : c ≠ ';' := by simpa using plain c List.mem_cons_self
      have inLine : c ≠ '\n' := by simpa using notBreak
      simp [cut, after, notEnd, inLine] at taken dropped ⊢
      simp [taken, dropped, filled, free]

theorem head?_append_ne_semicolon {aliases rest : Text} (plain : ∀ c ∈ aliases, c != ';')
    (notEnd : rest.head? ≠ some ';') : (aliases ++ rest).head? ≠ some ';' := by
  cases aliases with
  | nil => exact notEnd
  | cons c others =>
      have other := plain c List.mem_cons_self
      simpa using other

/-- A list of aliases that no semicolon ends stays behind the brace. -/
theorem cut_of_unended {text : Text} (plain : ∀ c ∈ text.dropWhile isIndent, c != ';') :
    cut text = ⟨['}'], [], text⟩ := by
  apply cut_of_no_aliases
  · rw [← List.append_nil (text.dropWhile isIndent)]
    exact head?_append_ne_semicolon plain (by simp)
  · have dropped := @List.dropWhile_append_of_pos _ _ _ [] plain
    rw [List.append_nil] at dropped
    exact .inr (.inl dropped)

/-- A list of aliases that runs into a literal or a comment stays behind the brace. -/
theorem cut_of_hidden {text aliases rest : Text} {segment : Segment} {next : Option Char}
    (after : text.dropWhile isIndent = aliases ++ (segment.text ++ rest))
    (plain : ∀ c ∈ aliases, c != ';') (fits : segment.Fits next)
    (hidden : ∀ c, segment ≠ .code c) : cut text = ⟨['}'], [], text⟩ := by
  apply cut_of_no_aliases
  · rw [after]
    obtain ⟨c, others, first, opens⟩ := fits.head?_hidden hidden
    refine head?_append_ne_semicolon plain fun atEnd => ?_
    obtain rfl : c = ';' := by simpa [first] using atEnd
    simp [isQuote] at opens
  · rw [after, List.takeWhile_append_of_pos plain]
    exact .inr (.inr (.inr (blocksAliases_append _ (blocksAliases_hidden fits hidden rest))))

end CloseBrace

namespace Segment

theorem of_mem_spell_of_isCode {inClass : Char → Bool} {segments : List Segment}
    (codes : ∀ segment ∈ segments, isCode inClass segment) : ∀ c ∈ spell segments, inClass c := by
  intro c member
  obtain ⟨segment, inside, written⟩ := List.mem_flatMap.1 member
  have isPlain := codes segment inside
  cases segment with
  | code d =>
      obtain rfl := List.mem_singleton.1 written
      exact isPlain
  | literal _ _ => simp [isCode] at isPlain
  | comment _ _ => simp [isCode] at isPlain

/-- A list of aliases that a semicolon ends is fused with the brace as its text is. -/
theorem cut_eq_fuse {segments gap aliases rest : List Segment}
    (codes : ∀ segment ∈ aliases, isCode (· != ';') segment)
    (before : (spell segments).takeWhile isIndent = spell gap)
    (after : (spell segments).dropWhile isIndent = spell aliases ++ ';' :: spell rest) :
    CloseBrace.cut (spell segments) = (fuse segments gap aliases (.code ';' :: rest)).cut := by
  have plain := of_mem_spell_of_isCode codes
  rw [fuse]
  split
  · next empty =>
      subst empty
      rw [CloseBrace.cut_of_semicolon after, before]
      simp [Brace.cut, Segment.text]
  · next filled =>
      obtain ⟨first, others, rfl⟩ := List.exists_cons_of_ne_nil filled
      obtain ⟨d, rfl⟩ : ∃ d, first = .code d := by
        have isPlain := codes first List.mem_cons_self
        cases first <;> simp_all [isCode]
      have head (tail : Text) : (spell (.code d :: others) ++ tail).head? = some d := by
        simp [Segment.text]
      split
      · next alone =>
          apply CloseBrace.cut_of_no_aliases
          · rw [after, head]
            simpa [isCode] using codes (.code d) List.mem_cons_self
          · rw [after, List.takeWhile_append_of_pos plain, head]
            have reasons : d = '\n' ∨ Text.isBlank (spell (.code d :: others)) ∨
                CloseBrace.blocksAliases (spell (.code d :: others)) := by
              simpa [or_assoc] using alone
            rcases reasons with isBreak | reason
            · exact .inl (by rw [isBreak])
            · exact .inr (.inr (by simpa using reason))
      · next free =>
          simp only [Bool.or_eq_true, not_or, decide_eq_true_eq, Bool.not_eq_true,
            List.head?_cons, Option.some.injEq, code.injEq] at free
          rw [CloseBrace.cut_of_aliases after plain (by simpa [Segment.text] using free.1.1)
            free.1.2 free.2, before]
          simp [Brace.cut, Segment.text]

/-- Closing braces are cut off segments as they are off the text. -/
theorem cutBrace_spell {segments : List Segment} (lexed : Lexed segments) :
    CloseBrace.cut (spell segments) = (cutBrace segments).cut := by
  have ⟨before, after⟩ := @spell_takeWhile_dropWhile isIndent (by
    rintro c (quoted | rfl)
    · rcases isQuote_iff.1 quoted with rfl | rfl <;> decide
    · decide) segments lexed
  have lexedAfter : Lexed (segments.dropWhile (isCode isIndent)) := by
    have parts := List.takeWhile_append_dropWhile (p := isCode isIndent) (l := segments)
    rw [← parts] at lexed
    exact lexed.right
  have parts := List.takeWhile_append_dropWhile (p := isCode (· != ';'))
    (l := segments.dropWhile (isCode isIndent))
  have stopped := List.head?_dropWhile_not (isCode (· != ';'))
    (segments.dropWhile (isCode isIndent))
  have codes : ∀ segment ∈ (segments.dropWhile (isCode isIndent)).takeWhile (isCode (· != ';')),
      isCode (· != ';') segment := List.all_eq_true.1 List.all_takeWhile
  simp only [cutBrace]
  generalize (segments.dropWhile (isCode isIndent)).takeWhile (isCode (· != ';')) = aliases at *
  generalize (segments.dropWhile (isCode isIndent)).dropWhile (isCode (· != ';')) = tail at *
  rw [← parts] at after lexedAfter
  rw [spell_append] at after
  have plain := of_mem_spell_of_isCode codes
  -- the list ends at a semicolon, at the end of the text, or where a literal or a comment starts
  cases tail with
  | nil =>
      rw [spell_nil, List.append_nil] at after
      exact CloseBrace.cut_of_unended (after ▸ plain)
  | cons segment rest =>
      cases segment with
      | literal text repair => exact CloseBrace.cut_of_hidden after plain lexedAfter.right.1 (by simp)
      | comment form text => exact CloseBrace.cut_of_hidden after plain lexedAfter.right.1 (by simp)
      | code c =>
          obtain rfl : c = ';' := by simpa [isCode] using stopped
          exact cut_eq_fuse codes before after

end Segment

theorem Segment.cutBrace_append (segments : List Segment) :
    (cutBrace segments).taken ++ (cutBrace segments).rest = segments := by
  have whole := List.takeWhile_append_dropWhile (p := isCode isIndent) (l := segments)
  have inner := List.takeWhile_append_dropWhile (p := isCode (· != ';'))
    (l := segments.dropWhile (isCode isIndent))
  have stopped := List.head?_dropWhile_not (isCode (· != ';'))
    (segments.dropWhile (isCode isIndent))
  simp only [cutBrace]
  generalize (segments.dropWhile (isCode isIndent)).takeWhile (isCode (· != ';')) = aliases at *
  generalize (segments.dropWhile (isCode isIndent)).dropWhile (isCode (· != ';')) = tail at *
  unfold fuse
  split
  · next c rest =>
      obtain rfl : c = ';' := by simpa [isCode] using stopped
      rw [← inner] at whole
      split
      · next empty => simpa [empty] using whole
      · split
        · rfl
        · simpa using whole
  · rfl

/-- A stretch of segments that one rule cut; there is none for directives. -/
inductive Stretch where
  /-- A comment. -/
  | comment (form : Comment.Form) (text : Text)
  /-- A block in square brackets. -/
  | attributeBlock (segments : List Segment)
  /-- An opening brace. -/
  | braceOpen
  /-- A closing brace: the text of its token, and the segments it covers. -/
  | braceClose (token : Text) (segments : List Segment)
  /-- A unit of code. -/
  | codeUnit (segments : List Segment)

namespace Stretch

open Segment (spell Lexed QuietFrom)

/-- The segments that a stretch covers. -/
def segments : Stretch → List Segment
  | .comment form text => [.comment form text]
  | .attributeBlock segments => segments
  | .braceOpen => [.code '{']
  | .braceClose _ segments => segments
  | .codeUnit segments => segments

/-- The span of the text of a stretch. -/
def span : Stretch → Span
  | .comment form text => .comment form text
  | .attributeBlock segments => .attributeBlock (spell segments)
  | .braceOpen => .braceOpen
  | .braceClose token segments => .braceClose token (spell segments)
  | .codeUnit segments => .codeUnit (spell segments)

/-- Cuts off the stretch that starts with a segment. -/
def cut (segment : Segment) (rest : List Segment) : Stretch × List Segment :=
  match segment with
  | .comment form text => (.comment form text, rest)
  | .literal text repair =>
      let codeUnit := Segment.cutUnit {} (.literal text repair :: rest)
      (.codeUnit codeUnit.1, codeUnit.2)
  | .code c =>
      if c = '[' then
        let block := Segment.cutClosed 0 (.code c :: rest)
        (.attributeBlock block.1, block.2)
      else if c = '{' then (.braceOpen, rest)
      else if c = '}' then
        let brace := Segment.cutBrace rest
        (.braceClose brace.token (.code c :: brace.taken), brace.rest)
      else
        let codeUnit := Segment.cutUnit {} (.code c :: rest)
        (.codeUnit codeUnit.1, codeUnit.2)

/-- A stretch and what follows it make up the segments that it is cut off. -/
theorem segments_append_cut (segment : Segment) (rest : List Segment) :
    (cut segment rest).1.segments ++ (cut segment rest).2 = segment :: rest := by
  cases segment with
  | comment form text => rfl
  | literal text repair => exact Segment.cutUnit_append _ _
  | code c =>
      unfold cut
      simp only
      split
      · exact Segment.cutClosed_append _ _
      · split
        · next brace => simp [segments, brace]
        · split
          · simp [segments, Segment.cutBrace_append]
          · exact Segment.cutUnit_append _ _

theorem segments_cut_ne_nil (segment : Segment) (rest : List Segment) :
    (cut segment rest).1.segments ≠ [] := by
  cases segment with
  | comment form text => simp [cut, segments]
  | literal text repair => simp [cut, segments, Segment.cutUnit]
  | code c =>
      unfold cut
      simp only
      split
      · obtain ⟨taken, first⟩ := Segment.cutClosed_cons 0 (.code c) rest
        simp [segments, first]
      · next notOpen =>
          split
          · simp [segments]
          · split
            · simp [segments]
            · next notBrace notClose =>
                simp only [segments, Segment.cutUnit, CodeUnit.State.stopsBefore, notOpen, notBrace,
                  notClose]
                simp only [if_false, decide_false, Bool.or_false, Bool.and_false, Bool.false_eq_true]
                split <;> simp

theorem length_cut_lt (segment : Segment) (rest : List Segment) :
    (cut segment rest).2.length < (segment :: rest).length := by
  have parts := congrArg List.length (segments_append_cut segment rest)
  have filled := List.length_pos_iff.2 (segments_cut_ne_nil segment rest)
  rw [List.length_append] at parts
  omega

/-- The stretches of segments in order. -/
def split (segments : List Segment) : List Stretch :=
  match _start : segments.dropWhile (Segment.isCode isBlank) with
  | [] => []
  | segment :: rest => (cut segment rest).1 :: split (cut segment rest).2
termination_by segments.length
decreasing_by
  have shorter := (List.dropWhile_sublist (Segment.isCode isBlank) (l := segments)).length_le
  have := length_cut_lt segment rest
  rw [_start] at shorter
  omega

/-- A stretch is the span that the text is cut into. -/
theorem cut_spell {segment : Segment} {rest : List Segment} (lexed : Lexed (segment :: rest))
    (quiet : QuietFrom 0 (segment :: rest)) (noHash : segment ≠ .code '#') :
    ∃ c tail, spell (segment :: rest) = c :: tail ∧
      Span.cut c tail = ((cut segment rest).1.span, spell (cut segment rest).2) := by
  have unit := Segment.cutUnit_spell {} lexed quiet
  cases segment with
  | comment form text =>
      obtain ⟨c, others, same, -⟩ := lexed.1.head?_hidden (by simp)
      have found := lexed.1.form?_comment (spell rest)
      have taken := lexed.1.cut_comment
      have same : text = c :: others := same
      refine ⟨c, others ++ spell rest, by rw [Segment.spell_cons, Segment.text, same]; rfl, ?_⟩
      rw [same, List.cons_append] at found taken
      simp only [Span.cut]
      rw [found]
      simp only [taken, cut, span, same]
  | literal text repair =>
      obtain ⟨quote, body, rfl, quoted, noComment, -⟩ := lexed.1.scan_literal
      refine ⟨quote, body ++ spell rest, rfl, ?_⟩
      have plain : quote ≠ '#' ∧ quote ≠ '[' ∧ quote ≠ '{' ∧ quote ≠ '}' := by
        rcases isQuote_iff.1 quoted with rfl | rfl <;> decide
      rw [Segment.spell_cons, Segment.text, List.cons_append] at unit
      simp only [Span.cut, noComment, plain, if_false, CodeUnit.cut, unit, cut, span]
  | code c =>
      have noComment := lexed.1.form?_code
      have notHash : c ≠ '#' := fun same => noHash (by rw [same])
      refine ⟨c, spell rest, rfl, ?_⟩
      rw [Segment.spell_cons, Segment.text, List.singleton_append] at unit
      simp only [Span.cut, noComment, notHash, if_false, cut]
      by_cases opens : c = '['
      · subst opens
        have block := Segment.cutBlock_spell lexed.2 quiet
        rw [Segment.spell_cons, Segment.text, List.singleton_append] at block
        simp [block, span]
      · by_cases braceOpens : c = '{'
        · simp [braceOpens, span]
        · by_cases braceCloses : c = '}'
          · simp [braceCloses, span, Segment.cutBrace_spell lexed.2, Segment.Brace.cut, Segment.text]
          · simp [opens, braceOpens, braceCloses, CodeUnit.cut, unit, span]

/-- The spans of a text are its stretches, if it has no directives and its comments inside square
brackets are quiet. -/
theorem split_spell {segments : List Segment} (lexed : Lexed segments)
    (quiet : QuietFrom 0 segments) (noHash : .code '#' ∉ segments) :
    Span.split (spell segments) = (split segments).map span := by
  have blanks {segments : List Segment} (lexed : Lexed segments) :
      (spell segments).dropWhile isBlank = spell (segments.dropWhile (Segment.isCode isBlank)) := by
    refine (@Segment.spell_takeWhile_dropWhile isBlank ?_ segments lexed).2
    rintro c (quoted | rfl)
    · rcases isQuote_iff.1 quoted with rfl | rfl <;> decide
    · decide
  fun_induction split segments with
  | case1 segments start =>
      have none := blanks lexed
      rw [start] at none
      rw [Span.split]
      split
      · rfl
      · next some => simp [none] at some
  | case2 segments segment rest start ih =>
      have parts := List.takeWhile_append_dropWhile (p := Segment.isCode isBlank) (l := segments)
      have some := blanks lexed
      rw [start] at some parts
      rw [← parts] at lexed quiet noHash
      have lexedRest := lexed.right
      obtain ⟨c, tail, spelled, cuts⟩ := cut_spell lexedRest quiet.right
        (fun same => noHash (by simp [same]))
      have cutParts := segments_append_cut segment rest
      rw [← cutParts] at lexedRest quiet noHash
      have inner := ih lexedRest.right (by
        rw [← List.append_assoc] at quiet
        exact quiet.right) (by
        intro member
        exact noHash (by simp [member]))
      rw [Span.split]
      split
      · next none => simp [some, spelled] at none
      · next d after found =>
          rw [some, spelled] at found
          simp only [List.cons.injEq] at found
          obtain ⟨rfl, rfl⟩ := found
          rw [cuts, List.map_cons, inner]

end Stretch

end IdlFormat
