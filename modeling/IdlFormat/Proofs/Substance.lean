import IdlFormat.Proofs.Content
import IdlFormat.Proofs.Lines

/-!
# Comments stay comments and code stays code

A document says what the text says that it is formatted from, if all literals and comments of the
text are closed and its brackets nest. The scanners of brackets do not know comments, which sets the
limit of this result: a comment inside square brackets must hold no comma, no quote and no square
bracket, and in a list of members no comma of a comment may be taken for one between members.
-/

namespace IdlFormat

namespace Segment

/-- The bracket that closes what a character opens. -/
def closer? (c : Char) : Option Char :=
  if c = '(' then some ')' else if c = '[' then some ']' else if c = '{' then some '}' else none

/-- Whether the brackets of the code are properly nested, where `waiting` holds the closing brackets
still to come, the next one first. -/
def nestsFrom (waiting : List Char) : List Segment → Bool
  | [] => waiting.isEmpty
  | .code c :: rest =>
      match closer? c with
      | some closing => nestsFrom (closing :: waiting) rest
      | none =>
          if [')', ']', '}'].contains c then waiting.head? = some c && nestsFrom waiting.tail rest
          else nestsFrom waiting rest
  | _ :: rest => nestsFrom waiting rest

/-- Whether every square bracket closes another or is closed, where `depth` counts those open
before the segments. -/
def SquaresFrom (depth : Int) : List Segment → Prop
  | [] => depth = 0
  | segment :: rest => 0 ≤ depth + segment.square ∧ SquaresFrom (depth + segment.square) rest

/-- Nested brackets leave no square bracket open. -/
theorem squaresFrom_of_nestsFrom {waiting : List Char} {segments : List Segment}
    (nested : nestsFrom waiting segments) : SquaresFrom (waiting.count ']') segments := by
  fun_induction nestsFrom waiting segments with
  | case1 waiting =>
      rw [List.isEmpty_iff.1 nested]
      rfl
  | case2 waiting c rest closing opens ih =>
      have inner := ih nested
      have counted : ((closing :: waiting).count ']' : Int) = waiting.count ']' + Bracket.step c := by
        simp only [closer?] at opens
        split at opens
        · next same => subst same; cases opens; simp [Bracket.step]
        · split at opens
          · next same => subst same; cases opens; simp [Bracket.step]
          · split at opens
            · next same => subst same; cases opens; simp [Bracket.step]
            · simp at opens
      rw [counted] at inner
      refine ⟨?_, inner⟩
      show 0 ≤ (waiting.count ']' : Int) + Bracket.step c
      omega
  | case3 waiting c rest _ closes ih =>
      simp only [Bool.and_eq_true, decide_eq_true_eq] at nested
      have inner := ih nested.2
      obtain ⟨others, rfl⟩ : ∃ others, waiting = c :: others := by
        cases waiting with
        | nil => simp at nested
        | cons first others => exact ⟨others, by simpa using nested.1⟩
      have counted : (others.count ']' : Int) = (c :: others).count ']' + Bracket.step c := by
        simp only [List.contains_cons, List.contains_nil, Bool.or_false, Bool.or_eq_true, beq_iff_eq] at closes
        rcases closes with rfl | rfl | rfl
        · simp [Bracket.step]
        · have one : Bracket.step ']' = -1 := by decide
          rw [List.count_cons_self, one]
          omega
        · simp [Bracket.step]
      rw [List.tail_cons, counted] at inner
      refine ⟨?_, inner⟩
      show 0 ≤ ((c :: others).count ']' : Int) + Bracket.step c
      omega
  | case4 waiting c rest notOpen notClose ih =>
      have none : Bracket.step c = 0 := by
        have noOpener : c ≠ '[' := by
          rintro rfl
          simp [closer?] at notOpen
        have noCloser : c ≠ ']' := by
          rintro rfl
          simp at notClose
        simp [Bracket.step, noOpener, noCloser]
      have inner := ih nested
      refine ⟨by simp [square, none], ?_⟩
      simpa [square, none] using inner
  | case5 waiting segment rest notCode ih =>
      have none : segment.square = 0 := by
        cases segment with
        | code c => exact absurd rfl (notCode c)
        | literal _ _ => rfl
        | comment _ _ => rfl
      have inner := ih nested
      refine ⟨by simp [none], ?_⟩
      simpa [none] using inner

/-- Whether comments inside square brackets are quiet can be decided. -/
instance decidableQuietFrom (depth : Nat) : (segments : List Segment) →
    Decidable (QuietFrom depth segments)
  | [] => .isTrue trivial
  | .comment _ text :: rest =>
      have := decidableQuietFrom depth rest
      inferInstanceAs (Decidable ((0 < depth → Comment.isQuiet text) ∧ QuietFrom depth rest))
  | .code c :: rest => decidableQuietFrom (depth + (Segment.code c).square).toNat rest
  | .literal text repair :: rest =>
      decidableQuietFrom (depth + (Segment.literal text repair).square).toNat rest

namespace SquaresFrom

variable {segments : List Segment}

theorem tail {segment : Segment} (squares : SquaresFrom 0 (segment :: segments))
    (notOpen : segment ≠ .code '[') : SquaresFrom 0 segments := by
  have none : segment.square = 0 := by
    have nonneg := squares.1
    cases segment with
    | literal _ _ => rfl
    | comment _ _ => rfl
    | code c =>
        have noOpener : c ≠ '[' := fun same => notOpen (by rw [same])
        simp only [square, Bracket.step, if_neg noOpener] at nonneg ⊢
        split
        · next isCloser => simp [isCloser] at nonneg
        · rfl
  have rest := squares.2
  rwa [none] at rest

theorem right {left right : List Segment} (squares : SquaresFrom 0 (left ++ right))
    (noOpener : .code '[' ∉ left) : SquaresFrom 0 right := by
  induction left with
  | nil => exact squares
  | cons segment left ih =>
      simp only [List.mem_cons, not_or] at noOpener
      exact ih (squares.tail (Ne.symm noOpener.1)) noOpener.2

/-- A block is closed, and behind it no bracket is open. -/
theorem cutClosed {depth : Nat} (isOpen : 0 < depth) (squares : SquaresFrom depth segments) :
    ∃ inner, (Segment.cutClosed depth segments).1 = inner ++ [Segment.code ']'] ∧
      openDepthFrom depth (inner ++ [Segment.code ']']) = 0 ∧
      SquaresFrom 0 (Segment.cutClosed depth segments).2 := by
  induction segments generalizing depth with
  | nil =>
      have none : (depth : Int) = 0 := squares
      omega
  | cons segment rest ih =>
      rw [Segment.cutClosed]
      split
      · next closing =>
          obtain ⟨rfl, one⟩ := closing
          have single : depth = 1 := by omega
          subst single
          exact ⟨[], rfl, rfl, squares.2⟩
      · next goesOn =>
          obtain ⟨after, positive, counted⟩ := exists_depth_after isOpen goesOn
          have inside := squares.2
          rw [counted] at inside
          obtain ⟨inner, same, closed, more⟩ := ih positive inside
          refine ⟨segment :: inner, ?_, ?_, ?_⟩
          · rw [counted]
            exact congrArg (segment :: ·) same
          · rw [List.cons_append, openDepthFrom, counted]
            exact closed
          · rw [counted]
            exact more

theorem cutBlock (squares : SquaresFrom 0 (.code '[' :: segments)) :
    ∃ inner, (Segment.cutClosed 0 (.code '[' :: segments)).1 =
        Segment.code '[' :: inner ++ [Segment.code ']'] ∧
      openDepthFrom 0 (Segment.code '[' :: inner ++ [Segment.code ']']) = 0 ∧
      SquaresFrom 0 (Segment.cutClosed 0 (.code '[' :: segments)).2 := by
  have opened : (0 : Int) + (Segment.code '[').square = (1 : Nat) := by decide
  have inside := squares.2
  rw [opened] at inside
  obtain ⟨inner, same, closed, more⟩ := inside.cutClosed (by decide)
  rw [Segment.cutClosed_opening]
  exact ⟨inner, congrArg (Segment.code '[' :: ·) same, closed, more⟩

theorem cutUnit (state : CodeUnit.State) (squares : SquaresFrom 0 segments) :
    SquaresFrom 0 (Segment.cutUnit state segments).2 := by
  fun_induction Segment.cutUnit state segments with
  | case1 => exact squares
  | case2 => exact squares
  | case3 state form text rest _ more ih => exact ih (squares.tail (by simp))
  | case4 state text repair rest more ih => exact ih (squares.tail (by simp))
  | case5 state rest block more ih =>
      obtain ⟨-, -, -, after⟩ := squares.cutBlock
      exact ih after
  | case6 => exact squares
  | case7 state c rest notOpen _ _ => exact squares.tail (by simpa using notOpen)
  | case8 state c rest notOpen _ _ more ih => exact ih (squares.tail (by simpa using notOpen))

end SquaresFrom

theorem blocksAliases_of_mem {text : Text} (member : '[' ∈ text) :
    CloseBrace.blocksAliases text := by
  induction text with
  | nil => simp at member
  | cons c rest ih =>
      rw [CloseBrace.blocksAliases]
      rcases List.mem_cons.1 member with rfl | later
      · simp
      · simp [ih later]

theorem opener_not_mem_taken (segments : List Segment) :
    .code '[' ∉ (cutBrace segments).taken := by
  have gap : .code '[' ∉ segments.takeWhile (isCode isIndent) := by
    intro member
    have indents := List.all_eq_true.1 List.all_takeWhile _ member
    simp [isCode, isIndent] at indents
  simp only [cutBrace]
  generalize (segments.dropWhile (isCode isIndent)).takeWhile (isCode (· != ';')) = aliases
  unfold fuse
  split
  · split
    · simp [gap]
    · split
      · simp
      · next free =>
          simp only [Bool.or_eq_true, not_or] at free
          intro member
          have inAliases : .code '[' ∈ aliases := by simpa [gap] using member
          apply free.2
          apply blocksAliases_of_mem
          exact List.mem_flatMap.2 ⟨.code '[', inAliases, by simp [Segment.text]⟩
  · simp

/-- The comments of a block in square brackets are quiet. -/
theorem QuietFrom.allQuiet_cutClosed {segments : List Segment} {depth bound : Nat}
    (isOpen : 0 < depth) (le : depth ≤ bound) (quiet : QuietFrom bound segments) :
    AllQuiet (cutClosed depth segments).1 := by
  induction segments generalizing depth bound with
  | nil => simp [cutClosed, AllQuiet]
  | cons segment rest ih =>
      rw [cutClosed]
      split
      · next closing =>
          intro form text member
          simp [closing.1] at member
      · next goesOn =>
          obtain ⟨after, positive, counted⟩ := exists_depth_after isOpen goesOn
          have others := ih positive (by omega) (quietFrom_cons quiet)
          rw [← counted] at others
          intro form text member
          rcases List.mem_cons.1 member with rfl | later
          · exact quiet.1 (by omega)
          · exact others form text later

theorem QuietFrom.allQuiet_cutBlock {segments : List Segment} {bound : Nat}
    (quiet : QuietFrom bound (.code '[' :: segments)) :
    AllQuiet (cutClosed 0 (.code '[' :: segments)).1 := by
  have inside := quietFrom_cons quiet
  have inner := @allQuiet_cutClosed segments 1 _ (by decide) (by
    have step : (Segment.code '[').square = 1 := by decide
    rw [step]
    omega) inside
  rw [cutClosed_opening]
  intro form text member
  exact inner form text (by simpa using member)

end Segment

namespace Stretch

open Segment

theorem squaresFrom_cut {segment : Segment} {rest : List Segment}
    (squares : SquaresFrom 0 (segment :: rest)) : SquaresFrom 0 (cut segment rest).2 := by
  cases segment with
  | comment form text => exact squares.tail (by simp)
  | literal text repair => exact squares.cutUnit {}
  | code c =>
      unfold cut
      simp only
      split
      · next opens =>
          subst opens
          obtain ⟨-, -, -, after⟩ := squares.cutBlock
          exact after
      · next notOpen =>
          have inside : SquaresFrom 0 rest := squares.tail (by simpa using notOpen)
          split
          · exact inside
          · split
            · rw [← cutBrace_append rest] at inside
              exact inside.right (opener_not_mem_taken rest)
            · exact squares.cutUnit {}

/-- Whether a respaced unit is cut into members at commas of its code only, not at one that stands
in a comment. -/
def isUncut : Stretch → Bool
  | .codeUnit segments =>
      match Statement.normalize (spell segments) with
      | .ok text => decide (UncutFrom [.round, .angle] {} (Segment.split text))
      | .error _ => true
  | _ => true

/-- Whether no comment is cut in the units that stand in bodies of enumerations, where `before`
holds the tokens in front of the stretches, last first. -/
def uncutMembers (before : List Token) : List Stretch → Bool
  | [] => true
  | stretch :: rest =>
      (!Token.insideEnumFrom 0 before || stretch.isUncut) &&
        match Token.ofSpan before (Span.closesBody (rest.map span)) stretch.span with
        | .ok tokens => uncutMembers (tokens.reverse ++ before) rest
        | .error _ => true

end Stretch

namespace Token

open Segment Reading

/-- A token is printed on lines that say something. -/
def Tells (token : Token) (said : Text) : Prop :=
  ∀ style level lines, Layout.tokenLines style level token = .ok lines → readLines lines = some said

theorem tells_of_inline {text said : Text} (tells : TellsInline text said) {kind : Kind}
    (printed : kind = .statement ∨ kind = .declaration) : Tells { kind, text } said := by
  obtain ⟨segments, inline⟩ := tells
  intro style level lines found
  have shown : lines = [style.indent level ++ text] := by
    rcases printed with rfl | rfl <;> exact (Except.ok.inj found).symm
  rw [shown]
  apply Attribute.readLines_single
  rw [read_blanks_append (style.all_isBlank_indent level), inline.read]

theorem ofCodeUnit_tells {segments : List Segment} (lexed : Lexed segments)
    (complete : segments.all isComplete) (noMark : Mask.mark ∉ spell segments)
    {inEnum closesBody : Bool} (uncut : inEnum → (Stretch.codeUnit segments).isUncut)
    {tokens : List Token}
    (found : ofCodeUnit inEnum closesBody (spell segments) = .ok tokens) :
    Together Tells tokens (substances segments) := by
  unfold ofCodeUnit at found
  cases normalized : Statement.normalize (spell segments) with
  | error _ => rw [normalized] at found; simp [Bind.bind, Except.bind] at found
  | ok text =>
      obtain ⟨woven, inline⟩ := Statement.normalize_spell lexed complete noMark normalized
      simp only [normalized, Bind.bind, Except.bind, pure, Except.pure] at found
      have alone : Tells { kind := .statement, text } (substances segments) :=
        tells_of_inline ⟨woven, inline⟩ (.inl rfl)
      split at found
      · obtain rfl := Except.ok.inj found
        exact .single (tells_of_inline ⟨woven, inline⟩ (.inr rfl))
      · cases inEnum with
        | false =>
            obtain rfl := Except.ok.inj found
            exact .single alone
        | true =>
            rw [if_pos rfl] at found
            split at found
            · obtain rfl := Except.ok.inj found
              exact .single alone
            · obtain rfl := Except.ok.inj found
              have uncutText : UncutFrom [.round, .angle] {} (Segment.split text) := by
                simpa [Stretch.isUncut, normalized] using uncut rfl
              rw [← inline.spelled, Segment.split_spell inline.lexed] at uncutText
              have tells := EnumMember.split_tells (!closesBody) inline uncutText
              refine tells.map ?_
              intro member said tells
              exact tells_of_inline tells (.inl rfl)

/-- The lines of a comment say nothing. -/
theorem comment_tells {form : Comment.Form} {text : Text} {next : Option Char}
    (fits : (Segment.comment form text).Fits next) (complete : (Segment.comment form text).isComplete)
    {rawText : Option Text} (raw : rawText = none ∨ rawText = some text) :
    Tells { kind := .comment, text, rawText } [] := by
  intro style level lines found
  have blank := style.all_isBlank_indent level
  have said : read (.code false) text = some [] := by
    have lexed : Lexed [.comment form text] := ⟨fits.atEnd, trivial⟩
    have whole := read_spell lexed
    simpa [complete, Segment.text, substance] using whole
  simp only [Layout.tokenLines] at found
  split at found
  · next comment multiline =>
      have same : comment = text := by
        rcases raw with rfl | rfl <;> simp [multilineText?, Option.filter] at multiline
        exact multiline.2.symm
      obtain rfl := Except.ok.inj found
      apply Attribute.readLines_single
      rw [read_formatComment blank, same, said]
  · obtain rfl := Except.ok.inj found
    apply Attribute.readLines_single
    rw [read_blanks_append blank, read_trim, said]

theorem attributeBlock_tells {inner : List Segment}
    (lexed : Lexed (Segment.code '[' :: inner ++ [Segment.code ']']))
    (complete : (Segment.code '[' :: inner ++ [Segment.code ']']).all isComplete)
    (quiet : AllQuiet (Segment.code '[' :: inner ++ [Segment.code ']']))
    (closed : openDepthFrom 0 (Segment.code '[' :: inner ++ [Segment.code ']']) = 0)
    (noMark : Mask.mark ∉ spell (Segment.code '[' :: inner ++ [Segment.code ']'])) :
    Tells { kind := .attributeBlock, text := spell (Segment.code '[' :: inner ++ [Segment.code ']']) }
      (substances (Segment.code '[' :: inner ++ [Segment.code ']'])) := by
  intro style level lines found
  have completeInside : inner.all isComplete := by
    simp only [List.all_append, List.all_cons, Bool.and_eq_true] at complete
    exact complete.1.2
  have noMarkInside : Mask.mark ∉ spell inner := by
    intro member
    apply noMark
    simp [member]
  exact Attribute.readLines_formatBlock lexed completeInside quiet closed noMarkInside found

theorem braceOpen_tells : Tells { kind := .braceOpen, text := ['{'] } (substances [.code '{']) := by
  intro style level lines found
  obtain rfl := Except.ok.inj found
  apply Attribute.readLines_single
  rw [read_blanks_append (style.all_isBlank_indent level)]
  decide

theorem braceClose_tells (rest : List Segment) :
    Tells { kind := .braceClose, text := (cutBrace rest).token }
      (substances (.code '}' :: (cutBrace rest).taken)) := by
  intro style level lines found
  obtain rfl := Except.ok.inj found
  apply Attribute.readLines_single
  rw [read_blanks_append (style.all_isBlank_indent _), read_cutBrace]

end Token

namespace Stretch

open Segment Reading

/-- The tokens of a stretch say what its segments say. -/
theorem ofSpan_tells {segment : Segment} {rest : List Segment} (lexed : Lexed (segment :: rest))
    (complete : (segment :: rest).all isComplete) (squares : SquaresFrom 0 (segment :: rest))
    (quiet : QuietFrom 0 (segment :: rest)) (noMark : Mask.mark ∉ spell (segment :: rest))
    {before : List Token} {closesBody : Bool}
    (uncut : Token.insideEnumFrom 0 before → (cut segment rest).1.isUncut)
    {tokens : List Token}
    (found : Token.ofSpan before closesBody (cut segment rest).1.span = .ok tokens) :
    Together Token.Tells tokens (substances (cut segment rest).1.segments) := by
  have parts := segments_append_cut segment rest
  have lexedCut : Lexed (cut segment rest).1.segments := by
    rw [← parts] at lexed
    exact lexed.left
  have completeCut : (cut segment rest).1.segments.all isComplete := by
    rw [← parts, List.all_append, Bool.and_eq_true] at complete
    exact complete.1
  have noMarkCut : Mask.mark ∉ spell (cut segment rest).1.segments := by
    rw [← parts, spell_append] at noMark
    exact fun member => noMark (List.mem_append_left _ member)
  have unit {segments : List Segment} (same : (cut segment rest).1 = .codeUnit segments) :
      Together Token.Tells tokens (substances (cut segment rest).1.segments) := by
    rw [same] at found lexedCut completeCut noMarkCut ⊢
    rw [same] at uncut
    exact Token.ofCodeUnit_tells lexedCut completeCut noMarkCut uncut found
  cases segment with
  | comment form text =>
      have closed : (Segment.comment form text).isComplete := by
        simp only [List.all_cons, Bool.and_eq_true] at complete
        exact complete.1
      cases form with
      | line =>
          obtain rfl := Except.ok.inj found
          exact .single (Token.comment_tells lexed.1 closed (.inl rfl))
      | block =>
          obtain rfl := Except.ok.inj found
          exact .single (Token.comment_tells lexed.1 closed (.inr rfl))
  | literal text repair => exact unit rfl
  | code c =>
      by_cases opens : c = '['
      · subst opens
        have shape : (cut (.code '[') rest).1 = .attributeBlock (cutClosed 0 (.code '[' :: rest)).1 := rfl
        obtain ⟨inner, same, closed, -⟩ := squares.cutBlock
        have quietBlock := quiet.allQuiet_cutBlock
        rw [same] at quietBlock shape
        rw [shape] at found lexedCut completeCut noMarkCut ⊢
        obtain rfl := Except.ok.inj found
        exact .single (Token.attributeBlock_tells lexedCut completeCut quietBlock closed noMarkCut)
      · by_cases braceOpens : c = '{'
        · subst braceOpens
          obtain rfl := Except.ok.inj found
          exact .single Token.braceOpen_tells
        · by_cases braceCloses : c = '}'
          · subst braceCloses
            obtain rfl := Except.ok.inj found
            exact .single (Token.braceClose_tells rest)
          · have same : (cut (.code c) rest).1 = .codeUnit (cutUnit {} (.code c :: rest)).1 := by
              simp [cut, opens, braceOpens, braceCloses]
            exact unit same

/-- The tokens of all stretches say what the segments say. -/
theorem ofSpansAfter_tells {segments : List Segment} (lexed : Lexed segments)
    (complete : segments.all isComplete) (squares : SquaresFrom 0 segments)
    (quiet : QuietFrom 0 segments) (noMark : Mask.mark ∉ spell segments) {before : List Token}
    (uncut : uncutMembers before (split segments)) {tokens : List Token}
    (found : Token.ofSpansAfter before ((split segments).map span) = .ok tokens) :
    ∃ more, tokens = before.reverse ++ more ∧ Together Token.Tells more (substances segments) := by
  fun_induction split segments generalizing before with
  | case1 segments start =>
      obtain rfl := Except.ok.inj found
      refine ⟨[], by simp, ?_⟩
      rw [← substances_dropWhile, start]
      exact .nil
  | case2 segments segment rest start ih =>
      have parts := List.takeWhile_append_dropWhile (p := isCode isBlank) (l := segments)
      have blanks : .code '[' ∉ segments.takeWhile (isCode isBlank) := by
        intro member
        have blank := List.all_eq_true.1 List.all_takeWhile _ member
        revert blank
        decide
      rw [start] at parts
      rw [← parts] at lexed complete squares quiet noMark
      have lexedRest := lexed.right
      have squaresRest := squares.right blanks
      rw [List.all_append, Bool.and_eq_true] at complete
      rw [spell_append] at noMark
      have noMarkRest : Mask.mark ∉ spell (segment :: rest) := fun member =>
        noMark (List.mem_append_right _ member)
      rw [List.map_cons, Token.ofSpansAfter] at found
      cases own : Token.ofSpan before (Span.closesBody ((split (cut segment rest).2).map span))
          (cut segment rest).1.span with
      | error _ => rw [own] at found; simp [Bind.bind, Except.bind] at found
      | ok first =>
          rw [own] at found
          simp only [uncutMembers, own, Bool.and_eq_true, Bool.or_eq_true, Bool.not_eq_true'] at uncut
          have told := ofSpan_tells lexedRest complete.2 squaresRest quiet.right noMarkRest
            (fun inEnum => uncut.1.resolve_left (by simp [inEnum])) own
          have cutParts := segments_append_cut segment rest
          have later : Lexed (cut segment rest).2 := by
            rw [← cutParts] at lexedRest
            exact lexedRest.right
          have laterComplete : (cut segment rest).2.all isComplete := by
            have whole := complete.2
            rw [← cutParts, List.all_append, Bool.and_eq_true] at whole
            exact whole.2
          have laterQuiet : QuietFrom 0 (cut segment rest).2 := by
            have whole := quiet.right
            rw [← cutParts] at whole
            exact whole.right
          have laterNoMark : Mask.mark ∉ spell (cut segment rest).2 := by
            rw [← cutParts, spell_append] at noMarkRest
            exact fun member => noMarkRest (List.mem_append_right _ member)
          obtain ⟨more, same, tells⟩ := ih later laterComplete (squaresFrom_cut squaresRest) laterQuiet
            laterNoMark uncut.2 found
          refine ⟨first ++ more, by simp [same], ?_⟩
          rw [← substances_dropWhile, start, ← cutParts, substances_append]
          exact told.append tells

end Stretch

namespace Layout

open Segment Reading

/-- The lines of a document say what its tokens say; blank lines say nothing. -/
theorem readLines_linesFrom {tokens : List Token} {said : Text}
    (tells : Together Token.Tells tokens said) {style : Style} {level : Nat}
    {previous : Option Token} {lines : List Text}
    (found : linesFrom style level previous tokens = .ok lines) : readLines lines = some said := by
  induction tells generalizing level previous lines with
  | nil =>
      obtain rfl := Except.ok.inj found
      rfl
  | @cons token tokens said more own _ ih =>
      have blank (shown : Bool) : readLines (if shown then [[]] else []) = some [] := by
        cases shown <;> rfl
      rw [linesFrom] at found
      cases printed : tokenLines style level token with
      | error _ => rw [printed] at found; simp [Bind.bind, Except.bind] at found
      | ok first =>
          cases rest : linesFrom style (nextLevel level token) (some token) tokens with
          | error _ => rw [printed, rest] at found; simp [Bind.bind, Except.bind] at found
          | ok others =>
              rw [printed, rest] at found
              obtain rfl := Except.ok.inj found
              have said := readLines_append (readLines_append (readLines_append
                (blank (blankBefore level previous token)) (own style level first printed))
                (blank (tokens.head?.any (blankBetween level token)))) (ih rest)
              simpa using said

end Layout

namespace Document

open Segment Reading

/-- The segments of a document with any convention of line breaks. -/
def segments (text : Text) : List Segment :=
  Segment.split text.normalizeBreaks

/-- A document says what its text says. -/
theorem substances_of_format {text : Text} (noMark : Mask.mark ∉ text.normalizeBreaks)
    (noHash : .code '#' ∉ segments text) (complete : (segments text).all isComplete)
    (squares : SquaresFrom 0 (segments text)) (quiet : QuietFrom 0 (segments text))
    (uncut : Stretch.uncutMembers [] (Stretch.split (segments text))) {style : Style}
    {document : Text} (formatted : format style text = .ok document) :
    substances (Segment.split document) = substances (segments text) := by
  have lexed := lexed_split text.normalizeBreaks
  have spans := Stretch.split_spell lexed quiet noHash
  rw [spell_split] at spans
  rw [format, tokens, Token.ofSource, spans] at formatted
  change (Token.ofSpansAfter [] ((Stretch.split (segments text)).map Stretch.span) >>=
    Layout.format style) = .ok document at formatted
  cases found : Token.ofSpansAfter [] ((Stretch.split (segments text)).map Stretch.span) with
  | error _ => rw [found] at formatted; simp [Bind.bind, Except.bind] at formatted
  | ok tokens =>
      have noMarkSpelled : Mask.mark ∉ spell (segments text) := by
        rwa [segments, spell_split]
      obtain ⟨more, same, tells⟩ := Stretch.ofSpansAfter_tells lexed complete squares quiet
        noMarkSpelled uncut found
      obtain rfl : tokens = more := same
      rw [found] at formatted
      change Layout.format style tokens = .ok document at formatted
      rw [Layout.format] at formatted
      cases printed : Layout.linesFrom style 0 none tokens with
      | error _ => rw [printed] at formatted; simp [Bind.bind, Except.bind] at formatted
      | ok lines =>
          rw [printed] at formatted
          obtain rfl := Except.ok.inj formatted
          have said : read (.code false) (finalize (Text.joinLines lines)) =
              some (substances (segments text)) := by
            rw [read_finalize, read_joinLines (Layout.readLines_linesFrom tells printed)]
            rfl
          exact (read_eq_some_iff.1 said).2

theorem mem_segments {text : Text} {c : Char} (member : .code c ∈ segments text) :
    c = '\n' ∨ c ∈ text := by
  apply Text.mem_of_mem_normalizeBreaks
  rw [← spell_split text.normalizeBreaks]
  exact List.mem_flatMap.2 ⟨.code c, member, List.mem_singleton_self c⟩

/-- Comments stay comments and code stays code: without comments, blanks, commas and semicolons a
document reads like its text, if the text is free of placeholder marks and directives, its literals
and comments are closed, its brackets nest, the comments inside square brackets are quiet, and those
of enumerations are not cut. Formatting gives a document for every text of fewer than `10 ^ 4299`
characters. -/
theorem substances_format {text : Text} (noMark : Mask.mark ∉ text) (noHash : '#' ∉ text)
    (complete : (segments text).all isComplete) (nested : nestsFrom [] (segments text))
    (quiet : QuietFrom 0 (segments text))
    (uncut : Stretch.uncutMembers [] (Stretch.split (segments text))) (style : Style) :
    (∀ document, format style text = .ok document →
      substances (Segment.split document) = substances (segments text)) ∧
      (4 * text.length ≤ 10 ^ Numeral.digitLimit →
        ∃ document, format style text = .ok document ∧
          substances (Segment.split document) = substances (segments text)) := by
  have clean : Mask.mark ∉ text.normalizeBreaks := by
    intro member
    rcases Text.mem_of_mem_normalizeBreaks member with isBreak | inside
    · revert isBreak
      decide
    · exact noMark inside
  have noDirective : .code '#' ∉ segments text := by
    intro member
    rcases mem_segments member with isBreak | inside
    · revert isBreak
      decide
    · exact noHash inside
  have same {document : Text} (formatted : format style text = .ok document) :
      substances (Segment.split document) = substances (segments text) :=
    substances_of_format clean noDirective complete (squaresFrom_of_nestsFrom nested) quiet uncut
      formatted
  refine ⟨fun document => same, ?_⟩
  intro short
  obtain ⟨document, found, -⟩ := (format_settles noMark style).exists_ok short
  exact ⟨document, found, same found⟩

/-- An attribute block and an enumeration with comments in brackets. -/
theorem substances_format_enum :
    nestsFrom [] (segments "[a /* b */, c(\"x,y\")] // d\nenum E \x7b A = (1 /* e */), B \x7d;".toList) ∧
      ∃ document, format {} "[a /* b */, c(\"x,y\")] // d\nenum E \x7b A = (1 /* e */), B \x7d;".toList =
          .ok document ∧
        substances (Segment.split document) = "[ac(\"x,y\")]enumE\x7bA=(1)B\x7d".toList := by
  have small : 4 * "[a /* b */, c(\"x,y\")] // d\nenum E \x7b A = (1 /* e */), B \x7d;".toList.length ≤
      10 ^ Numeral.digitLimit :=
    Nat.le_trans (by decide : _ ≤ 10 ^ 3) (Nat.pow_le_pow_right (by decide) (by decide))
  have nested : nestsFrom []
      (segments "[a /* b */, c(\"x,y\")] // d\nenum E \x7b A = (1 /* e */), B \x7d;".toList) := by
    decide +kernel
  obtain ⟨document, found, same⟩ := (substances_format (by decide) (by decide) (by decide +kernel) nested
    (by decide +kernel) (by decide +kernel) {}).2 small
  exact ⟨nested, document, found, same.trans (by decide +kernel)⟩

/-- No comment inside square brackets may hold any of the five characters: each of them can turn a
comment into code or leave a bracket too many. -/
theorem exists_not_substances_format :
    ∀ c ∈ [',', '"', '\'', '[', ']'],
      ∃ text ∈ ["[/*".toList ++ [c] ++ "*/]".toList, "[//".toList ++ [c] ++ "x\n]".toList],
        (segments text).all isComplete ∧ nestsFrom [] (segments text) ∧
          ∃ document, format {} text = .ok document ∧
            substances (Segment.split document) ≠ substances (segments text) := by
  have gives {text document : Text} (same : (format {} text).toOption = some document) :
      format {} text = .ok document := by
    cases found : format {} text with
    | ok other =>
        rw [found] at same
        rw [Option.some.inj same]
    | error _ => simp [found, Except.toOption] at same
  intro c member
  simp only [List.mem_cons, List.not_mem_nil, or_false] at member
  rcases member with rfl | rfl | rfl | rfl | rfl
  · exact ⟨"[//,x\n]".toList, by simp, by decide +kernel, by decide +kernel,
      "[\n    /* */,\n    x\n]\n".toList, gives (by decide +kernel), by decide +kernel⟩
  · exact ⟨"[/*\"*/]".toList, by simp, by decide +kernel, by decide +kernel,
      "[/*\"*/]]\n".toList, gives (by decide +kernel), by decide +kernel⟩
  · exact ⟨"[/*'*/]".toList, by simp, by decide +kernel, by decide +kernel,
      "[/*'*/]]\n".toList, gives (by decide +kernel), by decide +kernel⟩
  · exact ⟨"[/*[*/]".toList, by simp, by decide +kernel, by decide +kernel,
      "[/*[*/]]\n".toList, gives (by decide +kernel), by decide +kernel⟩
  · exact ⟨"[//]x\n]".toList, by simp, by decide +kernel, by decide +kernel,
      "[/* */]\nx ]\n".toList, gives (by decide +kernel), by decide +kernel⟩

end Document

end IdlFormat
