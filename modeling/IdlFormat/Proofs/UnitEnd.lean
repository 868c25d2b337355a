import IdlFormat.Proofs.CanonicalSpacing
import IdlFormat.Proofs.Indentation
import IdlFormat.Proofs.Tiling
import IdlFormat.Proofs.Tracking

/-!
# The end of a unit

A unit that ends at a semicolon ends there whatever follows: `CodeUnit.Terminated` says so of its
text alone, with one rule for each step of the scan. Respacing changes the blanks that the scan
passes and puts back the literals closed, so the scan takes other steps; what stays is the brackets
that are open at each character of code. They are counted along the skeleton (`Nesting.step?`), which
respacing changes at its blanks only, and the counts tell where the unit ends
(`CodeUnit.Terminated.nested`, `CodeUnit.terminated_of_nested`).

Line breaks have no say in this, as they matter to the scan only before a `#`, and a respaced text
has none outside of its literals.
-/

namespace IdlFormat

namespace Literal

/-- A literal that does not reach to the end of the text ends where it does whatever follows. -/
theorem scan_append_of_rest {quote : Char} (quoted : isQuote quote) {text : Text}
    (filled : (scan quote false text).rest ≠ []) (more : Text) :
    scan quote false (text ++ more) =
      ⟨(scan quote false text).body, (scan quote false text).rest ++ more,
        (scan quote false text).repair⟩ := by
  have stops := stops_scan quote false text
  have whole := scan_body quote false text
  have parts := body_append_rest quote false text
  rw [← List.head?_append_of_ne_nil _ filled] at stops
  have longer := scan_append quoted whole stops
  rwa [← List.append_assoc, parts] at longer

end Literal

namespace Comment

theorem form?_append_eq_none {c : Char} {rest : Text} (noComment : form? (c :: rest) = none)
    (filled : rest ≠ []) (more : Text) : form? (c :: (rest ++ more)) = none := by
  rwa [form?_cons_eq_none_iff, List.head?_append_of_ne_nil _ filled, ← form?_cons_eq_none_iff]

theorem fits_cut {form : Form} {text : Text} (opens : form? text = some form) :
    (Segment.comment form (cut form text).1).Fits (cut form text).2.head? := by
  have lexed := Segment.lexed_split text
  rw [Segment.split_of_comment opens] at lexed
  have fits := lexed.1
  rwa [Segment.spell_split] at fits

/-- A comment that does not reach to the end of the text ends where it does whatever follows. -/
theorem cut_append_of_rest {form : Form} {text : Text} (opens : form? text = some form)
    (filled : (cut form text).2 ≠ []) (more : Text) :
    form? (text ++ more) = some form ∧
      cut form (text ++ more) = ((cut form text).1, (cut form text).2 ++ more) := by
  have fits := fits_cut opens
  rw [← List.head?_append_of_ne_nil _ filled] at fits
  have found := fits.form?_comment ((cut form text).2 ++ more)
  have longer := fits.cut_comment
  rw [← List.append_assoc, cut_append] at found longer
  exact ⟨found, longer⟩

end Comment

namespace Bracket

/-- A block that does not reach to the end of the text ends where it does whatever follows. -/
theorem cutClosed_append_of_rest {state : Literal.State} {depth : Int} {text : Text}
    (filled : (cutClosed state depth text).2 ≠ []) (more : Text) :
    cutClosed state depth (text ++ more) =
      ((cutClosed state depth text).1, (cutClosed state depth text).2 ++ more) := by
  fun_induction cutClosed state depth text with
  | case1 => exact absurd rfl filled
  | case2 state depth c rest visible closes =>
      simp [cutClosed, visible, closes]
  | case3 state depth c rest visible goesOn deeper taken after found ih =>
      rw [found] at ih
      have longer := ih filled
      rw [List.cons_append, cutClosed]
      simp only [visible, deeper] at goesOn longer ⊢
      rw [if_neg goesOn, longer]

theorem cutBlock_append_of_rest {text : Text} (filled : (cutBlock text).2 ≠ []) (more : Text) :
    cutBlock (text ++ more) = ((cutBlock text).1, (cutBlock text).2 ++ more) :=
  cutClosed_append_of_rest filled more

theorem cutBlock_append (text : Text) : (cutBlock text).1 ++ (cutBlock text).2 = text :=
  cutClosed_append .outside 0 text

end Bracket

namespace CodeUnit

/-- The rest of a unit ends at a semicolon, the last character of a text, where no bracket is
open. -/
inductive Terminated : State → Text → Prop
  /-- The semicolon. -/
  | semicolon {state : State} (top : state.isTop) : Terminated state [';']
  /-- A literal is passed over. -/
  | literal {state : State} {c : Char} {rest : Text} (quoted : isQuote c)
      (later : Terminated state.skip (Literal.scan c false rest).rest) :
      Terminated state (c :: rest)
  /-- A block in square brackets is passed over. -/
  | block {state : State} {rest : Text}
      (later : Terminated state.skip (Bracket.cutBlock ('[' :: rest)).2) :
      Terminated state ('[' :: rest)
  /-- A comment is passed over where a bracket is open. -/
  | comment {state : State} {text : Text} {form : Comment.Form}
      (opens : Comment.form? text = some form) (deep : state.isTop = false)
      (later : Terminated state.skip (Comment.cut form text).2) : Terminated state text
  /-- A character of code that ends no unit. -/
  | code {state : State} {c : Char} {rest : Text} (noComment : Comment.form? (c :: rest) = none)
      (unquoted : isQuote c = false) (notOpen : c ≠ '[') (goesOn : state.stopsBefore c = false)
      (inner : (state.isTop && c = ';') = false) (later : Terminated (state.next c) rest) :
      Terminated state (c :: rest)

variable {state : State} {text : Text}

theorem Terminated.ne_nil (terminated : Terminated state text) : text ≠ [] := by
  cases terminated with
  | comment opens =>
      rintro rfl
      simp [Comment.form?] at opens
  | _ => exact List.cons_ne_nil _ _

/-- Whatever follows a terminated unit, the unit is cut off whole. -/
theorem Terminated.cutFrom_append (terminated : Terminated state text) (more : Text) :
    cutFrom state (text ++ more) = (text, more) := by
  induction terminated with
  | @semicolon state top =>
      have noComment : Comment.form? (';' :: more) = none := rfl
      have goesOn : state.stopsBefore ';' = false := by simp [State.stopsBefore]
      rw [List.singleton_append, cutFrom_code noComment (by decide)]
      simp [goesOn, top]
  | @literal state c rest quoted later ih =>
      have scanned := Literal.scan_append_of_rest quoted later.ne_nil more
      have noComment := Comment.form?_of_isQuote quoted (rest ++ more)
      rw [List.cons_append, cutFrom]
      split
      · next form opens => simp [noComment] at opens
      · simp only [quoted, if_true, scanned, ih]
        rw [List.cons_append, Literal.body_append_rest]
  | @block state rest later ih =>
      have cut := Bracket.cutBlock_append_of_rest later.ne_nil more
      have noComment : Comment.form? ('[' :: (rest ++ more)) = none := rfl
      rw [List.cons_append, cutFrom_code noComment (by decide), if_pos rfl, ← List.cons_append, cut]
      simp only [ih]
      rw [Bracket.cutBlock_append]
  | @comment state text form opens deep later ih =>
      obtain ⟨found, cut⟩ := Comment.cut_append_of_rest opens later.ne_nil more
      rw [cutFrom]
      split
      · next other opensToo =>
          obtain rfl : form = other := by simpa [found] using opensToo
          simp only [deep, Bool.false_eq_true, if_false, cut, ih]
          rw [Comment.cut_append]
      · next none => simp [found] at none
  | @code state c rest noComment unquoted notOpen goesOn inner later ih =>
      have noCommentToo := Comment.form?_append_eq_none noComment later.ne_nil more
      rw [List.cons_append, cutFrom_code noCommentToo unquoted, if_neg notOpen, ih]
      simp [goesOn, inner]

/-- No comment begins where a terminated unit does. -/
theorem Terminated.form?_append (terminated : Terminated state text) (top : state.isTop)
    (more : Text) : Comment.form? (text ++ more) = none := by
  cases terminated with
  | semicolon => rfl
  | literal quoted => exact Comment.form?_of_isQuote quoted _
  | block => rfl
  | comment _ deep => simp [top] at deep
  | code noComment _ _ _ _ later =>
      exact Comment.form?_append_eq_none noComment later.ne_nil more

/-- The brackets that are open at a point inside a unit. -/
structure Nesting where
  /-- The parentheses opened less those closed. -/
  parens : Int := 0
  /-- The angle brackets opened less those closed. -/
  angles : Int := 0
  /-- The square brackets of the block around the point, none outside of blocks. -/
  squares : Nat := 0
deriving DecidableEq, Repr

/-- The brackets that are open at a state of the scan. -/
def State.nesting (state : State) (squares : Nat) : Nesting :=
  ⟨state.parens, state.angles, squares⟩

/-- The brackets that are open after a character of code, or none if the unit ends there. -/
def Nesting.step? (nesting : Nesting) (c : Char) : Option Nesting :=
  let state : State := ⟨nesting.parens, nesting.angles, false⟩
  if nesting.squares ≠ 0 then
    some { nesting with squares := (nesting.squares + Bracket.step c).toNat }
  else if c = '[' then some { nesting with squares := 1 }
  else if state.isTop ∧ (c = '{' ∨ c = '}' ∨ c = ';') then none
  else some ((state.next c).nesting 0)

namespace Nesting

theorem step?_of_other {c : Char} (other : c ∉ ['[', ']', '{', '}', ';', '(', ')', '<', '>'])
    (nesting : Nesting) : nesting.step? c = some nesting := by
  simp only [List.mem_cons, List.not_mem_nil, or_false, not_or] at other
  simp [step?, State.nesting, State.next, Bracket.step, other]
  exact Eq.symm

theorem step?_of_isBlank {c : Char} (blank : isBlank c) (nesting : Nesting) :
    nesting.step? c = some nesting := by
  apply step?_of_other
  intro member
  have solid : ['[', ']', '{', '}', ';', '(', ')', '<', '>'].all (!isBlank ·) := by decide
  have notBlank := List.all_eq_true.1 solid c member
  simp [blank] at notBlank

theorem step?_mark (nesting : Nesting) : nesting.step? Mask.mark = some nesting :=
  step?_of_other (by decide) nesting

/-- Blanks leave the brackets alone. -/
theorem foldlM_step?_compact (nesting : Nesting) (text : Text) :
    text.compact.foldlM step? nesting = text.foldlM step? nesting :=
  Text.foldlM_compact step?_of_isBlank nesting text

theorem step?_inside (parens angles : Int) (depth : Nat) (c : Char) :
    step? ⟨parens, angles, depth + 1⟩ c =
      some ⟨parens, angles, ((depth + 1 : Nat) + Bracket.step c).toNat⟩ := by
  simp [step?]

theorem step?_opening (state : State) : (state.nesting 0).step? '[' = some (state.nesting 1) := by
  simp [step?, State.nesting]

/-- A character of code outside of blocks ends the unit or is counted. -/
theorem step?_nesting {c : Char} (notOpen : c ≠ '[') (state : State) :
    (state.nesting 0).step? c =
      if state.isTop ∧ (c = '{' ∨ c = '}' ∨ c = ';') then none
      else some ((state.next c).nesting 0) := by
  have top : State.isTop ⟨state.parens, state.angles, false⟩ = state.isTop := rfl
  simp only [step?, State.nesting, notOpen, top]
  rfl

theorem step?_of_ends {state : State} {c : Char} (notOpen : c ≠ '[') (top : state.isTop)
    (ends : c = '{' ∨ c = '}' ∨ c = ';') : (state.nesting 0).step? c = none := by
  rw [step?_nesting notOpen, if_pos ⟨top, ends⟩]

theorem step?_of_goesOn {state : State} {c : Char} (notOpen : c ≠ '[')
    (goesOn : state.stopsBefore c = false) (inner : (state.isTop && c = ';') = false) :
    (state.nesting 0).step? c = some ((state.next c).nesting 0) := by
  rw [step?_nesting notOpen, if_neg]
  rintro ⟨top, brace | brace | semicolon⟩
  · simp [State.stopsBefore, top, brace] at goesOn
  · simp [State.stopsBefore, top, brace] at goesOn
  · simp [top, semicolon] at inner

/-- The brackets that are open behind segments, or none if the unit ends in them. -/
def after? (nesting : Nesting) (segments : List Segment) : Option Nesting :=
  (Segment.skeleton segments).foldlM step? nesting

theorem after?_code (nesting : Nesting) (c : Char) (rest : List Segment) :
    nesting.after? (.code c :: rest) = (nesting.step? c).bind (·.after? rest) := rfl

theorem after?_literal (nesting : Nesting) (text repair : Text) (rest : List Segment) :
    nesting.after? (.literal text repair :: rest) = nesting.after? rest := by
  show (nesting.step? Mask.mark).bind (·.after? rest) = nesting.after? rest
  rw [step?_mark]
  rfl

theorem after?_append (nesting : Nesting) (left right : List Segment) :
    nesting.after? (left ++ right) = (nesting.after? left).bind (·.after? right) := by
  rw [after?, Segment.skeleton_append, List.foldlM_append]
  rfl

end Nesting

end CodeUnit

namespace Segment

open CodeUnit (Nesting State)

/-- From inside a block either the bracket that closes it is reached, or the block stays open. -/
theorem cutClosed_cases (parens angles : Int) (depth : Nat) (segments : List Segment) :
    (∃ inner rest, cutClosed (depth + 1 : Nat) segments = (inner ++ [Segment.code ']'], rest) ∧
      Nesting.after? ⟨parens, angles, depth + 1⟩ (inner ++ [Segment.code ']']) =
        some ⟨parens, angles, 0⟩) ∨
      (cutClosed (depth + 1 : Nat) segments).2 = [] ∧
        ∀ first later, segments = first ++ later → ∃ deeper,
          Nesting.after? ⟨parens, angles, depth + 1⟩ first =
            some ⟨parens, angles, deeper + 1⟩ := by
  induction segments generalizing depth with
  | nil =>
      refine .inr ⟨rfl, fun first later parts => ⟨depth, ?_⟩⟩
      obtain ⟨rfl, -⟩ := List.nil_eq_append_iff.1 parts
      rfl
  | cons segment rest ih =>
      rw [cutClosed]
      split
      · next closes =>
          obtain ⟨rfl, last⟩ := closes
          obtain rfl : depth = 0 := by omega
          exact .inl ⟨[], rest, rfl, rfl⟩
      · next goesOn =>
          obtain ⟨c, same, counted, -⟩ := exists_skeleton_cons segment
          obtain ⟨after, positive, stays⟩ := exists_depth_after (Nat.succ_pos depth) goesOn
          obtain ⟨after, rfl⟩ := Nat.exists_eq_add_one.2 positive
          have counts (more : List Segment) :
              Nesting.after? ⟨parens, angles, depth + 1⟩ (segment :: more) =
                Nesting.after? ⟨parens, angles, after + 1⟩ more := by
            rw [Nesting.after?, same, List.foldlM_cons, Nesting.step?_inside, counted, stays]
            rfl
          rw [stays]
          rcases ih after with ⟨inner, later, taken, nested⟩ | ⟨untaken, unclosed⟩
          · refine .inl ⟨segment :: inner, later, by rw [taken]; rfl, ?_⟩
            rw [List.cons_append, counts, nested]
          · refine .inr ⟨untaken, fun first later parts => ?_⟩
            cases first with
            | nil => exact ⟨depth, rfl⟩
            | cons head first =>
                simp only [List.cons_append, List.cons.injEq] at parts
                obtain ⟨rfl, parts⟩ := parts
                obtain ⟨deeper, nested⟩ := unclosed first later parts
                exact ⟨deeper, (counts first).trans nested⟩

/-- A block is closed and leaves no brackets of its own behind, or it stays open. -/
theorem cutBlock_cases (state : State) (rest : List Segment) :
    (∃ inner later, cutClosed 0 (.code '[' :: rest) = (inner ++ [Segment.code ']'], later) ∧
      (state.nesting 0).after? (inner ++ [Segment.code ']']) = some (state.nesting 0)) ∨
      (cutClosed 0 (.code '[' :: rest)).2 = [] ∧
        ∀ first later, rest = first ++ later → ∃ deeper,
          (state.nesting 0).after? (.code '[' :: first) = some (state.nesting (deeper + 1)) := by
  have counts (more : List Segment) : (state.nesting 0).after? (.code '[' :: more) =
      (state.nesting 1).after? more := by
    rw [Nesting.after?_code, Nesting.step?_opening]
    rfl
  rw [cutClosed_opening]
  rcases cutClosed_cases state.parens state.angles 0 rest with
    ⟨inner, later, taken, nested⟩ | ⟨untaken, unclosed⟩
  · exact .inl ⟨.code '[' :: inner, later, by rw [taken]; rfl, (counts _).trans nested⟩
  · refine .inr ⟨untaken, fun first later parts => ?_⟩
    obtain ⟨deeper, nested⟩ := unclosed first later parts
    exact ⟨deeper, (counts first).trans nested⟩

/-- A block is closed before the end of a unit at which no bracket is open. -/
theorem exists_closed_block {state : State} {body : List Segment}
    (nested : (state.nesting 0).after? (.code '[' :: body) = some {}) :
    ∃ block after, .code '[' :: body = block ++ after ∧
      cutClosed 0 (.code '[' :: (body ++ [Segment.code ';'])) =
        (block, after ++ [Segment.code ';']) ∧
      (state.nesting 0).after? after = some {} := by
  have parts := cutClosed_append 0 (.code '[' :: (body ++ [Segment.code ';']))
  rcases cutBlock_cases state (body ++ [Segment.code ';']) with
    ⟨inner, after, taken, left⟩ | ⟨-, unclosed⟩
  · rw [taken] at parts
    simp only [← List.cons_append] at parts
    rcases List.eq_nil_or_concat after with rfl | ⟨following, last, rfl⟩
    · rw [List.append_nil] at parts
      exact absurd (List.append_inj' parts rfl).2 (by simp)
    · rw [List.concat_eq_append, ← List.append_assoc] at parts
      obtain ⟨same, ends⟩ := List.append_inj' parts rfl
      obtain rfl := (List.cons.inj ends).1
      rw [← same, Nesting.after?_append, left] at nested
      rw [taken, List.concat_eq_append]
      exact ⟨inner ++ [Segment.code ']'], following, same.symm, rfl, nested⟩
  · obtain ⟨deeper, left⟩ := unclosed body _ rfl
    rw [nested] at left
    simp [State.nesting] at left

end Segment

namespace CodeUnit

open Segment (Lexed Bare skeleton spell)

theorem State.isTop_iff {state : State} : state.isTop ↔ state.nesting 0 = {} := by
  simp [State.isTop, State.nesting]

/-- The scan of a terminated unit without comments ends where no bracket is open. -/
theorem Terminated.nested {state : State} {text : Text} (terminated : Terminated state text)
    (bare : Bare (Segment.split text)) :
    ∃ body, Segment.split text = body ++ [Segment.code ';'] ∧
      (state.nesting 0).after? body = some {} := by
  induction terminated with
  | @semicolon state top =>
      refine ⟨[], by decide +kernel, ?_⟩
      rw [State.isTop_iff.1 top]
      rfl
  | @literal state c rest quoted later ih =>
      rw [Segment.split_of_quote quoted] at bare ⊢
      obtain ⟨body, parts, nested⟩ := ih (bare.of_subset (List.subset_cons_self _ _))
      exact ⟨_ :: body, by rw [parts]; rfl, (Nesting.after?_literal _ _ _ _).trans nested⟩
  | @block state rest later ih =>
      have noComment : Comment.form? ('[' :: rest) = none := rfl
      have lexed := Segment.lexed_split ('[' :: rest)
      rw [Segment.split_of_code noComment (by decide)] at bare lexed ⊢
      have cut := Segment.cutBlock_spell lexed.2 (bare.allQuiet.quietFrom 0)
      have parts := Segment.cutClosed_append 0 (.code '[' :: Segment.split rest)
      rcases Segment.cutBlock_cases state (Segment.split rest) with
        ⟨inner, after, taken, nested⟩ | ⟨untaken, -⟩
      · rw [taken] at cut parts
        rw [Segment.spell_cons, Segment.spell_split] at cut
        simp only [← parts] at bare lexed ⊢
        have same : (Bracket.cutBlock ('[' :: rest)).2 = spell after := congrArg Prod.snd cut
        rw [same, Segment.split_spell lexed.right] at ih
        obtain ⟨body, following, closed⟩ := ih (bare.of_subset (List.subset_append_right _ _))
        refine ⟨inner ++ [Segment.code ']'] ++ body, by simp [following], ?_⟩
        rw [Nesting.after?_append, nested]
        exact closed
      · rw [untaken, Segment.spell_cons, Segment.spell_split] at cut
        exact absurd (congrArg Prod.snd cut) later.ne_nil
  | @comment state text form opens deep later ih =>
      rw [Segment.split_of_comment opens] at bare
      exact absurd List.mem_cons_self (bare form _)
  | @code state c rest noComment unquoted notOpen goesOn inner later ih =>
      rw [Segment.split_of_code noComment unquoted] at bare ⊢
      obtain ⟨body, parts, nested⟩ := ih (bare.of_subset (List.subset_cons_self _ _))
      refine ⟨.code c :: body, by rw [parts]; rfl, ?_⟩
      rw [Nesting.after?_code, Nesting.step?_of_goesOn notOpen goesOn inner]
      exact nested

/-- Segments without comments and line breaks are terminated by the semicolon at their end, if that
is where no bracket is open. -/
theorem terminated_of_nested {state : State} {segments : List Segment} (lexed : Lexed segments)
    (bare : Bare segments) (fresh : state.atLineStart = false)
    (ended : ∃ body, segments = body ++ [Segment.code ';'] ∧
      (state.nesting 0).after? body = some {} ∧ '\n' ∉ skeleton body) : Terminated state (spell segments) := by
  -- the recursion is that of the scan, as what follows a block is no immediate part of the segments
  fun_induction Segment.cutUnit state segments with
  | case1 state => simp at ended
  | case2 state form text rest top => exact absurd List.mem_cons_self (bare form text)
  | case3 state form text rest deep more ih => exact absurd List.mem_cons_self (bare form text)
  | case4 state text repair rest more ih =>
      obtain ⟨body, parts, nested, inLine⟩ := ended
      rcases List.cons_eq_append_iff.1 parts with ⟨-, single⟩ | ⟨body, rfl, following⟩
      · simp at single
      · obtain ⟨quote, inner, rfl, quoted, -, scanned⟩ := lexed.1.scan_literal
        rw [Nesting.after?_literal] at nested
        have later := ih lexed.2 (bare.of_subset (List.subset_cons_self _ _)) rfl
          ⟨body, following, nested, fun member => inLine (List.mem_cons_of_mem _ member)⟩
        have passed : (Literal.scan quote false (inner ++ spell rest)).rest = spell rest := by
          rw [scanned]
        rw [← passed] at later
        exact .literal quoted later
  | case5 state rest block more ih =>
      obtain ⟨body, parts, nested, inLine⟩ := ended
      rcases List.cons_eq_append_iff.1 parts with ⟨-, single⟩ | ⟨body, rfl, rfl⟩
      · simp at single
      · have cut := Segment.cutBlock_spell lexed.2 (bare.allQuiet.quietFrom 0)
        obtain ⟨inner, after, same, taken, left⟩ := Segment.exists_closed_block nested
        simp only [block, taken] at ih
        rw [taken] at cut
        rw [← List.cons_append, same, List.append_assoc] at lexed bare
        rw [same, Segment.skeleton_append, List.mem_append, not_or] at inLine
        have followed : (Bracket.cutBlock ('[' :: spell (body ++ [Segment.code ';']))).2 =
            spell (after ++ [Segment.code ';']) :=
          congrArg Prod.snd cut
        have later := ih lexed.right (bare.of_subset (List.subset_append_right _ _)) rfl
          ⟨after, rfl, left, inLine.2⟩
        rw [← followed] at later
        exact .block later
  | case6 state c rest notOpen stops =>
      obtain ⟨body, parts, nested, -⟩ := ended
      have braces : state.isTop ∧ (c = '{' ∨ c = '}') := by
        simpa [State.stopsBefore, fresh] using stops
      rcases List.cons_eq_append_iff.1 parts with ⟨-, single⟩ | ⟨body, rfl, -⟩
      · obtain ⟨rfl, -⟩ : ';' = c ∧ [] = rest := by simpa using single
        simp at braces
      · rw [Nesting.after?_code,
          Nesting.step?_of_ends notOpen braces.1 (braces.2.imp_right .inl)] at nested
        simp at nested
  | case7 state c rest notOpen goesOn ends =>
      obtain ⟨body, parts, nested, -⟩ := ended
      simp only [Bool.and_eq_true, decide_eq_true_eq] at ends
      obtain ⟨top, rfl⟩ := ends
      rcases List.cons_eq_append_iff.1 parts with ⟨-, single⟩ | ⟨body, rfl, -⟩
      · obtain rfl := (List.cons.inj single).2
        exact .semicolon top
      · rw [Nesting.after?_code, Nesting.step?_of_ends notOpen top (.inr (.inr rfl))] at nested
        simp at nested
  | case8 state c rest notOpen goesOn notEnd more ih =>
      obtain ⟨body, parts, nested, inLine⟩ := ended
      rcases List.cons_eq_append_iff.1 parts with ⟨rfl, single⟩ | ⟨body, rfl, following⟩
      · obtain ⟨rfl, -⟩ : ';' = c ∧ [] = rest := by simpa using single
        have top := State.isTop_iff.2 (Option.some.inj nested)
        simp [top] at notEnd
      · have notBreak : c ≠ '\n' := fun isBreak => inLine (by simp [isBreak, skeleton])
        simp only [Bool.not_eq_true] at goesOn notEnd
        rw [Nesting.after?_code, Nesting.step?_of_goesOn notOpen goesOn notEnd] at nested
        have later := ih lexed.2 (bare.of_subset (List.subset_cons_self _ _))
          (by simp [State.next, fresh, notBreak])
          ⟨body, following, nested, fun member => inLine (List.mem_cons_of_mem _ member)⟩
        exact .code lexed.1.form?_code lexed.1.1 notOpen goesOn notEnd later

end CodeUnit

/-- The last character of a trimmed text is the last that is not blank. -/
theorem Text.exists_concat_of_compact {text front : Text} {c : Char} (trimmed : text.trim = text)
    (same : text.compact = front ++ [c]) :
    ∃ first : Text, first.compact = front ∧ text = first ++ [c] := by
  rcases List.eq_nil_or_concat text with rfl | ⟨first, last, rfl⟩
  · simp [Text.compact] at same
  · rw [List.concat_eq_append] at trimmed same ⊢
    have ended : (Text.trim (first ++ [last])).getLast? = some last := by
      rw [trimmed, List.getLast?_concat]
    have solid := Text.isBlank_getLast_trimEnd ended
    have single : Text.compact [last] = [last] := by simp [Text.compact, solid]
    rw [Text.compact_append, single] at same
    obtain ⟨sameFront, sameLast⟩ := List.append_inj' same rfl
    exact ⟨first, sameFront, by rw [sameLast]⟩

theorem Segment.exists_concat_of_skeleton {segments : List Segment} {front : Text} {c : Char}
    (same : skeleton segments = front ++ [c]) (shown : c ≠ Mask.mark) :
    ∃ body, segments = body ++ [Segment.code c] ∧ skeleton body = front := by
  rcases List.eq_nil_or_concat segments with rfl | ⟨body, last, rfl⟩
  · simp [skeleton] at same
  · rw [List.concat_eq_append, skeleton_append] at same
    obtain ⟨d, single, -, isCode⟩ := exists_skeleton_cons last
    obtain ⟨sameFront, sameLast⟩ := List.append_inj' same (by rw [single]; rfl)
    rw [single] at sameLast
    have isLast := (isCode c shown).1 (List.cons.inj sameLast).1
    exact ⟨body, by rw [isLast, List.concat_eq_append], sameFront⟩

namespace Mask.Respacing

variable {respace : Text → Text} {text result : Text}

/-- A respaced text is read as the respaced code with the hidden segments put back. -/
theorem split_unmask (respacing : Respacing respace) (noMark : mark ∉ text)
    (restored : unmask (mask text).saved (respace (mask text).text) = .ok result) :
    Segment.split result =
      Segment.weave (Segment.hiddenSegments (Segment.split text))
        (respace (Segment.skeleton (Segment.split text))) := by
  have settles := unmask_respaced respacing.fill respacing.compact noMark
  rw [restored] at settles
  obtain rfl : result = _ := settles
  exact respacing.split_insert (Segment.lexed_split text) fun c => code_ne_mark noMark

theorem skeleton_split_unmask (respacing : Respacing respace) (noMark : mark ∉ text)
    (restored : unmask (mask text).saved (respace (mask text).text) = .ok result) :
    Segment.skeleton (Segment.split result) = respace (Segment.skeleton (Segment.split text)) := by
  rw [respacing.split_unmask noMark restored,
    Segment.skeleton_weave fun _ => Segment.ne_code_of_mem_hiddenSegments]

/-- No comments are made. -/
theorem bare_split_unmask (respacing : Respacing respace) (noMark : mark ∉ text)
    (bare : Segment.Bare (Segment.split text))
    (restored : unmask (mask text).saved (respace (mask text).text) = .ok result) :
    Segment.Bare (Segment.split result) := by
  intro form body member
  rw [respacing.split_unmask noMark restored] at member
  rcases Segment.mem_weave member with hidden | ⟨c, -, same⟩
  · obtain ⟨source, inside, -, same⟩ := Segment.exists_of_mem_hiddenSegments hidden
    cases source with
    | code c => simp [Segment.inlined] at same
    | literal quoted repair => simp [Segment.inlined] at same
    | comment other inner => exact bare other inner inside
  · cases same

end Mask.Respacing

namespace CodeUnit

open Segment (Bare skeleton spell)

variable {unit result : Text}

/-- A normalized unit is terminated if the unit is. -/
theorem Terminated.normalize (terminated : Terminated {} unit) (noMark : Mask.mark ∉ unit)
    (bare : Bare (Segment.split unit)) (normalized : Statement.normalize unit = .ok result) :
    Terminated {} result := by
  obtain ⟨body, parts, nested⟩ := terminated.nested bare
  have shown := Statement.respacing.skeleton_split_unmask noMark normalized
  have bareToo := Statement.respacing.bare_split_unmask noMark bare normalized
  have canonical := Statement.canonical_respace (skeleton (Segment.split unit))
  have same := Statement.compact_respace (skeleton (Segment.split unit))
  rw [← shown] at canonical same
  have semicolon :
      (skeleton (body ++ [Segment.code ';'])).compact = (skeleton body).compact ++ [';'] := by
    rw [Segment.skeleton_append, Text.compact_append]
    rfl
  rw [parts, semicolon] at same
  obtain ⟨front, last, whole⟩ := Text.exists_concat_of_compact canonical.trimmed same
  obtain ⟨respaced, partsToo, code⟩ := Segment.exists_concat_of_skeleton whole (by decide)
  have closed : (({} : State).nesting 0).after? respaced = some {} := by
    rw [Nesting.after?, code, ← Nesting.foldlM_step?_compact, last, Nesting.foldlM_step?_compact]
    exact nested
  rw [← Segment.spell_split result]
  refine terminated_of_nested (Segment.lexed_split result) bareToo rfl
    ⟨respaced, partsToo, closed, ?_⟩
  intro lineBreak
  have inside : '\n' ∈ skeleton (Segment.split result) := by
    rw [whole, ← code]
    exact List.mem_append_left _ lineBreak
  exact absurd (canonical.spaces _ inside (by decide)) (by decide)

/-- Whether a unit can start with a character: a blank is passed over, and a `#`, a `[` and a brace
start spans of their own. -/
def starts (c : Char) : Bool :=
  !isBlank c && !(['#', '[', '{', '}'].contains c)

theorem any_starts_skeleton {text : Text} (bare : Bare (Segment.split text)) :
    (skeleton (Segment.split text)).head?.any starts = text.head?.any starts := by
  cases text with
  | nil => decide +kernel
  | cons c rest =>
      cases form : Comment.form? (c :: rest) with
      | some form' =>
          rw [Segment.split_of_comment form] at bare
          exact absurd List.mem_cons_self (bare form' _)
      | none =>
          cases quoted : isQuote c with
          | true =>
              have startsUnit : starts c = true := by
                rcases isQuote_iff.1 quoted with rfl | rfl <;> decide
              rw [Segment.split_of_quote quoted]
              show starts Mask.mark = starts c
              rw [startsUnit]
              decide
          | false => rw [Segment.split_of_code form quoted]; rfl

theorem head?_respace {text : Text} (solid : Text.StartsSolid text) :
    (Statement.respace text).head? = text.head? := by
  obtain ⟨c, rest, respaced, first⟩ := Statement.startsSolid_respace solid
  obtain ⟨d, others, rfl, firstToo⟩ := solid
  have same := Statement.compact_respace (d :: others)
  rw [respaced, Text.compact_cons, Text.compact_cons, first, firstToo] at same
  simp only [Bool.false_eq_true, if_false, List.cons.injEq] at same
  rw [respaced, same.1]
  rfl

theorem startsSolid_of_any_starts {text : Text} (first : text.head?.any starts) :
    Text.StartsSolid text := by
  cases text with
  | nil => simp at first
  | cons c rest =>
      refine ⟨c, rest, rfl, ?_⟩
      simp only [List.head?_cons, Option.any_some, starts, Bool.and_eq_true] at first
      simpa using first.1

theorem any_starts_normalize (noMark : Mask.mark ∉ unit) (bare : Bare (Segment.split unit))
    (first : unit.head?.any starts) (normalized : Statement.normalize unit = .ok result) :
    result.head?.any starts := by
  have bareToo := Statement.respacing.bare_split_unmask noMark bare normalized
  rw [← any_starts_skeleton bare] at first
  rw [← any_starts_skeleton bareToo, Statement.respacing.skeleton_split_unmask noMark normalized,
    head?_respace (startsSolid_of_any_starts first)]
  exact first

/-- A terminated unit is the first span of every text that starts with it. -/
theorem Terminated.split_append (terminated : Terminated {} unit) (first : unit.head?.any starts)
    (more : Text) : Span.split (unit ++ more) = .codeUnit unit :: Span.split more := by
  obtain ⟨c, rest, rfl, solid⟩ := startsSolid_of_any_starts first
  have noComment := terminated.form?_append rfl more
  have whole := terminated.cutFrom_append more
  have shape : List.dropWhile isBlank (c :: rest ++ more) = c :: (rest ++ more) := by
    simp [solid]
  have cut : Span.cut c (rest ++ more) = (.codeUnit (c :: rest), more) := by
    simp only [List.head?_cons, Option.any_some, starts, Bool.and_eq_true, List.contains_cons,
      Bool.not_eq_true', Bool.or_eq_false_iff, beq_eq_false_iff_ne] at first
    rw [List.cons_append] at noComment whole
    rw [Span.cut, noComment]
    simp [first, CodeUnit.cut, whole]
  rw [Span.split]
  split
  · next empty =>
      rw [shape] at empty
      cases empty
  · next d others start =>
      rw [shape] at start
      obtain ⟨rfl, rfl⟩ := List.cons.inj start
      rw [cut]

end CodeUnit

namespace Token

theorem exists_ofCodeUnit_iff (inEnum closesBody : Bool) (unit : Text) :
    (∃ tokens, ofCodeUnit inEnum closesBody unit = .ok tokens) ↔
      ∃ result, Statement.normalize unit = .ok result := by
  constructor
  · rintro ⟨tokens, found⟩
    obtain ⟨result, normal, -⟩ := bind_eq_ok_iff.1 found
    exact ⟨result, normal⟩
  · rintro ⟨result, normal⟩
    rw [ofCodeUnit, normal]
    simp only [Bind.bind, Except.bind]
    split
    · exact ⟨_, rfl⟩
    · split <;> split <;> exact ⟨_, rfl⟩

theorem exists_ofSpan_iff (before : List Token) (closesBody : Bool) (span : Span) :
    (∃ tokens, ofSpan before closesBody span = .ok tokens) ↔
      ∀ unit, span = .codeUnit unit → ∃ result, Statement.normalize unit = .ok result := by
  cases span with
  | codeUnit unit =>
      rw [ofSpan, exists_ofCodeUnit_iff]
      simp
  | comment form text => cases form <;> simp [ofSpan]
  | _ => simp [ofSpan]

/-- Spans give tokens if and only if all units among them can be normalized. -/
theorem exists_ofSpansAfter_iff (before : List Token) (spans : List Span) :
    (∃ tokens, ofSpansAfter before spans = .ok tokens) ↔
      ∀ unit, .codeUnit unit ∈ spans → ∃ result, Statement.normalize unit = .ok result := by
  induction spans generalizing before with
  | nil => simp [ofSpansAfter]
  | cons span spans ih =>
      simp only [ofSpansAfter, bind_eq_ok_iff, List.mem_cons]
      constructor
      · rintro ⟨tokens, own, found, later⟩ unit (same | member)
        · exact (exists_ofSpan_iff _ _ _).1 ⟨own, found⟩ unit same.symm
        · exact (ih _).1 ⟨tokens, later⟩ unit member
      · intro normal
        obtain ⟨own, found⟩ := (exists_ofSpan_iff before (Span.closesBody spans) span).2
          fun unit same => normal unit (.inl same.symm)
        obtain ⟨tokens, later⟩ := (ih (own.reverse ++ before)).2
          fun unit member => normal unit (.inr member)
        exact ⟨tokens, own, found, later⟩

/-- The token of a normalized unit that no enumeration stands around. -/
theorem ofCodeUnit_of_stable {unit : Text} (stable : Statement.normalize unit = .ok unit)
    (closesBody : Bool) :
    ofCodeUnit false closesBody unit =
      .ok [{ kind := if Statement.isDeclaration unit then .declaration else .statement,
             text := unit }] := by
  rw [ofCodeUnit, stable]
  cases declares : Statement.isDeclaration unit <;> simp [Bind.bind, Except.bind, declares] <;> rfl

end Token

/-- A unit that ends at a semicolon is normalized to one that ends there too, whatever follows: the
scan cuts it off whole, and the first token is made of it as it stands. Tokens are given where what
follows has tokens of its own. The unit is one without comments; if it has at most `10 ^ 4300`
characters, it does not fail to be normalized. -/
theorem CodeUnit.reread_normalize {unit : Text} (noMark : Mask.mark ∉ unit)
    (bare : Segment.Bare (Segment.split unit)) (first : unit.head?.any starts)
    (terminated : Terminated {} unit) :
    (∀ result, Statement.normalize unit = .ok result → ∀ more : Text,
      cut (result ++ more) = (result, more) ∧
        (∀ tokens, Token.ofSource (result ++ more) = .ok tokens →
          tokens.head? = some
            { kind := if Statement.isDeclaration result then .declaration else .statement,
              text := result }) ∧
        ((∃ tokens, Token.ofSource (result ++ more) = .ok tokens) ↔
          ∃ tokens, Token.ofSource more = .ok tokens)) ∧
      (unit.length ≤ 10 ^ Numeral.digitLimit → ∃ result, Statement.normalize unit = .ok result) := by
  refine ⟨?_, Statement.respacing.exists_unmask_eq_ok noMark⟩
  intro result normalized more
  have ended := terminated.normalize noMark bare normalized
  have startsToo := any_starts_normalize noMark bare first normalized
  have stable : Statement.normalize result = .ok result :=
    Statement.respacing.unmask_again noMark normalized
  have spans := ended.split_append startsToo more
  refine ⟨ended.cutFrom_append more, ?_, ?_⟩
  · intro tokens found
    rw [Token.ofSource, spans, Token.ofSpansAfter] at found
    obtain ⟨own, made, later⟩ := bind_eq_ok_iff.1 found
    rw [Token.ofSpan, Token.insideEnumFrom, Token.ofCodeUnit_of_stable stable] at made
    obtain rfl := Except.ok.inj made
    rw [List.append_nil] at later
    obtain ⟨tiles, -, rfl⟩ := Token.ofSpansAfter_laid 0 later
    rfl
  · rw [Token.ofSource, spans, Token.ofSource, Token.exists_ofSpansAfter_iff,
      Token.exists_ofSpansAfter_iff]
    simp [stable]

/-- Semicolons in angle brackets, in a block and in an open literal, and a second open literal that
ends in a lone backslash; behind the unit, brackets that are closed too often, and a comment. -/
theorem CodeUnit.reread_normalize_nested :
    Statement.normalize "f<a;b>(\"x;\n,c)[;]\t= 'y\\\n;".toList =
        .ok "f < a;b > (\"x;\" , c)[;] = 'y\\\\';".toList ∧
      cut ("f < a;b > (\"x;\" , c)[;] = 'y\\\\';".toList ++ ">)] // \x7d".toList) =
        ("f < a;b > (\"x;\" , c)[;] = 'y\\\\';".toList, ">)] // \x7d".toList) ∧
      ∃ tokens, Token.ofSource
          ("f < a;b > (\"x;\" , c)[;] = 'y\\\\';".toList ++ ">)] // \x7d".toList) = .ok tokens ∧
        tokens.head? = some
          { kind := .statement, text := "f < a;b > (\"x;\" , c)[;] = 'y\\\\';".toList } := by
  have noMark : Mask.mark ∉ "f<a;b>(\"x;\n,c)[;]\t= 'y\\\n;".toList := by decide
  have bare : Segment.Bare (Segment.split "f<a;b>(\"x;\n,c)[;]\t= 'y\\\n;".toList) := by
    decide +kernel
  have terminated : Terminated {} "f<a;b>(\"x;\n,c)[;]\t= 'y\\\n;".toList := by
    iterate 7 refine .code (by decide) (by decide) (by decide) (by decide) (by decide) ?_
    refine .literal (by decide) ?_
    iterate 4 refine .code (by decide) (by decide) (by decide) (by decide) (by decide) ?_
    refine .block ?_
    iterate 3 refine .code (by decide) (by decide) (by decide) (by decide) (by decide) ?_
    refine .literal (by decide) ?_
    refine .code (by decide) (by decide) (by decide) (by decide) (by decide) ?_
    exact .semicolon (by decide)
  have normalized : Statement.normalize "f<a;b>(\"x;\n,c)[;]\t= 'y\\\n;".toList =
      .ok "f < a;b > (\"x;\" , c)[;] = 'y\\\\';".toList := by
    decide +kernel
  obtain ⟨whole, head, given⟩ := (reread_normalize noMark bare (by decide) terminated).1 _ normalized
    ">)] // \x7d".toList
  have later : ∃ tokens, Token.ofSource ">)] // \x7d".toList = .ok tokens := by
    have isGiven : (Token.ofSource ">)] // \x7d".toList).isOk := by decide +kernel
    cases found : Token.ofSource ">)] // \x7d".toList with
    | ok tokens => exact ⟨tokens, rfl⟩
    | error _ =>
        rw [found] at isGiven
        cases isGiven
  obtain ⟨tokens, found⟩ := given.2 later
  exact ⟨normalized, whole, tokens, found, head tokens found⟩

end IdlFormat
