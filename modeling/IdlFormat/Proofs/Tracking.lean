import IdlFormat.Proofs.Rereading
import IdlFormat.Proofs.Unmasking

/-!
# Brackets inside an attribute

An attribute ends at a comma that no bracket encloses and at a `]` that closes none of its `[`. The
scanner that finds the end of a block and the one that cuts it at its commas pass over a text that
runs into neither, and both are told by the counts of brackets how they go on behind it
(`Scanner.passes`). They count the brackets of comments as well, so a comment must hold none of what
ends an attribute: it is tame. The counts do not depend on blanks, so that trimming and respacing
change nothing about them.

What stands between the brackets of a block closes the `[` that it opens, and no others
(`nested_of_cutClosed`). So the counts reach over each of the pieces between its commas
(`divided_of_splitFrom`).
-/

namespace IdlFormat

namespace Bracket

namespace Balance

/-- The counts after a character of code inside an attribute, or none if the attribute ends
there. -/
def step? (before : Balance) (c : Char) : Option Balance :=
  if c = ',' ∧ before.isZero ∨ c = ']' ∧ before.square = 0 then none
  else some (before.after all c)

theorem square_after (before : Balance) (c : Char) :
    (before.after all c).square = before.square + step c := by
  have opens (bracket : Bracket) (same : bracket.opener = c) :
      change? all c = some (bracket, 1) := by
    subst same
    cases bracket <;> rfl
  have closes (bracket : Bracket) (same : bracket.closer = c) :
      change? all c = some (bracket, -1) := by
    subst same
    cases bracket <;> rfl
  rw [after]
  by_cases opener : ∃ bracket : Bracket, bracket.opener = c
  · obtain ⟨bracket, rfl⟩ := opener
    rw [opens bracket rfl]
    cases bracket <;> simp [add, opener, step]
  · by_cases closer : ∃ bracket : Bracket, bracket.closer = c
    · obtain ⟨bracket, rfl⟩ := closer
      rw [closes bracket rfl]
      cases bracket <;> simp [add, closer, step]
    · rw [not_exists] at opener closer
      rw [change?_eq_none fun bracket => ⟨opener bracket, closer bracket⟩]
      have notOpen := opener .square
      have notClose := closer .square
      simp_all [step, Bracket.opener, Bracket.closer, eq_comm]

theorem step?_eq_some_iff {before after : Balance} {c : Char} :
    before.step? c = some after ↔
      ¬(c = ',' ∧ before.isZero) ∧ ¬(c = ']' ∧ before.square = 0) ∧ before.after all c = after := by
  rw [step?]
  split
  · next ends => simp only [reduceCtorEq, false_iff]; tauto
  · next inside =>
      rw [not_or] at inside
      simp only [Option.some.injEq, inside, not_false_eq_true, true_and]

/-- A character that is neither a comma nor a bracket leaves the counts alone. -/
theorem step?_of_other {c : Char} (notComma : c ≠ ',')
    (noBracket : ∀ bracket : Bracket, bracket.opener ≠ c ∧ bracket.closer ≠ c) (before : Balance) :
    before.step? c = some before := by
  have notClose : c ≠ ']' := (noBracket .square).2.symm
  rw [step?, if_neg (by simp [notComma, notClose]), after, change?_eq_none noBracket]

theorem step?_of_isBlank {c : Char} (blank : isBlank c) (before : Balance) :
    before.step? c = some before := by
  have notComma : c ≠ ',' := by
    rintro rfl
    revert blank
    decide
  exact step?_of_other notComma (ne_of_isBlank blank) before

end Balance

/-- The counts after a text inside an attribute, or none if the attribute ends in it. -/
def trackFrom (state : Literal.State) (before : Balance) : Text → Option Balance
  | [] => some before
  | c :: rest =>
      if state.reveals c then
        (before.step? c).bind fun after => trackFrom (state.next c) after rest
      else trackFrom (state.next c) before rest

theorem trackFrom_blank {c : Char} (blank : isBlank c) (state : Literal.State) (before : Balance)
    (rest : Text) : trackFrom state before (c :: rest) = trackFrom (state.next c) before rest := by
  simp [trackFrom, Balance.step?_of_isBlank blank]

theorem trackFrom_code {c : Char} (unquoted : isQuote c = false) (before : Balance) (rest : Text) :
    trackFrom .outside before (c :: rest) =
      (before.step? c).bind fun after => trackFrom .outside after rest := by
  simp [trackFrom, Literal.State.reveals, Literal.State.next, unquoted]

theorem reader_trackFrom (before : Balance) :
    Literal.Reader (fun state => trackFrom state before) fun _ result => result where
  hidden rest hidden := by simp [trackFrom, hidden]
  ended _ := rfl
  broken state rest := by
    rw [trackFrom_blank isBlank_break, trackFrom_blank isBlank_break, Literal.next_break,
      Literal.next_break]

theorem trackFrom_trimStart (before : Balance) (text : Text) :
    trackFrom .outside before text.trimStart = trackFrom .outside before text := by
  induction text with
  | nil => rfl
  | cons c rest ih =>
      by_cases blank : isBlank c
      · have stays : Literal.State.outside.next c = .outside := by
          simp [Literal.State.next, Reading.not_isQuote_of_isBlank blank]
        rw [trackFrom_blank blank, stays, ← ih, Text.trimStart, List.dropWhile_cons_of_pos blank]
        rfl
      · rw [Text.trimStart, List.dropWhile_cons_of_neg blank]

theorem trackFrom_trimEnd (state : Literal.State) (before : Balance) (text : Text) :
    trackFrom state before text.trimEnd = trackFrom state before text := by
  induction text generalizing state before with
  | nil => rfl
  | cons c rest ih =>
      rw [Text.trimEnd_cons]
      split
      · next dropped =>
          simp only [Bool.and_eq_true, List.isEmpty_iff] at dropped
          rw [trackFrom_blank dropped.1, ← ih, dropped.2]
          rfl
      · simp only [trackFrom, ih]

theorem trackFrom_trim (before : Balance) (text : Text) :
    trackFrom .outside before text.trim = trackFrom .outside before text := by
  rw [Text.trim, trackFrom_trimEnd, trackFrom_trimStart]

end Bracket

namespace Segment

open IdlFormat.Bracket

variable {segments : List Segment} {before after : Balance}

/-- There are no comments among segments. -/
def Bare (segments : List Segment) : Prop :=
  ∀ form text, .comment form text ∉ segments

theorem bare_iff : Bare segments ↔ ∀ segment ∈ segments, segment.isComment = false := by
  constructor
  · intro bare segment member
    cases segment with
    | code c => rfl
    | literal text repair => rfl
    | comment form text => exact absurd member (bare form text)
  · intro plain form text member
    exact absurd (plain _ member) (by simp [isComment])

instance : DecidablePred Bare := fun _ => decidable_of_iff _ bare_iff.symm

theorem Bare.of_subset {part : List Segment} (bare : Bare segments) (inside : part ⊆ segments) :
    Bare part :=
  fun form text member => bare form text (inside member)

theorem Bare.allQuiet (bare : Bare segments) : AllQuiet segments :=
  fun form text member => absurd member (bare form text)

/-- All comments among segments are closed when they are put back, and quiet. -/
structure Tame (segments : List Segment) : Prop where
  /-- No comment is open. -/
  closed : ∀ segment ∈ segments, segment.isClosed
  /-- No comment holds a comma, a quote or a square bracket. -/
  quiet : AllQuiet segments

theorem Tame.of_subset {part : List Segment} (tame : Tame segments) (inside : part ⊆ segments) :
    Tame part :=
  ⟨fun segment member => tame.closed segment (inside member),
    fun form text member => tame.quiet form text (inside member)⟩

theorem Bare.tame (bare : Bare segments) : Tame segments := by
  refine ⟨fun segment member => ?_, bare.allQuiet⟩
  cases segment with
  | comment form text => exact absurd member (bare form text)
  | _ => rfl

theorem skeleton_map_close (segments : List Segment) :
    skeleton (segments.map close) = skeleton segments := by
  rw [skeleton, skeleton, List.map_map]
  refine List.map_congr_left fun segment _ => ?_
  cases segment <;> rfl

/-- The counts after a segment inside an attribute, or none if the attribute ends there or the segment
is a comment that scanners take for code. -/
def track? (before : Balance) : Segment → Option Balance
  | .code c => before.step? c
  | .literal _ _ => some before
  | .comment form text =>
      if Comment.isQuiet text then some ((comment form text).balance all before) else none

/-- A quiet character ends no attribute. -/
theorem step?_of_quiet {c : Char} (notComma : c ≠ ',') (notClose : c ≠ ']') (before : Balance) :
    before.step? c = some (before.after all c) := by
  rw [Balance.step?, if_neg (by simp [notComma, notClose])]

theorem trackFrom_quiet {text : Text} (quiet : Comment.isQuiet text) (before : Balance)
    (rest : Text) :
    trackFrom .outside before (text ++ rest) =
      trackFrom .outside (text.foldl (Balance.after all) before) rest := by
  induction text generalizing before with
  | nil => rfl
  | cons c text ih =>
      obtain ⟨⟨unquoted, notComma, -, notClose⟩, others⟩ := Comment.isQuiet_cons quiet
      rw [List.cons_append, trackFrom_code unquoted, step?_of_quiet notComma notClose]
      exact ih others _

/-- The counts over a text whose comments are quiet are those over its segments. -/
theorem trackFrom_spell (lexed : Lexed segments) (quiet : AllQuiet segments) (before : Balance) :
    trackFrom .outside before (spell segments) = segments.foldlM track? before := by
  induction segments generalizing before with
  | nil => rfl
  | cons segment rest ih =>
      have later := ih lexed.2 quiet.tail
      cases segment with
      | code c =>
          rw [spell_cons, Segment.text, List.singleton_append, trackFrom_code lexed.1.1 before]
          exact congrArg (before.step? c).bind (funext later)
      | literal text repair =>
          rw [spell_cons, Segment.text, (reader_trackFrom before).literal lexed.1, foldr_const,
            later]
          rfl
      | comment form text =>
          have own := quiet form text List.mem_cons_self
          rw [spell_cons, Segment.text, trackFrom_quiet own, later, List.foldlM_cons, track?,
            if_pos own]
          rfl

/-- A character of code, or a closed literal or comment, which stands in front of anything. -/
def IsPlain : Segment → Prop
  | .code c => isQuote c = false
  | segment => segment.isInline ∧ ∀ next, segment.Fits next

theorem IsPlain.fits {segment : Segment} (plain : segment.IsPlain) {c : Char} (notSlash : c ≠ '/')
    (notStar : c ≠ '*') : segment.Fits (some c) := by
  cases segment with
  | code d => exact ⟨plain, by simp [Comment.opens, notSlash, notStar]⟩
  | literal text repair => exact plain.2 (some c)
  | comment form text => exact plain.2 (some c)

theorem IsPlain.settled {segment : Segment} (plain : segment.IsPlain)
    (notCode : ∀ c, segment ≠ .code c) : segment.isInline ∧ ∀ next, segment.Fits next := by
  cases segment with
  | code c => exact absurd rfl (notCode c)
  | literal text repair => exact plain
  | comment form text => exact plain

theorem Settled.isPlain {hidden : List Segment} (settled : Settled hidden) {segment : Segment}
    (member : segment ∈ hidden) : segment.IsPlain := by
  obtain ⟨notCode, inline, fits⟩ := settled segment member
  cases segment with
  | code c => exact absurd rfl (notCode c)
  | literal text repair => exact ⟨inline, fits⟩
  | comment form text => exact ⟨inline, fits⟩

end Segment

namespace Bracket

open Segment (spell skeleton)

/-- A text inside an attribute that changes the counts of brackets and leaves nothing open. -/
def Passes (before : Balance) (text : Text) (after : Balance) : Prop :=
  ∃ segments, spell segments = text ∧ (∀ segment ∈ segments, segment.IsPlain) ∧
    segments.foldlM Segment.track? before = some after

namespace Passes

variable {before between after : Balance} {left right : Text}

theorem append (first : Passes before left between) (second : Passes between right after) :
    Passes before (left ++ right) after := by
  obtain ⟨segments, rfl, plain, tracked⟩ := first
  obtain ⟨others, rfl, more, followed⟩ := second
  refine ⟨segments ++ others, Segment.spell_append _ _, ?_, ?_⟩
  · intro segment member
    rcases List.mem_append.1 member with own | other
    · exact plain segment own
    · exact more segment other
  · rw [List.foldlM_append]
    exact Option.bind_eq_some_iff.2 ⟨between, tracked, followed⟩

theorem of_blank {blanks : Text} (blank : blanks.all isBlank) (before : Balance) :
    Passes before blanks before := by
  rw [List.all_eq_true] at blank
  refine ⟨blanks.map .code, Segment.spell_map_code blanks, ?_, ?_⟩
  · intro segment member
    obtain ⟨c, inside, rfl⟩ := List.mem_map.1 member
    exact Reading.not_isQuote_of_isBlank (blank c inside)
  · induction blanks with
    | nil => rfl
    | cons c blanks ih =>
        have own : Segment.track? before (.code c) = some before :=
          Balance.step?_of_isBlank (blank c List.mem_cons_self) before
        rw [List.map_cons, List.foldlM_cons, own]
        exact ih fun d member => blank d (List.mem_cons_of_mem _ member)

end Passes

/-- A reader that is told by the counts of brackets how it goes on behind a character inside an
attribute, which it puts in front. -/
structure Scanner {Result : Type} (read : Literal.State → Balance → Text → Result)
    (put : Char → Result → Result) : Prop where
  /-- It passes over literals. -/
  reader : ∀ before, Literal.Reader (fun state => read state before) put
  /-- It passes over code. -/
  code : ∀ {c before after}, isQuote c = false → Balance.step? before c = some after → ∀ rest,
    read .outside before (c :: rest) = put c (read .outside after rest)

/-- It passes over quiet comments. -/
theorem Scanner.quiet {Result : Type} {read : Literal.State → Balance → Text → Result}
    {put : Char → Result → Result} (scanner : Scanner read put) {text : Text}
    (quiet : Comment.isQuiet text) (before : Balance) (rest : Text) :
    read .outside before (text ++ rest) =
      text.foldr put (read .outside (text.foldl (Balance.after all) before) rest) := by
  induction text generalizing before with
  | nil => rfl
  | cons c text ih =>
      obtain ⟨⟨unquoted, notComma, -, notClose⟩, others⟩ := Comment.isQuiet_cons quiet
      rw [List.cons_append, scanner.code unquoted (Segment.step?_of_quiet notComma notClose before),
        ih others]
      rfl

theorem Scanner.passes {Result : Type} {read : Literal.State → Balance → Text → Result}
    {put : Char → Result → Result} (scanner : Scanner read put) {before after : Balance}
    {text : Text} (passes : Passes before text after) (rest : Text) :
    read .outside before (text ++ rest) = text.foldr put (read .outside after rest) := by
  obtain ⟨segments, rfl, plain, tracked⟩ := passes
  induction segments generalizing before with
  | nil =>
      obtain rfl := Option.some.inj tracked
      rfl
  | cons segment others ih =>
      have later {before : Balance} :=
        @ih before fun other member => plain other (List.mem_cons_of_mem _ member)
      have own := plain segment List.mem_cons_self
      rw [Segment.spell_cons, List.append_assoc, List.foldr_append]
      cases segment with
      | code c =>
          obtain ⟨between, step, tracked⟩ := Option.bind_eq_some_iff.1 tracked
          rw [← later tracked]
          exact scanner.code own step _
      | literal quoted repair =>
          rw [← later tracked]
          exact (scanner.reader before).literal (own.2 _)
      | comment form text =>
          obtain ⟨between, counted, tracked⟩ := Option.bind_eq_some_iff.1 tracked
          rw [Segment.track?] at counted
          split at counted
          · next quiet =>
              obtain rfl := Option.some.inj counted
              rw [← later tracked]
              exact scanner.quiet quiet _ _
          · cases counted

theorem scanner_cutClosed :
    Scanner (fun state before => cutClosed state (before.square + 1))
      fun c parts => (c :: parts.1, parts.2) where
  reader before := reader_cutClosed (before.square + 1)
  code := by
    intro c before after unquoted step rest
    obtain ⟨-, inside, rfl⟩ := Balance.step?_eq_some_iff.1 step
    have goesOn : ¬(c = ']' ∧ before.square + 1 = 1) := fun closing =>
      inside ⟨closing.1, by have one := closing.2; omega⟩
    rw [cutClosed_code unquoted, if_neg goesOn, Balance.square_after, Int.add_right_comm]

theorem scanner_splitFrom :
    Scanner (fun state before => splitFrom (· = ',') all state before) consFirst where
  reader := reader_splitFrom all
  code := by
    intro c before after unquoted step rest
    obtain ⟨inside, -, rfl⟩ := Balance.step?_eq_some_iff.1 step
    rw [splitFrom_code unquoted, if_neg inside]

/-- The number of `[` that are open after a character of code, or none if it closes one too many. -/
def nest? (depth : Nat) (c : Char) : Option Nat :=
  if c = '[' then some (depth + 1)
  else if c = ']' then if depth = 0 then none else some (depth - 1)
  else some depth

theorem nest?_eq_some_iff {depth after : Nat} {c : Char} :
    nest? depth c = some after ↔ ¬(c = ']' ∧ depth = 0) ∧ (depth : Int) + step c = after := by
  rw [nest?, step]
  split
  · next opens =>
      have notClose : c ≠ ']' := by
        rintro rfl
        revert opens
        decide
      simp only [Option.some.injEq, notClose, false_and, not_false_eq_true, true_and]
      omega
  · split
    · next closes =>
        split
        · next empty => simp [closes, empty]
        · next filled =>
            simp only [Option.some.injEq, closes, filled, and_false, not_false_eq_true, true_and]
            omega
    · next other =>
        simp only [Option.some.injEq, other, false_and, not_false_eq_true, true_and]
        omega

end Bracket

namespace Segment

open IdlFormat.Bracket (Balance nest?)

variable {segments : List Segment}

/-- A segment is counted as the character that stands for it in the skeleton. -/
theorem exists_skeleton_cons (segment : Segment) :
    ∃ c, (∀ rest, skeleton (segment :: rest) = c :: skeleton rest) ∧
      Bracket.step c = segment.square ∧ ∀ d, d ≠ Mask.mark → (c = d ↔ segment = .code d) := by
  have hides (other : ∀ d, segment ≠ .code d) (d : Char) (shown : d ≠ Mask.mark) :
      Mask.mark = d ↔ segment = .code d :=
    iff_of_false (Ne.symm shown) (other d)
  have flat : Bracket.step Mask.mark = 0 := by decide
  cases segment with
  | code c => exact ⟨c, fun _ => rfl, rfl, fun d _ => by simp⟩
  | literal text repair => exact ⟨Mask.mark, fun _ => rfl, flat, hides (by simp)⟩
  | comment form text => exact ⟨Mask.mark, fun _ => rfl, flat, hides (by simp)⟩

/-- The counts behind a segment that ends no attribute. -/
theorem track?_eq_some_balance {segment : Segment}
    (quiet : ∀ form text, segment = .comment form text → Comment.isQuiet text)
    {before : Balance} (goesOn : ¬(segment = .code ',' ∧ before.isZero))
    (inside : ¬(segment = .code ']' ∧ before.square = 0)) :
    track? before segment = some (segment.balance Bracket.all before) := by
  cases segment with
  | code c =>
      exact Balance.step?_eq_some_iff.2
        ⟨by simpa using goesOn, by simpa using inside, rfl⟩
  | literal text repair => rfl
  | comment form text => rw [track?, if_pos (quiet form text rfl)]

/-- Only code changes the depth of square brackets, as comments are quiet. -/
theorem square_balance {segment : Segment}
    (quiet : ∀ form text, segment = .comment form text → Comment.isQuiet text) (before : Balance) :
    (segment.balance Bracket.all before).square = before.square + segment.square := by
  cases segment with
  | code c => exact Balance.square_after before c
  | literal text repair => exact (Int.add_zero _).symm
  | comment form text =>
      have own := quiet form text rfl
      have same : (text.foldl (Balance.after Bracket.all) before).square = before.square := by
        clear quiet
        induction text generalizing before with
        | nil => rfl
        | cons c text ih =>
            obtain ⟨⟨-, -, notOpen, notClose⟩, others⟩ := Comment.isQuiet_cons own
            rw [List.foldl_cons, ih _ others, Balance.square_after, Bracket.step, if_neg notOpen,
              if_neg notClose, Int.add_zero]
      exact same.trans (Int.add_zero _).symm

/-- A block that is cut off whole ends in the bracket that closes it, or it is never closed. -/
theorem nested_of_cutClosed {depth : Nat}
    (whole : cutClosed (depth + 1 : Nat) segments = (segments, [])) :
    (∃ body, segments = body ++ [Segment.code ']'] ∧ (skeleton body).foldlM nest? depth = some 0) ∨
      ∃ missing, (skeleton segments).foldlM nest? depth = some missing := by
  induction segments generalizing depth with
  | nil => exact .inr ⟨depth, rfl⟩
  | cons segment rest ih =>
      rw [cutClosed] at whole
      split at whole
      · next closes =>
          obtain ⟨rfl, last⟩ := closes
          obtain rfl : rest = [] := (Prod.mk.inj whole).2
          obtain rfl : depth = 0 := by omega
          exact .inl ⟨[], rfl, rfl⟩
      · next goesOn =>
          obtain ⟨c, same, counted, shown⟩ := exists_skeleton_cons segment
          obtain ⟨after, positive, stays⟩ := exists_depth_after (Nat.succ_pos depth) goesOn
          obtain ⟨after, rfl⟩ := Nat.exists_eq_add_one.2 positive
          have step : nest? depth c = some after := by
            refine Bracket.nest?_eq_some_iff.2 ⟨?_, by omega⟩
            rintro ⟨closes, rfl⟩
            exact goesOn ⟨(shown ']' (by decide)).1 closes, rfl⟩
          rw [stays] at whole
          have later : cutClosed (after + 1 : Nat) rest = (rest, []) := by
            obtain ⟨taken, none⟩ := Prod.mk.inj whole
            exact Prod.ext (List.cons.inj taken).2 none
          have nests (more : List Segment) : (skeleton (segment :: more)).foldlM nest? depth =
              (skeleton more).foldlM nest? after := by
            rw [same, List.foldlM_cons, step]
            rfl
          rcases ih later with ⟨body, rfl, nested⟩ | ⟨missing, nested⟩
          · exact .inl ⟨segment :: body, rfl, (nests body).trans nested⟩
          · exact .inr ⟨missing, (nests rest).trans nested⟩

/-- The brackets that are missing at the end of nested segments are those that they leave open. -/
theorem openDepthFrom_of_nested {depth missing : Nat}
    (nested : (skeleton segments).foldlM nest? depth = some missing) :
    openDepthFrom (depth + 1) segments = missing + 1 := by
  induction segments generalizing depth with
  | nil =>
      obtain rfl := Option.some.inj nested
      rfl
  | cons segment rest ih =>
      obtain ⟨c, same, counted, -⟩ := exists_skeleton_cons segment
      rw [same, List.foldlM_cons] at nested
      obtain ⟨after, step, nested⟩ := Option.bind_eq_some_iff.1 nested
      have stays := (Bracket.nest?_eq_some_iff.1 step).2
      have next : ((depth + 1 : Nat) + segment.square).toNat = after + 1 := by omega
      rw [openDepthFrom, next, ih nested]

/-- The missing brackets close what is open. -/
theorem nested_replicate (missing : Nat) :
    (skeleton (List.replicate missing (.code ']'))).foldlM nest? missing = some 0 := by
  induction missing with
  | zero => rfl
  | succ missing ih => exact ih

theorem openDepthFrom_append (depth : Nat) (left right : List Segment) :
    openDepthFrom depth (left ++ right) = openDepthFrom (openDepthFrom depth left) right := by
  induction left generalizing depth with
  | nil => rfl
  | cons segment left ih => exact ih _

end Segment

namespace Bracket

open Segment (spell skeleton AllQuiet)

variable {α β : Type} {run : α → Balance → Prop} {other : β → Balance → Prop}

/-- The pieces between the commas of a block: each closes the `[` that it opens, and all kinds of
brackets are balanced in all but the last. -/
def Divided (run : α → Balance → Prop) : List α → Prop
  | [] => True
  | first :: others =>
      (∃ after, run first after ∧ after.square = 0 ∧ (others ≠ [] → after = {})) ∧
        Divided run others

theorem Divided.filter {pieces : List α} (divided : Divided run pieces) (keep : α → Bool) :
    Divided run (pieces.filter keep) := by
  induction pieces with
  | nil => trivial
  | cons first others ih =>
      rw [List.filter_cons]
      split
      · obtain ⟨after, tracked, closed, even⟩ := divided.1
        refine ⟨⟨after, tracked, closed, fun filled => even ?_⟩, ih divided.2⟩
        rintro rfl
        exact filled rfl
      · exact ih divided.2

theorem Divided.forall₂ {pieces : List α} {others : List β} (divided : Divided run pieces)
    (pairs : List.Forall₂ (fun piece result => ∀ after, run piece after → other result after)
      pieces others) : Divided other others := by
  induction pairs with
  | nil => trivial
  | @cons piece result pieces others same later ih =>
      obtain ⟨after, tracked, closed, even⟩ := divided.1
      refine ⟨⟨after, same after tracked, closed, fun filled => even ?_⟩, ih divided.2⟩
      rintro rfl
      exact filled (List.forall₂_nil_left_iff.1 later)

theorem Divided.exists_of_mem {pieces : List α} (divided : Divided run pieces) {piece : α}
    (member : piece ∈ pieces) : ∃ after, run piece after := by
  induction pieces with
  | nil => simp at member
  | cons first others ih =>
      rcases List.mem_cons.1 member with rfl | later
      · obtain ⟨after, tracked, -⟩ := divided.1
        exact ⟨after, tracked⟩
      · exact ih divided.2 later

/-- Nested segments are cut into such pieces, the first of which goes on behind the counts so
far. -/
theorem divided_of_splitFrom {segments piece : List Segment} {pieces : List (List Segment)}
    (quiet : AllQuiet segments) {before : Balance} {depth : Nat} (counted : before.square = depth)
    (nested : (skeleton segments).foldlM nest? depth = some 0)
    (cut : Segment.splitFrom all before segments = piece :: pieces) :
    (∃ after, piece.foldlM Segment.track? before = some after ∧ after.square = 0 ∧
        (pieces ≠ [] → after = {})) ∧
      Divided (fun piece after => piece.foldlM Segment.track? {} = some after) pieces := by
  induction segments generalizing before depth piece pieces with
  | nil =>
      obtain ⟨rfl, rfl⟩ := List.cons.inj cut
      obtain rfl := Option.some.inj nested
      exact ⟨⟨before, rfl, counted, fun filled => absurd rfl filled⟩, trivial⟩
  | cons segment rest ih =>
      have own : ∀ form text, segment = .comment form text → Comment.isQuiet text :=
        fun form text same => quiet form text (same ▸ List.mem_cons_self)
      obtain ⟨c, same, square, shown⟩ := Segment.exists_skeleton_cons segment
      rw [same, List.foldlM_cons] at nested
      obtain ⟨deeper, nests, nested⟩ := Option.bind_eq_some_iff.1 nested
      obtain ⟨goesOn, stays⟩ := nest?_eq_some_iff.1 nests
      rw [square] at stays
      rw [Segment.splitFrom] at cut
      split at cut
      · next cuts =>
          -- a comma outside brackets ends the piece
          obtain ⟨rfl, found⟩ := List.cons.inj cut
          obtain rfl : before = {} := Balance.isZero_iff.1 cuts.2
          obtain ⟨first, others, more⟩ := List.exists_cons_of_ne_nil
            (Segment.splitFrom_ne_nil all {} rest)
          have level : deeper = depth := by
            have flat : (Segment.code ',').square = 0 := by decide
            rw [cuts.1, flat] at stays
            omega
          rw [level] at nested
          rw [more] at found
          subst found
          exact ⟨⟨{}, rfl, rfl, fun _ => rfl⟩, ih quiet.tail counted nested more⟩
      · next stands =>
          obtain ⟨first, others, more⟩ := List.exists_cons_of_ne_nil
            (Segment.splitFrom_ne_nil all (segment.balance all before) rest)
          rw [more] at cut
          obtain ⟨rfl, rfl⟩ := List.cons.inj cut
          have tracks : Segment.track? before segment = some (segment.balance all before) := by
            apply Segment.track?_eq_some_balance own stands
            rintro ⟨closes, none⟩
            exact goesOn ⟨(shown ']' (by decide)).2 closes, by omega⟩
          have deepens : (segment.balance all before).square = deeper := by
            rw [Segment.square_balance own, counted, stays]
          obtain ⟨⟨after, tracked, closed⟩, later⟩ := ih quiet.tail deepens nested more
          refine ⟨⟨after, ?_, closed⟩, later⟩
          rw [List.foldlM_cons, tracks]
          exact tracked

end Bracket

end IdlFormat
