import IdlFormat.Proofs.Segment
import IdlFormat.Source.Bracket

/-!
# Brackets among segments

The scanners that count brackets know literals but no comments. They are compared here with scanners
of segments, to which a comment is as closed a thing as a literal. The two agree where every comment
that stands inside square brackets is quiet: it holds no comma, no quote and no square bracket.
-/

namespace IdlFormat

namespace Literal

theorem reveals_inside {quote c : Char} (notBreak : c ≠ '\n') (escaped : Bool) :
    (State.inside quote escaped).reveals c = false := by
  simp [State.reveals, notBreak]

theorem next_inside {quote c : Char} {escaped : Bool} (notBreak : c ≠ '\n')
    (goesOn : escaped ∨ c ≠ quote) :
    (State.inside quote escaped).next c = .inside quote (!escaped && c = '\\') := by
  cases escaped with
  | true => simp [State.next, notBreak]
  | false =>
      have notQuote : c ≠ quote := by simpa using goesOn
      by_cases backslash : c = '\\' <;> simp [State.next, notBreak, notQuote, backslash]

/-- A reader that puts the hidden characters in front of what it reads behind them, and to which an
open literal is over at the end of its line. -/
structure Reader {Result : Type} (read : State → Text → Result) (put : Char → Result → Result) :
    Prop where
  /-- A hidden character is put in front. -/
  hidden : ∀ {state c} rest, state.reveals c = false →
    read state (c :: rest) = put c (read (state.next c) rest)
  /-- At the end it does not matter whether a literal is open. -/
  ended : ∀ state, read state [] = read .outside []
  /-- Nor does it at a line break. -/
  broken : ∀ state rest, read state ('\n' :: rest) = read .outside ('\n' :: rest)

namespace Reader

variable {Result : Type} {read : State → Text → Result} {put : Char → Result → Result}

theorem body (reader : Reader read put) {quote : Char} (quoted : isQuote quote) {escaped : Bool}
    {body repair : Text} (whole : scan quote escaped body = ⟨body, [], repair⟩) {rest : Text}
    (stops : Stops repair rest.head?) :
    read (.inside quote escaped) (body ++ rest) = body.foldr put (read .outside rest) := by
  induction body generalizing escaped with
  | nil =>
      simp only [scan, Scan.mk.injEq, true_and] at whole
      have isOpen : repair ≠ [] := by
        rw [← whole, Literal.repair]
        split <;> simp
      cases rest with
      | nil => exact reader.ended _
      | cons c tail =>
          obtain rfl : c = '\n' := by simpa [Stops, isOpen] using stops
          exact reader.broken _ _
  | cons c body ih =>
      rcases scan_cons_whole quoted whole with ⟨rfl, rfl, rfl, rfl⟩ | ⟨inLine, goesOn, inner⟩
      · have inLine := quote_ne_break quoted
        have notBackslash := quote_ne_backslash quoted
        rw [List.cons_append, reader.hidden _ (reveals_inside inLine _)]
        simp [State.next, inLine, notBackslash]
      · rw [List.cons_append, reader.hidden _ (reveals_inside inLine _),
          next_inside inLine goesOn, ih inner, List.foldr_cons]

/-- A literal is passed over. -/
theorem literal (reader : Reader read put) {text repair rest : Text}
    (fits : Segment.Fits (.literal text repair) rest.head?) :
    read .outside (text ++ rest) = text.foldr put (read .outside rest) := by
  obtain ⟨quote, body, rfl, quoted, whole, stops⟩ := fits
  have opened : State.outside.next quote = .inside quote false := by simp [State.next, quoted]
  rw [List.cons_append, reader.hidden _ (by simp [State.reveals, quoted]), List.foldr_cons, opened,
    reader.body quoted whole stops]

end Reader

theorem reveals_break (state : State) : state.reveals '\n' = true := by
  cases state <;> rfl

theorem next_break (state : State) : state.next '\n' = .outside := by
  cases state <;> rfl

end Literal

namespace Comment

/-- A comment that no scanner of brackets takes for code: it holds no comma, no quote and no square
bracket. -/
def isQuiet (text : Text) : Bool :=
  text.all fun c => !isQuote c && !([',', '[', ']'].contains c)

theorem isQuiet_cons {c : Char} {text : Text} (quiet : isQuiet (c :: text)) :
    (isQuote c = false ∧ c ≠ ',' ∧ c ≠ '[' ∧ c ≠ ']') ∧ isQuiet text := by
  simp only [isQuiet, List.all_cons, Bool.and_eq_true] at quiet
  refine ⟨?_, quiet.2⟩
  simpa using quiet.1

/-- A reader that passes over calm characters passes over quiet comments. -/
theorem read_quiet {Result : Type} {read : Text → Result} {put : Char → Result → Result}
    (step : ∀ c rest, isQuote c = false → c ≠ ',' → c ≠ '[' → c ≠ ']' →
      read (c :: rest) = put c (read rest))
    {text : Text} (quiet : isQuiet text) (rest : Text) :
    read (text ++ rest) = text.foldr put (read rest) := by
  induction text with
  | nil => rfl
  | cons c text ih =>
      obtain ⟨⟨unquoted, notComma, notOpen, notClose⟩, others⟩ := isQuiet_cons quiet
      rw [List.cons_append, step c _ unquoted notComma notOpen notClose, ih others, List.foldr_cons]

end Comment

/-- The change of the depth of square brackets at a character of code. -/
def Bracket.step (c : Char) : Int :=
  if c = '[' then 1 else if c = ']' then -1 else 0

/-- The change of the depth of square brackets at a character, which may stand in a literal. -/
def Bracket.stepFrom (state : Literal.State) (c : Char) : Int :=
  if state.reveals c then step c else 0

namespace Segment

/-- The change of the depth of square brackets at a segment. -/
def square : Segment → Int
  | .code c => Bracket.step c
  | _ => 0

/-- Every comment that stands inside square brackets is quiet, where `depth` counts those open
before the segments; a `]` with nothing to close does not count. -/
def QuietFrom (depth : Nat) : List Segment → Prop
  | [] => True
  | .comment _ text :: rest => (0 < depth → Comment.isQuiet text) ∧ QuietFrom depth rest
  | segment :: rest => QuietFrom (depth + segment.square).toNat rest

theorem quietFrom_cons {depth : Nat} {segment : Segment} {rest : List Segment}
    (quiet : QuietFrom depth (segment :: rest)) : QuietFrom (depth + segment.square).toNat rest := by
  cases segment with
  | code c => exact quiet
  | literal text repair => exact quiet
  | comment form text => simpa [square] using quiet.2

/-- With fewer brackets open, fewer comments have to be quiet. -/
theorem QuietFrom.of_le {depth less : Nat} {segments : List Segment}
    (quiet : QuietFrom depth segments) (le : less ≤ depth) : QuietFrom less segments := by
  induction segments generalizing depth less with
  | nil => trivial
  | cons segment rest ih =>
      have others : QuietFrom (less + segment.square).toNat rest :=
        ih (quietFrom_cons quiet) (by omega)
      cases segment with
      | code c => exact others
      | literal text repair => exact others
      | comment form text =>
          refine ⟨fun positive => quiet.1 (by omega), ?_⟩
          simpa [square] using others

theorem QuietFrom.of_append {depth : Nat} {left right : List Segment}
    (quiet : QuietFrom depth (left ++ right)) : QuietFrom depth left := by
  induction left generalizing depth with
  | nil => trivial
  | cons segment left ih =>
      cases segment with
      | code c => exact ih quiet
      | literal text repair => exact ih quiet
      | comment form text => exact ⟨quiet.1, ih quiet.2⟩

/-- The segments up to and including the `]` that closes the first `[`, and those that follow. -/
def cutClosed (depth : Int) : List Segment → List Segment × List Segment
  | [] => ([], [])
  | segment :: rest =>
      if segment = .code ']' ∧ depth = 1 then ([segment], rest)
      else
        let more := cutClosed (depth + segment.square) rest
        (segment :: more.1, more.2)

theorem cutClosed_append (depth : Int) (segments : List Segment) :
    (cutClosed depth segments).1 ++ (cutClosed depth segments).2 = segments := by
  fun_induction cutClosed depth segments with
  | case1 => rfl
  | case2 => rfl
  | case3 depth segment rest _ more ih => rw [List.cons_append, ih]

/-- The first segment is taken, if there is one. -/
theorem cutClosed_cons (depth : Int) (segment : Segment) (rest : List Segment) :
    ∃ taken, (cutClosed depth (segment :: rest)).1 = segment :: taken := by
  rw [cutClosed]
  split
  · exact ⟨[], rfl⟩
  · exact ⟨_, rfl⟩

/-- Behind the first `[` one bracket is open. -/
theorem cutClosed_opening (rest : List Segment) :
    cutClosed 0 (.code '[' :: rest) =
      (.code '[' :: (cutClosed (1 : Nat) rest).1, (cutClosed (1 : Nat) rest).2) := by
  have opened : (0 : Int) + (Segment.code '[').square = (1 : Nat) := by decide
  rw [cutClosed, if_neg (by decide), opened]

/-- The depth stays positive until the block is closed. -/
theorem exists_depth_after {segment : Segment} {depth : Nat} (isOpen : 0 < depth)
    (goesOn : ¬ (segment = .code ']' ∧ (depth : Int) = 1)) :
    ∃ after : Nat, 0 < after ∧ (depth : Int) + segment.square = after := by
  have positive : 1 ≤ (depth : Int) + segment.square := by
    unfold square
    split
    · next c =>
        unfold Bracket.step
        split
        · omega
        · split
          · next bracket =>
              have deep : (depth : Int) ≠ 1 := fun one => goesOn ⟨by rw [bracket], one⟩
              omega
          · omega
    · omega
  exact ⟨((depth : Int) + segment.square).toNat, by omega, by omega⟩

/-- The number of `[` that segments leave open. -/
def openDepthFrom (depth : Nat) : List Segment → Nat
  | [] => depth
  | segment :: rest => openDepthFrom (depth + segment.square).toNat rest

end Segment

namespace Bracket

theorem reader_cutClosed (depth : Int) :
    Literal.Reader (fun state => cutClosed state depth) fun c parts => (c :: parts.1, parts.2) where
  hidden rest hidden := by simp [cutClosed, hidden]
  ended _ := rfl
  broken state rest := by simp [cutClosed, Literal.reveals_break, Literal.next_break]

theorem foldr_cons_fst (text : Text) (parts : Text × Text) :
    text.foldr (fun c parts => (c :: parts.1, parts.2)) parts = (text ++ parts.1, parts.2) := by
  induction text with
  | nil => rfl
  | cons c text ih => rw [List.foldr_cons, ih]; rfl

theorem cutClosed_cons (state : Literal.State) (depth : Int) (c : Char) (rest : Text) :
    cutClosed state depth (c :: rest) =
      if state.reveals c ∧ c = ']' ∧ depth = 1 then ([c], rest)
      else (c :: (cutClosed (state.next c) (depth + stepFrom state c) rest).1,
        (cutClosed (state.next c) (depth + stepFrom state c) rest).2) := by
  have counted : depth + step c =
      if c = '[' then depth + 1 else if c = ']' then depth - 1 else depth := by
    unfold step
    split
    · rfl
    · split
      · rfl
      · exact Int.add_zero depth
  by_cases shown : state.reveals c <;> simp [cutClosed, stepFrom, shown, counted]

theorem cutClosed_code {c : Char} (unquoted : isQuote c = false) (depth : Int) (rest : Text) :
    cutClosed .outside depth (c :: rest) =
      if c = ']' ∧ depth = 1 then ([c], rest)
      else (c :: (cutClosed .outside (depth + step c) rest).1,
        (cutClosed .outside (depth + step c) rest).2) := by
  simp [cutClosed_cons, stepFrom, Literal.State.reveals, Literal.State.next, unquoted]

theorem reader_openDepthFrom (depth : Nat) :
    Literal.Reader (fun state => openDepthFrom state depth) fun _ depth => depth where
  hidden rest hidden := by simp [openDepthFrom, hidden]
  ended _ := rfl
  broken state rest := by simp [openDepthFrom, Literal.reveals_break, Literal.next_break]

theorem foldr_const {Result : Type} (text : Text) (result : Result) :
    text.foldr (fun _ result => result) result = result := by
  induction text with
  | nil => rfl
  | cons c text ih => rw [List.foldr_cons, ih]

theorem openDepthFrom_cons (state : Literal.State) (depth : Nat) (c : Char) (rest : Text) :
    openDepthFrom state depth (c :: rest) =
      openDepthFrom (state.next c) (depth + stepFrom state c).toNat rest := by
  have counted : (depth + step c).toNat =
      if c = '[' then depth + 1 else if c = ']' then depth - 1 else depth := by
    unfold step
    split
    · omega
    · split <;> omega
  by_cases shown : state.reveals c <;> simp [openDepthFrom, stepFrom, shown, counted]

theorem openDepthFrom_code {c : Char} (unquoted : isQuote c = false) (depth : Nat) (rest : Text) :
    openDepthFrom .outside depth (c :: rest) = openDepthFrom .outside (depth + step c).toNat rest := by
  simp [openDepthFrom_cons, stepFrom, Literal.State.reveals, Literal.State.next, unquoted]

end Bracket

namespace Segment

/-- Square brackets are matched among segments as they are in the text, as long as the comments
inside them are quiet. -/
theorem cutClosed_spell {segments : List Segment} (lexed : Lexed segments) {depth bound : Nat}
    (isOpen : 0 < depth) (le : depth ≤ bound) (quiet : QuietFrom bound segments) :
    Bracket.cutClosed .outside depth (spell segments) =
      (spell (cutClosed depth segments).1, spell (cutClosed depth segments).2) := by
  induction segments generalizing depth bound with
  | nil => rfl
  | cons segment rest ih =>
      have others := quietFrom_cons quiet
      rw [spell_cons]
      cases segment with
      | code c =>
          rw [Segment.text, List.singleton_append, Bracket.cutClosed_code lexed.1.1, cutClosed]
          by_cases closing : c = ']' ∧ (depth : Int) = 1
          · simp [closing, Segment.text]
          · have goesOn : ¬ (code c = .code ']' ∧ (depth : Int) = 1) := by simpa using closing
            obtain ⟨after, positive, counted⟩ := exists_depth_after isOpen goesOn
            have inner := ih lexed.2 positive (by omega) others
            rw [← counted] at inner
            rw [if_neg closing, if_neg goesOn, ← square, inner]
            simp [Segment.text]
      | literal text repair =>
          have inner := ih lexed.2 isOpen le (by simpa [square] using others)
          rw [Segment.text, (Bracket.reader_cutClosed depth).literal lexed.1, inner,
            Bracket.foldr_cons_fst, cutClosed, if_neg (by simp)]
          simp [square, Segment.text]
      | comment form text =>
          have inner := ih lexed.2 isOpen le (by simpa [square] using others)
          have passed := @Comment.read_quiet _ (Bracket.cutClosed .outside depth)
            (fun c parts => (c :: parts.1, parts.2)) (by
              intro c tail unquoted _ notOpen notClose
              simp [Bracket.cutClosed_code unquoted, Bracket.step, notOpen, notClose])
            text (quiet.1 (by omega)) (spell rest)
          rw [Segment.text, passed, inner, Bracket.foldr_cons_fst, cutClosed, if_neg (by simp)]
          simp [square, Segment.text]

/-- All comments among segments are quiet. -/
def AllQuiet (segments : List Segment) : Prop :=
  ∀ form text, .comment form text ∈ segments → Comment.isQuiet text

theorem AllQuiet.tail {segment : Segment} {rest : List Segment}
    (quiet : AllQuiet (segment :: rest)) : AllQuiet rest :=
  fun form text member => quiet form text (List.mem_cons_of_mem _ member)

theorem AllQuiet.quietFrom {segments : List Segment} (quiet : AllQuiet segments) (depth : Nat) :
    QuietFrom depth segments := by
  induction segments generalizing depth with
  | nil => trivial
  | cons segment rest ih =>
      cases segment with
      | code c => exact ih quiet.tail _
      | literal text repair => exact ih quiet.tail _
      | comment form text =>
          exact ⟨fun _ => quiet form text List.mem_cons_self, ih quiet.tail depth⟩

theorem openDepthFrom_spell {segments : List Segment} (lexed : Lexed segments)
    (quiet : AllQuiet segments) (depth : Nat) :
    Bracket.openDepthFrom .outside depth (spell segments) = openDepthFrom depth segments := by
  induction segments generalizing depth with
  | nil => rfl
  | cons segment rest ih =>
      have inner := ih lexed.2 quiet.tail
      rw [spell_cons, openDepthFrom, ← inner]
      cases segment with
      | code c => exact Bracket.openDepthFrom_code lexed.1.1 depth (spell rest)
      | literal text repair =>
          rw [Segment.text, (Bracket.reader_openDepthFrom depth).literal lexed.1,
            Bracket.foldr_const]
          simp [square]
      | comment form text =>
          have passed := @Comment.read_quiet _ (Bracket.openDepthFrom .outside depth)
            (fun _ depth => depth) (by
              intro c tail unquoted _ notOpen notClose
              simp [Bracket.openDepthFrom_code unquoted, Bracket.step, notOpen, notClose])
            text (quiet form text List.mem_cons_self) (spell rest)
          rw [Segment.text, passed, Bracket.foldr_const]
          simp [square]

end Segment

namespace Bracket

theorem Balance.isZero_iff {balance : Balance} : balance.isZero ↔ balance = {} := by
  cases balance
  simp [isZero, and_assoc]

/-- The counts after a character of code. -/
def Balance.after (tracked : List Bracket) (balance : Balance) (c : Char) : Balance :=
  match change? tracked c with
  | some (bracket, change) => balance.add bracket change
  | none => balance

theorem change?_eq_none {c : Char} (other : ∀ bracket : Bracket, bracket.opener ≠ c ∧ bracket.closer ≠ c)
    (tracked : List Bracket) : change? tracked c = none := by
  have noOpener : tracked.find? (fun bracket => decide (bracket.opener = c)) = none := by
    simp [other]
  have noCloser : tracked.find? (fun bracket => decide (bracket.closer = c)) = none := by
    simp [other]
  rw [change?, noOpener, noCloser]
  rfl

theorem ne_of_isBlank {c : Char} (blank : isBlank c) (bracket : Bracket) :
    bracket.opener ≠ c ∧ bracket.closer ≠ c := by
  have solid : isBlank bracket.opener = false ∧ isBlank bracket.closer = false := by
    cases bracket <;> decide
  constructor
  · rintro rfl
    simp [solid.1] at blank
  · rintro rfl
    simp [solid.2] at blank

theorem change?_comma (tracked : List Bracket) : change? tracked ',' = none := by
  apply change?_eq_none
  rintro (_ | _ | _) <;> decide

theorem splitFrom_code {c : Char} (unquoted : isQuote c = false) (tracked : List Bracket)
    (balance : Balance) (rest : Text) :
    splitFrom (· = ',') tracked .outside balance (c :: rest) =
      if c = ',' ∧ balance.isZero then
        [] :: splitFrom (· = ',') tracked .outside balance rest
      else consFirst c (splitFrom (· = ',') tracked .outside (balance.after tracked c) rest) := by
  rw [splitFrom, if_pos (by simp [Literal.State.reveals, unquoted])]
  have stays : Literal.State.outside.next c = .outside := by
    simp [Literal.State.next, unquoted]
  rw [stays, Balance.after]
  cases found : change? tracked c with
  | some counted =>
      have notComma : c ≠ ',' := by
        rintro rfl
        simp [change?_comma] at found
      simp [notComma]
  | none => simp

theorem foldr_consFirst_cons (text piece : Text) (pieces : List Text) :
    text.foldr consFirst (piece :: pieces) = (text ++ piece) :: pieces := by
  induction text with
  | nil => rfl
  | cons c text ih => rw [List.foldr_cons, ih]; rfl

theorem reader_splitFrom (tracked : List Bracket) (balance : Balance) :
    Literal.Reader (fun state => splitFrom (· = ',') tracked state balance) consFirst where
  hidden rest hidden := by simp [splitFrom, hidden]
  ended _ := rfl
  broken state rest := by
    simp [splitFrom, Literal.reveals_break, Literal.next_break]

end Bracket

namespace Segment

/-- The counts of brackets after a segment: a comment counts with all of its characters, a literal
with none. -/
def balance (tracked : List Bracket) (before : Bracket.Balance) : Segment → Bracket.Balance
  | .code c => before.after tracked c
  | .literal _ _ => before
  | .comment _ text => text.foldl (Bracket.Balance.after tracked) before

/-- Puts a segment in front of the first piece. -/
def consFirst (segment : Segment) : List (List Segment) → List (List Segment)
  | [] => [[segment]]
  | piece :: pieces => (segment :: piece) :: pieces

/-- Cuts segments at the commas at which every tracked kind is balanced. -/
def splitFrom (tracked : List Bracket) (before : Bracket.Balance) :
    List Segment → List (List Segment)
  | [] => [[]]
  | segment :: rest =>
      if segment = .code ',' ∧ before.isZero then [] :: splitFrom tracked before rest
      else consFirst segment (splitFrom tracked (segment.balance tracked before) rest)

theorem splitFrom_ne_nil (tracked : List Bracket) (before : Bracket.Balance)
    (segments : List Segment) : splitFrom tracked before segments ≠ [] := by
  cases segments with
  | nil => simp [splitFrom]
  | cons segment rest =>
      rw [splitFrom]
      split
      · simp
      · unfold consFirst
        split <;> simp

theorem foldr_consFirst (segment : Segment) {pieces : List (List Segment)} (filled : pieces ≠ []) :
    segment.text.foldr Bracket.consFirst (pieces.map spell) =
      (consFirst segment pieces).map spell := by
  obtain ⟨piece, others, rfl⟩ := List.exists_cons_of_ne_nil filled
  rw [List.map_cons, Bracket.foldr_consFirst_cons, consFirst, List.map_cons, spell_cons]

theorem splitFrom_quiet (tracked : List Bracket) (before : Bracket.Balance) {text : Text}
    (quiet : Comment.isQuiet text) (rest : Text) :
    Bracket.splitFrom (· = ',') tracked .outside before (text ++ rest) =
      text.foldr Bracket.consFirst (Bracket.splitFrom (· = ',') tracked .outside
        (text.foldl (Bracket.Balance.after tracked) before) rest) := by
  induction text generalizing before with
  | nil => rfl
  | cons c text ih =>
      obtain ⟨⟨unquoted, notComma, -, -⟩, others⟩ := Comment.isQuiet_cons quiet
      rw [List.cons_append, Bracket.splitFrom_code unquoted, if_neg (fun cut => notComma cut.1),
        ih _ others, List.foldl_cons, List.foldr_cons]

/-- Commas are found among segments as they are in the text, if the comments are quiet. -/
theorem splitFrom_spell {segments : List Segment} (lexed : Lexed segments)
    (quiet : AllQuiet segments) (tracked : List Bracket) (before : Bracket.Balance) :
    Bracket.splitFrom (· = ',') tracked .outside before (spell segments) =
      (splitFrom tracked before segments).map spell := by
  induction segments generalizing before with
  | nil => rfl
  | cons segment rest ih =>
      have inner := ih lexed.2 quiet.tail
      have put := @foldr_consFirst segment _ (splitFrom_ne_nil tracked
        (segment.balance tracked before) rest)
      rw [spell_cons, splitFrom]
      cases segment with
      | code c =>
          rw [Segment.text, List.singleton_append, Bracket.splitFrom_code lexed.1.1]
          by_cases cuts : c = ',' ∧ before.isZero
          · rw [if_pos cuts, if_pos (by simpa using cuts), List.map_cons, inner, spell_nil]
          · rw [if_neg cuts, if_neg (by simpa using cuts), inner, ← put]
            rfl
      | literal text repair =>
          rw [if_neg (by simp), ← put, Segment.text,
            (Bracket.reader_splitFrom tracked before).literal lexed.1, inner]
          rfl
      | comment form text =>
          rw [if_neg (by simp), ← put, Segment.text,
            splitFrom_quiet tracked before (quiet form text List.mem_cons_self), inner]
          rfl

/-- The pieces stand in the segments, the first one at their start. -/
theorem infix_of_splitFrom {tracked : List Bracket} {before : Bracket.Balance}
    {segments piece : List Segment} {pieces : List (List Segment)}
    (cut : splitFrom tracked before segments = piece :: pieces) :
    piece <+: segments ∧ ∀ other ∈ pieces, other <:+: segments := by
  induction segments generalizing before piece pieces with
  | nil =>
      simp only [splitFrom, List.cons.injEq] at cut
      simp [← cut.1, ← cut.2]
  | cons segment rest ih =>
      rw [splitFrom] at cut
      split at cut
      · simp only [List.cons.injEq] at cut
        obtain ⟨rfl, found⟩ := cut
        obtain ⟨first, others, same⟩ := List.exists_cons_of_ne_nil (splitFrom_ne_nil tracked before rest)
        obtain ⟨prefixed, inside⟩ := ih same
        refine ⟨List.nil_prefix, ?_⟩
        intro other member
        rw [← found, same] at member
        rcases List.mem_cons.1 member with rfl | later
        · exact prefixed.isInfix.trans (List.infix_cons (List.infix_refl _))
        · exact (inside other later).trans (List.infix_cons (List.infix_refl _))
      · obtain ⟨first, others, same⟩ := List.exists_cons_of_ne_nil
          (splitFrom_ne_nil tracked (segment.balance tracked before) rest)
        obtain ⟨prefixed, inside⟩ := ih same
        rw [same, consFirst] at cut
        simp only [List.cons.injEq] at cut
        obtain ⟨rfl, rfl⟩ := cut
        refine ⟨List.cons_prefix_cons.2 ⟨rfl, prefixed⟩, ?_⟩
        intro other member
        exact (inside other member).trans (List.infix_cons (List.infix_refl _))

theorem Lexed.of_infix {part whole : List Segment} (lexed : Lexed whole) (inside : part <:+: whole) :
    Lexed part := by
  obtain ⟨before, after, rfl⟩ := inside
  exact lexed.left.right

theorem infix_of_mem_splitFrom {segments piece : List Segment} {tracked : List Bracket}
    {before : Bracket.Balance} (member : piece ∈ splitFrom tracked before segments) :
    piece <:+: segments := by
  obtain ⟨first, others, same⟩ := List.exists_cons_of_ne_nil
    (splitFrom_ne_nil tracked before segments)
  obtain ⟨prefixed, inside⟩ := infix_of_splitFrom same
  rw [same] at member
  rcases List.mem_cons.1 member with rfl | later
  · exact prefixed.isInfix
  · exact inside piece later

theorem Lexed.of_mem_splitFrom {segments piece : List Segment} (lexed : Lexed segments)
    {tracked : List Bracket} {before : Bracket.Balance}
    (member : piece ∈ splitFrom tracked before segments) : Lexed piece :=
  lexed.of_infix (infix_of_mem_splitFrom member)

end Segment

end IdlFormat
