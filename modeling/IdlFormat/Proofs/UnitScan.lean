import IdlFormat.Proofs.Rereading
import IdlFormat.Proofs.UnitEnd

/-!
# The extent of a unit

Where a unit ends depends on the brackets that its segments leave open: `Nesting.passes?`. A unit
that is cut off a text passes over all of its segments (`ends_cutFrom`), and segments that are passed
over are cut off whole (`through_of_passes?`). Spacing does not count, so a unit keeps its extent when
it is respaced.
-/

namespace IdlFormat

namespace CodeUnit

open Segment (Lexed QuietFrom spell skeleton)

/-- The brackets that are open after a segment, or none if the unit does not go on over it. -/
def Nesting.pass? (nesting : Nesting) : Segment → Option Nesting
  | .code c => nesting.step? c
  | .literal _ _ => some nesting
  | .comment _ _ => if nesting = {} then none else some nesting

/-- The brackets that are open after segments, or none if the unit does not go on over them. -/
def Nesting.passes? (nesting : Nesting) (segments : List Segment) : Option Nesting :=
  segments.foldlM pass? nesting

namespace Nesting

variable {nesting : Nesting} {segment : Segment} {segments left right : List Segment}

theorem passes?_nil (nesting : Nesting) : nesting.passes? [] = some nesting := rfl

theorem passes?_cons (nesting : Nesting) (segment : Segment) (segments : List Segment) :
    nesting.passes? (segment :: segments) = (nesting.pass? segment).bind (·.passes? segments) := rfl

theorem passes?_append (nesting : Nesting) (left right : List Segment) :
    nesting.passes? (left ++ right) = (nesting.passes? left).bind (·.passes? right) :=
  List.foldlM_append

theorem after?_cons (nesting : Nesting) (segment : Segment) (segments : List Segment) :
    nesting.after? (segment :: segments) = (nesting.after? [segment]).bind (·.after? segments) :=
  after?_append nesting [segment] segments

theorem after?_of_pass? {after : Nesting} (passed : nesting.pass? segment = some after) :
    nesting.after? [segment] = some after := by
  cases segment with
  | code c =>
      rw [after?_code]
      rw [pass?] at passed
      rw [passed]
      rfl
  | literal text repair =>
      rw [after?_literal]
      exact passed
  | comment form text =>
      rw [pass?] at passed
      split at passed
      · cases passed
      · obtain rfl := Option.some.inj passed
        exact congrArg (Option.bind · _) (step?_mark nesting)

/-- Where comments are passed over, only the brackets count. -/
theorem after?_of_passes? {after : Nesting} (passed : nesting.passes? segments = some after) :
    nesting.after? segments = some after := by
  induction segments generalizing nesting with
  | nil => exact passed
  | cons segment segments ih =>
      rw [passes?_cons] at passed
      obtain ⟨next, step, later⟩ := Option.bind_eq_some_iff.1 passed
      rw [after?_cons, after?_of_pass? step]
      exact ih later

/-- A comment inside of brackets is passed over. -/
theorem pass?_comment {state : State} (deep : ¬ state.isTop) (form : Comment.Form) (text : Text) :
    (state.nesting 0).pass? (.comment form text) = some (state.skip.nesting 0) := by
  rw [pass?, if_neg fun top => deep (State.isTop_iff.2 top)]
  rfl

/-- Inside of square brackets everything is passed over. -/
theorem pass?_inside (parens angles : Int) (depth : Nat) (segment : Segment) :
    pass? ⟨parens, angles, depth + 1⟩ segment =
      some ⟨parens, angles, ((depth + 1 : Nat) + segment.square).toNat⟩ := by
  cases segment with
  | code c => exact step?_inside parens angles depth c
  | literal text repair => rfl
  | comment form text =>
      rw [pass?, if_neg (by simp)]
      rfl

theorem passes?_cutClosed (parens angles : Int) (depth : Nat) (segments : List Segment) :
    passes? ⟨parens, angles, depth + 1⟩ (Segment.cutClosed (depth + 1 : Nat) segments).1 =
      after? ⟨parens, angles, depth + 1⟩ (Segment.cutClosed (depth + 1 : Nat) segments).1 := by
  induction segments generalizing depth with
  | nil => rfl
  | cons segment segments ih =>
      rw [Segment.cutClosed]
      split
      · rw [passes?_cons, pass?_inside, after?_cons, after?_of_pass? (pass?_inside _ _ _ _)]
        rfl
      · next goesOn =>
          obtain ⟨after, positive, stays⟩ := Segment.exists_depth_after (Nat.succ_pos depth) goesOn
          obtain ⟨after, rfl⟩ := Nat.exists_eq_add_one.2 positive
          have inner := ih after
          rw [passes?_cons, pass?_inside, after?_cons, after?_of_pass? (pass?_inside _ _ _ _), stays]
          exact inner

/-- A block is passed over, whether it is closed or not. -/
theorem passes?_cutBlock (state : State) (rest : List Segment) :
    (∃ inner later, Segment.cutClosed 0 (.code '[' :: rest) = (inner ++ [Segment.code ']'], later) ∧
      (state.nesting 0).passes? (inner ++ [Segment.code ']']) = some (state.nesting 0)) ∨
      (Segment.cutClosed 0 (.code '[' :: rest)).2 = [] ∧
        ∃ deeper, (state.nesting 0).passes? (.code '[' :: rest) =
          some (state.nesting (deeper + 1)) := by
  have counted : (state.nesting 0).passes? (Segment.cutClosed 0 (.code '[' :: rest)).1 =
      (state.nesting 0).after? (Segment.cutClosed 0 (.code '[' :: rest)).1 := by
    have opened : (state.nesting 0).pass? (.code '[') = some (state.nesting 1) := step?_opening state
    rw [Segment.cutClosed_opening, passes?_cons, opened, after?_cons, after?_of_pass? opened]
    exact passes?_cutClosed state.parens state.angles 0 rest
  have parts := Segment.cutClosed_append 0 (.code '[' :: rest)
  rcases Segment.cutBlock_cases state rest with ⟨inner, later, taken, nested⟩ | ⟨untaken, unclosed⟩
  · rw [taken] at counted
    exact .inl ⟨inner, later, taken, counted.trans nested⟩
  · rw [untaken, List.append_nil] at parts
    obtain ⟨deeper, nested⟩ := unclosed rest [] (List.append_nil rest).symm
    rw [parts] at counted
    exact .inr ⟨untaken, deeper, counted.trans nested⟩

end Nesting

end CodeUnit

theorem Segment.split_nil : Segment.split [] = [] := by
  rw [split]
  rfl

theorem Segment.Fits.of_append {segment : Segment} {left right : Text}
    (fits : segment.Fits (left ++ right).head?) : segment.Fits left.head? := by
  cases left with
  | nil => exact fits.atEnd
  | cons c left => exact fits

theorem Segment.QuietFrom.concat_code {segments : List Segment} {depth : Nat}
    (quiet : QuietFrom depth segments) (c : Char) : QuietFrom depth (segments ++ [.code c]) := by
  induction segments generalizing depth with
  | nil => trivial
  | cons segment segments ih =>
      cases segment with
      | code d => exact ih quiet
      | literal text repair => exact ih quiet
      | comment form text => exact ⟨quiet.1, ih quiet.2⟩

/-- A block that something follows is cut off in front of anything. -/
theorem Bracket.cutClosed_taken_append {state : Literal.State} {depth : Int} {text : Text}
    (filled : (cutClosed state depth text).2 ≠ []) (more : Text) :
    cutClosed state depth ((cutClosed state depth text).1 ++ more) =
      ((cutClosed state depth text).1, more) := by
  induction text generalizing state depth with
  | nil => exact absurd rfl filled
  | cons c rest ih =>
      rw [cutClosed_cons] at filled ⊢
      split at filled
      · next closes => rw [if_pos closes, List.singleton_append, cutClosed_cons, if_pos closes]
      · next goesOn =>
          rw [if_neg goesOn, List.cons_append, cutClosed_cons, if_neg goesOn, ih filled]

namespace CodeUnit

open Segment (Lexed QuietFrom spell skeleton)

/-- The characters before which a unit ends, where no bracket is open. -/
def stops (text : Text) : Bool :=
  (Comment.form? text).isSome || text.head?.any (['{', '}', '#'].contains ·)

/-- How the segments of a unit end in front of a text. -/
inductive Ends (nesting : Nesting) : List Segment → Text → Prop
  /-- A semicolon ends it. -/
  | semicolon {body : List Segment} {rest : Text} (passed : nesting.passes? body = some {}) :
      Ends nesting (body ++ [.code ';']) rest
  /-- A comment, a brace or a directive follows. -/
  | stopped {segments : List Segment} {rest : Text} (passed : nesting.passes? segments = some {})
      (stops : stops rest) : Ends nesting segments rest
  /-- The text ends, whatever is open. -/
  | ended {segments : List Segment} {after : Nesting}
    (passed : nesting.passes? segments = some after) :
      Ends nesting segments []

theorem Ends.append {nesting next : Nesting} {left right : List Segment} {rest : Text}
    (passed : nesting.passes? left = some next) (ends : Ends next right rest) :
    Ends nesting (left ++ right) rest := by
  have goesOn (more : List Segment) : nesting.passes? (left ++ more) = next.passes? more := by
    rw [Nesting.passes?_append, passed]
    rfl
  cases ends with
  | semicolon nested =>
      rw [← List.append_assoc]
      exact .semicolon ((goesOn _).trans nested)
  | stopped nested stops => exact .stopped ((goesOn _).trans nested) stops
  | ended nested => exact .ended ((goesOn _).trans nested)

theorem Ends.cons {nesting next : Nesting} {segment : Segment} {segments : List Segment} {rest : Text}
    (passed : nesting.pass? segment = some next) (ends : Ends next segments rest) :
    Ends nesting (segment :: segments) rest := by
  have single : nesting.passes? [segment] = some next := by
    rw [Nesting.passes?_cons, passed]
    rfl
  exact Ends.append single ends

/-- A block that runs on to the end of the text is passed over. -/
theorem exists_passes?_block (state : State) {rest : Text}
    (cut : Bracket.cutBlock ('[' :: rest) = ('[' :: rest, []))
    (quiet : QuietFrom 0 (Segment.split ('[' :: rest))) :
    ∃ after, (state.nesting 0).passes? (Segment.split ('[' :: rest)) = some after := by
  have noComment : Comment.form? ('[' :: rest) = none := rfl
  rw [Segment.split_of_code noComment (by decide)] at quiet ⊢
  have spelled := Segment.cutBlock_spell (Segment.lexed_split rest) quiet
  have parts := Segment.cutClosed_append 0 (.code '[' :: Segment.split rest)
  rw [Segment.spell_cons, Segment.spell_split] at spelled
  rcases Nesting.passes?_cutBlock state (Segment.split rest) with
    ⟨inner, later, taken, passed⟩ | ⟨-, deeper, passed⟩
  · rw [taken] at spelled parts
    have lexed : Lexed (.code '[' :: Segment.split rest) :=
      Segment.split_of_code noComment (by decide) ▸ Segment.lexed_split ('[' :: rest)
    rw [← parts] at lexed
    have none : later = [] :=
      lexed.right.eq_nil_of_spell (congrArg Prod.snd (spelled.symm.trans cut))
    have whole : inner ++ [Segment.code ']'] = .code '[' :: Segment.split rest := by
      rw [← parts, none, List.append_nil]
    rw [whole] at passed
    exact ⟨_, passed⟩
  · exact ⟨_, passed⟩

/-- A block that something follows is closed, and behind it the same brackets are open as before. -/
theorem exists_split_block {rest unit : Text} (filled : (Bracket.cutBlock ('[' :: rest)).2 ≠ [])
    (fits : ∀ segment ∈ Segment.split ((Bracket.cutBlock ('[' :: rest)).1 ++ unit),
      segment.Fits (some '\n'))
    (quiet : QuietFrom 0 (Segment.split ((Bracket.cutBlock ('[' :: rest)).1 ++ unit))) :
    ∃ block,
      Segment.split ((Bracket.cutBlock ('[' :: rest)).1 ++ unit) = block ++ Segment.split unit ∧
      ∀ state : State, (state.nesting 0).passes? block = some (state.nesting 0) := by
  have again : Bracket.cutBlock ((Bracket.cutBlock ('[' :: rest)).1 ++ (unit ++ ['\n'])) =
      ((Bracket.cutBlock ('[' :: rest)).1, unit ++ ['\n']) :=
    Bracket.cutClosed_taken_append filled (unit ++ ['\n'])
  obtain ⟨inside, starts⟩ : ∃ inside, (Bracket.cutBlock ('[' :: rest)).1 = '[' :: inside := by
    rw [Bracket.cutBlock, Bracket.cutClosed_code (by decide), if_neg (by decide)]
    exact ⟨_, rfl⟩
  have read : Segment.split ('[' :: (inside ++ unit)) = .code '[' :: Segment.split (inside ++ unit) :=
    Segment.split_of_code rfl (by decide)
  rw [starts] at again
  rw [starts, List.cons_append, read] at fits quiet ⊢
  generalize shape : Segment.split (inside ++ unit) = segments at fits quiet read ⊢
  have spelled : spell segments = inside ++ unit := by rw [← shape, Segment.spell_split]
  have lexed : Lexed (segments ++ [.code '\n']) := by
    refine Segment.Lexed.append (shape ▸ Segment.lexed_split _) ⟨⟨by decide, rfl⟩, trivial⟩
      fun segment member => fits segment (List.mem_cons_of_mem _ member)
  have cut := Segment.cutBlock_spell lexed (Segment.QuietFrom.concat_code quiet '\n')
  have whole : spell (.code '[' :: (segments ++ [Segment.code '\n'])) =
      '[' :: inside ++ (unit ++ ['\n']) := by
    rw [Segment.spell_cons, Segment.spell_append, spelled, List.append_assoc]
    rfl
  rw [whole, again] at cut
  have parts := Segment.cutClosed_append 0 (.code '[' :: (segments ++ [.code '\n']))
  have behind := congrArg Prod.snd cut
  have passing (state : State) := Nesting.passes?_cutBlock state (segments ++ [.code '\n'])
  generalize Segment.cutClosed 0 (.code '[' :: (segments ++ [.code '\n'])) = pair
    at parts behind passing
  obtain ⟨block, later⟩ := pair
  dsimp only at parts behind passing
  rcases List.eq_nil_or_concat later with rfl | ⟨after, last, rfl⟩
  · exact absurd behind (by simp)
  · rw [List.concat_eq_append] at parts behind passing
    rw [← List.append_assoc, ← List.cons_append] at parts
    obtain ⟨same, ends⟩ := List.append_inj' parts rfl
    obtain rfl := (List.cons.inj ends).1
    rw [Segment.spell_append] at behind
    have spelledAfter : unit = spell after := (List.append_inj' behind rfl).1
    have lexedAfter : Lexed (block ++ after) := by
      rw [same, ← read]
      exact Segment.lexed_split _
    refine ⟨block, ?_, fun state => ?_⟩
    · rw [← same, spelledAfter, Segment.split_spell lexedAfter.right]
    · rcases passing state with ⟨inner, more, taken, passed⟩ | ⟨untaken, -⟩
      · rw [Prod.mk.injEq] at taken
        rw [taken.1, passed]
      · simp at untaken

/-- The segments of a unit that is cut off a text are passed over up to its end. -/
theorem ends_cutFrom (state : State) (text : Text)
    (fits : ∀ segment ∈ Segment.split (cutFrom state text).1, segment.Fits (some '\n'))
    (quiet : QuietFrom 0 (Segment.split (cutFrom state text).1)) :
    Ends (state.nesting 0) (Segment.split (cutFrom state text).1) (cutFrom state text).2 := by
  fun_induction cutFrom state text with
  | case1 state text form opens top =>
      rw [Segment.split_nil]
      exact .stopped (congrArg some (State.isTop_iff.1 top)) (by simp [stops, opens])
  | case2 state text form opens deep comment more ih =>
      have parts := cutFrom_append state.skip comment.2
      have own := Comment.fits_cut opens
      rw [← parts] at own
      have read := Segment.split_text_append own.of_append
      simp only [Segment.text] at read
      simp only [more, comment] at read fits quiet ih ⊢
      rw [read] at fits quiet ⊢
      exact .cons (Nesting.pass?_comment deep form _)
        (ih (fun segment member => fits segment (List.mem_cons_of_mem _ member))
          (Segment.quietFrom_cons quiet))
  | case3 state =>
      rw [Segment.split_nil]
      exact .ended (Nesting.passes?_nil _)
  | case4 state c rest noComment quoted literal more ih =>
      have parts := cutFrom_append state.skip literal.rest
      have own := (Segment.lexed_split (c :: rest))
      rw [Segment.split_of_quote quoted] at own
      have own := own.1
      rw [Segment.spell_split, ← parts] at own
      have read := Segment.split_text_append own.of_append
      simp only [Segment.text] at read
      simp only [more, literal] at read fits quiet ih ⊢
      rw [read] at fits quiet ⊢
      exact .cons rfl (ih (fun segment member => fits segment (List.mem_cons_of_mem _ member))
        (Segment.quietFrom_cons quiet))
  | case5 state rest noComment unquoted block more ih =>
      have parts := Bracket.cutBlock_append ('[' :: rest)
      simp only [more, block] at fits quiet ih ⊢
      by_cases filled : (Bracket.cutBlock ('[' :: rest)).2 = []
      · have none : cutFrom state.skip [] = ([], []) := by rw [cutFrom]; rfl
        rw [filled, List.append_nil] at parts
        rw [filled, none, List.append_nil, parts] at quiet ⊢
        obtain ⟨after, passed⟩ := exists_passes?_block state (Prod.ext parts filled) quiet
        exact .ended passed
      · obtain ⟨taken, read, passed⟩ := exists_split_block filled fits quiet
        rw [read] at fits quiet ⊢
        exact .append (passed state)
          (ih (fun segment member => fits segment (List.mem_append_right _ member)) quiet.right)
  | case6 state c rest noComment unquoted notOpen stops =>
      rw [Segment.split_nil]
      simp only [State.stopsBefore, Bool.and_eq_true, Bool.or_eq_true, decide_eq_true_eq] at stops
      refine .stopped (congrArg some (State.isTop_iff.1 stops.1)) ?_
      rcases stops.2 with (rfl | rfl) | ⟨rfl, -⟩ <;> simp [CodeUnit.stops]
  | case7 state c rest noComment unquoted notOpen goesOn ends =>
      simp only [Bool.and_eq_true, decide_eq_true_eq] at ends
      have single : Segment.split [';'] = [] ++ [Segment.code ';'] := by decide +kernel
      rw [ends.2, single]
      exact .semicolon (congrArg some (State.isTop_iff.1 ends.1))
  | case8 state c rest noComment unquoted notOpen goesOn notEnd more ih =>
      have parts := cutFrom_append (state.next c) rest
      have own : (Segment.code c).Fits rest.head? := by
        simp only [Bool.not_eq_true] at unquoted
        exact ⟨unquoted, (Comment.form?_cons_eq_none_iff c rest).1 noComment⟩
      rw [← parts] at own
      have read := Segment.split_text_append own.of_append
      simp only [Segment.text, List.singleton_append] at read
      simp only [more] at read fits quiet ih ⊢
      rw [read] at fits quiet ⊢
      simp only [Bool.not_eq_true] at goesOn notEnd
      exact .cons (Nesting.step?_of_goesOn notOpen goesOn notEnd)
        (ih (fun segment member => fits segment (List.mem_cons_of_mem _ member))
          ((Segment.quietFrom_cons quiet).of_le (Nat.zero_le _)))

theorem cutFrom_comment {state : State} {form : Comment.Form} {text rest : Text}
    (fits : (Segment.comment form text).Fits rest.head?) (deep : ¬ state.isTop) :
    cutFrom state (text ++ rest) =
      (text ++ (cutFrom state.skip rest).1, (cutFrom state.skip rest).2) := by
  have found := fits.form?_comment rest
  rw [cutFrom]
  split
  · next other opens =>
      obtain rfl : form = other := by simpa [found] using opens
      simp [deep, fits.cut_comment]
  · next none => simp [found] at none

theorem cutFrom_literal {state : State} {text repair rest : Text}
    (fits : (Segment.literal text repair).Fits rest.head?) :
    cutFrom state (text ++ rest) =
      (text ++ (cutFrom state.skip rest).1, (cutFrom state.skip rest).2) := by
  obtain ⟨quote, body, rfl, quoted, noComment, scanned⟩ := fits.scan_literal
  rw [List.cons_append, cutFrom]
  split
  · next form opens => simp [noComment] at opens
  · simp [quoted, scanned]

/-- Segments in front of a character are taken whole: where no square bracket is left open the scan
goes on behind them, and otherwise everything is taken. -/
structure Through (state : State) (segments : List Segment) (last : Char) (after : Nesting) :
    Prop where
  /-- The scan goes on with the brackets that are open. -/
  goesOn : after.squares = 0 → ∃ final : State, final.nesting 0 = after ∧ ∀ more,
    cutFrom state (spell segments ++ last :: more) =
      (spell segments ++ (cutFrom final (last :: more)).1, (cutFrom final (last :: more)).2)
  /-- An open block runs on to the end of the text. -/
  runsOn : after.squares ≠ 0 →
    cutFrom state (spell segments ++ [last]) = (spell segments ++ [last], [])

variable {state next : State} {segments head tail : List Segment} {last : Char} {after : Nesting}

theorem Through.nil (state : State) (last : Char) : Through state [] last (state.nesting 0) where
  goesOn _ := ⟨state, rfl, fun _ => rfl⟩
  runsOn inside := absurd rfl inside

theorem Through.append (through : Through next tail last after) (head : List Segment)
    (step : ∀ more, cutFrom state (spell head ++ (spell tail ++ last :: more)) =
      (spell head ++ (cutFrom next (spell tail ++ last :: more)).1,
        (cutFrom next (spell tail ++ last :: more)).2)) :
    Through state (head ++ tail) last after where
  goesOn flat := by
    obtain ⟨final, same, later⟩ := through.goesOn flat
    refine ⟨final, same, fun more => ?_⟩
    rw [Segment.spell_append, List.append_assoc, step, later, List.append_assoc]
  runsOn deep := by
    rw [Segment.spell_append, List.append_assoc, step, through.runsOn deep]

theorem head?_spell_last (segments : List Segment) (last : Char) (more : Text) :
    (spell segments ++ last :: more).head? = (spell (segments ++ [.code last])).head? := by
  rw [Segment.spell_append]
  cases spell segments <;> rfl

/-- A closed block is passed over whole. -/
theorem through_block {inner following : List Segment}
    (starts : inner ++ following = .code '[' :: tail)
    (cut : Bracket.cutBlock (spell (inner ++ following ++ [.code last])) =
      (spell inner, spell (following ++ [.code last])))
    (through : Through state.skip following last after) :
    Through state (inner ++ following) last after := by
  refine through.append inner fun more => ?_
  have filled : (Bracket.cutBlock (spell (inner ++ following ++ [.code last]))).2 ≠ [] := by
    rw [cut]
    simp [Segment.spell_append, Segment.text]
  have found := Bracket.cutBlock_append_of_rest filled more
  have whole : spell (inner ++ following ++ [.code last]) ++ more =
      spell inner ++ (spell following ++ last :: more) := by
    simp [Segment.spell_append, Segment.text]
  have behind : spell (following ++ [.code last]) ++ more = spell following ++ last :: more := by
    simp [Segment.spell_append, Segment.text]
  obtain ⟨rest, opens⟩ : ∃ rest, spell inner ++ (spell following ++ last :: more) = '[' :: rest := by
    rw [← whole, starts]
    exact ⟨_, rfl⟩
  rw [cut, behind, whole, opens] at found
  have noComment : Comment.form? ('[' :: rest) = none := rfl
  rw [opens, cutFrom_code noComment (by decide), if_pos rfl, found]

/-- What stands behind a closed block ends in the same character. -/
theorem exists_following {inner later : List Segment} (notClose : last ≠ ']')
    (parts : inner ++ [.code ']'] ++ later = .code '[' :: (tail ++ [.code last])) :
    ∃ following, later = following ++ [.code last] ∧
      inner ++ [.code ']'] ++ following = .code '[' :: tail := by
  rcases List.eq_nil_or_concat later with rfl | ⟨following, code, rfl⟩
  · rw [List.append_nil, ← List.cons_append] at parts
    have ends := (List.cons.inj (List.append_inj' parts rfl).2).1
    exact absurd (Segment.code.inj ends).symm notClose
  · rw [List.concat_eq_append, ← List.append_assoc, ← List.cons_append] at parts
    obtain ⟨same, ends⟩ := List.append_inj' parts rfl
    obtain rfl := (List.cons.inj ends).1
    exact ⟨following, List.concat_eq_append, same⟩

/-- A block that is not closed runs on to the end of the text. -/
theorem through_open
    (cut : Bracket.cutBlock (spell (.code '[' :: (tail ++ [.code last]))) =
      (spell (.code '[' :: (tail ++ [.code last])), []))
    (deep : after.squares ≠ 0) : Through state (.code '[' :: tail) last after where
  goesOn flat := absurd flat deep
  runsOn _ := by
    have noComment : ∀ rest, Comment.form? ('[' :: rest) = none := fun _ => rfl
    have step := cutFrom_code (noComment (spell (tail ++ [.code last])))
      (by decide : isQuote '[' = false) state
    have none : cutFrom state.skip [] = ([], []) := by rw [cutFrom]; rfl
    have whole : spell (.code '[' :: tail) ++ [last] = '[' :: spell (tail ++ [.code last]) := by
      rw [Segment.spell_append]
      rfl
    have found : Bracket.cutBlock ('[' :: spell (tail ++ [.code last])) =
        ('[' :: spell (tail ++ [.code last]), []) := cut
    rw [whole, step, if_pos rfl, found, none, List.append_nil]

/-- Where no segment of a text starts a directive, none behind the first ones does. -/
theorem noDirective_skip (head : List Segment)
    (noDirective : (state.atLineStart = false ∧ '\n' ∉ skeleton (head ++ tail)) ∨
      '#' ∉ skeleton (head ++ tail)) :
    (state.skip.atLineStart = false ∧ '\n' ∉ skeleton tail) ∨ '#' ∉ skeleton tail := by
  rw [Segment.skeleton_append, List.mem_append, List.mem_append, not_or, not_or] at noDirective
  exact noDirective.imp (fun line => ⟨rfl, line.2.2⟩) fun hash => hash.2

/-- A comment inside of brackets is passed over. -/
theorem through_comment {form : Comment.Form} {text : Text}
    (lexed : Lexed (.comment form text :: (tail ++ [.code last]))) (deep : ¬ state.isTop)
    (through : Through state.skip tail last after) :
    Through state (.comment form text :: tail) last after := by
  refine through.append [.comment form text] fun more => ?_
  have fits := lexed.1
  rw [← head?_spell_last tail last more] at fits
  simpa [Segment.text] using cutFrom_comment fits deep

/-- A literal is passed over. -/
theorem through_literal {text repair : Text}
    (lexed : Lexed (.literal text repair :: (tail ++ [.code last])))
    (through : Through state.skip tail last after) :
    Through state (.literal text repair :: tail) last after := by
  refine through.append [.literal text repair] fun more => ?_
  have fits := lexed.1
  rw [← head?_spell_last tail last more] at fits
  simpa [Segment.text] using cutFrom_literal fits

/-- A character that does not end the unit is passed over. -/
theorem through_code {c : Char} (lexed : Lexed (.code c :: (tail ++ [.code last])))
    (notOpen : c ≠ '[') (goesOn : state.stopsBefore c = false)
    (notEnd : ¬ (state.isTop && decide (c = ';')) = true)
    (through : Through (state.next c) tail last after) :
    Through state (.code c :: tail) last after := by
  refine through.append [.code c] fun more => ?_
  have fits := lexed.1
  rw [← head?_spell_last tail last more] at fits
  have found := cutFrom_code fits.form?_code fits.1 state
  simpa [Segment.text, notOpen, goesOn, notEnd] using found

/-- Where no segment of a text starts a directive, none behind its first character does. -/
theorem noDirective_next {c : Char}
    (noDirective : (state.atLineStart = false ∧ '\n' ∉ skeleton (.code c :: tail)) ∨
      '#' ∉ skeleton (.code c :: tail)) :
    ((state.next c).atLineStart = false ∧ '\n' ∉ skeleton tail) ∨ '#' ∉ skeleton tail := by
  refine noDirective.imp (fun line => ⟨?_, fun member => line.2 (List.mem_cons_of_mem _ member)⟩)
    fun hash member => hash (List.mem_cons_of_mem _ member)
  have inLine : c ≠ '\n' := fun isBreak => line.2 (by rw [isBreak]; exact List.mem_cons_self)
  simp [State.next, line.1, inLine]

/-- A block is passed over, whether something follows it or not. -/
theorem through_opening (lexed : Lexed (.code '[' :: (tail ++ [.code last])))
    (quiet : QuietFrom 0 (.code '[' :: (tail ++ [.code last]))) (notClose : last ≠ ']')
    (noDirective : (state.atLineStart = false ∧ '\n' ∉ skeleton (.code '[' :: tail)) ∨
      '#' ∉ skeleton (.code '[' :: tail))
    (passed : (state.nesting 0).passes? (.code '[' :: tail) = some after)
    (behind : ∀ following,
      following ++ [.code last] = (Segment.cutClosed 0 (.code '[' :: (tail ++ [.code last]))).2 →
      Lexed (following ++ [.code last]) → QuietFrom 0 (following ++ [.code last]) →
      ((state.skip.atLineStart = false ∧ '\n' ∉ skeleton following) ∨ '#' ∉ skeleton following) →
      (state.skip.nesting 0).passes? following = some after →
      Through state.skip following last after) :
    Through state (.code '[' :: tail) last after := by
  have cut := Segment.cutBlock_spell lexed.2 quiet
  have parts := Segment.cutClosed_append 0 (.code '[' :: (tail ++ [.code last]))
  rcases Segment.cutBlock_cases state (tail ++ [.code last]) with
    ⟨inner, later, taken, nested⟩ | ⟨untaken, unclosed⟩
  · rw [taken] at cut parts behind
    obtain ⟨following, rfl, same⟩ := exists_following notClose parts
    rw [← parts] at lexed quiet
    rw [← same] at passed noDirective ⊢
    rw [Nesting.passes?_append] at passed
    obtain ⟨next, passedBlock, passedLater⟩ := Option.bind_eq_some_iff.1 passed
    rw [Nesting.after?_of_passes? passedBlock] at nested
    obtain rfl := Option.some.inj nested
    exact through_block same (by rwa [same]) (behind following rfl lexed.right quiet.right
      (noDirective_skip (inner ++ [.code ']']) noDirective) passedLater)
  · obtain ⟨deeper, nested⟩ := unclosed tail _ rfl
    rw [Nesting.after?_of_passes? passed] at nested
    obtain rfl := Option.some.inj nested
    rw [untaken, List.append_nil] at parts
    rw [untaken, parts] at cut
    exact through_open cut (Nat.succ_ne_zero deeper)

/-- A brace or a semicolon outside of brackets is not passed over. -/
theorem pass?_eq_none_of_ends {c : Char} (notOpen : c ≠ '[') (top : state.isTop)
    (ends : c = '{' ∨ c = '}' ∨ c = ';') : (state.nesting 0).pass? (.code c) = none := by
  rw [Nesting.pass?, Nesting.step?_of_ends notOpen top ends]

/-- Segments that are passed over are taken whole. -/
theorem through_of_passes? (lexed : Lexed (segments ++ [.code last]))
    (quiet : QuietFrom 0 (segments ++ [.code last])) (notClose : last ≠ ']')
    (noDirective : (state.atLineStart = false ∧ '\n' ∉ skeleton segments) ∨ '#' ∉ skeleton segments)
    (passed : (state.nesting 0).passes? segments = some after) :
    Through state segments last after := by
  -- the recursion is that of the scan, as what follows a block is no immediate part of the segments
  generalize shape : segments ++ [.code last] = whole at lexed quiet
  revert segments after
  fun_induction Segment.cutUnit state whole with
  | case1 state => intro segments after _ _ shape; simp at shape
  | case2 state form text rest top =>
      intro segments after _ passed shape
      rcases List.append_eq_cons_iff.1 shape with ⟨-, single⟩ | ⟨tail, rfl, -⟩
      · simp at single
      · rw [Nesting.passes?_cons, Nesting.pass?, if_pos (State.isTop_iff.1 top)] at passed
        cases passed
  | case3 state form text rest deep more ih =>
      intro segments after noDirective passed shape
      rcases List.append_eq_cons_iff.1 shape with ⟨-, single⟩ | ⟨tail, rfl, rfl⟩
      · simp at single
      · rw [Nesting.passes?_cons, Nesting.pass?_comment deep] at passed
        exact through_comment lexed deep (ih lexed.2 (Segment.quietFrom_cons quiet)
          (noDirective_skip [.comment form text] noDirective) passed rfl)
  | case4 state text repair rest more ih =>
      intro segments after noDirective passed shape
      rcases List.append_eq_cons_iff.1 shape with ⟨-, single⟩ | ⟨tail, rfl, rfl⟩
      · simp at single
      · exact through_literal lexed (ih lexed.2 (Segment.quietFrom_cons quiet)
          (noDirective_skip [.literal text repair] noDirective) passed rfl)
  | case5 state rest block more ih =>
      intro segments after noDirective passed shape
      rcases List.append_eq_cons_iff.1 shape with ⟨rfl, -⟩ | ⟨tail, rfl, rfl⟩
      · obtain rfl := Option.some.inj passed
        exact .nil state last
      · refine through_opening lexed quiet notClose noDirective passed ?_
        intro following same lexed quiet noDirective passed
        exact ih (same ▸ lexed) (same ▸ quiet) noDirective passed same
  | case6 state c rest notOpen stops =>
      intro segments after noDirective passed shape
      rcases List.append_eq_cons_iff.1 shape with ⟨rfl, single⟩ | ⟨tail, rfl, -⟩
      · obtain rfl := Option.some.inj passed
        exact .nil state last
      · simp only [State.stopsBefore, Bool.and_eq_true, Bool.or_eq_true, decide_eq_true_eq] at stops
        rcases stops.2 with brace | ⟨rfl, lineStart⟩
        · rw [Nesting.passes?_cons,
            pass?_eq_none_of_ends notOpen stops.1 (brace.imp_right .inl)] at passed
          cases passed
        · rcases noDirective with ⟨line, -⟩ | hash
          · simp [line] at lineStart
          · exact absurd List.mem_cons_self hash
  | case7 state c rest notOpen goesOn ends =>
      intro segments after noDirective passed shape
      rcases List.append_eq_cons_iff.1 shape with ⟨rfl, single⟩ | ⟨tail, rfl, -⟩
      · obtain rfl := Option.some.inj passed
        exact .nil state last
      · simp only [Bool.and_eq_true, decide_eq_true_eq] at ends
        rw [Nesting.passes?_cons,
          pass?_eq_none_of_ends notOpen ends.1 (.inr (.inr ends.2))] at passed
        cases passed
  | case8 state c rest notOpen goesOn notEnd more ih =>
      intro segments after noDirective passed shape
      rcases List.append_eq_cons_iff.1 shape with ⟨rfl, single⟩ | ⟨tail, rfl, rfl⟩
      · obtain rfl := Option.some.inj passed
        exact .nil state last
      · simp only [Bool.not_eq_true] at goesOn
        have step : (state.nesting 0).pass? (.code c) = some ((state.next c).nesting 0) := by
          simp only [Bool.not_eq_true] at notEnd
          exact Nesting.step?_of_goesOn notOpen goesOn notEnd
        rw [Nesting.passes?_cons, step] at passed
        exact through_code lexed notOpen goesOn notEnd
          (ih lexed.2 ((Segment.quietFrom_cons quiet).of_le (Nat.zero_le _))
            (noDirective_next noDirective) passed rfl)

end CodeUnit

namespace Segment

open CodeUnit (Nesting)

/-- Blanks are passed over. -/
theorem passes?_weave_compact (hidden : List Segment) (nesting : Nesting) (text : Text) :
    nesting.passes? (weave hidden text.compact) = nesting.passes? (weave hidden text) := by
  induction text generalizing hidden nesting with
  | nil => rfl
  | cons c rest ih =>
      rw [Text.compact_cons]
      split
      · next blank =>
          have shown : c ≠ Mask.mark := by
            rintro rfl
            revert blank
            decide
          rw [ih, weave, if_neg shown, Nesting.passes?_cons, Nesting.pass?,
            Nesting.step?_of_isBlank blank]
          rfl
      · rw [weave, weave]
        split <;> simp only [Nesting.passes?_cons, ih]

theorem passes?_map_inlined (nesting : Nesting) (segments : List Segment) :
    nesting.passes? (segments.map inlined) = nesting.passes? segments := by
  induction segments generalizing nesting with
  | nil => rfl
  | cons segment segments ih =>
      have same : nesting.pass? segment.inlined = nesting.pass? segment := by cases segment <;> rfl
      rw [List.map_cons, Nesting.passes?_cons, Nesting.passes?_cons, same]
      simp only [ih]

theorem quietFrom_weave_compact (hidden : List Segment) (depth : Nat) (text : Text) :
    QuietFrom depth (weave hidden text.compact) ↔ QuietFrom depth (weave hidden text) := by
  induction text generalizing hidden depth with
  | nil => exact Iff.rfl
  | cons c rest ih =>
      rw [Text.compact_cons]
      split
      · next blank =>
          have shown : c ≠ Mask.mark := by
            rintro rfl
            revert blank
            decide
          have flat : (Segment.code c).square = 0 := by
            have notOpen : c ≠ '[' := by rintro rfl; revert blank; decide
            have notClose : c ≠ ']' := by rintro rfl; revert blank; decide
            simp [square, Bracket.step, notOpen, notClose]
          have passed (more : List Segment) :
              QuietFrom depth (.code c :: more) ↔
                QuietFrom (depth + (Segment.code c).square).toNat more :=
            Iff.rfl
          rw [ih, weave, if_neg shown, passed, flat]
          simp
      · rw [weave, weave]
        split
        · cases hidden.headD (.code c) with
          | code d => exact ih _ _
          | literal text repair => exact ih _ _
          | comment form text => exact and_congr Iff.rfl (ih _ _)
        · exact ih _ _

theorem QuietFrom.map_inlined {segments : List Segment} {depth : Nat}
    (quiet : QuietFrom depth segments) :
    QuietFrom depth (segments.map inlined) := by
  induction segments generalizing depth with
  | nil => trivial
  | cons segment segments ih =>
      cases segment with
      | code c => exact ih quiet
      | literal text repair => exact ih quiet
      | comment form text => exact ⟨fun deep => isQuiet_blockForm (quiet.1 deep) form, ih quiet.2⟩

end Segment

namespace Mask.Respacing

open Segment (hiddenSegments skeleton weave)

variable {respace : Text → Text} {segments : List Segment}

/-- A unit that is respaced passes over its segments as before. -/
theorem passes?_weave (respacing : Respacing respace) (shown : ∀ c, .code c ∈ segments → c ≠ mark)
    (nesting : CodeUnit.Nesting) :
    nesting.passes? (weave (hiddenSegments segments) (respace (skeleton segments))) =
      nesting.passes? segments := by
  rw [← Segment.passes?_weave_compact, respacing.compact, Segment.passes?_weave_compact,
    Segment.weave_skeleton shown, Segment.passes?_map_inlined]

theorem quietFrom_weave (respacing : Respacing respace) (shown : ∀ c, .code c ∈ segments → c ≠ mark)
    {depth : Nat} (quiet : Segment.QuietFrom depth segments) :
    Segment.QuietFrom depth (weave (hiddenSegments segments) (respace (skeleton segments))) := by
  rw [← Segment.quietFrom_weave_compact, respacing.compact, Segment.quietFrom_weave_compact,
    Segment.weave_skeleton shown]
  exact quiet.map_inlined

end Mask.Respacing

end IdlFormat
