import IdlFormat.Proofs.AttributeBlock
import IdlFormat.Proofs.Separators

/-!
# Square brackets of a block

The scanner that finds the end of a block reads on in a document and stops early; the one that
counts the brackets which a block leaves open reads the block alone and never counts below zero. They
agree because in a block no `]` closes more than was opened: behind its first `[` the depth stays
positive up to the end (`nestFrom_of_cutClosed`). Where the depth never has to be held at zero, the
second scanner counts the openers less the closers (`nestFrom_eq_some`), and a piece between two
commas starts and ends at the depth of its block (`nestFrom_of_mem_split`).
-/

namespace IdlFormat

namespace Bracket

open Literal (code)

/-- The number of `[` that are open behind a text, or none if a `]` in it closes none of them. Here
`depth` counts those open before the text. -/
def nestFrom (state : Literal.State) (depth : Nat) : Text → Option Nat
  | [] => some depth
  | c :: rest =>
      (if state.reveals c then nest? depth c else some depth).bind fun deeper =>
        nestFrom (state.next c) deeper rest

variable {state : Literal.State} {depth deeper last : Nat} {c : Char} {text left right : Text}

/-- A character closes at most what is open, and changes the depth by its own step. -/
theorem nest_eq_some_iff :
    (if state.reveals c then nest? depth c else some depth) = some deeper ↔
      ¬(state.reveals c ∧ c = ']' ∧ depth = 0) ∧ (depth : Int) + stepFrom state c = deeper := by
  rw [stepFrom]
  by_cases shown : state.reveals c
  · rw [if_pos shown, if_pos shown, nest?_eq_some_iff]
    simp [shown]
  · rw [if_neg shown, if_neg shown, Int.add_zero, Int.ofNat_inj]
    simp [shown]

/-- The depth behind a character that closes at most what is open. -/
theorem exists_depth (inside : ¬(state.reveals c ∧ c = ']' ∧ depth = 0)) :
    ∃ deeper : Nat, (depth : Int) + stepFrom state c = deeper := by
  have positive : 0 ≤ (depth : Int) + stepFrom state c := by
    rw [stepFrom, step]
    by_cases shown : state.reveals c
    · rw [if_pos shown]
      split
      · omega
      · split
        · next closes =>
            have isOpen : depth ≠ 0 := fun none => inside ⟨shown, closes, none⟩
            omega
        · omega
    · rw [if_neg shown]
      omega
  exact ⟨((depth : Int) + stepFrom state c).toNat, by omega⟩

theorem nestFrom_cons_eq_some_iff {rest : Text} :
    nestFrom state depth (c :: rest) = some last ↔
      ∃ deeper : Nat, (¬(state.reveals c ∧ c = ']' ∧ depth = 0) ∧
        (depth : Int) + stepFrom state c = deeper) ∧
          nestFrom (state.next c) deeper rest = some last := by
  rw [nestFrom, Option.bind_eq_some_iff]
  simp only [nest_eq_some_iff]

theorem nestFrom_succ (nested : nestFrom state depth text = some last) :
    nestFrom state (depth + 1) text = some (last + 1) := by
  induction text generalizing state depth with
  | nil =>
      obtain rfl := Option.some.inj nested
      rfl
  | cons c rest ih =>
      rw [nestFrom_cons_eq_some_iff] at nested ⊢
      obtain ⟨deeper, ⟨-, counted⟩, later⟩ := nested
      exact ⟨deeper + 1, ⟨by simp, by omega⟩, ih later⟩

theorem nestFrom_append (state : Literal.State) (depth : Nat) (left right : Text) :
    nestFrom state depth (left ++ right) =
      (nestFrom state depth left).bind fun deeper => nestFrom (state.after left) deeper right := by
  induction left generalizing state depth with
  | nil => rfl
  | cons c left ih =>
      rw [List.cons_append, nestFrom, nestFrom, Option.bind_assoc]
      exact congrArg _ (funext fun deeper => ih _ _)

/-- Where no `]` closes too many, both ways to count agree. -/
theorem nestFrom_eq_some (position : Nat) (nested : nestFrom state depth text = some last) :
    openDepthFrom state depth text = last ∧
      depth + turns .square (state.codeFrom position text) = last := by
  induction text generalizing state depth position with
  | nil =>
      obtain rfl := Option.some.inj nested
      exact ⟨rfl, Int.add_zero _⟩
  | cons c rest ih =>
      obtain ⟨deeper, ⟨-, counted⟩, later⟩ := nestFrom_cons_eq_some_iff.1 nested
      rcases ih (position + 1) later with ⟨openers, balance⟩
      have own : turns .square (if state.reveals c then [(position, c)] else []) =
          stepFrom state c := by
        rw [stepFrom]
        split
        · exact Int.add_zero _
        · rfl
      rw [openDepthFrom_cons, Literal.State.codeFrom_cons, turns_append, own, counted]
      exact ⟨openers, by omega⟩

/-- A block that is cut off is closed by the `]` at its end, or it reaches to the end of the text. -/
theorem nestFrom_of_cutClosed (state : Literal.State) (depth : Nat) (text : Text) :
    (∃ inner, (cutClosed state (depth + 1 : Nat) text).1 = inner ++ [']'] ∧
        nestFrom state depth inner = some 0 ∧ (state.after inner).reveals ']') ∨
      (cutClosed state (depth + 1 : Nat) text = (text, []) ∧
        ∃ last, nestFrom state depth text = some last) := by
  induction text generalizing state depth with
  | nil => exact .inr ⟨rfl, depth, rfl⟩
  | cons c rest ih =>
      rw [cutClosed_cons]
      split
      · next closes =>
          obtain ⟨shown, rfl, one⟩ := closes
          obtain rfl : depth = 0 := by omega
          exact .inl ⟨[], rfl, rfl, shown⟩
      · next goesOn =>
          have inside : ¬(state.reveals c ∧ c = ']' ∧ depth = 0) := by
            rintro ⟨shown, closes, rfl⟩
            exact goesOn ⟨shown, closes, rfl⟩
          obtain ⟨deeper, counted⟩ := exists_depth inside
          have opened : ((depth + 1 : Nat) : Int) + stepFrom state c = (deeper + 1 : Nat) := by
            omega
          rw [opened]
          rcases ih (state.next c) deeper with ⟨inner, taken, nested, shown⟩ | ⟨whole, last, nested⟩
          · refine .inl ⟨c :: inner, by rw [taken]; rfl, ?_, shown⟩
            exact nestFrom_cons_eq_some_iff.2 ⟨deeper, ⟨inside, counted⟩, nested⟩
          · refine .inr ⟨by rw [whole], last, ?_⟩
            exact nestFrom_cons_eq_some_iff.2 ⟨deeper, ⟨inside, counted⟩, nested⟩

/-- The pieces between separators of a nested text are nested, the first one behind the depth so
far. -/
theorem nestFrom_of_mem_split {isSeparator : Char → Bool} {state : State}
    (counted : state.balance.square = depth) (nested : nestFrom state.literal depth text = some 0)
    {first : Text} {others : List Text}
    (cut : state.split isSeparator all text = first :: others) :
    nestFrom state.literal depth first = some 0 ∧
      ∀ other ∈ others, nestFrom .outside 0 other = some 0 := by
  induction text generalizing state depth first others with
  | nil =>
      obtain ⟨rfl, rfl⟩ := List.cons.inj cut
      exact ⟨nested, nofun⟩
  | cons c rest ih =>
      obtain ⟨deeper, ⟨inside, steps⟩, later⟩ := nestFrom_cons_eq_some_iff.1 nested
      have deepens : (state.next all c).balance.square = deeper := by
        rw [← steps, stepFrom, State.next]
        split
        · rw [Balance.square_after, counted]
        · rw [counted, Int.add_zero]
      rcases (state.next all c).exists_split_eq isSeparator all rest with
        ⟨piece, pieces, same, -⟩
      rcases ih deepens later same with ⟨own, more⟩
      rw [State.split_cons, same] at cut
      split at cut
      · next cuts =>
          obtain ⟨rfl, rfl⟩ := List.cons.inj cut
          have balanced := cuts.2.2.2
          rw [balanced] at counted
          obtain rfl : 0 = depth := Int.ofNat_inj.1 counted
          rw [State.next_of_cuts cuts] at deepens own
          obtain rfl : 0 = deeper := Int.ofNat_inj.1 deepens
          exact ⟨rfl, List.forall_mem_cons.2 ⟨own, more⟩⟩
      · next stands =>
          obtain ⟨rfl, rfl⟩ := List.cons.inj cut
          exact ⟨nestFrom_cons_eq_some_iff.2 ⟨deeper, ⟨inside, steps⟩, own⟩, more⟩

/-- A nested text is balanced, and it leaves no bracket open. -/
theorem isBalanced_of_nestFrom (nested : nestFrom .outside 0 text = some 0) :
    square.IsBalanced (code text) ∧ openDepth text = 0 := by
  rcases nestFrom_eq_some 0 nested with ⟨openers, balance⟩
  rw [isBalanced_iff, code, Literal.codeFrom_eq]
  exact ⟨by omega, openers⟩

/-- A text that leaves a bracket open is not balanced. -/
theorem not_isBalanced_of_nestFrom (nested : nestFrom .outside 0 text = some (last + 1)) :
    ¬square.IsBalanced (code text) := by
  rcases nestFrom_eq_some 0 nested with ⟨-, balance⟩
  rw [isBalanced_iff, code, Literal.codeFrom_eq]
  omega

theorem exists_nestFrom_of_prefix {part : Text} (start : part <+: text)
    (nested : nestFrom state depth text = some last) :
    ∃ deeper, nestFrom state depth part = some deeper := by
  obtain ⟨rest, rfl⟩ := start
  rw [nestFrom_append] at nested
  obtain ⟨deeper, found, -⟩ := Option.bind_eq_some_iff.1 nested
  exact ⟨deeper, found⟩

theorem nestFrom_opening (text : Text) :
    nestFrom .outside 0 ('[' :: text) = nestFrom .outside 1 text := rfl

end Bracket

namespace Segment

theorem openDepthFrom_map_close (depth : Nat) (segments : List Segment) :
    openDepthFrom depth (segments.map close) = openDepthFrom depth segments := by
  induction segments generalizing depth with
  | nil => rfl
  | cons segment rest ih =>
      have same : segment.close.square = segment.square := by cases segment <;> rfl
      rw [List.map_cons, openDepthFrom, openDepthFrom, same, ih]

theorem openDepthFrom_replicate (depth : Nat) :
    openDepthFrom depth (List.replicate depth (.code ']')) = 0 := by
  induction depth with
  | zero => rfl
  | succ depth ih =>
      have less : ((depth + 1 : Nat) + (Segment.code ']').square).toNat = depth := by
        have closes : (Segment.code ']').square = -1 := by decide
        omega
      rw [List.replicate_succ, openDepthFrom, less, ih]

/-- The literals of a text without comments closed, and the brackets that it leaves open closed
too, no bracket is left open. -/
theorem openDepth_closeLiterals {text : Text} (bare : Bare (split text)) :
    Bracket.openDepth
      (closeLiterals text ++ List.replicate (Bracket.openDepth text) ']') = 0 := by
  have lexed := lexed_split text
  have counted := openDepthFrom_spell lexed bare.allQuiet 0
  rw [spell_split, ← Bracket.openDepth] at counted
  rw [counted]
  have closed := @Lexed.close_append_brackets _ lexed (openDepthFrom 0 (split text))
    fun _ last isLast => bare.isInline_close (List.mem_of_getLast? isLast)
  have quiet :=
    ((stems_close_append_brackets (split text) (openDepthFrom 0 (split text))).tame bare.tame).quiet
  have spelled := openDepthFrom_spell closed quiet 0
  rw [spell_append, spell_map_close, ← closeLiterals, spell_replicate_code] at spelled
  rw [Bracket.openDepth, spelled, openDepthFrom_append, openDepthFrom_map_close,
    openDepthFrom_replicate]

end Segment

namespace Bracket

open Literal (code)

/-- The block that begins at a `[` is closed or open. A closed one ends in the `]` that balances its
`[`, as no shorter part of it does, and each piece between its commas closes the brackets that it
opens. An open one reaches to the end of the text, and unless it holds a comment, it leaves no
bracket open once its literals and as many brackets are closed as were counted. -/
theorem cutBlock_closed_or_open (text : Text) (i : Nat) (opens : text[i]? = some '[') :
    let block := (cutBlock (text.drop i)).1
    (openDepth block = 0 ∧ (∃ inner, block = '[' :: inner ++ [']']) ∧
        square.IsBalanced (code block) ∧
        (∀ part, part <+: block → part ≠ [] → part ≠ block → ¬square.IsBalanced (code part)) ∧
        ∀ piece ∈ splitTopLevel (· = ',') all (block.drop 1).dropLast,
          square.IsBalanced (code piece) ∧ openDepth piece = 0) ∨
      (i + block.length = text.length ∧ 1 ≤ openDepth block ∧
        (Segment.Bare (Segment.split block) →
          openDepth (closeLiterals block ++ List.replicate (openDepth block) ']') = 0)) := by
  intro block
  obtain ⟨inside, first⟩ := List.getElem?_eq_some_iff.1 opens
  have starts : text.drop i = '[' :: text.drop (i + 1) := by
    rw [List.drop_eq_getElem_cons inside, first]
  have taken : block = '[' :: (cutClosed .outside (1 : Nat) (text.drop (i + 1))).1 := by
    show (cutBlock (text.drop i)).1 = _
    rw [starts, cutBlock_cons]
  rcases nestFrom_of_cutClosed .outside 0 (text.drop (i + 1)) with
    ⟨inner, closed, nested, shown⟩ | ⟨whole, missing, nested⟩
  · left
    have deeper := nestFrom_succ nested
    have same : block = '[' :: inner ++ [']'] := by
      rw [taken, closed]
      rfl
    have nestedBlock : nestFrom .outside 0 block = some 0 := by
      rw [same, List.cons_append, nestFrom_opening, nestFrom_append, deeper]
      have ended : nestFrom (Literal.State.outside.after inner) 1 [']'] = some 0 := by
        rw [nestFrom_cons_eq_some_iff]
        exact ⟨0, ⟨by simp, by simp [stepFrom, shown, step]⟩, rfl⟩
      exact ended
    have between : (block.drop 1).dropLast = inner := by
      rw [same, List.cons_append, List.drop_succ_cons, List.drop_zero, List.dropLast_concat]
    refine ⟨(isBalanced_of_nestFrom nestedBlock).2, ⟨inner, same⟩,
      (isBalanced_of_nestFrom nestedBlock).1, ?_, ?_⟩
    · intro part start filled shorter
      rw [same] at start shorter
      obtain ⟨rest, rfl, within⟩ : ∃ rest, part = '[' :: rest ∧ rest <+: inner := by
        obtain ⟨c, rest, rfl⟩ := List.exists_cons_of_ne_nil filled
        have ahead := (List.prefix_concat_iff.1 start).resolve_left shorter
        obtain ⟨rfl, within⟩ := List.cons_prefix_cons.1 ahead
        exact ⟨rest, rfl, within⟩
      obtain ⟨deeper, nestedRest⟩ := exists_nestFrom_of_prefix within nested
      apply not_isBalanced_of_nestFrom
      rw [nestFrom_opening]
      exact nestFrom_succ nestedRest
    · intro piece member
      rw [between] at member
      rcases ({} : State).exists_split_eq (· = ',') all inner with ⟨first, pieces, cut, -⟩
      rcases nestFrom_of_mem_split rfl nested cut with ⟨own, others⟩
      have pieceOf : piece ∈ first :: pieces := cut ▸ member
      rcases List.mem_cons.1 pieceOf with rfl | later
      · exact isBalanced_of_nestFrom own
      · exact isBalanced_of_nestFrom (others piece later)
  · right
    have same : block = text.drop i := by rw [taken, whole, starts]
    have isOpen : nestFrom .outside 0 block = some (missing + 1) := by
      rw [same, starts, nestFrom_opening]
      exact nestFrom_succ nested
    rcases nestFrom_eq_some 0 isOpen with ⟨openers, -⟩
    refine ⟨?_, ?_, fun bare => Segment.openDepth_closeLiterals bare⟩
    · rw [same, List.length_drop]
      omega
    · rw [openDepth, openers]
      omega

/-- A block that a literal with a bracket does not end, and one that is open at the end of the
text. -/
theorem cutBlock_closed_or_open_quoted :
    "x[a(\"]\"), b[1]] y".toList[1]? = some '[' ∧
      (cutBlock ("x[a(\"]\"), b[1]] y".toList.drop 1)).1 = "[a(\"]\"), b[1]]".toList ∧
      ¬square.IsBalanced (code "[a(\"]\"), b[1]".toList) ∧
      (∀ piece ∈ ["a(\"]\")".toList, " b[1]".toList], square.IsBalanced (code piece)) ∧
      "[a, [\"b".toList[0]? = some '[' ∧
      openDepth (closeLiterals "[a, [\"b".toList ++ List.replicate 2 ']') = 0 := by
  have cut : (cutBlock ("x[a(\"]\"), b[1]] y".toList.drop 1)).1 = "[a(\"]\"), b[1]]".toList := by
    decide +kernel
  have whole : (cutBlock ("[a, [\"b".toList.drop 0)).1 = "[a, [\"b".toList := by decide +kernel
  have one := cutBlock_closed_or_open "x[a(\"]\"), b[1]] y".toList 1 rfl
  have two := cutBlock_closed_or_open "[a, [\"b".toList 0 rfl
  rw [cut] at one
  rw [whole] at two
  rcases one with ⟨-, -, -, shorter, pieces⟩ | ⟨-, positive, -⟩
  · refine ⟨rfl, cut, shorter _ ⟨[']'], rfl⟩ (by decide) (by decide), ?_, rfl, ?_⟩
    · intro piece member
      apply (pieces piece _).1
      rw [show splitTopLevel (· = ',') all ("[a(\"]\"), b[1]]".toList.drop 1).dropLast =
        ["a(\"]\")".toList, " b[1]".toList] by decide +kernel]
      exact member
    · rcases two with ⟨none, -⟩ | ⟨-, -, settled⟩
      · exact absurd none (by decide +kernel)
      · exact settled (by decide +kernel)
  · exact absurd positive (by decide +kernel)

end Bracket

end IdlFormat
