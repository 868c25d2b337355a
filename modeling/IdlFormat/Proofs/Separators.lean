import IdlFormat.Proofs.OutsideLiterals
import IdlFormat.Proofs.TopLevel
import Mathlib.Algebra.Ring.Int.Defs

/-!
# Cuts at balanced separators

Where a text is cut is said here without the scanner: at the separators outside literals, before
which each tracked kind of brackets has been opened as often as closed. The counts that the scanner
keeps are those of the code before a character (`State.balance_after_eq_iff`), and the gaps between
the pieces are the places where its state makes it cut (`State.mem_gaps_split_iff`).
-/

namespace IdlFormat

namespace Bracket

variable {isSeparator : Char → Bool} {tracked : List Bracket} {bracket : Bracket} {c : Char}

/-- The positions of the separators between pieces, the first of which begins at a position. -/
def gaps (position : Nat) : List Text → List Nat
  | [] => []
  | [_] => []
  | piece :: next :: pieces =>
      (position + piece.length) :: gaps (position + piece.length + 1) (next :: pieces)

/-- The kind is opened as often as it is closed. -/
def IsBalanced (bracket : Bracket) (code : List (Nat × Char)) : Prop :=
  code.countP (·.2 = bracket.opener) = code.countP (·.2 = bracket.closer)

instance (bracket : Bracket) (code : List (Nat × Char)) : Decidable (bracket.IsBalanced code) :=
  inferInstanceAs (Decidable (_ = _))

/-- A character is no bracket of the tracked kinds. -/
def Untracked (tracked : List Bracket) (c : Char) : Prop :=
  ∀ bracket ∈ tracked, bracket.opener ≠ c ∧ bracket.closer ≠ c

/-! ## Counts -/

/-- The change of the count of a kind at a character. -/
def turn (bracket : Bracket) (c : Char) : Int :=
  if c = bracket.opener then 1 else if c = bracket.closer then -1 else 0

/-- The change of the count of a kind over the code of a text. -/
def turns (bracket : Bracket) (code : List (Nat × Char)) : Int :=
  (code.map fun place => bracket.turn place.2).sum

theorem opener_ne_closer (bracket other : Bracket) : bracket.opener ≠ other.closer := by
  cases bracket <;> cases other <;> decide

theorem turn_opener (bracket other : Bracket) :
    bracket.turn other.opener = if bracket = other then 1 else 0 := by
  cases bracket <;> cases other <;> decide

theorem turn_closer (bracket other : Bracket) :
    bracket.turn other.closer = if bracket = other then -1 else 0 := by
  cases bracket <;> cases other <;> decide

theorem turns_eq (bracket : Bracket) (code : List (Nat × Char)) :
    bracket.turns code =
      code.countP (·.2 = bracket.opener) - code.countP (·.2 = bracket.closer) := by
  induction code with
  | nil => rfl
  | cons place code ih =>
      have apart := opener_ne_closer bracket bracket
      rw [turns, List.map_cons, List.sum_cons, ← turns, ih, List.countP_cons, List.countP_cons, turn]
      by_cases opens : place.2 = bracket.opener
      · have stays : place.2 ≠ bracket.closer := opens ▸ apart
        simp [opens, apart]
        omega
      · by_cases closes : place.2 = bracket.closer
        · simp [closes, apart.symm]
          omega
        · simp [opens, closes]

theorem isBalanced_iff {code : List (Nat × Char)} :
    bracket.IsBalanced code ↔ bracket.turns code = 0 := by
  rw [IsBalanced, turns_eq]
  omega

theorem turns_append (bracket : Bracket) (left right : List (Nat × Char)) :
    bracket.turns (left ++ right) = bracket.turns left + bracket.turns right := by
  rw [turns, List.map_append, List.sum_append]
  rfl

/-- A character is a bracket of one tracked kind or of none. -/
theorem change?_cases (tracked : List Bracket) (c : Char) :
    (∃ bracket ∈ tracked, bracket.opener = c ∧ change? tracked c = some (bracket, 1)) ∨
      (∃ bracket ∈ tracked, bracket.closer = c ∧ change? tracked c = some (bracket, -1)) ∨
      (Untracked tracked c ∧ change? tracked c = none) := by
  rw [change?]
  cases opens : tracked.find? fun bracket => decide (bracket.opener = c) with
  | some bracket =>
      left
      exact ⟨bracket, List.mem_of_find?_eq_some opens,
        by simpa using List.find?_some opens, rfl⟩
  | none =>
      right
      cases closes : tracked.find? fun bracket => decide (bracket.closer = c) with
      | some bracket =>
          left
          exact ⟨bracket, List.mem_of_find?_eq_some closes,
            by simpa using List.find?_some closes, rfl⟩
      | none =>
          right
          refine ⟨fun bracket member => ?_, rfl⟩
          rw [List.find?_eq_none] at opens closes
          exact ⟨by simpa using opens bracket member, by simpa using closes bracket member⟩

theorem change?_eq_none_iff : change? tracked c = none ↔ Untracked tracked c := by
  rcases change?_cases tracked c with ⟨bracket, member, same, found⟩ | ⟨bracket, member, same, found⟩ |
    ⟨untracked, found⟩
  · simp only [found, reduceCtorEq, false_iff]
    exact fun untracked => (untracked bracket member).1 same
  · simp only [found, reduceCtorEq, false_iff]
    exact fun untracked => (untracked bracket member).2 same
  · simp only [found, true_iff]
    exact untracked

namespace Balance

/-- The count of a kind. -/
def count (balance : Balance) : Bracket → Int
  | .round => balance.round
  | .angle => balance.angle
  | .square => balance.square

theorem eq_zero_iff {balance : Balance} : balance = {} ↔ ∀ bracket, balance.count bracket = 0 := by
  constructor
  · rintro rfl (_ | _ | _) <;> rfl
  · intro none
    have round := none .round
    have angle := none .angle
    have square := none .square
    cases balance
    simp_all [count]

theorem count_add (balance : Balance) (changed other : Bracket) (change : Int) :
    (balance.add changed change).count other =
      balance.count other + if other = changed then change else 0 := by
  cases changed <;> cases other <;> simp [add, count]

theorem count_after (balance : Balance) (tracked : List Bracket) (c : Char) (bracket : Bracket) :
    (balance.after tracked c).count bracket =
      balance.count bracket + if bracket ∈ tracked then bracket.turn c else 0 := by
  rw [after]
  rcases change?_cases tracked c with ⟨opened, member, rfl, found⟩ | ⟨closed, member, rfl, found⟩ |
    ⟨untracked, found⟩
  · rw [found, turn_opener]
    show (balance.add opened 1).count bracket = _
    rw [count_add]
    by_cases same : bracket = opened <;> simp [same, member]
  · rw [found, turn_closer]
    show (balance.add closed (-1)).count bracket = _
    rw [count_add]
    by_cases same : bracket = closed <;> simp [same, member]
  · rw [found]
    show balance.count bracket = _
    split
    · next member =>
        rcases untracked bracket member with ⟨notOpener, notCloser⟩
        simp [turn, Ne.symm notOpener, Ne.symm notCloser]
    · simp

end Balance

namespace State

variable {state : State} {position : Nat} {text : Text}

theorem literal_after (state : State) (text : Text) :
    (state.after tracked text).literal = state.literal.after text := by
  induction text generalizing state with
  | nil => rfl
  | cons c text ih => exact ih _

/-- The counts of the tracked kinds are those of the code. -/
theorem count_after (state : State) (position : Nat) (text : Text) (bracket : Bracket) :
    (state.after tracked text).balance.count bracket =
      state.balance.count bracket +
        if bracket ∈ tracked then bracket.turns (state.literal.codeFrom position text) else 0 := by
  induction text generalizing state position with
  | nil => simp [after, Literal.State.codeFrom, turns]
  | cons c text ih =>
      have later := ih (state.next tracked c) (position + 1)
      rw [after, List.foldl_cons, ← after, later, Literal.State.codeFrom_cons, turns_append]
      rw [next]
      by_cases shown : state.literal.reveals c
      · rw [if_pos shown, if_pos shown, Balance.count_after]
        split <;> simp [turns, Int.add_assoc]
      · rw [if_neg shown, if_neg shown]
        simp [turns]

/-- Behind a text the counts are as at its start if each tracked kind is balanced in its code. -/
theorem balance_after_eq_iff (position : Nat) (text : Text) :
    (({} : State).after tracked text).balance = {} ↔
      ∀ bracket ∈ tracked, bracket.IsBalanced (Literal.State.outside.codeFrom position text) := by
  rw [Balance.eq_zero_iff]
  constructor
  · intro none bracket member
    have counted := @count_after tracked {} position text bracket
    rw [none, if_pos member] at counted
    rw [isBalanced_iff]
    cases bracket <;> simpa [Balance.count, eq_comm] using counted
  · intro balanced bracket
    rw [count_after {} position text bracket]
    split
    · next member =>
        rw [isBalanced_iff.1 (balanced bracket member)]
        cases bracket <;> rfl
    · cases bracket <;> rfl

end State

/-! ## Gaps -/

theorem gaps_nil_cons (position : Nat) {pieces : List Text} (filled : pieces ≠ []) :
    gaps position ([] :: pieces) = position :: gaps (position + 1) pieces := by
  obtain ⟨piece, others, rfl⟩ := List.exists_cons_of_ne_nil filled
  rfl

theorem gaps_consFirst (position : Nat) (c : Char) {pieces : List Text} (filled : pieces ≠ []) :
    gaps position (consFirst c pieces) = gaps (position + 1) pieces := by
  obtain ⟨piece, others, rfl⟩ := List.exists_cons_of_ne_nil filled
  cases others with
  | nil => rfl
  | cons next others =>
      have shifted : position + (c :: piece).length = position + 1 + piece.length := by
        rw [List.length_cons]
        omega
      rw [consFirst, gaps, gaps, shifted]

namespace State

variable {state : State} {text : Text}

theorem split_ne_nil (isSeparator : Char → Bool) (tracked : List Bracket) (state : State)
    (text : Text) : state.split isSeparator tracked text ≠ [] := by
  rcases state.exists_split_eq isSeparator tracked text with ⟨first, others, same, -⟩
  rw [same]
  exact List.cons_ne_nil first others

/-- There is a gap at each character at which the state makes the scanner cut. -/
theorem mem_gaps_split_iff {position i : Nat} :
    i ∈ gaps position (state.split isSeparator tracked text) ↔
      ∃ before c after, text = before ++ c :: after ∧ i = position + before.length ∧
        (state.after tracked before).Cuts isSeparator tracked c := by
  induction text generalizing state position with
  | nil =>
      have alone : gaps position (state.split isSeparator tracked []) = [] := rfl
      simp [alone]
  | cons d rest ih =>
      have shifted (before : Text) :
          position + 1 + before.length = position + (d :: before).length := by
        rw [List.length_cons]
        omega
      have later := split_ne_nil isSeparator tracked (state.next tracked d) rest
      rw [split_cons, Text.exists_place_cons]
      split
      · next cuts =>
          rw [gaps_nil_cons position later, List.mem_cons, ih]
          simp only [shifted]
          exact or_congr ⟨fun same => ⟨same, cuts⟩, fun here => here.1⟩ Iff.rfl
      · next stands =>
          rw [gaps_consFirst position d later, ih]
          simp only [shifted]
          exact (or_iff_right fun here => stands here.2).symm

/-- A text that makes one piece is not cut anywhere. -/
theorem whole_of_split_eq (alone : state.split isSeparator tracked text = [text]) :
    state.Whole isSeparator tracked text := by
  intro i inside cuts
  have parts : text = text.take i ++ text[i] :: text.drop (i + 1) := by
    rw [← List.drop_eq_getElem_cons inside, List.take_append_drop]
  have gap : 0 + (text.take i).length ∈ gaps 0 (state.split isSeparator tracked text) :=
    mem_gaps_split_iff.2 ⟨_, _, _, parts, rfl, cuts⟩
  rw [alone] at gap
  simp [gaps] at gap

/-- The pieces joined by the separator give the text back. -/
theorem join_split (separator : Char) (tracked : List Bracket) (state : State) (text : Text) :
    Text.join [separator] (state.split (· = separator) tracked text) = text := by
  induction text generalizing state with
  | nil => rfl
  | cons c rest ih =>
      have later := split_ne_nil (· = separator) tracked (state.next tracked c) rest
      rw [split_cons]
      split
      · next cuts =>
          obtain rfl : c = separator := of_decide_eq_true cuts.2.2.1
          rw [Text.join_cons_of_ne_nil c [] later, ih]
          rfl
      · rcases (state.next tracked c).exists_split_eq (· = separator) tracked rest with
          ⟨first, others, same, -⟩
        rw [same, consFirst]
        have inner := ih (state.next tracked c)
        rw [same, Text.join_cons] at inner
        rw [Text.join_cons, List.cons_append, inner]

end State

open Literal (code AllClosed)

theorem mem_gaps_splitTopLevel_iff {separator : Char} {text : Text} {position : Nat} :
    position ∈ gaps 0 (splitTopLevel (· = separator) tracked text) ↔
      (position, separator) ∈ code text ∧ Untracked tracked separator ∧
        ∀ bracket ∈ tracked, bracket.IsBalanced ((code text).filter (·.1 < position)) := by
  rw [code, Literal.codeFrom_eq, Literal.State.mem_codeFrom_iff]
  refine (@State.mem_gaps_split_iff _ tracked {} text 0 position).trans ?_
  constructor
  · rintro ⟨before, c, after, rfl, rfl, shown, other, isSeparator, balanced⟩
    obtain rfl : c = separator := of_decide_eq_true isSeparator
    rw [State.literal_after] at shown
    refine ⟨⟨before, c, after, rfl, rfl, rfl, shown⟩, change?_eq_none_iff.1 other, ?_⟩
    rw [Nat.zero_add, Literal.State.filter_codeFrom_append]
    exact (State.balance_after_eq_iff 0 before).1 balanced
  · rintro ⟨⟨before, c, after, rfl, rfl, rfl, shown⟩, untracked, balanced⟩
    rw [Nat.zero_add, Literal.State.filter_codeFrom_append] at balanced
    refine ⟨before, separator, after, rfl, rfl, ?_, change?_eq_none_iff.2 untracked,
      decide_eq_true rfl, (State.balance_after_eq_iff 0 before).2 balanced⟩
    rw [State.literal_after]
    exact shown

/-- A text that makes one piece, whose literals are closed and in which each tracked kind is
balanced, leads back to the state in which a text starts. -/
theorem sealed_of_splitTopLevel {piece : Text} (closed : AllClosed piece)
    (alone : splitTopLevel isSeparator tracked piece = [piece])
    (balanced : ∀ bracket ∈ tracked, bracket.IsBalanced (code piece)) :
    Sealed isSeparator tracked piece where
  whole := State.whole_of_split_eq alone
  returns := by
    rw [code, Literal.codeFrom_eq] at balanced
    refine State.ext ?_ ((State.balance_after_eq_iff 0 piece).2 balanced)
    rw [State.literal_after]
    exact Literal.after_of_allClosed closed

/-- The pieces joined by the separator are the text, and the gaps between them are the separators
outside literals before which each tracked kind of brackets is balanced; a quote or a tracked
bracket separates nothing. Other separators join closed and balanced texts of one piece each to a
text with these pieces. -/
theorem splitTopLevel_at_balanced (tracked : List Bracket) (separator : Char) :
    (∀ text, Text.join [separator] (splitTopLevel (· = separator) tracked text) = text ∧
      ∀ position, position ∈ gaps 0 (splitTopLevel (· = separator) tracked text) ↔
        (position, separator) ∈ code text ∧ Untracked tracked separator ∧
          ∀ bracket ∈ tracked, bracket.IsBalanced ((code text).filter (·.1 < position))) ∧
    (isQuote separator = false → Untracked tracked separator →
      ∀ pieces, pieces ≠ [] →
        (∀ piece ∈ pieces, AllClosed piece ∧
          splitTopLevel (· = separator) tracked piece = [piece] ∧
          ∀ bracket ∈ tracked, bracket.IsBalanced (code piece)) →
        splitTopLevel (· = separator) tracked (Text.join [separator] pieces) = pieces) := by
  constructor
  · intro text
    refine ⟨State.join_split separator tracked {} text, ?_⟩
    intro position
    exact mem_gaps_splitTopLevel_iff
  · intro unquoted untracked pieces filled shut
    obtain ⟨piece, others, rfl⟩ := List.exists_cons_of_ne_nil filled
    have cuts : ({} : State).Cuts (· = separator) tracked separator :=
      ⟨by simp [Literal.State.reveals, unquoted], change?_eq_none_iff.2 untracked,
        decide_eq_true rfl, rfl⟩
    apply splitTopLevel_join cuts
    intro other member
    rcases shut other member with ⟨closed, alone, balanced⟩
    exact sealed_of_splitTopLevel closed alone balanced

/-- Nested calls, a kind that is closed before it is opened, and a separator in a literal. -/
theorem splitTopLevel_at_balanced_calls :
    (∀ piece ∈ ["f(a; g(1))".toList, ">x; y<".toList, "';('".toList],
      AllClosed piece ∧ splitTopLevel (· = ';') [round, angle] piece = [piece] ∧
        ∀ bracket ∈ [round, angle], bracket.IsBalanced (code piece)) ∧
      splitTopLevel (· = ';') [round, angle] "f(a; g(1));>x; y<;';('".toList =
        ["f(a; g(1))".toList, ">x; y<".toList, "';('".toList] ∧
      10 ∈ gaps 0 (splitTopLevel (· = ';') [round, angle] "f(a; g(1));>x; y<;';('".toList) := by
  have shut : ∀ piece ∈ ["f(a; g(1))".toList, ">x; y<".toList, "';('".toList],
      AllClosed piece ∧ splitTopLevel (· = ';') [round, angle] piece = [piece] ∧
        ∀ bracket ∈ [round, angle], bracket.IsBalanced (code piece) := by decide +kernel
  have untracked : Untracked [round, angle] ';' := by
    simp only [Untracked, List.forall_mem_cons]
    decide
  obtain ⟨cuts, joins⟩ := splitTopLevel_at_balanced [round, angle] ';'
  refine ⟨shut, joins (by decide) untracked _ (by decide) shut, ?_⟩
  exact ((cuts "f(a; g(1));>x; y<;';('".toList).2 10).2
    ⟨by decide +kernel, untracked, by decide +kernel⟩

end Bracket

end IdlFormat
