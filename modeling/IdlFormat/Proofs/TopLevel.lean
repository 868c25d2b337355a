import IdlFormat.Proofs.Joining
import IdlFormat.Proofs.Scanning
import Mathlib.Data.List.Induction

/-!
# Cutting at the top level

Whether a text is cut at a character depends on what stands before it, but only through the state of
the scanner: whether a literal is open, and what each tracked kind of brackets has counted up to.
Behind a cut the scanner is back in the state in which a text starts (`State.next_of_cuts`), so the
pieces are read apart from each other. Nothing more is known about the counts; they may be negative
in between.

A text that is not cut and leads back to the first state is sealed. Sealed pieces joined by a
separator are what cutting gives back (`splitTopLevel_join`).
-/

namespace IdlFormat

theorem Literal.State.next_of_reveals {state : State} {c : Char} (shown : state.reveals c) :
    state.next c = .outside := by
  cases state with
  | outside =>
      have unquoted : isQuote c = false := by simpa [State.reveals] using shown
      simp [State.next, unquoted]
  | inside quote escaped =>
      have atBreak : c = '\n' := by simpa [State.reveals] using shown
      simp [State.next, atBreak]

namespace Bracket

/-- What the scanner for separators knows at a character. -/
@[ext]
structure State where
  /-- Whether a literal is open. -/
  literal : Literal.State := .outside
  /-- The openers of each tracked kind less its closers. -/
  balance : Balance := {}
deriving DecidableEq, Repr

variable {isSeparator : Char → Bool} {tracked : List Bracket}

namespace State

/-- The state after a character. -/
def next (tracked : List Bracket) (state : State) (c : Char) : State where
  literal := state.literal.next c
  balance := if state.literal.reveals c then state.balance.after tracked c else state.balance

/-- The state after a text. -/
def after (tracked : List Bracket) (state : State) (text : Text) : State :=
  text.foldl (next tracked) state

/-- A text is cut at a separator that is code and no tracked bracket, if each tracked kind has seen
as many openers as closers. -/
def Cuts (isSeparator : Char → Bool) (tracked : List Bracket) (state : State) (c : Char) : Prop :=
  state.literal.reveals c ∧ change? tracked c = none ∧ isSeparator c ∧ state.balance = {}

instance (state : State) (c : Char) : Decidable (state.Cuts isSeparator tracked c) :=
  inferInstanceAs (Decidable (_ ∧ _ ∧ _ ∧ _))

/-- The pieces of a text that is read from a state on. -/
def split (isSeparator : Char → Bool) (tracked : List Bracket) (state : State) (text : Text) :
    List Text :=
  splitFrom isSeparator tracked state.literal state.balance text

/-- A text that is read from a state on is not cut anywhere. -/
def Whole (isSeparator : Char → Bool) (tracked : List Bracket) (state : State) (text : Text) :
    Prop :=
  ∀ i (inside : i < text.length),
    ¬ (state.after tracked (text.take i)).Cuts isSeparator tracked text[i]

variable {state : State} {c : Char} {left right : Text}

theorem next_of_cuts (cuts : state.Cuts isSeparator tracked c) : state.next tracked c = {} := by
  rcases cuts with ⟨shown, other, -, balanced⟩
  rw [next, if_pos shown, Literal.State.next_of_reveals shown, Balance.after, other, balanced]

/-- At a cut the scanner is in the state in which a text starts. -/
theorem eq_of_cuts (inLine : c ≠ '\n')
    (cuts : state.Cuts isSeparator tracked c) : state = {} := by
  rcases cuts with ⟨shown, -, -, balanced⟩
  refine State.ext ?_ balanced
  cases stands : state.literal with
  | outside => rfl
  | inside quote escaped => simp [stands, Literal.State.reveals, inLine] at shown

theorem split_cons (state : State) (c : Char) (rest : Text) :
    state.split isSeparator tracked (c :: rest) =
      if state.Cuts isSeparator tracked c then
        [] :: (state.next tracked c).split isSeparator tracked rest
      else consFirst c ((state.next tracked c).split isSeparator tracked rest) := by
  rw [split, splitFrom, split, next]
  by_cases shown : state.literal.reveals c
  · cases counted : change? tracked c with
    | some change => simp [Cuts, shown, Balance.after, counted]
    | none => simp [Cuts, shown, Balance.after, counted, Balance.isZero_iff]
  · simp [Cuts, shown]

theorem after_append (state : State) (left right : Text) :
    state.after tracked (left ++ right) = (state.after tracked left).after tracked right :=
  List.foldl_append

/-- An open literal was opened by a quote. -/
theorem isQuote_of_after {text : Text} {quote : Char} {escaped : Bool}
    (stands : (({} : State).after tracked text).literal = .inside quote escaped) : isQuote quote := by
  induction text using List.reverseRecOn generalizing quote escaped with
  | nil => cases stands
  | append_singleton text c ih =>
      rw [after_append] at stands
      have step : (({} : State).after tracked text).literal.next c = .inside quote escaped := stands
      cases before : (({} : State).after tracked text).literal with
      | outside =>
          rw [before, Literal.State.next] at step
          split at step
          · next opens =>
              obtain ⟨rfl, -⟩ := Literal.State.inside.inj step
              exact opens
          · cases step
      | inside other wasEscaped =>
          have own := ih before
          rw [before, Literal.State.next] at step
          split at step
          · cases step
          · obtain rfl : quote = other := by
              split at step
              · exact (Literal.State.inside.inj step).1.symm
              · split at step
                · exact (Literal.State.inside.inj step).1.symm
                · split at step
                  · cases step
                  · exact (Literal.State.inside.inj step).1.symm
            exact own

/-- A character that is no quote, no line break and no tracked bracket leads back to the first state
from nowhere else. -/
theorem after_eq_of_concat {text : Text} (unquoted : isQuote c = false) (inLine : c ≠ '\n')
    (other : change? tracked c = none) (returns : ({} : State).after tracked (text ++ [c]) = {}) :
    ({} : State).after tracked text = {} := by
  rw [after_append] at returns
  have literal : (({} : State).after tracked text).literal.next c = .outside :=
    congrArg State.literal returns
  cases stands : (({} : State).after tracked text).literal with
  | outside =>
      have balance := congrArg State.balance returns
      have shown : (({} : State).after tracked text).literal.reveals c := by
        simp [stands, Literal.State.reveals, unquoted]
      rw [after, List.foldl_cons, List.foldl_nil, next, if_pos shown, Balance.after, other] at balance
      exact State.ext stands balance
  | inside quote escaped =>
      have notQuote : c ≠ quote := by
        rintro rfl
        rw [isQuote_of_after stands] at unquoted
        cases unquoted
      rw [stands, Literal.State.next, if_neg inLine, if_neg notQuote] at literal
      split at literal
      · cases literal
      · split at literal <;> cases literal

theorem whole_cons_iff :
    state.Whole isSeparator tracked (c :: right) ↔
      ¬ state.Cuts isSeparator tracked c ∧
        (state.next tracked c).Whole isSeparator tracked right := by
  constructor
  · intro whole
    refine ⟨whole 0 (Nat.zero_lt_succ _), ?_⟩
    intro i inside
    exact whole (i + 1) (Nat.succ_lt_succ inside)
  · rintro ⟨here, later⟩ i inside
    cases i with
    | zero => exact here
    | succ i => exact later i (Nat.lt_of_succ_lt_succ inside)

instance decidableWhole (state : State) : (text : Text) →
    Decidable (state.Whole isSeparator tracked text)
  | [] => .isTrue nofun
  | c :: rest =>
      have := decidableWhole (state.next tracked c) rest
      decidable_of_iff' _ whole_cons_iff

theorem Whole.append (whole : state.Whole isSeparator tracked left)
    (rest : (state.after tracked left).Whole isSeparator tracked right) :
    state.Whole isSeparator tracked (left ++ right) := by
  induction left generalizing state with
  | nil => exact rest
  | cons c left ih =>
      rcases whole_cons_iff.1 whole with ⟨here, later⟩
      exact whole_cons_iff.2 ⟨here, ih later rest⟩

theorem Whole.of_append (whole : state.Whole isSeparator tracked (left ++ right)) :
    state.Whole isSeparator tracked left ∧
      (state.after tracked left).Whole isSeparator tracked right := by
  induction left generalizing state with
  | nil => exact ⟨nofun, whole⟩
  | cons c left ih =>
      rcases whole_cons_iff.1 whole with ⟨here, later⟩
      rcases ih later with ⟨own, rest⟩
      exact ⟨whole_cons_iff.2 ⟨here, own⟩, rest⟩

/-- What holds no cut goes to the first piece of what follows. -/
theorem Whole.split_append (whole : state.Whole isSeparator tracked left) (right : Text) :
    state.split isSeparator tracked (left ++ right) =
      left.foldr consFirst ((state.after tracked left).split isSeparator tracked right) := by
  induction left generalizing state with
  | nil => rfl
  | cons c left ih =>
      rcases whole_cons_iff.1 whole with ⟨here, later⟩
      rw [List.cons_append, split_cons, if_neg here, ih later]
      rfl

/-- The pieces of a text stand in it, and the first one at its start. -/
theorem exists_split_eq (isSeparator : Char → Bool) (tracked : List Bracket) (state : State)
    (text : Text) :
    ∃ first others, state.split isSeparator tracked text = first :: others ∧
      first <+: text ∧ ∀ piece ∈ others, piece <:+: text := by
  induction text generalizing state with
  | nil => exact ⟨[], [], rfl, List.nil_prefix, nofun⟩
  | cons c rest ih =>
      have later := (List.suffix_cons c rest).isInfix
      rcases ih (state.next tracked c) with ⟨first, others, same, start, inside⟩
      rw [split_cons, same]
      split
      · refine ⟨[], first :: others, rfl, List.nil_prefix, ?_⟩
        rw [List.forall_mem_cons]
        exact ⟨start.isInfix.trans later, fun piece member => (inside piece member).trans later⟩
      · refine ⟨c :: first, others, rfl, (List.prefix_cons_inj c).2 start, ?_⟩
        intro piece member
        exact (inside piece member).trans later

end State

theorem exists_splitTopLevel_eq (isSeparator : Char → Bool) (tracked : List Bracket) (text : Text) :
    ∃ first others, splitTopLevel isSeparator tracked text = first :: others ∧
      first <+: text ∧ ∀ piece ∈ others, piece <:+: text :=
  ({} : State).exists_split_eq isSeparator tracked text

theorem isInfix_of_mem_splitTopLevel {text piece : Text}
    (member : piece ∈ splitTopLevel isSeparator tracked text) : piece <:+: text := by
  rcases exists_splitTopLevel_eq isSeparator tracked text with ⟨first, others, same, start, inside⟩
  rw [same] at member
  rcases List.mem_cons.1 member with rfl | other
  · exact start.isInfix
  · exact inside piece other

/-- A text that is not cut anywhere is a single piece. -/
theorem State.Whole.splitTopLevel_eq {text : Text}
    (whole : ({} : State).Whole isSeparator tracked text) :
    splitTopLevel isSeparator tracked text = [text] := by
  have alone := whole.split_append []
  rw [List.append_nil] at alone
  refine alone.trans ?_
  change text.foldr consFirst [[]] = _
  rw [foldr_consFirst_cons, List.append_nil]

/-- A text without cuts behind which no literal is open and each tracked kind is balanced. -/
structure Sealed (isSeparator : Char → Bool) (tracked : List Bracket) (text : Text) : Prop where
  /-- It is not cut anywhere. -/
  whole : ({} : State).Whole isSeparator tracked text
  /-- It leads back to the state in which a text starts. -/
  returns : ({} : State).after tracked text = {}

namespace Sealed

variable {left right : Text}

theorem append (first : Sealed isSeparator tracked left)
    (second : Sealed isSeparator tracked right) : Sealed isSeparator tracked (left ++ right) where
  whole := by
    apply first.whole.append
    rw [first.returns]
    exact second.whole
  returns := by rw [State.after_append, first.returns, second.returns]

/-- Characters that are no quotes, no tracked brackets and no separators. -/
theorem of_idle {text : Text}
    (idle : ∀ c ∈ text, isQuote c = false ∧ change? tracked c = none ∧ isSeparator c = false) :
    Sealed isSeparator tracked text := by
  induction text with
  | nil => exact ⟨nofun, rfl⟩
  | cons c text ih =>
      rcases idle c List.mem_cons_self with ⟨unquoted, other, noSeparator⟩
      have rest := ih fun d member => idle d (List.mem_cons_of_mem c member)
      have stays : ({} : State).next tracked c = {} := by
        simp [State.next, Literal.State.next, unquoted, Balance.after, other]
      constructor
      · rw [State.whole_cons_iff, stays]
        refine ⟨?_, rest.whole⟩
        rintro ⟨-, -, isOne, -⟩
        simp [noSeparator] at isOne
      · rw [State.after, List.foldl_cons, stays]
        exact rest.returns

/-- A separator behind a sealed text is cut at, and what follows is read on its own. -/
theorem splitTopLevel_append_cons (shut : Sealed isSeparator tracked left) {separator : Char}
    (cuts : ({} : State).Cuts isSeparator tracked separator) (right : Text) :
    splitTopLevel isSeparator tracked (left ++ separator :: right) =
      left :: splitTopLevel isSeparator tracked right := by
  refine (shut.whole.split_append _).trans ?_
  rw [shut.returns, State.split_cons, if_pos cuts, State.next_of_cuts cuts, foldr_consFirst_cons,
    List.append_nil]
  rfl

end Sealed

/-- Sealed pieces joined by separators are given back by cutting. -/
theorem splitTopLevel_join {separator : Char}
    (cuts : ({} : State).Cuts isSeparator tracked separator) {piece : Text} {pieces : List Text}
    (shut : ∀ other ∈ piece :: pieces, Sealed isSeparator tracked other) :
    splitTopLevel isSeparator tracked (Text.join [separator] (piece :: pieces)) =
      piece :: pieces := by
  induction pieces generalizing piece with
  | nil => exact (shut piece List.mem_cons_self).whole.splitTopLevel_eq
  | cons other pieces ih =>
      rcases List.forall_mem_cons.1 shut with ⟨first, others⟩
      rw [Text.join_cons_of_ne_nil separator piece (List.cons_ne_nil other pieces),
        first.splitTopLevel_append_cons cuts, ih others]

end Bracket

namespace Segment

open IdlFormat.Bracket (State)

variable {tracked : List Bracket} {state : State} {segments : List Segment}

/-- No literal and no comment among segments is cut at a comma, where the segments are read from a
state on. -/
def UncutFrom (tracked : List Bracket) (state : State) : List Segment → Prop
  | [] => True
  | .code c :: rest => UncutFrom tracked (state.next tracked c) rest
  | segment :: rest =>
      state.Whole (· = ',') tracked segment.text ∧
        UncutFrom tracked (state.after tracked segment.text) rest

instance decidableUncutFrom (tracked : List Bracket) (state : State) : (segments : List Segment) →
    Decidable (UncutFrom tracked state segments)
  | [] => .isTrue trivial
  | .code c :: rest => decidableUncutFrom tracked (state.next tracked c) rest
  | .literal text _ :: rest =>
      have := decidableUncutFrom tracked (state.after tracked text) rest
      inferInstanceAs (Decidable (state.Whole (· = ',') tracked text ∧
        UncutFrom tracked (state.after tracked text) rest))
  | .comment _ text :: rest =>
      have := decidableUncutFrom tracked (state.after tracked text) rest
      inferInstanceAs (Decidable (state.Whole (· = ',') tracked text ∧
        UncutFrom tracked (state.after tracked text) rest))

theorem UncutFrom.tail {segment : Segment} (uncut : UncutFrom tracked state (segment :: segments)) :
    UncutFrom tracked (state.after tracked segment.text) segments := by
  cases segment with
  | code c => exact uncut
  | literal text repair => exact uncut.2
  | comment form text => exact uncut.2

theorem UncutFrom.of_append {left right : List Segment}
    (uncut : UncutFrom tracked state (left ++ right)) : UncutFrom tracked state left := by
  induction left generalizing state with
  | nil => trivial
  | cons segment left ih =>
      have later := ih uncut.tail
      cases segment with
      | code c => exact later
      | literal text repair => exact ⟨uncut.1, later⟩
      | comment form text => exact ⟨uncut.1, later⟩

/-- A segment holds no cut, unless it is a comma that is cut at. -/
theorem UncutFrom.whole {segment : Segment}
    (uncut : UncutFrom tracked state (segment :: segments))
    (notCut : ¬ (segment = .code ',' ∧ state.Cuts (· = ',') tracked ',')) :
    state.Whole (· = ',') tracked segment.text := by
  cases segment with
  | literal text repair => exact uncut.1
  | comment form text => exact uncut.1
  | code c =>
      refine State.whole_cons_iff.2 ⟨fun cuts => notCut ?_, nofun⟩
      obtain rfl : c = ',' := of_decide_eq_true cuts.2.2.1
      exact ⟨rfl, cuts⟩

/-- The pieces that a text is cut into at its commas are those between commas of its code, if no
literal and no comment is cut. -/
theorem UncutFrom.exists_pieces (uncut : UncutFrom tracked state segments) :
    ∃ pieces, state.split (· = ',') tracked (spell segments) = pieces.map spell ∧
      [Segment.code ','].intercalate pieces = segments := by
  induction segments generalizing state with
  | nil => exact ⟨[[]], rfl, rfl⟩
  | cons segment rest ih =>
      obtain ⟨pieces, cut, joined⟩ := ih uncut.tail
      obtain ⟨first, others, rfl⟩ : ∃ first others, pieces = first :: others := by
        rcases state.after tracked segment.text |>.exists_split_eq (· = ',') tracked (spell rest)
          with ⟨first, others, same, -⟩
        rw [cut] at same
        exact List.exists_cons_of_ne_nil fun none => by simp [none] at same
      by_cases cuts : segment = .code ',' ∧ state.Cuts (· = ',') tracked ','
      · obtain ⟨rfl, cuts⟩ := cuts
        refine ⟨[] :: first :: others, ?_, ?_⟩
        · rw [spell_cons, Segment.text, List.singleton_append, State.split_cons, if_pos cuts]
          exact congrArg ([] :: ·) cut
        · rw [← joined]
          rfl
      · refine ⟨(segment :: first) :: others, ?_, ?_⟩
        · rw [spell_cons, (uncut.whole cuts).split_append, cut, List.map_cons,
            Bracket.foldr_consFirst_cons, List.map_cons, spell_cons]
        · rw [← joined]
          cases others <;> rfl

end Segment

end IdlFormat
