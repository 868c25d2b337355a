import IdlFormat.Document
import IdlFormat.Proofs.Respacing
import IdlFormat.Proofs.Stretch
import Mathlib.Data.List.Forall2
import Mathlib.Data.List.TakeWhile

/-!
# Laying a document out anew

The gaps between the lexemes of a text, its literals and characters of code, can be changed without
a change of the formatted document: only whether there is a gap matters, and whether a line ends
after a closing brace. Two texts that are the same up to such changes are called relaid. The
relation is followed through the scanners, which read both texts in step, and through respacing,
which forgets what is left of the gaps.
-/

namespace IdlFormat

namespace Segment

/-- A gap between lexemes: spaces, tabs and line breaks. -/
def IsGap (gap : Text) : Prop :=
  ∀ c ∈ gap, c = ' ' ∨ c = '\t' ∨ c = '\n'

/-- A lexeme: a closed literal, or a character of code that is neither blank nor `#`. -/
def IsLexeme : Segment → Prop
  | .code c => isBlank c = false ∧ c ≠ '#' ∧ c ≠ Mask.mark
  | .literal text repair => repair = [] ∧ '\r' ∉ text ∧ Mask.mark ∉ text
  | .comment _ _ => False

instance : DecidablePred IsLexeme
  | .code c => inferInstanceAs (Decidable (isBlank c = false ∧ c ≠ '#' ∧ c ≠ Mask.mark))
  | .literal text repair =>
      inferInstanceAs (Decidable (repair = [] ∧ '\r' ∉ text ∧ Mask.mark ∉ text))
  | .comment _ _ => inferInstanceAs (Decidable False)

/-- The gaps after a lexeme agree: they are both empty or both not, and after a closing brace, where
line breaks count, both hold one or neither does. Before the first lexeme all gaps agree. -/
def GapsAgree (breaks : Prop) (before : Option Segment) (gap other : Text) : Prop :=
  ∀ lexeme, before = some lexeme → (gap = [] ↔ other = []) ∧
    (breaks → lexeme = .code '}' → ('\n' ∈ gap ↔ '\n' ∈ other))

/-- Segments that hold the same lexemes with gaps between them that agree, where `before` is the
lexeme in front of them. Here `breaks` says whether line breaks after closing braces count, and
`strict` whether the gap after the last lexeme has to be empty for both or for neither. -/
inductive Relaid (breaks strict : Prop) : Option Segment → List Segment → List Segment → Prop
  /-- Only a gap is left. -/
  | ended {before : Option Segment} {gap other : Text} (blank : IsGap gap) (otherBlank : IsGap other)
      (agree : strict → (gap = [] ↔ other = [])) :
      Relaid breaks strict before (gap.map .code) (other.map .code)
  /-- A gap and a lexeme. -/
  | next {before : Option Segment} {gap other : Text} {lexeme : Segment} {left right : List Segment}
      (blank : IsGap gap) (otherBlank : IsGap other) (agree : GapsAgree breaks before gap other)
      (isLexeme : lexeme.IsLexeme) (later : Relaid breaks strict (some lexeme) left right) :
      Relaid breaks strict before (gap.map .code ++ lexeme :: left)
        (other.map .code ++ lexeme :: right)

namespace Relaid

variable {breaks strict : Prop} {before : Option Segment} {left right : List Segment}

theorem mono {fewer weaker : Prop} (relaid : Relaid breaks strict before left right)
    (count : fewer → breaks) (last : weaker → strict) : Relaid fewer weaker before left right := by
  induction relaid with
  | ended blank otherBlank agree => exact .ended blank otherBlank fun known => agree (last known)
  | next blank otherBlank agree isLexeme later ih =>
      refine .next blank otherBlank ?_ isLexeme ih
      exact fun lexeme same => ⟨(agree lexeme same).1, fun known => (agree lexeme same).2 (count known)⟩

/-- Line breaks need not count. -/
theorem forgetBreaks (relaid : Relaid breaks strict before left right) :
    Relaid False strict before left right :=
  relaid.mono False.elim id

/-- The last gap need not agree. -/
theorem forgetEnd (relaid : Relaid breaks strict before left right) :
    Relaid breaks False before left right :=
  relaid.mono id False.elim

/-- What stands in front need not be known. -/
theorem forgetBefore (relaid : Relaid breaks strict before left right) :
    Relaid breaks strict none left right := by
  cases relaid with
  | ended blank otherBlank agree => exact .ended blank otherBlank agree
  | next blank otherBlank agree isLexeme later =>
      exact .next blank otherBlank (by simp [GapsAgree]) isLexeme later

/-- Relaid segments in front of a lexeme and more. -/
theorem append {lexeme : Segment} (isLexeme : lexeme.IsLexeme) {more others : List Segment}
    (first : Relaid False True before left right)
    (later : Relaid False strict (some lexeme) more others) :
    Relaid False strict before (left ++ lexeme :: more) (right ++ lexeme :: others) := by
  induction first with
  | ended blank otherBlank agree =>
      refine .next blank otherBlank ?_ isLexeme later
      exact fun _ _ => ⟨agree trivial, False.elim⟩
  | next blank otherBlank agree inner _ ih =>
      rw [List.append_assoc, List.append_assoc]
      exact .next blank otherBlank agree inner ih

/-- A single lexeme. -/
theorem lexeme {lexeme : Segment} (isLexeme : lexeme.IsLexeme)
    (later : Relaid breaks strict (some lexeme) left right) :
    Relaid breaks strict before (lexeme :: left) (lexeme :: right) := by
  have empty : IsGap [] := by simp [IsGap]
  exact .next empty empty (by simp [GapsAgree]) isLexeme later

theorem nil : Relaid breaks strict before [] [] := by
  have empty : IsGap [] := by simp [IsGap]
  exact .ended empty empty (by simp)

end Relaid

theorem IsGap.head {c : Char} {gap : Text} (blank : IsGap (c :: gap)) : isBlank c = true := by
  rcases blank c List.mem_cons_self with rfl | rfl | rfl <;> decide

theorem IsGap.tail {c : Char} {gap : Text} (blank : IsGap (c :: gap)) : IsGap gap :=
  fun d member => blank d (List.mem_cons_of_mem _ member)

theorem step_of_isBlank {c : Char} (blank : isBlank c) : Bracket.step c = 0 ∧ c ≠ ']' := by
  have notOpen : c ≠ '[' := by
    rintro rfl
    revert blank
    decide
  have notClose : c ≠ ']' := by
    rintro rfl
    revert blank
    decide
  simp [Bracket.step, notOpen, notClose]

theorem cutClosed_gap {gap : Text} (blank : IsGap gap) (depth : Int) (segments : List Segment) :
    cutClosed depth (gap.map .code ++ segments) =
      (gap.map .code ++ (cutClosed depth segments).1, (cutClosed depth segments).2) := by
  induction gap with
  | nil => rfl
  | cons c gap ih =>
      obtain ⟨flat, notClose⟩ := step_of_isBlank blank.head
      rw [List.map_cons, List.cons_append, cutClosed, if_neg (by simp [notClose]), square, flat,
        Int.add_zero, ih blank.tail]
      rfl

theorem openDepthFrom_gap {gap : Text} (blank : IsGap gap) (depth : Nat) (segments : List Segment) :
    openDepthFrom depth (gap.map .code ++ segments) = openDepthFrom depth segments := by
  induction gap with
  | nil => rfl
  | cons c gap ih =>
      rw [List.map_cons, List.cons_append, openDepthFrom, square, (step_of_isBlank blank.head).1]
      simpa using ih blank.tail

namespace Relaid

variable {breaks strict : Prop} {before : Option Segment} {left right : List Segment}

/-- As many square brackets are left open. -/
theorem openDepthFrom (relaid : Relaid breaks strict before left right) (depth : Nat) :
    Segment.openDepthFrom depth left = Segment.openDepthFrom depth right := by
  induction relaid generalizing depth with
  | ended blank otherBlank _ =>
      have whole := openDepthFrom_gap blank depth []
      have otherWhole := openDepthFrom_gap otherBlank depth []
      rw [List.append_nil] at whole otherWhole
      rw [whole, otherWhole]
  | next blank otherBlank _ _ _ ih =>
      rw [openDepthFrom_gap blank, openDepthFrom_gap otherBlank, Segment.openDepthFrom,
        Segment.openDepthFrom, ih]

/-- A block that is closed is closed at the same bracket; otherwise all is taken. -/
theorem cutClosed (relaid : Relaid breaks strict before left right) (known : before ≠ none)
    {depth : Nat} (isOpen : 0 < depth) :
    (∃ inner other rest more,
      Segment.cutClosed depth left = (inner ++ [Segment.code ']'], rest) ∧
      Segment.cutClosed depth right = (other ++ [Segment.code ']'], more) ∧
      Relaid False True before inner other ∧ Relaid breaks strict (some (.code ']')) rest more ∧
      Segment.openDepthFrom depth (inner ++ [Segment.code ']']) = 0) ∨
    (Segment.cutClosed depth left = (left, []) ∧ Segment.cutClosed depth right = (right, []) ∧
      0 < Segment.openDepthFrom depth left) := by
  induction relaid generalizing depth with
  | ended blank otherBlank _ =>
      right
      have whole := cutClosed_gap blank depth []
      have otherWhole := cutClosed_gap otherBlank depth []
      have deep := openDepthFrom_gap blank depth []
      rw [List.append_nil] at whole otherWhole deep
      refine ⟨by simpa [Segment.cutClosed] using whole,
        by simpa [Segment.cutClosed] using otherWhole, ?_⟩
      rw [deep]
      exact isOpen
  | @next before gap other lexeme left right blank otherBlank agree isLexeme later ih =>
      have agreeToo : GapsAgree False before gap other :=
        fun lexeme same => ⟨(agree lexeme same).1, False.elim⟩
      rw [cutClosed_gap blank, cutClosed_gap otherBlank, Segment.cutClosed, Segment.cutClosed,
        openDepthFrom_gap blank, Segment.openDepthFrom]
      by_cases closing : lexeme = .code ']' ∧ (depth : Int) = 1
      · left
        rw [if_pos closing, if_pos closing]
        obtain ⟨rfl, one⟩ := closing
        refine ⟨gap.map .code, other.map .code, left, right, rfl, rfl, ?_, later, ?_⟩
        · refine .ended blank otherBlank fun _ => ?_
          obtain ⟨lexeme, same⟩ := Option.ne_none_iff_exists'.1 known
          exact (agree lexeme same).1
        · rw [openDepthFrom_gap blank]
          simp [Segment.openDepthFrom, square, Bracket.step, one]
      · rw [if_neg closing, if_neg closing]
        obtain ⟨after, positive, counted⟩ := exists_depth_after isOpen closing
        have natural : ((depth : Int) + lexeme.square).toNat = after := by omega
        rw [natural, counted]
        rcases ih (by simp) positive with
          ⟨inner, others, rest, more, cut, otherCut, same, following, closed⟩ |
            ⟨cut, otherCut, deep⟩
        · left
          refine ⟨gap.map .code ++ lexeme :: inner, other.map .code ++ lexeme :: others, rest, more,
            by simp [cut], by simp [otherCut], .next blank otherBlank agreeToo isLexeme same,
            following, ?_⟩
          rw [List.append_assoc, openDepthFrom_gap blank, List.cons_append, Segment.openDepthFrom,
            natural, closed]
        · right
          exact ⟨by simp [cut], by simp [otherCut], deep⟩

end Relaid

end Segment

namespace CodeUnit

/-- Two states with the same brackets open. -/
def State.Level (state other : State) : Prop :=
  state.parens = other.parens ∧ state.angles = other.angles

theorem State.Level.isTop {state other : State} (level : state.Level other) :
    state.isTop = other.isTop := by
  rw [State.isTop, State.isTop, level.1, level.2]

theorem State.Level.next {state other : State} (level : state.Level other) (c : Char) :
    (state.next c).Level (other.next c) := by
  simp [State.Level, State.next, level.1, level.2]

theorem State.Level.skip {state other : State} (level : state.Level other) :
    state.skip.Level other.skip :=
  level

theorem State.Level.stopsBefore {state other : State} (level : state.Level other) {c : Char}
    (notHash : c ≠ '#') : state.stopsBefore c = other.stopsBefore c := by
  simp [State.stopsBefore, level.isTop, notHash]

end CodeUnit

namespace Segment

theorem cutUnit_gap {gap : Text} (blank : IsGap gap) (state : CodeUnit.State)
    (segments : List Segment) :
    ∃ later : CodeUnit.State, state.Level later ∧
      cutUnit state (gap.map .code ++ segments) =
        (gap.map .code ++ (cutUnit later segments).1, (cutUnit later segments).2) := by
  induction gap generalizing state with
  | nil => exact ⟨state, ⟨rfl, rfl⟩, rfl⟩
  | cons c gap ih =>
      obtain ⟨later, level, same⟩ := ih blank.tail (state.next c)
      have inert : c ≠ '[' ∧ c ≠ '{' ∧ c ≠ '}' ∧ c ≠ '#' ∧ c ≠ ';' ∧ c ≠ '(' ∧ c ≠ ')' ∧ c ≠ '<' ∧
          c ≠ '>' := by
        rcases blank c List.mem_cons_self with rfl | rfl | rfl <;> decide
      refine ⟨later, ?_, ?_⟩
      · simpa [CodeUnit.State.Level, CodeUnit.State.next, inert] using level
      · rw [List.map_cons, List.cons_append, cutUnit]
        simp [inert, CodeUnit.State.stopsBefore, same]

namespace Relaid

variable {breaks strict : Prop} {before : Option Segment} {left right : List Segment}

/-- Units of relaid segments are relaid, and so is what follows them. -/
theorem unit {state other : CodeUnit.State} (level : state.Level other)
    (relaid : Relaid breaks strict before left right) :
    Relaid False False before (Segment.cutUnit state left).1 (Segment.cutUnit other right).1 ∧
      Relaid breaks strict none (Segment.cutUnit state left).2 (Segment.cutUnit other right).2 := by
  -- What follows a block in square brackets is no immediate part of the segments, so the induction
  -- is on their number.
  induction size : left.length using Nat.strongRecOn
    generalizing before left right state other with
  | ind size ih =>
      subst size
      cases relaid with
      | @ended _ gap gapToo blank otherBlank agree =>
          obtain ⟨later, -, cut⟩ := cutUnit_gap blank state []
          obtain ⟨laterToo, -, otherCut⟩ := cutUnit_gap otherBlank other []
          rw [List.append_nil] at cut otherCut
          rw [cut, otherCut]
          simp only [Segment.cutUnit, List.append_nil]
          exact ⟨.ended blank otherBlank False.elim, .nil⟩
      | @next _ gap gapToo lexeme left right blank otherBlank agree isLexeme later =>
          have agreeToo : GapsAgree False before gap gapToo :=
            fun lexeme same => ⟨(agree lexeme same).1, False.elim⟩
          obtain ⟨state, levelNow, cut⟩ := cutUnit_gap blank state (lexeme :: left)
          obtain ⟨other, otherNow, otherCut⟩ := cutUnit_gap otherBlank other (lexeme :: right)
          have level : state.Level other := by
            exact ⟨levelNow.1.symm.trans (level.1.trans otherNow.1),
              levelNow.2.symm.trans (level.2.trans otherNow.2)⟩
          rw [cut, otherCut]
          cases lexeme with
          | comment form text => exact absurd isLexeme id
          | literal text repair =>
              have inner := ih _ (by simp; omega) level.skip later rfl
              simp only [Segment.cutUnit]
              exact ⟨.next blank otherBlank agreeToo isLexeme inner.1, inner.2⟩
          | code c =>
              rw [Segment.cutUnit, Segment.cutUnit, ← level.stopsBefore isLexeme.2.1, ← level.isTop]
              by_cases opens : c = '['
              · subst opens
                simp only [if_true, Segment.cutClosed_opening]
                rcases later.cutClosed (by simp) Nat.one_pos with
                  ⟨inner, others, rest, more, taken, otherTaken, same, following, -⟩ |
                    ⟨taken, otherTaken, -⟩
                · have shorter : rest.length < left.length := by
                    have parts := congrArg List.length (Segment.cutClosed_append (1 : Nat) left)
                    simp only [taken, List.length_append, List.length_singleton] at parts
                    omega
                  have closing : (code ']').IsLexeme := by decide
                  have inner := ih _ (by simp; omega) level.skip following rfl
                  rw [taken, otherTaken]
                  refine ⟨?_, inner.2⟩
                  refine .next blank otherBlank agreeToo isLexeme ?_
                  simpa using same.append closing inner.1
                · rw [taken, otherTaken]
                  simp only [Segment.cutUnit, List.append_nil]
                  exact ⟨.next blank otherBlank agreeToo isLexeme later.forgetBreaks.forgetEnd, .nil⟩
              · rw [if_neg opens, if_neg opens]
                split
                · exact ⟨by simpa using .ended blank otherBlank False.elim, .lexeme isLexeme later⟩
                · split
                  · exact ⟨.next blank otherBlank agreeToo isLexeme .nil, later.forgetBefore⟩
                  · have inner := ih _ (by simp; omega) (level.next c) later rfl
                    exact ⟨.next blank otherBlank agreeToo isLexeme inner.1, inner.2⟩

end Relaid

end Segment

namespace Text

theorem collapseFrom_true_gap {gap : Text} (blank : gap.all IdlFormat.isBlank) {c : Char}
    (notBlank : IdlFormat.isBlank c = false) (rest : Text) :
    collapseFrom true (gap ++ c :: rest) = c :: collapseFrom false rest := by
  induction gap with
  | nil => simp [collapseFrom, notBlank]
  | cons d gap ih =>
      simp only [List.all_cons, Bool.and_eq_true] at blank
      simp [collapseFrom, blank.1, ih blank.2]

/-- A gap in front of a character is one space, or none if the gap is empty. -/
theorem collapse_gap {gap : Text} (blank : gap.all IdlFormat.isBlank) {c : Char}
    (notBlank : IdlFormat.isBlank c = false) (rest : Text) :
    collapse (gap ++ c :: rest) = (if gap = [] then [] else [' ']) ++ c :: collapse rest := by
  cases gap with
  | nil => simp [collapse, collapseFrom, notBlank]
  | cons d gap =>
      simp only [List.all_cons, Bool.and_eq_true] at blank
      simp [collapse, collapseFrom, blank.1, collapseFrom_true_gap blank.2 notBlank]

end Text

namespace Segment

theorem IsGap.all_isBlank {gap : Text} (blank : IsGap gap) : gap.all isBlank := by
  rw [List.all_eq_true]
  intro c member
  rcases blank c member with rfl | rfl | rfl <;> decide

theorem skeleton_map_code (gap : Text) : skeleton (gap.map .code) = gap := by
  simp [skeleton, Function.comp_def]

theorem skeleton_append (left right : List Segment) :
    skeleton (left ++ right) = skeleton left ++ skeleton right :=
  List.map_append

theorem hidden_map_code (gap : Text) : hidden (gap.map .code) = [] := by
  simp [hidden, List.filterMap_map]

theorem hidden_append (left right : List Segment) :
    hidden (left ++ right) = hidden left ++ hidden right :=
  List.filterMap_append

theorem IsLexeme.skeleton {lexeme : Segment} (isLexeme : lexeme.IsLexeme) :
    ∃ c, isBlank c = false ∧ ∀ rest, Segment.skeleton (lexeme :: rest) = c :: Segment.skeleton rest := by
  cases lexeme with
  | code c => exact ⟨c, isLexeme.1, fun _ => rfl⟩
  | literal text repair => exact ⟨Mask.mark, by decide, fun _ => rfl⟩
  | comment form text => exact absurd isLexeme id

namespace Relaid

variable {breaks strict : Prop} {before : Option Segment} {left right : List Segment}

theorem symm (relaid : Relaid breaks strict before left right) :
    Relaid breaks strict before right left := by
  induction relaid with
  | ended blank otherBlank agree => exact .ended otherBlank blank fun known => (agree known).symm
  | next blank otherBlank agree isLexeme _ ih =>
      refine .next otherBlank blank ?_ isLexeme ih
      exact fun lexeme same => ⟨(agree lexeme same).1.symm, fun count brace =>
        ((agree lexeme same).2 count brace).symm⟩

/-- The same texts are hidden. -/
theorem hidden (relaid : Relaid breaks strict before left right) :
    Segment.hidden left = Segment.hidden right := by
  induction relaid with
  | ended _ _ _ => rw [hidden_map_code, hidden_map_code]
  | @next _ gap other lexeme left right _ _ _ _ _ ih =>
      rw [hidden_append, hidden_append, hidden_map_code, hidden_map_code]
      cases lexeme with
      | code c => exact ih
      | literal text repair => exact congrArg (_ :: ·) ih
      | comment form text => exact congrArg (_ :: ·) ih

/-- After a lexeme the skeletons are the same once the gaps are collapsed and the last one is
dropped. -/
theorem trimEnd_collapse (relaid : Relaid breaks strict before left right) (known : before ≠ none) :
    (skeleton left).collapse.trimEnd = (skeleton right).collapse.trimEnd := by
  induction relaid with
  | ended blank otherBlank _ =>
      have dropped {gap : Text} (blank : IsGap gap) : gap.collapse.trimEnd = [] := by
        apply Text.trimEnd_eq_nil_of_compact
        rw [Text.compact_collapse, Text.compact_eq_nil blank.all_isBlank]
      rw [skeleton_map_code, skeleton_map_code, dropped blank, dropped otherBlank]
  | @next before gap other lexeme left right blank otherBlank agree isLexeme _ ih =>
      obtain ⟨c, notBlank, first⟩ := isLexeme.skeleton
      obtain ⟨previous, same⟩ := Option.ne_none_iff_exists'.1 known
      have inner : Text.trimEnd (c :: (skeleton left).collapse) =
          Text.trimEnd (c :: (skeleton right).collapse) := by
        rw [Text.trimEnd_cons_of_not_blank notBlank, Text.trimEnd_cons_of_not_blank notBlank,
          ih (by simp)]
      have filled (rest : Text) : Text.trimEnd (c :: rest) ≠ [] := by
        simp [Text.trimEnd_cons_of_not_blank notBlank]
      rw [skeleton_append, skeleton_append, skeleton_map_code, skeleton_map_code, first, first,
        Text.collapse_gap blank.all_isBlank notBlank,
        Text.collapse_gap otherBlank.all_isBlank notBlank, Text.trimEnd_append (filled _),
        Text.trimEnd_append (filled _), inner]
      simp only [(agree previous same).1]

/-- The skeletons are the same once the gaps are collapsed and those at both ends are dropped. -/
theorem trim_collapse (relaid : Relaid breaks strict before left right) :
    (skeleton left).collapse.trim = (skeleton right).collapse.trim := by
  cases relaid with
  | ended blank otherBlank _ =>
      have dropped {gap : Text} (blank : IsGap gap) : gap.collapse.trim = [] := by
        rw [Text.trim_eq_nil_iff, Text.compact_collapse, Text.compact_eq_nil blank.all_isBlank]
      rw [skeleton_map_code, skeleton_map_code, dropped blank, dropped otherBlank]
  | @next before gap other lexeme left right blank otherBlank agree isLexeme later =>
      obtain ⟨c, notBlank, first⟩ := isLexeme.skeleton
      have trimmed {gap : Text} (blank : IsGap gap) (rest : Text) :
          (Text.collapse (gap ++ c :: rest)).trim = c :: rest.collapse.trimEnd := by
        rw [Text.collapse_gap blank.all_isBlank notBlank, Text.trim, Text.trimStart]
        have start : ((if gap = [] then [] else [' ']) ++ c :: Text.collapse rest).dropWhile isBlank =
            c :: Text.collapse rest := by
          split <;> simp [notBlank]
        rw [start, Text.trimEnd_cons_of_not_blank notBlank]
      rw [skeleton_append, skeleton_append, skeleton_map_code, skeleton_map_code, first, first,
        trimmed blank, trimmed otherBlank, later.trimEnd_collapse (by simp)]

/-- A character that is in no gap and in no lexeme is not in the text. -/
theorem not_mem_spell (relaid : Relaid breaks strict before left right) {c : Char}
    (notGap : c ≠ ' ' ∧ c ≠ '\t' ∧ c ≠ '\n')
    (notLexeme : ∀ lexeme : Segment, lexeme.IsLexeme → c ∉ lexeme.text) : c ∉ spell left := by
  have outside {gap : Text} (blank : IsGap gap) : c ∉ spell (gap.map .code) := by
    intro member
    have inGap : c ∈ gap := by
      simpa [spell, Segment.text] using member
    rcases blank c inGap with rfl | rfl | rfl <;> simp at notGap
  induction relaid with
  | ended blank _ _ => exact outside blank
  | next blank _ _ isLexeme _ ih =>
      rw [spell_append, spell_cons]
      simp [outside blank, notLexeme _ isLexeme, ih]

theorem mark_not_mem_spell (relaid : Relaid breaks strict before left right) :
    Mask.mark ∉ spell left := by
  apply relaid.not_mem_spell (by decide)
  intro lexeme isLexeme
  cases lexeme with
  | code c => simpa [Segment.text] using isLexeme.2.2.symm
  | literal text repair => exact isLexeme.2.2
  | comment form text => exact absurd isLexeme id

theorem return_not_mem_spell (relaid : Relaid breaks strict before left right) :
    '\r' ∉ spell left := by
  apply relaid.not_mem_spell (by decide)
  intro lexeme isLexeme
  cases lexeme with
  | code c =>
      have notBlank := isLexeme.1
      rintro member
      obtain rfl : '\r' = c := by simpa [Segment.text] using member
      revert notBlank
      decide
  | literal text repair => exact isLexeme.2.1
  | comment form text => exact absurd isLexeme id

end Relaid

end Segment

/-- Relaid texts are the same when their literals are hidden, apart from the gaps. -/
theorem mask_spell_relaid {breaks strict : Prop} {before : Option Segment}
    {left right : List Segment} (relaid : Segment.Relaid breaks strict before left right)
    (lexed : Segment.Lexed left) (otherLexed : Segment.Lexed right) :
    (mask (Segment.spell left)).saved = (mask (Segment.spell right)).saved ∧
      (mask (Segment.spell left)).text.collapse.trim =
        (mask (Segment.spell right)).text.collapse.trim := by
  rw [mask_eq relaid.mark_not_mem_spell, mask_eq relaid.symm.mark_not_mem_spell,
    Segment.split_spell lexed, Segment.split_spell otherLexed]
  refine ⟨relaid.hidden, ?_⟩
  simp only [Mask.collapse_fill, Mask.trim_fill, relaid.trim_collapse]

theorem Statement.normalize_spell_relaid {breaks strict : Prop} {before : Option Segment}
    {left right : List Segment} (relaid : Segment.Relaid breaks strict before left right)
    (lexed : Segment.Lexed left) (otherLexed : Segment.Lexed right) :
    normalize (Segment.spell left) = normalize (Segment.spell right) := by
  obtain ⟨saved, text⟩ := mask_spell_relaid relaid lexed otherLexed
  simp only [normalize, respace, saved, text]

theorem Attribute.format_spell_relaid {breaks strict : Prop} {before : Option Segment}
    {left right : List Segment} (relaid : Segment.Relaid breaks strict before left right)
    (lexed : Segment.Lexed left) (otherLexed : Segment.Lexed right) :
    format (Segment.spell left) = format (Segment.spell right) := by
  obtain ⟨saved, text⟩ := mask_spell_relaid relaid lexed otherLexed
  simp only [format, respace, saved, text]

namespace Segment

theorem spell_eq_skeleton {segments : List Segment}
    (codes : ∀ segment ∈ segments, ∃ c, segment = .code c) : spell segments = skeleton segments := by
  induction segments with
  | nil => rfl
  | cons segment rest ih =>
      obtain ⟨c, rfl⟩ := codes segment List.mem_cons_self
      rw [spell_cons, ih fun other member => codes other (List.mem_cons_of_mem _ member)]
      rfl

theorem blocksAliases_spell {segments : List Segment} (lexed : Lexed segments)
    (codes : ∀ segment ∈ segments, ∃ c, segment = .code c) :
    CloseBrace.blocksAliases (spell segments) =
      segments.any (isCode (['{', '}', '[', '#'].contains ·)) := by
  induction segments with
  | nil => rfl
  | cons segment rest ih =>
      obtain ⟨c, rfl⟩ := codes segment List.mem_cons_self
      have noComment := lexed.1.form?_code
      have inner := ih lexed.2 fun other member => codes other (List.mem_cons_of_mem _ member)
      rw [spell_cons, Segment.text, List.singleton_append, CloseBrace.blocksAliases, noComment,
        lexed.1.1, inner, List.any_cons, isCode]
      rfl

theorem exists_code_of_isCode {inClass : Char → Bool} {segment : Segment}
    (isPlain : isCode inClass segment) : ∃ c, segment = .code c := by
  cases segment with
  | code c => exact ⟨c, rfl⟩
  | literal _ _ => simp [isCode] at isPlain
  | comment _ _ => simp [isCode] at isPlain

theorem isCode_of_mem_gap {inClass : Char → Bool} {gap : Text} (inside : ∀ c ∈ gap, inClass c) :
    ∀ segment ∈ gap.map code, isCode inClass segment := by
  intro segment member
  obtain ⟨c, inGap, rfl⟩ := List.mem_map.1 member
  exact inside c inGap

theorem IsGap.ne_semicolon {gap : Text} (blank : IsGap gap) : ∀ c ∈ gap, c != ';' := by
  intro c member
  rcases blank c member with rfl | rfl | rfl <;> decide

namespace Relaid

variable {breaks strict : Prop} {before : Option Segment} {left right : List Segment}

/-- The same characters of code stand in both. -/
theorem any_isCode (relaid : Relaid breaks strict before left right) {inClass : Char → Bool}
    (outside : ∀ c, isBlank c → inClass c = false) :
    left.any (isCode inClass) = right.any (isCode inClass) := by
  have none {gap : Text} (blank : IsGap gap) : (gap.map code).any (isCode inClass) = false := by
    rw [List.any_eq_false]
    intro segment member
    obtain ⟨c, inGap, rfl⟩ := List.mem_map.1 member
    simp [isCode, outside c (List.all_eq_true.1 blank.all_isBlank c inGap)]
  induction relaid with
  | ended blank otherBlank _ => rw [none blank, none otherBlank]
  | next blank otherBlank _ _ _ ih =>
      rw [List.any_append, List.any_append, none blank, none otherBlank, List.any_cons,
        List.any_cons, ih]

/-- Up to a semicolon or a literal the segments are relaid, and so is what follows. -/
theorem upToSemicolon (relaid : Relaid breaks strict before left right) (known : before ≠ none) :
    (left.dropWhile (isCode (· != ';')) = [] ∧ right.dropWhile (isCode (· != ';')) = []) ∨
      ∃ stop tail other, left.dropWhile (isCode (· != ';')) = stop :: tail ∧
        right.dropWhile (isCode (· != ';')) = stop :: other ∧
        Relaid False True before (left.takeWhile (isCode (· != ';')))
          (right.takeWhile (isCode (· != ';'))) ∧
        Relaid breaks strict (some stop) tail other := by
  induction relaid with
  | @ended _ gap other blank otherBlank _ =>
      left
      have passed {gap : Text} (blank : IsGap gap) :
          (gap.map code).dropWhile (isCode (· != ';')) = [] := by
        have dropped := @List.dropWhile_append_of_pos _ _ _ []
          (isCode_of_mem_gap blank.ne_semicolon)
        simpa using dropped
      exact ⟨passed blank, passed otherBlank⟩
  | @next before gap other lexeme left right blank otherBlank agree isLexeme later ih =>
      have agreeToo : GapsAgree False before gap other :=
        fun lexeme same => ⟨(agree lexeme same).1, False.elim⟩
      have inGap := isCode_of_mem_gap blank.ne_semicolon
      have inOther := isCode_of_mem_gap otherBlank.ne_semicolon
      rw [List.dropWhile_append_of_pos inGap, List.dropWhile_append_of_pos inOther,
        List.takeWhile_append_of_pos inGap, List.takeWhile_append_of_pos inOther]
      by_cases goesOn : isCode (· != ';') lexeme
      · rw [List.dropWhile_cons_of_pos goesOn, List.dropWhile_cons_of_pos goesOn,
          List.takeWhile_cons_of_pos goesOn, List.takeWhile_cons_of_pos goesOn]
        rcases ih (by simp) with none | ⟨stop, tail, others, found, otherFound, same, following⟩
        · exact .inl none
        · right
          exact ⟨stop, tail, others, found, otherFound,
            .next blank otherBlank agreeToo isLexeme same, following⟩
      · rw [List.dropWhile_cons_of_neg goesOn, List.dropWhile_cons_of_neg goesOn,
          List.takeWhile_cons_of_neg goesOn, List.takeWhile_cons_of_neg goesOn]
        right
        refine ⟨lexeme, left, right, rfl, rfl, ?_, later⟩
        rw [List.append_nil, List.append_nil]
        refine .ended blank otherBlank fun _ => ?_
        obtain ⟨previous, same⟩ := Option.ne_none_iff_exists'.1 known
        exact (agree previous same).1

end Relaid

/-- A closing brace stands alone if its line ends after it. -/
theorem cutBrace_of_break {gap : Text} (blank : IsGap gap) (isBreak : '\n' ∈ gap)
    (segments : List Segment) :
    cutBrace (gap.map .code ++ segments) = ⟨['}'], [], gap.map .code ++ segments⟩ := by
  have inLine : ∃ more, (gap.map code ++ segments).dropWhile (isCode isIndent) = .code '\n' :: more := by
    induction gap with
    | nil => simp at isBreak
    | cons c gap ih =>
        by_cases first : c = '\n'
        · exact ⟨gap.map code ++ segments, by simp [first, isCode, isIndent]⟩
        · have indents : isIndent c = true := by
            rcases blank c List.mem_cons_self with rfl | rfl | rfl
            · rfl
            · rfl
            · exact absurd rfl first
          obtain ⟨more, same⟩ := ih blank.tail (by simpa [Ne.symm first] using isBreak)
          exact ⟨more, by simpa [isCode, indents] using same⟩
  obtain ⟨more, same⟩ := inLine
  simp only [cutBrace, same]
  rw [List.takeWhile_cons_of_pos (by simp [isCode])]
  unfold fuse
  split
  · simp
  · rfl

/-- Without a line break the gap is skipped. -/
theorem cutBrace_of_no_break {gap : Text} (blank : IsGap gap) (noBreak : '\n' ∉ gap)
    {lexeme : Segment} (isLexeme : lexeme.IsLexeme) (segments : List Segment) :
    cutBrace (gap.map .code ++ lexeme :: segments) =
      fuse (gap.map .code ++ lexeme :: segments) (gap.map .code)
        ((lexeme :: segments).takeWhile (isCode (· != ';')))
        ((lexeme :: segments).dropWhile (isCode (· != ';'))) := by
  have indents : ∀ c ∈ gap, isIndent c := by
    intro c member
    rcases blank c member with rfl | rfl | rfl
    · rfl
    · rfl
    · exact absurd member noBreak
  have stops : isCode isIndent lexeme = false := by
    cases lexeme with
    | code c =>
        rw [isCode]
        by_contra indents
        have blank := isBlank_of_isIndent (by simpa using indents)
        simp [isLexeme.1] at blank
    | literal text repair => rfl
    | comment form text => rfl
  have inGap := isCode_of_mem_gap indents
  rw [cutBrace, List.takeWhile_append_of_pos inGap, List.dropWhile_append_of_pos inGap,
    List.takeWhile_cons_of_neg (by simp [stops]), List.dropWhile_cons_of_neg (by simp [stops]),
    List.append_nil]

/-- Nothing is fused to a closing brace if there is no semicolon. -/
theorem cutBrace_of_no_semicolon {segments : List Segment}
    (codes : ∀ segment ∈ segments, isCode (· != ';') segment) :
    cutBrace segments = ⟨['}'], [], segments⟩ := by
  have dropped : (segments.dropWhile (isCode isIndent)).dropWhile (isCode (· != ';')) = [] := by
    rw [List.dropWhile_eq_nil_iff]
    intro segment member
    exact codes segment ((List.dropWhile_sublist _).subset member)
  rw [cutBrace, dropped]
  rfl

/-- Whether aliases are fused depends on their characters of code only. -/
theorem fuse_code {segments gap : List Segment} {c d : Char} {others rest : List Segment}
    (isLexeme : (code c).IsLexeme) (lexed : Lexed (.code c :: others))
    (codes : ∀ segment ∈ others, isCode (· != ';') segment) :
    fuse segments gap (.code c :: others) (.code d :: rest) =
      if (code c :: others).any (isCode (['{', '}', '[', '#'].contains ·)) then ⟨['}'], [], segments⟩
      else ⟨'}' :: ' ' :: (skeleton (.code c :: others)).collapse.trim ++ [';'],
        gap ++ Segment.code c :: others ++ [Segment.code ';'], rest⟩ := by
  have allCodes : ∀ segment ∈ code c :: others, ∃ d, segment = .code d := by
    intro segment member
    rcases List.mem_cons.1 member with rfl | later
    · exact ⟨c, rfl⟩
    · exact exists_code_of_isCode (codes segment later)
  have notBreak : c ≠ '\n' := by
    rintro rfl
    exact absurd isLexeme.1 (by decide)
  have filled : Text.isBlank (skeleton (.code c :: others)) = false := by
    simp [Text.isBlank, skeleton, isLexeme.1]
  rw [fuse, if_neg (by simp), blocksAliases_spell lexed allCodes, spell_eq_skeleton allCodes, filled]
  simp [notBreak]

namespace Relaid

variable {strict : Prop} {left right : List Segment}

/-- Closing braces of relaid segments have the same token, and what follows them is relaid. -/
theorem brace (relaid : Relaid True strict (some (.code '}')) left right) (lexed : Lexed left)
    (otherLexed : Lexed right) :
    (cutBrace left).token = (cutBrace right).token ∧
      Relaid True strict none (cutBrace left).rest (cutBrace right).rest := by
  have whole := relaid.forgetBefore
  cases relaid with
  | ended blank otherBlank _ =>
      rw [cutBrace_of_no_semicolon (isCode_of_mem_gap blank.ne_semicolon),
        cutBrace_of_no_semicolon (isCode_of_mem_gap otherBlank.ne_semicolon)]
      exact ⟨rfl, whole⟩
  | @next _ gap other lexeme left right blank otherBlank agree isLexeme later =>
      have breaks := (agree _ rfl).2 trivial rfl
      by_cases isBreak : '\n' ∈ gap
      · rw [cutBrace_of_break blank isBreak, cutBrace_of_break otherBlank (breaks.1 isBreak)]
        exact ⟨rfl, whole⟩
      · have noBreak : '\n' ∉ other := fun member => isBreak (breaks.2 member)
        rw [cutBrace_of_no_break blank isBreak isLexeme,
          cutBrace_of_no_break otherBlank noBreak isLexeme]
        by_cases goesOn : isCode (· != ';') lexeme
        · obtain ⟨c, rfl⟩ := exists_code_of_isCode goesOn
          rw [List.dropWhile_cons_of_pos goesOn, List.dropWhile_cons_of_pos goesOn,
            List.takeWhile_cons_of_pos goesOn, List.takeWhile_cons_of_pos goesOn]
          rcases later.upToSemicolon (by simp) with
            ⟨none, otherNone⟩ | ⟨stop, tail, others, found, otherFound, same, following⟩
          · rw [none, otherNone]
            exact ⟨rfl, whole⟩
          · rw [found, otherFound]
            have aliases : Relaid False True none
                (.code c :: left.takeWhile (isCode (· != ';')))
                (.code c :: right.takeWhile (isCode (· != ';'))) := .lexeme isLexeme same
            have lexedAliases {gap : Text} {segments : List Segment}
                (lexed : Lexed (gap.map code ++ code c :: segments)) :
                Lexed (code c :: segments.takeWhile (isCode (· != ';'))) := by
              have parts := List.takeWhile_append_dropWhile (p := isCode (· != ';')) (l := segments)
              rw [← parts, ← List.cons_append] at lexed
              exact lexed.right.left
            have codes (segments : List Segment) :
                ∀ segment ∈ segments.takeWhile (isCode (· != ';')), isCode (· != ';') segment :=
              List.all_eq_true.1 List.all_takeWhile
            cases stop with
            | code d =>
                rw [fuse_code isLexeme (lexedAliases lexed) (codes left),
                  fuse_code isLexeme (lexedAliases otherLexed) (codes right),
                  aliases.any_isCode (by
                    intro c blank
                    by_contra member
                    simp only [Bool.not_eq_false, List.contains_iff_mem, List.mem_cons,
                      List.not_mem_nil, or_false] at member
                    revert blank
                    rcases member with rfl | rfl | rfl | rfl <;> decide), aliases.trim_collapse]
                split
                · exact ⟨rfl, whole⟩
                · exact ⟨rfl, following.forgetBefore⟩
            | literal text repair => exact ⟨rfl, whole⟩
            | comment form text => exact ⟨rfl, whole⟩
        · rw [List.dropWhile_cons_of_neg goesOn, List.dropWhile_cons_of_neg goesOn,
            List.takeWhile_cons_of_neg goesOn, List.takeWhile_cons_of_neg goesOn]
          cases lexeme with
          | code c => exact ⟨rfl, later.forgetBefore⟩
          | literal text repair => exact ⟨rfl, whole⟩
          | comment form text => exact ⟨rfl, whole⟩

end Relaid

end Segment

end IdlFormat
