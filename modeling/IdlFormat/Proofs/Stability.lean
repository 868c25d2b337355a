import IdlFormat.Proofs.Content
import IdlFormat.Proofs.ReturningBlock
import IdlFormat.Proofs.ReturningComment
import IdlFormat.Proofs.ReturningMembers

/-!
# Formatting a formatted text

Formatting twice is the same as formatting once, for the texts in which all readers of a span agree.
Scanners of square brackets and of lists do not know comments, so those that they meet have to be
quiet and closed. What is laid out by its length or cut again once it is printed, a block or a list,
has comments that the clean-up leaves alone. Each span of such a text returns (`Span.returns_cut`),
whence the text is steady (`Span.steady_of_regularFrom`).
-/

namespace IdlFormat

theorem Comment.form?_eq_none_of_append {c : Char} {front more : Text}
    (noComment : form? (c :: (front ++ more)) = none) : form? (c :: front) = none := by
  rw [form?_cons_eq_none_iff] at noComment ⊢
  cases front with
  | nil => simp [opens]
  | cons d front => exact noComment

namespace CodeUnit

/-- A unit that is cut off a text starts like it. -/
theorem exists_cut_eq_cons {c : Char} {rest : Text} (noComment : Comment.form? (c :: rest) = none)
    (notOpen : c ≠ '{') (notClose : c ≠ '}') :
    ∃ front, (cut (c :: rest)).1 = c :: front ∧ Comment.form? (c :: front) = none := by
  have shorter := length_cut_lt noComment notOpen notClose
  have parts : (cut (c :: rest)).1 ++ (cut (c :: rest)).2 = c :: rest := cutFrom_append {} (c :: rest)
  cases unit : (cut (c :: rest)).1 with
  | nil =>
      rw [unit, List.nil_append] at parts
      rw [parts] at shorter
      exact absurd shorter (lt_irrefl _)
  | cons d front =>
      rw [unit, List.cons_append] at parts
      obtain ⟨rfl, behind⟩ := List.cons.inj parts
      rw [← behind] at noComment
      exact ⟨front, rfl, Comment.form?_eq_none_of_append noComment⟩

/-- A unit that is cut off a text ends in front of what follows. -/
theorem Legible.closes_cut {text : Text} (legible : Legible (cut text).1) :
    Closes (Segment.split (cut text).1) ((Span.split (cut text).2).head?.map Span.rule) := by
  refine Ends.closes (ends_cutFrom {} text (fun segment member => ?_) legible.quiet)
  obtain ⟨next, fits⟩ := (Segment.lexed_split _).exists_fits segment member
  exact fits.before_break (List.all_eq_true.1 legible.closed segment member)

end CodeUnit

namespace Span

open CodeUnit (Legible)
open EnumMember (Orderly)

/-- A span that all readers agree about, where `before` holds the tokens in front of it, last first,
and `closes` says whether a body ends behind it. A unit is one token, or the members that it is cut
into can be told apart again; in a body of an enum the clean-up leaves its comments alone. -/
def Regular (before : List Token) (closes : Bool) : Span → Prop
  | .codeUnit unit =>
      Legible unit ∧
        (Token.insideEnumFrom 0 before → (Segment.split unit).all Segment.isNeat) ∧
        (Token.ofCodeUnit (Token.insideEnumFrom 0 before) closes unit =
          Token.ofCodeUnit false closes unit ∨ Orderly (!closes) unit)
  | .attributeBlock block => Attribute.Legible block
  | _ => True

/-- Each span is regular behind the tokens `before`, given last first, and those of the spans in
front of it. -/
def RegularFrom (before : List Token) : List Span → Prop
  | [] => True
  | span :: spans =>
      span.Regular before (closesBody spans) ∧ ∀ row,
        Token.ofSpan before (closesBody spans) span = .ok row →
        RegularFrom (row.reverse ++ before) spans

instance (before : List Token) (closes : Bool) :
    (span : Span) → Decidable (span.Regular before closes)
  | .codeUnit unit =>
      inferInstanceAs (Decidable (Legible unit ∧
        (Token.insideEnumFrom 0 before → (Segment.split unit).all Segment.isNeat) ∧
        (Token.ofCodeUnit (Token.insideEnumFrom 0 before) closes unit =
          Token.ofCodeUnit false closes unit ∨ Orderly (!closes) unit)))
  | .attributeBlock block => inferInstanceAs (Decidable (Attribute.Legible block))
  | .comment _ _ | .directive _ | .braceOpen | .braceClose _ _ => .isTrue trivial

instance decidableRegularFrom (before : List Token) : (spans : List Span) →
    Decidable (RegularFrom before spans)
  | [] => .isTrue trivial
  | span :: spans =>
      have : Decidable (∀ row, Token.ofSpan before (closesBody spans) span = .ok row →
          RegularFrom (row.reverse ++ before) spans) :=
        match Token.ofSpan before (closesBody spans) span with
        | .ok row =>
            have := decidableRegularFrom (row.reverse ++ before) spans
            decidable_of_iff (RegularFrom (row.reverse ++ before) spans) (by simp)
        | .error _ => .isTrue (by simp)
      inferInstanceAs (Decidable (span.Regular before (closesBody spans) ∧ _))

/-- A regular span returns. -/
theorem returns_cut {style : Style} {before : List Token} {c : Char} {rest : Text}
    (solid : isBlank c = false)
    (regular : (cut c rest).1.Regular before (closesBody (split (cut c rest).2))) :
    Returns style before (closesBody (split (cut c rest).2)) (cut c rest).1 (cut c rest).2 := by
  -- one case for each rule, in the order in which they are tried
  rw [cut] at regular ⊢
  split
  · next form opens => exact Comment.returns opens
  · next noComment =>
      simp only [noComment] at regular
      by_cases hash : c = '#'
      · subst hash
        exact Directive.returns style before _ rest
      by_cases square : c = '['
      · subst square
        simp only [if_neg hash, if_pos] at regular ⊢
        have opens : (Bracket.cutBlock ('[' :: rest)).1.head? = some '[' := by
          simp [Bracket.cutBlock, Bracket.cutClosed]
        exact regular.returns opens (Bracket.cutBlock_cutBlock _) style before _ _
      by_cases opening : c = '{'
      · subst opening
        exact returns_braceOpen style before _ rest
      by_cases closing : c = '}'
      · subst closing
        exact CloseBrace.returns style before _ rest
      · simp only [hash, square, opening, closing, if_false] at regular ⊢
        obtain ⟨legible, neat, single⟩ := regular
        obtain ⟨front, unit, noCommentUnit⟩ := CodeUnit.exists_cut_eq_cons noComment opening closing
        have first : (CodeUnit.cut (c :: rest)).1.head?.any CodeUnit.starts := by
          simp [unit, CodeUnit.starts, solid, hash, square, opening, closing]
        rw [← unit] at noCommentUnit
        exact legible.returns style first noCommentUnit legible.closes_cut neat single

/-- A text whose spans are regular is steady. -/
theorem steady_of_regularFrom (style : Style) {before : List Token} {text : Text}
    (regular : RegularFrom before (split text)) : Steady style before text := by
  -- by induction on the length, as the spans behind the first one are those of a shorter text
  induction size : text.length using Nat.strong_induction_on generalizing before text with
  | h size ih =>
    cases start : text.dropWhile isBlank with
    | nil => exact .blank start
    | cons c rest =>
        have solid : isBlank c = false := by
          have first := List.head?_dropWhile_not isBlank text
          simpa [start] using first
        rw [split_of_start start] at regular
        refine .span start (returns_cut solid regular.1) fun row found => ?_
        refine ih _ ?_ (regular.2 row found) rfl
        have shorter := length_cut_lt c rest
        have dropped := (List.dropWhile_sublist isBlank (l := text)).length_le
        rw [start] at dropped
        omega

end Span

namespace Document

/-- A text whose spans are read alike by all of their readers. -/
def Regular (text : Text) : Prop :=
  Span.RegularFrom [] (Span.split text.normalizeBreaks)

instance : DecidablePred Regular := fun text =>
  inferInstanceAs (Decidable (Span.RegularFrom [] (Span.split text.normalizeBreaks)))

/-- Formatting a formatted text changes nothing. A regular text without placeholder marks and of
fewer than `10 ^ 4299` characters is formatted to a document that is formatted to itself. -/
theorem reformat_eq_of_regular {text : Text} (regular : Regular text) (style : Style) :
    (∀ document, format style text = .ok document → format style document = .ok document) ∧
      (Mask.mark ∉ text → 4 * text.length ≤ 10 ^ Numeral.digitLimit →
        ∃ document, format style text = .ok document ∧ format style document = .ok document) := by
  have steady := Span.steady_of_regularFrom style regular
  refine ⟨fun document => format_of_steady steady, ?_⟩
  intro noMark short
  obtain ⟨document, formatted, -⟩ := (format_settles noMark style).exists_ok short
  exact ⟨document, formatted, format_of_steady steady formatted⟩

/-- A block, a body with a method, a list with a comment and a semicolon, and a directive. -/
theorem reformat_interface :
    Regular "[uuid(1)]interface I:U\x7bvoid f();\x7d;enum E\x7bA=1,/* b */B;\x7d;\n#d".toList ∧
      ∃ document,
        format {} "[uuid(1)]interface I:U\x7bvoid f();\x7d;enum E\x7bA=1,/* b */B;\x7d;\n#d".toList =
          .ok document ∧
        format {} document = .ok document := by
  have regular :
      Regular "[uuid(1)]interface I:U\x7bvoid f();\x7d;enum E\x7bA=1,/* b */B;\x7d;\n#d".toList := by
    decide +kernel
  refine ⟨regular, (reformat_eq_of_regular regular {}).2 (by decide) ?_⟩
  exact Nat.le_trans (by decide : _ ≤ 10 ^ 3) (Nat.pow_le_pow_right (by decide) (by decide))

/-- Comments may stand in a block, over several lines of a unit, and in a member of a list. -/
example : Regular
    "[a/* b */]void f(long c/* d \n e */);enum E\x7bA=(1/* f, g */),B\x7d;".toList := by
  decide +kernel

end Document

end IdlFormat
