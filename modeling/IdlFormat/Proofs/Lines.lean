import IdlFormat.Layout.Basic
import IdlFormat.Proofs.Stretch
import IdlFormat.Proofs.TopLevel
import IdlFormat.Proofs.Weaving
import IdlFormat.Token.EnumMember
import Mathlib.Data.List.Induction

/-!
# What the lines of a token say

Each token is printed on lines of its own. This file finds what these lines say: the lines of an
attribute block say what the block says, the members of an enumeration what the unit says that they
are cut out of, and a closing brace what its aliases say. Inside brackets and units all comments
stand in block form, so that a line can go on behind them.
-/

namespace IdlFormat

namespace Reading

open Segment

theorem read_blanks_append {blanks : Text} (blank : blanks.all isBlank) (text : Text) :
    read (.code false) (blanks ++ text) = read (.code false) text := by
  induction blanks with
  | nil => rfl
  | cons c blanks ih =>
      simp only [List.all_cons, Bool.and_eq_true] at blank
      rw [List.cons_append, read_fresh_blank rfl blank.1, ih blank.2]

theorem read_eq_some_iff {text said : Text} :
    read (.code false) text = some said ↔
      (split text).all isComplete ∧ substances (split text) = said := by
  have whole := read_spell (lexed_split text)
  rw [spell_split] at whole
  rw [whole]
  split
  · next complete => simp [complete]
  · next unfinished => simp [unfinished]

end Reading

namespace Segment

theorem isComplete_of_isInline {segment : Segment} (inline : segment.isInline) :
    segment.isComplete := by
  match segment with
  | .code _ => rfl
  | .literal _ _ => exact inline
  | .comment .line _ => rfl
  | .comment .block _ => exact inline

/-- A segment behind which its line can go on fits what opens no comment. -/
theorem Fits.before {segment : Segment} {next : Option Char} (fits : segment.Fits next)
    (inline : segment.isInline) {c : Char} (notSlash : c ≠ '/') (notStar : c ≠ '*') :
    segment.Fits (some c) := by
  match segment, fits with
  | .code d, ⟨unquoted, _⟩ => exact ⟨unquoted, by simp [Comment.opens, notSlash, notStar]⟩
  | .literal _ _, ⟨quote, body, same, quoted, whole, _⟩ =>
      exact ⟨quote, body, same, quoted, whole, .inl (List.isEmpty_iff.1 inline)⟩
  | .comment .line _, _ => exact absurd inline Bool.false_ne_true
  | .comment .block _, ⟨body, rfl, whole, _⟩ => exact ⟨body, rfl, whole, .inl inline⟩

namespace Inline

variable {text said : Text} {segments : List Segment}

theorem read (inline : Inline text said segments) : Reading.read (.code false) text = some said := by
  have complete : segments.all isComplete := by
    rw [List.all_eq_true]
    exact fun segment member =>
      isComplete_of_isInline (List.all_eq_true.1 inline.inline segment member)
  rw [← inline.spelled, read_spell inline.lexed, if_pos complete, inline.substance]

theorem nil : Inline [] [] [] where
  spelled := rfl
  lexed := trivial
  inline := rfl
  substance := rfl

theorem cons {c : Char} (unquoted : isQuote c = false) (notSlash : c ≠ '/')
    (inline : Inline text said segments) :
    Inline (c :: text) ((Segment.code c).substance ++ said) (.code c :: segments) where
  spelled := by rw [spell_cons, inline.spelled]; rfl
  lexed := ⟨⟨unquoted, by simp [Comment.opens, notSlash]⟩, inline.lexed⟩
  inline := by rw [List.all_cons, inline.inline]; rfl
  substance := by rw [substances_cons, inline.substance]

theorem concat {c : Char} (unquoted : isQuote c = false) (notSlash : c ≠ '/') (notStar : c ≠ '*')
    (inline : Inline text said segments) :
    Inline (text ++ [c]) (said ++ (Segment.code c).substance) (segments ++ [Segment.code c]) where
  spelled := by rw [spell_append, inline.spelled]; rfl
  lexed := by
    have last : Lexed [.code c] := ⟨⟨unquoted, by simp [Comment.opens, notSlash]⟩, trivial⟩
    apply inline.lexed.append last
    intro segment member
    obtain ⟨next, fits⟩ := inline.lexed.exists_fits segment member
    exact fits.before (List.all_eq_true.1 inline.inline segment member) notSlash notStar
  inline := by rw [List.all_append, inline.inline]; rfl
  substance := by rw [substances_append, inline.substance]; simp

end Inline

theorem getLast?_of_closes {body : Text} (whole : Comment.IsBody body)
    (closed : Comment.closes body) : body.getLast? = some '/' := by
  unfold Comment.IsBody at whole
  fun_induction Comment.throughClose body with
  | case1 => simp [Comment.closes] at closed
  | case2 rest => simp_all
  | case3 c rest noClose taken after cut ih =>
      simp only [Prod.mk.injEq, List.cons.injEq, true_and] at whole
      obtain ⟨rfl, rfl⟩ := whole
      rw [Comment.closes] at closed
      · have last := ih cut closed
        rw [List.getLast?_cons, last]
        rfl
      · exact noClose

/-- A literal ends in its quote and a block comment in a slash. -/
theorem Fits.getLast?_hidden {segment : Segment} {next : Option Char} (fits : segment.Fits next)
    (inline : segment.isInline) (hidden : ∀ c, segment ≠ .code c) :
    ∃ init c, segment.text = init ++ [c] ∧ (isQuote c ∨ c = '/') := by
  match segment, fits with
  | .code c, _ => exact absurd rfl (hidden c)
  | .literal _ repair, ⟨quote, body, rfl, quoted, whole, _⟩ =>
      obtain rfl : repair = [] := List.isEmpty_iff.1 inline
      obtain ⟨init, rfl⟩ := Literal.exists_body_eq quoted whole
      exact ⟨quote :: init, quote, rfl, .inl quoted⟩
  | .comment .line _, _ => exact absurd inline Bool.false_ne_true
  | .comment .block _, ⟨body, rfl, whole, _⟩ =>
      obtain ⟨init, rfl⟩ := List.getLast?_eq_some_iff.1 (getLast?_of_closes whole inline)
      exact ⟨'/' :: '*' :: init, '/', rfl, .inr rfl⟩

theorem Fits.exists_end {segment : Segment} {next : Option Char} (fits : segment.Fits next)
    (inline : segment.isInline) (hidden : ∀ c, segment ≠ .code c) :
    ∃ init c, segment.text = init ++ [c] ∧ isBlank c = false := by
  obtain ⟨init, c, same, quoted | rfl⟩ := fits.getLast?_hidden inline hidden
  · exact ⟨init, c, same, isBlank_quote quoted⟩
  · exact ⟨init, '/', same, by decide⟩

theorem trimEnd_concat (text : Text) (c : Char) :
    Text.trimEnd (text ++ [c]) = if isBlank c then text.trimEnd else text ++ [c] := by
  split
  · next blank =>
      induction text with
      | nil => simp [blank, Text.trimEnd, Text.dropEndWhile]
      | cons d text ih => rw [List.cons_append, Text.trimEnd_cons, ih, Text.trimEnd_cons]
  · next filled =>
      have kept : Text.trimEnd [c] = [c] := by
        rw [Text.trimEnd_cons, if_neg (by simp [filled])]
        rfl
      rw [Text.trimEnd_append (by simp [kept]), kept]

theorem substances_dropWhile (segments : List Segment) :
    substances (segments.dropWhile (isCode isBlank)) = substances segments := by
  have parts := List.takeWhile_append_dropWhile (p := isCode isBlank) (l := segments)
  have blanks : substances (segments.takeWhile (isCode isBlank)) = [] := by
    rw [substances, List.flatMap_eq_nil_iff]
    intro segment member
    have isGap := List.all_eq_true.1 List.all_takeWhile segment member
    match segment, isGap with
    | .code c, isGap => simp [substance, show isBlank c = true from isGap]
  have whole := congrArg substances parts
  rwa [substances_append, blanks, List.nil_append] at whole

namespace Inline

variable {text said : Text} {segments : List Segment}

theorem trimStart (inline : Inline text said segments) :
    ∃ part, part <:+ segments ∧ Inline text.trimStart said part := by
  refine ⟨segments.dropWhile (isCode isBlank), List.dropWhile_suffix _, ?_, ?_, ?_, ?_⟩
  · have outside : ∀ c, isQuote c ∨ c = '/' → isBlank c = false := by
      rintro c (quoted | rfl)
      · exact isBlank_quote quoted
      · decide
    rw [← (spell_takeWhile_dropWhile outside inline.lexed).2, inline.spelled]
    rfl
  · exact inline.lexed.of_infix (List.dropWhile_suffix _).isInfix
  · rw [List.all_eq_true]
    intro segment member
    exact List.all_eq_true.1 inline.inline segment ((List.dropWhile_sublist _).subset member)
  · rw [substances_dropWhile, inline.substance]

theorem trimEnd (inline : Inline text said segments) :
    ∃ part, part <+: segments ∧ Inline text.trimEnd said part := by
  induction segments using List.reverseRecOn generalizing text with
  | nil =>
      obtain rfl : [] = text := inline.spelled
      exact ⟨[], List.prefix_refl _, inline⟩
  | append_singleton init last ih =>
      obtain ⟨next, fits⟩ := inline.lexed.exists_fits last (by simp)
      have closed := inline.inline
      rw [List.all_append, Bool.and_eq_true, List.all_cons, List.all_nil, Bool.and_true] at closed
      have spelled := inline.spelled
      rw [spell_append, spell_cons, spell_nil, List.append_nil] at spelled
      by_cases isGap : isCode isBlank last
      · match last, isGap with
        | .code c, isGap =>
            have blank : isBlank c = true := isGap
            have same := inline.substance
            simp only [substances_append, substances_cons, substances_nil, Segment.substance, blank,
              Bool.true_or, if_true, List.append_nil] at same
            obtain ⟨part, before, trimmed⟩ := @ih (spell init) ⟨rfl, inline.lexed.left, closed.1, same⟩
            refine ⟨part, before.trans (List.prefix_append _ _), ?_⟩
            rw [← spelled, Segment.text, trimEnd_concat, if_pos blank]
            exact trimmed
      · have ends : ∃ before c, last.text = before ++ [c] ∧ isBlank c = false := by
          cases last with
          | code c => exact ⟨[], c, rfl, by simpa [isCode] using isGap⟩
          | literal _ _ => exact fits.exists_end closed.2 (by simp)
          | comment _ _ => exact fits.exists_end closed.2 (by simp)
        obtain ⟨before, c, same, filled⟩ := ends
        refine ⟨_, List.prefix_refl _, ?_⟩
        rw [← spelled, same, ← List.append_assoc, trimEnd_concat, if_neg (by simp [filled]),
          List.append_assoc, ← same, spelled]
        exact inline

/-- Blanks at the ends of a line are code, and can be trimmed. -/
theorem trim (inline : Inline text said segments) :
    ∃ part, part <:+: segments ∧ Inline text.trim said part := by
  obtain ⟨middle, after, started⟩ := inline.trimStart
  obtain ⟨part, before, ended⟩ := started.trimEnd
  exact ⟨part, before.isInfix.trans after.isInfix, ended⟩

theorem eq_nil (inline : Inline [] said segments) : said = [] := by
  have none := inline.read
  simpa [Reading.read, Reading.Mode.finish, Reading.held] using none.symm

/-- A comma or a semicolon at the end of a line is code, and can be dropped. -/
theorem dropTerminator (inline : Inline text said segments) :
    ∃ part, Inline (EnumMember.dropTerminator text) said part := by
  unfold EnumMember.dropTerminator
  split
  · next c last =>
      split
      · next found =>
          have separates : c = ',' ∨ c = ';' := by simpa using found
          rcases List.eq_nil_or_concat segments with rfl | ⟨init, segment, rfl⟩
          · obtain rfl : [] = text := inline.spelled
            simp at last
          · rw [List.concat_eq_append] at inline
            obtain ⟨next, fits⟩ := inline.lexed.exists_fits segment (by simp)
            have closed := inline.inline
            rw [List.all_append, Bool.and_eq_true, List.all_cons, List.all_nil, Bool.and_true] at closed
            have spelled := inline.spelled
            rw [spell_append, spell_cons, spell_nil, List.append_nil] at spelled
            have isCode : segment = .code c := by
              have hidden (notCode : ∀ d, segment ≠ .code d) : False := by
                obtain ⟨before, d, same, ends⟩ := fits.getLast?_hidden closed.2 notCode
                rw [← spelled, same, ← List.append_assoc, List.getLast?_concat] at last
                obtain rfl : d = c := by simpa using last
                rcases separates with rfl | rfl <;> simp [isQuote] at ends
              cases segment with
              | code d =>
                  rw [← spelled, Segment.text, List.getLast?_concat] at last
                  rw [Option.some.inj last]
              | literal _ _ => exact (hidden (by simp)).elim
              | comment _ _ => exact (hidden (by simp)).elim
            subst isCode
            have same := inline.substance
            have nothing : (Segment.code c).substance = [] := by
              rcases separates with rfl | rfl <;> rfl
            rw [substances_append, substances_cons, nothing, substances_nil, List.append_nil,
              List.append_nil] at same
            have shorter : Inline text.dropLast said init :=
              ⟨by rw [← spelled]; simp [Segment.text], inline.lexed.left, closed.1, same⟩
            obtain ⟨part, -, trimmed⟩ := shorter.trimEnd
            exact ⟨part, trimmed⟩
      · exact ⟨segments, inline⟩
  · exact ⟨segments, inline⟩

end Inline

end Segment

/-- Things of a list say something one after the other. -/
inductive Together {α : Type} (tells : α → Text → Prop) : List α → Text → Prop
  /-- Nothing says nothing. -/
  | nil : Together tells [] []
  /-- The first thing speaks before the others. -/
  | cons {first : α} {others : List α} {said more : Text} :
      tells first said → Together tells others more → Together tells (first :: others) (said ++ more)

namespace Together

variable {α : Type} {tells : α → Text → Prop}

theorem single {first : α} {said : Text} (own : tells first said) : Together tells [first] said := by
  have alone := cons own nil
  rwa [List.append_nil] at alone

theorem append {left right : List α} {said more : Text} (first : Together tells left said)
    (second : Together tells right more) : Together tells (left ++ right) (said ++ more) := by
  induction first with
  | nil => exact second
  | cons own _ ih =>
      rw [List.append_assoc]
      exact cons own ih

theorem map {β : Type} {others : β → Text → Prop} {change : α → β}
    (imp : ∀ thing said, tells thing said → others (change thing) said) {things : List α}
    {said : Text} (together : Together tells things said) :
    Together others (things.map change) said := by
  induction together with
  | nil => exact nil
  | cons own _ ih => exact cons (imp _ _ own) ih

end Together

open Segment

/-- A text that says something and behind which its line can go on. -/
def TellsInline (text said : Text) : Prop :=
  ∃ segments, Inline text said segments

theorem TellsInline.unlessEmpty {text said : Text} (tells : TellsInline text said) :
    Together TellsInline (if text.isEmpty then [] else [text]) said := by
  split
  · next empty =>
      rw [List.isEmpty_iff.1 empty] at tells
      obtain ⟨segments, nothing⟩ := tells
      rw [nothing.eq_nil]
      exact .nil
  · exact .single tells

/-- The pieces of segments say together what the segments say. -/
theorem Segment.flatMap_substances_splitFrom (tracked : List Bracket) (before : Bracket.Balance)
    (segments : List Segment) :
    (splitFrom tracked before segments).flatMap substances = substances segments := by
  have put (segment : Segment) (pieces : List (List Segment)) :
      (consFirst segment pieces).flatMap substances = segment.substance ++ pieces.flatMap substances := by
    cases pieces <;> simp [consFirst]
  fun_induction splitFrom tracked before segments with
  | case1 => rfl
  | case2 before segment rest cuts ih =>
      rw [cuts.1, List.flatMap_cons, ih]
      rfl
  | case3 before segment rest _ ih => rw [put, ih, substances_cons]

/-- Commas between pieces say nothing. -/
theorem Segment.substances_intercalate (pieces : List (List Segment)) :
    substances ([.code ','].intercalate pieces) = pieces.flatMap substances := by
  induction pieces with
  | nil => rfl
  | cons piece pieces ih =>
      cases pieces with
      | nil => simp
      | cons next pieces =>
          have nothing : substances [Segment.code ','] = [] := rfl
          simp only [List.intercalate_cons_cons, substances_append, ih, nothing, List.append_nil,
            List.flatMap_cons]

theorem Segment.infix_intercalate {separator piece : List Segment} {pieces : List (List Segment)}
    (member : piece ∈ pieces) : piece <:+: separator.intercalate pieces := by
  induction pieces with
  | nil => cases member
  | cons first others ih =>
      rcases List.mem_cons.1 member with rfl | later
      · cases others with
        | nil => simp
        | cons next others =>
            rw [List.intercalate_cons_cons, List.append_assoc]
            exact (List.prefix_append _ _).isInfix
      · rw [List.intercalate_cons_of_ne_nil (List.ne_nil_of_mem later)]
        exact (ih later).trans (List.suffix_append _ _).isInfix

/-- The members of an enumeration say what the pieces say that they are made of. -/
theorem EnumMember.ofPieces_tells (keepSemicolon : Bool) {pieces : List (List Segment)}
    (lexed : ∀ piece ∈ pieces, Lexed piece) (inline : ∀ piece ∈ pieces, piece.all isInline) :
    Together TellsInline (ofPieces keepSemicolon (pieces.map spell)) (pieces.flatMap substances) := by
  induction pieces with
  | nil => exact .nil
  | cons piece pieces ih =>
      have others := ih (fun other member => lexed other (List.mem_cons_of_mem _ member))
        (fun other member => inline other (List.mem_cons_of_mem _ member))
      have own : Inline (spell piece) (substances piece) piece :=
        ⟨rfl, lexed piece List.mem_cons_self, inline piece List.mem_cons_self, rfl⟩
      obtain ⟨part, -, trimmed⟩ := own.trim
      rw [List.flatMap_cons]
      cases pieces with
      | nil =>
          have kept : TellsInline
              (if keepSemicolon && (spell piece).trim.getLast? = some ';' then (spell piece).trim
                else dropTerminator (spell piece).trim) (substances piece) := by
            split
            · exact ⟨part, trimmed⟩
            · exact trimmed.dropTerminator
          simp only [List.map_cons, List.map_nil, ofPieces, List.flatMap_nil, List.append_nil]
          exact kept.unlessEmpty
      | cons next pieces =>
          rw [List.map_cons, List.map_cons, ofPieces]
          · split
            · next empty =>
                rw [List.isEmpty_iff.1 empty] at trimmed
                rw [trimmed.eq_nil]
                exact others
            · have comma := trimmed.concat (c := ',') (by decide) (by decide) (by decide)
              have nothing : (Segment.code ',').substance = [] := rfl
              rw [nothing, List.append_nil] at comma
              exact .cons ⟨_, comma⟩ others
          · simp

theorem EnumMember.split_tells (keepSemicolon : Bool) {text said : Text} {segments : List Segment}
    (inline : Inline text said segments) (uncut : UncutFrom [.round, .angle] {} segments) :
    Together TellsInline (split keepSemicolon text) said := by
  obtain ⟨pieces, cut, joined⟩ := uncut.exists_pieces
  have found : Bracket.splitTopLevel (· = ',') [.round, .angle] text = pieces.map spell := by
    rw [← inline.spelled]
    exact cut
  have inside {piece : List Segment} (member : piece ∈ pieces) : piece <:+: segments := by
    rw [← joined]
    exact infix_intercalate member
  rw [split, found, ← inline.substance, ← joined, substances_intercalate]
  apply ofPieces_tells
  · exact fun piece member => inline.lexed.of_infix (inside member)
  · intro piece member
    rw [List.all_eq_true]
    intro segment within
    exact List.all_eq_true.1 inline.inline segment ((inside member).subset within)

namespace Attribute

open Reading

theorem substance_opening : (Segment.code '[').substance = ['['] := by decide

theorem substance_closing : (Segment.code ']').substance = [']'] := by decide

theorem mapM_format_tells {pieces : List (List Segment)} (lexed : ∀ piece ∈ pieces, Lexed piece)
    (complete : ∀ piece ∈ pieces, piece.all isComplete)
    (noMark : ∀ piece ∈ pieces, Mask.mark ∉ spell piece) {attributes : List Text}
    (formatted : (((pieces.map spell).map Text.trim).filter (!·.isEmpty)).mapM format =
      .ok attributes) :
    Together TellsInline attributes (pieces.flatMap substances) := by
  induction pieces generalizing attributes with
  | nil =>
      obtain rfl : [] = attributes := Except.ok.inj formatted
      exact .nil
  | cons piece pieces ih =>
      have others {attributes : List Text} := @ih
        (fun other member => lexed other (List.mem_cons_of_mem _ member))
        (fun other member => complete other (List.mem_cons_of_mem _ member))
        (fun other member => noMark other (List.mem_cons_of_mem _ member)) attributes
      -- Trimming may reach into a line comment, so what is left is read anew.
      have said : read (.code false) (spell piece).trim = some (substances piece) := by
        rw [read_trim, read_spell (lexed piece List.mem_cons_self),
          if_pos (complete piece List.mem_cons_self)]
      rw [List.flatMap_cons]
      rw [List.map_cons, List.map_cons, List.filter_cons] at formatted
      split at formatted
      · rw [List.mapM_cons] at formatted
        cases own : format (spell piece).trim with
        | error _ => rw [own] at formatted; simp [Bind.bind, Except.bind] at formatted
        | ok first =>
            rw [own] at formatted
            cases rest : (((pieces.map spell).map Text.trim).filter (!·.isEmpty)).mapM format with
            | error _ => rw [rest] at formatted; simp [Bind.bind, Except.bind] at formatted
            | ok more =>
                rw [rest] at formatted
                obtain rfl : first :: more = attributes := Except.ok.inj formatted
                obtain ⟨closed, same⟩ := read_eq_some_iff.1 said
                have trimmed : Mask.mark ∉ (spell piece).trim := fun member =>
                  noMark piece List.mem_cons_self ((Text.trim_sublist _).subset member)
                have inline := exists_inline_format closed trimmed own
                rw [same] at inline
                exact .cons inline (others rest)
      · next empty =>
          have none : (spell piece).trim = [] := by simpa using empty
          rw [none] at said
          have nothing : substances piece = [] := by
            simpa [Reading.read, Mode.finish, held] using said.symm
          rw [nothing]
          exact others formatted

theorem readLines_cons {line : Text} {lines : List Text} {said more : Text}
    (own : read (.code false) line = some said) (others : readLines lines = some more) :
    readLines (line :: lines) = some (said ++ more) := by
  simp [readLines, own, others]

theorem readLines_single {line said : Text} (own : read (.code false) line = some said) :
    readLines [line] = some said := by
  simp [readLines, own]

theorem readLines_separated {indent : Text} (blank : indent.all isBlank) {attributes : List Text}
    {said : Text} (tells : Together TellsInline attributes said) :
    readLines (separated indent attributes) = some said := by
  induction tells with
  | nil => rfl
  | @cons first others said more own later ih =>
      obtain ⟨segments, inline⟩ := own
      cases later with
      | nil =>
          rw [List.append_nil]
          apply readLines_single
          rw [read_blanks_append blank, inline.read]
      | @cons next others said more another later =>
          apply readLines_cons _ ih
          have comma := inline.concat (c := ',') (by decide) (by decide) (by decide)
          have nothing : (Segment.code ',').substance = [] := rfl
          rw [List.append_assoc, read_blanks_append blank, comma.read, nothing, List.append_nil]

/-- The lines of a block say what the attributes say, in brackets. -/
theorem readLines_arrange (style : Style) (level : Int) {attributes : List Text} {said : Text}
    (tells : Together TellsInline attributes said) :
    readLines (arrange style level attributes) = some ('[' :: said ++ [']']) := by
  have outer := style.all_isBlank_indent level
  have opening : readLines [style.indent level ++ ['[']] = some ['['] := by
    apply readLines_single
    rw [read_blanks_append outer]
    decide
  have closing : readLines [style.indent level ++ [']']] = some [']'] := by
    apply readLines_single
    rw [read_blanks_append outer]
    decide
  have inside := readLines_separated (style.all_isBlank_indent (level + 1)) tells
  have wrapped := readLines_append (readLines_append opening inside) closing
  simp only [arrange]
  split
  · cases tells
    apply readLines_single
    rw [read_blanks_append outer]
    decide
  · next single =>
      split
      · cases tells with
        | cons own later =>
            cases later
            obtain ⟨segments, inline⟩ := own
            have bracketed := (inline.concat (c := ']') (by decide) (by decide) (by decide)).cons
              (c := '[') (by decide) (by decide)
            apply readLines_single
            rw [List.append_assoc, List.append_assoc, read_blanks_append outer]
            simpa [substance_opening, substance_closing] using bracketed.read
      · exact wrapped
  · exact wrapped

/-- The lines of a closed block say what the block says. -/
theorem readLines_formatBlock {inner : List Segment}
    (lexed : Lexed (Segment.code '[' :: inner ++ [Segment.code ']']))
    (complete : inner.all isComplete)
    (quiet : AllQuiet (Segment.code '[' :: inner ++ [Segment.code ']']))
    (closed : openDepthFrom 0 (Segment.code '[' :: inner ++ [Segment.code ']']) = 0)
    (noMark : Mask.mark ∉ spell inner) {style : Style} {level : Int} {lines : List Text}
    (formatted :
      formatBlock style level (spell (Segment.code '[' :: inner ++ [Segment.code ']'])) = .ok lines) :
    readLines lines = some (substances (Segment.code '[' :: inner ++ [Segment.code ']'])) := by
  have inside : Lexed inner := lexed.of_infix ⟨[.code '['], [.code ']'], rfl⟩
  have quietInside : AllQuiet inner := fun form text member => quiet form text (by simp [member])
  have said : substances (Segment.code '[' :: inner ++ [Segment.code ']']) =
      '[' :: substances inner ++ [']'] := by
    simp [substance_opening, substance_closing]
  rw [formatBlock, split, content_spell_closed lexed quiet closed, Bracket.splitTopLevel,
    splitFrom_spell inside quietInside] at formatted
  cases found : (((splitFrom Bracket.all {} inner).map spell).map Text.trim).filter
      (!·.isEmpty) |>.mapM format with
  | error _ => rw [found] at formatted; simp [Bind.bind, Except.bind] at formatted
  | ok attributes =>
      rw [found] at formatted
      obtain rfl : arrange style level attributes = lines := Except.ok.inj formatted
      have tells := mapM_format_tells (fun _ => inside.of_mem_splitFrom) (by
          intro piece member
          rw [List.all_eq_true]
          intro segment within
          exact List.all_eq_true.1 complete segment
            ((infix_of_mem_splitFrom member).subset within)) (by
          intro piece member marked
          obtain ⟨before, after, same⟩ := infix_of_mem_splitFrom member
          apply noMark
          rw [← same, spell_append, spell_append]
          simp [marked]) found
      rw [flatMap_substances_splitFrom] at tells
      rw [said, readLines_arrange style level tells]

end Attribute

namespace Segment

theorem weave_nil (text : Text) : weave [] text = text.map .code := by
  induction text with
  | nil => rfl
  | cons c text ih =>
      rw [weave]
      split <;> simp [ih]

theorem substances_map_code_compact (text : Text) :
    substances (text.compact.map .code) = substances (text.map .code) := by
  have same := substances_weave_compact [] text
  rwa [weave_nil, weave_nil] at same

/-- Code without quotes and comments reads on its line. -/
theorem inline_map_code {text : Text} (calm : Mask.CalmFrom [] false text)
    (unquoted : ∀ c ∈ text, isQuote c = false) :
    Inline text (substances (text.map .code)) (text.map .code) where
  spelled := spell_map_code text
  lexed := by
    have lexed := lexed_weave (Settled.seated (by simp [Settled]) text) calm unquoted
    rwa [weave_nil] at lexed
  inline := by simp [isInline, isComplete]
  substance := rfl

end Segment

namespace CloseBrace

theorem calmFrom_of_not_blocksAliases {text : Text} (free : blocksAliases text = false) :
    Mask.CalmFrom [] false text := by
  induction text with
  | nil => trivial
  | cons c rest ih =>
      simp only [blocksAliases, Bool.or_eq_false_iff] at free
      have inner := ih free.2
      have noComment := free.1.1.1
      rw [Option.isSome_eq_false_iff, Option.isNone_iff_eq_none, Comment.form?_cons_eq_none_iff]
        at noComment
      refine ⟨by simp, ?_⟩
      rw [List.tail_nil, ite_self]
      cases rest with
      | nil => trivial
      | cons d rest =>
          refine ⟨?_, inner.2⟩
          intro isSlash
          obtain rfl : c = '/' := of_decide_eq_true isSlash
          simpa [Comment.opens, Mask.opensAfterSlash] using noComment

theorem isQuote_of_not_blocksAliases {text : Text} (free : blocksAliases text = false) :
    ∀ c ∈ text, isQuote c = false := by
  induction text with
  | nil => simp
  | cons c rest ih =>
      simp only [blocksAliases, Bool.or_eq_false_iff] at free
      intro d member
      rcases List.mem_cons.1 member with rfl | later
      · exact free.1.1.2
      · exact ih free.2 d later

end CloseBrace

namespace Layout

open Reading

/-- A list of aliases says the same when it is respaced. -/
theorem read_formatCloseBrace_aliases {aliases : Text}
    (free : CloseBrace.blocksAliases aliases = false) :
    read (.code false) (formatCloseBrace ('}' :: ' ' :: aliases.collapse.trim ++ [';'])) =
      some ('}' :: substances (aliases.map .code)) := by
  have unquoted := CloseBrace.isQuote_of_not_blocksAliases free
  have free := Mask.calmFrom_iff_passes.1 (CloseBrace.calmFrom_of_not_blocksAliases free)
  have listed := Monitor.passes_trim (Monitor.passes_collapse free)
  have semicolon (state : List Segment × Bool) : Mask.slashes.Passes state [';'] :=
    ⟨fun _ => Mask.opensAfterSlash_of_isSafe (by decide) state.1, trivial⟩
  have ended := listed.append semicolon
  have spaced := Monitor.passes_collapse (Monitor.passes_respaceCommas (Monitor.passes_trim ended))
  have calm := Monitor.passes_tighten (by simp : ';' ∈ [',', ';', '(']) spaced
  rw [Mask.rest_slashes, Mask.rest_slashes, ← Mask.calmFrom_iff_passes] at calm
  have shape : formatCloseBrace ('}' :: ' ' :: aliases.collapse.trim ++ [';']) =
      '}' :: ' ' :: Text.tighten ';'
        (Text.collapse (Text.respaceCommas (Text.trim (aliases.collapse.trim ++ [';'])))) := by
    simp [formatCloseBrace]
  have compacted : Text.compact (Text.tighten ';'
      (Text.collapse (Text.respaceCommas (Text.trim (aliases.collapse.trim ++ [';']))))) =
      aliases.compact ++ [';'] := by
    have last : Text.compact [';'] = [';'] := by decide
    simp [last]
  rw [shape]
  generalize Text.tighten ';'
    (Text.collapse (Text.respaceCommas (Text.trim (aliases.collapse.trim ++ [';'])))) = spaced at *
  have inline := inline_map_code calm (by
    intro c member
    by_cases blank : isBlank c
    · exact not_isQuote_of_isBlank blank
    · have inside : c ∈ spaced.compact := List.mem_filter.2 ⟨member, by simpa using blank⟩
      rw [compacted] at inside
      rcases List.mem_append.1 inside with inAliases | isLast
      · exact unquoted c (List.mem_of_mem_filter inAliases)
      · rw [List.mem_singleton.1 isLast]
        decide)
  have said : substances (spaced.map .code) = substances (aliases.map .code) := by
    rw [← substances_map_code_compact, compacted, List.map_append, substances_append,
      substances_map_code_compact]
    exact List.append_nil _
  have whole := (inline.cons (c := ' ') (by decide) (by decide)).cons (c := '}') (by decide) (by decide)
  have spoken : (Segment.code '}').substance = ['}'] := by decide
  rw [whole.read, said, spoken]
  rfl

end Layout

namespace Segment

open Reading

theorem substances_of_isIndent {gap : List Segment} (indents : ∀ segment ∈ gap, isCode isIndent segment) :
    substances gap = [] := by
  rw [substances, List.flatMap_eq_nil_iff]
  intro segment member
  match segment, indents segment member with
  | .code c, isGap => simp [substance, isBlank_of_isIndent (show isIndent c = true from isGap)]

theorem map_code_spell {inClass : Char → Bool} {segments : List Segment}
    (codes : ∀ segment ∈ segments, isCode inClass segment) :
    (spell segments).map .code = segments := by
  induction segments with
  | nil => rfl
  | cons segment rest ih =>
      have inner := ih fun other member => codes other (List.mem_cons_of_mem _ member)
      match segment, codes segment List.mem_cons_self with
      | .code c, _ => rw [spell_cons, Segment.text, List.singleton_append, List.map_cons, inner]

/-- A closing brace says what the segments say that it covers. -/
theorem read_cutBrace (segments : List Segment) :
    read (.code false) (Layout.formatCloseBrace (cutBrace segments).token) =
      some (substances (.code '}' :: (cutBrace segments).taken)) := by
  have spoken : (Segment.code '}').substance = ['}'] := by decide
  have alone : read (.code false) (Layout.formatCloseBrace ['}']) =
      some (substances [.code '}']) := by decide
  have gap := @substances_of_isIndent (segments.takeWhile (isCode isIndent))
    (List.all_eq_true.1 List.all_takeWhile)
  have codes : ∀ segment ∈ (segments.dropWhile (isCode isIndent)).takeWhile (isCode (· != ';')),
      isCode (· != ';') segment := List.all_eq_true.1 List.all_takeWhile
  simp only [cutBrace]
  generalize (segments.dropWhile (isCode isIndent)).takeWhile (isCode (· != ';')) = aliases at *
  unfold fuse
  split
  · split
    · have closed : read (.code false) (Layout.formatCloseBrace ['}', ';']) = some ['}'] := by decide
      rw [closed, substances_cons, substances_append, gap, spoken]
      rfl
    · split
      · exact alone
      · next free =>
          simp only [Bool.or_eq_true, not_or, Bool.not_eq_true] at free
          have said := Layout.read_formatCloseBrace_aliases free.2
          rw [map_code_spell codes] at said
          rw [said, substances_cons, substances_append, substances_append, gap, spoken]
          exact congrArg (fun said => some ('}' :: said)) (List.append_nil _).symm
  · exact alone

end Segment

end IdlFormat
