import IdlFormat.Proofs.EnclosedComment
import IdlFormat.Proofs.Substance

/-!
# Attribute blocks that return

A block is printed with its attributes spread out between its brackets, and the spread attributes
are found again. The clean-up takes a blank from the end of the last one, which its layout puts
there again. It must not take one out of a comment: a single attribute is laid out by its length, so
a shorter one could move to the line of its brackets.
-/

namespace IdlFormat

theorem isBlank_of_isGuidChar {c : Char} (guid : Attribute.isGuidChar c) : isBlank c = false := by
  rw [Bool.eq_false_iff]
  intro blank
  have outside : ∀ code ∈ [0x09, 0x0A, 0x0B, 0x0C, 0x0D, 0x1C, 0x1D, 0x1E, 0x1F, 0x20, 0x85, 0xA0,
      0x1680, 0x2000, 0x2001, 0x2002, 0x2003, 0x2004, 0x2005, 0x2006, 0x2007, 0x2008, 0x2009,
      0x200A, 0x2028, 0x2029, 0x202F, 0x205F, 0x3000],
        Attribute.isGuidChar (Char.ofNat code) = false := by
    decide
  have found := outside c.toNat (toNat_mem_of_isBlank blank)
  rw [Char.ofNat_toNat, guid] at found
  cases found

namespace Text

/-- Objects to blanks other than spaces. -/
def spaces : Monitor Unit where
  Admits _ c := IdlFormat.isBlank c → c = ' '
  next _ _ := ()
  Laxer _ _ := True
  refl _ := trivial
  admits _ admitted := admitted
  after _ _ := trivial
  space _ _ := rfl
  relaxed _ := trivial
  blank _ _ _ := trivial
  twice _ := trivial
  tight _ _ _ := ⟨id, trivial⟩
  opened _ := trivial
  closing _ blank := absurd blank (by decide)
  guid _ _ guid blank := absurd rfl (ne_of_isBlank blank (isBlank_of_isGuidChar guid))

theorem passes_spaces_iff {text : Text} :
    spaces.Passes () text ↔ ∀ c ∈ text, IdlFormat.isBlank c → c = ' ' := by
  induction text with
  | nil => simp [Monitor.Passes]
  | cons c rest ih =>
      rw [List.forall_mem_cons]
      exact and_congr Iff.rfl ih

end Text

namespace Attribute

open IdlFormat.Bracket (Divided Passes)

theorem respace_collapse (text : Text) : respace text.collapse = respace text := by
  obtain ⟨blank, same⟩ := Bead.collapse_eq text
  rw [respace, respace, Bead.trim_collapse, Bead.trim_collapse, same, Bead.ofText_spell_append,
    Bead.ofText_trail, List.append_nil]

/-- A respaced attribute has no blanks but spaces. -/
theorem eq_space_of_mem_respace {text : Text} {c : Char} (member : c ∈ respace text)
    (blank : isBlank c) : c = ' ' := by
  obtain ⟨trailing, same⟩ := Bead.collapse_eq text
  have collapsed : Text.spaces.Passes () text.collapse := by
    rw [Text.passes_spaces_iff, same]
    intro d inside blank
    rcases List.mem_append.1 inside with spelled | trailed
    · exact Bead.eq_space_of_mem_spell spelled blank
    · cases trailing with
      | false => cases trailed
      | true => exact List.mem_singleton.1 trailed
  rw [← respace_collapse] at member
  exact Text.passes_spaces_iff.1 (Monitor.passes_attributeRespace collapsed) c member blank

end Attribute

namespace Mask

theorem insert_append_of_noMark (hidden : List Text) (text : Text) {more : Text}
    (noMark : mark ∉ more) :
    insert hidden (text ++ more) = insert hidden text ++ more := by
  induction text generalizing hidden with
  | nil => exact insert_of_noMark noMark hidden
  | cons c text ih =>
      rw [List.cons_append, insert, insert]
      split
      · rw [ih, List.append_assoc]
      · rw [ih, List.cons_append]

end Mask

namespace Bracket

/-- Blanks at the end of a text change no count. -/
theorem Passes.trimEnd {before after : Balance} {text : Text} (passes : Passes before text after) :
    Passes before text.trimEnd after := by
  obtain ⟨segments, rfl, plain, passed⟩ := passes
  induction segments using List.reverseRecOn with
  | nil => exact ⟨[], rfl, plain, passed⟩
  | append_singleton body last ih =>
      have kept (init : Text) {c : Char} (same : last.text = init ++ [c])
        (solid : isBlank c = false) :
          Passes before (Text.trimEnd (Segment.spell (body ++ [last]))) after := by
        refine ⟨body ++ [last], ?_, plain, passed⟩
        rw [Segment.spell_append, Segment.spell_cons, same, Segment.spell_nil, List.append_nil,
          ← List.append_assoc, Segment.trimEnd_concat, if_neg (by simp [solid])]
      have own := plain last (by simp)
      by_cases isCode : ∃ c, last = .code c
      · obtain ⟨c, rfl⟩ := isCode
        cases blank : isBlank c with
        | false => exact kept [] rfl blank
        | true =>
            rw [List.foldlM_append] at passed
            obtain ⟨between, passedBody, step⟩ := Option.bind_eq_some_iff.1 passed
            have idle : some between = some after := by
              rw [← step]
              exact (congrArg (Option.bind · _) (Balance.step?_of_isBlank blank between)).symm
            obtain rfl := Option.some.inj idle
            have shorter := ih (fun segment member => plain segment (by simp [member])) passedBody
            rw [Segment.spell_append, Segment.spell_cons, Segment.spell_nil, List.append_nil]
            rw [show (Segment.code c).text = [c] from rfl, Segment.trimEnd_concat, if_pos blank]
            exact shorter
      · have notCode := not_exists.1 isCode
        obtain ⟨inline, fits⟩ := own.settled notCode
        obtain ⟨init, c, same, solid⟩ := (fits none).exists_end inline notCode
        exact kept init same solid

/-- A block that was cut off is taken whole. -/
theorem cutBlock_cutBlock (text : Text) : cutBlock (cutBlock text).1 = ((cutBlock text).1, []) := by
  by_cases filled : (cutBlock text).2 = []
  · have parts := cutBlock_append text
    rw [filled, List.append_nil] at parts
    rw [parts]
    exact Prod.ext parts filled
  · have again := cutClosed_taken_append filled []
    rwa [List.append_nil] at again

end Bracket

namespace Attribute

open Clean (ComesTo)
open IdlFormat.Bracket (Divided Passes)

/-- Attributes without the blanks at the end of the last one. -/
def trimLast : List Text → List Text
  | [] => []
  | [last] => [last.trimEnd]
  | first :: others => first :: trimLast others

theorem trimLast_ne_nil {attributes : List Text} (filled : attributes ≠ []) :
    trimLast attributes ≠ [] := by
  match attributes with
  | [] => exact absurd rfl filled
  | [_] => simp [trimLast]
  | _ :: _ :: _ => simp [trimLast]

theorem map_trim_trimLast (attributes : List Text) :
    (trimLast attributes).map Text.trim = attributes.map Text.trim := by
  match attributes with
  | [] => rfl
  | [last] => simp [trimLast, Text.trim_trimEnd]
  | first :: second :: others =>
      rw [trimLast, List.map_cons, map_trim_trimLast]
      · rfl
      · simp

theorem divided_trimLast {attributes : List Text} (divided : Divided (Passes {}) attributes) :
    Divided (Passes {}) (trimLast attributes) := by
  match attributes with
  | [] => trivial
  | [last] =>
      obtain ⟨⟨after, own, closed, even⟩, -⟩ := divided
      exact ⟨⟨after, own.trimEnd, closed, even⟩, trivial⟩
  | first :: second :: others =>
      obtain ⟨⟨after, own, closed, even⟩, later⟩ := divided
      exact ⟨⟨after, own, closed, fun _ => even (by simp)⟩, divided_trimLast later⟩

/-- Attributes that the clean-up leaves alone, but for the blanks at the end of a line. -/
structure Fitting (single : Text) : Prop where
  /-- It is not blank. -/
  filled : single.trimEnd ≠ []
  /-- It starts with no line break. -/
  starts : single.head? ≠ some '\n'
  /-- Its comments are clean. -/
  clean : Clean.cleaned single.trimEnd = single.trimEnd
  /-- The blanks at its end are dropped from the end of a line. -/
  padded : ∃ gap, List.all gap isIndent ∧ single = single.trimEnd ++ gap

/-- A formatted attribute with neat comments is fitting, as its code stands on one line and its blanks
are spaces. -/
theorem format_fitting {text result : Text} (noMark : Mask.mark ∉ text)
    (neat : (Segment.split text).all Segment.isNeat) (formatted : format text = .ok result)
    (filled : result.trim ≠ []) : Fitting result := by
  have lexed := Segment.lexed_split text
  have settled : Segment.Settled (Segment.hiddenSegments (Segment.split text)) :=
    Segment.settled_hiddenSegments lexed <| List.all_eq_true.2 fun segment member =>
      Segment.isClosed_of_isNeat (List.all_eq_true.1 neat segment member)
  have solid := settled.solid
  rw [← Segment.hidden_eq_map_text] at solid
  have same := format_eq noMark
  rw [formatted] at same
  obtain rfl : result = _ := same
  have spaces : ∀ c ∈ respace (Segment.skeleton (Segment.split text)), isBlank c → c = ' ' :=
    fun c => eq_space_of_mem_respace
  have unquoted := Segment.isQuote_of_mem_respaced compact_respace lexed
  generalize respace (Segment.skeleton (Segment.split text)) = spaced at *
  have notCode : ∀ segment ∈ Segment.hiddenSegments (Segment.split text),
      ∀ c, segment ≠ .code c := fun segment => Segment.ne_code_of_mem_hiddenSegments
  have fits {spaced : Text} (unquoted : ∀ c ∈ spaced, isQuote c = false) :
      ∀ segment ∈ Segment.weave (Segment.hiddenSegments (Segment.split text)) spaced,
        ∃ next, segment.Fits next := by
    intro segment member
    rcases Segment.mem_weave member with inHidden | ⟨c, inCode, rfl⟩
    · exact ⟨none, (settled segment inHidden).2.2 none⟩
    · exact ⟨none, unquoted c inCode, by simp [Comment.opens]⟩
  have inLine : '\n' ∉ spaced := fun member =>
    absurd (spaces _ member (by decide)) (by decide)
  refine ⟨fun empty => filled ?_, ?_, ?_, ?_⟩
  · rw [← Text.trim_trimEnd, empty]
    rfl
  · rw [Segment.hidden_eq_map_text, ← Segment.spell_weave]
    refine Segment.head?_spell_ne_break (fits unquoted) (Segment.all_isInline_weave settled _) ?_
    rwa [Segment.skeleton_weave notCode]
  · have part := Text.trimEnd_sublist spaced
    rw [Mask.trimEnd_insert solid, Segment.hidden_eq_map_text, ← Segment.spell_weave,
      Segment.cleaned_spell (fits fun c member => unquoted c (part.subset member))
        (Segment.all_isInline_weave settled _), Segment.map_cleaned_weave lexed neat]
    · rw [Segment.skeleton_weave notCode]
      exact fun member => inLine (part.subset member)
    · rw [Segment.skeleton_weave notCode]
      exact fun c => Text.isBlank_getLast_trimEnd
  · obtain ⟨gap, blank, whole⟩ := Text.exists_eq_trimEnd spaced
    have indents : gap.all isIndent := by
      rw [List.all_eq_true] at blank ⊢
      intro c member
      have inside : c ∈ spaced := by
        rw [whole]
        exact List.mem_append_right _ member
      rw [spaces c inside (blank c member)]
      rfl
    refine ⟨gap, indents, ?_⟩
    rw [Mask.trimEnd_insert solid, ← Mask.insert_append_of_noMark, ← whole]
    intro member
    exact absurd (List.all_eq_true.1 blank _ member) (by decide)

namespace Fitting

variable {single : Text} (fitting : Fitting single)

include fitting

theorem exists_ends : ∃ c d, (Clean.cleaned single.trimEnd).head? = some c ∧ c ≠ '\n' ∧
    single.trimEnd.getLast? = some d ∧ isBlank d = false := by
  obtain ⟨front, d, same, solid⟩ :=
    Text.exists_concat_of_trimEnd fitting.filled (Text.trimEnd_trimEnd single)
  obtain ⟨c, rest, first⟩ := List.exists_cons_of_ne_nil fitting.filled
  refine ⟨c, d, ?_, ?_, ?_, solid⟩
  · rw [fitting.clean, first]
    rfl
  · rintro rfl
    obtain ⟨gap, -, whole⟩ := fitting.padded
    apply fitting.starts
    rw [whole, first]
    rfl
  · rw [same, List.getLast?_concat]

/-- An indented attribute is its own paragraph, without the blanks at its end. -/
theorem comesTo {lead : Text} (inLine : '\n' ∉ lead) :
    ComesTo [lead ++ single] (lead ++ single.trimEnd) := by
  obtain ⟨c, d, first, notBreak, last, solid⟩ := fitting.exists_ends
  obtain ⟨gap, indents, same⟩ := fitting.padded
  have comes := Clean.comesTo_cleaned inLine first notBreak last solid indents
  rwa [List.append_assoc, ← same, fitting.clean] at comes

/-- So it is with its blanks in front of a character that is not blank. -/
theorem comesTo_concat {lead : Text} (inLine : '\n' ∉ lead) {e : Char} (solid : isBlank e = false) :
    ComesTo [lead ++ single ++ [e]] (lead ++ single ++ [e]) := by
  obtain ⟨c, d, first, notBreak, last, solidLast⟩ := fitting.exists_ends
  obtain ⟨gap, indents, same⟩ := fitting.padded
  have clean : Clean.cleaned (single ++ [e]) = single ++ [e] := by
    obtain ⟨front, ends⟩ := List.getLast?_eq_some_iff.1 last
    have tail : Clean.cleaned (gap ++ [e]) = gap ++ [e] := by
      refine Clean.cleaned_of_line ?_ (by rw [Segment.trimEnd_concat, if_neg (by simp [solid])])
      rw [List.mem_append, List.mem_singleton, not_or]
      refine ⟨fun member => ?_, (ne_break_of_isBlank solid).symm⟩
      exact absurd (List.all_eq_true.1 indents _ member) (by decide)
    have parts := Clean.cleaned_append_cons front solidLast (gap ++ [e])
    rw [← ends, fitting.clean, tail] at parts
    have whole : single ++ [e] = front ++ d :: (gap ++ [e]) := by
      conv => lhs; rw [same, ends]
      simp
    rw [whole, parts, ends]
    simp
  have begins : (Clean.cleaned (single ++ [e])).head? = some c := by
    rw [clean, same, List.append_assoc, List.head?_append_of_ne_nil _ fitting.filled]
    rwa [fitting.clean] at first
  have comes := Clean.comesTo_cleaned_line inLine begins notBreak List.getLast?_concat solid
  rwa [clean, ← List.append_assoc] at comes

end Fitting

theorem comesTo_concat {line : Text} (inLine : '\n' ∉ line) {c : Char} (solid : isBlank c = false) :
    ComesTo [line ++ [c]] (line ++ [c]) := by
  refine Clean.comesTo_line ?_ (by simp) (by rw [Segment.trimEnd_concat, if_neg (by simp [solid])])
  rw [List.mem_append, List.mem_singleton, not_or]
  exact ⟨inLine, (ne_break_of_isBlank solid).symm⟩

theorem comesTo_separated {indent last : Text} (inLine : '\n' ∉ indent)
    (closing : ComesTo [last] last)
    {attributes : List Text} (filled : attributes ≠ [])
    (fitting : ∀ single ∈ attributes, Fitting single) :
    ComesTo (separated indent attributes ++ [last])
      (Text.joinLines (separated indent (trimLast attributes) ++ [last])) := by
  match attributes with
  | [] => exact absurd rfl filled
  | [single] =>
      have comes := ((fitting single List.mem_cons_self).comesTo inLine).cons closing
      simpa [separated, trimLast, Text.joinLines, Text.join] using comes
  | first :: second :: others =>
      have later := comesTo_separated inLine closing (List.cons_ne_nil second others)
        fun single member => fitting single (List.mem_cons_of_mem _ member)
      have own : ComesTo [indent ++ first ++ [',']] (indent ++ first ++ [',']) :=
        (fitting first List.mem_cons_self).comesTo_concat inLine (by decide)
      have parts (next : Text) (more : List Text) :
          separated indent (first :: next :: more) ++ [last] =
            (indent ++ first ++ [',']) :: (separated indent (next :: more) ++ [last]) := rfl
      obtain ⟨next, more, same⟩ :=
        List.exists_cons_of_ne_nil (trimLast_ne_nil (List.cons_ne_nil second others))
      rw [same] at later
      rw [parts, trimLast, same, parts, joinLines_cons (by simp)]
      · exact own.cons later
      · simp

/-- The lines of a block come to its attributes spread out between its brackets, maybe without the
blanks at the end of the last one. -/
theorem comesTo_arrange (style : Style) (level : Int) {attributes : List Text}
    (fitting : ∀ single ∈ attributes, Fitting single) :
    ∃ lead last shown, lead.all isBlank ∧ last.all isBlank ∧
      (shown = attributes ∨ shown = trimLast attributes) ∧
      ComesTo (arrange style level attributes)
        (style.indent level ++ ('[' :: spread lead last shown ++ [']'])) := by
  have inLine := style.break_not_mem_indent
  have wrapped (filled : attributes ≠ []) :
      ComesTo ([style.indent level ++ ['[']] ++
          separated (style.indent (level + 1)) attributes ++ [style.indent level ++ [']']])
        (style.indent level ++ ('[' ::
          spread ('\n' :: style.indent (level + 1)) ('\n' :: style.indent level)
            (trimLast attributes) ++ [']'])) := by
    have closing := comesTo_concat (inLine level) (by decide : isBlank ']' = false)
    have opening := comesTo_concat (inLine level) (by decide : isBlank '[' = false)
    have comes := opening.cons (comesTo_separated (inLine (level + 1)) closing filled fitting)
    rw [joinLines_separated _ _ (trimLast_ne_nil filled)] at comes
    rwa [List.append_assoc, List.singleton_append] at comes ⊢
  have blanks (level : Int) : ('\n' :: style.indent level).all isBlank :=
    style.all_isBlank_indent level
  match attributes with
  | [] =>
      refine ⟨[], [], [], rfl, rfl, .inl rfl, ?_⟩
      have opened : '\n' ∉ style.indent level ++ ['['] := by simp [inLine]
      have comes := comesTo_concat opened (by decide : isBlank ']' = false)
      rwa [List.append_assoc] at comes
  | [single] =>
      by_cases short : single.length < style.inlineLimit
      · refine ⟨[], [], [single], rfl, rfl, .inl rfl, ?_⟩
        have opened : '\n' ∉ style.indent level ++ ['['] := by simp [inLine]
        have comes := (fitting single List.mem_cons_self).comesTo_concat opened
          (by decide : isBlank ']' = false)
        simpa [arrange, short, spread] using comes
      · have comes := wrapped (by simp)
        refine ⟨_, _, _, blanks (level + 1), blanks level, .inr rfl, ?_⟩
        rwa [arrange, if_neg short]
  | first :: second :: others =>
      exact ⟨_, _, _, blanks (level + 1), blanks level, .inr rfl, wrapped (by simp)⟩

/-- Blocks in which the readers of a block and of its attributes agree: no look-alikes of
placeholders, quiet comments, and none that the clean-up changes or that swallows brackets at the
end. -/
@[mk_iff]
structure Legible (block : Text) : Prop where
  /-- No placeholder is mistaken. -/
  noMark : Mask.mark ∉ block
  /-- The comments are closed, and the clean-up leaves them alone. -/
  neat : (Segment.split block).all Segment.isNeat
  /-- The comments are quiet. -/
  quiet : Segment.QuietFrom 0 (Segment.split block)
  /-- No closing brackets are put behind a line comment. -/
  ends : 2 ≤ Bracket.openDepth block →
    ∀ last ∈ (Segment.split block).getLast?, last.close.isInline

instance : DecidablePred Legible := fun block => decidable_of_iff' _ (legible_iff block)

/-- A legible block returns. -/
theorem Legible.returns {block : Text} (legible : Legible block) (opens : block.head? = some '[')
    (whole : Bracket.cutBlock block = (block, [])) (style : Style) (before : List Token)
    (closes : Bool) (after : Text) :
    Span.Returns style before closes (.attributeBlock block) after := by
  refine Span.returns_of_comesTo fun level row lines found printed => ?_
  obtain rfl := Except.ok.inj found
  rw [Layout.rowLines_single] at printed
  have tame : Segment.Tame (Segment.split block) :=
    ⟨fun segment member =>
        Segment.isClosed_of_isNeat (List.all_eq_true.1 legible.neat segment member),
      allQuiet_of_quietFrom opens whole legible.quiet⟩
  obtain ⟨attributes, rfl, divided, again⟩ :=
    exists_attributes opens whole legible.noMark tame legible.ends printed
  have good : ∀ single ∈ attributes, Fitting single ∧ format single.trim = .ok single := by
    intro result member
    obtain ⟨filled, stable, single, noMark, stems, formatted⟩ := again result member
    exact ⟨format_fitting noMark (stems.all_isNeat legible.neat) formatted filled, stable⟩
  obtain ⟨lead, last, shown, leading, trailing, same, comes⟩ :=
    comesTo_arrange style level fun single member => (good single member).1
  have dividedShown : Divided (Passes {}) shown := by
    rcases same with rfl | rfl
    · exact divided
    · exact divided_trimLast divided
  have trimmed : shown.map Text.trim = attributes.map Text.trim := by
    rcases same with rfl | rfl
    · rfl
    · exact map_trim_trimLast attributes
  have filled : ∀ single ∈ shown, single.trim ≠ [] := by
    intro single member
    have inside : single.trim ∈ attributes.map Text.trim := by
      rw [← trimmed]
      exact List.mem_map_of_mem member
    obtain ⟨source, isSource, sameTrim⟩ := List.mem_map.1 inside
    rw [← sameTrim]
    intro empty
    have blank := (Text.trim_eq_nil_iff source).1 empty
    exact (good source isSource).1.filled (Text.trimEnd_eq_nil_of_compact blank)
  obtain ⟨cut, -, parts⟩ := cutBlock_spread leading trailing dividedShown filled
  have restored : formatBlock style level ('[' :: spread lead last shown ++ [']']) =
      .ok (arrange style level attributes) := by
    have again : (attributes.map Text.trim).mapM format = .ok attributes := by
      rw [mapM_eq_ok_iff, List.forall₂_map_left_iff, List.forall₂_same]
      exact fun result member => (good result member).2
    rw [formatBlock, parts, trimmed, again]
    rfl
  have kept : Text.trimEnd (style.indent level ++ ('[' :: spread lead last shown ++ [']'])) =
      style.indent level ++ ('[' :: spread lead last shown ++ [']']) := by
    rw [← List.append_assoc, Segment.trimEnd_concat, if_neg (by decide)]
  refine ⟨_, comes, kept, fun more _ _ => ?_⟩
  refine Span.readAgain_of_token (.attributeBlock ('[' :: spread lead last shown ++ [']']))
    (style.all_isBlank_indent level) (by decide) ?_ rfl (fun _ => rfl) rfl restored comes
  have block (rest : Text) : Span.cut '[' rest =
      (.attributeBlock (Bracket.cutBlock ('[' :: rest)).1, (Bracket.cutBlock ('[' :: rest)).2) := rfl
  rw [block]
  exact congrArg (fun parts => (Span.attributeBlock parts.1, parts.2)) (cut ('\n' :: more))

end Attribute

end IdlFormat
