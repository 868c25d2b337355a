import IdlFormat.Proofs.Lines
import IdlFormat.Proofs.Relayout
import IdlFormat.Proofs.Tracking

/-!
# Rendered attribute blocks

A rendered block is read again as the block that it was rendered from. What stands between the
brackets of a block closes every `[` that it opens, because a block that is never closed is given
the brackets that it lacks. So each piece between its commas closes what it opens, and all kinds of
brackets are balanced in all but the last. Formatting an attribute keeps these counts, and so the
commas and the brackets of the rendered block are found where the printer has put them.
-/

namespace IdlFormat

namespace Mask

/-- A text that neither starts nor ends with a blank. -/
def Solid (text : Text) : Prop :=
  (∃ c rest, text = c :: rest ∧ isBlank c = false) ∧
    ∃ init c, text = init ++ [c] ∧ isBlank c = false

theorem solid_headD {hidden : List Text} (solid : ∀ text ∈ hidden, Solid text) :
    Solid (hidden.headD [mark]) := by
  cases hidden with
  | nil => exact ⟨⟨mark, [], rfl, by decide⟩, [], mark, rfl, by decide⟩
  | cons first others => exact solid first List.mem_cons_self

variable {hidden : List Text}

theorem isEmpty_insert (solid : ∀ text ∈ hidden, Solid text) (text : Text) :
    (insert hidden text).isEmpty = text.isEmpty := by
  cases text with
  | nil => rfl
  | cons c rest =>
      obtain ⟨⟨d, more, same, -⟩, -⟩ := solid_headD solid
      rw [insert, same]
      split <;> rfl

theorem trimStart_insert (solid : ∀ text ∈ hidden, Solid text) (text : Text) :
    (insert hidden text).trimStart = insert hidden text.trimStart := by
  induction text with
  | nil => rfl
  | cons c rest ih =>
      by_cases blank : isBlank c
      · have shown : c ≠ mark := by
          rintro rfl
          revert blank
          decide
        rw [insert, if_neg shown, Text.trimStart, Text.trimStart, List.dropWhile_cons_of_pos blank,
          List.dropWhile_cons_of_pos blank]
        exact ih
      · have stays : Text.trimStart (c :: rest) = c :: rest := List.dropWhile_cons_of_neg blank
        rw [stays, insert]
        split
        · obtain ⟨⟨d, more, same, filled⟩, -⟩ := solid_headD solid
          rw [same]
          exact List.dropWhile_cons_of_neg (by simp [filled])
        · exact List.dropWhile_cons_of_neg blank

theorem trimEnd_insert (solid : ∀ text ∈ hidden, Solid text) (text : Text) :
    (insert hidden text).trimEnd = insert hidden text.trimEnd := by
  induction text generalizing hidden with
  | nil => rfl
  | cons c rest ih =>
      by_cases marked : c = mark
      · have later := ih fun text member => solid text (List.mem_of_mem_tail member)
        have notBlank : isBlank c = false := by
          rw [marked]
          decide
        obtain ⟨-, init, d, same, filled⟩ := solid_headD solid
        have ends := Text.trimEnd_cons_of_not_blank filled (insert hidden.tail rest)
        rw [Text.trimEnd_cons_of_not_blank notBlank, insert, insert, if_pos marked, if_pos marked,
          ← later, same, List.append_assoc, List.singleton_append,
          Text.trimEnd_append (by simp [ends]), ends, List.append_assoc]
        rfl
      · rw [Text.trimEnd_cons, insert, if_neg marked, Text.trimEnd_cons, ih solid,
          isEmpty_insert solid]
        split
        · rfl
        · rw [insert, if_neg marked]

theorem trim_insert (solid : ∀ text ∈ hidden, Solid text) (text : Text) :
    (insert hidden text).trim = insert hidden text.trim := by
  rw [Text.trim, trimStart_insert solid, trimEnd_insert solid, Text.trim]

end Mask

namespace Literal

/-- A part of a literal from its start is cut off whole as well. -/
theorem scan_part {quote : Char} (quoted : isQuote quote) {escaped : Bool}
    {part more repair : Text}
    (whole : scan quote escaped (part ++ more) = ⟨part ++ more, [], repair⟩) :
    ∃ own, scan quote escaped part = ⟨part, [], own⟩ := by
  induction part generalizing escaped with
  | nil => exact ⟨_, rfl⟩
  | cons c part ih =>
      rcases scan_cons_whole quoted whole with ⟨isOpen, closing, none, -⟩ | ⟨inLine, goesOn, inner⟩
      · obtain ⟨rfl, rfl⟩ := List.append_eq_nil_iff.1 none
        rw [List.append_nil] at whole
        exact ⟨_, whole⟩
      · obtain ⟨own, same⟩ := ih inner
        exact ⟨own, by rw [scan_cons inLine goesOn, same]; rfl⟩

end Literal

namespace Segment

open IdlFormat.Bracket (Balance)

variable {segments others : List Segment} {segment : Segment} {next : Option Char}

theorem Fits.solid (fits : segment.Fits next) (inline : segment.isInline)
    (notCode : ∀ c, segment ≠ .code c) : Mask.Solid segment.text := by
  refine ⟨?_, fits.exists_end inline notCode⟩
  match segment, fits with
  | .code c, _ => exact absurd rfl (notCode c)
  | .literal _ _, ⟨quote, body, same, quoted, _⟩ => exact ⟨quote, body, same, isBlank_quote quoted⟩
  | .comment .line _, ⟨body, same, _⟩ => exact ⟨'/', _, same, by decide⟩
  | .comment .block _, ⟨body, same, _⟩ => exact ⟨'/', _, same, by decide⟩

theorem Settled.solid {hidden : List Segment} (settled : Settled hidden) :
    ∀ text ∈ hidden.map Segment.text, Mask.Solid text := by
  intro text member
  obtain ⟨segment, inside, rfl⟩ := List.mem_map.1 member
  obtain ⟨notCode, inline, fits⟩ := settled segment inside
  exact (fits none).solid inline notCode

theorem Tame.settled (tame : Tame segments) (lexed : Lexed segments) :
    Settled (hiddenSegments segments) :=
  settled_hiddenSegments lexed (List.all_eq_true.2 tame.closed)

/-- Blanks are not counted. -/
theorem foldlM_track?_weave_compact (hidden : List Segment) (before : Balance) (text : Text) :
    (weave hidden text.compact).foldlM track? before = (weave hidden text).foldlM track? before := by
  induction text generalizing hidden before with
  | nil => rfl
  | cons c rest ih =>
      rw [Text.compact_cons]
      split
      · next blank =>
          have shown : c ≠ Mask.mark := by
            rintro rfl
            revert blank
            decide
          have idle : track? before (.code c) = some before := Balance.step?_of_isBlank blank before
          rw [ih, weave, if_neg shown, List.foldlM_cons, idle]
          rfl
      · rw [weave, weave]
        split <;> simp only [List.foldlM_cons, ih]

/-- What the content of a quiet text leaves out are no brackets. -/
theorem foldl_after_content {text : Text} (quiet : Comment.isQuiet text) (before : Balance) :
    text.content.foldl (Balance.after Bracket.all) before =
      text.foldl (Balance.after Bracket.all) before := by
  induction text generalizing before with
  | nil => rfl
  | cons c text ih =>
      obtain ⟨⟨-, -, -, notClose⟩, others⟩ := Comment.isQuiet_cons quiet
      rw [Text.content_cons]
      split
      · exact ih others _
      · next dropped =>
          have noBracket (bracket : Bracket) : bracket.opener ≠ c ∧ bracket.closer ≠ c := by
            constructor <;> rintro rfl <;> cases bracket <;> first
              | exact dropped (by decide)
              | exact notClose rfl
          have idle : before.after Bracket.all c = before := by
            rw [Balance.after, Bracket.change?_eq_none noBracket]
          rw [ih others, List.foldl_cons, idle]

/-- A quiet comment is counted as its block form is. -/
theorem foldlM_track?_map_inlined (lexed : Lexed segments) (quiet : AllQuiet segments)
    (before : Balance) : (segments.map inlined).foldlM track? before =
      segments.foldlM track? before := by
  induction segments generalizing before with
  | nil => rfl
  | cons segment rest ih =>
      have same : track? before segment.inlined = track? before segment := by
        cases segment with
        | code c => rfl
        | literal text repair => rfl
        | comment form text =>
            have own := quiet form text List.mem_cons_self
            cases form with
            | block => rfl
            | line =>
                obtain ⟨body, rfl, -⟩ := lexed.1
                rw [inlined, track?, track?, if_pos (isQuiet_blockForm own .line), if_pos own]
                have counted := foldl_after_content (isQuiet_blockForm own .line) before
                rw [Comment.content_blockForm_line, foldl_after_content own] at counted
                exact congrArg some counted.symm
      rw [List.map_cons, List.foldlM_cons, List.foldlM_cons, same]
      simp only [ih lexed.2 quiet.tail]

/-- The comments among segments are those among others, line comments maybe cut short. -/
def Stems (segments others : List Segment) : Prop :=
  ∀ form text, .comment form text ∈ segments →
    ∃ more, .comment form (text ++ more) ∈ others ∧ (form = .block → more = [])

theorem Stems.of_subset (inside : segments ⊆ others) : Stems segments others :=
  fun form text member => ⟨[], by rw [List.append_nil]; exact inside member, fun _ => rfl⟩

theorem Stems.trans {middle : List Segment} (first : Stems segments middle)
    (second : Stems middle others) : Stems segments others := by
  intro form text member
  obtain ⟨more, inside, whole⟩ := first form text member
  obtain ⟨behind, found, wholeToo⟩ := second form _ inside
  rw [List.append_assoc] at found
  exact ⟨more ++ behind, found, fun block => by rw [whole block, wholeToo block]; rfl⟩

theorem Stems.tame (stems : Stems segments others) (tame : Tame others) : Tame segments := by
  constructor
  · intro segment member
    match segment, member with
    | .code _, _ => rfl
    | .literal _ _, _ => rfl
    | .comment .line _, _ => rfl
    | .comment .block text, member =>
        obtain ⟨more, inside, whole⟩ := stems .block text member
        rw [whole rfl, List.append_nil] at inside
        exact tame.closed _ inside
  · intro form text member
    obtain ⟨more, inside, -⟩ := stems form text member
    have quiet := tame.quiet form _ inside
    rw [Comment.isQuiet, List.all_append, Bool.and_eq_true] at quiet
    exact quiet.1

theorem stems_map_close (segments : List Segment) : Stems (segments.map close) segments := by
  refine fun form text member => ⟨[], ?_, fun _ => rfl⟩
  obtain ⟨source, given, same⟩ := List.mem_map.1 member
  cases source with
  | comment other body =>
      rw [List.append_nil, ← same]
      exact given
  | code c => cases same
  | literal quoted repair => cases same

theorem split_trimStart_subset (text : Text) : split text.trimStart ⊆ split text := by
  induction text with
  | nil => exact List.Subset.refl _
  | cons c rest ih =>
      by_cases blank : isBlank c
      · have notSlash : c ≠ '/' := by
          rintro rfl
          revert blank
          decide
        have noComment : Comment.form? (c :: rest) = none := by
          rw [Comment.form?_cons_eq_none_iff]
          simp [Comment.opens, notSlash]
        rw [Text.trimStart, List.dropWhile_cons_of_pos blank,
          split_of_code noComment (Reading.not_isQuote_of_isBlank blank)]
        exact fun segment member => List.mem_cons_of_mem _ (ih member)
      · rw [Text.trimStart, List.dropWhile_cons_of_neg blank]
        exact List.Subset.refl _

theorem stems_split_trimEnd_concat {body : List Segment} {last shorter : Segment}
    (lexed : Lexed (body ++ [last])) (trimmed : last.text.trimEnd = shorter.text)
    (fits : shorter.Fits none)
    (stem : ∀ form text, shorter = .comment form text →
      ∃ more, last = .comment form (text ++ more) ∧ (form = .block → more = [])) :
    Stems (split (spell (body ++ [last])).trimEnd) (body ++ [last]) := by
  have filled := fits.text_ne_nil
  have whole : Text.trimEnd (spell (body ++ [last])) = spell (body ++ [shorter]) := by
    rw [spell_append, spell_append, spell_cons, spell_cons, spell_nil, List.append_nil,
      List.append_nil, Text.trimEnd_append (by rwa [trimmed]), trimmed]
  have head : (spell [last]).head? = (spell [shorter]).head? := by
    obtain ⟨blanks, same⟩ := Text.trimEnd_prefix last.text
    rw [trimmed] at same
    rw [spell_cons, spell_cons, ← same, List.append_assoc, List.head?_append_of_ne_nil _ filled,
      List.head?_append_of_ne_nil _ filled]
  have read : Lexed (body ++ [shorter]) := by
    refine lexed.left.append_last ⟨fits, trivial⟩ fun before ends => ?_
    rw [← head]
    exact lexed.last_fits before ends
  rw [whole, split_spell read]
  intro form text member
  rcases List.mem_append.1 member with inBody | isLast
  · refine ⟨[], ?_, fun _ => rfl⟩
    rw [List.append_nil]
    exact List.mem_append_left _ inBody
  · obtain ⟨more, same, stays⟩ := stem form text (List.mem_singleton.1 isLast).symm
    exact ⟨more, by rw [same]; simp, stays⟩

/-- At the end of a text only blanks, a line comment and an open literal lose characters, as all
other segments end in no blank. -/
theorem stems_split_trimEnd (lexed : Lexed segments)
    (closed : ∀ segment ∈ segments, segment.isClosed) :
    Stems (split (spell segments).trimEnd) segments := by
  induction segments using List.reverseRecOn with
  | nil =>
      have nothing : split (spell []).trimEnd = [] := @split_spell [] trivial
      rw [nothing]
      exact Stems.of_subset (List.nil_subset _)
  | append_singleton body last ih =>
      have fits : last.Fits none := lexed.right.1
      have stays (init : Text) (c : Char) (same : last.text = init ++ [c])
          (solid : isBlank c = false) :
          Stems (split (spell (body ++ [last])).trimEnd) (body ++ [last]) := by
        refine stems_split_trimEnd_concat lexed ?_ fits fun form text isComment => ?_
        · rw [same, trimEnd_concat, if_neg (by simp [solid])]
        · exact ⟨[], by rw [isComment, List.append_nil], fun _ => rfl⟩
      cases last with
      | code c =>
          cases blank : isBlank c with
          | false => exact stays [] c rfl blank
          | true =>
              have dropped : Text.trimEnd (spell (body ++ [.code c])) = (spell body).trimEnd := by
                rw [spell_append, spell_cons, spell_nil, List.append_nil, Segment.text,
                  trimEnd_concat, if_pos blank]
              rw [dropped]
              exact (ih lexed.left fun segment member => closed segment (by simp [member])).trans
                (Stems.of_subset (List.subset_append_left _ _))
      | literal text repair =>
          obtain ⟨quote, inner, rfl, quoted, whole, -⟩ := fits
          obtain ⟨blanks, parts⟩ := Text.trimEnd_prefix inner
          rw [← parts] at whole
          obtain ⟨own, cut⟩ := Literal.scan_part quoted whole
          have fitting : Segment.Fits (.literal (quote :: Text.trimEnd inner) own) none :=
            ⟨quote, _, rfl, quoted, cut, .inr (.inl rfl)⟩
          refine stems_split_trimEnd_concat lexed ?_ fitting fun form text isComment => ?_
          · exact Text.trimEnd_cons_of_not_blank (isBlank_quote quoted) inner
          · cases isComment
      | comment form text =>
          cases form with
          | line =>
              obtain ⟨inner, rfl, inLine, -⟩ := fits
              have slash : isBlank '/' = false := by decide
              obtain ⟨blanks, parts⟩ := Text.trimEnd_prefix inner
              have fitting : Segment.Fits (.comment .line ('/' :: '/' :: Text.trimEnd inner)) none :=
                ⟨_, rfl, fun broken => inLine ((Text.trimEnd_sublist _).subset broken), .inl rfl⟩
              refine stems_split_trimEnd_concat lexed ?_ fitting fun form text same => ?_
              · exact (Text.trimEnd_cons_of_not_blank slash _).trans
                  (congrArg _ (Text.trimEnd_cons_of_not_blank slash inner))
              · obtain ⟨rfl, rfl⟩ := Segment.comment.inj same
                refine ⟨blanks, by rw [List.cons_append, List.cons_append, parts], fun isBlock => ?_⟩
                cases isBlock
          | block =>
              obtain ⟨inner, rfl, whole, -⟩ := fits
              have isClosed : Comment.closes inner :=
                closed (.comment .block ('/' :: '*' :: inner)) (List.mem_append_right _ (by simp))
              obtain ⟨init, rfl⟩ := List.getLast?_eq_some_iff.1 (getLast?_of_closes whole isClosed)
              exact stays ('/' :: '*' :: init) '/' rfl (by decide)

/-- The comments of a text stay when it is trimmed. -/
theorem stems_split_trim {text : Text} (closed : ∀ segment ∈ split text, segment.isClosed) :
    Stems (split text.trim) (split text) := by
  have start := split_trimStart_subset text
  have ended := stems_split_trimEnd (lexed_split text.trimStart) fun segment member =>
    closed segment (start member)
  rw [spell_split] at ended
  exact ended.trans (Stems.of_subset start)

/-- Closing brackets can be put behind segments whose literals are closed, but not behind a line
comment. -/
theorem Lexed.close_append_brackets (lexed : Lexed segments) {count : Nat}
    (ends : count ≠ 0 → ∀ last ∈ segments.getLast?, last.close.isInline) :
    Lexed (segments.map close ++ List.replicate count (.code ']')) := by
  cases count with
  | zero =>
      rw [List.replicate_zero, List.append_nil]
      exact lexed_map_close lexed
  | succ count =>
      apply (lexed_map_close lexed).append_brackets
      intro last isLast
      rw [List.getLast?_map] at isLast
      obtain ⟨source, found, rfl⟩ := Option.map_eq_some_iff.1 isLast
      obtain ⟨next, fits⟩ := lexed.exists_fits source (List.mem_of_getLast? found)
      exact fits.close.before (ends (by simp) source found) (by decide) (by decide)

theorem Bare.isInline_close (bare : Bare segments) (member : segment ∈ segments) :
    segment.close.isInline := by
  cases segment with
  | comment form text => exact absurd member (bare form text)
  | _ => rfl

theorem stems_close_append_brackets (segments : List Segment) (count : Nat) :
    Stems (segments.map close ++ List.replicate count (.code ']')) segments := by
  intro form text member
  rcases List.mem_append.1 member with inside | closer
  · exact stems_map_close segments form text inside
  · cases List.eq_of_mem_replicate closer

theorem compact_spell_of_skeleton (empty : (skeleton segments).compact = []) :
    (spell segments).compact = [] := by
  induction segments with
  | nil => rfl
  | cons segment rest ih =>
      obtain ⟨c, same, -, shown⟩ := exists_skeleton_cons segment
      rw [same, Text.compact_cons] at empty
      split at empty
      · next blank =>
          have notMark : c ≠ Mask.mark := by
            rintro rfl
            revert blank
            decide
          rw [(shown c notMark).1 rfl, spell_cons, Text.compact_append, ih empty, List.append_nil,
            Segment.text, Text.compact_cons, if_pos blank]
          rfl
      · simp at empty

end Segment

namespace Attribute

open Segment (spell Lexed Bare Stems Tame skeleton)
open IdlFormat.Bracket (Balance nest? Passes)

/-- A block that is cut off whole has its segments cut off whole. -/
theorem cutClosed_of_cutBlock {segments : List Segment} (lexed : Lexed segments)
    (quiet : Segment.QuietFrom 1 segments)
    (whole : Bracket.cutBlock ('[' :: spell segments) = ('[' :: spell segments, [])) :
    Segment.cutClosed (1 : Nat) segments = (segments, []) := by
  have parts := Segment.cutClosed_append (1 : Nat) segments
  rw [Bracket.cutBlock_cons, Segment.cutClosed_spell lexed Nat.one_pos (Nat.le_refl 1) quiet]
    at whole
  rw [← parts] at lexed
  have nothing := lexed.right.eq_nil_of_spell (Prod.mk.inj whole).2
  rw [nothing, List.append_nil] at parts
  exact Prod.ext parts nothing

/-- All comments of a block stand in its brackets. -/
theorem allQuiet_of_quietFrom {block : Text} (opens : block.head? = some '[')
    (whole : Bracket.cutBlock block = (block, []))
    (quiet : Segment.QuietFrom 0 (Segment.split block)) : Segment.AllQuiet (Segment.split block) := by
  have inside {segments : List Segment} {depth : Nat} (isOpen : 0 < depth)
      (quiet : Segment.QuietFrom depth segments)
      (whole : Segment.cutClosed depth segments = (segments, [])) : Segment.AllQuiet segments := by
    induction segments generalizing depth with
    | nil => exact nofun
    | cons segment rest ih =>
        rw [Segment.cutClosed] at whole
        split at whole
        · next closes =>
            obtain rfl : rest = [] := (Prod.mk.inj whole).2
            rw [closes.1]
            intro form text member
            cases List.mem_singleton.1 member
        · next goesOn =>
            obtain ⟨after, positive, counted⟩ := Segment.exists_depth_after isOpen goesOn
            have others := Segment.quietFrom_cons quiet
            rw [counted] at whole others
            obtain ⟨taken, none⟩ := Prod.mk.inj whole
            have later := ih positive others (Prod.ext (List.cons.inj taken).2 none)
            rintro form text member
            rcases List.mem_cons.1 member with rfl | inRest
            · exact quiet.1 isOpen
            · exact later form text inRest
  obtain ⟨inner, rfl⟩ := List.head?_eq_some_iff.1 opens
  have lexed := Segment.lexed_split inner
  rw [Segment.split_of_code rfl (by decide)] at quiet ⊢
  have quietInner : Segment.QuietFrom 1 (Segment.split inner) := quiet
  have cut := cutClosed_of_cutBlock lexed quietInner (by rwa [Segment.spell_split])
  intro form text member
  rcases List.mem_cons.1 member with same | inInner
  · cases same
  · exact inside Nat.one_pos quietInner cut form text inInner

/-- What stands between the brackets of a block closes the `[` that it opens, and no others. Closing
brackets are put behind an open block, which are not to get into a line comment. -/
theorem exists_content {block : Text} (opens : block.head? = some '[')
    (whole : Bracket.cutBlock block = (block, [])) (tame : Tame (Segment.split block))
    (ends : 2 ≤ Bracket.openDepth block →
      ∀ last ∈ (Segment.split block).getLast?, last.close.isInline) :
    ∃ segments, content block = spell segments ∧ Lexed segments ∧
      Stems segments (Segment.split block) ∧ (skeleton segments).foldlM nest? 0 = some 0 := by
  obtain ⟨inner, rfl⟩ := List.head?_eq_some_iff.1 opens
  obtain ⟨segments, lexed, rfl⟩ : ∃ segments, Lexed segments ∧ spell segments = inner :=
    ⟨_, Segment.lexed_split inner, Segment.spell_split inner⟩
  have lexedBlock : Lexed (.code '[' :: segments) := ⟨⟨by decide, by simp [Comment.opens]⟩, lexed⟩
  have split : Segment.split ('[' :: spell segments) = .code '[' :: segments :=
    Segment.split_spell lexedBlock
  rw [split] at tame ends
  have within : segments ⊆ .code '[' :: segments := List.subset_cons_self _ _
  have tameInner : Tame segments := tame.of_subset within
  rw [split]
  have cut : Segment.cutClosed (0 + 1 : Nat) segments = (segments, []) :=
    cutClosed_of_cutBlock lexed (tameInner.quiet.quietFrom 1) whole
  rcases Segment.nested_of_cutClosed cut with ⟨body, rfl, nested⟩ | ⟨missing, nested⟩
  · refine ⟨body, ?_, lexed.left, ?_, nested⟩
    · have closed :
          Segment.openDepthFrom 0 (Segment.code '[' :: body ++ [Segment.code ']']) = 0 := by
        rw [Segment.openDepthFrom_append]
        show Segment.openDepthFrom (Segment.openDepthFrom (0 + 1) body) [.code ']'] = 0
        rw [Segment.openDepthFrom_of_nested nested]
        rfl
      exact content_spell_closed lexedBlock tame.quiet closed
    · exact Stems.of_subset (List.Subset.trans (List.subset_append_left _ _) within)
  · have depth : Bracket.openDepth ('[' :: spell segments) = missing + 1 :=
      (Segment.openDepthFrom_spell lexedBlock tame.quiet 0).trans
        (Segment.openDepthFrom_of_nested nested)
    refine ⟨segments.map Segment.close ++ List.replicate missing (.code ']'), ?_, ?_, ?_, ?_⟩
    · exact content_spell_open lexedBlock tame.quiet (Segment.openDepthFrom_of_nested nested)
    · refine lexed.close_append_brackets fun deep last isLast => ends (by omega) last ?_
      rw [List.getLast?_cons, isLast]
      rfl
    · exact (Segment.stems_close_append_brackets segments missing).trans (Stems.of_subset within)
    · rw [Segment.skeleton_append, List.foldlM_append, Segment.skeleton_map_close, nested]
      exact Segment.nested_replicate missing

theorem respace_trim (text : Text) : respace text.trim = respace text := by
  rw [respace, respace, Bead.trim_collapse, Bead.trim_collapse, Bead.unlead_ofText_trim]

/-- Formatting an attribute keeps the counts of its brackets and closes its literals, and formatting
the trimmed result gives the result again. -/
theorem format_trim {text result : Text} {after : Balance} (noMark : Mask.mark ∉ text)
    (tame : Tame (Segment.split text))
    (tracked : Bracket.trackFrom .outside {} text = some after)
    (formatted : format text = .ok result) :
    Passes {} result after ∧ format result.trim = .ok result ∧
      (text.trim ≠ [] → result.trim ≠ []) := by
  have lexed := Segment.lexed_split text
  have spelled := Segment.spell_split text
  rw [← spelled, Segment.trackFrom_spell lexed tame.quiet] at tracked
  have settled := tame.settled lexed
  have solid := settled.solid
  rw [← Segment.hidden_eq_map_text] at solid
  have same := format_eq noMark
  rw [formatted] at same
  obtain rfl : result = _ := same
  refine ⟨?_, ?_, ?_⟩
  · refine ⟨Segment.weave (Segment.hiddenSegments (Segment.split text))
      (respace (skeleton (Segment.split text))), ?_, ?_, ?_⟩
    · rw [Segment.spell_weave, ← Segment.hidden_eq_map_text]
    · intro segment member
      rcases Segment.mem_weave member with inHidden | ⟨c, inCode, rfl⟩
      · exact settled.isPlain inHidden
      · exact Segment.isQuote_of_mem_respaced compact_respace lexed c inCode
    · rw [← Segment.foldlM_track?_weave_compact, compact_respace,
        Segment.foldlM_track?_weave_compact, Segment.weave_skeleton fun c => Mask.code_ne_mark noMark,
        Segment.foldlM_track?_map_inlined lexed tame.quiet, tracked]
  · rw [Mask.trim_insert solid, format, (respacing.trim respace_trim).mask_insert noMark]
    simp only [respace_trim, respacing.again]
    exact formatted
  · intro filled empty
    apply filled
    rw [Mask.trim_insert solid, ← List.isEmpty_iff, Mask.isEmpty_insert solid, List.isEmpty_iff,
      Text.trim_eq_nil_iff, compact_respace] at empty
    rw [Text.trim_eq_nil_iff, ← spelled]
    exact Segment.compact_spell_of_skeleton empty

/-- The attributes of a block as they stand between its brackets, with blanks in front of each and
behind the last. -/
def spread (lead last : Text) : List Text → Text
  | [] => last
  | [only] => lead ++ only ++ last
  | first :: others => lead ++ first ++ ',' :: spread lead last others

theorem spread_cons_cons (lead last first second : Text) (others : List Text) :
    spread lead last (first :: second :: others) =
      lead ++ first ++ ',' :: spread lead last (second :: others) := rfl

theorem joinLines_cons {lines : List Text} (filled : lines ≠ []) (line : Text) :
    Text.joinLines (line :: lines) = line ++ '\n' :: Text.joinLines lines := by
  obtain ⟨next, others, rfl⟩ := List.exists_cons_of_ne_nil filled
  exact Text.joinLines_cons_cons line next others

theorem joinLines_separated (indent outer : Text) {attributes : List Text}
    (filled : attributes ≠ []) :
    '\n' :: Text.joinLines (separated indent attributes ++ [outer ++ [']']]) =
      spread ('\n' :: indent) ('\n' :: outer) attributes ++ [']'] := by
  induction attributes with
  | nil => exact absurd rfl filled
  | cons first others ih =>
      cases others with
      | nil => simp [separated, spread, Text.joinLines, Text.join]
      | cons second others =>
          have later := ih (by simp)
          have more : separated indent (second :: others) ++ [outer ++ [']']] ≠ [] := by simp
          rw [separated, List.cons_append, joinLines_cons more, later, spread_cons_cons]
          · simp
          · simp

/-- The lines of a block, joined, are its attributes spread out between its brackets. -/
theorem exists_spread (style : Style) (level : Int) (attributes : List Text) :
    ∃ lead last, lead.all isBlank ∧ last.all isBlank ∧
      Text.joinLines (arrange style level attributes) =
        style.indent level ++ ('[' :: spread lead last attributes ++ [']']) := by
  have wrapped {attributes : List Text} (filled : attributes ≠ []) :
      Text.joinLines ([style.indent level ++ ['[']] ++
          separated (style.indent (level + 1)) attributes ++ [style.indent level ++ [']']]) =
        style.indent level ++ ('[' ::
          spread ('\n' :: style.indent (level + 1)) ('\n' :: style.indent level) attributes ++
            [']']) := by
    have joined := joinLines_separated (style.indent (level + 1)) (style.indent level) filled
    rw [List.append_assoc, List.singleton_append, joinLines_cons (by simp), joined]
    simp
  have blanks (level : Int) : ('\n' :: style.indent level).all isBlank :=
    style.all_isBlank_indent level
  match attributes with
  | [] => exact ⟨[], [], rfl, rfl, by simp [arrange, spread, Text.joinLines, Text.join]⟩
  | [single] =>
      by_cases short : single.length < style.inlineLimit
      · exact ⟨[], [], rfl, rfl, by simp [arrange, spread, Text.joinLines, Text.join, short]⟩
      · refine ⟨_, _, blanks (level + 1), blanks level, ?_⟩
        simp only [arrange, if_neg short]
        exact wrapped (by simp)
  | first :: second :: others =>
      exact ⟨_, _, blanks (level + 1), blanks level, wrapped (by simp)⟩

section Spread

variable {lead last : Text} {attributes : List Text}

/-- The bracket behind spread attributes closes their block. -/
theorem cutClosed_spread (leading : lead.all isBlank) (trailing : last.all isBlank)
    (divided : Bracket.Divided (Passes {}) attributes) (rest : Text) :
    Bracket.cutClosed .outside (1 : Nat) (spread lead last attributes ++ ']' :: rest) =
      (spread lead last attributes ++ [']'], rest) := by
  have passes {text : Text} {after : Balance} (passes : Passes {} text after)
      (closed : after.square = 0) (rest : Text) :
      Bracket.cutClosed .outside (1 : Nat) (text ++ rest) =
        (text ++ (Bracket.cutClosed .outside (1 : Nat) rest).1,
          (Bracket.cutClosed .outside (1 : Nat) rest).2) := by
    have passed := Bracket.scanner_cutClosed.passes passes rest
    rw [closed, Bracket.foldr_cons_fst] at passed
    exact passed
  have closes : Bracket.cutClosed .outside (1 : Nat) (']' :: rest) = ([']'], rest) := by
    simp [Bracket.cutClosed_code (by decide : isQuote ']' = false)]
  induction attributes with
  | nil =>
      have gap := passes (Passes.of_blank trailing {}) rfl (']' :: rest)
      rw [spread, gap, closes]
  | cons first others ih =>
      obtain ⟨after, own, closed, even⟩ := divided.1
      have led := (Passes.of_blank leading {}).append own
      cases others with
      | nil =>
          have whole := led.append (Passes.of_blank trailing after)
          have passed := passes whole closed (']' :: rest)
          rw [spread, passed, closes]
      | cons second others =>
          have later := ih divided.2
          have comma (tail : Text) : Bracket.cutClosed .outside (1 : Nat) (',' :: tail) =
              (',' :: (Bracket.cutClosed .outside (1 : Nat) tail).1,
                (Bracket.cutClosed .outside (1 : Nat) tail).2) := by
            simp [Bracket.cutClosed_code (by decide : isQuote ',' = false), Bracket.step]
          rw [spread_cons_cons, List.append_assoc, passes led closed, List.cons_append, comma,
            later]
          simp

/-- Spread attributes are cut apart again. -/
theorem splitTopLevel_spread (leading : lead.all isBlank) (trailing : last.all isBlank)
    (divided : Bracket.Divided (Passes {}) attributes)
    (filled : ∀ single ∈ attributes, single.trim ≠ []) :
    ((Bracket.splitTopLevel (· = ',') Bracket.all (spread lead last attributes)).map
        Text.trim).filter (!·.isEmpty) = attributes.map Text.trim := by
  have whole {text : Text} {after : Balance} (passes : Passes {} text after) :
      Bracket.splitFrom (· = ',') Bracket.all .outside {} text = [text] := by
    have passed := Bracket.scanner_splitFrom.passes passes []
    rw [List.append_nil, Bracket.splitFrom, Bracket.foldr_consFirst_cons, List.append_nil] at passed
    exact passed
  have cut {text : Text} (passes : Passes {} text {}) (rest : Text) :
      Bracket.splitFrom (· = ',') Bracket.all .outside {} (text ++ ',' :: rest) =
        text :: Bracket.splitFrom (· = ',') Bracket.all .outside {} rest := by
    rw [Bracket.scanner_splitFrom.passes passes, Bracket.splitFrom_code (by decide),
      if_pos ⟨rfl, rfl⟩, Bracket.foldr_consFirst_cons, List.append_nil]
  rw [Bracket.splitTopLevel]
  induction attributes with
  | nil =>
      have blank : last.trim = [] := (Text.trim_eq_nil_iff last).2 (Text.compact_eq_nil trailing)
      rw [spread, whole (Passes.of_blank trailing {})]
      simp [blank]
  | cons first others ih =>
      obtain ⟨after, own, closed, even⟩ := divided.1
      have led := (Passes.of_blank leading {}).append own
      have solid := filled first List.mem_cons_self
      cases others with
      | nil =>
          rw [spread, whole (led.append (Passes.of_blank trailing after)), List.map_singleton,
            Text.trim_between leading trailing]
          simp [solid]
      | cons second others =>
          have later :=
            ih divided.2 fun single member => filled single (List.mem_cons_of_mem _ member)
          rw [even (by simp)] at led
          rw [spread_cons_cons, cut led, List.map_cons, List.filter_cons, later,
            Text.trim_append leading]
          simp [solid]

end Spread

/-- The attributes of nested segments are the pieces between their commas, trimmed. -/
theorem divided_split {block : Text} {segments : List Segment}
    (inner : content block = spell segments) (lexed : Lexed segments) (tame : Tame segments)
    (nested : (skeleton segments).foldlM nest? 0 = some 0) :
    Bracket.Divided (fun single after => Bracket.trackFrom .outside {} single = some after)
        (split block) ∧
      ∀ single ∈ split block, Stems (Segment.split single) segments := by
  obtain ⟨piece, pieces, cut⟩ := List.exists_cons_of_ne_nil
    (Segment.splitFrom_ne_nil Bracket.all {} segments)
  have divided : Bracket.Divided (fun piece after => piece.foldlM Segment.track? {} = some after)
      (Segment.splitFrom Bracket.all {} segments) := by
    rw [cut]
    exact Bracket.divided_of_splitFrom tame.quiet rfl nested cut
  have inside {piece : List Segment} (member : piece ∈ Segment.splitFrom Bracket.all {} segments) :
      Lexed piece ∧ piece ⊆ segments := by
    have isInfix := Segment.infix_of_mem_splitFrom member
    exact ⟨lexed.of_infix isInfix, isInfix.subset⟩
  rw [split, inner, Bracket.splitTopLevel, Segment.splitFrom_spell lexed tame.quiet, List.map_map]
  constructor
  · apply Bracket.Divided.filter
    apply divided.forall₂
    rw [List.forall₂_map_right_iff, List.forall₂_same]
    intro piece member after tracked
    obtain ⟨lexedPiece, subset⟩ := inside member
    rw [Function.comp, Bracket.trackFrom_trim,
      Segment.trackFrom_spell lexedPiece (tame.of_subset subset).quiet, tracked]
  · intro single member
    obtain ⟨piece, isPiece, rfl⟩ := List.mem_map.1 (List.mem_of_mem_filter member)
    obtain ⟨lexedPiece, subset⟩ := inside isPiece
    have read := Segment.split_spell lexedPiece
    have stems := @Segment.stems_split_trim (spell piece) fun segment within =>
      (tame.of_subset subset).closed segment (read ▸ within)
    rw [read] at stems
    exact stems.trans (Stems.of_subset subset)

theorem trim_ne_nil_of_mem_split {block single : Text} (member : single ∈ split block) :
    single.trim ≠ [] := by
  obtain ⟨isPiece, filled⟩ := List.mem_filter.1 member
  obtain ⟨piece, -, rfl⟩ := List.mem_map.1 isPiece
  rw [Text.trim_trim]
  simpa using filled

/-- The attributes of a block as they are printed: they pass the scanners, and each of them is
formatted to itself. -/
theorem exists_attributes {block : Text} (opens : block.head? = some '[')
    (whole : Bracket.cutBlock block = (block, [])) (noMark : Mask.mark ∉ block)
    (tame : Tame (Segment.split block))
    (ends : 2 ≤ Bracket.openDepth block →
      ∀ last ∈ (Segment.split block).getLast?, last.close.isInline)
    {style : Style} {level : Int} {lines : List Text}
    (formatted : formatBlock style level block = .ok lines) :
    ∃ attributes, lines = arrange style level attributes ∧
      Bracket.Divided (Passes {}) attributes ∧
      ∀ result ∈ attributes, result.trim ≠ [] ∧ format result.trim = .ok result ∧
        ∃ single, Mask.mark ∉ single ∧ Stems (Segment.split single) (Segment.split block) ∧
          format single = .ok result := by
  obtain ⟨rest, rfl⟩ := List.head?_eq_some_iff.1 opens
  obtain ⟨inner, shape, closes⟩ := Bracket.cutBlock_shape rest
  rw [whole] at shape closes
  obtain ⟨segments, same, lexed, stems, nested⟩ := exists_content opens whole tame ends
  obtain ⟨divided, cut⟩ := divided_split same lexed (stems.tame tame) nested
  obtain ⟨attributes, found, arranged⟩ := bind_eq_ok_iff.1 formatted
  have clean : ∀ single ∈ split ('[' :: rest), Mask.mark ∉ single ∧ Tame (Segment.split single) :=
    fun single member => ⟨mark_not_mem_of_mem_split shape closes noMark member,
      ((cut single member).trans stems).tame tame⟩
  refine ⟨attributes, (Except.ok.inj arranged).symm, ?_, fun result member => ?_⟩
  · apply divided.forall₂
    refine ((List.forall₂_and_left _ _).2 ⟨clean, mapM_eq_ok_iff.1 found⟩).imp ?_
    rintro single result ⟨⟨noMarks, tame⟩, formatted⟩ after tracked
    exact (format_trim noMarks tame tracked formatted).1
  · obtain ⟨single, inside, formatted⟩ := exists_of_mapM_eq_ok found member
    obtain ⟨noMarks, tame⟩ := clean single inside
    obtain ⟨after, tracked⟩ := divided.exists_of_mem inside
    obtain ⟨-, stable, filled⟩ := format_trim noMarks tame tracked formatted
    exact ⟨filled (trim_ne_nil_of_mem_split inside), stable, single, noMarks,
      (cut single inside).trans stems, formatted⟩

/-- Spread attributes are cut off as a block and found again. -/
theorem cutBlock_spread {attributes : List Text} {lead last : Text} (leading : lead.all isBlank)
    (trailing : last.all isBlank) (divided : Bracket.Divided (Passes {}) attributes)
    (filled : ∀ single ∈ attributes, single.trim ≠ []) :
    (∀ after, Bracket.cutBlock ('[' :: spread lead last attributes ++ [']'] ++ after) =
        ('[' :: spread lead last attributes ++ [']'], after)) ∧
      Bracket.openDepth ('[' :: spread lead last attributes ++ [']']) = 0 ∧
      split ('[' :: spread lead last attributes ++ [']']) = attributes.map Text.trim := by
  have closes (after : Text) :
      Bracket.cutBlock ('[' :: spread lead last attributes ++ [']'] ++ after) =
        ('[' :: spread lead last attributes ++ [']'], after) := by
    have cut := cutClosed_spread leading trailing divided after
    rw [List.append_assoc, List.singleton_append, List.cons_append, Bracket.cutBlock_cons, cut]
    rfl
  have closed : Bracket.openDepth ('[' :: spread lead last attributes ++ [']']) = 0 := by
    have followed := closes [']']
    rw [List.append_assoc, List.cons_append] at followed
    have cut := Bracket.openDepth_cutBlock (by rw [followed]; simp)
    rwa [followed] at cut
  refine ⟨closes, closed, ?_⟩
  have inside : content ('[' :: spread lead last attributes ++ [']']) =
      spread lead last attributes := by
    rw [content, closed]
    simp
  rw [split, inside]
  exact splitTopLevel_spread leading trailing divided filled

/-- A rendered block is one closed block, and rendering it again gives the same lines. This holds
of every block that is cut off whole, be it closed or not, as long as no comment begins in it.
Blocks of up to a quarter of `10 ^ 4300` characters are always rendered. -/
theorem formatBlock_rendered {block : Text} (opens : block.head? = some '[')
    (whole : Bracket.cutBlock block = (block, [])) (noMark : Mask.mark ∉ block)
    (bare : Bare (Segment.split block)) (style : Style) (level : Int) :
    (∀ lines, formatBlock style level block = .ok lines →
        ∃ rendered, Text.joinLines lines = style.indent level ++ rendered ∧
          Bracket.openDepth rendered = 0 ∧
          (∀ after, Bracket.cutBlock (rendered ++ after) = (rendered, after)) ∧
          formatBlock style level rendered = .ok lines) ∧
      (4 * block.length ≤ 10 ^ Numeral.digitLimit →
        ∃ lines, formatBlock style level block = .ok lines) := by
  refine ⟨fun lines formatted => ?_, fun short => ?_⟩
  · obtain ⟨attributes, rfl, passes, again⟩ := exists_attributes opens whole noMark bare.tame
      (fun _ last isLast => bare.isInline_close (List.mem_of_getLast? isLast)) formatted
    obtain ⟨lead, last, leading, trailing, joined⟩ := exists_spread style level attributes
    obtain ⟨closes, closed, parts⟩ := cutBlock_spread leading trailing passes fun single member =>
      (again single member).1
    refine ⟨'[' :: spread lead last attributes ++ [']'], joined, closed, closes, ?_⟩
    have restored : (attributes.map Text.trim).mapM format = .ok attributes := by
      rw [mapM_eq_ok_iff, List.forall₂_map_left_iff, List.forall₂_same]
      exact fun result member => (again result member).2.1
    rw [formatBlock, parts, restored]
    rfl
  · obtain ⟨rest, rfl⟩ := List.head?_eq_some_iff.1 opens
    obtain ⟨inner, shape, closes⟩ := Bracket.cutBlock_shape rest
    rw [whole] at shape closes
    obtain ⟨lines, found, -⟩ :=
      (formatBlock_settles shape closes noMark style level).exists_ok short
    exact ⟨lines, found⟩

/-- A block that lacks three brackets, with an open literal and an attribute without text. -/
theorem formatBlock_rendered_open :
    Bracket.cutBlock "[id( 1,2 ),\"x\n, ,in[(,y[0".toList =
        ("[id( 1,2 ),\"x\n, ,in[(,y[0".toList, []) ∧
      Mask.mark ∉ "[id( 1,2 ),\"x\n, ,in[(,y[0".toList ∧
      Bare (Segment.split "[id( 1,2 ),\"x\n, ,in[(,y[0".toList) ∧
      ∃ lines,
        formatBlock { indentWidth := 2, inlineLimit := 5 } 1
            "[id( 1,2 ),\"x\n, ,in[(,y[0".toList = .ok lines ∧
          Text.joinLines lines =
            "  ".toList ++ "[\n    id(1, 2),\n    \"x\",\n    in[(, y[0]]\n  ]".toList ∧
          Bracket.openDepth "[\n    id(1, 2),\n    \"x\",\n    in[(, y[0]]\n  ]".toList = 0 ∧
          (∀ after, Bracket.cutBlock
              ("[\n    id(1, 2),\n    \"x\",\n    in[(, y[0]]\n  ]".toList ++ after) =
            ("[\n    id(1, 2),\n    \"x\",\n    in[(, y[0]]\n  ]".toList, after)) ∧
          formatBlock { indentWidth := 2, inlineLimit := 5 } 1
            "[\n    id(1, 2),\n    \"x\",\n    in[(, y[0]]\n  ]".toList = .ok lines := by
  have whole : Bracket.cutBlock "[id( 1,2 ),\"x\n, ,in[(,y[0".toList =
      ("[id( 1,2 ),\"x\n, ,in[(,y[0".toList, []) := by
    decide +kernel
  have noMark : Mask.mark ∉ "[id( 1,2 ),\"x\n, ,in[(,y[0".toList := by decide
  have bare : Bare (Segment.split "[id( 1,2 ),\"x\n, ,in[(,y[0".toList) := by decide +kernel
  have found : formatBlock { indentWidth := 2, inlineLimit := 5 } 1
      "[id( 1,2 ),\"x\n, ,in[(,y[0".toList =
        .ok (["  [", "    id(1, 2),", "    \"x\",", "    in[(, y[0]]", "  ]"].map
          String.toList) := by
    decide +kernel
  obtain ⟨rendered, joined, closed, closes, again⟩ :=
    (formatBlock_rendered (by decide) whole noMark bare _ 1).1 _ found
  have explicit : Text.joinLines
      (["  [", "    id(1, 2),", "    \"x\",", "    in[(, y[0]]", "  ]"].map String.toList) =
        Style.indent { indentWidth := 2, inlineLimit := 5 } 1 ++
          "[\n    id(1, 2),\n    \"x\",\n    in[(, y[0]]\n  ]".toList := by
    decide
  obtain rfl := List.append_cancel_left (explicit.symm.trans joined)
  exact ⟨whole, noMark, bare, _, found, explicit, closed, closes, again⟩

end Attribute

end IdlFormat
