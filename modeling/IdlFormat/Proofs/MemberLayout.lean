import IdlFormat.Proofs.EnumList
import IdlFormat.Proofs.Tidying

/-!
# Lists of members that return

A respaced list is cut at the commas that no parenthesis and no angle bracket encloses. Its members
are printed one to a line, and the printed list is respaced and cut into the same members
(`EnumMember.lays`).
-/

namespace IdlFormat

namespace EnumMember

open Bead (all_isBlank_trail trail)
open IdlFormat.Bracket (Balance)
open CodeUnit (Nesting)
open Segment (Plain isIdle all_isIdle_of_isBlank)
open Statement (IsSpaced tidy)

/-- No literal and no comment of a list is cut. -/
abbrev Uncut (text : Text) : Prop :=
  Segment.UncutFrom [.round, .angle] {} (Segment.split text)

variable {segments part rest : List Segment} {text left right gap : Text} {keep : Bool}

/-- Segments are a single piece, or there is a first cut. -/
theorem first_cut {state : Bracket.State}
    (uncut : Segment.UncutFrom [.round, .angle] state segments) :
    state.Whole (· = ',') [.round, .angle] (Segment.spell segments) ∨
      ∃ part rest, segments = part ++ .code ',' :: rest ∧
        state.Whole (· = ',') [.round, .angle] (Segment.spell part) ∧
        state.after [.round, .angle] (Segment.spell part) = {} ∧
        Segment.UncutFrom [.round, .angle] {} rest := by
  induction segments generalizing state with
  | nil => exact .inl nofun
  | cons segment segments ih =>
      by_cases cuts : segment = .code ',' ∧ state.Cuts (· = ',') [.round, .angle] ','
      · obtain ⟨rfl, cuts⟩ := cuts
        have later := uncut.tail
        rw [Segment.text, Bracket.State.after, List.foldl_cons, Bracket.State.next_of_cuts cuts]
          at later
        exact .inr ⟨[], segments, rfl, nofun, Bracket.State.eq_of_cuts (by decide) cuts, later⟩
      · have own := uncut.whole cuts
        rcases ih uncut.tail with whole | ⟨part, rest, rfl, whole, returns, later⟩
        · exact .inl (own.append whole)
        · refine .inr ⟨segment :: part, rest, rfl, own.append whole, ?_, later⟩
          rw [Segment.spell_cons, Bracket.State.after_append, returns]

/-- A blank, a comma or a semicolon leads back to the first state from nowhere else. -/
theorem stateAfter_of_concat {c : Char} (member : c ∈ [' ', ',', ';'])
    (returns : stateAfter (text ++ [c]) = {}) : stateAfter text = {} := by
  obtain ⟨unquoted, inLine, other⟩ : isQuote c = false ∧ c ≠ '\n' ∧
      Bracket.change? [.round, .angle] c = none := by
    simp only [List.mem_cons, List.not_mem_nil, or_false] at member
    rcases member with rfl | rfl | rfl <;> decide
  exact Bracket.State.after_eq_of_concat unquoted inLine other returns

theorem stateAfter_of_append_trail {before : Bool}
    (returns : stateAfter (text ++ trail before) = {}) : stateAfter text = {} := by
  cases before with
  | false => simpa [trail] using returns
  | true => exact stateAfter_of_concat (by simp) returns

/-! ## Pieces -/

theorem ofPieces_congr {piece other : Text} (same : piece.trim = other.trim) (keep : Bool)
    (pieces : List Text) : ofPieces keep (piece :: pieces) = ofPieces keep (other :: pieces) := by
  cases pieces with
  | nil => simp only [ofPieces, same]
  | cons next pieces =>
      have filled : next :: pieces ≠ [] := List.cons_ne_nil next pieces
      rw [ofPieces_cons filled, ofPieces_cons filled, same]

/-- Blanks in front of a list do not count. -/
theorem split_blank_append (blank : gap.all isBlank) (text : Text) (keep : Bool) :
    split keep (gap ++ text) = split keep text := by
  have isPiece := isPiece_of_isBlank blank
  obtain ⟨first, others, same, -⟩ := Bracket.exists_splitTopLevel_eq (· = ',') [.round, .angle] text
  have parts := isPiece.whole.split_append text
  rw [isPiece.returns] at parts
  have whole : Bracket.splitTopLevel (· = ',') [.round, .angle] (gap ++ text) =
      (gap ++ first) :: others := by
    refine parts.trans ?_
    show gap.foldr Bracket.consFirst (Bracket.splitTopLevel (· = ',') [.round, .angle] text) = _
    rw [same, Bracket.foldr_consFirst_cons]
  rw [split, whole, split, same]
  exact ofPieces_congr (Text.trim_append blank first) keep others

/-- A tidy list is one piece, or a tidy piece and a tidy list around a comma that cuts it. -/
theorem cases_of_isSpaced (isSpaced : IsSpaced text) (uncut : Uncut text) :
    ({} : Bracket.State).Whole (· = ',') [.round, .angle] text ∨
      ∃ left right before behind, text = left ++ (trail before ++ ',' :: (trail behind ++ right)) ∧
        IsSpaced left ∧ IsSpaced right ∧ IsPiece left ∧ Uncut right := by
  have spelled := Segment.spell_split text
  rcases first_cut uncut with whole | ⟨part, rest, parts, whole, returns, later⟩
  · rw [spelled] at whole
    exact .inl whole
  · obtain ⟨left, right, before, behind, same, first, second, rfl, rfl⟩ :=
      isSpaced.exists_of_split (by decide) parts
    rw [Segment.spell_append, Segment.spell_split, Segment.spell_map_code] at whole returns
    refine .inr ⟨left, right, before, behind, same, first, second,
      ⟨whole.of_append.1, stateAfter_of_append_trail returns⟩, ?_⟩
    cases behind with
    | false => exact later
    | true => exact later

/-- Whether a segment stays as it is when a list is laid out: only blanks and commas do not. -/
def isCore : Segment → Bool
  | .code c => !isBlank c && c ≠ ','
  | _ => true

theorem exists_of_not_isCore {segment : Segment} (dropped : ¬ isCore segment) :
    ∃ c, segment = .code c ∧ (isBlank c ∨ c = ',') := by
  cases segment with
  | code c => exact ⟨c, rfl, by simpa [isCore, or_iff_not_imp_left] using dropped⟩
  | literal text repair => exact absurd rfl dropped
  | comment form text => exact absurd rfl dropped

/-- Segments without the blanks and the commas of their code. -/
def core (segments : List Segment) : List Segment :=
  segments.filter isCore

theorem core_cons (segment : Segment) (segments : List Segment) :
    core (segment :: segments) = (if isCore segment then [segment] else []) ++ core segments := by
  rw [core, core, List.filter_cons]
  split <;> rfl

theorem core_append (left right : List Segment) : core (left ++ right) = core left ++ core right :=
  List.filter_append ..

theorem core_map_code (blank : gap.all isBlank) : core (gap.map .code) = [] := by
  rw [core, List.filter_eq_nil_iff]
  intro segment member
  obtain ⟨c, inside, rfl⟩ := List.mem_map.1 member
  simp [isCore, List.all_eq_true.1 blank c inside]

theorem quietFrom_core {depth : Nat} :
    Segment.QuietFrom depth (core segments) ↔ Segment.QuietFrom depth segments := by
  induction segments generalizing depth with
  | nil => exact Iff.rfl
  | cons segment rest ih =>
      by_cases stays : isCore segment
      · rw [core_cons, if_pos stays]
        cases segment with
        | code c => exact ih
        | literal text repair => exact ih
        | comment form text => exact and_congr_right fun _ => ih
      · obtain ⟨c, rfl, dropped⟩ := exists_of_not_isCore stays
        have notOpen : c ≠ '[' := by
          rintro rfl
          revert dropped
          decide
        have notClose : c ≠ ']' := by
          rintro rfl
          revert dropped
          decide
        have flat : (depth + (Segment.code c).square).toNat = depth := by
          simp [Segment.square, Bracket.step, notOpen, notClose]
        rw [core_cons, if_neg stays, List.nil_append, ih]
        show Segment.QuietFrom depth rest ↔ Segment.QuietFrom _ rest
        rw [flat]

theorem passes?_core (nesting : Nesting) (segments : List Segment) :
    nesting.passes? (core segments) = nesting.passes? segments := by
  rw [Nesting.passes?, core, List.foldlM_filter]
  refine congrArg (List.foldlM · _ segments) ?_
  funext before segment
  split
  · rfl
  · next dropped =>
      obtain ⟨c, rfl, blank | rfl⟩ := exists_of_not_isCore dropped
      · exact (Nesting.step?_of_isBlank blank before).symm
      · exact (Nesting.step?_of_other (by decide) before).symm

theorem hidden_core (segments : List Segment) :
    Segment.hidden (core segments) = Segment.hidden segments := by
  rw [Segment.hidden, core, List.filterMap_filter]
  refine congrArg (List.filterMap · segments) ?_
  funext segment
  split
  · rfl
  · next dropped =>
      obtain ⟨c, rfl, -⟩ := exists_of_not_isCore dropped
      rfl

theorem code_mem_core {c : Char} (solid : isBlank c = false) (other : c ≠ ',') :
    .code c ∈ core segments ↔ .code c ∈ segments := by
  simp [core, isCore, solid, other]

theorem core_weave_compact (hidden : List Segment) (text : Text) :
    core (Segment.weave hidden text.compact) = core (Segment.weave hidden text) := by
  induction text generalizing hidden with
  | nil => rfl
  | cons c rest ih =>
      rw [Text.compact_cons]
      split
      · next blank =>
          have shown : c ≠ Mask.mark := ne_of_isBlank blank (by decide)
          have dropped : isCore (.code c) = false := by simp [isCore, blank]
          rw [ih, Segment.weave, if_neg shown, core, core,
            List.filter_cons_of_neg (by simp [dropped])]
      · rw [Segment.weave, Segment.weave]
        split <;> rw [core_cons, core_cons, ih]

/-- Respacing changes no more than the form of the literals. -/
theorem core_split_normalize (noMark : Mask.mark ∉ text) {result : Text}
    (normalized : Statement.normalize text = .ok result) :
    core (Segment.split result) = core ((Segment.split text).map Segment.inlined) := by
  rw [Statement.respacing.split_unmask noMark normalized, ← core_weave_compact,
    Statement.compact_respace, core_weave_compact,
    Segment.weave_skeleton fun _ => Mask.code_ne_mark noMark]

theorem all_isIdle_comma (blank : gap.all isBlank) : List.all (',' :: gap) isIdle := by
  rw [List.all_cons, all_isIdle_of_isBlank blank]
  rfl

/-- The segments of a list around a comma, blanks apart. -/
theorem core_split_append_comma (plain : Plain left) (blank : gap.all isBlank) (right : Text) :
    core (Segment.split (left ++ ',' :: (gap ++ right))) =
      core (Segment.split left) ++ core (Segment.split right) := by
  have parts := plain.split_append (all_isIdle_comma blank) (by simp) right
  have comma : core (List.map Segment.code (',' :: gap)) = [] := by
    rw [List.map_cons, core_cons, core_map_code blank]
    rfl
  rw [← List.cons_append, parts, core_append, core_append, comma, List.nil_append]

/-- The first member of a tidy list stands in front of its first cut. -/
theorem split_cut (isSpaced : IsSpaced left) (isPiece : IsPiece left) (before behind : Bool)
    (keep : Bool) (right : Text) :
    split keep (left ++ (trail before ++ ',' :: (trail behind ++ right))) =
      (if left.isEmpty then [] else [left ++ [',']]) ++ split keep right := by
  have led := isPiece.append (isPiece_of_isBlank (all_isBlank_trail before))
  rw [← List.append_assoc, split_append_comma led, isSpaced.trim_append_trail before,
    split_blank_append (all_isBlank_trail behind)]

theorem core_cut (plain : Plain left) (before behind : Bool) (right : Text) :
    core (Segment.split (left ++ (trail before ++ ',' :: (trail behind ++ right)))) =
      core (Segment.split left) ++ core (Segment.split right) := by
  have blank := all_isBlank_trail before
  rw [← List.append_assoc, core_split_append_comma
      (plain.append_idle (all_isIdle_of_isBlank blank)) (all_isBlank_trail behind),
    plain.split_append_idle (all_isIdle_of_isBlank blank), core_append, core_map_code blank,
    List.append_nil]

/-- The brackets are counted anew behind a cut. -/
theorem stateAfter_cut (isPiece : IsPiece left) (before behind : Bool) (right : Text) :
    stateAfter (left ++ (trail before ++ ',' :: (trail behind ++ right))) = stateAfter right := by
  have gap (blank : Bool) : ({} : Bracket.State).after [.round, .angle] (trail blank) = {} :=
    (isPiece_of_isBlank (all_isBlank_trail blank)).returns
  have comma : ({} : Bracket.State).after [.round, .angle] [','] = {} := by decide
  have spread : ',' :: (trail behind ++ right) = [','] ++ (trail behind ++ right) := rfl
  simp only [stateAfter]
  rw [spread, Bracket.State.after_append, isPiece.returns, Bracket.State.after_append, gap,
    Bracket.State.after_append, comma, Bracket.State.after_append, gap]

theorem getLast?_cut (left right : Text) (before behind : Bool) :
    (left ++ (trail before ++ ',' :: (trail behind ++ right))).getLast? = some ';' ↔
      right.getLast? = some ';' := by
  rcases List.eq_nil_or_concat right with rfl | ⟨init, c, rfl⟩
  · cases behind <;> simp [trail]
  · have whole : left ++ (trail before ++ ',' :: (trail behind ++ (init ++ [c]))) =
        left ++ (trail before ++ ',' :: (trail behind ++ init)) ++ [c] := by simp
    rw [List.concat_eq_append, whole, List.getLast?_concat, List.getLast?_concat]

theorem leadingWord_append (word : Text) {c : Char} (noWord : isWordChar c = false) (more : Text) :
    Text.leadingWord (word ++ c :: more) = word.leadingWord := by
  induction word with
  | nil => simp [Text.leadingWord, noWord]
  | cons d word ih =>
      rw [Text.leadingWord] at ih
      rw [Text.leadingWord, Text.leadingWord, List.cons_append, List.takeWhile_cons,
        List.takeWhile_cons, ih]
      rfl

theorem leadingWord_append_trail (word : Text) (blank : Bool) (more : Text) :
    Text.leadingWord (word ++ (trail blank ++ ',' :: more)) = word.leadingWord := by
  cases blank with
  | false => exact leadingWord_append word (by decide) more
  | true => exact leadingWord_append word (by decide) (',' :: more)

/-- A printed list is respaced and cut into the members that were printed. -/
structure Lays (keep : Bool) (lead list : Text) : Prop where
  /-- It is plain. -/
  plain : Plain (Text.join lead (split keep list))
  /-- Its members are found again. -/
  again : split keep (tidy (Text.join lead (split keep list))) = split keep list
  /-- It has the code and the literals of the list. -/
  core : core (Segment.split (Text.join lead (split keep list))) =
    EnumMember.core (Segment.split list)
  /-- Its members neither start nor end with a blank, and they are clean if the list is. -/
  lines : ∀ member ∈ split keep list,
    Mask.Solid member ∧ (Clean.cleaned list = list → Clean.cleaned member = member)
  /-- It starts with the word that its first member starts with. -/
  word : ∀ member ∈ (split keep list).head?,
    (tidy (Text.join lead (split keep list))).leadingWord = member.leadingWord
  /-- A semicolon stays at the end. -/
  ends : list.getLast? = some ';' → (Text.join lead (split keep list)).getLast? = some ';'

/-- A tidy list of one piece is its only member. -/
theorem split_single (isSpaced : IsSpaced text) (isPiece : IsPiece text)
    (kept : text.getLast? = some ';' → keep) :
    split keep text = if text.isEmpty then [] else [text] := by
  have noComma : text.getLast? ≠ some ',' := by
    intro ends
    obtain ⟨init, rfl⟩ := List.getLast?_eq_some_iff.1 ends
    have start := stateAfter_of_concat (by simp) isPiece.returns
    have last := isPiece.whole.of_append.2
    rw [stateAfter] at start
    rw [start, Bracket.State.whole_cons_iff] at last
    exact last.1 cuts_comma
  have terminated :
      (if keep && text.getLast? = some ';' then text else dropTerminator text) = text := by
    by_cases semicolon : text.getLast? = some ';'
    · simp [kept semicolon, semicolon]
    · rw [if_neg (by simp [semicolon]), dropTerminator]
      split
      · next c ends =>
          rw [ends, Option.some.injEq] at semicolon
          rw [ends, ne_eq, Option.some.injEq] at noComma
          simp [noComma, semicolon]
      · rfl
  rw [split_of_isPiece isPiece, ofPieces]
  simp only [isSpaced.trim_eq, terminated]

/-- A semicolon that is dropped leaves the members of a tidy list alone. -/
theorem split_append_semicolon (isSpaced : IsSpaced text) (uncut : Uncut text)
    (returns : stateAfter text = {}) (noSemicolon : text.getLast? ≠ some ';') (blank : Bool) :
    split false (text ++ (trail blank ++ [';'])) = split false text := by
  -- by induction on the length, like the cuts of the list
  induction size : text.length using Nat.strong_induction_on generalizing text with
  | h size ih =>
    rcases cases_of_isSpaced isSpaced uncut with whole |
      ⟨left, right, before, behind, rfl, spacedLeft, spacedRight, isPiece, uncutRight⟩
    · have isPiece : IsPiece text := ⟨whole, returns⟩
      have led := isPiece.append (isPiece_of_isBlank (all_isBlank_trail blank))
      have nothing : List.all [] isBlank := rfl
      rw [← List.append_assoc, split_semicolon nothing led, isSpaced.trim_append_trail,
        split_single isSpaced isPiece (absurd · noSemicolon)]
    · have rest := ih right.length (by rw [← size]; simp; omega) spacedRight uncutRight
        (by rwa [← stateAfter_cut isPiece before behind])
        (fun ends => noSemicolon ((getLast?_cut left right before behind).2 ends)) rfl
      rw [split_cut spacedLeft isPiece, ← rest, ← split_cut spacedLeft isPiece before behind]
      simp

/-- The first member of a list in front of the others. -/
theorem exists_join_cons (blank : gap.all isBlank) (member : Text) (members : List Text) :
    ∃ lead, lead.all isBlank ∧
      Text.join gap ((member ++ [',']) :: members) =
        member ++ ',' :: (lead ++ Text.join gap members) := by
  cases members with
  | nil => exact ⟨[], rfl, by simp [Text.join]⟩
  | cons next members => exact ⟨gap, blank, by simp [Text.join]⟩

/-- A tidy text at the start of a clean one is clean. -/
theorem cleaned_of_append (isSpaced : IsSpaced left)
    (whole : Clean.cleaned (left ++ right) = left ++ right) : Clean.cleaned left = left := by
  by_cases filled : left = []
  · rw [filled]
    rfl
  · obtain ⟨-, front, c, rfl, solid⟩ := isSpaced.solid filled
    rw [List.append_assoc, List.singleton_append] at whole
    exact (Clean.cleaned_parts solid whole).1

/-- The two sides of a cut of a clean list are clean. -/
theorem cleaned_cut (spacedLeft : IsSpaced left) (spacedRight : IsSpaced right)
    {before behind : Bool}
    (whole : Clean.cleaned (left ++ (trail before ++ ',' :: (trail behind ++ right))) =
      left ++ (trail before ++ ',' :: (trail behind ++ right))) :
    Clean.cleaned left = left ∧ Clean.cleaned right = right := by
  constructor
  · exact cleaned_of_append spacedLeft whole
  · by_cases filled : right = []
    · rw [filled]
      rfl
    · obtain ⟨⟨c, rest, rfl, solid⟩, -⟩ := spacedRight.solid filled
      rw [← List.append_assoc] at whole
      have behind := (Clean.cleaned_parts (by decide) whole).2
      rw [Clean.cleaned_cons_solid solid, (Clean.cleaned_parts solid behind).2]

namespace Lays

variable {lead list : Text}

theorem nil (isSpaced : IsSpaced []) (none : split keep [] = []) : Lays keep lead [] := by
  refine ⟨?_, ?_, ?_, ?_, ?_, ?_⟩ <;> rw [none]
  · exact .nil
  · rw [Text.join, isSpaced.stable, none]
  · rfl
  · simp
  · simp
  · simp

/-- A list that is its only member is printed as it stands. -/
theorem single (isSpaced : IsSpaced list) (filled : list ≠ []) (single : split keep list = [list]) :
    Lays keep lead list := by
  refine ⟨?_, ?_, ?_, ?_, ?_, ?_⟩ <;> rw [single]
  · exact isSpaced.plain
  · rw [Text.join, isSpaced.stable, single]
  · rfl
  · intro member inside
    obtain rfl := List.mem_singleton.1 inside
    exact ⟨isSpaced.solid filled, id⟩
  · intro member first
    obtain rfl := Option.some.inj first
    rw [Text.join, isSpaced.stable]
  · exact id

/-- A comma in front of a list is dropped. -/
theorem skip (isSpaced : IsSpaced []) (spaced : IsSpaced right) (rest : Lays keep lead right)
    {before behind : Bool}
    (cut : split keep ([] ++ (trail before ++ ',' :: (trail behind ++ right))) = split keep right) :
    Lays keep lead ([] ++ (trail before ++ ',' :: (trail behind ++ right))) := by
  refine ⟨?_, ?_, ?_, ?_, ?_, ?_⟩ <;> rw [cut]
  · exact rest.plain
  · exact rest.again
  · rw [rest.core, core_cut .nil, Segment.split_nil]
    rfl
  · intro member inside
    obtain ⟨solid, clean⟩ := rest.lines member inside
    exact ⟨solid, fun whole => clean (cleaned_cut isSpaced spaced whole).2⟩
  · exact rest.word
  · exact rest.ends ∘ (getLast?_cut [] right before behind).1

/-- A member is printed with its comma in front of the others. -/
theorem cons (blank : lead.all isBlank) (isSpaced : IsSpaced left) (filled : left.isEmpty = false)
    (isPiece : IsPiece left) (spaced : IsSpaced right)
    (rest : Lays keep lead right) {before behind : Bool}
    (cut : split keep (left ++ (trail before ++ ',' :: (trail behind ++ right))) =
      (left ++ [',']) :: split keep right) :
    Lays keep lead (left ++ (trail before ++ ',' :: (trail behind ++ right))) := by
  obtain ⟨gap, gapBlank, joined⟩ := exists_join_cons blank left (split keep right)
  obtain ⟨first, second, tidied⟩ := Statement.tidy_append_separator
    (by decide : Statement.isSeparator ',') isSpaced.plain
    (gap ++ Text.join lead (split keep right))
  rw [Statement.tidy_blank_append gapBlank, isSpaced.stable, List.append_assoc] at tidied
  refine ⟨?_, ?_, ?_, ?_, ?_, ?_⟩ <;> rw [cut]
  · rw [joined]
    exact isSpaced.plain.append (all_isIdle_comma gapBlank) (by simp) rest.plain
  · rw [joined, tidied, split_cut isSpaced isPiece, filled, if_neg (by simp), rest.again,
      List.singleton_append]
  · rw [joined, core_split_append_comma isSpaced.plain gapBlank, rest.core, core_cut isSpaced.plain]
  · intro member inside
    rcases List.mem_cons.1 inside with rfl | later
    · obtain ⟨⟨c, tail, start, solid⟩, front, d, ends, solidLast⟩ :=
        isSpaced.solid (by rintro rfl; cases filled)
      refine ⟨⟨⟨c, tail ++ [','], by rw [start]; rfl, solid⟩, left, ',', rfl, by decide⟩,
        fun whole => ?_⟩
      have clean := (cleaned_cut isSpaced spaced whole).1
      have parts := Clean.cleaned_append_cons front solidLast [',']
      rw [← List.singleton_append, ← List.append_assoc, ← ends, clean] at parts
      exact parts
    · obtain ⟨solid, clean⟩ := rest.lines member later
      exact ⟨solid, fun whole => clean (cleaned_cut isSpaced spaced whole).2⟩
  · intro member leads
    obtain rfl := Option.some.inj leads
    have own := leadingWord_append_trail left false []
    rw [joined, tidied, leadingWord_append_trail]
    exact own.symm
  · intro ends
    have endsRight := rest.ends ((getLast?_cut left right before behind).1 ends)
    obtain ⟨init, same⟩ := List.getLast?_eq_some_iff.1 endsRight
    have whole : left ++ ',' :: (gap ++ (init ++ [';'])) =
        left ++ ',' :: (gap ++ init) ++ [';'] := by simp
    rw [joined, same, whole, List.getLast?_concat]

end Lays

/-- A tidy list whose brackets are balanced is laid out so that its members are found again. -/
theorem lays {lead list : Text} (blank : lead.all isBlank) (isSpaced : IsSpaced list)
    (uncut : Uncut list) (returns : stateAfter list = {}) (kept : list.getLast? = some ';' → keep) :
    Lays keep lead list := by
  -- by induction on the length, as what stands behind a cut is respaced on its own
  induction size : list.length using Nat.strong_induction_on generalizing list with
  | h size ih =>
    rcases cases_of_isSpaced isSpaced uncut with whole |
      ⟨left, right, before, behind, rfl, spacedLeft, spacedRight, isPiece, uncutRight⟩
    · have single := split_single isSpaced ⟨whole, returns⟩ kept
      cases list with
      | nil => exact .nil isSpaced single
      | cons c rest => exact .single isSpaced (List.cons_ne_nil c rest) single
    · have cut := split_cut spacedLeft isPiece before behind keep right
      have rest : Lays keep lead right := by
        refine ih right.length ?_ spacedRight uncutRight ?_
          (kept ∘ (getLast?_cut left right before behind).2) rfl
        · rw [← size]
          simp only [List.length_append, List.length_cons]
          omega
        · rwa [← stateAfter_cut isPiece before behind]
      cases left with
      | nil => exact rest.skip spacedLeft spacedRight cut
      | cons c left => exact rest.cons blank spacedLeft rfl isPiece spacedRight cut

end EnumMember

end IdlFormat
