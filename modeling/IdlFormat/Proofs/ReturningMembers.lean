import IdlFormat.Proofs.MemberLayout
import Mathlib.Tactic.MkIffOfInductiveProp

/-!
# Units that hold a list

A unit of an enum is printed one member to a line. The printed list and the unit may differ in a
semicolon at the end, so what is read again is the list that the members stand for
(`EnumMember.Listed`), which an orderly unit has (`EnumMember.Orderly.exists_listed`).
-/

namespace IdlFormat

namespace EnumMember

open CodeUnit (Nesting)
open Statement (IsSpaced tidy)

/-- The lines of members are what a list joined by line breaks comes to. -/
theorem comesTo_members {indent : Text} (inLine : '\n' ∉ indent) {members : List Text}
    (filled : members ≠ [])
    (fitting : ∀ member ∈ members, Mask.Solid member ∧ Clean.cleaned member = member) :
    Clean.ComesTo (members.map (indent ++ ·)) (indent ++ Text.join ('\n' :: indent) members) ∧
      Text.trimEnd (Text.join ('\n' :: indent) members) = Text.join ('\n' :: indent) members := by
  induction members with
  | nil => exact absurd rfl filled
  | cons member members ih =>
      obtain ⟨⟨⟨c, tail, begins, solid⟩, front, d, ends, solidLast⟩, clean⟩ :=
        fitting member List.mem_cons_self
      have kept : Text.trimEnd member = member := by
        rw [ends, Segment.trimEnd_concat, if_neg (by simp [solidLast])]
      have line : Clean.ComesTo [indent ++ member] (indent ++ member) := by
        have comes := Clean.comesTo_cleaned_line inLine (by rw [clean, begins]; rfl)
          (ne_break_of_isBlank solid) (by rw [ends, List.getLast?_concat]) solidLast
        rwa [clean] at comes
      cases members with
      | nil => exact ⟨line, kept⟩
      | cons next members =>
          obtain ⟨others, keptOthers⟩ :=
            ih (List.cons_ne_nil next members) fun own inside =>
              fitting own (List.mem_cons_of_mem _ inside)
          have spread : Text.join ('\n' :: indent) (member :: next :: members) =
              (member ++ '\n' :: indent) ++ Text.join ('\n' :: indent) (next :: members) := by
            rw [Text.join]
            simp
          rw [spread]
          constructor
          · have both := line.cons others
            simpa using both
          · rw [Text.trimEnd_append, keptOthers]
            rw [keptOthers]
            obtain ⟨⟨⟨e, more, same, -⟩, -⟩, -⟩ := fitting next (by simp)
            rw [Text.join_cons, same]
            simp

theorem rowLines_members (style : Style) (level : Nat) (members : List Text) :
    Layout.rowLines style level (members.map fun member => { kind := .statement, text := member }) =
      .ok (members.map (style.indent level ++ ·)) := by
  induction members with
  | nil => rfl
  | cons member members ih =>
      rw [List.map_cons, Layout.rowLines, ih]
      rfl

/-- Units that can be cut into members and laid out without a change to what the members are. -/
@[mk_iff]
structure Orderly (keep : Bool) (unit : Text) : Prop where
  /-- No literal and no comment is cut. -/
  uncut : Uncut (tidy unit)
  /-- As many parentheses and angle brackets are opened as are closed, also those in comments. -/
  balanced : stateAfter (tidy unit) = {}
  /-- No bracket is open at the end of the text. -/
  closed : ∀ after ∈ Nesting.passes? {} (Segment.split unit), after = {}
  /-- No member starts a directive. -/
  noHash : .code '#' ∉ Segment.split unit
  /-- The first member starts a unit that is no declaration. -/
  first : ∀ member ∈ (split keep (tidy unit)).head?, member.head?.any CodeUnit.starts ∧
    Comment.form? member = none ∧ ¬ Statement.isDeclaration member

instance (keep : Bool) (unit : Text) : Decidable (Orderly keep unit) :=
  decidable_of_iff' _ (orderly_iff keep unit)

end EnumMember

open CodeUnit (Closes Legible Nesting)

/-- The tokens of a unit that holds a list. -/
theorem Token.ofCodeUnit_members {closes : Bool} {unit result : Text}
    (normalized : Statement.normalize unit = .ok result)
    (notDeclares : ¬ Statement.isDeclaration result)
    (filled : EnumMember.split (!closes) result ≠ []) :
    Token.ofCodeUnit true closes unit =
      .ok ((EnumMember.split (!closes) result).map fun member =>
        { kind := .statement, text := member }) := by
  rw [Token.ofCodeUnit, normalized]
  obtain ⟨member, members, same⟩ := List.exists_cons_of_ne_nil filled
  refine (if_neg notDeclares).trans ?_
  simp only [same]
  rfl

/-- A semicolon closes no bracket. -/
theorem CodeUnit.Nesting.step?_semicolon (nesting : Nesting) : nesting.step? ';' ≠ some {} := by
  intro step
  rw [Nesting.step?] at step
  split at step
  · next deep =>
      have squares := congrArg Nesting.squares (Option.some.inj step)
      have flat : Bracket.step ';' = 0 := rfl
      rw [flat] at squares
      simp only [Int.add_zero, Int.toNat_natCast] at squares
      exact deep squares
  · next flat =>
      rw [if_neg (by decide)] at step
      split at step
      · cases step
      · next deep =>
          refine deep ⟨CodeUnit.State.isTop_iff.2 ?_, by simp⟩
          exact Option.some.inj step

/-- A respaced unit is respaced to itself. -/
theorem CodeUnit.Legible.isSpaced_result {unit result : Text} (legible : Legible unit)
    (normalized : Statement.normalize unit = .ok result) : Statement.IsSpaced result := by
  have plain : Segment.Plain result := by
    rw [Statement.tidy_eq_of_normalize legible.noMark normalized]
    exact Statement.plain_tidy legible.noMark legible.closed
  exact ⟨plain, (Statement.tidy_eq_of_normalize plain.noMark
    (Statement.respacing.unmask_again legible.noMark normalized)).symm⟩

namespace EnumMember

open Bead (all_isBlank_trail trail)
open Segment (Plain all_isIdle_of_isBlank)
open Statement (IsSpaced tidy)

variable {unit result : Text} {following : Option Span.Rule}

namespace Orderly

variable {keep : Bool} (orderly : Orderly keep unit) (legible : Legible unit)
  (normalized : Statement.normalize unit = .ok result)

include orderly legible normalized

theorem closed_result {after : Nesting}
    (passed : Nesting.passes? {} (Segment.split result) = some after) :
    after = {} := by
  rw [← passes?_core, core_split_normalize legible.noMark normalized, passes?_core,
    Segment.passes?_map_inlined] at passed
  exact orderly.closed after passed

theorem noHash_result : .code '#' ∉ Segment.split result := by
  rw [← code_mem_core (by decide) (by decide), core_split_normalize legible.noMark normalized,
    code_mem_core (by decide) (by decide)]
  intro member
  obtain ⟨source, inside, same⟩ := List.mem_map.1 member
  cases source with
  | code c =>
      obtain rfl : c = '#' := by simpa [Segment.inlined] using same
      exact orderly.noHash inside
  | literal text repair => simp [Segment.inlined] at same
  | comment form text => simp [Segment.inlined] at same

end Orderly

theorem getLast?_of_passed {text : Text} (plain : Plain text)
    (passed : Nesting.passes? {} (Segment.split text) = some {}) : text.getLast? ≠ some ';' := by
  intro ends
  obtain ⟨body, parts⟩ := plain.exists_split_concat ends (by decide) (by decide)
  rw [parts, Nesting.passes?_append] at passed
  obtain ⟨before, -, last⟩ := Option.bind_eq_some_iff.1 passed
  obtain ⟨after, step, same⟩ := Option.bind_eq_some_iff.1 last
  obtain rfl := Option.some.inj same
  exact Nesting.step?_semicolon before step

/-- A list that is laid out in the place of a respaced unit. -/
structure Listed (keep : Bool) (result list : Text) (following : Option Span.Rule) : Prop where
  /-- It is respaced to itself. -/
  isSpaced : IsSpaced list
  /-- No literal and no comment is cut. -/
  uncut : Uncut list
  /-- Its brackets are balanced. -/
  balanced : stateAfter list = {}
  /-- A semicolon at its end is kept. -/
  kept : list.getLast? = some ';' → keep
  /-- It has the members of the unit. -/
  members : split keep list = split keep result
  /-- It is clean if the unit is. -/
  clean : Clean.cleaned result = result → Clean.cleaned list = list
  /-- Its comments in square brackets are quiet. -/
  quiet : Segment.QuietFrom 0 (Segment.split list)
  /-- It has the literals and comments of the unit. -/
  hidden : Segment.hidden (Segment.split list) = Segment.hidden (Segment.split result)
  /-- It has no character that the unit lacks. -/
  source : ∀ segment ∈ Segment.split list, segment ∈ Segment.split result
  /-- It ends in front of what follows. -/
  closes : Closes (Segment.split list) following

/-- Without a semicolon that the printer drops, a list ends in front of what follows. -/
theorem Listed.drop_semicolon {body : List Segment} (listed : Listed true result result following)
    (parts : Segment.split result = body ++ [.code ';'])
    (passed : Nesting.passes? {} body = some {})
    (behind : following = none ∨ following = some .braceClose) :
    ∃ list, Listed false result list following := by
  obtain ⟨list, right, before, blank, same, spacedList, -, rfl, last⟩ :=
    listed.isSpaced.exists_of_split (by decide) parts
  obtain ⟨noBlank, noRight⟩ := List.append_eq_nil_iff.1 last.symm
  obtain rfl : right = [] := by rw [← Segment.spell_split right, noRight, Segment.spell_nil]
  rw [List.map_eq_nil_iff.1 noBlank, List.append_nil] at same
  have sameCore : core (Segment.split list ++ (trail before).map .code) =
      core (Segment.split list) := by
    rw [core_append, core_map_code (all_isBlank_trail before), List.append_nil]
  rw [← passes?_core, sameCore, passes?_core] at passed
  have noSemicolon := getLast?_of_passed spacedList.plain passed
  have uncut : Uncut list := by
    have whole := listed.uncut
    rw [Uncut, parts] at whole
    exact whole.of_append.of_append
  have balanced : stateAfter list = {} := by
    have whole := listed.balanced
    rw [same, ← List.append_assoc] at whole
    exact stateAfter_of_append_trail (stateAfter_of_concat (by simp) whole)
  refine ⟨list, spacedList, uncut, balanced, (absurd · noSemicolon), ?_, ?_, ?_, ?_, ?_, ?_⟩
  · rw [same]
    exact (split_append_semicolon spacedList uncut balanced noSemicolon before).symm
  · intro whole
    rw [same] at whole
    exact cleaned_of_append spacedList whole
  · have whole := listed.quiet
    rw [parts] at whole
    exact whole.of_append.of_append
  · rw [parts, Segment.hidden_append, Segment.hidden_append, Segment.hidden_map_code]
    simp [Segment.hidden]
  · intro segment member
    rw [parts]
    simp [member]
  · rcases behind with rfl | rfl
    · exact .ended passed
    · exact .stopped passed rfl

/-- The list of an orderly unit is the respaced unit, without a semicolon that the printer drops. -/
theorem Orderly.exists_listed {closes : Bool} (orderly : Orderly (!closes) unit)
    (legible : Legible unit)
    (normalized : Statement.normalize unit = .ok result)
    (closing : Closes (Segment.split unit) following)
    (behind : closes → following = none ∨ following = some .braceClose) :
    ∃ list, Listed (!closes) result list following := by
  have isSpaced := legible.isSpaced_result normalized
  have ends := legible.closes_result normalized closing
  have uncut : Uncut result := by
    rw [Statement.tidy_eq_of_normalize legible.noMark normalized]
    exact orderly.uncut
  have balanced : stateAfter result = {} := by
    rw [Statement.tidy_eq_of_normalize legible.noMark normalized]
    exact orderly.balanced
  have quiet := legible.quiet_result normalized
  have itself {keep : Bool} (kept : result.getLast? = some ';' → keep) :
      Listed keep result result following :=
    ⟨isSpaced, uncut, balanced, kept, rfl, id, quiet, rfl, fun _ => id, ends⟩
  have whole (passed : Nesting.passes? {} (Segment.split result) = some {}) :
      ∃ list, Listed (!closes) result list following :=
    ⟨result, itself fun ends => absurd ends (getLast?_of_passed isSpaced.plain passed)⟩
  rcases ends with @⟨body, _, parts, passed⟩ | ⟨passed, -⟩ | passed
  · cases closes with
    | false => exact ⟨result, itself fun _ => rfl⟩
    | true =>
        have kept : Listed true result result following := itself fun _ => rfl
        exact kept.drop_semicolon parts passed (behind rfl)
  · exact whole passed
  · obtain rfl := orderly.closed_result legible normalized passed
    exact whole passed

/-- The printed list ends where the list ends. -/
theorem Lays.closes {keep : Bool} {lead list : Text} (lays : Lays keep lead list)
    (closes : Closes (Segment.split list) following) :
    Closes (Segment.split (Text.join lead (split keep list))) following := by
  have passed {after : Nesting} (own : Nesting.passes? {} (Segment.split list) = some after) :
      Nesting.passes? {} (Segment.split (Text.join lead (split keep list))) = some after := by
    rw [← passes?_core, lays.core, passes?_core, own]
  rcases closes with @⟨body, _, parts, own⟩ | ⟨own, stops⟩ | own
  · have spelled := Segment.spell_split list
    rw [parts, Segment.spell_append] at spelled
    obtain ⟨printed, partsToo⟩ := lays.plain.exists_split_concat
      (lays.ends (by rw [← spelled]; exact List.getLast?_concat)) (by decide) (by decide)
    have sameCore := lays.core
    rw [parts, partsToo, core_append, core_append, List.append_cancel_right_eq] at sameCore
    refine .semicolon partsToo ?_
    rw [← passes?_core, sameCore, passes?_core, own]
  · exact .stopped (passed own) stops
  · exact .ended (passed own)

/-- The first member starts the printed list. -/
theorem Lays.head?_eq {keep : Bool} {lead list member : Text} (lays : Lays keep lead list)
    (first : member ∈ (split keep list).head?) :
    (Text.join lead (split keep list)).head? = member.head? := by
  obtain ⟨members, same⟩ := List.head?_eq_some_iff.1 first
  obtain ⟨⟨⟨c, rest, rfl, -⟩, -⟩, -⟩ := lays.lines member (by rw [same]; exact List.mem_cons_self)
  rw [same, Text.join_cons]
  rfl

/-- The first member starts with a comment if the printed list does. -/
theorem Lays.form?_eq_none {keep : Bool} {gap list member : Text}
    (lays : Lays keep ('\n' :: gap) list)
    (first : member ∈ (split keep list).head?) (noComment : Comment.form? member = none) :
    Comment.form? (Text.join ('\n' :: gap) (split keep list)) = none := by
  obtain ⟨members, same⟩ := List.head?_eq_some_iff.1 first
  obtain ⟨⟨⟨c, rest, rfl, -⟩, -⟩, -⟩ := lays.lines member (by rw [same]; exact List.mem_cons_self)
  rw [same, Text.join_cons]
  cases members with
  | nil => simpa using noComment
  | cons next members => exact Comment.form?_append_break noComment _

/-- The printed list is the unit that is read again. -/
theorem Listed.rereads {keep : Bool} {gap list member : Text}
    (listed : Listed keep result list following) (lays : Lays keep ('\n' :: gap) list)
    (first : member ∈ (split keep list).head?) (starts : member.head?.any CodeUnit.starts)
    (noComment : Comment.form? member = none) (noHash : .code '#' ∉ Segment.split result) :
    CodeUnit.Rereads (Text.join ('\n' :: gap) (split keep list)) following where
  starts := by rwa [lays.head?_eq first]
  noComment := lays.form?_eq_none first noComment
  lexed := by
    have lexed := Segment.lexed_split (Text.join ('\n' :: gap) (split keep list) ++ ['\n'])
    rwa [lays.plain.split_append_idle (by decide)] at lexed
  quiet := by
    rw [← quietFrom_core, lays.core, quietFrom_core]
    exact listed.quiet
  noDirective := .inr fun member => by
    have notMark : Mask.mark ≠ '#' := by decide
    obtain ⟨segment, inside, same⟩ := List.mem_map.1 member
    cases segment with
    | code c =>
        obtain rfl : c = '#' := same
        apply noHash
        apply listed.source
        rw [← code_mem_core (by decide) (by decide), ← lays.core]
        exact (code_mem_core (by decide) (by decide)).2 inside
    | literal text repair => exact notMark same
    | comment form text => exact notMark same
  closes := lays.closes listed.closes

/-- The printed list is respaced, as it has the literals of a text that is. -/
theorem Listed.normalize_join {keep : Bool} {lead list gap : Text}
    (listed : Listed keep result list following) (noMark : Mask.mark ∉ result)
    (again : Statement.normalize result = .ok result) (lays : Lays keep lead list)
    (blank : gap.all isBlank) :
    Statement.normalize (Text.join lead (split keep list) ++ gap) =
      .ok (tidy (Text.join lead (split keep list))) := by
  have idle := all_isIdle_of_isBlank blank
  have sameHidden : Segment.hidden (Segment.split result) =
      Segment.hidden (Segment.split (Text.join lead (split keep list) ++ gap)) := by
    rw [lays.plain.split_append_idle idle, Segment.hidden_append, Segment.hidden_map_code,
      List.append_nil, ← listed.hidden, ← hidden_core, ← lays.core, hidden_core]
  have reread := Statement.normalize_eq_tidy noMark (lays.plain.append_idle idle).noMark
    (congrArg List.length sameHidden) again
  rwa [Statement.tidy_append_blank lays.plain blank] at reread

/-- A unit that holds a list reprints. -/
theorem Orderly.reprints {closes : Bool} (orderly : Orderly (!closes) unit) (legible : Legible unit)
    (neat : (Segment.split unit).all Segment.isNeat)
    (closing : Closes (Segment.split unit) following)
    (behind : closes → following = none ∨ following = some .braceClose)
    (normalized : Statement.normalize unit = .ok result) (filled : split (!closes) result ≠ [])
    {style : Style} {level : Nat} {lines : List Text}
    (printed : Layout.rowLines style level ((split (!closes) result).map fun member =>
      { kind := .statement, text := member }) = .ok lines) :
    CodeUnit.Reprints style level true closes following ((split (!closes) result).map fun member =>
      { kind := .statement, text := member }) lines := by
  obtain ⟨list, listed⟩ := orderly.exists_listed legible normalized closing behind
  have blank : List.all ('\n' :: style.indent level) isBlank := by
    rw [List.all_cons, style.all_isBlank_indent level]
    rfl
  have lays := lays blank listed.isSpaced listed.uncut listed.balanced listed.kept
  obtain ⟨member, members, same⟩ := List.exists_cons_of_ne_nil filled
  have leads : member ∈ (split (!closes) list).head? := by
    rw [listed.members, same]
    rfl
  obtain ⟨starts, noComment, notDeclaresFirst⟩ := orderly.first member (by
    rw [← Statement.tidy_eq_of_normalize legible.noMark normalized, same]
    rfl)
  have clean := listed.clean (legible.cleaned_eq_self neat normalized)
  have filledList : split (!closes) list ≠ [] := by rwa [listed.members]
  obtain ⟨comes, kept⟩ := comesTo_members (style.break_not_mem_indent level) filledList
    fun own inside => (lays.lines own inside).imp_right fun cleans => cleans clean
  have lines := printed
  rw [rowLines_members] at lines
  obtain rfl := Except.ok.inj lines
  rw [← listed.members] at printed ⊢
  refine ⟨style.indent level, _, style.all_isBlank_indent level, comes, kept, ?_,
    fun gap blankGap => ⟨_, _, ?_, rfl, printed, comes⟩⟩
  · exact listed.rereads lays leads starts noComment (orderly.noHash_result legible normalized)
  · have again : Statement.normalize result = .ok result :=
      Statement.respacing.unmask_again legible.noMark normalized
    have reread := listed.normalize_join (legible.noMark_result normalized) again lays blankGap
    have membersAgain := Token.ofCodeUnit_members reread
      (by rwa [Statement.isDeclaration, lays.word member leads]) (by rwa [lays.again])
    rwa [lays.again] at membersAgain

end EnumMember

/-- Nothing follows a body, or a closing brace. -/
theorem Span.rule_of_closesBody {spans : List Span} (closes : closesBody spans) :
    spans.head?.map rule = none ∨ spans.head?.map rule = some .braceClose := by
  cases spans with
  | nil => exact .inl rfl
  | cons span spans =>
      cases span with
      | braceClose token source => exact .inr rfl
      | _ => cases closes

/-- A legible unit returns if it is orderly or gives the tokens that it gives outside of a list. The
comments of a list are neat, as it is cut again into what was printed. -/
theorem CodeUnit.Legible.returns {unit after : Text} (legible : Legible unit) (style : Style)
    {before : List Token} (first : unit.head?.any CodeUnit.starts)
    (noComment : Comment.form? unit = none)
    (closing : Closes (Segment.split unit) ((Span.split after).head?.map Span.rule))
    (neat : Token.insideEnumFrom 0 before → (Segment.split unit).all Segment.isNeat)
    (regular : Token.ofCodeUnit (Token.insideEnumFrom 0 before)
      (Span.closesBody (Span.split after)) unit =
        Token.ofCodeUnit false (Span.closesBody (Span.split after)) unit ∨
      EnumMember.Orderly (!Span.closesBody (Span.split after)) unit) :
    Span.Returns style before (Span.closesBody (Span.split after)) (.codeUnit unit) after := by
  refine Span.returns_of_reprints fun level row lines found printed => ?_
  rcases regular with whole | orderly
  · obtain ⟨result, normalized, ⟨kind, isCode, rfl⟩ | ⟨inside, -⟩⟩ :=
      Token.ofCodeUnit_cases (whole.symm.trans found)
    · exact legible.reprints first noComment closing normalized isCode found
        (fun inEnum => legible.cleaned_eq_self (neat inEnum) normalized) printed
    · cases inside
  · obtain ⟨result, normalized, ⟨kind, isCode, rfl⟩ | ⟨inEnum, -, filled, rfl⟩⟩ :=
      Token.ofCodeUnit_cases found
    · exact legible.reprints first noComment closing normalized isCode found
        (fun inEnum => legible.cleaned_eq_self (neat inEnum) normalized) printed
    · have neat := neat inEnum
      rw [inEnum]
      exact orderly.reprints legible neat closing Span.rule_of_closesBody normalized filled printed

end IdlFormat
