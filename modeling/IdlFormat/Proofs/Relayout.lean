import IdlFormat.Proofs.Relaying

/-!
# Layout independence

Relaid texts format to the same document: their spans are cut in step, each pair of spans gives the
same token or a block with the same lines, and the layout depends on nothing else.
-/

namespace IdlFormat

namespace Segment

/-- Closing brackets can be put behind segments the last of which fits them. -/
theorem Lexed.append_brackets {segments : List Segment} (lexed : Lexed segments)
    (fits : ∀ last ∈ segments.getLast?, last.Fits (some ']')) (count : Nat) :
    Lexed (segments ++ List.replicate count (.code ']')) := by
  have brackets (count : Nat) : Lexed (List.replicate count (.code ']')) := by
    induction count with
    | zero => trivial
    | succ count ih => exact ⟨⟨by decide, by simp [Comment.opens]⟩, ih⟩
  cases count with
  | zero => simpa using lexed
  | succ count => exact lexed.append_last (brackets (count + 1)) fits

/-- A lexeme neither starts nor ends with a blank. -/
theorem IsLexeme.ends {lexeme : Segment} (isLexeme : lexeme.IsLexeme) {next : Option Char}
    (fits : lexeme.Fits next) :
    (∃ c rest, lexeme.text = c :: rest ∧ isBlank c = false) ∧
      ∃ init c, lexeme.text = init ++ [c] ∧ isBlank c = false := by
  cases lexeme with
  | code c => exact ⟨⟨c, [], rfl, isLexeme.1⟩, [], c, rfl, isLexeme.1⟩
  | literal text repair =>
      obtain ⟨quote, body, rfl, quoted, whole, -⟩ := fits
      obtain rfl : repair = [] := isLexeme.1
      obtain ⟨init, rfl⟩ := Literal.exists_body_eq quoted whole
      exact ⟨⟨quote, _, rfl, isBlank_quote quoted⟩, quote :: init, quote, rfl, isBlank_quote quoted⟩
  | comment form text => exact absurd isLexeme id

/-- Trimming a text with a lexeme in it does not reach beyond the lexeme. -/
theorem trimEnd_lexeme {lexeme : Segment} (isLexeme : lexeme.IsLexeme) {next : Option Char}
    (fits : lexeme.Fits next) (before rest : Text) :
    Text.trimEnd (before ++ (lexeme.text ++ rest)) = before ++ (lexeme.text ++ Text.trimEnd rest) := by
  obtain ⟨init, c, same, notBlank⟩ := (isLexeme.ends fits).2
  have trimmed := Text.trimEnd_cons_of_not_blank notBlank rest
  have filled : Text.trimEnd (c :: rest) ≠ [] := by simp [trimmed]
  rw [same, List.append_assoc, List.singleton_append, ← List.append_assoc,
    Text.trimEnd_append filled, trimmed, List.append_assoc, List.append_assoc]
  rfl

theorem splitFrom_gap {gap : Text} (blank : IsGap gap) {tracked : List Bracket}
    {balance : Bracket.Balance} {segments piece : List Segment} {pieces : List (List Segment)}
    (cut : splitFrom tracked balance segments = piece :: pieces) :
    splitFrom tracked balance (gap.map .code ++ segments) = (gap.map .code ++ piece) :: pieces := by
  induction gap with
  | nil => exact cut
  | cons c gap ih =>
      have notComma : c ≠ ',' := by
        rcases blank c List.mem_cons_self with rfl | rfl | rfl <;> decide
      have noBracket : Bracket.change? tracked c = none := by
        apply Bracket.change?_eq_none
        rcases blank c List.mem_cons_self with rfl | rfl | rfl <;>
          rintro (_ | _ | _) <;> decide
      rw [List.map_cons, List.cons_append, splitFrom, if_neg (by simp [notComma]), Segment.balance,
        Bracket.Balance.after, noBracket, ih blank.tail]
      rfl

namespace Relaid

variable {breaks strict : Prop} {before : Option Segment} {left right : List Segment}

/-- Relaid segments stay relaid when the last gap is dropped. -/
theorem trimEnd (relaid : Relaid breaks strict before left right) (lexed : Lexed left)
    (otherLexed : Lexed right) :
    ∃ first second, first <+: left ∧ second <+: right ∧ (spell left).trimEnd = spell first ∧
      (spell right).trimEnd = spell second ∧ Relaid breaks True before first second := by
  induction relaid with
  | ended blank otherBlank _ =>
      have dropped {gap : Text} (blank : IsGap gap) : (spell (gap.map .code)).trimEnd = [] := by
        rw [spell_map_code]
        exact Text.trimEnd_eq_nil_of_compact (Text.compact_eq_nil blank.all_isBlank)
      exact ⟨[], [], List.nil_prefix, List.nil_prefix, dropped blank, dropped otherBlank, .nil⟩
  | @next _ gap other lexeme left right blank otherBlank agree isLexeme _ ih =>
      have fits := lexed.right.1
      have otherFits := otherLexed.right.1
      obtain ⟨first, second, prefixed, otherPrefixed, trimmed, otherTrimmed, same⟩ :=
        ih lexed.right.2 otherLexed.right.2
      refine ⟨gap.map .code ++ lexeme :: first, other.map .code ++ lexeme :: second, ?_, ?_, ?_, ?_,
        .next blank otherBlank agree isLexeme same⟩
      · simpa using prefixed
      · simpa using otherPrefixed
      · rw [spell_append, spell_cons, trimEnd_lexeme isLexeme fits, trimmed, spell_append,
          spell_cons]
      · rw [spell_append, spell_cons, trimEnd_lexeme isLexeme otherFits, otherTrimmed,
          spell_append, spell_cons]

/-- Relaid segments stay relaid when the gaps at both ends are dropped. -/
theorem trim (relaid : Relaid breaks strict before left right) (lexed : Lexed left)
    (otherLexed : Lexed right) :
    ∃ first second, Lexed first ∧ Lexed second ∧ (spell left).trim = spell first ∧
      (spell right).trim = spell second ∧ Relaid breaks True none first second := by
  have trimmedGap {gap : Text} (blank : IsGap gap) : (spell (gap.map .code)).trim = [] := by
    rw [spell_map_code, Text.trim_eq_nil_iff, Text.compact_eq_nil blank.all_isBlank]
  cases relaid with
  | ended blank otherBlank _ =>
      exact ⟨[], [], trivial, trivial, trimmedGap blank, trimmedGap otherBlank, .nil⟩
  | @next _ gap other lexeme left right blank otherBlank agree isLexeme later =>
      have start {gap : Text} (blank : IsGap gap) {segments : List Segment}
          (lexed : Lexed (lexeme :: segments)) :
          (spell (gap.map .code ++ lexeme :: segments)).trim =
            (spell (lexeme :: segments)).trimEnd := by
        obtain ⟨c, rest, same, notBlank⟩ := (isLexeme.ends lexed.1).1
        rw [spell_append, spell_map_code, Text.trim, Text.trimStart,
          List.dropWhile_append_of_pos (List.all_eq_true.1 blank.all_isBlank), spell_cons, same,
          List.cons_append, List.dropWhile_cons_of_neg (by simp [notBlank])]
      have rest : Relaid breaks strict none (lexeme :: left) (lexeme :: right) :=
        .lexeme isLexeme later
      obtain ⟨first, second, ⟨tail, parts⟩, ⟨otherTail, otherParts⟩, trimmed, otherTrimmed, same⟩ :=
        rest.trimEnd lexed.right otherLexed.right
      refine ⟨first, second, ?_, ?_, ?_, ?_, same⟩
      · have whole := lexed.right
        rw [← parts] at whole
        exact whole.left
      · have whole := otherLexed.right
        rw [← otherParts] at whole
        exact whole.left
      · rw [start blank lexed.right, trimmed]
      · rw [start otherBlank otherLexed.right, otherTrimmed]

/-- Commas cut relaid segments into relaid pieces. -/
theorem splitFrom (relaid : Relaid breaks strict before left right) (tracked : List Bracket)
    (balance : Bracket.Balance) :
    ∃ piece pieces other others, Segment.splitFrom tracked balance left = piece :: pieces ∧
      Segment.splitFrom tracked balance right = other :: others ∧
      Relaid False False before piece other ∧
      List.Forall₂ (Relaid False False none) pieces others := by
  induction relaid generalizing balance with
  | @ended _ gap other blank otherBlank _ =>
      have whole {gap : Text} (blank : IsGap gap) :
          Segment.splitFrom tracked balance (gap.map .code) = [gap.map .code] := by
        have cut := splitFrom_gap blank (rfl : Segment.splitFrom tracked balance [] = [[]])
        simpa using cut
      exact ⟨_, [], _, [], whole blank, whole otherBlank, .ended blank otherBlank False.elim, .nil⟩
  | @next _ gap other lexeme left right blank otherBlank agree isLexeme _ ih =>
      have agreeToo : GapsAgree False _ gap other :=
        fun lexeme same => ⟨(agree lexeme same).1, False.elim⟩
      by_cases cuts : lexeme = .code ',' ∧ balance.isZero
      · obtain ⟨piece, pieces, otherPiece, others, found, otherFound, first, later⟩ := ih balance
        have cut {segments : List Segment} : Segment.splitFrom tracked balance (lexeme :: segments) =
            [] :: Segment.splitFrom tracked balance segments := by
          rw [Segment.splitFrom, if_pos cuts]
        refine ⟨_, _, _, _, splitFrom_gap blank cut, splitFrom_gap otherBlank cut, ?_, ?_⟩
        · rw [List.append_nil, List.append_nil]
          exact .ended blank otherBlank False.elim
        · rw [found, otherFound]
          exact .cons first.forgetBefore later
      · obtain ⟨piece, pieces, otherPiece, others, found, otherFound, first, later⟩ :=
          ih (lexeme.balance tracked balance)
        have cut {segments piece : List Segment} {pieces : List (List Segment)}
            (found : Segment.splitFrom tracked (lexeme.balance tracked balance) segments =
              piece :: pieces) :
            Segment.splitFrom tracked balance (lexeme :: segments) = (lexeme :: piece) :: pieces := by
          rw [Segment.splitFrom, if_neg cuts, found, consFirst]
        exact ⟨_, _, _, _, splitFrom_gap blank (cut found), splitFrom_gap otherBlank (cut otherFound),
          .next blank otherBlank agreeToo isLexeme first, later⟩

theorem isEmpty_spell (relaid : Relaid breaks True before left right) (lexed : Lexed left)
    (otherLexed : Lexed right) : (spell left).isEmpty = (spell right).isEmpty := by
  cases relaid with
  | ended blank otherBlank agree =>
      rw [spell_map_code, spell_map_code, Bool.eq_iff_iff, List.isEmpty_iff, List.isEmpty_iff]
      exact agree trivial
  | next _ _ _ _ _ =>
      have filled := lexed.right.1.text_ne_nil
      rw [List.isEmpty_eq_false_iff.2 (by simp [filled]),
        List.isEmpty_eq_false_iff.2 (by simp [filled])]

/-- There are no comments, and all literals are closed. -/
theorem shape (relaid : Relaid breaks strict before left right) :
    ∀ segment ∈ left, (∃ c, segment = .code c) ∨ ∃ text, segment = .literal text [] := by
  intro segment member
  induction relaid with
  | ended _ _ _ =>
      obtain ⟨c, -, rfl⟩ := List.mem_map.1 member
      exact .inl ⟨c, rfl⟩
  | @next _ gap other lexeme left right _ _ _ isLexeme _ ih =>
      rcases List.mem_append.1 member with inGap | later
      · obtain ⟨c, -, rfl⟩ := List.mem_map.1 inGap
        exact .inl ⟨c, rfl⟩
      · rcases List.mem_cons.1 later with rfl | later
        · cases segment with
          | code c => exact .inl ⟨c, rfl⟩
          | literal text repair => exact .inr ⟨text, by rw [isLexeme.1]⟩
          | comment form text => exact absurd isLexeme id
        · exact ih later

theorem allQuiet (relaid : Relaid breaks strict before left right) : AllQuiet left := by
  intro form text member
  rcases relaid.shape _ member with ⟨c, same⟩ | ⟨text, same⟩ <;> simp at same

theorem quietFrom (relaid : Relaid breaks strict before left right) (depth : Nat) :
    QuietFrom depth left :=
  relaid.allQuiet.quietFrom depth

theorem hash_not_mem (relaid : Relaid breaks strict before left right) : .code '#' ∉ left := by
  have notGap {gap : Text} (blank : IsGap gap) : .code '#' ∉ gap.map code := by
    intro member
    obtain ⟨c, inGap, same⟩ := List.mem_map.1 member
    rcases blank c inGap with rfl | rfl | rfl <;> simp at same
  induction relaid with
  | ended blank _ _ => exact notGap blank
  | next blank _ _ isLexeme _ ih =>
      intro member
      rcases List.mem_append.1 member with inGap | later
      · exact notGap blank inGap
      · rcases List.mem_cons.1 later with rfl | later
        · exact isLexeme.2.1 rfl
        · exact ih later

theorem map_close (relaid : Relaid breaks strict before left right) : left.map close = left := by
  refine (List.map_congr_left fun segment member => ?_).trans (List.map_id left)
  rcases relaid.shape segment member with ⟨c, rfl⟩ | ⟨text, rfl⟩
  · rfl
  · simp [close]

/-- Closing brackets can be put behind. -/
theorem lexed_append_brackets (relaid : Relaid breaks strict before left right) (lexed : Lexed left)
    (count : Nat) : Lexed (left ++ List.replicate count (.code ']')) := by
  apply lexed.append_brackets
  intro segment ends
  have member := List.mem_of_getLast? ends
  obtain ⟨next, fits⟩ := lexed.exists_fits segment member
  rcases relaid.shape segment member with ⟨c, rfl⟩ | ⟨text, rfl⟩
  · exact ⟨fits.1, by simp [Comment.opens]⟩
  · obtain ⟨quote, body, same, quoted, whole, -⟩ := fits
    exact ⟨quote, body, same, quoted, whole, .inl rfl⟩

end Relaid

end Segment

namespace Attribute

open Segment (spell Lexed Relaid)

/-- Attributes that are formatted alike, one by one, are formatted alike together. -/
theorem mapM_format_congr {pieces others : List Text}
    (alike : List.Forall₂ (fun piece other => piece.isEmpty = other.isEmpty ∧
      format piece = format other) pieces others) :
    (pieces.filter (!·.isEmpty)).mapM format = (others.filter (!·.isEmpty)).mapM format := by
  induction alike with
  | nil => rfl
  | cons same _ ih =>
      rw [List.filter_cons, List.filter_cons, same.1]
      split
      · rw [List.mapM_cons, List.mapM_cons, same.2, ih]
      · exact ih

/-- Blocks with relaid contents have the same lines. -/
theorem formatBlock_relaid {block other : Text} {left right : List Segment}
    (inner : content block = spell left) (otherInner : content other = spell right)
    (relaid : Relaid False False none left right) (lexed : Lexed left) (otherLexed : Lexed right)
    (style : Style) (level : Int) :
    formatBlock style level block = formatBlock style level other := by
  have pairs : List.Forall₂ (fun piece other : List Segment =>
      Relaid False False none piece other ∧ Lexed piece ∧ Lexed other)
      (Segment.splitFrom Bracket.all {} left) (Segment.splitFrom Bracket.all {} right) := by
    obtain ⟨piece, pieces, otherPiece, others, found, otherFound, first, later⟩ :=
      relaid.splitFrom Bracket.all {}
    have whole : List.Forall₂ (Relaid False False none) (Segment.splitFrom Bracket.all {} left)
        (Segment.splitFrom Bracket.all {} right) := by
      rw [found, otherFound]
      exact .cons first later
    obtain ⟨length, zipped⟩ := List.forall₂_iff_zip.1 whole
    refine List.forall₂_iff_zip.2 ⟨length, ?_⟩
    intro piece other member
    exact ⟨zipped member, lexed.of_mem_splitFrom (List.of_mem_zip member).1,
      otherLexed.of_mem_splitFrom (List.of_mem_zip member).2⟩
  have same : ((split block).mapM format) = (split other).mapM format := by
    unfold split
    rw [inner, otherInner, Bracket.splitTopLevel, Bracket.splitTopLevel,
      Segment.splitFrom_spell lexed relaid.allQuiet,
      Segment.splitFrom_spell otherLexed relaid.symm.allQuiet]
    apply mapM_format_congr
    simp only [List.map_map, List.forall₂_map_left_iff, List.forall₂_map_right_iff]
    refine pairs.imp ?_
    rintro piece other ⟨relaid, lexed, otherLexed⟩
    obtain ⟨first, second, lexedFirst, lexedSecond, trimmed, otherTrimmed, same⟩ :=
      relaid.trim lexed otherLexed
    simp only [Function.comp]
    rw [trimmed, otherTrimmed]
    exact ⟨same.isEmpty_spell lexedFirst lexedSecond,
      format_spell_relaid same lexedFirst lexedSecond⟩
  simp only [formatBlock, same]

theorem content_spell_open {inner : List Segment} (lexed : Lexed (.code '[' :: inner))
    (quiet : Segment.AllQuiet (.code '[' :: inner)) {missing : Nat}
    (isOpen : Segment.openDepthFrom 0 (.code '[' :: inner) = missing + 1) :
    content (spell (.code '[' :: inner)) =
      spell (inner.map Segment.close ++ List.replicate missing (.code ']')) := by
  have depth : Bracket.openDepth (spell (.code '[' :: inner)) = missing + 1 := by
    rw [Bracket.openDepth, Segment.openDepthFrom_spell lexed quiet, isOpen]
  rw [content, depth]
  simp only [Segment.spell_cons, Segment.text, List.singleton_append, List.drop_succ_cons,
    List.drop_zero]
  rw [closeLiterals, Segment.split_spell lexed.2, ← Segment.spell_map_close,
    ← Segment.spell_replicate_code, Segment.spell_append]

/-- Blocks cut off relaid segments have the same lines, and what follows them is relaid. A block
that leaves two brackets open or more ends in brackets that were not in the text, and the gap before
them counts. -/
theorem formatBlock_cutClosed {strict : Prop} {left right : List Segment}
    (relaid : Relaid True strict (some (.code '[')) left right) (lexed : Lexed (.code '[' :: left))
    (otherLexed : Lexed (.code '[' :: right))
    (known : (Segment.cutClosed 0 (.code '[' :: left)).2 = [] →
      2 ≤ Segment.openDepthFrom 0 (.code '[' :: left) → strict) :
    (∀ style level, formatBlock style level (spell (Segment.cutClosed 0 (.code '[' :: left)).1) =
      formatBlock style level (spell (Segment.cutClosed 0 (.code '[' :: right)).1)) ∧
    Relaid True strict none (Segment.cutClosed 0 (.code '[' :: left)).2
      (Segment.cutClosed 0 (.code '[' :: right)).2 := by
  have counted (rest : List Segment) :
      Segment.openDepthFrom 0 (.code '[' :: rest) = Segment.openDepthFrom 1 rest := rfl
  have opening : (Segment.code '[').IsLexeme := by decide
  have closing : (Segment.code ']').IsLexeme := by decide
  have parts := Segment.cutClosed_append (1 : Nat) left
  have otherParts := Segment.cutClosed_append (1 : Nat) right
  rw [Segment.cutClosed_opening, Segment.cutClosed_opening] at *
  rcases relaid.cutClosed (by simp) Nat.one_pos with
    ⟨inner, others, rest, more, taken, otherTaken, same, following, closed⟩ |
      ⟨taken, otherTaken, deep⟩
  · rw [taken] at parts
    rw [otherTaken] at otherParts
    rw [taken, otherTaken]
    have allLeft : Relaid False True none (Segment.code '[' :: inner ++ [Segment.code ']'])
        (Segment.code '[' :: others ++ [Segment.code ']']) :=
      (Relaid.lexeme opening same).append closing .nil
    have lexedBlock : Lexed (Segment.code '[' :: inner ++ [Segment.code ']']) := by
      rw [← parts, ← List.cons_append] at lexed
      exact lexed.left
    have otherLexedBlock : Lexed (Segment.code '[' :: others ++ [Segment.code ']']) := by
      rw [← otherParts, ← List.cons_append] at otherLexed
      exact otherLexed.left
    have noneOpen := allLeft.openDepthFrom 0
    rw [List.cons_append, List.cons_append, counted, counted, closed] at noneOpen
    refine ⟨fun style level => ?_, following.forgetBefore⟩
    exact formatBlock_relaid
      (content_spell_closed lexedBlock allLeft.allQuiet (by
        rw [List.cons_append, counted, closed]))
      (content_spell_closed otherLexedBlock allLeft.symm.allQuiet (by
        rw [List.cons_append, counted, ← noneOpen]))
      same.forgetEnd.forgetBefore lexedBlock.left.2 otherLexedBlock.left.2 style level
  · rw [taken, otherTaken]
    refine ⟨fun style level => ?_, .nil⟩
    obtain ⟨missing, depth⟩ := Nat.exists_eq_add_one.2 deep
    have whole : Relaid True strict none (.code '[' :: left) (.code '[' :: right) :=
      .lexeme opening relaid
    have inner : Relaid False False none (left ++ List.replicate missing (.code ']'))
        (right ++ List.replicate missing (.code ']')) := by
      cases missing with
      | zero =>
          rw [List.replicate_zero, List.append_nil, List.append_nil]
          exact relaid.forgetBreaks.forgetEnd.forgetBefore
      | succ missing =>
          have isStrict : strict := known (by rw [taken]) (by rw [counted, depth]; omega)
          have last : Relaid False True (some (.code '[')) left right :=
            relaid.mono False.elim fun _ => isStrict
          have brackets (count : Nat) : Relaid False False (some (.code ']'))
              (List.replicate count (.code ']')) (List.replicate count (.code ']')) := by
            induction count with
            | zero => exact .nil
            | succ count ih => exact .lexeme closing ih
          exact (last.append closing (brackets missing)).forgetBefore
    have closed := content_spell_open lexed whole.allQuiet (by rw [counted, depth])
    have otherClosed := content_spell_open otherLexed whole.symm.allQuiet (by
      rw [counted, ← relaid.openDepthFrom, depth])
    rw [relaid.map_close] at closed
    rw [relaid.symm.map_close] at otherClosed
    exact formatBlock_relaid closed otherClosed
      inner (relaid.lexed_append_brackets lexed.2 missing)
      (relaid.symm.lexed_append_brackets otherLexed.2 missing) style level

end Attribute

/-- Two spans that are printed alike: the same token, the same statement or the same lines. -/
inductive Span.Alike : Span → Span → Prop
  /-- Blocks with the same lines. -/
  | attributeBlock {block other : Text}
      (same : ∀ style level, Attribute.formatBlock style level block =
        Attribute.formatBlock style level other) :
      Alike (.attributeBlock block) (.attributeBlock other)
  /-- Opening braces. -/
  | braceOpen : Alike .braceOpen .braceOpen
  /-- Closing braces with the same token. -/
  | braceClose (token source other : Text) : Alike (.braceClose token source) (.braceClose token other)
  /-- Units that are respaced to the same statement. -/
  | codeUnit {text other : Text} (same : Statement.normalize text = Statement.normalize other) :
      Alike (.codeUnit text) (.codeUnit other)

namespace Stretch

open Segment (spell Lexed Relaid IsGap)

theorem split_gap {gap : Text} (blank : IsGap gap) : split (gap.map .code) = [] := by
  have dropped : (gap.map Segment.code).dropWhile (Segment.isCode isBlank) = [] := by
    rw [List.dropWhile_eq_nil_iff]
    exact Segment.isCode_of_mem_gap (List.all_eq_true.1 blank.all_isBlank)
  rw [split]
  split
  · rfl
  · next some => simp [dropped] at some

theorem split_lexeme {gap : Text} (blank : IsGap gap) {lexeme : Segment}
    (isLexeme : lexeme.IsLexeme) (segments : List Segment) :
    split (gap.map .code ++ lexeme :: segments) =
      (cut lexeme segments).1 :: split (cut lexeme segments).2 := by
  have notBlank : Segment.isCode isBlank lexeme = false := by
    cases lexeme with
    | code c => exact isLexeme.1
    | literal text repair => rfl
    | comment form text => rfl
  have dropped : (gap.map Segment.code ++ lexeme :: segments).dropWhile (Segment.isCode isBlank) =
      lexeme :: segments := by
    rw [List.dropWhile_append_of_pos
      (Segment.isCode_of_mem_gap (List.all_eq_true.1 blank.all_isBlank)),
      List.dropWhile_cons_of_neg (by simp [notBlank])]
  rw [split]
  split
  · next none => simp [dropped] at none
  · next first rest found =>
      rw [dropped] at found
      simp only [List.cons.injEq] at found
      rw [← found.1, ← found.2]

/-- Stretches cut off relaid segments are alike, and what follows them is relaid. -/
theorem cut_relaid {strict : Prop} {lexeme : Segment} (isLexeme : lexeme.IsLexeme)
    {left right : List Segment} (relaid : Relaid True strict (some lexeme) left right)
    (lexed : Lexed (lexeme :: left)) (otherLexed : Lexed (lexeme :: right))
    (known : ∀ block, (cut lexeme left).1.span = .attributeBlock block →
      (cut lexeme left).2 = [] → 2 ≤ Bracket.openDepth block → strict) :
    Span.Alike (cut lexeme left).1.span (cut lexeme right).1.span ∧
      Relaid True strict none (cut lexeme left).2 (cut lexeme right).2 := by
  have whole : Relaid True strict none (lexeme :: left) (lexeme :: right) :=
    .lexeme isLexeme relaid
  have unit : Span.Alike (.codeUnit (spell (Segment.cutUnit {} (lexeme :: left)).1))
      (.codeUnit (spell (Segment.cutUnit {} (lexeme :: right)).1)) ∧
      Relaid True strict none (Segment.cutUnit {} (lexeme :: left)).2
        (Segment.cutUnit {} (lexeme :: right)).2 := by
    obtain ⟨taken, rest⟩ := @Relaid.unit _ _ _ _ _ {} {} ⟨rfl, rfl⟩ whole
    have parts := Segment.cutUnit_append {} (lexeme :: left)
    have otherParts := Segment.cutUnit_append {} (lexeme :: right)
    rw [← parts] at lexed
    rw [← otherParts] at otherLexed
    exact ⟨.codeUnit (Statement.normalize_spell_relaid taken lexed.left otherLexed.left), rest⟩
  cases lexeme with
  | comment form text => exact absurd isLexeme id
  | literal text repair => exact unit
  | code c =>
      unfold cut at known ⊢
      simp only at known ⊢
      split
      · next opens =>
          subst opens
          obtain ⟨same, rest⟩ := Attribute.formatBlock_cutClosed relaid lexed otherLexed (by
            intro ended deep
            have parts := Segment.cutClosed_append 0 (.code '[' :: left)
            rw [ended, List.append_nil] at parts
            refine known (spell (.code '[' :: left)) ?_ ended ?_
            · simp [span, parts]
            · rwa [Bracket.openDepth, Segment.openDepthFrom_spell lexed whole.allQuiet])
          exact ⟨.attributeBlock same, rest⟩
      · split
        · exact ⟨.braceOpen, relaid.forgetBefore⟩
        · split
          · next closes =>
              subst closes
              obtain ⟨token, rest⟩ := relaid.brace lexed.2 otherLexed.2
              simp only [span, token]
              exact ⟨.braceClose _ _ _, rest⟩
          · exact unit

/-- Relaid segments are cut into stretches that are alike. -/
theorem split_relaid {strict : Prop} {before : Option Segment} {left right : List Segment}
    (relaid : Relaid True strict before left right) (lexed : Lexed left) (otherLexed : Lexed right)
    (known : ∀ block, ((split left).map span).getLast? = some (.attributeBlock block) →
      2 ≤ Bracket.openDepth block → strict) :
    List.Forall₂ Span.Alike ((split left).map span) ((split right).map span) := by
  induction size : left.length using Nat.strongRecOn generalizing before left right with
  | ind size ih =>
      subst size
      cases relaid with
      | ended blank otherBlank _ =>
          rw [split_gap blank, split_gap otherBlank]
          exact .nil
      | @next _ gap other lexeme left right blank otherBlank agree isLexeme later =>
          rw [split_lexeme blank isLexeme] at known
          rw [split_lexeme blank isLexeme, split_lexeme otherBlank isLexeme]
          obtain ⟨same, rest⟩ := cut_relaid isLexeme later lexed.right otherLexed.right (by
            intro block found ended deep
            refine known block ?_ deep
            have none : split [] = [] := @split_gap [] (by simp [IsGap])
            rw [ended, none]
            simp [found])
          have parts := segments_append_cut lexeme left
          have otherParts := segments_append_cut lexeme right
          have shorter := length_cut_lt lexeme left
          refine .cons same (ih _ (by simp at shorter ⊢; omega) rest ?_ ?_ ?_ rfl)
          · have whole := lexed.right
            rw [← parts] at whole
            exact whole.right
          · have whole := otherLexed.right
            rw [← otherParts] at whole
            exact whole.right
          · intro block found deep
            refine known block ?_ deep
            rw [List.map_cons, List.getLast?_cons, found]
            rfl

end Stretch

/-- Two computations that fail alike, or give results that are related. -/
inductive Alongside {α β : Type} (related : α → β → Prop) :
    Except Numeral.TooLong α → Except Numeral.TooLong β → Prop
  /-- Both give a result. -/
  | ok {value : α} {other : β} (same : related value other) : Alongside related (.ok value) (.ok other)
  /-- Both fail. -/
  | error (excess : Numeral.TooLong) : Alongside related (.error excess) (.error excess)

theorem Alongside.bind {α β γ δ : Type} {related : α → β → Prop} {goal : γ → δ → Prop}
    {first : Except Numeral.TooLong α} {second : Except Numeral.TooLong β}
    {next : α → Except Numeral.TooLong γ} {other : β → Except Numeral.TooLong δ}
    (alongside : Alongside related first second)
    (later : ∀ value result, related value result → Alongside goal (next value) (other result)) :
    Alongside goal (first >>= next) (second >>= other) := by
  cases alongside with
  | ok same => exact later _ _ same
  | error excess => exact .error excess

theorem Alongside.refl {α : Type} {related : α → α → Prop} (same : ∀ value, related value value)
    (result : Except Numeral.TooLong α) : Alongside related result result := by
  cases result with
  | ok value => exact .ok (same value)
  | error excess => exact .error excess

namespace Token

/-- Two tokens that are printed alike: the same token, or blocks with the same lines. -/
inductive Alike : Token → Token → Prop
  /-- The same token. -/
  | refl (token : Token) : Alike token token
  /-- Blocks with the same lines. -/
  | attributeBlock {block other : Text}
      (same : ∀ style level, Attribute.formatBlock style level block =
        Attribute.formatBlock style level other) :
      Alike { kind := .attributeBlock, text := block } { kind := .attributeBlock, text := other }

theorem Alike.kind {token other : Token} (alike : Alike token other) : token.kind = other.kind := by
  cases alike <;> rfl

theorem Alike.headsEnum {token other : Token} (alike : Alike token other) :
    token.headsEnum = other.headsEnum := by
  cases alike <;> rfl

theorem insideEnumFrom_congr {before others : List Token} (alike : List.Forall₂ Alike before others)
    (depth : Nat) : insideEnumFrom depth before = insideEnumFrom depth others := by
  induction alike generalizing depth with
  | nil => rfl
  | cons same later ih =>
      unfold insideEnumFrom
      rw [← same.kind]
      split
      · exact ih _
      · cases later with
        | nil => rfl
        | cons first _ => simp [first.headsEnum]
      · exact ih _
      · exact ih _

/-- Spans that are alike give tokens that are alike. -/
theorem ofSpan_congr {before others : List Token} (sameBefore : List.Forall₂ Alike before others)
    (closesBody : Bool) {span other : Span} (alike : span.Alike other) :
    Alongside (List.Forall₂ Alike) (ofSpan before closesBody span)
      (ofSpan others closesBody other) := by
  cases alike with
  | attributeBlock same => exact .ok (.cons (.attributeBlock same) .nil)
  | braceOpen => exact .ok (.cons (.refl _) .nil)
  | braceClose token source other => exact .ok (.cons (.refl _) .nil)
  | @codeUnit text other same =>
      rw [ofSpan, ofSpan, insideEnumFrom_congr sameBefore, ofCodeUnit, ofCodeUnit, same]
      exact .refl (fun tokens => List.forall₂_same.2 fun token _ => .refl token) _

theorem closesBody_congr {spans others : List Span} (alike : List.Forall₂ Span.Alike spans others) :
    Span.closesBody spans = Span.closesBody others := by
  cases alike with
  | nil => rfl
  | cons same _ => cases same <;> rfl

theorem ofSpansAfter_congr {spans others : List Span} (alike : List.Forall₂ Span.Alike spans others)
    {before otherBefore : List Token} (sameBefore : List.Forall₂ Alike before otherBefore) :
    Alongside (List.Forall₂ Alike) (ofSpansAfter before spans) (ofSpansAfter otherBefore others) := by
  induction alike generalizing before otherBefore with
  | nil => exact .ok (List.forall₂_reverse_iff.2 sameBefore)
  | cons same later ih =>
      rw [ofSpansAfter, ofSpansAfter, closesBody_congr later]
      apply (ofSpan_congr sameBefore _ same).bind
      intro tokens otherTokens sameTokens
      exact ih (List.rel_append (List.forall₂_reverse_iff.2 sameTokens) sameBefore)

end Token

namespace Layout

open Token (Alike)

theorem tokenLines_congr {token other : Token} (alike : Alike token other) (style : Style)
    (level : Nat) : tokenLines style level token = tokenLines style level other := by
  cases alike with
  | refl => rfl
  | attributeBlock same => exact same style level

theorem nextLevel_congr {token other : Token} (alike : Alike token other) (level : Nat) :
    nextLevel level token = nextLevel level other := by
  cases alike <;> rfl

theorem blankBetween_congr {token other next following : Token} (alike : Alike token other)
    (alikeNext : Alike next following) (level : Nat) :
    blankBetween level token next = blankBetween level other following := by
  rw [blankBetween, blankBetween, alike.kind, alikeNext.kind, nextLevel_congr alike]

theorem blankBefore_congr {token other : Token} (alike : Alike token other)
    {previous before : Option Token} (alikePrevious : Option.Rel Alike previous before)
    (level : Nat) : blankBefore level previous token = blankBefore level before other := by
  rw [blankBefore, blankBefore, alike.kind]
  cases alikePrevious with
  | none => rfl
  | some same => cases same <;> rfl

/-- Tokens that are alike have the same lines. -/
theorem linesFrom_congr {tokens others : List Token} (alike : List.Forall₂ Alike tokens others)
    (style : Style) (level : Nat) {previous before : Option Token}
    (alikePrevious : Option.Rel Alike previous before) :
    linesFrom style level previous tokens = linesFrom style level before others := by
  induction alike generalizing level previous before with
  | nil => rfl
  | @cons token other tokens others same later ih =>
      have between : tokens.head?.any (blankBetween level token) =
          others.head?.any (blankBetween level other) := by
        cases later with
        | nil => rfl
        | cons first _ => exact blankBetween_congr same first level
      rw [linesFrom, linesFrom, tokenLines_congr same, nextLevel_congr same, ih _ (.some same),
        blankBefore_congr same alikePrevious, between]

end Layout

namespace Document

open Segment (Relaid)

/-- Whether a text ends in an attribute block that leaves two square brackets open or more. The
brackets inside the block are then closed behind its last gap. -/
def EndsOpen (text : Text) : Prop :=
  ∃ block, (Span.split text).getLast? = some (.attributeBlock block) ∧ 2 ≤ Bracket.openDepth block

/-- The layout of a text does not matter: texts with the same lexemes format to the same document,
if the gaps between lexemes are empty in both or in neither, and after a closing brace hold a line
break in both or in neither. The first gap is free, and so is the last one, unless the text ends in
a block with open brackets inside. -/
theorem format_eq_of_relaid {left right : Text}
    (relaid : Relaid True (EndsOpen left) none (Segment.split left) (Segment.split right))
    (style : Style) : format style left = format style right := by
  have lexed := Segment.lexed_split left
  have otherLexed := Segment.lexed_split right
  have noReturn : '\r' ∉ left := Segment.spell_split left ▸ relaid.return_not_mem_spell
  have otherNoReturn : '\r' ∉ right := Segment.spell_split right ▸ relaid.symm.return_not_mem_spell
  have spans {text other : Text} {strict : Prop}
      (relaid : Relaid True strict none (Segment.split text) (Segment.split other)) :
      Span.split text = (Stretch.split (Segment.split text)).map Stretch.span := by
    have cut := Stretch.split_spell (Segment.lexed_split text) (relaid.quietFrom 0)
      relaid.hash_not_mem
    rwa [Segment.spell_split] at cut
  have alike : List.Forall₂ Span.Alike (Span.split left) (Span.split right) := by
    rw [spans relaid, spans relaid.symm]
    apply Stretch.split_relaid relaid lexed otherLexed
    rw [← spans relaid]
    exact fun block last deep => ⟨block, last, deep⟩
  have tokens := Token.ofSpansAfter_congr alike .nil
  have lines : ∀ first second, Alongside (List.Forall₂ Token.Alike) first second →
      (first >>= Layout.format style) = (second >>= Layout.format style) := by
    rintro _ _ (same | excess)
    · show Layout.format style _ = Layout.format style _
      rw [Layout.format, Layout.format, Layout.linesFrom_congr same style 0 .none]
    · rfl
  rw [format, format, Document.tokens, Document.tokens, Text.normalizeBreaks_eq_self noReturn,
    Text.normalizeBreaks_eq_self otherNoReturn]
  exact lines _ _ tokens

/-- A brace after a literal, laid out in two ways. -/
theorem format_eq_of_relaid_brace :
    Relaid True (EndsOpen "x\x7b\"a b\" \x7d\n,y".toList) none (Segment.split "x\x7b\"a b\" \x7d\n,y".toList)
        (Segment.split " x\x7b\"a b\"\t\n\x7d\n\n,y\n".toList) ∧
      format {} "x\x7b\"a b\" \x7d\n,y".toList = format {} " x\x7b\"a b\"\t\n\x7d\n\n,y\n".toList := by
  have left : Segment.split "x\x7b\"a b\" \x7d\n,y".toList = [.code 'x', .code '{',
      .literal "\"a b\"".toList [], .code ' ', .code '}', .code '\n', .code ',', .code 'y'] := by
    decide +kernel
  have right : Segment.split " x\x7b\"a b\"\t\n\x7d\n\n,y\n".toList = [.code ' ', .code 'x', .code '{',
      .literal "\"a b\"".toList [], .code '\t', .code '\n', .code '}', .code '\n', .code '\n',
      .code ',', .code 'y', .code '\n'] := by
    decide +kernel
  have relaid : Relaid True (EndsOpen "x\x7b\"a b\" \x7d\n,y".toList) none
      (Segment.split "x\x7b\"a b\" \x7d\n,y".toList)
      (Segment.split " x\x7b\"a b\"\t\n\x7d\n\n,y\n".toList) := by
    have closed : ¬ EndsOpen "x\x7b\"a b\" \x7d\n,y".toList := by
      rintro ⟨block, last, -⟩
      have other : (Span.split "x\x7b\"a b\" \x7d\n,y".toList).getLast? = some (.codeUnit ",y".toList) := by
        decide +kernel
      rw [other] at last
      simp at last
    rw [left, right]
    have comma : Relaid True (EndsOpen "x\x7b\"a b\" \x7d\n,y".toList) (some (.code '}'))
        [.code '\n', .code ',', .code 'y']
        [.code '\n', .code '\n', .code ',', .code 'y', .code '\n'] := by
      refine @Relaid.next _ _ _ ['\n'] ['\n', '\n'] (.code ',') _ _ (by simp [Segment.IsGap])
        (by simp [Segment.IsGap]) (by simp [Segment.GapsAgree]) (by decide) (.lexeme (by decide) ?_)
      exact @Relaid.ended _ _ _ [] ['\n'] (by simp [Segment.IsGap]) (by simp [Segment.IsGap])
        fun isOpen => absurd isOpen closed
    refine @Relaid.next _ _ _ [] [' '] (.code 'x') _ _ (by simp [Segment.IsGap])
      (by simp [Segment.IsGap]) (by simp [Segment.GapsAgree]) (by decide) (.lexeme (by decide)
        (.lexeme (by decide) ?_))
    exact @Relaid.next _ _ _ [' '] ['\t', '\n'] (.code '}') _ _ (by simp [Segment.IsGap])
      (by simp [Segment.IsGap]) (by simp [Segment.GapsAgree]) (by decide) comma
  exact ⟨relaid, format_eq_of_relaid relaid {}⟩

/-- The last gap does count where brackets are closed behind it. -/
theorem not_format_eq_of_relaid :
    ¬ ∀ (left right : Text), Relaid True False none (Segment.split left) (Segment.split right) →
      ∀ style, format style left = format style right := by
  intro all
  have opening : (Segment.code '[').IsLexeme := by decide
  have left : Segment.split "[[".toList = [.code '[', .code '['] := by decide +kernel
  have right : Segment.split "[[ ".toList = [.code '[', .code '[', .code ' '] := by decide +kernel
  have last : Relaid True False (some (.code '[')) [] [.code ' '] :=
    @Relaid.ended _ _ _ [] [' '] (by simp [Segment.IsGap]) (by simp [Segment.IsGap]) False.elim
  have same := all "[[".toList "[[ ".toList (by
    rw [left, right]
    exact .lexeme opening (.lexeme opening last)) {}
  have different : (format {} "[[".toList).toOption ≠ (format {} "[[ ".toList).toOption := by
    decide +kernel
  exact different (congrArg Except.toOption same)

end Document

end IdlFormat
