import IdlFormat.Proofs.CanonicalSpacing
import IdlFormat.Proofs.Stretch
import IdlFormat.Proofs.Tiling

/-!
# Lists of aliases

The list of aliases that a closing brace takes is looked for in any text that follows, and is
printed with a spacing of its own. The two agree on what such a list is: `CloseBrace.AliasList`.
Whatever the search finds is one, the printer turns one into another, and the search finds that one
again, whole and unchanged, wherever it stands.

A list of aliases spells beads, and the printer sets their gaps anew. No gap is closed but before a
comma, so that no two slashes come together.
-/

namespace IdlFormat

namespace Bead

theorem collapse_spell (beads : List Bead) : (spell beads).collapse = spell beads := by
  have space : IdlFormat.isBlank ' ' := isBlank_space
  rw [Text.collapse]
  induction beads with
  | nil => rfl
  | cons bead beads ih =>
      rw [spell_cons]
      cases gap : bead.gap <;> simp [trail, Text.collapseFrom, bead.solid, space, ih]

/-- Blanks that are single spaces are not collapsed. -/
theorem collapseFrom_of_single {text : Text} (spaces : ∀ c ∈ text, isBlank c → c = ' ')
    (single : text.IsChain fun first second => first = ' ' → second ≠ ' ') {afterBlank : Bool}
    (first : afterBlank → ∀ c, text.head? = some c → c ≠ ' ') :
    Text.collapseFrom afterBlank text = text := by
  induction text generalizing afterBlank with
  | nil => rfl
  | cons c rest ih =>
      rw [List.isChain_cons] at single
      have later := fun d member => spaces d (List.mem_cons_of_mem c member)
      cases blank : isBlank c with
      | true =>
          have space := spaces c List.mem_cons_self blank
          have fresh : afterBlank = false := by
            cases afterBlank with
            | false => rfl
            | true => exact absurd space (first rfl c rfl)
          rw [Text.collapseFrom, if_pos blank, fresh, ih later single.2 fun _ d isNext =>
            single.1 d isNext space]
          simp [space]
      | false =>
          have fresh := ih later single.2 (fun open' => absurd open' Bool.false_ne_true)
          simp [Text.collapseFrom, blank, fresh]

theorem regap_tight_of_not_mem {mark : Char} {beads : List Bead} (absent : mark ∉ beads.map char)
    (before : Option Char) : regap (tight mark) before beads = beads := by
  induction beads generalizing before with
  | nil => rfl
  | cons bead beads ih =>
      simp only [List.map_cons, List.mem_cons, not_or] at absent
      have other : (bead.char != mark) = true := by simpa using Ne.symm absent.1
      rw [regap, ih absent.2, tight, other, Bool.and_true]

/-- Beads that are neighbours without a gap once the gaps are set anew stay related, if a rule closes
no gaps between others. -/
theorem isChain_regap {rule : Option Char → Bool → Char → Bool} {related : Char → Char → Prop}
    (closes : ∀ first second : Bead, rule (some first.char) second.gap second.char = false →
      (second.gap = false → related first.char second.char) → related first.char second.char)
    {beads : List Bead}
    (near : beads.IsChain fun first second => second.gap = false → related first.char second.char)
    (before : Option Char) :
    (regap rule before beads).IsChain fun first second =>
      second.gap = false → related first.char second.char := by
  induction beads generalizing before with
  | nil => exact .nil
  | cons bead beads ih =>
      rw [List.isChain_cons] at near
      refine List.isChain_cons.2 ⟨?_, ih near.2 _⟩
      intro second isNext closed
      cases beads with
      | nil => simp [regap] at isNext
      | cons next beads =>
          obtain rfl := Option.some.inj isNext
          exact closes bead next closed (near.1 next rfl)

end Bead

namespace CloseBrace

open Bead (spell ofText unlead regap trail inArguments)

/-- No comment opens with two characters. -/
def Uncommented (first second : Char) : Prop :=
  first = '/' → second ≠ '/' ∧ second ≠ '*'

/-- No quote, semicolon, brace, opening square bracket or `#`. -/
def Plain (c : Char) : Prop :=
  isQuote c = false ∧ c ∉ [';', '{', '}', '[', '#']

/-- A list of aliases as the token of a closing brace holds it. -/
structure AliasList (aliases : Text) : Prop where
  /-- It is not empty. -/
  filled : aliases ≠ []
  /-- No blanks stand around it. -/
  trimmed : aliases.trim = aliases
  /-- It has no blanks but spaces. -/
  spaces : ∀ c ∈ aliases, isBlank c → c = ' '
  /-- It has no two spaces in a row. -/
  single : aliases.IsChain fun first second => first = ' ' → second ≠ ' '
  /-- Its characters are plain. -/
  plain : ∀ c ∈ aliases, Plain c
  /-- No comment opens in it. -/
  uncommented : aliases.IsChain Uncommented

/-- The text of a closing brace, alone or fused with what it takes. -/
inductive Fused : Text → Prop
  /-- The brace alone. -/
  | alone : Fused ['}']
  /-- The brace and a semicolon. -/
  | semicolon : Fused ['}', ';']
  /-- The brace, a list of aliases and the semicolon that ends it. -/
  | aliases {aliases : Text} (list : AliasList aliases) : Fused ('}' :: ' ' :: aliases ++ [';'])

theorem blocksAliases_eq_false_iff (text : Text) :
    blocksAliases text = false ↔
      (∀ c ∈ text, isQuote c = false ∧ c ∉ ['{', '}', '[', '#']) ∧ text.IsChain Uncommented := by
  induction text with
  | nil => simp [blocksAliases]
  | cons c rest ih =>
      have free : (Comment.form? (c :: rest)).isSome = false ↔
          ∀ d, rest.head? = some d → Uncommented c d := by
        rw [Option.isSome_eq_false_iff, Option.isNone_iff_eq_none, Comment.form?_cons_eq_none_iff]
        cases rest with
        | nil => simp [Comment.opens]
        | cons d rest => simp [Comment.opens, Uncommented]
      simp only [blocksAliases, Bool.or_eq_false_iff, ih, free, List.isChain_cons,
        List.forall_mem_cons, List.contains_eq_mem, decide_eq_false_iff_not]
      constructor
      · rintro ⟨⟨⟨near, unquoted⟩, plain⟩, later, chain⟩
        exact ⟨⟨⟨unquoted, plain⟩, later⟩, near, chain⟩
      · rintro ⟨⟨⟨unquoted, plain⟩, later⟩, near, chain⟩
        exact ⟨⟨⟨near, unquoted⟩, plain⟩, later, chain⟩

/-- The beads of a list of aliases. -/
structure AliasBeads (beads : List Bead) : Prop where
  /-- There are some. -/
  filled : beads ≠ []
  /-- No gap stands before the first. -/
  started : unlead beads = beads
  /-- The characters are plain. -/
  plain : ∀ bead ∈ beads, Plain bead.char
  /-- No comment opens where there is no gap. -/
  near : beads.IsChain fun first second => second.gap = false → Uncommented first.char second.char

theorem AliasBeads.exists_spell_eq {beads : List Bead} (listed : AliasBeads beads) :
    ∃ first others, spell beads = first :: others ∧ isBlank first = false := by
  cases beads with
  | nil => exact absurd rfl listed.filled
  | cons bead beads =>
      have started := congrArg (·.map Bead.gap) listed.started
      simp only [unlead, List.map_cons, List.cons.injEq] at started
      exact ⟨bead.char, spell beads, by simp [Bead.spell_cons, ← started.1, trail], bead.solid⟩

theorem aliasList_spell {beads : List Bead} (listed : AliasBeads beads) :
    AliasList (spell beads) where
  filled := by
    obtain ⟨first, others, starts, -⟩ := listed.exists_spell_eq
    simp [starts]
  trimmed := by
    have trimmed := Bead.trim_spell_append beads false
    rwa [listed.started, Bead.trail_false, List.append_nil] at trimmed
  spaces c := Bead.eq_space_of_mem_spell
  single := by
    have solid (bead : Bead) : bead.char ≠ ' ' := by
      intro space
      simpa [space, isBlank_space] using bead.solid
    apply Bead.isChain_spell fun bead _ _ _ => solid bead
    apply listed.near.imp
    intro first second _
    split <;> exact fun space => absurd space (solid first)
  plain c member := by
    rcases Bead.mem_spell member with rfl | ⟨bead, inside, rfl⟩
    · exact ⟨by decide, by decide⟩
    · exact listed.plain bead inside
  uncommented := by
    apply Bead.isChain_spell fun bead _ _ slash => absurd slash (by decide)
    apply listed.near.imp
    intro first second near
    split
    · exact fun _ => by decide
    · next noGap => exact near (by simpa using noGap)

theorem aliasBeads_ofText {text : Text} (filled : text.compact ≠ []) (plain : ∀ c ∈ text, Plain c)
    (uncommented : text.IsChain Uncommented) : AliasBeads (unlead (ofText false text)) := by
  have chars : (unlead (ofText false text)).map Bead.char = text.compact := by
    rw [Bead.map_char_unlead, Bead.ofText_compact]
  refine ⟨?_, Bead.unlead_unlead _, ?_, ?_⟩
  · intro empty
    rw [empty] at chars
    exact filled chars.symm
  · intro bead member
    have inside : bead.char ∈ (unlead (ofText false text)).map Bead.char :=
      List.mem_map_of_mem member
    rw [chars] at inside
    exact plain bead.char (List.mem_of_mem_filter inside)
  · exact Bead.isChain_unlead (fun _ _ _ same near => same ▸ near)
      (Bead.isChain_ofText uncommented false)

theorem AliasList.exists_beads {aliases : Text} (list : AliasList aliases) :
    ∃ beads, AliasBeads beads ∧ spell beads = aliases := by
  have collapsed : aliases.collapse = aliases :=
    Bead.collapseFrom_of_single list.spaces list.single (by simp)
  have spelled := Bead.trim_collapse aliases
  rw [collapsed, list.trimmed] at spelled
  have filled : aliases.compact ≠ [] := by
    intro empty
    have chars := Bead.ofText_compact false aliases
    rw [empty, List.map_eq_nil_iff] at chars
    rw [chars] at spelled
    exact list.filled spelled
  exact ⟨_, aliasBeads_ofText filled list.plain list.uncommented, spelled.symm⟩

/-- What a closing brace takes from the text behind it is a list of aliases, if it is one at all. -/
theorem fused_cut (text : Text) : Fused (cut text).token := by
  unfold cut
  simp only
  generalize text.dropWhile isIndent = after
  split
  · exact .semicolon
  · split
    · exact .alone
    · split
      · exact .alone
      · split
        · exact .alone
        · next listed =>
            simp only [Bool.or_eq_true, not_or, Bool.not_eq_true,
              blocksAliases_eq_false_iff] at listed
            obtain ⟨filled, plain, uncommented⟩ := listed
            rw [Bead.trim_collapse]
            apply Fused.aliases
            apply aliasList_spell
            refine aliasBeads_ofText ?_ ?_ uncommented
            · simpa [Text.compact, Text.isBlank] using filled
            · intro c member
              have notLast := List.mem_takeWhile_imp member
              have own := plain c member
              refine ⟨own.1, ?_⟩
              rw [List.mem_cons, not_or]
              exact ⟨by simpa using notLast, own.2⟩

/-- A list of aliases is found whole, whatever follows it. -/
theorem cut_aliases {beads : List Bead} (listed : AliasBeads beads) (more : Text) :
    cut (' ' :: (spell beads ++ ';' :: more)) =
      ⟨'}' :: ' ' :: spell beads ++ [';'], ' ' :: spell beads ++ [';'], more⟩ := by
  have list := aliasList_spell listed
  obtain ⟨first, others, starts, solid⟩ := listed.exists_spell_eq
  have notIndent : isIndent first = false := by
    by_contra indent
    simp only [isIndent, Bool.not_eq_false, Bool.or_eq_true, decide_eq_true_eq] at indent
    rcases indent with rfl | rfl <;> exact absurd solid (by decide)
  have notBreak : first ≠ '\n' := by
    rintro rfl
    exact absurd solid (by decide)
  have space : isIndent ' ' := by decide
  have gap : (' ' :: (spell beads ++ ';' :: more)).takeWhile isIndent = [' '] := by
    simp [space, starts, notIndent]
  have after : (' ' :: (spell beads ++ ';' :: more)).dropWhile isIndent =
      spell beads ++ ';' :: more := by
    simp [space, starts, notIndent]
  have inside : ∀ c ∈ spell beads, (c != ';') = true := by
    intro c member
    have own := (list.plain c member).2
    rw [List.mem_cons, not_or] at own
    simpa using own.1
  have filled : Text.isBlank (spell beads) = false := by
    simp [Text.isBlank, starts, solid]
  have free : blocksAliases (spell beads) = false := by
    rw [blocksAliases_eq_false_iff]
    exact ⟨fun c member => (list.plain c member).imp_right fun other inside =>
      other (List.mem_cons_of_mem _ inside), list.uncommented⟩
  rw [cut_of_aliases after inside (by simpa [starts] using notBreak) filled free, gap,
    Bead.collapse_spell, list.trimmed]
  rfl

/-- The printer sets the gaps of a list of aliases by the rule for arguments. -/
theorem formatCloseBrace_aliases {beads : List Bead} (listed : AliasBeads beads) :
    Layout.formatCloseBrace ('}' :: ' ' :: spell beads ++ [';']) =
      '}' :: ' ' :: spell (regap inArguments none beads) ++ [';'] := by
  have semicolon : isBlank ';' = false := by decide
  have whole : spell beads ++ [';'] = spell (beads ++ [⟨false, ';', semicolon⟩]) := by
    rw [Bead.spell_append]
    rfl
  have trimmed : Text.trim (spell beads ++ [';']) = spell beads ++ [';'] := by
    have trimmed := Bead.trim_spell_append (beads ++ [⟨false, ';', semicolon⟩]) false
    rwa [Bead.unlead_append listed.filled, listed.started, Bead.trail_false, List.append_nil,
      ← whole] at trimmed
  have respaced : Text.respaceCommas (spell beads ++ [';']) =
      spell (regap inArguments none (beads ++ [⟨false, ';', semicolon⟩])) := by
    have respaced := Bead.respaceCommas_spell_append (beads ++ [⟨false, ';', semicolon⟩]) false
    simpa [whole, Bead.trail, Bead.final_append, Bead.final] using respaced
  have shape : Layout.formatCloseBrace ('}' :: ' ' :: spell beads ++ [';']) =
      '}' :: ' ' :: Text.tighten ';' (Text.collapse (Text.respaceCommas
        (Text.trim (spell beads ++ [';'])))) := by
    simp [Layout.formatCloseBrace]
  have tightened := Bead.tighten_spell_append semicolon none
    (regap inArguments none (beads ++ [⟨false, ';', semicolon⟩])) false
  rw [Bead.trail_false, List.append_nil, List.append_nil] at tightened
  have noSemicolon : ';' ∉ (regap inArguments none beads).map Bead.char := by
    rw [Bead.map_char_regap]
    intro member
    obtain ⟨bead, inside, same⟩ := List.mem_map.1 member
    simpa [same] using (listed.plain bead inside).2
  rw [shape, trimmed, respaced, Bead.collapse_spell, tightened, Bead.regap_append, Bead.regap_append,
    Bead.regap_tight_of_not_mem noSemicolon, Bead.spell_append]
  simp [Bead.regap, Bead.tight, spell]

theorem AliasBeads.regap {beads : List Bead} (listed : AliasBeads beads) :
    AliasBeads (regap inArguments none beads) where
  filled := by
    cases beads with
    | nil => exact listed.filled
    | cons bead beads => simp [Bead.regap]
  started := by
    rw [← Bead.unlead_regap fun _ => rfl, listed.started]
  plain bead member := by
    have inside : bead.char ∈ (Bead.regap inArguments none beads).map Bead.char :=
      List.mem_map_of_mem member
    rw [Bead.map_char_regap] at inside
    obtain ⟨old, oldMember, same⟩ := List.mem_map.1 inside
    rw [← same]
    exact listed.plain old oldMember
  near := by
    refine Bead.isChain_regap ?_ listed.near none
    intro first second closed near
    simp only [inArguments, Bead.tight, Bead.afterComma, Bool.or_eq_false_iff,
      Bool.and_eq_false_iff] at closed
    rcases closed.1 with noGap | comma
    · exact near noGap
    · have isComma : second.char = ',' := by simpa using comma
      rw [isComma]
      exact fun _ => by decide

/-- A list of aliases is printed as one that is found whole behind its brace and is printed in the
same way. -/
theorem Fused.rereading {text : Text} (fused : Fused text) :
    ∃ after, Layout.formatCloseBrace text = '}' :: after ∧
      Layout.formatCloseBrace (Layout.formatCloseBrace text) = Layout.formatCloseBrace text ∧
      ∀ more : Text, more = [] ∨ more.head? = some '\n' →
        cut (after ++ more) = ⟨Layout.formatCloseBrace text, after, more⟩ := by
  cases fused with
  | alone =>
      refine ⟨[], by decide, by decide, ?_⟩
      rintro more (rfl | lineEnd)
      · decide
      · cases more with
        | nil => simp at lineEnd
        | cons c rest =>
            obtain rfl := Option.some.inj lineEnd
            simp [cut, isIndent, Layout.formatCloseBrace]
  | semicolon =>
      refine ⟨[';'], by decide, by decide, fun more _ => ?_⟩
      simp [cut, isIndent, Layout.formatCloseBrace]
  | aliases list =>
      obtain ⟨beads, listed, rfl⟩ := list.exists_beads
      refine ⟨' ' :: spell (Bead.regap inArguments none beads) ++ [';'], ?_, ?_, ?_⟩
      · rw [formatCloseBrace_aliases listed]
        rfl
      · rw [formatCloseBrace_aliases listed, formatCloseBrace_aliases listed.regap,
          Bead.regap_inArguments_regap]
      · intro more _
        have found := cut_aliases listed.regap more
        rw [formatCloseBrace_aliases listed, ← found]
        simp

end CloseBrace

theorem Token.Yields.fused {before : List Token} {after source : Text} {tokens : List Token}
    (yields : Yields before after source tokens) {token : Token} (member : token ∈ tokens)
    (isClose : token.kind = .braceClose) : CloseBrace.Fused token.text := by
  cases yields with
  | braceClose =>
      rw [List.mem_singleton.1 member]
      exact CloseBrace.fused_cut _
  | members =>
      obtain ⟨text, -, rfl⟩ := List.mem_map.1 member
      cases isClose
  | _ =>
      rw [List.mem_singleton.1 member] at isClose
      cases isClose

namespace CloseBrace

/-- Every closing brace that is cut from a source text stands alone, before a semicolon, or before a
list of aliases. However it is printed, at the end of a text or of a line, the print is cut off whole
again, as the token of a brace that is printed in the same way. -/
theorem fused_and_reread :
    (∀ text tokens, Token.ofSource text = .ok tokens → ∀ token ∈ tokens, token.kind = .braceClose →
      Fused token.text) ∧
      ∀ text, Fused text → ∃ after, Layout.formatCloseBrace text = '}' :: after ∧
        Layout.formatCloseBrace (Layout.formatCloseBrace text) = Layout.formatCloseBrace text ∧
        ∀ more : Text, more = [] ∨ more.head? = some '\n' →
          cut (after ++ more) = ⟨Layout.formatCloseBrace text, after, more⟩ := by
  refine ⟨?_, fun text fused => fused.rereading⟩
  intro text tokens found token member isClose
  obtain ⟨tiles, laid, rfl⟩ := Token.ofSource_laid found
  obtain ⟨_, _, _, _, _, yields, own, -⟩ := laid.exists_yields member
  exact yields.fused own isClose

/-- A list of aliases over two lines, with commas at both ends and in a row, and a brace that finds
none because of a comment. -/
theorem fused_and_reread_commas :
    ∃ tokens, Token.ofSource "\x7d\t, *a ,,\n b/ c\t, ;\x7d d // e;".toList = .ok tokens ∧
      (tokens.filter (·.kind = .braceClose)).map Token.text =
        ["\x7d , *a ,, b/ c ,;", "\x7d"].map String.toList ∧
      (∀ token ∈ tokens, token.kind = .braceClose → Fused token.text) ∧
      Layout.formatCloseBrace "\x7d , *a ,, b/ c ,;".toList = "\x7d , *a, , b/ c,;".toList ∧
      Layout.formatCloseBrace "\x7d , *a, , b/ c,;".toList = "\x7d , *a, , b/ c,;".toList ∧
      cut " , *a, , b/ c,;\nx;".toList =
        ⟨"\x7d , *a, , b/ c,;".toList, " , *a, , b/ c,;".toList, "\nx;".toList⟩ := by
  have texts : (Token.ofSource "\x7d\t, *a ,,\n b/ c\t, ;\x7d d // e;".toList).toOption.map
      (fun tokens => (tokens.filter (·.kind = .braceClose)).map Token.text) =
      some (["\x7d , *a ,, b/ c ,;", "\x7d"].map String.toList) := by
    decide +kernel
  cases found : Token.ofSource "\x7d\t, *a ,,\n b/ c\t, ;\x7d d // e;".toList with
  | error _ =>
      rw [found] at texts
      simp [Except.toOption] at texts
  | ok tokens =>
      rw [found] at texts
      have listed : (tokens.filter (·.kind = .braceClose)).map Token.text =
          ["\x7d , *a ,, b/ c ,;", "\x7d"].map String.toList :=
        Option.some.inj texts
      have shapes := fused_and_reread.1 _ tokens found
      have printed : Layout.formatCloseBrace "\x7d , *a ,, b/ c ,;".toList =
          "\x7d , *a, , b/ c,;".toList := by
        decide +kernel
      have fused : Fused "\x7d , *a ,, b/ c ,;".toList := by
        have member : "\x7d , *a ,, b/ c ,;".toList ∈
            (tokens.filter (·.kind = .braceClose)).map Token.text := by
          rw [listed]
          exact List.mem_cons_self
        obtain ⟨token, inside, same⟩ := List.mem_map.1 member
        rw [List.mem_filter, decide_eq_true_eq] at inside
        rw [← same]
        exact shapes token inside.1 inside.2
      obtain ⟨after, shape, again, cut⟩ := fused_and_reread.2 _ fused
      rw [printed] at shape again cut
      obtain rfl := (List.cons.inj shape).2
      exact ⟨tokens, rfl, listed, shapes, printed, again, cut "\nx;".toList (.inr rfl)⟩

end CloseBrace

end IdlFormat
