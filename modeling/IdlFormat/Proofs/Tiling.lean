import IdlFormat.Proofs.Mask
import IdlFormat.Proofs.Span
import IdlFormat.Token.OfSource
import Mathlib.Data.List.TakeWhile

/-!
# Tilings of a source text

The tokens of a source text come in groups, one for each span, and the spans tile the text: they
follow each other without overlap, none is empty, and what stands outside them is blank. `Yields`
says which tokens a span can give, by its source, the tokens before it and the text after it.

The spans are laid out along the text by one induction (`Token.ofSource_laid`). What holds of the
tokens of every source text is then read off `Laid`, one lemma for each fact.
-/

namespace IdlFormat

namespace Span

/-- A cut off span starts with the character that decided on it. -/
theorem exists_source_cut_eq (c : Char) (rest : Text) :
    ∃ tail, (cut c rest).1.source = c :: tail := by
  have whole := source_append_cut c rest
  cases shape : (cut c rest).1.source with
  | nil =>
      have shorter := length_cut_lt c rest
      rw [shape, List.nil_append] at whole
      rw [whole] at shorter
      exact absurd shorter (Nat.lt_irrefl _)
  | cons d tail =>
      rw [shape, List.cons_append] at whole
      rw [(List.cons.inj whole).1]
      exact ⟨tail, rfl⟩

/-- A body ends before a text, if only blanks stand before a closing brace or the end. -/
def endsBody (text : Text) : Bool :=
  (text.dropWhile isBlank).head?.all (· = '}')

/-- Looking at the spans that follow is looking at the next character that is not blank. -/
theorem closesBody_split (text : Text) : closesBody (split text) = endsBody text := by
  rw [split, endsBody]
  split
  · next start => simp [start, closesBody]
  · next c rest start =>
      simp only [start, List.head?_cons, Option.all_some]
      unfold cut
      split
      · next form opens =>
          have notBrace : c ≠ '}' := by
            rintro rfl
            simp [Comment.form?] at opens
          simp [closesBody, notBrace]
      · split
        · next hash => simp [closesBody, hash]
        · split
          · next bracket => simp [closesBody, bracket]
          · split
            · next brace => simp [closesBody, brace]
            · split
              · next brace => simp [closesBody, brace]
              · next notBrace => simp [closesBody, notBrace]

end Span

namespace Token

/-- The tokens that a span can give, where `before` holds the tokens in front of it and `after` the
text behind it. -/
inductive Yields (before : List Token) (after : Text) : Text → List Token → Prop
  /-- A line comment is kept as it stands. -/
  | lineComment {source : Text} (opens : ['/', '/'] <+: source) :
      Yields before after source [{ kind := .comment, text := source }]
  /-- A block comment is kept as it stands, with its raw text. -/
  | blockComment {source : Text} (opens : ['/', '*'] <+: source) :
      Yields before after source [{ kind := .comment, text := source, rawText := some source }]
  /-- A directive is kept as it stands. -/
  | directive {source : Text} (opens : ['#'] <+: source) :
      Yields before after source [{ kind := .directive, text := source }]
  /-- An attribute block is kept as it stands. -/
  | attributeBlock {source : Text} (opens : ['['] <+: source) :
      Yields before after source [{ kind := .attributeBlock, text := source }]
  /-- An opening brace stands alone. -/
  | braceOpen : Yields before after ['{'] [{ kind := .braceOpen, text := ['{'] }]
  /-- A closing brace may take some of the text behind it. -/
  | braceClose {rest : Text} (leaves : (CloseBrace.cut rest).rest = after) :
      Yields before after ('}' :: (CloseBrace.cut rest).taken)
        [{ kind := .braceClose, text := (CloseBrace.cut rest).token }]
  /-- A unit of code that begins a declaration. -/
  | declaration {source normalized : Text} (normal : Statement.normalize source = .ok normalized)
      (declares : Statement.isDeclaration normalized) :
      Yields before after source [{ kind := .declaration, text := normalized }]
  /-- Any other unit of code that is not a list of members. -/
  | statement {source normalized : Text} (normal : Statement.normalize source = .ok normalized)
      (plain : Statement.isDeclaration normalized = false)
      (single : insideEnum before → EnumMember.split (!Span.endsBody after) normalized = []) :
      Yields before after source [{ kind := .statement, text := normalized }]
  /-- A unit of code in the body of an enumeration gives its members. -/
  | members {source normalized : Text} (normal : Statement.normalize source = .ok normalized)
      (plain : Statement.isDeclaration normalized = false) (inside : insideEnum before)
      (filled : EnumMember.split (!Span.endsBody after) normalized ≠ []) :
      Yields before after source
        ((EnumMember.split (!Span.endsBody after) normalized).map
          fun member => { kind := .statement, text := member })

theorem Yields.ne_nil {before : List Token} {after source : Text} {tokens : List Token}
    (yields : Yields before after source tokens) : tokens ≠ [] := by
  cases yields with
  | members _ _ _ filled => simpa using filled
  | _ => simp

/-- What holds of every token that is cut from source text. -/
structure Emitted (token : Token) : Prop where
  /-- The other kinds are never cut. -/
  kind : token.kind ∈ [.comment, .directive, .attributeBlock, .braceOpen, .braceClose, .statement,
    .declaration]
  /-- The raw text is the text of a block comment, and absent otherwise. -/
  rawText : token.rawText =
    if token.kind = .comment ∧ ['/', '*'] <+: token.text then some token.text else none
  /-- A declaration begins with the word of one. -/
  declares : token.kind = .declaration → Statement.isDeclaration token.text

theorem Yields.emitted {before : List Token} {after source : Text} {tokens : List Token}
    (yields : Yields before after source tokens) {token : Token} (member : token ∈ tokens) :
    token.Emitted := by
  cases yields with
  | lineComment opens =>
      obtain ⟨body, rfl⟩ := opens
      rw [List.mem_singleton.1 member]
      exact ⟨by simp, by simp, by simp⟩
  | blockComment opens =>
      rw [List.mem_singleton.1 member]
      exact ⟨by simp, by simp [opens], by simp⟩
  | declaration _ declares =>
      rw [List.mem_singleton.1 member]
      exact ⟨by simp, by simp, fun _ => declares⟩
  | members =>
      obtain ⟨text, -, rfl⟩ := List.mem_map.1 member
      exact ⟨by simp, by simp, by simp⟩
  | _ =>
      rw [List.mem_singleton.1 member]
      exact ⟨by simp, by simp, by simp⟩

theorem ofCodeUnit_yields {before : List Token} {after source : Text} {tokens : List Token}
    (found : ofCodeUnit (insideEnum before) (Span.endsBody after) source = .ok tokens) :
    Yields before after source tokens := by
  obtain ⟨normalized, normal, found⟩ := bind_eq_ok_iff.1 found
  split at found
  · next declares =>
      obtain rfl := Except.ok.inj found
      exact .declaration normal declares
  · next other =>
      have plain : Statement.isDeclaration normalized = false := by simpa using other
      cases inside : insideEnum before with
      | false =>
          rw [inside] at found
          obtain rfl := Except.ok.inj found
          exact .statement normal plain (by simp [inside])
      | true =>
          rw [inside, if_pos rfl] at found
          simp only at found
          split at found
          · next none =>
              obtain rfl := Except.ok.inj found
              exact .statement normal plain fun _ => List.isEmpty_iff.1 none
          · next some =>
              obtain rfl := Except.ok.inj found
              exact .members normal plain inside fun empty => some (List.isEmpty_iff.2 empty)

/-- Every rule that cuts a span gives tokens of its own form. -/
theorem ofSpan_yields {before : List Token} {c : Char} {rest : Text} {tokens : List Token}
    (found : ofSpan before.reverse (Span.closesBody (Span.split (Span.cut c rest).2))
      (Span.cut c rest).1 = .ok tokens) :
    Yields before (Span.cut c rest).2 (Span.cut c rest).1.source tokens := by
  rw [Span.closesBody_split] at found
  obtain ⟨tail, starts⟩ := Span.exists_source_cut_eq c rest
  generalize shape : Span.cut c rest = cut at found starts ⊢
  unfold Span.cut at shape
  split at shape
  · next form opens =>
      subst shape
      cases form with
      | line =>
          obtain rfl := Except.ok.inj found
          obtain ⟨body, same⟩ := Comment.eq_of_form?_eq_line opens
          refine .lineComment ?_
          simp [Span.source, Comment.cut, same]
      | block =>
          obtain rfl := Except.ok.inj found
          obtain ⟨body, same⟩ := Comment.eq_of_form?_eq_block opens
          refine .blockComment ?_
          simp [Span.source, Comment.cut, same]
  · split at shape
    · next hash =>
        subst shape hash
        obtain rfl := Except.ok.inj found
        exact .directive ⟨tail, starts.symm⟩
    · split at shape
      · next bracket =>
          subst shape bracket
          obtain rfl := Except.ok.inj found
          exact .attributeBlock ⟨tail, starts.symm⟩
      · split at shape
        · subst shape
          obtain rfl := Except.ok.inj found
          exact .braceOpen
        · split at shape
          · next brace =>
              subst shape brace
              obtain rfl := Except.ok.inj found
              exact .braceClose rfl
          · subst shape
            exact ofCodeUnit_yields found

/-! ## Tiles along a text -/

/-- A range of offsets, with the tokens that the source there gives. -/
structure Tile where
  /-- The offset of the first character. -/
  start : Nat
  /-- The offset behind the last character. -/
  stop : Nat
  /-- The tokens that the range gives. -/
  tokens : List Token
deriving DecidableEq, Repr

/-- Whether a tile covers an offset. -/
def Tile.Covers (tile : Tile) (offset : Nat) : Prop :=
  tile.start ≤ offset ∧ offset < tile.stop

/-- The tokens of tiles in order. -/
def Tile.allTokens (tiles : List Tile) : List Token :=
  tiles.flatMap Tile.tokens

/-- Tiles laid out along a text that starts at an offset, behind the tokens `before`. -/
inductive Laid : Nat → List Token → Text → List Tile → Prop
  /-- A blank text has no tiles. -/
  | blank {offset : Nat} {before : List Token} {text : Text} (blank : text.all isBlank) :
      Laid offset before text []
  /-- A tile starts at the first character that is not blank. -/
  | tile {offset : Nat} {before : List Token} {gap : Text} {c : Char} {tail rest : Text}
      {tokens : List Token} {tiles : List Tile} (blank : gap.all isBlank)
      (solid : isBlank c = false) (yields : Yields before rest (c :: tail) tokens)
      (later : Laid (offset + gap.length + (c :: tail).length) (before ++ tokens) rest tiles) :
      Laid offset before (gap ++ (c :: tail ++ rest))
        (⟨offset + gap.length, offset + gap.length + (c :: tail).length, tokens⟩ :: tiles)

/-- The spans of a text are laid out along it. -/
theorem ofSpansAfter_laid {text : Text} {before tokens : List Token} (offset : Nat)
    (found : ofSpansAfter before.reverse (Span.split text) = .ok tokens) :
    ∃ tiles, Laid offset before text tiles ∧ tokens = before ++ Tile.allTokens tiles := by
  fun_induction Span.split text generalizing before offset with
  | case1 text start =>
      obtain rfl := Except.ok.inj found
      refine ⟨[], .blank ?_, by simp [Tile.allTokens]⟩
      simpa [List.dropWhile_eq_nil_iff] using start
  | case2 text c rest start ih =>
      obtain ⟨group, own, found⟩ := bind_eq_ok_iff.1 found
      rw [← List.reverse_append] at found
      have yields := ofSpan_yields own
      obtain ⟨tail, starts⟩ := Span.exists_source_cut_eq c rest
      rw [starts] at yields
      obtain ⟨tiles, laid, same⟩ :=
        ih (offset + (text.takeWhile isBlank).length + (c :: tail).length) found
      have whole : text = text.takeWhile isBlank ++ (c :: tail ++ (Span.cut c rest).2) := by
        rw [← starts, Span.source_append_cut, ← start, List.takeWhile_append_dropWhile]
      have solid : isBlank c = false := by
        have first := List.head?_dropWhile_not isBlank text
        simpa [start] using first
      have along := Laid.tile (List.all_takeWhile (l := text)) solid yields laid
      rw [← whole] at along
      refine ⟨_, along, ?_⟩
      rw [same, Tile.allTokens, Tile.allTokens, List.flatMap_cons, List.append_assoc]

/-- The tokens of a text are those of tiles laid out along it. -/
theorem ofSource_laid {text : Text} {tokens : List Token} (found : ofSource text = .ok tokens) :
    ∃ tiles, Laid 0 [] text tiles ∧ tokens = Tile.allTokens tiles :=
  @ofSpansAfter_laid text [] tokens 0 found

namespace Laid

variable {offset : Nat} {before : List Token} {text : Text} {tiles : List Tile} {tile : Tile}

theorem start_lt_stop (laid : Laid offset before text tiles) (member : tile ∈ tiles) :
    tile.start < tile.stop := by
  induction laid with
  | blank => simp at member
  | tile _ _ _ _ ih =>
      rcases List.mem_cons.1 member with rfl | later
      · simp
      · exact ih later

theorem offset_le_start (laid : Laid offset before text tiles) (member : tile ∈ tiles) :
    offset ≤ tile.start := by
  induction laid with
  | blank => simp at member
  | tile _ _ _ _ ih =>
      rcases List.mem_cons.1 member with rfl | later
      · simp
      · have := ih later
        omega

theorem stop_le (laid : Laid offset before text tiles) (member : tile ∈ tiles) :
    tile.stop ≤ offset + text.length := by
  induction laid with
  | blank => simp at member
  | tile _ _ _ _ ih =>
      rw [List.length_append, List.length_append]
      rcases List.mem_cons.1 member with rfl | later
      · simp only
        omega
      · have := ih later
        omega

/-- No tile starts before the one in front of it stops. -/
theorem ordered (laid : Laid offset before text tiles) :
    tiles.Pairwise fun first second => first.stop ≤ second.start := by
  induction laid with
  | blank => exact .nil
  | tile _ _ _ later ih =>
      rw [List.pairwise_cons]
      exact ⟨fun second member => later.offset_le_start member, ih⟩

/-- What no tile covers is blank. -/
theorem isBlank_of_not_covers (laid : Laid offset before text tiles) {index : Nat} {c : Char}
    (found : text[index]? = some c) (outside : ∀ tile ∈ tiles, ¬ tile.Covers (offset + index)) :
    isBlank c := by
  induction laid generalizing index with
  | blank blank => exact List.all_eq_true.1 blank c (List.mem_of_getElem? found)
  | @tile offset _ gap first tail rest _ tiles blank _ _ _ ih =>
      by_cases inGap : index < gap.length
      · rw [List.getElem?_append_left inGap] at found
        exact List.all_eq_true.1 blank c (List.mem_of_getElem? found)
      · have beyond : gap.length + (first :: tail).length ≤ index := by
          have uncovered := outside _ List.mem_cons_self
          simp only [Tile.Covers] at uncovered
          omega
        rw [List.getElem?_append_right (by omega), List.getElem?_append_right (by omega)] at found
        apply ih found
        intro tile member
        have uncovered := outside tile (List.mem_cons_of_mem _ member)
        have same : offset + gap.length + (first :: tail).length +
            (index - gap.length - (first :: tail).length) = offset + index := by omega
        rwa [same]

/-- A tile gives the tokens of the source that it covers. -/
theorem yields (laid : Laid offset before text tiles) {first later : List Tile}
    (place : tiles = first ++ tile :: later) {left : Text} (start : left.length = offset) :
    Yields (before ++ Tile.allTokens first) ((left ++ text).drop tile.stop)
      ((left ++ text).extract tile.start tile.stop) tile.tokens := by
  induction laid generalizing first left with
  | blank => simp at place
  | @tile offset before gap c tail rest tokens tiles _ _ yields _ ih =>
      have reach : (left ++ gap).length = offset + gap.length := by rw [List.length_append, start]
      have parts : left ++ (gap ++ (c :: tail ++ rest)) = left ++ gap ++ (c :: tail ++ rest) :=
        (List.append_assoc left gap _).symm
      cases first with
      | nil =>
          simp only [List.nil_append, List.cons.injEq] at place
          obtain ⟨rfl, -⟩ := place
          rw [parts, ← reach]
          simpa [Tile.allTokens, List.extract_eq_take_drop, ← List.drop_drop] using yields
      | cons head first =>
          simp only [List.cons_append, List.cons.injEq] at place
          obtain ⟨rfl, place⟩ := place
          have further : (left ++ gap ++ (c :: tail)).length =
              offset + gap.length + (c :: tail).length := by
            rw [List.length_append, reach]
          have more := ih place further
          rw [parts, ← List.append_assoc]
          simpa [Tile.allTokens] using more

/-- A token comes from a part of the text that starts with a solid character. -/
theorem exists_yields (laid : Laid offset before text tiles) {token : Token}
    (member : token ∈ Tile.allTokens tiles) :
    ∃ earlier after c tail group, Yields earlier after (c :: tail) group ∧ token ∈ group ∧
      c :: tail ++ after <:+ text ∧ isBlank c = false := by
  induction laid with
  | blank => simp [Tile.allTokens] at member
  | @tile _ before gap c tail rest tokens _ _ solid yields _ ih =>
      rw [Tile.allTokens, List.flatMap_cons] at member
      rcases List.mem_append.1 member with own | later
      · exact ⟨before, rest, c, tail, tokens, yields, own, ⟨gap, rfl⟩, solid⟩
      · obtain ⟨earlier, after, d, more, group, found, inGroup, part, first⟩ := ih later
        have within : rest <:+ gap ++ (c :: tail ++ rest) := by
          rw [← List.append_assoc]
          exact List.suffix_append _ _
        exact ⟨earlier, after, d, more, group, found, inGroup, part.trans within, first⟩

theorem emitted (laid : Laid offset before text tiles) {token : Token}
    (member : token ∈ Tile.allTokens tiles) : token.Emitted := by
  obtain ⟨_, _, _, _, _, yields, own, -⟩ := laid.exists_yields member
  exact yields.emitted own

end Laid

/-- Tiles of a text, in order and without overlap, with nothing but blanks outside them, whose
tokens are the given ones. -/
structure Tiling (text : Text) (tokens : List Token) where
  /-- The tiles. -/
  tiles : List Tile
  /-- No tile is empty. -/
  filled : ∀ tile ∈ tiles, tile.start < tile.stop
  /-- A tile stops before the ones behind it start. -/
  ordered : tiles.Pairwise fun first second => first.stop ≤ second.start
  /-- A tile lies in the text. -/
  inside : ∀ tile ∈ tiles, tile.stop ≤ text.length
  /-- A character that no tile covers is blank. -/
  outside : ∀ offset c, text[offset]? = some c → (∀ tile ∈ tiles, ¬ tile.Covers offset) → isBlank c
  /-- The tokens are those of the tiles in order. -/
  tokens_eq : tokens = Tile.allTokens tiles
  /-- Every tile gives a token. -/
  tokens_ne_nil : ∀ tile ∈ tiles, tile.tokens ≠ []
  /-- A tile gives the tokens of the source that it covers, in its place. -/
  yields : ∀ first tile later, tiles = first ++ tile :: later →
    Yields (Tile.allTokens first) (text.drop tile.stop) (text.extract tile.start tile.stop) tile.tokens

/-- The tokens of a source text tile it, and all of them are of the kinds that are cut. -/
theorem nonempty_tiling {text : Text} {tokens : List Token} (found : ofSource text = .ok tokens) :
    Nonempty (Tiling text tokens) ∧ ∀ token ∈ tokens, token.Emitted := by
  obtain ⟨tiles, laid, rfl⟩ := ofSource_laid found
  have yields (first : List Tile) (tile : Tile) (later : List Tile)
      (place : tiles = first ++ tile :: later) :
      Yields (Tile.allTokens first) (text.drop tile.stop) (text.extract tile.start tile.stop)
        tile.tokens :=
    laid.yields place (List.length_nil : ([] : Text).length = 0)
  refine ⟨⟨tiles, fun tile => laid.start_lt_stop, laid.ordered, ?_, ?_, rfl, ?_, yields⟩,
    fun token => laid.emitted⟩
  · intro tile member
    have := laid.stop_le member
    omega
  · intro offset c there uncovered
    apply laid.isBlank_of_not_covers there
    simpa using uncovered
  · intro tile member
    obtain ⟨first, later, place⟩ := List.append_of_mem member
    exact (yields first tile later place).ne_nil

/-- A directive with a continuation line, an attribute block, an enumeration with two members on one
line, and a comment. -/
theorem nonempty_tiling_enum :
    ∃ tokens, ofSource "#d\\\n\n[a]enum E \x7bA , B\x7d x ;// c".toList = .ok tokens ∧
      tokens.map Token.text = ["#d\\\n", "[a]", "enum E", "\x7b", "A,", "B", "\x7d x;", "// c"].map
        String.toList ∧
      Nonempty (Tiling "#d\\\n\n[a]enum E \x7bA , B\x7d x ;// c".toList tokens) := by
  have texts : (ofSource "#d\\\n\n[a]enum E \x7bA , B\x7d x ;// c".toList).toOption.map
      (·.map Token.text) = some (["#d\\\n", "[a]", "enum E", "\x7b", "A,", "B", "\x7d x;", "// c"].map
        String.toList) := by
    decide +kernel
  cases found : ofSource "#d\\\n\n[a]enum E \x7bA , B\x7d x ;// c".toList with
  | error _ =>
      rw [found] at texts
      simp [Except.toOption] at texts
  | ok tokens =>
      rw [found] at texts
      exact ⟨tokens, rfl, Option.some.inj texts, (nonempty_tiling found).1⟩

end Token

end IdlFormat
