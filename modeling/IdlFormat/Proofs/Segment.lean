import IdlFormat.Source.Segment

/-!
# Segments of a text

The segments of a text spell it, and they are cut where each of them fits the character that
follows: an open literal and a line comment stop at a line break or at the end, an open block
comment stops at the end only, and no two characters of code open a comment. A list of segments in
which each fits the next one is called lexed. `split_spell` and `lexed_split` say that the lexed
lists are exactly those that texts fall into, so a text can be replaced by its segments and back.
-/

namespace IdlFormat

theorem isQuote_iff {c : Char} : isQuote c ↔ c = '"' ∨ c = '\'' := by
  simp [isQuote]

namespace Literal

theorem quote_ne_break {quote : Char} (opens : isQuote quote) : quote ≠ '\n' := by
  rintro rfl
  simp [isQuote] at opens

theorem quote_ne_backslash {quote : Char} (opens : isQuote quote) : quote ≠ '\\' := by
  rintro rfl
  simp [isQuote] at opens

theorem quote_ne_slash {quote : Char} (opens : isQuote quote) : quote ≠ '/' := by
  rintro rfl
  simp [isQuote] at opens

/-- Where a literal can stop: anywhere once it is closed, else at the end of its line. -/
def Stops (repair : Text) (next : Option Char) : Prop :=
  repair = [] ∨ next = none ∨ next = some '\n'

theorem stops_scan (quote : Char) (escaped : Bool) (text : Text) :
    Stops (scan quote escaped text).repair (scan quote escaped text).rest.head? := by
  fun_induction scan quote escaped text <;> simp_all [Scan.cons, Stops]

theorem repair_scan (quote : Char) (escaped : Bool) (text : Text) :
    (scan quote escaped text).repair = [] ∨
      ∃ lone, (scan quote escaped text).repair = repair quote lone := by
  fun_induction scan quote escaped text with
  | case1 escaped => exact .inr ⟨escaped, rfl⟩
  | case2 _ _ _ _ ih => exact ih
  | case3 _ _ _ ih => exact ih
  | case4 => exact .inl rfl
  | case5 escaped => exact .inr ⟨escaped, rfl⟩
  | case6 _ _ _ _ _ _ _ ih => exact ih

theorem scan_body (quote : Char) (escaped : Bool) (text : Text) :
    scan quote escaped (scan quote escaped text).body =
      ⟨(scan quote escaped text).body, [], (scan quote escaped text).repair⟩ := by
  fun_induction scan quote escaped text with
  | case1 => rfl
  | case2 _ _ _ _ ih => simp_all [Scan.cons, scan]
  | case3 _ _ _ ih => simp_all [Scan.cons, scan]
  | case4 => simp_all [scan]
  | case5 => simp_all [scan]
  | case6 _ _ _ _ _ _ _ ih => simp_all [Scan.cons, scan]

theorem scan_cons {quote c : Char} {escaped : Bool} (notBreak : c ≠ '\n')
    (goesOn : escaped ∨ c ≠ quote) (rest : Text) :
    scan quote escaped (c :: rest) = (scan quote (!escaped && c = '\\') rest).cons c := by
  cases escaped with
  | true => simp [scan, notBreak]
  | false =>
      have notQuote : c ≠ quote := by simpa using goesOn
      by_cases backslash : c = '\\' <;> simp [scan, notBreak, notQuote, backslash]

/-- The first character of a literal that is cut off whole either closes it or is followed by the
rest of it. -/
theorem scan_cons_whole {quote c : Char} (opens : isQuote quote) {escaped : Bool}
    {body repair : Text} (whole : scan quote escaped (c :: body) = ⟨c :: body, [], repair⟩) :
    (escaped = false ∧ c = quote ∧ body = [] ∧ repair = []) ∨
      (c ≠ '\n' ∧ (escaped ∨ c ≠ quote) ∧
        scan quote (!escaped && c = '\\') body = ⟨body, [], repair⟩) := by
  by_cases goesOn : c ≠ '\n' ∧ (escaped ∨ c ≠ quote)
  · right
    refine ⟨goesOn.1, goesOn.2, ?_⟩
    rw [scan_cons goesOn.1 goesOn.2] at whole
    cases inner : scan quote (!escaped && c = '\\') body
    simpa [Scan.cons, inner] using whole
  · left
    have notBreak := quote_ne_break opens
    have notBackslash := quote_ne_backslash opens
    by_cases atBreak : c = '\n'
    · subst atBreak
      simp [scan, notBreak.symm] at whole
    · have closing : escaped = false ∧ c = quote := by simpa [atBreak] using goesOn
      obtain ⟨rfl, rfl⟩ := closing
      simpa [scan, notBackslash] using whole

/-- A literal that is cut off whole is cut off the same way in front of any text where it can
stop. -/
theorem scan_append {quote : Char} (opens : isQuote quote) {escaped : Bool} {body repair : Text}
    (whole : scan quote escaped body = ⟨body, [], repair⟩) {rest : Text}
    (stops : Stops repair rest.head?) :
    scan quote escaped (body ++ rest) = ⟨body, rest, repair⟩ := by
  have notBreak := quote_ne_break opens
  have notBackslash := quote_ne_backslash opens
  induction body generalizing escaped with
  | nil =>
      simp only [scan, Scan.mk.injEq, true_and] at whole
      cases rest with
      | nil => simpa [scan] using whole
      | cons c tail =>
          have isOpen : repair ≠ [] := by
            rw [← whole, Literal.repair]
            split <;> simp
          obtain rfl : c = '\n' := by simpa [Stops, isOpen] using stops
          simp [scan, notBreak.symm, whole]
  | cons c body ih =>
      rcases scan_cons_whole opens whole with ⟨rfl, rfl, rfl, rfl⟩ | ⟨inLine, goesOn, inner⟩
      · simp [scan, notBackslash]
      · rw [List.cons_append, scan_cons inLine goesOn, ih inner, Scan.cons]

/-- A literal that is closed by its repair is read whole. -/
theorem scan_append_repair {quote : Char} (quoted : isQuote quote) {escaped : Bool}
    {body repair : Text} (whole : scan quote escaped body = ⟨body, [], repair⟩) :
    scan quote escaped (body ++ repair) = ⟨body ++ repair, [], []⟩ := by
  have notBackslash := quote_ne_backslash quoted
  induction body generalizing escaped with
  | nil =>
      simp only [scan, Scan.mk.injEq, true_and] at whole
      subst whole
      cases escaped <;> simp [Literal.repair, scan, Scan.cons, notBackslash]
  | cons c body ih =>
      rcases scan_cons_whole quoted whole with ⟨rfl, rfl, rfl, rfl⟩ | ⟨inLine, goesOn, inner⟩
      · simp [scan, notBackslash]
      · rw [List.cons_append, scan_cons inLine goesOn, ih inner, Scan.cons]

/-- A closed literal ends in its quote. -/
theorem exists_body_eq {quote : Char} (quoted : isQuote quote) {escaped : Bool} {body : Text}
    (whole : scan quote escaped body = ⟨body, [], []⟩) : ∃ init, body = init ++ [quote] := by
  induction body generalizing escaped with
  | nil =>
      simp only [scan, Scan.mk.injEq, true_and] at whole
      cases escaped <;> simp [repair] at whole
  | cons c body ih =>
      rcases scan_cons_whole quoted whole with ⟨-, rfl, rfl, -⟩ | ⟨-, -, inner⟩
      · exact ⟨[], rfl⟩
      · obtain ⟨init, rfl⟩ := ih inner
        exact ⟨c :: init, rfl⟩

end Literal

namespace Comment

/-- Whether two neighbouring characters open a comment. -/
def opens (c : Char) (next : Option Char) : Bool :=
  c = '/' && (next = some '/' || next = some '*')

theorem form?_cons_eq_none_iff (c : Char) (rest : Text) :
    form? (c :: rest) = none ↔ opens c rest.head? = false := by
  unfold form? opens
  split
  · simp_all
  · simp_all
  · next noLine noBlock =>
      cases rest with
      | nil => simp
      | cons d tail =>
          simp only [List.head?_cons, Option.some.injEq, true_iff]
          by_cases slash : c = '/'
          · have notSlash : d ≠ '/' := by
              rintro rfl
              exact noLine tail (by rw [slash])
            have notStar : d ≠ '*' := by
              rintro rfl
              exact noBlock tail (by rw [slash])
            simp [notSlash, notStar]
          · simp [slash]

theorem form?_of_isQuote {quote : Char} (quoted : isQuote quote) (rest : Text) :
    form? (quote :: rest) = none := by
  rw [form?_cons_eq_none_iff]
  simp [opens, Literal.quote_ne_slash quoted]

theorem eq_of_form?_eq_line {text : Text} (found : form? text = some .line) :
    ∃ body, text = '/' :: '/' :: body := by
  unfold form? at found
  split at found
  · exact ⟨_, rfl⟩
  · simp at found
  · simp at found

theorem eq_of_form?_eq_block {text : Text} (found : form? text = some .block) :
    ∃ body, text = '/' :: '*' :: body := by
  unfold form? at found
  split at found
  · simp at found
  · exact ⟨_, rfl⟩
  · simp at found

/-- Whether a text holds `*/`. -/
def closes : Text → Bool
  | [] => false
  | '*' :: '/' :: _ => true
  | _ :: rest => closes rest

/-- What stands after `/*` is cut off whole if it holds no `*/` before its end. -/
def IsBody (body : Text) : Prop :=
  throughClose body = (body, [])

theorem isBody_throughClose (text : Text) : IsBody (throughClose text).1 := by
  unfold IsBody
  fun_induction throughClose text with
  | case1 => rfl
  | case2 rest => simp [throughClose]
  | case3 c rest noClose taken after cut ih =>
      rw [cut] at ih
      show throughClose (c :: taken) = (c :: taken, [])
      have parts := throughClose_append rest
      rw [cut] at parts
      rw [throughClose, ih]
      intro tail star slash
      rw [slash, List.cons_append] at parts
      exact noClose _ star parts.symm

theorem closes_cons (c : Char) {text : Text} (closed : closes text) : closes (c :: text) := by
  unfold closes
  split
  · next empty => simp at empty
  · rfl
  · next same =>
      simp only [List.cons.injEq] at same
      rw [← same.2]
      exact closed

theorem closes_throughClose (text : Text) :
    closes (throughClose text).1 ∨ (throughClose text).2 = [] := by
  fun_induction throughClose text with
  | case1 => exact .inr rfl
  | case2 rest => exact .inl rfl
  | case3 c rest noClose taken after cut ih =>
      rw [cut] at ih
      rcases ih with closed | ended
      · exact .inl (closes_cons c closed)
      · exact .inr ended

/-- A body is cut off the same way in front of any text, if it is closed. -/
theorem throughClose_append_of_isBody {body rest : Text} (whole : IsBody body)
    (stops : closes body ∨ rest = []) : throughClose (body ++ rest) = (body, rest) := by
  unfold IsBody at whole
  fun_induction throughClose body with
  | case1 => simp_all [closes, throughClose]
  | case2 tail => simp_all [throughClose]
  | case3 c tail noClose taken after cut ih =>
      simp only [Prod.mk.injEq, List.cons.injEq, true_and] at whole
      obtain ⟨rfl, rfl⟩ := whole
      rcases stops with closed | ended
      · cases taken with
        | nil => simp [closes] at closed
        | cons d tail =>
            rw [closes] at closed
            · rw [List.cons_append, throughClose, ih cut (.inl closed)]
              intro more star slash
              simp only [List.cons_append, List.cons.injEq] at slash
              exact noClose tail star (by rw [slash.1])
            · intro more star slash
              exact noClose more star slash
      · simp [ended, throughClose, cut]

theorem cut_line_append {body rest : Text} (noBreak : '\n' ∉ body)
    (stops : rest.head? = none ∨ rest.head? = some '\n') :
    cut .line ('/' :: '/' :: body ++ rest) = ('/' :: '/' :: body, rest) := by
  have before : ∀ c ∈ '/' :: '/' :: body, (c != '\n') = true := by
    intro c member
    simp only [List.mem_cons] at member
    rcases member with rfl | rfl | member
    · rfl
    · rfl
    · simp only [bne_iff_ne, ne_eq]
      rintro rfl
      exact noBreak member
  rw [cut, List.takeWhile_append_of_pos before, List.dropWhile_append_of_pos before]
  cases rest with
  | nil => simp
  | cons d tail =>
      obtain rfl : d = '\n' := by simpa using stops
      simp

theorem cut_block_append {body rest : Text} (whole : IsBody body)
    (stops : closes body ∨ rest = []) :
    cut .block ('/' :: '*' :: body ++ rest) = ('/' :: '*' :: body, rest) := by
  simp [cut, throughClose_append_of_isBody whole stops]

end Comment

namespace Segment

theorem isBlank_quote {quote : Char} (quoted : isQuote quote) : isBlank quote = false := by
  rcases isQuote_iff.1 quoted with rfl | rfl <;> decide

/-- The text that segments spell. -/
def spell (segments : List Segment) : Text :=
  segments.flatMap Segment.text

@[simp]
theorem spell_nil : spell [] = [] := rfl

@[simp]
theorem spell_cons (segment : Segment) (segments : List Segment) :
    spell (segment :: segments) = segment.text ++ spell segments := rfl

@[simp]
theorem spell_append (left right : List Segment) : spell (left ++ right) = spell left ++ spell right :=
  List.flatMap_append

theorem spell_map_code (gap : Text) : spell (gap.map .code) = gap := by
  induction gap with
  | nil => rfl
  | cons c gap ih => rw [List.map_cons, spell_cons, ih]; rfl

theorem spell_replicate_code (count : Nat) (c : Char) :
    spell (List.replicate count (.code c)) = List.replicate count c := by
  have codes := spell_map_code (List.replicate count c)
  rwa [List.map_replicate] at codes

theorem spell_split (text : Text) : spell (split text) = text := by
  fun_induction split text with
  | case1 text form opens ih => simp [Segment.text, ih, Comment.cut_append]
  | case2 => rfl
  | case3 c rest _ quoted scan ih => simp [Segment.text, ih, scan, Literal.body_append_rest]
  | case4 c rest _ unquoted ih => simp [Segment.text, ih]

/-- Whether a segment can be followed by a character, or by the end. -/
def Fits : Segment → Option Char → Prop
  | .code c, next => isQuote c = false ∧ Comment.opens c next = false
  | .literal text repair, next =>
      ∃ quote body, text = quote :: body ∧ isQuote quote ∧
        Literal.scan quote false body = ⟨body, [], repair⟩ ∧ Literal.Stops repair next
  | .comment .line text, next =>
      ∃ body, text = '/' :: '/' :: body ∧ '\n' ∉ body ∧ (next = none ∨ next = some '\n')
  | .comment .block text, next =>
      ∃ body, text = '/' :: '*' :: body ∧ Comment.IsBody body ∧
        (Comment.closes body ∨ next = none)

/-- Lists of segments in which each segment fits what follows it. -/
def Lexed : List Segment → Prop
  | [] => True
  | segment :: segments => segment.Fits (spell segments).head? ∧ Lexed segments

theorem head?_dropWhile_break (text : Text) :
    (text.dropWhile (· != '\n')).head? = none ∨ (text.dropWhile (· != '\n')).head? = some '\n' := by
  have stopped := List.head?_dropWhile_not (· != '\n') text
  cases found : (text.dropWhile (· != '\n')).head? with
  | none => exact .inl rfl
  | some c =>
      rw [found] at stopped
      exact .inr (by simpa using stopped)

theorem lexed_split (text : Text) : Lexed (split text) := by
  fun_induction split text with
  | case1 text form opens ih =>
      refine ⟨?_, ih⟩
      rw [spell_split]
      cases form with
      | line =>
          obtain ⟨body, rfl⟩ := Comment.eq_of_form?_eq_line opens
          refine ⟨body.takeWhile (· != '\n'), by simp [Comment.cut], ?_, ?_⟩
          · intro member
            simpa using List.all_eq_true.1 List.all_takeWhile _ member
          · exact head?_dropWhile_break _
      | block =>
          obtain ⟨body, rfl⟩ := Comment.eq_of_form?_eq_block opens
          refine ⟨(Comment.throughClose body).1, by simp [Comment.cut],
            Comment.isBody_throughClose body, ?_⟩
          rcases Comment.closes_throughClose body with closed | ended
          · exact .inl closed
          · exact .inr (by simp [Comment.cut, ended])
  | case2 => trivial
  | case3 c rest _ quoted scan ih =>
      refine ⟨⟨c, scan.body, rfl, quoted, Literal.scan_body c false rest, ?_⟩, ih⟩
      rw [spell_split]
      exact Literal.stops_scan c false rest
  | case4 c rest noComment unquoted ih =>
      refine ⟨⟨by simpa using unquoted, ?_⟩, ih⟩
      rw [spell_split]
      exact (Comment.form?_cons_eq_none_iff c rest).1 noComment

theorem Fits.form?_code {c : Char} {rest : Text} (fits : (code c).Fits rest.head?) :
    Comment.form? (c :: rest) = none :=
  (Comment.form?_cons_eq_none_iff c rest).2 fits.2

theorem Fits.scan_literal {text repair rest : Text} (fits : (literal text repair).Fits rest.head?) :
    ∃ quote body, text = quote :: body ∧ isQuote quote ∧
      Comment.form? (quote :: (body ++ rest)) = none ∧
      Literal.scan quote false (body ++ rest) = ⟨body, rest, repair⟩ := by
  obtain ⟨quote, body, same, quoted, whole, stops⟩ := fits
  exact ⟨quote, body, same, quoted, Comment.form?_of_isQuote quoted _,
    Literal.scan_append quoted whole stops⟩

theorem Fits.form?_comment {form : Comment.Form} {text : Text} {next : Option Char}
    (fits : (comment form text).Fits next) (rest : Text) :
    Comment.form? (text ++ rest) = some form := by
  cases form with
  | line =>
      obtain ⟨body, rfl, _⟩ := fits
      rfl
  | block =>
      obtain ⟨body, rfl, _⟩ := fits
      rfl

theorem Fits.cut_comment {form : Comment.Form} {text rest : Text}
    (fits : (comment form text).Fits rest.head?) :
    Comment.cut form (text ++ rest) = (text, rest) := by
  cases form with
  | line =>
      obtain ⟨body, rfl, noBreak, stops⟩ := fits
      exact Comment.cut_line_append noBreak stops
  | block =>
      obtain ⟨body, rfl, whole, stops⟩ := fits
      exact Comment.cut_block_append whole (by simpa using stops)

theorem split_of_comment {form : Comment.Form} {text : Text}
    (opens : Comment.form? text = some form) :
    split text = .comment form (Comment.cut form text).1 :: split (Comment.cut form text).2 := by
  rw [split]
  split
  · next other found =>
      obtain rfl : form = other := by simpa [opens] using found
      rfl
  · next none => simp [opens] at none

theorem split_of_quote {c : Char} (quoted : isQuote c) (rest : Text) :
    split (c :: rest) =
      .literal (c :: (Literal.scan c false rest).body) (Literal.scan c false rest).repair ::
        split (Literal.scan c false rest).rest := by
  rw [split]
  split
  · next form opens => simp [Comment.form?_of_isQuote quoted] at opens
  · simp [quoted]

theorem split_of_code {c : Char} {rest : Text} (noComment : Comment.form? (c :: rest) = none)
    (unquoted : isQuote c = false) : split (c :: rest) = .code c :: split rest := by
  rw [split]
  split
  · next form opens => simp [noComment] at opens
  · simp [unquoted]

/-- A segment that fits what follows it is cut off as it is. -/
theorem split_text_append {segment : Segment} {rest : Text} (fits : segment.Fits rest.head?) :
    split (segment.text ++ rest) = segment :: split rest := by
  cases segment with
  | code c => exact split_of_code fits.form?_code fits.1
  | literal text repair =>
      obtain ⟨quote, body, rfl, quoted, -, scanned⟩ := fits.scan_literal
      rw [Segment.text, List.cons_append, split_of_quote quoted, scanned]
  | comment form text =>
      rw [Segment.text, split_of_comment (fits.form?_comment rest), fits.cut_comment]

theorem split_spell {segments : List Segment} (lexed : Lexed segments) :
    split (spell segments) = segments := by
  induction segments with
  | nil =>
      rw [spell_nil, split]
      rfl
  | cons segment segments ih => rw [spell_cons, split_text_append lexed.1, ih lexed.2]

theorem Fits.atEnd {segment : Segment} {next : Option Char} (fits : segment.Fits next) :
    segment.Fits none := by
  match segment, fits with
  | .code c, ⟨unquoted, _⟩ => exact ⟨unquoted, by simp [Comment.opens]⟩
  | .literal _ repair, ⟨quote, body, same, quoted, whole, _⟩ =>
      exact ⟨quote, body, same, quoted, whole, .inr (.inl rfl)⟩
  | .comment .line _, ⟨body, same, noBreak, _⟩ => exact ⟨body, same, noBreak, .inl rfl⟩
  | .comment .block _, ⟨body, same, whole, _⟩ => exact ⟨body, same, whole, .inr rfl⟩

theorem Fits.text_ne_nil {segment : Segment} {next : Option Char} (fits : segment.Fits next) :
    segment.text ≠ [] := by
  match segment, fits with
  | .code c, _ => simp [Segment.text]
  | .literal _ _, ⟨_, _, rfl, _⟩ => simp [Segment.text]
  | .comment .line _, ⟨_, rfl, _⟩ => simp [Segment.text]
  | .comment .block _, ⟨_, rfl, _⟩ => simp [Segment.text]

theorem Lexed.right {left right : List Segment} (lexed : Lexed (left ++ right)) : Lexed right := by
  induction left with
  | nil => exact lexed
  | cons segment left ih => exact ih lexed.2

theorem head?_spell_append {left right : List Segment} (filled : left ≠ [])
    (nonempty : ∀ segment ∈ left, segment.text ≠ []) :
    (spell (left ++ right)).head? = (spell left).head? := by
  obtain ⟨segment, others, rfl⟩ := List.exists_cons_of_ne_nil filled
  rw [spell_append, spell_cons, List.append_assoc, List.head?_append, List.head?_append]
  cases first : segment.text with
  | nil => exact absurd first (nonempty segment List.mem_cons_self)
  | cons c rest => rfl

theorem Lexed.exists_fits {segments : List Segment} (lexed : Lexed segments) :
    ∀ segment ∈ segments, ∃ next, segment.Fits next := by
  induction segments with
  | nil => simp
  | cons segment segments ih =>
      intro other member
      rcases List.mem_cons.1 member with rfl | later
      · exact ⟨_, lexed.1⟩
      · exact ih lexed.2 other later

theorem Lexed.text_ne_nil {segments : List Segment} (lexed : Lexed segments) :
    ∀ segment ∈ segments, segment.text ≠ [] := by
  intro segment member
  obtain ⟨next, fits⟩ := lexed.exists_fits segment member
  exact fits.text_ne_nil

theorem Lexed.left {left right : List Segment} (lexed : Lexed (left ++ right)) : Lexed left := by
  have nonempty := lexed.text_ne_nil
  induction left with
  | nil => trivial
  | cons segment left ih =>
      refine ⟨?_, ih lexed.2 fun other member => nonempty other (List.mem_cons_of_mem _ member)⟩
      by_cases filled : left = []
      · subst filled
        exact lexed.1.atEnd
      · have fits : segment.Fits (spell (left ++ right)).head? := lexed.1
        rwa [head?_spell_append filled fun other member =>
          nonempty other (List.mem_cons_of_mem _ (List.mem_append_left _ member))] at fits

theorem Lexed.eq_nil_of_spell {segments : List Segment} (lexed : Lexed segments)
    (empty : spell segments = []) : segments = [] := by
  cases segments with
  | nil => rfl
  | cons segment rest =>
      have filled := lexed.1.text_ne_nil
      simp [filled] at empty

/-- Lexed segments can be joined where each of the first fits the start of the others. -/
theorem Lexed.append_last {left right : List Segment} (lexed : Lexed left) (more : Lexed right)
    (fits : ∀ last ∈ left.getLast?, last.Fits (spell right).head?) : Lexed (left ++ right) := by
  induction left with
  | nil => exact more
  | cons segment left ih =>
      by_cases filled : left = []
      · subst filled
        exact ⟨fits segment rfl, more⟩
      · refine ⟨?_, ih lexed.2 fun last ends => fits last ?_⟩
        · show segment.Fits (spell (left ++ right)).head?
          rw [head?_spell_append filled lexed.2.text_ne_nil]
          exact lexed.1
        · rwa [List.getLast?_cons_of_ne_nil filled]

theorem Lexed.append {left right : List Segment} (lexed : Lexed left) (more : Lexed right)
    (fits : ∀ segment ∈ left, segment.Fits (spell right).head?) : Lexed (left ++ right) :=
  lexed.append_last more fun last ends => fits last (List.mem_of_getLast? ends)

theorem Lexed.last_fits {left right : List Segment} (lexed : Lexed (left ++ right)) :
    ∀ last ∈ left.getLast?, last.Fits (spell right).head? := by
  induction left with
  | nil => simp
  | cons segment left ih =>
      by_cases filled : left = []
      · subst filled
        intro last ends
        obtain rfl := Option.some.inj ends
        exact lexed.1
      · rw [List.getLast?_cons_of_ne_nil filled]
        exact ih lexed.2

/-- A segment with its literal closed. -/
def close : Segment → Segment
  | .literal text repair => .literal (text ++ repair) []
  | segment => segment

theorem text_close (segment : Segment) : segment.close.text = segment.closed := by
  cases segment <;> rfl

theorem head?_closed {segments : List Segment} (lexed : Lexed segments) :
    (segments.flatMap closed).head? = (spell segments).head? := by
  cases segments with
  | nil => rfl
  | cons segment segments =>
      have nonempty := lexed.1.text_ne_nil
      rw [List.flatMap_cons, spell_cons, List.head?_append, List.head?_append]
      cases segment with
      | code c => rfl
      | comment form text => cases text <;> simp_all [closed, Segment.text]
      | literal text repair => cases text <;> simp_all [closed, Segment.text]

theorem spell_map_close (segments : List Segment) :
    spell (segments.map close) = segments.flatMap closed := by
  rw [spell, List.flatMap_map]
  exact congrArg (segments.flatMap ·) (funext text_close)

/-- A literal that is closed stands before any text. -/
theorem Fits.repaired {text repair : Text} {next : Option Char} (fits : (literal text repair).Fits next)
    (after : Option Char) : (literal (text ++ repair) []).Fits after := by
  obtain ⟨quote, body, rfl, quoted, whole, -⟩ := fits
  exact ⟨quote, body ++ repair, by simp, quoted, Literal.scan_append_repair quoted whole, .inl rfl⟩

theorem Fits.close {segment : Segment} {next : Option Char} (fits : segment.Fits next) :
    segment.close.Fits next := by
  cases segment with
  | code c => exact fits
  | comment form text => exact fits
  | literal text repair => exact fits.repaired next

theorem lexed_map_close {segments : List Segment} (lexed : Lexed segments) :
    Lexed (segments.map close) := by
  induction segments with
  | nil => trivial
  | cons segment rest ih =>
      refine ⟨?_, ih lexed.2⟩
      rw [spell_map_close, head?_closed lexed.2]
      exact lexed.1.close

theorem Fits.length_closed_le {segment : Segment} {next : Option Char} (fits : segment.Fits next) :
    segment.closed.length ≤ 3 * segment.text.length := by
  have positive := List.length_pos_iff.2 fits.text_ne_nil
  match segment, fits with
  | .code c, _ => simp [closed, Segment.text]
  | .comment form text, _ =>
      show text.length ≤ 3 * text.length
      omega
  | .literal text repair, ⟨quote, body, same, _, whole, _⟩ =>
      have short : repair.length ≤ 2 := by
        rcases Literal.repair_scan quote false body with isClosed | ⟨lone, isOpen⟩
        · rw [whole] at isClosed
          simp only at isClosed
          simp [isClosed]
        · rw [whole] at isOpen
          simp only at isOpen
          rw [isOpen]
          cases lone <;> simp [Literal.repair]
      simp only [closed, List.length_append]
      simp only [Segment.text] at positive ⊢
      omega

theorem length_closed_le {segments : List Segment} (lexed : Lexed segments) :
    (segments.flatMap closed).length ≤ 3 * (spell segments).length := by
  induction segments with
  | nil => exact Nat.le_refl _
  | cons segment segments ih =>
      have others := ih lexed.2
      have own := lexed.1.length_closed_le
      rw [spell_cons, List.length_append, List.flatMap_cons, List.length_append]
      omega

end Segment

theorem length_closeLiterals_le (text : Text) : (closeLiterals text).length ≤ 3 * text.length := by
  have bound := Segment.length_closed_le (Segment.lexed_split text)
  rwa [Segment.spell_split] at bound

/-- Closing the open literals of a text changes nothing else. -/
theorem split_closeLiterals (text : Text) :
    Segment.split (closeLiterals text) = (Segment.split text).map Segment.close := by
  rw [closeLiterals, ← Segment.spell_map_close]
  exact Segment.split_spell (Segment.lexed_map_close (Segment.lexed_split text))

end IdlFormat
