import IdlFormat.Proofs.Monitor
import IdlFormat.Proofs.Reading
import IdlFormat.Proofs.Respacing
import IdlFormat.Proofs.Scanning

/-!
# Weaving hidden segments into respaced code

Respaced code with the hidden literals and comments put back falls into segments again: the
characters of code and the hidden segments, each line comment in block form. What has to be seen is
that no change of spacing moves a slash up to what would make a comment of it.
-/

namespace IdlFormat

namespace Segment

/-- A segment behind which its line can go on: all but open ones and line comments. -/
def isInline : Segment → Bool
  | .comment .line _ => false
  | segment => segment.isComplete

/-- Whether a segment is closed in the form in which it is put back: open literals and line comments
are, open block comments are not. -/
def isClosed : Segment → Bool
  | .comment .block text => Comment.closes (text.drop 2)
  | _ => true

theorem isClosed_of_isComplete {segment : Segment} (complete : segment.isComplete) :
    segment.isClosed := by
  match segment, complete with
  | .code _, _ => rfl
  | .literal _ _, _ => rfl
  | .comment .line _, _ => rfl
  | .comment .block _, complete => exact complete

/-- A segment in the form in which it is put back. -/
def inlined : Segment → Segment
  | .code c => .code c
  | .literal text repair => .literal (text ++ repair) []
  | .comment form text => .comment .block (Comment.blockForm form text)

/-- Whether a segment is a comment. -/
def isComment : Segment → Bool
  | .comment _ _ => true
  | _ => false

/-- The literals and comments among segments, in the form in which they are put back. -/
def hiddenSegments (segments : List Segment) : List Segment :=
  segments.filterMap fun
    | .code _ => none
    | segment => some segment.inlined

theorem exists_of_mem_hiddenSegments {segments : List Segment} {segment : Segment}
    (member : segment ∈ hiddenSegments segments) :
    ∃ source ∈ segments, (∀ c, source ≠ .code c) ∧ source.inlined = segment := by
  rcases List.mem_filterMap.1 member with ⟨source, inside, same⟩
  cases source with
  | code c => simp at same
  | literal text repair => exact ⟨_, inside, by simp, by simpa using same⟩
  | comment form text => exact ⟨_, inside, by simp, by simpa using same⟩

theorem inlined_ne_code {segment : Segment} (hidden : ∀ c, segment ≠ .code c) (c : Char) :
    segment.inlined ≠ .code c := by
  cases segment with
  | code d => exact absurd rfl (hidden d)
  | literal text repair => simp [inlined]
  | comment form text => simp [inlined]

end Segment

namespace Mask

open Segment (spell Lexed)

/-- Whether a character of a skeleton makes a comment of a slash in front of it, where `hidden`
stands for the marks. -/
def opensAfterSlash (hidden : List Segment) (c : Char) : Bool :=
  c = '/' || c = '*' || (c = mark && hidden.head?.any Segment.isComment)

/-- No slash of a skeleton stands before what makes a comment of it; `slash` says that one stands
in front. -/
def CalmFrom (hidden : List Segment) (slash : Bool) : Text → Prop
  | [] => True
  | c :: rest =>
      (slash → opensAfterSlash hidden c = false) ∧
        CalmFrom (if c = mark then hidden.tail else hidden) (c = '/') rest

/-- The characters of code that take no part in opening a comment. -/
def isSafe (c : Char) : Bool :=
  c != '/' && c != '*' && c != mark

variable {hidden : List Segment} {slash : Bool} {text : Text}

theorem isSafe_of_isBlank {c : Char} (blank : isBlank c) : isSafe c := by
  simp only [isSafe, Bool.and_eq_true, bne_iff_ne, ne_eq]
  refine ⟨⟨?_, ?_⟩, ?_⟩ <;> rintro rfl <;> revert blank <;> decide

theorem opensAfterSlash_of_isSafe {c : Char} (safe : isSafe c) (hidden : List Segment) :
    opensAfterSlash hidden c = false := by
  simp only [isSafe, Bool.and_eq_true, bne_iff_ne, ne_eq] at safe
  simp [opensAfterSlash, safe]

theorem isSafe_of_isGuidChar {c : Char} (inside : Attribute.isGuidChar c) : isSafe c := by
  simp only [isSafe, Bool.and_eq_true, bne_iff_ne, ne_eq]
  refine ⟨⟨?_, ?_⟩, ?_⟩ <;> rintro rfl <;> revert inside <;> decide

/-- The hidden segments to come and whether a slash stands in front, after one more character. -/
def passSlash (state : List Segment × Bool) (c : Char) : List Segment × Bool :=
  (if c = mark then state.1.tail else state.1, c = '/')

theorem passSlash_of_isSafe {c : Char} (safe : isSafe c) (state : List Segment × Bool) :
    passSlash state c = (state.1, false) := by
  simp only [isSafe, Bool.and_eq_true, bne_iff_ne, ne_eq] at safe
  simp [passSlash, safe]

/-- Objects to what makes a comment of a slash. -/
def slashes : Monitor (List Segment × Bool) where
  Admits state c := state.2 → opensAfterSlash state.1 c = false
  next := passSlash
  Laxer strict lax := lax.1 = strict.1 ∧ (lax.2 → strict.2)
  refl _ := ⟨rfl, id⟩
  admits := by
    rintro strict lax c ⟨same, lower⟩ admitted slash
    rw [same]
    exact admitted (lower slash)
  after := by
    rintro strict lax c ⟨same, -⟩
    exact ⟨by simp [passSlash, same], id⟩
  space state := fun _ => opensAfterSlash_of_isSafe (by decide) state.1
  relaxed state := by
    rw [passSlash_of_isSafe (by decide)]
    exact ⟨rfl, by simp⟩
  blank state c blank := by
    rw [passSlash_of_isSafe (isSafe_of_isBlank blank), passSlash_of_isSafe (by decide)]
    exact ⟨rfl, id⟩
  twice state := by
    rw [passSlash_of_isSafe (by decide), passSlash_of_isSafe (by decide)]
    exact ⟨rfl, id⟩
  tight state c punctuation := by
    have safe : isSafe c := by
      simp only [List.mem_cons, List.not_mem_nil, or_false] at punctuation
      rcases punctuation with rfl | rfl | rfl <;> decide
    rw [passSlash_of_isSafe safe, passSlash_of_isSafe safe, passSlash_of_isSafe (by decide)]
    exact ⟨fun _ _ => opensAfterSlash_of_isSafe safe state.1, rfl, id⟩
  opened state := by
    rw [passSlash_of_isSafe (by decide), passSlash_of_isSafe (by decide)]
    exact ⟨rfl, id⟩
  closing state := fun _ => opensAfterSlash_of_isSafe (by decide) state.1
  guid state _ guid := fun _ => opensAfterSlash_of_isSafe (isSafe_of_isGuidChar guid) state.1

theorem calmFrom_iff_passes :
    CalmFrom hidden slash text ↔ slashes.Passes (hidden, slash) text := by
  induction text generalizing hidden slash with
  | nil => exact Iff.rfl
  | cons c rest ih => exact and_congr_right fun _ => ih

theorem rest_slashes (hidden : List Segment) (slash : Bool) :
    slashes.rest (hidden, slash) = (hidden, false) :=
  passSlash_of_isSafe (by decide) (hidden, slash)

theorem calmFrom_statementRespace (calm : CalmFrom hidden slash text) :
    CalmFrom hidden false (Statement.respace text) := by
  rw [calmFrom_iff_passes] at calm ⊢
  rw [← rest_slashes hidden slash]
  exact Monitor.passes_statementRespace calm

theorem calmFrom_attributeRespace (calm : CalmFrom hidden slash text) :
    CalmFrom hidden false (Attribute.respace text) := by
  rw [calmFrom_iff_passes] at calm ⊢
  rw [← rest_slashes hidden slash]
  exact Monitor.passes_attributeRespace calm

end Mask

namespace Comment

theorem head?_breakCloses (text : Text) : (breakCloses text).head? = text.head? := by
  fun_cases breakCloses text <;> rfl

/-- A broken text closes no comment, in front of a star that a blank sets apart. -/
theorem isBody_breakCloses (text : Text) : IsBody (breakCloses text ++ [' ', '*', '/']) := by
  unfold IsBody
  fun_induction breakCloses text with
  | case1 => decide
  | case2 rest ih => simp [throughClose, ih]
  | case3 c rest noClose ih =>
      rw [List.cons_append, throughClose, ih]
      intro tail star slash
      cases rest with
      | nil => simp [breakCloses] at slash
      | cons d rest =>
          have first := head?_breakCloses (d :: rest)
          cases broken : breakCloses (d :: rest) with
          | nil => simp [broken] at first
          | cons e more =>
              obtain rfl : e = d := by simpa [broken] using first
              obtain rfl : e = '/' := (by simpa [broken] using slash : e = '/' ∧ _).1
              exact noClose rest star rfl

theorem closes_append_close (text : Text) : closes (text ++ ['*', '/']) := by
  induction text with
  | nil => rfl
  | cons c text ih => exact closes_cons c ih

/-- The block form of a line comment is a block comment. -/
theorem exists_blockForm_line (text : Text) :
    ∃ body, blockForm .line text = '/' :: '*' :: body ∧ IsBody body ∧ closes body := by
  simp only [blockForm]
  split
  · exact ⟨" */".toList, rfl, by unfold IsBody; decide, by decide⟩
  · have whole := isBody_breakCloses (Text.trim (text.drop 2))
    generalize breakCloses (Text.trim (text.drop 2)) = body at whole
    refine ⟨' ' :: body ++ [' ', '*', '/'], rfl, ?_, ?_⟩
    · unfold IsBody at whole ⊢
      rw [List.cons_append, throughClose, whole]
      simp
    · have shape : ' ' :: body ++ [' ', '*', '/'] = (' ' :: body ++ [' ']) ++ ['*', '/'] := by simp
      rw [shape]
      exact closes_append_close _

end Comment

namespace Segment

/-- The form in which a closed segment is put back stands before any text. -/
theorem Fits.inlined {segment : Segment} {next : Option Char} (fits : segment.Fits next)
    (isClosed : segment.isClosed) (hidden : ∀ c, segment ≠ .code c) :
    segment.inlined.isInline ∧ ∀ after, segment.inlined.Fits after := by
  match segment, fits with
  | .code c, _ => exact absurd rfl (hidden c)
  | .literal text repair, fits => exact ⟨rfl, fits.repaired⟩
  | .comment .line text, _ =>
      obtain ⟨body, same, whole, closed⟩ := Comment.exists_blockForm_line text
      refine ⟨?_, fun after => ⟨body, same, whole, .inl closed⟩⟩
      simp [Segment.inlined, isInline, isComplete, same, closed]
  | .comment .block _, ⟨body, rfl, whole, _⟩ =>
      have closed : Comment.closes body := isClosed
      refine ⟨?_, fun after => ⟨body, rfl, whole, .inl closed⟩⟩
      simpa [Segment.inlined, isInline, isComplete, Comment.blockForm] using closed

theorem substance_inlined {segment : Segment} (complete : segment.isComplete) :
    segment.inlined.substance = segment.substance := by
  cases segment with
  | code c => rfl
  | comment form text => rfl
  | literal text repair =>
      obtain rfl : repair = [] := by simpa [isComplete] using complete
      simp [inlined, substance]

/-- Puts hidden segments in the place of the marks of a skeleton. -/
def weave (hidden : List Segment) : Text → List Segment
  | [] => []
  | c :: rest =>
      if c = Mask.mark then hidden.headD (.code c) :: weave hidden.tail rest
      else .code c :: weave hidden rest

theorem spell_weave (hidden : List Segment) (text : Text) :
    spell (weave hidden text) = Mask.insert (hidden.map Segment.text) text := by
  fun_induction weave hidden text with
  | case1 => rfl
  | case2 hidden rest ih =>
      rw [spell_cons, ih, Mask.insert, if_pos rfl, ← List.map_tail]
      cases hidden <;> rfl
  | case3 hidden c rest shown ih =>
      rw [spell_cons, ih, Mask.insert, if_neg shown]
      rfl

theorem mem_weave {hidden : List Segment} {text : Text} {segment : Segment}
    (member : segment ∈ weave hidden text) : segment ∈ hidden ∨ ∃ c ∈ text, segment = .code c := by
  fun_induction weave hidden text with
  | case1 => simp at member
  | case2 hidden rest ih =>
      rcases List.mem_cons.1 member with rfl | later
      · cases hidden with
        | nil => exact .inr ⟨Mask.mark, List.mem_cons_self, rfl⟩
        | cons first others => exact .inl List.mem_cons_self
      · rcases ih later with inHidden | ⟨c, inText, same⟩
        · exact .inl (List.mem_of_mem_tail inHidden)
        · exact .inr ⟨c, List.mem_cons_of_mem _ inText, same⟩
  | case3 hidden c rest shown ih =>
      rcases List.mem_cons.1 member with rfl | later
      · exact .inr ⟨c, List.mem_cons_self, rfl⟩
      · rcases ih later with inHidden | ⟨d, inText, same⟩
        · exact .inl inHidden
        · exact .inr ⟨d, List.mem_cons_of_mem _ inText, same⟩

/-- Blanks do not matter to what woven segments say. -/
theorem substances_weave_compact (hidden : List Segment) (text : Text) :
    substances (weave hidden text.compact) = substances (weave hidden text) := by
  induction text generalizing hidden with
  | nil => rfl
  | cons c rest ih =>
      rw [Text.compact_cons]
      split
      · next blank =>
          have shown : c ≠ Mask.mark := by
            rintro rfl
            revert blank
            decide
          rw [weave, if_neg shown, substances_cons, ih]
          simp [substance, blank]
      · rw [weave, weave]
        split <;> rw [substances_cons, substances_cons, ih]

/-- Hidden segments that stand before any text. -/
def Settled (hidden : List Segment) : Prop :=
  ∀ segment ∈ hidden, (∀ c, segment ≠ .code c) ∧ segment.isInline ∧ ∀ after, segment.Fits after

theorem Settled.tail {hidden : List Segment} (settled : Settled hidden) : Settled hidden.tail :=
  fun segment member => settled segment (List.mem_of_mem_tail member)

/-- Hidden segments that each fit the place of their mark in a text: one that fits the end only has
its mark at the end. -/
def Seated (hidden : List Segment) : Text → Prop
  | [] => True
  | c :: rest =>
      (c = Mask.mark → ∀ segment ∈ hidden.head?,
        (∀ d, segment ≠ .code d) ∧ ∀ after, (rest = [] → after = none) → segment.Fits after) ∧
      Seated (if c = Mask.mark then hidden.tail else hidden) rest

theorem Settled.seated {hidden : List Segment} (settled : Settled hidden) (text : Text) :
    Seated hidden text := by
  induction text generalizing hidden with
  | nil => trivial
  | cons c rest ih =>
      refine ⟨fun _ segment member => ?_, ?_⟩
      · obtain ⟨notCode, -, fits⟩ := settled segment (List.mem_of_mem_head? member)
        exact ⟨notCode, fun after _ => fits after⟩
      · split
        · exact ih settled.tail
        · exact ih settled

theorem opens_slash_weave {hidden : List Segment} {text : Text} (seated : Seated hidden text)
    (calm : Mask.CalmFrom hidden true text) :
    Comment.opens '/' (spell (weave hidden text)).head? = false := by
  cases text with
  | nil => rfl
  | cons c rest =>
      have harmless := calm.1 rfl
      simp only [Mask.opensAfterSlash, Bool.or_eq_false_iff, decide_eq_false_iff_not] at harmless
      rw [weave]
      split
      · next marked =>
          cases hidden with
          | nil =>
              subst marked
              rfl
          | cons segment others =>
              obtain ⟨notCode, fits⟩ := seated.1 marked segment rfl
              match segment, fits none (fun _ => rfl) with
              | .code d, _ => exact absurd rfl (notCode d)
              | .literal _ _, ⟨quote, body, rfl, quoted, _⟩ =>
                  have notStar : quote ≠ '*' := by
                    rintro rfl
                    simp [isQuote] at quoted
                  simp [Comment.opens, Segment.text, Literal.quote_ne_slash quoted, notStar]
              | .comment _ _, _ => simp [marked, isComment] at harmless
      · simp [Comment.opens, Segment.text, harmless.1]

theorem lexed_weave {hidden : List Segment} {slash : Bool} {text : Text}
    (seated : Seated hidden text) (calm : Mask.CalmFrom hidden slash text)
    (unquoted : ∀ c ∈ text, isQuote c = false) : Lexed (weave hidden text) := by
  induction text generalizing hidden slash with
  | nil => trivial
  | cons c rest ih =>
      have others : ∀ d ∈ rest, isQuote d = false := fun d member =>
        unquoted d (List.mem_cons_of_mem _ member)
      have more := calm.2
      have later := seated.2
      rw [weave]
      split
      · next marked =>
          rw [if_pos marked] at more later
          refine ⟨?_, ih later more others⟩
          cases hidden with
          | nil => exact ⟨unquoted c List.mem_cons_self, by simp [Comment.opens, marked, Mask.mark]⟩
          | cons segment hidden =>
              apply (seated.1 marked segment rfl).2
              rintro rfl
              rfl
      · next shown =>
          rw [if_neg shown] at more later
          refine ⟨⟨unquoted c List.mem_cons_self, ?_⟩, ih later more others⟩
          by_cases isSlash : c = '/'
          · subst isSlash
            exact opens_slash_weave later more
          · simp [Comment.opens, isSlash]

theorem all_isInline_weave {hidden : List Segment} (settled : Settled hidden) (text : Text) :
    (weave hidden text).all isInline := by
  rw [List.all_eq_true]
  intro segment member
  rcases mem_weave member with inHidden | ⟨c, -, rfl⟩
  · exact (settled segment inHidden).2.1
  · rfl

theorem settled_hiddenSegments {segments : List Segment} (lexed : Lexed segments)
    (closed : segments.all isClosed) : Settled (hiddenSegments segments) := by
  intro segment member
  obtain ⟨source, inside, notCode, rfl⟩ := exists_of_mem_hiddenSegments member
  obtain ⟨next, fits⟩ := lexed.exists_fits source inside
  exact ⟨inlined_ne_code notCode, fits.inlined (List.all_eq_true.1 closed source inside) notCode⟩

theorem settled_of_isComplete {segments : List Segment} (lexed : Lexed segments)
    (complete : segments.all isComplete) : Settled (hiddenSegments segments) :=
  settled_hiddenSegments lexed <| List.all_eq_true.2 fun segment member =>
    isClosed_of_isComplete (List.all_eq_true.1 complete segment member)

theorem hidden_eq_map_text (segments : List Segment) :
    hidden segments = (hiddenSegments segments).map Segment.text := by
  rw [hidden, hiddenSegments, List.map_filterMap]
  congr 1
  funext segment
  cases segment <;> rfl

theorem weave_skeleton {segments : List Segment} (shown : ∀ c, .code c ∈ segments → c ≠ Mask.mark) :
    weave (hiddenSegments segments) (skeleton segments) = segments.map inlined := by
  induction segments with
  | nil => rfl
  | cons segment rest ih =>
      have inner := ih fun c member => shown c (List.mem_cons_of_mem _ member)
      cases segment with
      | code c =>
          have stays := shown c List.mem_cons_self
          simpa [hiddenSegments, skeleton, weave, stays, inlined] using inner
      | literal text repair => simpa [hiddenSegments, skeleton, weave] using inner
      | comment form text => simpa [hiddenSegments, skeleton, weave] using inner

theorem calmFrom_skeleton {segments : List Segment} (lexed : Lexed segments)
    (shown : ∀ c, .code c ∈ segments → c ≠ Mask.mark) :
    Mask.CalmFrom (hiddenSegments segments) false (skeleton segments) := by
  induction segments with
  | nil => trivial
  | cons segment rest ih =>
      have inner := ih lexed.2 fun c member => shown c (List.mem_cons_of_mem _ member)
      refine ⟨by simp, ?_⟩
      cases segment with
      | code c =>
          rw [if_neg (shown c List.mem_cons_self)]
          cases rest with
          | nil => trivial
          | cons next rest =>
              refine ⟨?_, inner.2⟩
              intro isSlash
              obtain rfl : c = '/' := of_decide_eq_true isSlash
              have harmless := lexed.1.2
              match next, lexed.2.1 with
              | .code d, _ =>
                  have stays := shown d (by simp)
                  simpa [Comment.opens, Segment.text, Mask.opensAfterSlash, stays] using harmless
              | .literal _ _, _ => simp [Mask.opensAfterSlash, hiddenSegments, inlined, isComment, Mask.mark]
              | .comment .line _, ⟨body, rfl, _⟩ => simp [Comment.opens, Segment.text] at harmless
              | .comment .block _, ⟨body, rfl, _⟩ => simp [Comment.opens, Segment.text] at harmless
      | literal text repair => exact inner
      | comment form text => exact inner

/-- Segments that read on their line, and what they say. -/
structure Inline (text said : Text) (segments : List Segment) : Prop where
  /-- They are the segments of the text. -/
  spelled : spell segments = text
  /-- Each of them fits the next one. -/
  lexed : Lexed segments
  /-- Behind each of them the line can go on. -/
  inline : segments.all isInline
  /-- They say what they should. -/
  substance : substances segments = said

theorem isQuote_of_mem_skeleton {segments : List Segment} (lexed : Lexed segments) {c : Char}
    (member : c ∈ skeleton segments) : isQuote c = false := by
  obtain ⟨segment, inside, same⟩ := List.mem_map.1 member
  obtain ⟨next, fits⟩ := lexed.exists_fits segment inside
  match segment, fits with
  | .code d, ⟨unquoted, _⟩ => rw [← same]; exact unquoted
  | .literal _ _, _ => exact same ▸ (by decide : isQuote Mask.mark = false)
  | .comment _ _, _ => exact same ▸ (by decide : isQuote Mask.mark = false)

theorem isQuote_of_mem_respaced {respace : Text → Text}
    (compact_respace : ∀ text, (respace text).compact = text.compact) {segments : List Segment}
    (lexed : Lexed segments) : ∀ c ∈ respace (skeleton segments), isQuote c = false := by
  intro c member
  by_cases blank : isBlank c
  · exact Reading.not_isQuote_of_isBlank blank
  · have inside : c ∈ (respace (skeleton segments)).compact :=
      List.mem_filter.2 ⟨member, by simpa using blank⟩
    rw [compact_respace] at inside
    exact isQuote_of_mem_skeleton lexed (List.mem_of_mem_filter inside)

/-- Respaced code with its hidden segments put back is read as it was before. -/
theorem inline_weave {respace : Text → Text}
    (compact_respace : ∀ text, (respace text).compact = text.compact)
    (calmFrom_respace : ∀ hidden text, Mask.CalmFrom hidden false text →
      Mask.CalmFrom hidden false (respace text))
    {segments : List Segment} (lexed : Lexed segments) (complete : segments.all isComplete)
    (shown : ∀ c, .code c ∈ segments → c ≠ Mask.mark) :
    Inline (Mask.insert (hidden segments) (respace (skeleton segments))) (substances segments)
      (weave (hiddenSegments segments) (respace (skeleton segments))) where
  spelled := by rw [spell_weave, hidden_eq_map_text]
  lexed := lexed_weave ((settled_of_isComplete lexed complete).seated _)
    (calmFrom_respace _ _ (calmFrom_skeleton lexed shown))
    (isQuote_of_mem_respaced compact_respace lexed)
  inline := all_isInline_weave (settled_of_isComplete lexed complete) _
  substance := by
    rw [← substances_weave_compact, compact_respace, substances_weave_compact, weave_skeleton shown]
    induction segments with
    | nil => rfl
    | cons segment rest ih =>
        simp only [List.all_cons, Bool.and_eq_true] at complete
        rw [List.map_cons, substances_cons, substances_cons, substance_inlined complete.1,
          ih lexed.2 complete.2 fun c member => shown c (List.mem_cons_of_mem _ member)]

theorem isQuiet_blockForm {text : Text} (quiet : Comment.isQuiet text) (form : Comment.Form) :
    Comment.isQuiet (Comment.blockForm form text) := by
  cases form with
  | block => exact quiet
  | line =>
      have within : ∀ c ∈ Text.trim (text.drop 2), c ∈ text := fun c member =>
        List.mem_of_mem_drop ((Text.trim_sublist _).subset member)
      have broken (inner : Text) (inside : ∀ c ∈ inner, c ∈ text) :
          Comment.isQuiet (Comment.breakCloses inner) := by
        fun_induction Comment.breakCloses inner with
        | case1 => rfl
        | case2 rest ih =>
            have others := ih fun c member => inside c (by simp [member])
            simpa [Comment.isQuiet, isQuote] using others
        | case3 c rest _ ih =>
            have others := ih fun c member => inside c (by simp [member])
            have own := List.all_eq_true.1 quiet c (inside c (by simp))
            rw [Comment.isQuiet, List.all_cons, own]
            exact others
      have body := broken _ within
      simp only [Comment.blockForm]
      split
      · decide
      · simp only [Comment.isQuiet, List.all_append] at body ⊢
        rw [body]
        decide

end Segment

open Segment in
/-- A respaced statement says the same. -/
theorem Statement.normalize_spell {segments : List Segment} (lexed : Lexed segments)
    (complete : segments.all isComplete) (noMark : Mask.mark ∉ spell segments) {result : Text}
    (normalized : normalize (spell segments) = .ok result) :
    ∃ woven, Inline result (substances segments) woven := by
  have settles := normalize_eq noMark
  have shown := fun c => @Mask.code_ne_mark _ noMark c
  rw [normalized, split_spell lexed] at settles
  rw [split_spell lexed] at shown
  obtain rfl : result = _ := settles
  exact ⟨_, inline_weave compact_respace (fun _ _ => Mask.calmFrom_statementRespace) lexed complete
    shown⟩

open Segment in
/-- A formatted attribute says the same. -/
theorem Attribute.exists_inline_format {text : Text} (complete : (Segment.split text).all isComplete)
    (noMark : Mask.mark ∉ text) {result : Text} (formatted : format text = .ok result) :
    ∃ woven, Inline result (substances (Segment.split text)) woven := by
  have settles := format_eq noMark
  rw [formatted] at settles
  obtain rfl : result = _ := settles
  exact ⟨_, inline_weave compact_respace (fun _ _ => Mask.calmFrom_attributeRespace)
    (lexed_split text) complete fun c => Mask.code_ne_mark noMark⟩

end IdlFormat
