import IdlFormat.Proofs.Bead
import IdlFormat.Proofs.Clean
import IdlFormat.Proofs.Content

/-!
# Reading respaced texts again

A respaced text is read again as what it was put together from: its code is the respaced code, and
its literals and comments are the hidden ones, each in the form in which it was put back. An open
literal is closed by then and a line comment has become a block comment; only a block comment that
is never closed still reaches to the end, and it stays there because no change of spacing leaves a
blank behind the last placeholder. So masking the result gives the respaced mask
(`Mask.Respacing.mask_unmask`), the same texts are hidden in the same order, and respacing twice is
respacing once.
-/

namespace IdlFormat

namespace Mask

/-- No blanks trail behind the last mark of a text. -/
def EndsTight : Text → Prop
  | [] => True
  | c :: rest => (c = mark → Text.compact rest = [] → rest = []) ∧ EndsTight rest

theorem endsTight_of_getLast? {text : Text}
    (solid : ∀ c, text.getLast? = some c → isBlank c = false) :
    EndsTight text := by
  induction text with
  | nil => trivial
  | cons c rest ih =>
      rcases List.eq_nil_or_concat rest with rfl | ⟨front, last, rfl⟩
      · exact ⟨fun _ _ => rfl, trivial⟩
      · have later := ih fun d same => solid d (by simpa [List.getLast?_cons] using same)
        refine ⟨fun _ blank => ?_, later⟩
        have own := solid last
          (by rw [List.concat_eq_append, ← List.cons_append, List.getLast?_concat])
        simp [Text.compact_cons, own] at blank

theorem endsTight_trim (text : Text) : EndsTight text.trim :=
  endsTight_of_getLast? fun _ => Text.isBlank_getLast_trimEnd

theorem EndsTight.spaceCommas {text : Text} (tight : EndsTight text) :
    EndsTight text.spaceCommas := by
  fun_induction Text.spaceCommas text with
  | case1 => trivial
  | case2 c rest comma ih =>
      have isComma : c = ',' := by
        simp only [Bool.and_eq_true, decide_eq_true_eq] at comma
        exact comma.1
      refine ⟨fun marked => ?_, fun marked => absurd marked (by decide), ih tight.2⟩
      exact absurd (isComma.symm.trans marked) (by decide)
  | case3 c rest _ ih =>
      refine ⟨fun marked blank => ?_, ih tight.2⟩
      rw [Text.compact_spaceCommas] at blank
      rw [tight.1 marked blank]
      rfl

end Mask

namespace Segment

/-- The form in which a hidden segment is put back stands wherever the segment does, and before any
text if the segment stands before some. -/
theorem Fits.inlined_of_end {segment : Segment} {next after : Option Char}
    (fits : segment.Fits next) (hidden : ∀ c, segment ≠ .code c)
    (ended : next = none → after = none) :
    segment.inlined.Fits after := by
  match segment, fits with
  | .code c, _ => exact absurd rfl (hidden c)
  | .literal text repair, fits => exact fits.repaired after
  | .comment .line text, _ =>
      obtain ⟨body, same, whole, closed⟩ := Comment.exists_blockForm_line text
      exact ⟨body, same, whole, .inl closed⟩
  | .comment .block _, ⟨body, same, whole, stops⟩ =>
      exact ⟨body, same, whole, stops.imp_right ended⟩

theorem ne_code_of_mem_hiddenSegments {segments : List Segment} {segment : Segment}
    (member : segment ∈ hiddenSegments segments) : ∀ c, segment ≠ .code c := by
  obtain ⟨source, -, notCode, rfl⟩ := exists_of_mem_hiddenSegments member
  exact inlined_ne_code notCode

theorem seated_skeleton {segments : List Segment} (lexed : Lexed segments)
    (shown : ∀ c, .code c ∈ segments → c ≠ Mask.mark) :
    Seated (hiddenSegments segments) (skeleton segments) := by
  induction segments with
  | nil => trivial
  | cons segment rest ih =>
      have later := ih lexed.2 fun c member => shown c (List.mem_cons_of_mem _ member)
      have ended : (spell rest).head? = none → skeleton rest = [] := by
        intro empty
        rw [lexed.2.eq_nil_of_spell (List.head?_eq_none_iff.1 empty)]
        rfl
      have hide (notCode : ∀ c, segment ≠ .code c) {own : Segment} (same : own = segment.inlined) :
          (∀ d, own ≠ .code d) ∧ ∀ after, (skeleton rest = [] → after = none) → own.Fits after := by
        subst same
        exact ⟨inlined_ne_code notCode,
          fun after last => lexed.1.inlined_of_end notCode fun empty => last (ended empty)⟩
      cases segment with
      | code c =>
          have stays := shown c List.mem_cons_self
          exact ⟨fun marked => absurd marked stays, by rw [if_neg stays]; exact later⟩
      | literal text repair =>
          refine ⟨fun _ own member => hide (by simp) ?_, later⟩
          simpa [hiddenSegments, eq_comm] using member
      | comment form text =>
          refine ⟨fun _ own member => hide (by simp) ?_, later⟩
          simpa [hiddenSegments, eq_comm] using member

theorem Seated.compact {hidden : List Segment} {text : Text} (seated : Seated hidden text) :
    Seated hidden text.compact := by
  induction text generalizing hidden with
  | nil => trivial
  | cons c rest ih =>
      have later := ih seated.2
      rw [Text.compact_cons]
      split
      · next blank =>
          have shown : c ≠ Mask.mark := by
            rintro rfl
            revert blank
            decide
          rwa [if_neg shown] at later
      · refine ⟨fun marked segment member => ?_, later⟩
        obtain ⟨notCode, fits⟩ := seated.1 marked segment member
        refine ⟨notCode, fun after last => fits after fun empty => last ?_⟩
        rw [empty]
        rfl

theorem seated_of_compact {hidden : List Segment} {text : Text}
    (seated : Seated hidden text.compact) (tight : Mask.EndsTight text) : Seated hidden text := by
  induction text generalizing hidden with
  | nil => trivial
  | cons c rest ih =>
      rw [Text.compact_cons] at seated
      split at seated
      · next blank =>
          have shown : c ≠ Mask.mark := by
            rintro rfl
            revert blank
            decide
          exact ⟨fun marked => absurd marked shown, by rw [if_neg shown]; exact ih seated tight.2⟩
      · refine ⟨fun marked segment member => ?_, ih seated.2 tight.2⟩
        obtain ⟨notCode, fits⟩ := seated.1 marked segment member
        exact ⟨notCode, fun after last => fits after fun empty => last (tight.1 marked empty)⟩

theorem hidden_weave {hidden : List Segment} (notCode : ∀ segment ∈ hidden, ∀ c, segment ≠ .code c)
    {text : Text} (known : text.count Mask.mark = hidden.length) :
    Segment.hidden (weave hidden text) = hidden.map restored := by
  induction text generalizing hidden with
  | nil =>
      rw [List.length_eq_zero_iff.1 known.symm]
      rfl
  | cons c rest ih =>
      by_cases marked : c = Mask.mark
      · cases hidden with
        | nil => simp [marked] at known
        | cons segment others =>
            rw [marked, List.count_cons_self, List.length_cons, Nat.add_right_cancel_iff] at known
            have later :=
              ih (fun other member => notCode other (List.mem_cons_of_mem _ member)) known
            have own := notCode segment List.mem_cons_self
            rw [weave, if_pos marked, List.map_cons, ← later]
            cases segment with
            | code d => exact absurd rfl (own d)
            | literal text repair => rfl
            | comment form text => rfl
      · rw [List.count_cons_of_ne marked] at known
        rw [weave, if_neg marked, ← ih notCode known]
        rfl

theorem skeleton_weave {hidden : List Segment}
    (notCode : ∀ segment ∈ hidden, ∀ c, segment ≠ .code c) (text : Text) :
    skeleton (weave hidden text) = text := by
  induction text generalizing hidden with
  | nil => rfl
  | cons c rest ih =>
      have later := @ih hidden notCode
      have more := @ih hidden.tail fun segment member =>
        notCode segment (List.mem_of_mem_tail member)
      rw [weave]
      split
      · next marked =>
          rw [skeleton, List.map_cons, ← skeleton, more]
          congr 1
          cases hidden with
          | nil => rfl
          | cons segment others =>
              have own := notCode segment List.mem_cons_self
              cases segment with
              | code d => exact absurd rfl (own d)
              | literal text repair => exact marked.symm
              | comment form text => exact marked.symm
      · rw [skeleton, List.map_cons, ← skeleton, later]

/-- A segment behind which its line can go on is put back as it is. -/
theorem inlined_of_isInline {segment : Segment} (inline : segment.isInline) :
    segment.inlined = segment := by
  match segment, inline with
  | .code _, _ => rfl
  | .literal text repair, inline =>
      obtain rfl : repair = [] := List.isEmpty_iff.1 inline
      rw [inlined, List.append_nil]
  | .comment .block _, _ => rfl

theorem hidden_eq_map_restored (segments : List Segment) :
    hidden segments = (hiddenSegments segments).map restored := by
  rw [hidden, hiddenSegments, List.map_filterMap]
  congr 1
  funext segment
  cases segment with
  | code c => rfl
  | literal text repair => simp [inlined, restored]
  | comment form text => rfl

end Segment

namespace Mask

/-- A change of spacing that leaves placeholders where they are, makes no comment of a slash, lets
no blank trail behind the last placeholder, and does nothing more when it is repeated. -/
structure Respacing (respace : Text → Text) : Prop where
  /-- It passes over placeholders. -/
  fill : ∀ next text, respace (Mask.fill next text) = Mask.fill next (respace text)
  /-- It changes blanks only. -/
  compact : ∀ text, (respace text).compact = text.compact
  /-- It moves no slash up to what would make a comment of it. -/
  calm : ∀ hidden text, CalmFrom hidden false text → CalmFrom hidden false (respace text)
  /-- It leaves no blank behind the last mark. -/
  tight : ∀ text, EndsTight (respace text)
  /-- It is stable. -/
  again : ∀ text, respace (respace text) = respace text

namespace Respacing

variable {respace : Text → Text} {text result : Text}

/-- Respaced code with its hidden segments put back is read as just that. -/
theorem split_insert (respacing : Respacing respace) {segments : List Segment}
    (lexed : Segment.Lexed segments) (shown : ∀ c, .code c ∈ segments → c ≠ mark) :
    Segment.split (insert (Segment.hidden segments) (respace (Segment.skeleton segments))) =
      Segment.weave (Segment.hiddenSegments segments) (respace (Segment.skeleton segments)) := by
  have seated : Segment.Seated (Segment.hiddenSegments segments)
      (respace (Segment.skeleton segments)).compact := by
    rw [respacing.compact]
    exact (Segment.seated_skeleton lexed shown).compact
  have woven := Segment.lexed_weave (Segment.seated_of_compact seated (respacing.tight _))
    (respacing.calm _ _ (Segment.calmFrom_skeleton lexed shown))
    (Segment.isQuote_of_mem_respaced respacing.compact lexed)
  rw [Segment.hidden_eq_map_text, ← Segment.spell_weave, Segment.split_spell woven]

theorem count_mark (respacing : Respacing respace) {segments : List Segment}
    (shown : ∀ c, .code c ∈ segments → c ≠ mark) :
    (respace (Segment.skeleton segments)).count mark =
      (Segment.hiddenSegments segments).length := by
  have listed := congrArg List.length (Segment.hidden_eq_map_text segments)
  rw [List.length_map] at listed
  rw [← count_mark_compact, respacing.compact, count_mark_compact, count_skeleton shown, listed]

theorem mark_not_mem_insert (respacing : Respacing respace) (noMark : mark ∉ text) :
    mark ∉ insert (Segment.hidden (Segment.split text))
      (respace (Segment.skeleton (Segment.split text))) := by
  rwa [← Text.mark_mem_content_iff, content_insert_respaced respacing.compact noMark,
    Text.mark_mem_content_iff]

/-- Respaced code with its hidden texts put back has the respaced mask and hides the same texts. -/
theorem mask_insert (respacing : Respacing respace) (noMark : mark ∉ text) :
    mask (insert (Segment.hidden (Segment.split text))
        (respace (Segment.skeleton (Segment.split text)))) =
      ⟨respace (mask text).text, (mask text).saved⟩ := by
  have shown : ∀ c, .code c ∈ Segment.split text → c ≠ mark := fun c => code_ne_mark noMark
  have notCode : ∀ segment ∈ Segment.hiddenSegments (Segment.split text), ∀ c, segment ≠ .code c :=
    fun segment => Segment.ne_code_of_mem_hiddenSegments
  rw [mask_eq (respacing.mark_not_mem_insert noMark),
    respacing.split_insert (Segment.lexed_split text) shown, Segment.skeleton_weave notCode,
    Segment.hidden_weave notCode (respacing.count_mark shown), ← Segment.hidden_eq_map_restored,
    ← respacing.fill, mask_eq noMark]

/-- Masking a respaced text gives its respaced mask and the same hidden texts. -/
theorem mask_unmask (respacing : Respacing respace) (noMark : mark ∉ text)
    (restored : unmask (mask text).saved (respace (mask text).text) = .ok result) :
    mask result = ⟨respace (mask text).text, (mask text).saved⟩ := by
  have settles := unmask_respaced respacing.fill respacing.compact noMark
  rw [restored] at settles
  obtain rfl : result = _ := settles
  exact respacing.mask_insert noMark

/-- Respacing a respaced text changes nothing. -/
theorem unmask_again (respacing : Respacing respace) (noMark : mark ∉ text)
    (restored : unmask (mask text).saved (respace (mask text).text) = .ok result) :
    unmask (mask result).saved (respace (mask result).text) = .ok result := by
  rw [respacing.mask_unmask noMark restored, respacing.again, restored]

/-- A change of spacing that does not look at the blanks around a text can be followed by
trimming. -/
theorem trim (respacing : Respacing respace)
    (absorbs : ∀ text, respace (Text.trim text) = respace text) :
    Respacing fun text => Text.trim (respace text) where
  fill next text := by rw [respacing.fill, trim_fill]
  compact text := by rw [Text.compact_trim, respacing.compact]
  calm hidden text calm := by
    rw [calmFrom_iff_passes, ← rest_slashes hidden false]
    exact Monitor.passes_trim (calmFrom_iff_passes.1 (respacing.calm hidden text calm))
  tight _ := endsTight_trim _
  again text := by rw [absorbs, respacing.again]

theorem exists_unmask_eq_ok (respacing : Respacing respace) (noMark : mark ∉ text)
    (short : text.length ≤ 10 ^ Numeral.digitLimit) :
    ∃ result, unmask (mask text).saved (respace (mask text).text) = .ok result := by
  have settles := (unmask_respaced respacing.fill respacing.compact noMark).grow
    (length_hidden_split_le text)
  obtain ⟨result, found, -⟩ := settles.exists_ok short
  exact ⟨result, found⟩

end Respacing

end Mask

theorem Statement.respacing : Mask.Respacing respace where
  fill := Mask.statementRespace_fill
  compact := compact_respace
  calm _ _ := Mask.calmFrom_statementRespace
  tight _ := Mask.endsTight_trim _
  again := respace_respace

theorem Attribute.endsTight_respace (text : Text) : Mask.EndsTight (respace text) := by
  simp only [respace]
  split
  · apply Mask.endsTight_of_getLast?
    intro c last
    rw [List.getLast?_concat] at last
    obtain rfl := Option.some.inj last
    decide
  · exact (Mask.endsTight_trim _).spaceCommas

theorem Attribute.respacing : Mask.Respacing respace where
  fill := Mask.attributeRespace_fill
  compact := compact_respace
  calm _ _ := Mask.calmFrom_attributeRespace
  tight := endsTight_respace
  again := respace_respace

/-- Normalizing a statement is idempotent on every text without placeholder marks, whatever literals
and comments it leaves open: a normalized statement normalizes to itself, and where the first run
fails so does the second. A statement of at most `10 ^ 4300` characters never fails to be
normalized. -/
theorem Statement.normalize_normalize {text : Text} (noMark : Mask.mark ∉ text) :
    (normalize text >>= normalize) = normalize text ∧
      (text.length ≤ 10 ^ Numeral.digitLimit → ∃ result, normalize text = .ok result) := by
  refine ⟨?_, respacing.exists_unmask_eq_ok noMark⟩
  cases found : normalize text with
  | error excess => rfl
  | ok result => exact respacing.unmask_again noMark found

/-- Two open literals, one with a lone backslash, a comment in a line comment and an open
comment. -/
theorem Statement.normalize_normalize_malformed :
    Mask.mark ∉ "if(a=\"x\n]b// /* c */ d\n, 'y\\\n&z ; /* e ".toList ∧
      normalize "if(a=\"x\n]b// /* c */ d\n, 'y\\\n&z ; /* e ".toList =
        .ok "if (a = \"x\" ] b/* /* c * / d */ , 'y\\\\' & z; /* e ".toList ∧
      normalize "if (a = \"x\" ] b/* /* c * / d */ , 'y\\\\' & z; /* e ".toList =
        .ok "if (a = \"x\" ] b/* /* c * / d */ , 'y\\\\' & z; /* e ".toList := by
  have first : normalize "if(a=\"x\n]b// /* c */ d\n, 'y\\\n&z ; /* e ".toList =
      .ok "if (a = \"x\" ] b/* /* c * / d */ , 'y\\\\' & z; /* e ".toList := by
    decide +kernel
  have again := (normalize_normalize (by decide :
    Mask.mark ∉ "if(a=\"x\n]b// /* c */ d\n, 'y\\\n&z ; /* e ".toList)).1
  rw [first] at again
  exact ⟨by decide, first, again⟩

/-- Formatting an attribute is idempotent on every text without placeholder marks, whatever it holds
and however its arguments are laid out: a formatted attribute is formatted to itself, and where the
first run fails so does the second. An attribute of at most `10 ^ 4300` characters never fails to be
formatted. -/
theorem Attribute.format_format {text : Text} (noMark : Mask.mark ∉ text) :
    (format text >>= format) = format text ∧
      (text.length ≤ 10 ^ Numeral.digitLimit → ∃ result, format text = .ok result) := by
  refine ⟨?_, respacing.exists_unmask_eq_ok noMark⟩
  cases found : format text with
  | error excess => rfl
  | ok result => exact respacing.unmask_again noMark found

/-- One attribute for each layout: no call, because of what follows its arguments; an identifier;
array bounds; and a list of arguments with commas at its ends, unbalanced parentheses, an open literal
and a comment. -/
theorem Attribute.format_format_layouts :
    (Mask.mark ∉ " call( a,b ) ,\n'x".toList ∧
        format " call( a,b ) ,\n'x".toList = .ok "call( a, b ) , 'x'".toList ∧
        format "call( a, b ) , 'x'".toList = .ok "call( a, b ) , 'x'".toList) ∧
      (Mask.mark ∉ "uuid ( 12 34-\nAB )".toList ∧
        format "uuid ( 12 34-\nAB )".toList = .ok "uuid(1234-AB)".toList ∧
        format "uuid(1234-AB)".toList = .ok "uuid(1234-AB)".toList) ∧
      (Mask.mark ∉ "size_is( [ 4 ,a]\t,,b )".toList ∧
        format "size_is( [ 4 ,a]\t,,b )".toList = .ok "size_is([ 4 , a] , , b)".toList ∧
        format "size_is([ 4 , a] , , b)".toList = .ok "size_is([ 4 , a] , , b)".toList) ∧
      Mask.mark ∉ "f(\t,a ,,(\"x, \\\n ,// ) */\n, )".toList ∧
      format "f(\t,a ,,(\"x, \\\n ,// ) */\n, )".toList =
        .ok "f(, a, , (\"x, \\\\\", /* ) * / */,)".toList ∧
      format "f(, a, , (\"x, \\\\\", /* ) * / */,)".toList =
        .ok "f(, a, , (\"x, \\\\\", /* ) * / */,)".toList := by
  have again {source result : Text} (noMark : Mask.mark ∉ source)
      (first : format source = .ok result) :
      Mask.mark ∉ source ∧ format source = .ok result ∧ format result = .ok result := by
    have stable := (format_format noMark).1
    rw [first] at stable
    exact ⟨noMark, first, stable⟩
  refine ⟨again ?_ ?_, again ?_ ?_, again ?_ ?_, again ?_ ?_⟩ <;> decide +kernel

/-- Respacing loses, splits, merges and makes no literals or comments: a normalized statement and a
formatted attribute hide the same literals and comments in the same order as the text that they
come from. Both are given for every text of at most `10 ^ 4300` characters. -/
theorem saved_mask_of_respaced {text : Text} (noMark : Mask.mark ∉ text) :
    (∀ result, Statement.normalize text = .ok result ∨ Attribute.format text = .ok result →
      (mask result).saved = (mask text).saved) ∧
      (text.length ≤ 10 ^ Numeral.digitLimit →
        (∃ result, Statement.normalize text = .ok result) ∧
          ∃ result, Attribute.format text = .ok result) := by
  refine ⟨?_, fun short => ⟨Statement.respacing.exists_unmask_eq_ok noMark short,
    Attribute.respacing.exists_unmask_eq_ok noMark short⟩⟩
  rintro result (normalized | formatted)
  · rw [Statement.respacing.mask_unmask noMark normalized]
  · rw [Attribute.respacing.mask_unmask noMark formatted]

/-- Two literals that line breaks cut short, the second of them a lone backslash, and between them a
line comment with a quote in it. -/
theorem saved_mask_of_respaced_mixed :
    Mask.mark ∉ "f (\"x\n ,// 'z */\n'\\\n / )".toList ∧
      "f (\"x\n ,// 'z */\n'\\\n / )".toList.length ≤ 10 ^ Numeral.digitLimit ∧
      ∃ statement argument,
        Statement.normalize "f (\"x\n ,// 'z */\n'\\\n / )".toList = .ok statement ∧
          Attribute.format "f (\"x\n ,// 'z */\n'\\\n / )".toList = .ok argument ∧
          (mask statement).saved = ["\"x\"", "/* 'z * / */", "'\\\\'"].map String.toList ∧
          (mask argument).saved = ["\"x\"", "/* 'z * / */", "'\\\\'"].map String.toList := by
  have noMark : Mask.mark ∉ "f (\"x\n ,// 'z */\n'\\\n / )".toList := by decide
  have short : "f (\"x\n ,// 'z */\n'\\\n / )".toList.length ≤ 10 ^ Numeral.digitLimit :=
    Nat.le_trans (by decide : _ ≤ 10 ^ 2) (Nat.pow_le_pow_right (by decide) (by decide))
  obtain ⟨kept, given⟩ := saved_mask_of_respaced noMark
  obtain ⟨⟨statement, normalized⟩, argument, formatted⟩ := given short
  have source : (mask "f (\"x\n ,// 'z */\n'\\\n / )".toList).saved =
      ["\"x\"", "/* 'z * / */", "'\\\\'"].map String.toList := by
    decide +kernel
  exact ⟨noMark, short, statement, argument, normalized, formatted,
    (kept statement (.inl normalized)).trans source, (kept argument (.inr formatted)).trans source⟩

namespace Mask

/-- A text in which no literal is open and all comments are closed blocks is its code with what it
hides in the place of the marks. -/
theorem insert_eq_self {text : Text} (noMark : mark ∉ text)
    (inline : (Segment.split text).all Segment.isInline) :
    insert (Segment.hidden (Segment.split text)) (Segment.skeleton (Segment.split text)) = text := by
  have same : (Segment.split text).map Segment.inlined = Segment.split text := by
    refine (List.map_congr_left fun segment member => ?_).trans (List.map_id _)
    exact Segment.inlined_of_isInline (List.all_eq_true.1 inline segment member)
  rw [Segment.hidden_eq_map_text, ← Segment.spell_weave,
    Segment.weave_skeleton fun c => code_ne_mark noMark, same, Segment.spell_split]

/-- Whether a text can be restored depends on the numbers of its placeholders only. -/
theorem exists_restore_fill_iff {saved : List Text} {next : Nat} {text : Text} :
    (∃ restored, restore saved (fill next text) = .ok restored) ↔
      ∀ k < text.count mark, ∃ number, Numeral.ofDigits (Text.ofNat (next + k)) = .ok number := by
  induction text generalizing next with
  | nil =>
      have nothing : restore saved (fill next []) = .ok [] := by
        rw [fill, restore]
        rfl
      simp [nothing]
  | cons c text ih =>
      by_cases marked : c = mark
      · rw [marked, fill, if_pos rfl, restore_placeholder_append, List.count_cons_self]
        constructor
        · rintro ⟨restored, found⟩ k known
          obtain ⟨number, read, rest⟩ := bind_eq_ok_iff.1 found
          obtain ⟨others, later, -⟩ := bind_eq_ok_iff.1 rest
          cases k with
          | zero => exact ⟨number, read⟩
          | succ k =>
              have readable := ih.1 ⟨others, later⟩ k (Nat.lt_of_succ_lt_succ known)
              rwa [Nat.add_right_comm, Nat.add_assoc] at readable
        · intro readable
          obtain ⟨number, read⟩ := readable 0 (Nat.succ_pos _)
          obtain ⟨others, later⟩ := ih.2 fun k known => by
            have found := readable (k + 1) (Nat.succ_lt_succ known)
            rwa [Nat.add_comm k 1, ← Nat.add_assoc] at found
          exact ⟨_, bind_eq_ok_iff.2 ⟨number, read, bind_eq_ok_iff.2 ⟨others, later, rfl⟩⟩⟩
      · rw [fill_cons marked, restore_cons marked, List.count_cons_of_ne marked, ← ih]
        constructor
        · rintro ⟨restored, found⟩
          obtain ⟨others, later, -⟩ := bind_eq_ok_iff.1 found
          exact ⟨others, later⟩
        · rintro ⟨others, later⟩
          exact ⟨_, bind_eq_ok_iff.2 ⟨others, later, rfl⟩⟩

end Mask

namespace Statement

open Segment (hidden skeleton)

/-- A text with canonical spacing, its literals and comments left alone. -/
def tidy (text : Text) : Text :=
  Mask.insert (hidden (Segment.split text)) (respace (skeleton (Segment.split text)))

theorem tidy_eq_of_normalize {text result : Text} (noMark : Mask.mark ∉ text)
    (normalized : normalize text = .ok result) : result = tidy text := by
  have settles := Mask.unmask_respaced respacing.fill respacing.compact noMark
  have restored : unmask (mask text).saved (respace (mask text).text) = .ok result := normalized
  rw [restored] at settles
  exact settles

/-- Nothing changes about a text with canonical spacing in which no literal is open and all comments
are closed blocks. -/
theorem tidy_eq_self {text : Text} (noMark : Mask.mark ∉ text)
    (inline : (Segment.split text).all Segment.isInline)
    (canonical : respace (skeleton (Segment.split text)) = skeleton (Segment.split text)) :
    tidy text = text := by
  rw [tidy, canonical, Mask.insert_eq_self noMark inline]

theorem count_mark_respace (text : Text) : (respace text).count Mask.mark = text.count Mask.mark := by
  rw [← Mask.count_mark_compact, compact_respace, Mask.count_mark_compact]

/-- A text that hides as many texts as one that can be respaced can be respaced as well. -/
theorem normalize_eq_tidy {text other result : Text} (noMark : Mask.mark ∉ text)
    (noMarkToo : Mask.mark ∉ other)
    (sameCount : (hidden (Segment.split text)).length = (hidden (Segment.split other)).length)
    (normalized : normalize text = .ok result) : normalize other = .ok (tidy other) := by
  have count {text : Text} (noMark : Mask.mark ∉ text) :
      (respace (skeleton (Segment.split text))).count Mask.mark =
        (hidden (Segment.split text)).length := by
    rw [count_mark_respace, Mask.count_skeleton fun c => Mask.code_ne_mark noMark]
  have found : ∃ result, normalize other = .ok result := by
    simp only [normalize, mask_eq noMark, mask_eq noMarkToo, unmask, List.isEmpty_iff,
      ← List.length_eq_zero_iff, ← sameCount] at normalized ⊢
    rw [respacing.fill] at normalized ⊢
    split
    · exact ⟨_, rfl⟩
    · next filled =>
        rw [if_neg filled] at normalized
        have readable := Mask.exists_restore_fill_iff.1 ⟨result, normalized⟩
        rw [count noMark, sameCount, ← count noMarkToo] at readable
        exact Mask.exists_restore_fill_iff.2 readable
  obtain ⟨tidied, normalizedToo⟩ := found
  rw [normalizedToo, tidy_eq_of_normalize noMarkToo normalizedToo]

end Statement

end IdlFormat
