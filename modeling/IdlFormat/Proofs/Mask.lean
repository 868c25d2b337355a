import IdlFormat.Proofs.Segment
import IdlFormat.Source.Mask
import Mathlib.Algebra.Group.Nat.Defs
import Mathlib.Data.List.Forall2

/-!
# Masked texts

Hiding reads a text the same way as closing its literals does: the pieces of a repaired text are its
segments, each literal closed and each line comment in block form.
-/

namespace IdlFormat

section Bind

variable {Fault α β : Type} {result : Except Fault α} {next : α → Except Fault β}

theorem bind_eq_ok_iff {value : β} :
    result >>= next = .ok value ↔ ∃ first, result = .ok first ∧ next first = .ok value := by
  cases result <;> simp [Bind.bind, Except.bind]

theorem bind_eq_error_iff {fault : Fault} :
    result >>= next = .error fault ↔
      result = .error fault ∨ ∃ first, result = .ok first ∧ next first = .error fault := by
  cases result <;> simp [Bind.bind, Except.bind]

theorem mapError_eq_ok_iff {Reported : Type} {change : Fault → Reported} {value : α} :
    result.mapError change = .ok value ↔ result = .ok value := by
  cases result <;> simp [Except.mapError]

theorem toOption_eq_some_iff {value : α} : result.toOption = some value ↔ result = .ok value := by
  cases result <;> simp [Except.toOption]

theorem exists_of_mapM_eq_ok {sources : List α} {values : List β}
    (found : sources.mapM next = .ok values) {value : β} (member : value ∈ values) :
    ∃ source ∈ sources, next source = .ok value := by
  induction sources generalizing values with
  | nil =>
      obtain rfl : [] = values := Except.ok.inj found
      simp at member
  | cons source sources ih =>
      rw [List.mapM_cons] at found
      rcases bind_eq_ok_iff.1 found with ⟨first, own, found⟩
      rcases bind_eq_ok_iff.1 found with ⟨others, more, found⟩
      obtain rfl := Except.ok.inj found
      rcases List.mem_cons.1 member with rfl | later
      · exact ⟨source, List.mem_cons_self, own⟩
      · rcases ih more later with ⟨other, inside, same⟩
        exact ⟨other, List.mem_cons_of_mem source inside, same⟩

theorem mapM_eq_ok_iff {sources : List α} {values : List β} :
    sources.mapM next = .ok values ↔
      List.Forall₂ (fun source value => next source = .ok value) sources values := by
  induction sources generalizing values with
  | nil => simp [pure, Except.pure, eq_comm]
  | cons source sources ih =>
      rw [List.mapM_cons, bind_eq_ok_iff, List.forall₂_cons_left_iff]
      constructor
      · rintro ⟨first, own, found⟩
        rcases bind_eq_ok_iff.1 found with ⟨others, more, found⟩
        obtain rfl := Except.ok.inj found
        exact ⟨first, others, own, ih.1 more, rfl⟩
      · rintro ⟨first, others, own, more, rfl⟩
        exact ⟨first, own, bind_eq_ok_iff.2 ⟨others, ih.2 more, rfl⟩⟩

theorem exists_of_mapM_eq_error {sources : List α} {fault : Fault}
    (found : sources.mapM next = .error fault) : ∃ source ∈ sources, next source = .error fault := by
  induction sources with
  | nil => simp [pure, Except.pure] at found
  | cons source sources ih =>
      rw [List.mapM_cons] at found
      rcases bind_eq_error_iff.1 found with own | ⟨first, -, found⟩
      · exact ⟨source, List.mem_cons_self, own⟩
      · rcases bind_eq_error_iff.1 found with more | ⟨others, -, found⟩
        · rcases ih more with ⟨other, member, failed⟩
          exact ⟨other, List.mem_cons_of_mem source member, failed⟩
        · simp [pure, Except.pure] at found

end Bind

/-- A computation gives a result with a property, unless so many texts are hidden that the number
of a placeholder has too many digits. -/
def Settles {α : Type} (hidden : Nat) (result : Except Numeral.TooLong α) (post : α → Prop) :
    Prop :=
  match result with
  | .ok value => post value
  | .error _ => 10 ^ Numeral.digitLimit < hidden

namespace Settles

variable {α β : Type} {hidden : Nat} {result : Except Numeral.TooLong α} {post : α → Prop}

theorem bind {next : α → Except Numeral.TooLong β} {goal : β → Prop}
    (first : Settles hidden result post)
    (later : ∀ value, post value → Settles hidden (next value) goal) :
    Settles hidden (result >>= next) goal := by
  cases result with
  | ok value => exact later value first
  | error excess => exact first

theorem grow {more : Nat} (settles : Settles hidden result post) (larger : hidden ≤ more) :
    Settles more result post := by
  cases result with
  | ok value => exact settles
  | error excess => exact Nat.lt_of_lt_of_le settles larger

theorem mono {goal : α → Prop} (settles : Settles hidden result post)
    (weaker : ∀ value, post value → goal value) : Settles hidden result goal := by
  cases result with
  | ok value => exact weaker value settles
  | error excess => exact settles

/-- With few hidden texts there is a value. -/
theorem exists_ok (settles : Settles hidden result post) (few : hidden ≤ 10 ^ Numeral.digitLimit) :
    ∃ value, result = .ok value ∧ post value := by
  cases result with
  | ok value => exact ⟨value, rfl, settles⟩
  | error excess => exact absurd settles (Nat.not_lt.2 few)

end Settles

namespace Segment

/-- The piece that a segment becomes when literals and comments are hidden. -/
def piece : Segment → Mask.Piece
  | .code c => .plain c
  | .literal text repair => .hidden (text ++ repair)
  | .comment form text => .hidden (Comment.blockForm form text)

/-- The skeleton of segments: the characters of code, and a mark for each hidden text. -/
def skeleton (segments : List Segment) : Text :=
  segments.map fun
    | .code c => c
    | .literal _ _ => Mask.mark
    | .comment _ _ => Mask.mark

/-- The form in which a segment is put back: literals closed, comments in block form. -/
def restored : Segment → Text
  | .code c => [c]
  | .literal text repair => text ++ repair
  | .comment form text => Comment.blockForm form text

/-- The texts that are hidden, in order and in the form in which they are put back. -/
def hidden (segments : List Segment) : List Text :=
  segments.filterMap fun
    | .code _ => none
    | segment => some segment.restored

theorem code_or_hidden (segment : Segment) :
    (∃ c, segment = .code c) ∨ ∀ c, segment ≠ .code c := by
  cases segment <;> simp

theorem exists_of_mem_hidden {segments : List Segment} {text : Text} (member : text ∈ hidden segments) :
    ∃ segment ∈ segments, (∀ c, segment ≠ .code c) ∧ segment.restored = text := by
  rcases List.mem_filterMap.1 member with ⟨segment, inside, same⟩
  cases segment with
  | code c => simp at same
  | literal quoted repair => exact ⟨_, inside, by simp, by simpa using same⟩
  | comment form body => exact ⟨_, inside, by simp, by simpa using same⟩

theorem length_hidden_le {segments : List Segment} (lexed : Lexed segments) :
    (hidden segments).length ≤ (spell segments).length := by
  induction segments with
  | nil => exact Nat.le_refl _
  | cons segment segments ih =>
      have positive := List.length_pos_iff.2 lexed.1.text_ne_nil
      have others := ih lexed.2
      rw [spell_cons, List.length_append]
      cases segment <;> simp [hidden] at others ⊢ <;> omega

end Segment

theorem length_hidden_split_le (text : Text) :
    (Segment.hidden (Segment.split text)).length ≤ text.length := by
  have bound := Segment.length_hidden_le (Segment.lexed_split text)
  rwa [Segment.spell_split] at bound

namespace Mask

theorem literal?_append {quote : Char} (quoted : isQuote quote) {escaped : Bool}
    {body repair : Text} (whole : Literal.scan quote escaped body = ⟨body, [], repair⟩)
    (rest : Text) :
    literal? quote escaped (body ++ repair ++ rest) = some (body ++ repair, rest) := by
  have notBreak := Literal.quote_ne_break quoted
  have notBackslash := Literal.quote_ne_backslash quoted
  induction body generalizing escaped with
  | nil =>
      simp only [Literal.scan, Literal.Scan.mk.injEq, true_and] at whole
      subst whole
      cases escaped <;> simp [Literal.repair, literal?, notBreak]
  | cons c body ih =>
      rcases Literal.scan_cons_whole quoted whole with
        ⟨rfl, rfl, rfl, rfl⟩ | ⟨inLine, goesOn, inner⟩
      · simp [literal?, notBreak]
      · have notClosing : (!escaped && decide (c = quote)) = false := by
          rcases goesOn with rfl | notQuote
          · simp
          · simp [notQuote]
        rw [List.cons_append, List.cons_append, literal?, if_neg inLine, notClosing, ih inner]
        simp

theorem pieces_of_hidden? {text hidden rest : Text} (found : hidden? text = some (hidden, rest)) :
    pieces text = .hidden hidden :: pieces rest := by
  rw [pieces]
  split
  · next same =>
      rw [found] at same
      simp only [Option.some.injEq, Prod.mk.injEq] at same
      rw [same.1, same.2]
  · next none => simp [found] at none

theorem pieces_cons {c : Char} {rest : Text} (shown : hidden? (c :: rest) = none) :
    pieces (c :: rest) = .plain c :: pieces rest := by
  rw [pieces]
  split
  · next found => simp [shown] at found
  · rfl

theorem hidden?_code {c : Char} {rest : Text} (fits : (Segment.code c).Fits rest.head?) :
    hidden? (c :: rest) = none := by
  simp [hidden?, fits.form?_code, fits.1]

/-- A literal or a comment that fits what follows it is hidden as a whole, once it is closed. -/
theorem hidden?_closed_append {segment : Segment} (isHidden : ∀ c, segment ≠ .code c) {rest : Text}
    (fits : segment.Fits rest.head?) :
    hidden? (segment.closed ++ rest) = some (segment.restored, rest) := by
  match segment, fits with
  | .code c, _ => exact absurd rfl (isHidden c)
  | .literal _ repair, ⟨quote, body, rfl, quoted, whole, stops⟩ =>
      have none := Comment.form?_of_isQuote quoted (body ++ (repair ++ rest))
      have found := literal?_append quoted whole rest
      rw [List.append_assoc] at found
      simp [hidden?, Segment.closed, Segment.restored, none, quoted, found]
  | .comment form text, fits =>
      simp [hidden?, Segment.closed, Segment.text, Segment.restored, fits.form?_comment rest,
        fits.cut_comment]

/-- A segment is read as one piece, if it fits what follows it. -/
theorem pieces_closed_append {segment : Segment} {rest : Text} (fits : segment.Fits rest.head?) :
    pieces (segment.closed ++ rest) = segment.piece :: pieces rest := by
  cases segment with
  | code c => exact pieces_cons (hidden?_code fits)
  | literal text repair => exact pieces_of_hidden? (hidden?_closed_append (by simp) fits)
  | comment form text => exact pieces_of_hidden? (hidden?_closed_append (by simp) fits)

theorem pieces_closed {segments : List Segment} (lexed : Segment.Lexed segments) :
    pieces (segments.flatMap Segment.closed) = segments.map Segment.piece := by
  induction segments with
  | nil =>
      rw [List.flatMap_nil, pieces]
      rfl
  | cons segment segments ih =>
      rw [List.flatMap_cons, pieces_closed_append, ih lexed.2, List.map_cons]
      rw [Segment.head?_closed lexed.2]
      exact lexed.1

/-- Hiding reads a repaired text as its segments. -/
theorem pieces_closeLiterals (text : Text) :
    pieces (closeLiterals text) = (Segment.split text).map Segment.piece :=
  pieces_closed (Segment.lexed_split text)

/-- Writes placeholders, numbered from `next`, for the marks of a skeleton. -/
def fill (next : Nat) : Text → Text
  | [] => []
  | c :: rest =>
      if c = mark then placeholder next ++ fill (next + 1) rest else c :: fill next rest

/-- Writes texts for the marks of a skeleton, in order. -/
def insert (hidden : List Text) : Text → Text
  | [] => []
  | c :: rest =>
      if c = mark then hidden.headD [mark] ++ insert hidden.tail rest else c :: insert hidden rest

theorem digitValue?_of_isDigit {c : Char} (digit : c.isDigit) :
    digitValue? c = some (c.toNat - '0'.toNat) := by
  have bounds : 48 ≤ c.toNat ∧ c.toNat < 48 + 10 := by
    simp only [Char.isDigit, Bool.and_eq_true, decide_eq_true_eq, UInt32.le_iff_toNat_le] at digit
    have low : 48 ≤ c.toNat := digit.1
    have high : c.toNat ≤ 57 := digit.2
    omega
  simp [digitValue?, digitZeros, bounds]

theorem isDigit_of_mem_ofNat {c : Char} {number : Nat} (member : c ∈ Text.ofNat number) :
    c.isDigit :=
  Nat.isDigit_of_mem_toDigits (by decide) (by decide) member

theorem foldl_filterMap_digitValue? {digits : Text} (decimal : ∀ c ∈ digits, c.isDigit)
    (number : Nat) :
    (digits.filterMap digitValue?).foldl (fun number digit => number * 10 + digit) number =
      Nat.ofDigitChars 10 digits number := by
  induction digits generalizing number with
  | nil => simp
  | cons c digits ih =>
      rw [List.filterMap_cons, digitValue?_of_isDigit (decimal c List.mem_cons_self),
        List.foldl_cons, ih fun d member => decimal d (List.mem_cons_of_mem _ member),
        Nat.ofDigitChars_cons, Nat.mul_comm]

theorem decimalValue_ofNat (number : Nat) : (Text.ofNat number).decimalValue = number := by
  rw [Text.decimalValue, foldl_filterMap_digitValue? fun c => isDigit_of_mem_ofNat]
  exact Nat.ofDigitChars_ten_toDigits

theorem ofDigits_ofNat (number : Nat) :
    Settles (number + 1) (Numeral.ofDigits (Text.ofNat number)) (· = number) := by
  rw [Numeral.ofDigits, decimalValue_ofNat]
  split
  · next long =>
      show 10 ^ Numeral.digitLimit < number + 1
      apply Nat.lt_of_not_le
      intro small
      have short : (Text.ofNat number).length ≤ Numeral.digitLimit :=
        (Nat.length_toDigits_le_iff (by decide) (by decide)).2 small
      omega
  · rfl

theorem placeholder?_number {digits : Text} (filled : digits ≠ [])
    (decimal : ∀ c ∈ digits, isDecimalDigit c) (rest : Text) :
    placeholder? (mark :: (digits ++ mark :: rest)) = some (digits, rest) := by
  have notDigit : isDecimalDigit mark = false := by decide
  rw [placeholder?, List.takeWhile_append_of_pos decimal, List.dropWhile_append_of_pos decimal]
  simp [notDigit, filled]

theorem placeholder?_append (number : Nat) (rest : Text) :
    placeholder? (placeholder number ++ rest) = some (Text.ofNat number, rest) := by
  have digits : ∀ c ∈ Text.ofNat number, isDecimalDigit c := by
    intro c member
    simp [isDecimalDigit, digitValue?_of_isDigit (isDigit_of_mem_ofNat member)]
  have filled : Text.ofNat number ≠ [] := Nat.toDigits_ne_nil
  rw [placeholder, List.append_assoc]
  exact placeholder?_number filled digits rest

theorem placeholder?_cons {c : Char} (shown : c ≠ mark) (rest : Text) :
    placeholder? (c :: rest) = none := by
  simp [placeholder?, shown]

theorem restore_of_placeholder? {text digits rest : Text}
    (found : placeholder? text = some (digits, rest)) (saved : List Text) :
    restore saved text = do
      let number ← Numeral.ofDigits digits
      let restored ← restore saved rest
      return saved.getD number (mark :: digits ++ [mark]) ++ restored := by
  rw [restore]
  split
  · next same =>
      rw [found] at same
      obtain ⟨rfl, rfl⟩ := Prod.mk.inj (Option.some.inj same)
      rfl
  · next none => simp [found] at none

theorem restore_of_placeholder?_eq_none {c : Char} {rest : Text}
    (none : placeholder? (c :: rest) = none) (saved : List Text) :
    restore saved (c :: rest) = do
      let restored ← restore saved rest
      return c :: restored := by
  rw [restore]
  split
  · next found => simp [none] at found
  · rfl

theorem restore_placeholder_append (saved : List Text) (number : Nat) (rest : Text) :
    restore saved (placeholder number ++ rest) = do
      let read ← Numeral.ofDigits (Text.ofNat number)
      let restored ← restore saved rest
      return saved.getD read (placeholder number) ++ restored :=
  restore_of_placeholder? (placeholder?_append number rest) saved

theorem restore_cons {c : Char} (shown : c ≠ mark) (saved : List Text) (rest : Text) :
    restore saved (c :: rest) = do
      let restored ← restore saved rest
      return c :: restored :=
  restore_of_placeholder?_eq_none (placeholder?_cons shown rest) saved

/-- Placeholders are restored in order. -/
theorem restore_fill {saved : List Text} {next : Nat} {text : Text}
    (known : next + text.count mark ≤ saved.length) :
    Settles saved.length (restore saved (fill next text))
      (· = insert (saved.drop next) text) := by
  induction text generalizing next with
  | nil =>
      rw [fill, restore]
      simp [placeholder?, insert, Settles]
  | cons c rest ih =>
      by_cases marked : c = mark
      · subst marked
        rw [List.count_cons_self] at known
        have inRange : next < saved.length := by omega
        rw [fill, if_pos rfl, restore_placeholder_append]
        apply ((ofDigits_ofNat next).grow inRange).bind
        rintro _ rfl
        apply (ih (by omega)).bind
        rintro _ rfl
        show _ = _
        rw [List.drop_eq_getElem_cons inRange, insert, if_pos rfl]
        simp [inRange]
      · rw [List.count_cons_of_ne marked] at known
        rw [fill, if_neg marked, restore_cons marked]
        apply (ih known).bind
        rintro _ rfl
        show _ = _
        rw [insert, if_neg marked]

theorem fill_cons {c : Char} (shown : c ≠ mark) (next : Nat) (rest : Text) :
    fill next (c :: rest) = c :: fill next rest := by
  rw [fill, if_neg shown]

theorem fill_of_noMark {text : Text} (noMark : mark ∉ text) (next : Nat) :
    fill next text = text := by
  induction text with
  | nil => rfl
  | cons c rest ih =>
      simp only [List.mem_cons, not_or] at noMark
      rw [fill_cons (Ne.symm noMark.1), ih noMark.2]

theorem insert_of_noMark {text : Text} (noMark : mark ∉ text) (hidden : List Text) :
    insert hidden text = text := by
  induction text with
  | nil => rfl
  | cons c rest ih =>
      simp only [List.mem_cons, not_or] at noMark
      rw [insert, if_neg (Ne.symm noMark.1), ih noMark.2]

theorem write_map_piece {segments : List Segment} (shown : ∀ c, .code c ∈ segments → c ≠ mark)
    (next : Nat) :
    write next (segments.map Segment.piece) = fill next (Segment.skeleton segments) := by
  induction segments generalizing next with
  | nil => rfl
  | cons segment segments ih =>
      have others : ∀ c, .code c ∈ segments → c ≠ mark := fun c member =>
        shown c (List.mem_cons_of_mem _ member)
      cases segment with
      | code c =>
          have stays := shown c List.mem_cons_self
          simp [Segment.piece, write, Segment.skeleton, fill, stays, ih others]
      | literal text repair => simp [Segment.piece, write, Segment.skeleton, fill, ih others]
      | comment form text => simp [Segment.piece, write, Segment.skeleton, fill, ih others]

theorem saved_map_piece (segments : List Segment) :
    saved (segments.map Segment.piece) = Segment.hidden segments := by
  rw [saved, List.filterMap_map, Segment.hidden]
  congr 1
  funext segment
  cases segment <;> rfl

theorem count_skeleton {segments : List Segment} (shown : ∀ c, .code c ∈ segments → c ≠ mark) :
    (Segment.skeleton segments).count mark = (Segment.hidden segments).length := by
  induction segments with
  | nil => rfl
  | cons segment segments ih =>
      have others : ∀ c, .code c ∈ segments → c ≠ mark := fun c member =>
        shown c (List.mem_cons_of_mem _ member)
      cases segment with
      | code c =>
          have stays := shown c List.mem_cons_self
          simpa [Segment.skeleton, Segment.hidden, stays] using ih others
      | literal text repair => simpa [Segment.skeleton, Segment.hidden] using ih others
      | comment form text => simpa [Segment.skeleton, Segment.hidden] using ih others

theorem insert_skeleton {segments : List Segment} (shown : ∀ c, .code c ∈ segments → c ≠ mark) :
    insert (Segment.hidden segments) (Segment.skeleton segments) =
      segments.flatMap Segment.restored := by
  induction segments with
  | nil => rfl
  | cons segment segments ih =>
      have others := ih fun c member => shown c (List.mem_cons_of_mem _ member)
      rw [List.flatMap_cons, ← others]
      cases segment with
      | code c =>
          have stays := shown c List.mem_cons_self
          simp [Segment.skeleton, Segment.hidden, Segment.restored, insert, stays]
      | literal text repair => simp [Segment.skeleton, Segment.hidden, Segment.restored, insert]
      | comment form text => simp [Segment.skeleton, Segment.hidden, Segment.restored, insert]

theorem code_ne_mark {text : Text} (noMark : mark ∉ text) {c : Char}
    (member : .code c ∈ Segment.split text) : c ≠ mark := by
  rintro rfl
  apply noMark
  rw [← Segment.spell_split text]
  exact List.mem_flatMap.2 ⟨_, member, by simp [Segment.text]⟩

end Mask

theorem mask_eq {text : Text} (noMark : Mask.mark ∉ text) :
    mask text = ⟨Mask.fill 0 (Segment.skeleton (Segment.split text)),
      Segment.hidden (Segment.split text)⟩ := by
  rw [mask, Mask.pieces_closeLiterals, Mask.saved_map_piece,
    Mask.write_map_piece fun c => Mask.code_ne_mark noMark]

theorem unmask_fill {saved : List Text} {text : Text}
    (known : text.count Mask.mark ≤ saved.length) :
    Settles saved.length (unmask saved (Mask.fill 0 text)) (· = Mask.insert saved text) := by
  rw [unmask]
  split
  · next empty =>
      rw [List.isEmpty_iff] at empty
      subst empty
      have noMark : Mask.mark ∉ text := List.count_eq_zero.1 (Nat.le_zero.1 known)
      show _ = _
      rw [Mask.fill_of_noMark noMark, Mask.insert_of_noMark noMark]
  · simpa using @Mask.restore_fill saved 0 text (by simpa using known)

end IdlFormat
