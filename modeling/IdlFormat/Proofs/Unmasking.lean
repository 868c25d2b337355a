import IdlFormat.Proofs.Overlong
import IdlFormat.Proofs.Relaying
import IdlFormat.Proofs.Rereading

/-!
# When restoring undoes hiding

Restoring a masked text puts back what was hidden, literals closed and comments in block form, as
long as no mark of the source itself is mistaken for one of a placeholder. The text is read from
left to right, so a mark in the code is mistaken when digits follow it and then either the first
mark of a placeholder or, if the number names a hidden text, another mark of the code. A number that
names none is passed over together with both of its marks. This is exact: as soon as one mark is
mistaken, the result is another text (`unmask_mask_eq_ok_iff`).
-/

namespace IdlFormat

namespace Segment

/-- The characters of a segment, a line comment in block form. -/
def blockForm : Segment → Text
  | .comment form text => Comment.blockForm form text
  | segment => segment.text

theorem blockForm_close (segment : Segment) : segment.close.blockForm = segment.restored := by
  cases segment <;> rfl

end Segment

/-- A text with its line comments in block form. -/
def blockComments (text : Text) : Text :=
  (Segment.split text).flatMap Segment.blockForm

theorem blockComments_closeLiterals (text : Text) :
    blockComments (closeLiterals text) = (Segment.split text).flatMap Segment.restored := by
  rw [blockComments, split_closeLiterals, List.flatMap_map]
  exact congrArg ((Segment.split text).flatMap ·) (funext Segment.blockForm_close)

namespace Mask

theorem placeholder?_cons_eq_none_iff (c : Char) (rest : Text) :
    placeholder? (c :: rest) = none ↔
      (c = mark → rest.takeWhile isDecimalDigit = [] ∨
        (rest.dropWhile isDecimalDigit).head? ≠ some mark) := by
  rw [placeholder?]
  by_cases marked : c = mark
  · cases digits : rest.takeWhile isDecimalDigit with
    | nil => simp
    | cons d digits =>
        cases rest.dropWhile isDecimalDigit with
        | nil => simp
        | cons e after => by_cases closed : e = mark <;> simp [marked, closed]
  · simp [marked]

end Mask

namespace Segment

/-- Lists of segments whose marks are told from those of placeholders when `known` texts are hidden:
no mark in the code begins a number that ends at a placeholder, and none begins a number between
marks that names a hidden text or is too long to be read. -/
inductive Unmistakable (known : Nat) : List Segment → Prop
  | nil : Unmistakable known []
  /-- A hidden segment is read from its placeholder. -/
  | hidden {segment : Segment} {rest : List Segment} (isHidden : ∀ c, segment ≠ .code c)
      (later : Unmistakable known rest) : Unmistakable known (segment :: rest)
  /-- A character begins no number between marks. -/
  | single {c : Char} {rest : List Segment}
      (none : Mask.placeholder? (skeleton (.code c :: rest)) = none)
      (later : Unmistakable known rest) : Unmistakable known (.code c :: rest)
  /-- A number between marks names none of the hidden texts. -/
  | unknown {digits : Text} {number : Nat} {rest : List Segment} (filled : digits ≠ [])
      (decimal : ∀ c ∈ digits, isDecimalDigit c) (read : Numeral.ofDigits digits = .ok number)
      (beyond : known ≤ number) (later : Unmistakable known rest) :
      Unmistakable known (.code Mask.mark :: (digits.map .code ++ .code Mask.mark :: rest))

theorem unmistakable_of_shown {segments : List Segment}
    (shown : ∀ c, .code c ∈ segments → c ≠ Mask.mark) (known : Nat) :
    Unmistakable known segments := by
  induction segments with
  | nil => exact .nil
  | cons segment rest ih =>
      have later := ih fun c member => shown c (List.mem_cons_of_mem _ member)
      cases segment with
      | code c => exact .single (Mask.placeholder?_cons (shown c List.mem_cons_self) _) later
      | literal text repair => exact .hidden (by simp) later
      | comment form text => exact .hidden (by simp) later

theorem Fits.head?_restored {segment : Segment} {next : Option Char} (fits : segment.Fits next)
    (isHidden : ∀ c, segment ≠ .code c) :
    ∃ c rest, segment.restored = c :: rest ∧ c ≠ Mask.mark := by
  match segment, fits with
  | .code c, _ => exact absurd rfl (isHidden c)
  | .literal _ repair, ⟨quote, body, rfl, quoted, _⟩ =>
      refine ⟨quote, body ++ repair, rfl, ?_⟩
      rintro rfl
      revert quoted
      decide
  | .comment .line text, _ =>
      obtain ⟨body, same, -⟩ := Comment.exists_blockForm_line text
      exact ⟨'/', '*' :: body, same, by decide⟩
  | .comment .block _, ⟨body, rfl, _⟩ => exact ⟨'/', '*' :: body, rfl, by decide⟩

theorem hidden_cons_of_ne_code {segment : Segment} (isHidden : ∀ c, segment ≠ .code c)
    (rest : List Segment) :
    Segment.hidden (segment :: rest) = segment.restored :: Segment.hidden rest := by
  cases segment with
  | code c => exact absurd rfl (isHidden c)
  | literal text repair => rfl
  | comment form text => rfl

theorem flatMap_restored_map_code (text : Text) :
    (text.map code).flatMap restored = text := by
  rw [List.flatMap_map]
  exact List.flatMap_singleton' text

end Segment

namespace Mask

open Segment

theorem write_map_piece_cons_of_ne_code {segment : Segment} (isHidden : ∀ c, segment ≠ .code c)
    (next : Nat) (rest : List Segment) :
    write next ((segment :: rest).map piece) =
      placeholder next ++ write (next + 1) (rest.map piece) := by
  cases segment with
  | code c => exact absurd rfl (isHidden c)
  | literal text repair => rfl
  | comment form text => rfl

theorem write_map_piece_code_append (next : Nat) (text : Text) (rest : List Segment) :
    write next ((text.map Segment.code ++ rest).map piece) =
      text ++ write next (rest.map piece) := by
  induction text with
  | nil => rfl
  | cons c text ih => exact congrArg (c :: ·) ih

/-- Where a number between marks begins does not depend on the numbers of the placeholders. -/
theorem placeholder?_write_eq_none_iff (c : Char) (next : Nat) (rest : List Segment) :
    placeholder? (c :: write next (rest.map piece)) = none ↔
      placeholder? (skeleton (.code c :: rest)) = none := by
  have same : (write next (rest.map piece)).takeWhile isDecimalDigit =
        (skeleton rest).takeWhile isDecimalDigit ∧
      ((write next (rest.map piece)).dropWhile isDecimalDigit).head? =
        ((skeleton rest).dropWhile isDecimalDigit).head? := by
    have notDigit : isDecimalDigit mark = false := by decide
    induction rest with
    | nil => exact ⟨rfl, rfl⟩
    | cons segment rest ih =>
        cases segment with
        | code d =>
            by_cases digit : isDecimalDigit d
            · simpa [piece, write, skeleton, List.takeWhile_cons, List.dropWhile_cons, digit]
                using ih
            · simp [piece, write, skeleton, digit]
        | literal text repair => simp [piece, write, skeleton, placeholder, notDigit]
        | comment form text => simp [piece, write, skeleton, placeholder, notDigit]
  rw [skeleton, List.map_cons, ← skeleton, placeholder?_cons_eq_none_iff,
    placeholder?_cons_eq_none_iff, same.1, same.2]

theorem getD_of_drop_eq_cons {saved others : List Text} {next : Nat} {own : Text}
    (listed : saved.drop next = own :: others) :
    next < saved.length ∧ (∀ other, saved.getD next other = own) ∧
      saved.drop (next + 1) = others := by
  have inRange : next < saved.length := by
    apply Nat.lt_of_not_le
    intro beyond
    simp [List.drop_eq_nil_of_le beyond] at listed
  rw [List.drop_eq_getElem_cons inRange] at listed
  obtain ⟨rfl, rfl⟩ := List.cons.inj listed
  exact ⟨inRange, fun other => by simp [inRange], rfl⟩

/-- Restoring a masked text gives back its segments if no mark of the code is mistaken. -/
theorem restore_write {saved : List Text} {segments : List Segment}
    (clear : Unmistakable saved.length segments) {next : Nat}
    (listed : saved.drop next = Segment.hidden segments) :
    Settles saved.length (restore saved (write next (segments.map piece)))
      (· = segments.flatMap restored) := by
  induction clear generalizing next with
  | nil =>
      rw [List.map_nil, write, restore]
      rfl
  | @hidden segment rest isHidden _ ih =>
      rw [hidden_cons_of_ne_code isHidden] at listed
      obtain ⟨inRange, own, others⟩ := getD_of_drop_eq_cons listed
      rw [write_map_piece_cons_of_ne_code isHidden, restore_placeholder_append]
      apply ((ofDigits_ofNat next).grow inRange).bind
      rintro _ rfl
      apply (ih others).bind
      rintro _ rfl
      show _ = _
      rw [own, List.flatMap_cons]
  | @single c rest none _ ih =>
      have shown := (placeholder?_write_eq_none_iff c next rest).2 none
      show Settles _ (restore saved (c :: write next (rest.map piece))) _
      rw [restore_of_placeholder?_eq_none shown]
      apply (ih listed).bind
      rintro _ rfl
      rfl
  | @unknown digits number rest filled decimal read beyond _ ih =>
      have listed : saved.drop next = Segment.hidden rest := by
        rw [listed]
        exact (hidden_append (digits.map .code) _).trans (by rw [hidden_map_code]; rfl)
      have written := write_map_piece_code_append next (mark :: digits ++ [mark]) rest
      simp only [List.map_cons, List.map_append, List.cons_append, List.append_assoc,
        List.map_nil, List.nil_append] at written ⊢
      rw [written, restore_of_placeholder? (placeholder?_number filled decimal _), read]
      apply (ih listed).bind
      rintro _ rfl
      show _ = _
      simp [beyond, flatMap_restored_map_code, restored]

/-- A number between marks that is read in the skeleton of segments stands in their code, but for
its second mark. -/
theorem exists_of_placeholder?_skeleton {c : Char} {rest : List Segment} {digits after : Text}
    (found : placeholder? (skeleton (.code c :: rest)) = some (digits, after)) :
    c = mark ∧ digits ≠ [] ∧ (∀ d ∈ digits, isDecimalDigit d) ∧
      ∃ closing later, rest = digits.map .code ++ closing :: later ∧
        ∀ d, closing = .code d → d = mark := by
  obtain ⟨same, decimal⟩ := eq_of_placeholder? found
  have filled : digits ≠ [] := by
    rintro rfl
    have none := (placeholder?_cons_eq_none_iff mark (mark :: after)).2 fun _ => .inl rfl
    rw [same, List.nil_append, none] at found
    simp at found
  obtain ⟨marked, same⟩ := List.cons.inj same
  refine ⟨marked, filled, decimal, ?_⟩
  obtain ⟨left, right, rfl, spelled, closed⟩ := List.map_eq_append_iff.1 same
  obtain ⟨closing, later, rfl, isMark, -⟩ := List.map_eq_cons_iff.1 closed
  refine ⟨closing, later, ?_, ?_⟩
  · rw [← spelled, List.map_map]
    congr 1
    refine (List.map_id left).symm.trans (List.map_congr_left fun segment member => ?_)
    have digit := decimal _ (spelled ▸ List.mem_map_of_mem member)
    cases segment with
    | code d => rfl
    | literal text repair => exact absurd (show isDecimalDigit mark = true from digit) (by decide)
    | comment form text => exact absurd (show isDecimalDigit mark = true from digit) (by decide)
  · rintro d rfl
    exact isMark

/-- What follows a number that is left alone, if a mark comes out in the first place. -/
theorem beyond_of_restore_number {saved : List Text} {digits rest tail : Text}
    (solid : ∀ text ∈ saved, ∃ c rest, text = c :: rest ∧ c ≠ mark) (filled : digits ≠ [])
    (decimal : ∀ c ∈ digits, isDecimalDigit c)
    (found : restore saved (mark :: (digits ++ mark :: rest)) = .ok (mark :: (digits ++ tail))) :
    ∃ number others, Numeral.ofDigits digits = .ok number ∧ saved.length ≤ number ∧
      restore saved rest = .ok others ∧ mark :: others = tail := by
  rw [restore_of_placeholder? (placeholder?_number filled decimal rest)] at found
  obtain ⟨number, read, found⟩ := bind_eq_ok_iff.1 found
  obtain ⟨others, more, found⟩ := bind_eq_ok_iff.1 found
  have same := Except.ok.inj found
  refine ⟨number, others, read, ?_⟩
  by_cases inRange : number < saved.length
  · obtain ⟨c, rest, own, other⟩ := solid saved[number] (List.getElem_mem inRange)
    rw [List.getD_eq_getElem?_getD, List.getElem?_eq_getElem inRange, Option.getD_some, own] at same
    exact absurd (List.cons.inj same).1 other
  · rw [Nat.not_lt] at inRange
    refine ⟨inRange, more, ?_⟩
    simpa [inRange] using same

/-- If restoring a masked text gives back its segments, no mark of the code is mistaken. -/
theorem unmistakable_of_restore {saved : List Text} {segments : List Segment}
    (lexed : Lexed segments) (solid : ∀ text ∈ saved, ∃ c rest, text = c :: rest ∧ c ≠ mark)
    {next : Nat}
    (listed : saved.drop next = Segment.hidden segments)
    (found : restore saved (write next (segments.map piece)) = .ok (segments.flatMap restored)) :
    Unmistakable saved.length segments := by
  induction known : segments.length using Nat.strong_induction_on generalizing segments next with
  | _ size ih =>
  cases segments with
  | nil => exact .nil
  | cons segment rest =>
      by_cases isCode : ∃ c, segment = .code c
      · obtain ⟨c, rfl⟩ := isCode
        cases begun : placeholder? (skeleton (.code c :: rest)) with
        | none =>
            have shown := (placeholder?_write_eq_none_iff c next rest).2 begun
            have found : restore saved (c :: write next (rest.map piece)) =
                .ok (c :: rest.flatMap restored) := found
            rw [restore_of_placeholder?_eq_none shown] at found
            obtain ⟨others, found, same⟩ := bind_eq_ok_iff.1 found
            obtain ⟨-, rfl⟩ := List.cons.inj (Except.ok.inj same)
            refine .single begun (ih rest.length ?_ lexed.2 listed found rfl)
            simp [← known]
        | some cut =>
            obtain ⟨digits, after⟩ := cut
            obtain ⟨rfl, filled, decimal, closing, later, rfl, closed⟩ :=
              exists_of_placeholder?_skeleton begun
            have written := write_map_piece_code_append next (mark :: digits) (closing :: later)
            rw [List.map_cons, List.cons_append, List.cons_append] at written
            rw [written, List.flatMap_cons, List.flatMap_append, flatMap_restored_map_code] at found
            have listed : saved.drop next = Segment.hidden (closing :: later) := by
              rw [listed]
              refine (hidden_append (digits.map .code) _).trans ?_
              rw [hidden_map_code, List.nil_append]
            have more : Lexed (closing :: later) := lexed.2.right
            by_cases inCode : ∃ d, closing = .code d
            · obtain ⟨d, rfl⟩ := inCode
              obtain rfl := closed d rfl
              obtain ⟨number, others, read, beyond, found, same⟩ :=
                beyond_of_restore_number solid filled decimal found
              obtain ⟨-, rfl⟩ := List.cons.inj same
              have shorter : later.length < size := by
                simp only [← known, List.length_cons, List.length_append]
                omega
              exact .unknown filled decimal read beyond (ih _ shorter more.2 listed found rfl)
            · rw [not_exists] at inCode
              rw [write_map_piece_cons_of_ne_code inCode, placeholder, List.append_assoc,
                List.cons_append] at found
              obtain ⟨number, others, -, -, -, same⟩ :=
                beyond_of_restore_number solid filled decimal found
              obtain ⟨c, tail, own, other⟩ := more.1.head?_restored inCode
              rw [List.flatMap_cons, own] at same
              exact absurd (List.cons.inj same).1.symm other
      · rw [not_exists] at isCode
        rw [hidden_cons_of_ne_code isCode] at listed
        rw [write_map_piece_cons_of_ne_code isCode, restore_placeholder_append] at found
        obtain ⟨number, read, found⟩ := bind_eq_ok_iff.1 found
        obtain ⟨others, found, same⟩ := bind_eq_ok_iff.1 found
        obtain rfl : number = next := by simpa [read, Settles] using ofDigits_ofNat next
        obtain ⟨-, own, more⟩ := getD_of_drop_eq_cons listed
        have same := Except.ok.inj same
        rw [own, List.flatMap_cons, List.append_cancel_left_eq] at same
        subst same
        refine .hidden isCode (ih rest.length ?_ lexed.2 more found rfl)
        simp [← known]

end Mask

namespace Segment

variable {segments : List Segment}

theorem write_of_hidden_eq_nil (bare : hidden segments = []) (next : Nat) :
    Mask.write next (segments.map piece) = segments.flatMap restored := by
  induction segments with
  | nil => rfl
  | cons segment rest ih =>
      cases segment with
      | code c => exact congrArg (c :: ·) (ih bare)
      | literal text repair => simp [hidden] at bare
      | comment form text => simp [hidden] at bare

theorem flatMap_restored_eq_spell
    (closed : ∀ quoted repair, .literal quoted repair ∈ segments → repair = [])
    (blocks : ∀ body, .comment .line body ∉ segments) :
    segments.flatMap restored = spell segments := by
  refine List.flatMap_congr fun segment member => ?_
  match segment, member with
  | .code c, _ => rfl
  | .literal quoted repair, member =>
      rw [closed quoted repair member]
      exact List.append_nil quoted
  | .comment .line body, member => exact absurd member (blocks body)
  | .comment .block body, _ => rfl

end Segment

theorem saved_mask (text : Text) : (mask text).saved = Segment.hidden (Segment.split text) := by
  rw [mask, Mask.pieces_closeLiterals, Mask.saved_map_piece]

/-- Restoring undoes hiding if no mark of the text is mistaken. -/
theorem unmask_mask_settles {text : Text}
    (clear : (mask text).saved = [] ∨
      Segment.Unmistakable (mask text).saved.length (Segment.split text)) :
    Settles text.length (unmask (mask text).saved (mask text).text)
      (· = blockComments (closeLiterals text)) := by
  rw [blockComments_closeLiterals, saved_mask] at *
  rw [mask, Mask.pieces_closeLiterals, unmask]
  split
  · next bare => exact Segment.write_of_hidden_eq_nil (List.isEmpty_iff.1 bare) 0
  · next filled =>
      rw [List.isEmpty_iff] at filled
      exact (Mask.restore_write (clear.resolve_left filled) rfl).grow (length_hidden_split_le text)

/-- Without marks in the text, restoring always undoes hiding. -/
theorem unmask_mask_of_noMark {text : Text} (noMark : Mask.mark ∉ text) :
    Settles text.length (unmask (mask text).saved (mask text).text)
      (· = blockComments (closeLiterals text)) :=
  unmask_mask_settles (.inr (Segment.unmistakable_of_shown (fun _ => Mask.code_ne_mark noMark) _))

/-- Restoring what hiding has hidden gives the text with its open literals closed and its line
comments in block form if, and only if, nothing is hidden or no mark of the text is mistaken for one
of a placeholder. A text without open literals and line comments is then given back as it is. -/
theorem unmask_mask_eq_ok_iff {text : Text} (short : text.length ≤ 10 ^ Numeral.digitLimit) :
    (unmask (mask text).saved (mask text).text = .ok (blockComments (closeLiterals text)) ↔
        (mask text).saved = [] ∨
          Segment.Unmistakable (mask text).saved.length (Segment.split text)) ∧
      ((∀ quoted repair, .literal quoted repair ∈ Segment.split text → repair = []) →
        (∀ body, .comment .line body ∉ Segment.split text) →
        blockComments (closeLiterals text) = text) := by
  refine ⟨⟨fun found => ?_, fun clear => ?_⟩, fun closed blocks => ?_⟩
  · rw [blockComments_closeLiterals, saved_mask, mask, Mask.pieces_closeLiterals, unmask] at found
    rw [saved_mask]
    split at found
    · next bare => exact .inl (List.isEmpty_iff.1 bare)
    · refine .inr (Mask.unmistakable_of_restore (Segment.lexed_split text) ?_ rfl found)
      intro hidden member
      obtain ⟨segment, inside, notCode, rfl⟩ := Segment.exists_of_mem_hidden member
      obtain ⟨next, fits⟩ := (Segment.lexed_split text).exists_fits segment inside
      exact fits.head?_restored notCode
  · obtain ⟨result, found, same⟩ := (unmask_mask_settles clear).exists_ok short
    rw [found, same]
  · rw [blockComments_closeLiterals, Segment.flatMap_restored_eq_spell closed blocks,
      Segment.spell_split]

/-- A number of no hidden text and a single mark stand before an open literal and a line comment. -/
theorem unmask_mask_eq_ok_unknown :
    "\x007\x00 \x00=\"a\n// */ ".toList.length ≤ 10 ^ Numeral.digitLimit ∧
      unmask (mask "\x007\x00 \x00=\"a\n// */ ".toList).saved
          (mask "\x007\x00 \x00=\"a\n// */ ".toList).text =
        .ok "\x007\x00 \x00=\"a\"\n/* * / */".toList := by
  have short : "\x007\x00 \x00=\"a\n// */ ".toList.length ≤ 10 ^ Numeral.digitLimit :=
    Nat.le_trans (by decide : _ ≤ 10 ^ 2) (Nat.pow_le_pow_right (by decide) (by decide))
  have split : Segment.split "\x007\x00 \x00=\"a\n// */ ".toList =
      .code Mask.mark :: (['7'].map .code ++ .code Mask.mark :: [.code ' ', .code Mask.mark,
        .code '=', .literal ['"', 'a'] ['"'], .code '\n', .comment .line "// */ ".toList]) := by
    decide +kernel
  have saved : (mask "\x007\x00 \x00=\"a\n// */ ".toList).saved.length = 2 := by decide +kernel
  have clear : Segment.Unmistakable 2 (Segment.split "\x007\x00 \x00=\"a\n// */ ".toList) := by
    rw [split]
    have digit : ∀ c ∈ ['7'], isDecimalDigit c := List.forall_mem_singleton.2 (by decide)
    refine .unknown (by simp) digit (by decide : _ = Except.ok 7) (by decide) ?_
    refine .single (by decide) (.single (by decide) (.single (by decide) ?_))
    exact .hidden (by simp) (.single (by decide) (.hidden (by simp) .nil))
  have restored : blockComments (closeLiterals "\x007\x00 \x00=\"a\n// */ ".toList) =
      "\x007\x00 \x00=\"a\"\n/* * / */".toList := by
    decide +kernel
  have result := (unmask_mask_eq_ok_iff short).1.2 (.inr (by rw [saved]; exact clear))
  rw [restored] at result
  exact ⟨short, result⟩

/-- A number between marks that names a hidden text is taken for its placeholder. -/
example : unmask (mask "\"\"\x000\x00".toList).saved (mask "\"\"\x000\x00".toList).text =
    .ok "\"\"\"\"".toList := by
  decide +kernel

/-- A mark and digits in front of a literal are taken for a placeholder together with its mark. -/
example : unmask (mask "\x001\"\"".toList).saved (mask "\x001\"\"".toList).text =
    .ok "\x001\x000\x00".toList := by
  decide +kernel

end IdlFormat
