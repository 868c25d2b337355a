import IdlFormat.Json.Printer
import IdlFormat.Json.Token
import IdlFormat.Proofs.Mask
import Mathlib.Tactic.IntervalCases

/-!
# Tokens of written JSON

A token ends where the characters say so: a string at its closing quote, a number or name before the
comma or bracket that follows a value. So the tokens of a value do not change when such a character
and anything else is written behind it (`tokens_append`), and the tokens of a written value are
found one after the other (`spells_render`).
-/

namespace IdlFormat

namespace Json

namespace Token

/-- What may follow a value: nothing, or a comma or closing bracket. -/
def Ends (rest : Text) : Prop :=
  ∀ c, rest.head? = some c → c ∈ [',', ']', '}']

theorem ends_nil : Ends [] := by
  intro c first
  simp at first

theorem ends_cons {c : Char} (mark : c ∈ [',', ']', '}']) (rest : Text) : Ends (c :: rest) := by
  intro d first
  obtain rfl : c = d := by simpa using first
  exact mark

variable {text rest after : Text} {c : Char} {token : Token}

/-! ## The characters of a token -/

/-- The codes of a string do not depend on what follows its closing quote. -/
theorem exists_taken_stringCodes {codes : List Nat}
    (found : stringCodes text = some (codes, after)) :
    ∃ taken, text = taken ++ after ∧ ∀ rest, stringCodes (taken ++ rest) = some (codes, rest) := by
  fun_induction stringCodes text generalizing codes after with
  | case1 => simp at found
  | case2 text =>
      obtain ⟨rfl, rfl⟩ : [] = codes ∧ text = after := by simpa using found
      exact ⟨['"'], rfl, fun rest => by simp [stringCodes]⟩
  | case3 a b c d text ih =>
      simp only [Option.bind_eq_bind, Option.bind_eq_some_iff, Option.pure_def, Option.some.injEq,
        Prod.mk.injEq, Prod.exists] at found
      rcases found with ⟨code, unit, codes, after, inner, rfl, rfl⟩
      rcases ih inner with ⟨taken, rfl, read⟩
      exact ⟨'\\' :: 'u' :: a :: b :: c :: d :: taken, rfl, fun rest => by
        simp [stringCodes, unit, read rest]⟩
  | case4 c text other ih =>
      simp only [Option.bind_eq_bind, Option.bind_eq_some_iff, Option.pure_def, Option.some.injEq,
        Prod.mk.injEq, Prod.exists] at found
      rcases found with ⟨code, short, codes, after, inner, rfl, rfl⟩
      rcases ih inner with ⟨taken, rfl, read⟩
      have notUnit : c ≠ 'u' := by
        rintro rfl
        have none : escape? 'u' = none := by decide
        simp [none] at short
      refine ⟨'\\' :: c :: taken, rfl, ?_⟩
      intro rest
      rw [List.cons_append, List.cons_append, stringCodes.eq_4]
      · simp [short, read rest]
      · intro a b c d more isUnit
        exact absurd isUnit notUnit
  | case5 c text isQuote notUnit notShort refused => simp at found
  | case6 c text isQuote notUnit notShort kept ih =>
      simp only [Option.bind_eq_bind, Option.bind_eq_some_iff, Option.pure_def, Option.some.injEq,
        Prod.mk.injEq, Prod.exists] at found
      rcases found with ⟨codes, after, inner, rfl, rfl⟩
      rcases ih inner with ⟨taken, rfl, read⟩
      simp only [Bool.or_eq_true, decide_eq_true_eq, not_or] at kept
      refine ⟨c :: taken, rfl, ?_⟩
      intro rest
      rw [List.cons_append, stringCodes.eq_5]
      · simp [kept, read rest]
      · exact isQuote
      · intro a b d e more isBackslash
        exact absurd isBackslash kept.2
      · intro d more isBackslash
        exact absurd isBackslash kept.2

theorem run_append {inClass : Char → Bool} (stops : ∀ c, rest.head? = some c → inClass c = false)
    (text : Text) :
    (text ++ rest).takeWhile inClass = text.takeWhile inClass ∧
      (text ++ rest).dropWhile inClass = text.dropWhile inClass ++ rest := by
  induction text with
  | nil =>
      cases rest with
      | nil => exact ⟨rfl, rfl⟩
      | cons c rest => simp [stops c rfl]
  | cons c text ih =>
      cases inside : inClass c with
      | true => simp [inside, ih]
      | false => simp [inside]

theorem Ends.not_isDigit (ends : Ends rest) : ∀ c, rest.head? = some c → isDigit c = false := by
  intro c first
  have mark := ends c first
  simp only [List.mem_cons, List.not_mem_nil, or_false] at mark
  rcases mark with rfl | rfl | rfl <;> decide

theorem Ends.ne (ends : Ends rest) {c : Char} (other : c ∉ [',', ']', '}']) :
    rest.head? ≠ some c :=
  fun first => other (ends c first)

theorem fraction_append (ends : Ends rest) (text : Text) :
    fraction (text ++ rest) = ((fraction text).1, (fraction text).2 ++ rest) := by
  unfold fraction
  have run := run_append ends.not_isDigit
  split
  · next whole tail shape =>
      cases text with
      | nil =>
          have point : rest.head? = some '.' := by rw [← List.nil_append rest, shape]; rfl
          exact absurd point (ends.ne (by decide))
      | cons c text =>
          obtain ⟨rfl, rfl⟩ : c = '.' ∧ text ++ rest = tail := by simpa using shape
          simp only [run text]
          split <;> rfl
  · next other =>
      split
      · next tail => exact absurd rfl (other (tail ++ rest))
      · rfl

theorem sign_append (ends : Ends rest) (text : Text) :
    Numeral.sign (text ++ rest) = ((Numeral.sign text).1, (Numeral.sign text).2 ++ rest) := by
  cases text with
  | nil =>
      unfold Numeral.sign
      split
      · next shape => exact absurd (congrArg List.head? shape) (ends.ne (by decide))
      · next shape => exact absurd (congrArg List.head? shape) (ends.ne (by decide))
      · rfl
  | cons c text =>
      by_cases minus : c = '-'
      · subst minus
        rfl
      · by_cases plus : c = '+'
        · subst plus
          rfl
        · simp [Numeral.sign, minus, plus]

theorem exponent_append (ends : Ends rest) (text : Text) :
    exponent (text ++ rest) = ((exponent text).1, (exponent text).2 ++ rest) := by
  have run := run_append ends.not_isDigit
  cases text with
  | nil =>
      cases rest with
      | nil => rfl
      | cons c rest =>
          have mark := ends c rfl
          simp only [List.mem_cons, List.not_mem_nil, or_false] at mark
          rcases mark with rfl | rfl | rfl <;> rfl
  | cons c text =>
      simp only [exponent, List.cons_append, sign_append ends text, run]
      split
      · split <;> rfl
      · rfl

theorem fraction_suffix (text : Text) : (fraction text).2 <:+ text := by
  unfold fraction
  split
  · next tail =>
      simp only
      split
      · exact List.suffix_refl _
      · exact (List.dropWhile_suffix _).trans (List.suffix_cons _ _)
  · exact List.suffix_refl _

theorem sign_suffix (text : Text) : (Numeral.sign text).2 <:+ text := by
  unfold Numeral.sign
  split
  · exact List.suffix_cons _ _
  · exact List.suffix_cons _ _
  · exact List.suffix_refl _

theorem exponent_suffix (text : Text) : (exponent text).2 <:+ text := by
  unfold exponent
  split
  · exact List.suffix_refl _
  · next mark tail =>
      simp only
      split
      · split
        · exact List.suffix_refl _
        · exact ((List.dropWhile_suffix _).trans (sign_suffix tail)).trans (List.suffix_cons _ _)
      · exact List.suffix_refl _

theorem wholePart_isPrefix (text : Text) : wholePart text <+: text := by
  unfold wholePart
  split
  · next zero =>
      rcases List.head?_eq_some_iff.1 zero with ⟨tail, rfl⟩
      exact ⟨tail, rfl⟩
  · exact List.takeWhile_prefix _

theorem wholePart_append (ends : Ends rest) (text : Text) :
    wholePart (text ++ rest) = wholePart text := by
  cases text with
  | nil =>
      rw [wholePart, wholePart, List.nil_append, if_neg (ends.ne (by decide))]
      simpa using (run_append ends.not_isDigit []).1
  | cons c text =>
      rw [wholePart, wholePart, (run_append ends.not_isDigit (c :: text)).1]
      rfl

theorem number_append (ends : Ends rest) (negative : Bool) (text : Text) :
    number negative (text ++ rest) =
      (number negative text).map fun (token, after) => (token, after ++ rest) := by
  simp only [number, wholePart_append ends]
  split
  · rfl
  · rw [List.drop_append_of_le_length (wholePart_isPrefix text).length_le, fraction_append ends]
    simp only [exponent_append ends, Option.map_some]

theorem number_suffix {negative : Bool} (found : number negative text = some (token, after)) :
    ∃ first tail, text = first :: tail ∧ after <:+ tail := by
  simp only [number] at found
  split at found
  · cases found
  · next filled =>
      obtain ⟨-, rfl⟩ : _ ∧ _ = after := by simpa using found
      rcases wholePart_isPrefix text with ⟨tail, whole⟩
      rcases List.exists_cons_of_ne_nil (by simpa using filled) with ⟨first, more, shape⟩
      refine ⟨first, more ++ tail, by rw [← whole, shape]; rfl, ?_⟩
      have inner := (exponent_suffix _).trans (fraction_suffix (text.drop (wholePart text).length))
      have dropped := congrArg (List.drop (wholePart text).length) whole
      rw [List.drop_left] at dropped
      rw [← dropped] at inner ⊢
      exact inner.trans (List.suffix_append more tail)

theorem isPrefixOf_append {name : Text} (absent : ∀ c, rest.head? = some c → c ∉ name)
    (text : Text) : name.isPrefixOf (text ++ rest) = name.isPrefixOf text := by
  induction text generalizing name with
  | nil =>
      cases name with
      | nil => simp
      | cons d name =>
          cases rest with
          | nil => rfl
          | cons c rest =>
              have other : d ≠ c := by
                rintro rfl
                exact absent d rfl List.mem_cons_self
              simp [List.isPrefixOf, other]
  | cons e text ih =>
      cases name with
      | nil => simp
      | cons d name =>
          have inner := ih fun c first member => absent c first (List.mem_cons_of_mem d member)
          simp only [List.cons_append, List.isPrefixOf, inner]

theorem names_find?_append (ends : Ends rest) (text : Text) :
    (names.find? fun (name, _) => name.isPrefixOf (text ++ rest)) =
      names.find? fun (name, _) => name.isPrefixOf text := by
  have absent (c : Char) (first : rest.head? = some c) : ∀ entry ∈ names, c ∉ entry.1 := by
    have mark := ends c first
    simp only [List.mem_cons, List.not_mem_nil, or_false] at mark
    rcases mark with rfl | rfl | rfl <;> simp [names]
  rw [← List.head?_filter, ← List.head?_filter]
  apply congrArg List.head?
  apply List.filter_congr
  intro entry member
  exact isPrefixOf_append (fun c first => absent c first entry member) text

/-- A token does not change when a value may end behind it. -/
theorem next_append (ends : Ends rest) (found : next c text = some (token, after)) :
    next c (text ++ rest) = some (token, after ++ rest) := by
  unfold next at found ⊢
  split at found
  · next mark isMark =>
      obtain ⟨rfl, rfl⟩ : mark = token ∧ text = after := by simpa using found
      simp
  · next notMark =>
      simp only
      split at found
      · next isQuote =>
          simp only [Option.map_eq_some_iff, Prod.mk.injEq, Prod.exists] at found
          rcases found with ⟨codes, after, inner, rfl, rfl⟩
          rcases exists_taken_stringCodes inner with ⟨taken, rfl, read⟩
          rw [if_pos isQuote, List.append_assoc, read]
          rfl
      · next notQuote =>
          rw [if_neg notQuote, ← List.cons_append]
          split at found
          · next name value isName =>
              obtain ⟨rfl, rfl⟩ : .scalar value = token ∧ _ = after := by simpa using found
              have isPrefix := List.find?_some isName
              have short := (List.isPrefixOf_iff_prefix.1 isPrefix).length_le
              rw [names_find?_append ends (c :: text), isName]
              simp only [List.drop_append_of_le_length short]
          · next noName =>
              rw [names_find?_append ends (c :: text), noName]
              split at found
              · next minus => simp only [if_pos minus, number_append ends, found, Option.map_some]
              · next noMinus =>
                  simp only [if_neg noMinus, number_append ends, found, Option.map_some]

theorem next_suffix (found : next c text = some (token, after)) : after <:+ text := by
  unfold next at found
  split at found
  · obtain ⟨-, rfl⟩ : _ ∧ text = after := by simpa using found
    exact List.suffix_refl _
  · split at found
    · simp only [Option.map_eq_some_iff, Prod.mk.injEq, Prod.exists] at found
      rcases found with ⟨codes, after, inner, rfl, rfl⟩
      rcases exists_taken_stringCodes inner with ⟨taken, rfl, -⟩
      exact List.suffix_append _ _
    · split at found
      · next name value isName =>
          obtain ⟨-, rfl⟩ : _ ∧ _ = after := by simpa using found
          have member := List.mem_of_find?_eq_some isName
          have filled : ∀ entry ∈ names, entry.1 ≠ [] := by simp [names]
          rcases List.exists_cons_of_ne_nil (filled _ member) with ⟨first, more, shape⟩
          simp only at shape
          simpa [shape] using List.drop_suffix _ text
      · split at found
        · rcases number_suffix found with ⟨first, tail, rfl, inner⟩
          exact inner.trans (List.suffix_cons _ _)
        · rcases number_suffix found with ⟨first, tail, shape, inner⟩
          obtain ⟨rfl, rfl⟩ := List.cons.inj shape
          exact inner

/-! ## Tokens one after the other -/

theorem cut_of_le {fuel : Nat} {text : Text} (enough : text.length ≤ fuel) :
    cut fuel text = tokens text := by
  rw [tokens]
  induction fuel using Nat.strongRecOn generalizing text with
  | ind fuel ih =>
      cases text with
      | nil => cases fuel <;> rfl
      | cons c text =>
          cases fuel with
          | zero => simp at enough
          | succ fuel =>
              rw [List.length_cons, cut, cut]
              split
              · rfl
              · next first rest shape =>
                  split
                  · next token after found =>
                      have shorter : (first :: rest).length ≤ (c :: text).length := by
                        rw [← shape]
                        exact (List.dropWhile_suffix _).length_le
                      have within := (next_suffix found).length_le
                      simp only [List.length_cons] at shorter enough
                      rw [ih fuel (by omega) (by omega), ih text.length (by omega) (by omega)]
                  · rfl

theorem tokens_eq (text : Text) :
    tokens text =
      match text.dropWhile isSpace with
      | [] => []
      | c :: rest =>
          match next c rest with
          | some (token, after) => token :: tokens after
          | none => [.invalid] := by
  cases text with
  | nil => rfl
  | cons c text =>
      rw [tokens, List.length_cons, cut]
      cases shape : (c :: text).dropWhile isSpace with
      | nil => rfl
      | cons first rest =>
          cases found : next first rest with
          | none => simp only [found]
          | some taken =>
              rcases taken with ⟨token, after⟩
              have shorter : (first :: rest).length ≤ (c :: text).length := by
                rw [← shape]
                exact (List.dropWhile_suffix _).length_le
              have within := (next_suffix found).length_le
              simp only [List.length_cons] at shorter
              simp only [found, cut_of_le (show after.length ≤ text.length by omega)]

theorem tokens_cons (solid : isSpace c = false) (found : next c text = some (token, after)) :
    tokens (c :: text) = token :: tokens after := by
  rw [tokens_eq, List.dropWhile_cons_of_neg (by simp [solid])]
  simp only [found]

theorem tokens_space (text : Text) : tokens (' ' :: text) = tokens text := by
  rw [tokens_eq, tokens_eq text]
  rfl

theorem isSpace_of_mark (isMark : mark? c = some token) : isSpace c = false := by
  unfold mark? at isMark
  repeat' split at isMark
  all_goals first
    | next same => subst same; rfl
    | cases isMark

theorem tokens_mark (isMark : mark? c = some token) (text : Text) :
    tokens (c :: text) = token :: tokens text := by
  apply tokens_cons (isSpace_of_mark isMark)
  simp [next, isMark]

/-- The tokens of a text do not change when a value may end behind it. -/
theorem tokens_append (ends : Ends rest) (text : Text) (valid : .invalid ∉ tokens text) :
    tokens (text ++ rest) = tokens text ++ tokens rest := by
  induction size : text.length using Nat.strongRecOn generalizing text with
  | ind size ih =>
      rw [tokens_eq text] at valid ⊢
      rw [tokens_eq (text ++ rest), List.dropWhile_append]
      cases shape : text.dropWhile isSpace with
      | nil =>
          rw [tokens_eq rest]
          rfl
      | cons c tail =>
          simp only [shape, List.isEmpty_cons, Bool.false_eq_true, if_false, List.cons_append]
            at valid ⊢
          cases found : next c tail with
          | none => simp [found] at valid
          | some pair =>
              rcases pair with ⟨token, after⟩
              simp only [found, List.mem_cons, not_or] at valid
              have shorter : (c :: tail).length ≤ text.length := by
                rw [← shape]
                exact (List.dropWhile_suffix _).length_le
              have within := (next_suffix found).length_le
              simp only [List.length_cons] at shorter
              simp only [next_append ends found, List.cons_append,
                ih after.length (by omega) after valid.2 rfl]

/-! ## Strings -/

/-- A character of a string is written by a letter behind a backslash, by its number, or as it
is. -/
theorem writeChar_cases (c : Char) :
    (∃ letter, escape? letter = some c.toNat ∧ writeChar .unicode c = ['\\', letter]) ∨
      (c.toNat < 0x20 ∧ writeChar .unicode c = unitEscape c.toNat) ∨
      c ≠ '"' ∧ c ≠ '\\' ∧ ¬c.toNat < 0x20 ∧ writeChar .unicode c = [c] := by
  by_cases short : c ∈ ['"', '\\', '\n', '\r', '\t', '\x08', '\x0C']
  · simp only [List.mem_cons, List.not_mem_nil, or_false] at short
    rcases short with rfl | rfl | rfl | rfl | rfl | rfl | rfl <;>
      exact .inl ⟨_, by decide, rfl⟩
  · simp only [List.mem_cons, List.not_mem_nil, or_false, not_or] at short
    by_cases control : c.toNat < 0x20
    · exact .inr (.inl ⟨control, by simp only [writeChar, short, control, if_false, if_true]⟩)
    · have plain : writeChar .unicode c = [c] := by
        simp [writeChar, short, control]
      exact .inr (.inr ⟨short.1, short.2.1, control, plain⟩)

theorem stringCodes_writeChar (c : Char) (rest : Text) :
    stringCodes (writeChar .unicode c ++ rest) =
      (stringCodes rest).map fun (codes, after) => (c.toNat :: codes, after) := by
  have bound (result : Option (List Nat × Text)) (code : Nat) :
      (result.bind fun (codes, after) => some (code :: codes, after)) =
        result.map fun (codes, after) => (code :: codes, after) := by
    cases result <;> rfl
  rcases writeChar_cases c with ⟨letter, escape, written⟩ | ⟨control, written⟩ |
    ⟨notQuote, notBackslash, notControl, written⟩
  · have notUnit : letter ≠ 'u' := by
      rintro rfl
      have none : escape? 'u' = none := by decide
      simp [none] at escape
    rw [written, List.cons_append, List.singleton_append, stringCodes.eq_4]
    · simpa [escape] using bound _ _
    · intro a b c d more isUnit
      exact absurd isUnit notUnit
  · have escaped : ∀ code < 0x20, ∃ a b c d,
        Text.hex 4 code = [a, b, c, d] ∧ hexUnit? a b c d = some code := by
      intro code small
      interval_cases code <;> exact ⟨_, _, _, _, rfl, rfl⟩
    rcases escaped c.toNat control with ⟨a, b, d, e, digits, unit⟩
    rw [written, unitEscape, digits]
    simpa [stringCodes, unit] using bound _ _
  · rw [written, List.singleton_append, stringCodes.eq_5]
    · simpa [notControl, notBackslash] using bound _ _
    · exact notQuote
    · intro a b d e more isBackslash
      exact absurd isBackslash notBackslash
    · intro d more isBackslash
      exact absurd isBackslash notBackslash
/-- No character is half of a pair. -/
theorem isHalf_toNat (c : Char) : isLeading c.toNat = false ∧ isTrailing c.toNat = false := by
  have valid : c.toNat < 0xD800 ∨ 0xDFFF < c.toNat ∧ c.toNat < 0x110000 := c.valid
  simp only [isLeading, isTrailing, Bool.and_eq_false_iff, decide_eq_false_iff_not]
  omega

theorem ofCodes_map_toNat (text : Text) : ofCodes (text.map Char.toNat) = text := by
  have whole (c : Char) : charOfCode c.toNat = c := by
    simp [charOfCode, isHalf_toNat]
  induction text with
  | nil => rfl
  | cons c text ih =>
      cases text with
      | nil => simp [ofCodes, whole]
      | cons d text =>
          simp only [List.map_cons, ofCodes, (isHalf_toNat c).1, Bool.false_and,
            Bool.false_eq_true, if_false, whole]
          rw [← List.map_cons, ih]

theorem tokens_writeString (value rest : Text) :
    tokens (writeString .unicode value ++ rest) = .string value :: tokens rest := by
  have codes : stringCodes (value.flatMap (writeChar .unicode) ++ '"' :: rest) =
      some (value.map Char.toNat, rest) := by
    induction value with
    | nil => simp [stringCodes]
    | cons c value ih =>
        rw [List.flatMap_cons, List.append_assoc, stringCodes_writeChar, ih]
        rfl
  have written : writeString .unicode value ++ rest =
      '"' :: (value.flatMap (writeChar .unicode) ++ '"' :: rest) := by
    simp [writeString]
  rw [written]
  apply tokens_cons (by decide)
  have notMark : mark? '"' = none := by decide
  simp only [next, notMark, if_true, codes, Option.map_some, ofCodes_map_toNat]

end Token

end Json

end IdlFormat
