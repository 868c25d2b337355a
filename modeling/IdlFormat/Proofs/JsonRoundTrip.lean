import IdlFormat.Json.Parser
import IdlFormat.Proofs.Clean
import IdlFormat.Proofs.JsonToken
import Mathlib.Data.List.Basic
import Mathlib.Data.List.TakeWhile
import Mathlib.Tactic.SplitIfs

/-!
# Reading back what was written

A value that is written on one line is read back as the same value (`parse_render`), unless one of
its integers is too long or it is nested too deeply, which the writer refuses. Objects must have
each name once, since the reader keeps the last of several; and of floating-point numbers it is
assumed that their own texts are read back.

The proof goes through the tokens of a value, `lexemes`. Writing gives a text with these tokens, and
the reader turns them into the value on top of whatever is open already.
-/

namespace IdlFormat

namespace Json

open Token (tokens Ends)

/-- The value is made of numbers that are read back and of objects with each name once. -/
inductive Legible : Json → Prop
  /-- The null value. -/
  | null : Legible .null
  /-- A truth value. -/
  | bool (value : Bool) : Legible (.bool value)
  /-- An integer. -/
  | int (value : Int) : Legible (.int value)
  /-- A floating-point number whose text is read back. -/
  | float {value : Float} (same : parse (writeFloat value) = .ok (.float value)) :
      Legible (.float value)
  /-- A string. -/
  | string (value : Text) : Legible (.string value)
  /-- An array. -/
  | array {items : List Json} (each : ∀ item ∈ items, Legible item) : Legible (.array items)
  /-- An object. -/
  | object {fields : List (Text × Json)} (names : (fields.map Prod.fst).Nodup)
      (each : ∀ field ∈ fields, Legible field.2) : Legible (.object fields)

/-- Groups of tokens with a comma between neighbours. -/
def separated : List (List Token) → List Token
  | [] => []
  | group :: groups => group ++ groups.flatMap (.comma :: ·)

mutual

/-- The tokens of a value. -/
def lexemes : Json → List Token
  | .string value => [.string value]
  | .array items => .arrayOpen :: separated (itemLexemes items) ++ [.arrayClose]
  | .object fields => .objectOpen :: separated (fieldLexemes fields) ++ [.objectClose]
  | value => [.scalar value]

/-- The tokens of each item. -/
def itemLexemes : List Json → List (List Token)
  | [] => []
  | item :: items => lexemes item :: itemLexemes items

/-- The tokens of each field. -/
def fieldLexemes : List (Text × Json) → List (List Token)
  | [] => []
  | (name, value) :: fields => (.string name :: .colon :: lexemes value) :: fieldLexemes fields

end

/-! ## Integers -/

theorem ofNat_ne_nil (number : Nat) : Text.ofNat number ≠ [] :=
  Nat.toDigits_ne_nil

theorem head?_ofNat {number : Nat} (zero : (Text.ofNat number).head? = some '0') : number = 0 := by
  induction number using Nat.strongRecOn with
  | ind number ih =>
      by_cases small : number < 10
      · rw [Text.ofNat, Nat.toDigits_of_lt_base small] at zero
        interval_cases number <;> simp_all [Nat.digitChar]
      · rw [Text.ofNat, Nat.toDigits_of_base_le (by decide) (by omega),
          List.head?_append_of_ne_nil _ Nat.toDigits_ne_nil] at zero
        have := ih (number / 10) (by omega) zero
        omega

theorem number_ofNat {number : Nat} (short : (Text.ofNat number).length ≤ Numeral.digitLimit)
    (negative : Bool) :
    Token.number negative (Text.ofNat number) =
      some (.scalar (.int (if negative then -(number : Int) else number)), []) := by
  have digits : ∀ c ∈ Text.ofNat number, Token.isDigit c := fun c => Mask.isDigit_of_mem_ofNat
  have whole : Token.wholePart (Text.ofNat number) = Text.ofNat number := by
    unfold Token.wholePart
    split
    · next zero =>
        rw [head?_ofNat zero]
        rfl
    · exact List.takeWhile_eq_self_iff.2 digits
  have filled : (Text.ofNat number).isEmpty = false := by
    simpa using ofNat_ne_nil number
  have value : Numeral.ofDigits (Text.ofNat number) = .ok number := by
    rw [Numeral.ofDigits, if_neg (by omega), Mask.decimalValue_ofNat]
  simp [Token.number, whole, filled, Token.fraction, Token.exponent, Token.ofParts, value]

theorem ne_of_isDigit {c d : Char} (digit : c.isDigit) (other : d.isDigit = false) : c ≠ d := by
  rintro rfl
  simp [digit] at other

theorem not_isSpace_of_isDigit {c : Char} (digit : c.isDigit) : Token.isSpace c = false := by
  simp [Token.isSpace, ne_of_isDigit digit]

theorem next_digit {c : Char} (digit : c.isDigit) (rest : Text) :
    Token.next c rest = Token.number false (c :: rest) := by
  have notMark : Token.mark? c = none := by
    simp [Token.mark?, ne_of_isDigit digit]
  simp [Token.next, notMark, Token.names, List.isPrefixOf, ne_of_isDigit digit,
    (ne_of_isDigit digit _).symm]

theorem next_minus {c : Char} (digit : c.isDigit) (rest : Text) :
    Token.next '-' (c :: rest) = Token.number true (c :: rest) := by
  have notMark : Token.mark? '-' = none := by decide
  simp [Token.next, notMark, Token.names, List.isPrefixOf, (ne_of_isDigit digit _).symm]

theorem tokens_ofInt {value : Int} (short : (Numeral.write? value).isSome) :
    tokens (Text.ofInt value) = [.scalar (.int value)] := by
  have few : (Text.ofNat value.natAbs).length ≤ Numeral.digitLimit := by
    by_contra many
    simp [Numeral.write?, not_le.1 many] at short
  have digits {number : Nat} {c : Char} : c ∈ Text.ofNat number → c.isDigit :=
    Mask.isDigit_of_mem_ofNat
  cases value with
  | ofNat number =>
      have found := number_ofNat few false
      rcases List.exists_cons_of_ne_nil (ofNat_ne_nil number) with ⟨c, rest, shape⟩
      have digit : c.isDigit := digits (shape ▸ List.mem_cons_self)
      change Token.number false (Text.ofNat number) = _ at found
      rw [shape, ← next_digit digit] at found
      rw [Text.ofInt, shape, Token.tokens_cons (not_isSpace_of_isDigit digit) found]
      rfl
  | negSucc number =>
      have found := number_ofNat few true
      rcases List.exists_cons_of_ne_nil (ofNat_ne_nil (number + 1)) with ⟨c, rest, shape⟩
      have digit : c.isDigit := digits (shape ▸ List.mem_cons_self)
      change Token.number true (Text.ofNat (number + 1)) = _ at found
      rw [shape, ← next_minus digit] at found
      rw [Text.ofInt, shape, Token.tokens_cons (by decide) found]
      rfl

/-! ## Floating-point numbers -/

/-- Something is open, or an array or object was read. -/
def Reader.Nested (reader : Reader) : Prop :=
  reader.stack ≠ [] ∨
    match reader.expects with
    | .value => False
    | .done value => (∃ items, value = .array items) ∨ ∃ fields, value = .object fields
    | _ => True

theorem Reader.Nested.takeValue {stack : List Frame} {next : Reader} {token : Token}
    (filled : stack ≠ []) (taken : takeValue stack token = .ok next) : next.Nested := by
  unfold Reader.takeValue descend at taken
  repeat' split at taken
  all_goals
    cases taken
    try exact .inl filled

theorem Reader.Nested.take {reader next : Reader} {token : Token} (nested : reader.Nested)
    (taken : reader.take token = .ok next) : next.Nested := by
  unfold Reader.take at taken
  split at taken
  · next isValue =>
      refine .takeValue ?_ taken
      simpa [Nested, isValue] using nested
  · cases taken
    exact .inr (.inl ⟨[], rfl⟩)
  · exact .takeValue (List.cons_ne_nil _ _) taken
  · cases taken
    exact .inr (.inr ⟨[], rfl⟩)
  · cases taken
    exact .inr trivial
  · cases taken
    exact .inr trivial
  · cases taken
    exact .inl (List.cons_ne_nil _ _)
  · unfold Reader.takeAfter at taken
    split at taken
    · cases taken
      exact .inl (List.cons_ne_nil _ _)
    · cases taken
      exact .inr (.inl ⟨_, rfl⟩)
    · cases taken
      exact .inr trivial
    · cases taken
      exact .inr (.inr ⟨_, rfl⟩)
    · cases taken
  · cases taken

theorem Reader.Nested.foldlM {reader last : Reader} {group : List Token} (nested : reader.Nested)
    (taken : group.foldlM Reader.take reader = .ok last) : last.Nested := by
  induction group generalizing reader with
  | nil =>
      obtain rfl : reader = last := Except.ok.inj taken
      exact nested
  | cons token group ih =>
      rw [List.foldlM_cons] at taken
      rcases bind_eq_ok_iff.1 taken with ⟨next, first, more⟩
      exact ih (nested.take first) more

/-- A number is one token: whatever else begins a value ends as an array or object. -/
theorem tokens_of_parse_eq_float {text : Text} {value : Float}
    (same : parse text = .ok (.float value)) : tokens text = [.scalar (.float value)] := by
  rcases bind_eq_ok_iff.1 same with ⟨last, taken, finished⟩
  have ends : last = ⟨[], .done (.float value)⟩ := by
    rcases last with ⟨stack, expects⟩
    simp only at finished
    split at finished
    · cases finished
      simp_all
    · cases finished
  subst ends
  have alone : ¬ Reader.Nested ⟨[], .done (.float value)⟩ := by
    simp [Reader.Nested]
  cases shape : tokens text with
  | nil => simp [shape, pure, Except.pure] at taken
  | cons token group =>
      rw [shape, List.foldlM_cons] at taken
      rcases bind_eq_ok_iff.1 taken with ⟨next, first, more⟩
      have flat : ¬ next.Nested := fun nested => alone (nested.foldlM more)
      have only {read : Json} (isDone : next = ⟨[], .done read⟩) :
          group = [] ∧ read = .float value := by
        subst isDone
        cases group with
        | nil =>
            simp only [List.foldlM_nil, pure, Except.pure, Except.ok.injEq, Reader.mk.injEq,
              Expectation.done.injEq, true_and] at more
            exact ⟨rfl, more⟩
        | cons second group =>
            rw [List.foldlM_cons] at more
            rcases bind_eq_ok_iff.1 more with ⟨_, refused, -⟩
            simp [Reader.take, Reader.takeAfter] at refused
      change Reader.takeValue [] token = .ok next at first
      unfold Reader.takeValue Reader.descend at first
      split at first
      · rcases only (Except.ok.inj first).symm with ⟨rfl, rfl⟩
        rfl
      · cases (only (Except.ok.inj first).symm).2
      · cases first
        exact absurd (.inr trivial) flat
      · cases first
        exact absurd (.inr trivial) flat
      · cases first
      · cases first

/-! ## The text of a value -/

/-- A text has the given tokens wherever a value may end behind it. -/
def Spells (text : Text) (group : List Token) : Prop :=
  ∀ rest, Ends rest → tokens (text ++ rest) = group ++ tokens rest

theorem spells_of_tokens_eq {text : Text} {group : List Token} (valid : .invalid ∉ group)
    (same : tokens text = group) : Spells text group := by
  intro rest ends
  rw [Token.tokens_append ends text (same ▸ valid), same]

theorem bracketed_line (opener closer : Char) (items : List Text) :
    bracketed .line opener closer items = opener :: Text.join [',', ' '] items ++ [closer] := by
  cases items <;> simp [bracketed, Spacing.deeper, Spacing.edge, Spacing.between, Text.join]

theorem tokens_separated {texts : List Text} {groups : List (List Token)}
    (each : List.Forall₂ Spells texts groups) {closer : Char} (closes : closer ∈ [',', ']', '}'])
    (rest : Text) :
    Ends (texts.flatMap ([',', ' '] ++ ·) ++ closer :: rest) ∧
      tokens (texts.flatMap ([',', ' '] ++ ·) ++ closer :: rest) =
        groups.flatMap (.comma :: ·) ++ tokens (closer :: rest) := by
  induction each with
  | nil => exact ⟨Token.ends_cons closes rest, rfl⟩
  | @cons text group texts groups first each ih =>
      have shape : (text :: texts).flatMap ([',', ' '] ++ ·) ++ closer :: rest =
          ',' :: ' ' :: (text ++ (texts.flatMap ([',', ' '] ++ ·) ++ closer :: rest)) := by
        simp
      rw [shape]
      refine ⟨Token.ends_cons (by decide) _, ?_⟩
      rw [Token.tokens_mark (show Token.mark? ',' = some .comma from rfl), Token.tokens_space,
        first _ ih.1, ih.2]
      simp

theorem spells_bracketed {texts : List Text} {groups : List (List Token)}
    (each : List.Forall₂ Spells texts groups) {opener closer : Char} {first last : Token}
    (opens : Token.mark? opener = some first) (closes : Token.mark? closer = some last)
    (ends : closer ∈ [',', ']', '}']) :
    Spells (bracketed .line opener closer texts) (first :: separated groups ++ [last]) := by
  intro rest _
  rw [bracketed_line]
  cases each with
  | nil => simp [Text.join, separated, Token.tokens_mark opens, Token.tokens_mark closes]
  | @cons text group texts groups spells each =>
      have inner := tokens_separated each ends rest
      have shape : opener :: Text.join [',', ' '] (text :: texts) ++ [closer] ++ rest =
          opener :: (text ++ (texts.flatMap ([',', ' '] ++ ·) ++ closer :: rest)) := by
        simp [Text.join_cons]
      rw [shape, Token.tokens_mark opens, spells _ inner.1, inner.2, Token.tokens_mark closes]
      simp [separated]

theorem array_refusal?_eq_none_iff {level : Nat} {items : List Json} :
    refusal? level (.array items) = none ↔
      level < depthLimit ∧ ∀ item ∈ items, refusal? (level + 1) item = none := by
  have inner : itemsRefusal? (level + 1) items = none ↔
      ∀ item ∈ items, refusal? (level + 1) item = none := by
    induction items with
    | nil => simp [itemsRefusal?]
    | cons item items ih => simp [itemsRefusal?, ih]
  by_cases shallow : level < depthLimit <;> simp [refusal?, shallow, inner]

theorem object_refusal?_eq_none_iff {level : Nat} {fields : List (Text × Json)} :
    refusal? level (.object fields) = none ↔
      level < depthLimit ∧ ∀ field ∈ fields, refusal? (level + 1) field.2 = none := by
  have inner : fieldsRefusal? (level + 1) fields = none ↔
      ∀ field ∈ fields, refusal? (level + 1) field.2 = none := by
    induction fields with
    | nil => simp [fieldsRefusal?]
    | cons field fields ih => simp [fieldsRefusal?, ih]
  by_cases shallow : level < depthLimit <;> simp [refusal?, shallow, inner]

theorem spells_items {items : List Json}
    (each : ∀ item ∈ items, Spells (render item) (lexemes item)) :
    List.Forall₂ Spells (writeItems .unicode .line items) (itemLexemes items) := by
  induction items with
  | nil => exact .nil
  | cons item items ih =>
      rw [List.forall_mem_cons] at each
      exact .cons each.1 (ih each.2)

theorem spells_fields {fields : List (Text × Json)}
    (each : ∀ field ∈ fields, Spells (render field.2) (lexemes field.2)) :
    List.Forall₂ Spells (writeFields .unicode .line fields) (fieldLexemes fields) := by
  induction fields with
  | nil => exact .nil
  | cons field fields ih =>
      rw [List.forall_mem_cons] at each
      refine .cons ?_ (ih each.2)
      intro rest ends
      have shape : writeString .unicode field.1 ++ [':', ' '] ++ write .unicode .line field.2 ++
          rest = writeString .unicode field.1 ++ ':' :: ' ' :: (render field.2 ++ rest) := by
        simp [render]
      rw [shape, Token.tokens_writeString,
        Token.tokens_mark (show Token.mark? ':' = some .colon from rfl), Token.tokens_space,
        each.1 rest ends]
      rfl

theorem spells_render {json : Json} (legible : Legible json) {level : Nat}
    (written : refusal? level json = none) : Spells (render json) (lexemes json) := by
  induction legible generalizing level with
  | null => exact spells_of_tokens_eq (by simp [lexemes]) rfl
  | bool value =>
      cases value with
      | false => exact spells_of_tokens_eq (by simp [lexemes]) rfl
      | true => exact spells_of_tokens_eq (by simp [lexemes]) rfl
  | int value =>
      have short : (Numeral.write? value).isSome := by
        by_contra long
        simp [refusal?, long] at written
      exact spells_of_tokens_eq (by simp [lexemes]) (tokens_ofInt short)
  | float same => exact spells_of_tokens_eq (by simp [lexemes]) (tokens_of_parse_eq_float same)
  | string value => exact fun rest _ => Token.tokens_writeString value rest
  | array each ih =>
      rcases array_refusal?_eq_none_iff.1 written with ⟨-, inner⟩
      exact spells_bracketed (spells_items fun item member => ih item member (inner item member))
        rfl rfl (by decide)
  | object names each ih =>
      rcases object_refusal?_eq_none_iff.1 written with ⟨-, inner⟩
      exact spells_bracketed
        (spells_fields fun field member => ih field member (inner field member))
        rfl rfl (by decide)

/-! ## The value of the tokens -/

/-- Tokens stand for a value inside a number of open arrays and objects. -/
def Denotes (level : Nat) (group : List Token) (value : Json) : Prop :=
  ∀ stack more, stack.length = level →
    (group ++ more).foldlM Reader.take ⟨stack, .value⟩ =
      more.foldlM Reader.take ⟨stack, .done value⟩

theorem put_of_not_mem {α : Type} {name : Text} {table : Table α}
    (new : name ∉ table.map Prod.fst) (value : α) :
    Table.put name value table = table ++ [(name, value)] := by
  induction table with
  | nil => rfl
  | cons field table ih =>
      simp only [List.map_cons, List.mem_cons, not_or] at new
      rw [Table.put, if_neg (Ne.symm new.1), ih new.2, List.cons_append]

theorem not_mem_of_nodup {before fields : List (Text × Json)} {name : Text} {value : Json}
    (names : ((before ++ (name, value) :: fields).map Prod.fst).Nodup) :
    name ∉ before.map Prod.fst := by
  intro member
  rw [List.map_append, List.map_cons] at names
  exact (List.nodup_append.1 names).2.2 _ member _ List.mem_cons_self rfl

theorem exists_lexemes_eq (json : Json) :
    ∃ first group, lexemes json = first :: group ∧ first ≠ .arrayClose := by
  cases json <;> exact ⟨_, _, rfl, by simp⟩

theorem foldlM_take_cons {reader next : Reader} {token : Token}
    (taken : reader.take token = .ok next) (group : List Token) :
    (token :: group).foldlM Reader.take reader = group.foldlM Reader.take next := by
  rw [List.foldlM_cons, taken]
  rfl

theorem take_items {level : Nat} {items : List Json}
    (each : ∀ item ∈ items, Denotes (level + 1) (lexemes item) item) {stack : List Frame}
    (depth : stack.length = level) (before : List Json) (last : Json) (more : List Token) :
    ((itemLexemes items).flatMap (.comma :: ·) ++ .arrayClose :: more).foldlM Reader.take
        ⟨.array before :: stack, .done last⟩ =
      more.foldlM Reader.take ⟨stack, .done (.array (before.reverse ++ last :: items))⟩ := by
  induction items generalizing before last with
  | nil =>
      apply foldlM_take_cons
      simp [Reader.take, Reader.takeAfter]
  | cons item items ih =>
      rw [List.forall_mem_cons] at each
      have shape : (itemLexemes (item :: items)).flatMap (.comma :: ·) ++ .arrayClose :: more =
          .comma :: (lexemes item ++
            ((itemLexemes items).flatMap (.comma :: ·) ++ .arrayClose :: more)) := by
        simp [itemLexemes]
      have inner := each.1 (.array (last :: before) :: stack)
        ((itemLexemes items).flatMap (.comma :: ·) ++ .arrayClose :: more) (by simp [depth])
      rw [shape, foldlM_take_cons rfl, inner, ih each.2]
      simp

theorem take_fields {level : Nat} {fields : List (Text × Json)}
    (each : ∀ field ∈ fields, Denotes (level + 1) (lexemes field.2) field.2) {stack : List Frame}
    (depth : stack.length = level) {before : List (Text × Json)} {name : Text} {last : Json}
    (names : ((before ++ (name, last) :: fields).map Prod.fst).Nodup) (more : List Token) :
    ((fieldLexemes fields).flatMap (.comma :: ·) ++ .objectClose :: more).foldlM Reader.take
        ⟨.object before name :: stack, .done last⟩ =
      more.foldlM Reader.take ⟨stack, .done (.object (before ++ (name, last) :: fields))⟩ := by
  induction fields generalizing before name last with
  | nil =>
      have new := not_mem_of_nodup names
      apply foldlM_take_cons
      simp [Reader.take, Reader.takeAfter, put_of_not_mem new]
  | cons field fields ih =>
      rcases field with ⟨second, value⟩
      rw [List.forall_mem_cons] at each
      have new := not_mem_of_nodup names
      have shape : (fieldLexemes ((second, value) :: fields)).flatMap (.comma :: ·) ++
            .objectClose :: more =
          .comma :: .string second :: .colon :: (lexemes value ++
            ((fieldLexemes fields).flatMap (.comma :: ·) ++ .objectClose :: more)) := by
        simp [fieldLexemes]
      have comma : Reader.take ⟨.object before name :: stack, .done last⟩ .comma =
          .ok ⟨stack, .name (before ++ [(name, last)])⟩ := by
        simp [Reader.take, Reader.takeAfter, put_of_not_mem new]
      have inner := each.1 (.object (before ++ [(name, last)]) second :: stack)
        ((fieldLexemes fields).flatMap (.comma :: ·) ++ .objectClose :: more) (by simp [depth])
      rw [shape, foldlM_take_cons comma, foldlM_take_cons rfl, foldlM_take_cons rfl, inner,
        ih each.2 (by simpa using names)]
      simp

theorem denotes_array {level : Nat} (shallow : level < depthLimit) {items : List Json}
    (each : ∀ item ∈ items, Denotes (level + 1) (lexemes item) item) :
    Denotes level (lexemes (.array items)) (.array items) := by
  intro stack more depth
  have opened : Reader.take ⟨stack, .value⟩ .arrayOpen = .ok ⟨stack, .valueOrEnd⟩ :=
    if_pos (depth ▸ shallow)
  cases items with
  | nil => exact (foldlM_take_cons opened _).trans (foldlM_take_cons rfl more)
  | cons item items =>
      rw [List.forall_mem_cons] at each
      have shape : lexemes (.array (item :: items)) ++ more =
          .arrayOpen :: (lexemes item ++
            ((itemLexemes items).flatMap (.comma :: ·) ++ .arrayClose :: more)) := by
        simp [lexemes, itemLexemes, separated]
      have inner := each.1 (.array [] :: stack)
        ((itemLexemes items).flatMap (.comma :: ·) ++ .arrayClose :: more) (by simp [depth])
      -- The first item is read as any other: it does not begin with the bracket that ends an array.
      have entered (rest : List Token) :
          (lexemes item ++ rest).foldlM Reader.take ⟨stack, .valueOrEnd⟩ =
            (lexemes item ++ rest).foldlM Reader.take ⟨.array [] :: stack, .value⟩ := by
        rcases exists_lexemes_eq item with ⟨first, group, spelled, other⟩
        rw [spelled, List.cons_append, List.foldlM_cons, List.foldlM_cons]
        cases first <;> first | rfl | exact absurd rfl other
      rw [shape, foldlM_take_cons opened, entered, inner, take_items each.2 depth]
      rfl

theorem denotes_object {level : Nat} (shallow : level < depthLimit) {fields : List (Text × Json)}
    (names : (fields.map Prod.fst).Nodup)
    (each : ∀ field ∈ fields, Denotes (level + 1) (lexemes field.2) field.2) :
    Denotes level (lexemes (.object fields)) (.object fields) := by
  intro stack more depth
  have opened : Reader.take ⟨stack, .value⟩ .objectOpen = .ok ⟨stack, .nameOrEnd⟩ :=
    if_pos (depth ▸ shallow)
  cases fields with
  | nil => exact (foldlM_take_cons opened _).trans (foldlM_take_cons rfl more)
  | cons field fields =>
      rcases field with ⟨name, value⟩
      rw [List.forall_mem_cons] at each
      have shape : lexemes (.object ((name, value) :: fields)) ++ more =
          .objectOpen :: .string name :: .colon :: (lexemes value ++
            ((fieldLexemes fields).flatMap (.comma :: ·) ++ .objectClose :: more)) := by
        simp [lexemes, fieldLexemes, separated]
      have inner := each.1 (.object [] name :: stack)
        ((fieldLexemes fields).flatMap (.comma :: ·) ++ .objectClose :: more) (by simp [depth])
      rw [shape, foldlM_take_cons opened, foldlM_take_cons rfl, foldlM_take_cons rfl, inner,
        take_fields each.2 depth names]
      rfl

theorem denotes_lexemes {json : Json} (legible : Legible json) {level : Nat}
    (written : refusal? level json = none) : Denotes level (lexemes json) json := by
  induction legible generalizing level with
  | null => exact fun _ _ _ => rfl
  | bool value => exact fun _ _ _ => rfl
  | int value => exact fun _ _ _ => rfl
  | float same => exact fun _ _ _ => rfl
  | string value => exact fun _ _ _ => rfl
  | array each ih =>
      rcases array_refusal?_eq_none_iff.1 written with ⟨shallow, inner⟩
      exact denotes_array shallow fun item member => ih item member (inner item member)
  | object names each ih =>
      rcases object_refusal?_eq_none_iff.1 written with ⟨shallow, inner⟩
      exact denotes_object shallow names fun field member => ih field member (inner field member)

/-- What is written is read back. -/
theorem parse_render {json : Json} (legible : Legible json) (written : refusal? 0 json = none) :
    parse (render json) = .ok json := by
  have spelled := spells_render legible written [] Token.ends_nil
  have read := denotes_lexemes legible written [] [] rfl
  have none : tokens [] = [] := rfl
  rw [List.append_nil, none, List.append_nil] at spelled
  rw [List.append_nil] at read
  rw [parse, spelled, read]
  rfl

/-! ## One line -/

/-- The characters that do not end a line, or act on it in another way. -/
def isInline (c : Char) : Bool :=
  0x20 ≤ c.toNat

theorem isInline_of_isDigit {c : Char} (digit : c.isDigit) : isInline c := by
  simp only [Char.isDigit, Bool.and_eq_true, decide_eq_true_eq, UInt32.le_iff_toNat_le] at digit
  have low : 48 ≤ c.toNat := digit.1
  simp only [isInline, decide_eq_true_eq]
  omega

theorem all_isInline_ofNat (number : Nat) : (Text.ofNat number).all isInline := by
  rw [List.all_eq_true]
  intro c member
  exact isInline_of_isDigit (Mask.isDigit_of_mem_ofNat member)

theorem dropZeros_suffix (digits : List Char) : (Decimal.dropZeros digits).1 <:+ digits := by
  fun_induction Decimal.dropZeros digits with
  | case1 rest kept count found ih =>
      rw [found] at ih
      exact ih.trans (List.suffix_cons _ _)
  | case2 => exact List.suffix_refl _

theorem all_isInline_write (format : Decimal.Spelling) (decimal : Decimal.Scientific) :
    (format.write decimal).all isInline := by
  have digits : (Decimal.dropZeros (Text.ofNat decimal.digits).reverse).1.all isInline := by
    have all := List.all_eq_true.1 (all_isInline_ofNat decimal.digits)
    rw [List.all_eq_true]
    intro c member
    exact all c (List.mem_reverse.1 ((dropZeros_suffix _).subset member))
  have some (count : Nat) :
      (((Decimal.dropZeros (Text.ofNat decimal.digits).reverse).1.reverse.take count).all
        isInline) ∧
      (((Decimal.dropZeros (Text.ofNat decimal.digits).reverse).1.reverse.drop count).all
        isInline) := by
    rw [← Bool.and_eq_true, ← List.all_append, List.take_append_drop, List.all_reverse]
    exact digits
  have zero : isInline '0' := rfl
  have point : isInline '.' := rfl
  have letter : isInline 'e' := rfl
  have plus : isInline '+' := rfl
  have minus : isInline '-' := rfl
  have exponent (number : Int) : (format.exponent number).all isInline := by
    simp only [Decimal.Spelling.exponent, List.cons_append, List.all_cons, letter,
      List.all_append, List.all_replicate, all_isInline_ofNat]
    split_ifs <;> simp [zero, plus, minus]
  unfold Decimal.Spelling.write
  simp only
  split_ifs <;>
    simp only [List.all_append, List.all_cons, some, digits, List.all_reverse, exponent, zero,
      point, List.all_replicate, List.all_nil, Bool.and_true, ite_self]

theorem all_isInline_writeFloat (number : Float) : (writeFloat number).all isInline := by
  unfold writeFloat Decimal.Spelling.float
  simp only
  split_ifs <;> first | rfl | exact all_isInline_write _ _

theorem isInline_of_escape? {letter : Char} {code : Nat}
    (escape : Token.escape? letter = some code) : isInline letter := by
  unfold Token.escape? at escape
  split_ifs at escape with self b f n r t
  · simp only [Bool.or_eq_true, decide_eq_true_eq] at self
    rcases self with (rfl | rfl) | rfl <;> rfl
  all_goals subst letter; rfl

theorem all_isInline_writeString (value : Text) : (writeString .unicode value).all isInline := by
  have control : ∀ code < 0x20, (unitEscape code).all isInline := by decide
  have each (c : Char) : (writeChar .unicode c).all isInline := by
    rcases Token.writeChar_cases c with ⟨letter, escape, written⟩ | ⟨low, written⟩ |
      ⟨-, -, high, written⟩
    · simp [written, isInline_of_escape? escape]
      rfl
    · rw [written]
      exact control _ low
    · rw [written]
      simpa [isInline] using high
  rw [writeString, List.cons_append, List.all_cons, List.all_append, List.all_flatMap]
  simp only [each, List.all_eq_true.2 fun _ _ => rfl]
  rfl

theorem all_isInline_bracketed {texts : List Text} (each : ∀ text ∈ texts, text.all isInline)
    {opener closer : Char} (opens : isInline opener) (closes : isInline closer) :
    (bracketed .line opener closer texts).all isInline := by
  have joined : (Text.join [',', ' '] texts).all isInline := by
    cases texts with
    | nil => rfl
    | cons text texts =>
        have between : isInline ',' ∧ isInline ' ' := ⟨rfl, rfl⟩
        rw [List.forall_mem_cons] at each
        simp only [Text.join_cons, List.all_append, each.1, List.all_flatMap, List.all_cons, between,
          List.all_nil, Bool.true_and, List.all_eq_true]
        exact fun other member => List.all_eq_true.1 (each.2 other member)
  simp [bracketed_line, opens, closes, joined]

theorem writeItems_eq_map (items : List Json) :
    writeItems .unicode .line items = items.map render := by
  induction items with
  | nil => rfl
  | cons item items ih => rw [writeItems, ih, List.map_cons, render]

theorem writeFields_eq_map (fields : List (Text × Json)) :
    writeFields .unicode .line fields =
      fields.map fun field => writeString .unicode field.1 ++ [':', ' '] ++ render field.2 := by
  induction fields with
  | nil => rfl
  | cons field fields ih => rw [writeFields, ih, List.map_cons, render]

/-- A value is written on one line. -/
theorem all_isInline_render {json : Json} (legible : Legible json) :
    (render json).all isInline := by
  induction legible with
  | null => rfl
  | bool value => cases value <;> rfl
  | int value =>
      cases value with
      | ofNat number => exact all_isInline_ofNat number
      | negSucc number => exact all_isInline_ofNat (number + 1)
  | float same => exact all_isInline_writeFloat _
  | string value => exact all_isInline_writeString value
  | array each ih =>
      apply all_isInline_bracketed _ rfl rfl
      intro text member
      rw [Spacing.deeper, writeItems_eq_map, List.mem_map] at member
      rcases member with ⟨item, member, rfl⟩
      exact ih item member
  | object names each ih =>
      apply all_isInline_bracketed _ rfl rfl
      intro text member
      rw [Spacing.deeper, writeFields_eq_map, List.mem_map] at member
      rcases member with ⟨field, member, rfl⟩
      rw [List.all_append, List.all_append, all_isInline_writeString, ih field member]
      rfl

end Json

end IdlFormat
