import IdlFormat.Proofs.Lines

/-!
# The solid lines of a comment

Indenting a block comment anew changes the blanks at the ends of its lines, so the lines that are
not blank stay, apart from the blanks around them. Whether the comment ends where the text does can
be read off these solid lines (`isClosedBody_iff`), and so a comment that is closed at its end stays
so when it is laid out (`isClosedBody_congr`).
-/

namespace IdlFormat

namespace Text

/-- The lines that are not blank, without the blanks around them. -/
def keepSolid (lines : List Text) : List Text :=
  (lines.map trim).filter (!·.isEmpty)

/-- The lines of a text that are not blank, without the blanks around them. -/
def solidLines (text : Text) : List Text :=
  keepSolid (splitOn '\n' text)

theorem keepSolid_cons (line : Text) (lines : List Text) :
    keepSolid (line :: lines) =
      (if line.trim.isEmpty then [] else [line.trim]) ++ keepSolid lines := by
  rw [keepSolid, List.map_cons, List.filter_cons]
  cases line.trim.isEmpty <;> rfl

theorem exists_eq_trimEnd (text : Text) :
    ∃ trailing, List.all trailing IdlFormat.isBlank ∧ text = text.trimEnd ++ trailing := by
  induction text with
  | nil => exact ⟨[], rfl, rfl⟩
  | cons c text ih =>
      obtain ⟨trailing, blank, same⟩ := ih
      rw [trimEnd_cons]
      split
      · next dropped =>
          simp only [Bool.and_eq_true, List.isEmpty_iff] at dropped
          rw [dropped.2, List.nil_append] at same
          exact ⟨c :: text, by simp [dropped.1, same, blank], rfl⟩
      · exact ⟨trailing, blank, by rw [List.cons_append, ← same]⟩

/-- A text is its trimmed form between blanks. -/
theorem exists_eq_trim (text : Text) :
    ∃ lead trailing, lead.all IdlFormat.isBlank ∧ trailing.all IdlFormat.isBlank ∧
      text = lead ++ text.trim ++ trailing := by
  obtain ⟨trailing, blank, same⟩ := exists_eq_trimEnd text.trimStart
  refine ⟨text.takeWhile IdlFormat.isBlank, trailing, List.all_takeWhile, blank, ?_⟩
  rw [List.append_assoc, trim, ← same]
  exact List.takeWhile_append_dropWhile.symm

end Text

/-! ## The end of a comment -/

namespace Comment

/-- What stands behind the `/*` of a block comment that is closed where the text ends. -/
def IsClosedBody (body : Text) : Prop :=
  IsBody body ∧ closes body

theorem throughClose_cons {c : Char} {rest : Text}
    (noClose : ∀ tail, c = '*' → rest = '/' :: tail → False) :
    throughClose (c :: rest) = (c :: (throughClose rest).1, (throughClose rest).2) ∧
      closes (c :: rest) = closes rest := by
  constructor
  · rw [throughClose]
    exact noClose
  · rw [closes]
    exact noClose

/-- What does not start with a slash makes no `*/` of what stands before it. -/
theorem noClose_append {c : Char} {rest : Text}
    (noClose : ∀ tail, c = '*' → rest = '/' :: tail → False) (more : Text)
    (first : more.head? ≠ some '/') :
    ∀ tail, c = '*' → rest ++ more = '/' :: tail → False := by
  intro tail star slash
  cases rest with
  | nil => exact first (by rw [← List.nil_append more, slash]; rfl)
  | cons d others =>
      simp only [List.cons_append, List.cons.injEq] at slash
      exact noClose others star (by rw [slash.1])

theorem throughClose_append_break (left right : Text) :
    throughClose (left ++ '\n' :: right) =
      if closes left then ((throughClose left).1, (throughClose left).2 ++ '\n' :: right)
      else (left ++ '\n' :: (throughClose right).1, (throughClose right).2) := by
  fun_induction throughClose left with
  | case1 => simp [closes, throughClose]
  | case2 rest => simp [closes, throughClose]
  | case3 c rest noClose taken after cut ih =>
      have noCloseToo := noClose_append noClose ('\n' :: right) (by simp)
      rw [List.cons_append, (throughClose_cons noCloseToo).1, (throughClose_cons noClose).2, ih]
      rw [cut]
      split <;> rfl

theorem closes_append_break (left right : Text) :
    closes (left ++ '\n' :: right) = (closes left || closes right) := by
  fun_induction throughClose left with
  | case1 => rw [List.nil_append, (throughClose_cons (by simp)).2]; rfl
  | case2 rest => rfl
  | case3 c rest noClose taken after cut ih =>
      have noCloseToo := noClose_append noClose ('\n' :: right) (by simp)
      rw [List.cons_append, (throughClose_cons noCloseToo).2, (throughClose_cons noClose).2, ih]

/-- Of several lines only the last one closes a comment that is closed at the end. -/
theorem isClosedBody_append_break (left right : Text) :
    IsClosedBody (left ++ '\n' :: right) ↔ closes left = false ∧ IsClosedBody right := by
  rw [IsClosedBody, IsClosedBody, IsBody, IsBody, throughClose_append_break, closes_append_break]
  cases early : closes left with
  | true =>
      simp only [if_true, Prod.mk.injEq, List.append_eq_nil_iff, reduceCtorEq, and_false, false_and]
  | false => simp [Prod.ext_iff]

theorem isClosedBody_blank_append {blanks : Text} (blank : blanks.all isBlank) (body : Text) :
    closes (blanks ++ body) = closes body ∧ (IsClosedBody (blanks ++ body) ↔ IsClosedBody body) := by
  induction blanks with
  | nil => exact ⟨rfl, Iff.rfl⟩
  | cons c blanks ih =>
      simp only [List.all_cons, Bool.and_eq_true] at blank
      have noClose : ∀ tail, c = '*' → blanks ++ body = '/' :: tail → False := by
        rintro tail rfl
        exact absurd blank.1 (by decide)
      obtain ⟨step, same⟩ := throughClose_cons noClose
      rw [List.cons_append, same]
      refine ⟨(ih blank.2).1, ?_⟩
      rw [← (ih blank.2).2, IsClosedBody, IsClosedBody, IsBody, IsBody, same, step]
      simp [Prod.ext_iff]

theorem closes_append_blank (body : Text) {blanks : Text} (blank : blanks.all isBlank) :
    closes (body ++ blanks) = closes body := by
  fun_induction throughClose body with
  | case1 =>
      rw [← List.append_nil ([] ++ blanks), List.nil_append]
      exact (isClosedBody_blank_append blank []).1
  | case2 rest => rfl
  | case3 c rest noClose taken after cut ih =>
      have noCloseToo := noClose_append noClose blanks (by
        intro slash
        have inside := List.all_eq_true.1 blank '/' (List.mem_of_head? slash)
        exact absurd inside (by decide))
      rw [List.cons_append, (throughClose_cons noCloseToo).2, (throughClose_cons noClose).2, ih]

theorem closes_trim (line : Text) : closes line.trim = closes line := by
  obtain ⟨lead, trailing, leading, ended, same⟩ := Text.exists_eq_trim line
  conv => rhs; rw [same]
  rw [closes_append_blank _ ended, (isClosedBody_blank_append leading _).1]

/-- Whether of some lines the last one alone closes a comment, and at its end. -/
def ClosedLast : List Text → Prop
  | [] => False
  | [line] => IsClosedBody line
  | line :: next :: lines => closes line = false ∧ ClosedLast (next :: lines)

theorem isClosedBody_trim {line : Text} (last : line.getLast? = some '/') :
    IsClosedBody line.trim ↔ IsClosedBody line := by
  obtain ⟨lead, trailing, leading, ended, same⟩ := Text.exists_eq_trim line
  have none : trailing = [] := by
    rcases List.eq_nil_or_concat trailing with none | ⟨init, c, rfl⟩
    · exact none
    · rw [same, List.concat_eq_append, ← List.append_assoc, List.getLast?_concat] at last
      obtain rfl := Option.some.inj last
      have inside := List.all_eq_true.1 ended '/' (by simp)
      exact absurd inside (by decide)
  rw [none, List.append_nil] at same
  conv => rhs; rw [same]
  exact (isClosedBody_blank_append leading _).2.symm

/-- A text that ends in a slash has a solid line. -/
theorem keepSolid_ne_nil {lines : List Text}
    (last : (Text.joinLines lines).getLast? = some '/') : Text.keepSolid lines ≠ [] := by
  obtain ⟨solid, member, inside⟩ :=
    (Text.mem_joinLines_iff (by decide) _).1 (List.mem_of_getLast? last)
  have kept : '/' ∈ solid.compact := List.mem_filter.2 ⟨inside, by decide⟩
  have remains : solid.trim ≠ [] := by
    intro none
    rw [(Text.trim_eq_nil_iff solid).1 none] at kept
    exact List.not_mem_nil kept
  exact List.ne_nil_of_mem
    (List.mem_filter.2 ⟨List.mem_map_of_mem member, by simpa using remains⟩)

/-- By induction on the lines: a line before the last one must not close the comment, and a blank
line never does. -/
theorem isClosedBody_joinLines_iff (line : Text) (lines : List Text)
    (last : (Text.joinLines (line :: lines)).getLast? = some '/') :
    IsClosedBody (Text.joinLines (line :: lines)) ↔ ClosedLast (Text.keepSolid (line :: lines)) := by
  induction lines generalizing line with
  | nil =>
      have remains := keepSolid_ne_nil last
      rw [Text.keepSolid_cons] at remains ⊢
      split at remains
      · exact absurd rfl remains
      · next solid =>
          rw [if_neg solid]
          exact (isClosedBody_trim last).symm
  | cons next lines ih =>
      have lastToo : (Text.joinLines (next :: lines)).getLast? = some '/' := by
        rw [Text.joinLines_cons_cons, List.getLast?_append, List.getLast?_cons] at last
        cases found : (Text.joinLines (next :: lines)).getLast? with
        | none => simp [found] at last
        | some c => simpa [found] using last
      obtain ⟨first, others, shape⟩ := List.exists_cons_of_ne_nil (keepSolid_ne_nil lastToo)
      rw [Text.joinLines_cons_cons, isClosedBody_append_break, ih next lastToo,
        Text.keepSolid_cons line, shape]
      cases found : line.trim with
      | nil =>
          have unclosed : closes line = false := by rw [← closes_trim, found]; rfl
          simp [unclosed]
      | cons c rest =>
          rw [← closes_trim, found]
          rfl

/-- Whether a comment is closed at its end, and not before, can be seen from its solid lines. -/
theorem isClosedBody_iff {body : Text} (last : body.getLast? = some '/') :
    IsClosedBody body ↔ ClosedLast (Text.solidLines body) := by
  obtain ⟨line, rest, cut⟩ := Text.exists_splitOn_eq '\n' body
  have whole := Text.joinLines_splitOn body
  rw [cut] at whole
  rw [Text.solidLines, cut, ← isClosedBody_joinLines_iff line rest (whole ▸ last), whole]

/-- The solid lines of a comment tell those behind its `/*`. -/
theorem solidLines_body_congr {body other : Text}
    (same : Text.solidLines ('/' :: '*' :: body) = Text.solidLines ('/' :: '*' :: other)) :
    Text.solidLines body = Text.solidLines other := by
  have shape (body : Text) : ∃ first rest, Text.splitOn '\n' body = first :: rest ∧
      Text.solidLines ('/' :: '*' :: body) =
        ('/' :: '*' :: first.trimEnd) :: Text.keepSolid rest := by
    obtain ⟨first, rest, cut⟩ := Text.exists_splitOn_eq '\n' body
    refine ⟨first, rest, cut, ?_⟩
    have whole := Text.splitOn_cons (by decide : '/' ≠ '\n')
      (Text.splitOn_cons (by decide : '*' ≠ '\n') cut)
    have trimmed : Text.trim ('/' :: '*' :: first) = '/' :: '*' :: first.trimEnd := by
      rw [Text.trim, Text.trimStart, List.dropWhile_cons_of_neg (by decide),
        Text.trimEnd_cons_of_not_blank (by decide), Text.trimEnd_cons_of_not_blank (by decide)]
    rw [Text.solidLines, whole, Text.keepSolid_cons, trimmed]
    rfl
  obtain ⟨first, rest, cut, lines⟩ := shape body
  obtain ⟨firstToo, restToo, cutToo, linesToo⟩ := shape other
  rw [lines, linesToo] at same
  simp only [List.cons.injEq, true_and] at same
  rw [Text.solidLines, Text.solidLines, cut, cutToo, Text.keepSolid_cons, Text.keepSolid_cons,
    same.2, ← Text.trim_trimEnd first, same.1, Text.trim_trimEnd]

/-- A comment that is closed at its end stays so when its solid lines stay and it still ends in a
slash. -/
theorem isClosedBody_congr {body other : Text} (closed : IsClosedBody body)
    (last : other.getLast? = some '/')
    (same : Text.solidLines ('/' :: '*' :: body) = Text.solidLines ('/' :: '*' :: other)) :
    IsClosedBody other := by
  rw [isClosedBody_iff last, ← solidLines_body_congr same,
    ← isClosedBody_iff (Segment.getLast?_of_closes closed.1 closed.2)]
  exact closed

end Comment

end IdlFormat
