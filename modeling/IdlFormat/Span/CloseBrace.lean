import IdlFormat.Source.Comment
import IdlFormat.Source.Literal

/-!
# Closing braces

A closing brace takes a semicolon that follows on its line, and likewise the list of aliases that
ends a type definition. The list has to start on the line of the brace but may run over several
lines; anything in it that is not plain code means that there is no list.
-/

namespace IdlFormat

namespace CloseBrace

/-- Whether a text holds something that no list of aliases does: a comment, a brace, an opening
square bracket, a `#` or a quote. -/
def blocksAliases : Text → Bool
  | [] => false
  | c :: rest =>
      (Comment.form? (c :: rest)).isSome || isQuote c || ['{', '}', '[', '#'].contains c ||
        blocksAliases rest

/-- A closing brace cut off a text. -/
structure Cut where
  /-- The text of its token. -/
  token : Text
  /-- The source that it covers after the brace. -/
  taken : Text
  /-- What follows. -/
  rest : Text
deriving DecidableEq, Repr

/-- Cuts off the closing brace that stands right before a text. -/
def cut (text : Text) : Cut :=
  let gap := text.takeWhile isIndent
  let after := text.dropWhile isIndent
  let alone : Cut := ⟨['}'], [], text⟩
  if after.head? = some ';' then ⟨['}', ';'], gap ++ [';'], after.drop 1⟩
  else if after.head? = some '\n' then alone
  else
    let aliases := after.takeWhile (· != ';')
    match after.dropWhile (· != ';') with
    | [] => alone
    | semicolon :: rest =>
        if Text.isBlank aliases || blocksAliases aliases then alone
        else
          ⟨'}' :: ' ' :: (Text.collapse aliases).trim ++ [';'], gap ++ aliases ++ [semicolon], rest⟩

theorem taken_append_rest (text : Text) : (cut text).taken ++ (cut text).rest = text := by
  have whole := List.takeWhile_append_dropWhile (p := isIndent) (l := text)
  have inner := List.takeWhile_append_dropWhile (p := (· != ';')) (l := text.dropWhile isIndent)
  unfold cut
  simp only
  split
  · next found =>
      cases shape : text.dropWhile isIndent with
      | nil => simp [shape] at found
      | cons c rest =>
          simp only [shape, List.head?_cons, Option.some.injEq] at found
          rw [shape, found] at whole
          simpa [shape] using whole
  · split
    · rfl
    · split
      · rfl
      · next semicolon rest shape =>
          split
          · rfl
          · rw [shape] at inner
            simp only [List.append_assoc, List.singleton_append]
            rw [inner, whole]

end CloseBrace

end IdlFormat
