import IdlFormat.Layout.Basic
import Mathlib.Data.List.Induction

/-!
# Open bodies

Three readers keep track of the braces: the look back for an open enumeration, the printer's level,
and a stack of the bodies that are open. They agree on every list of tokens, however unbalanced.
A closing brace with nothing to close is ignored by the stack and by the level, but counted by the
look back. It does no harm there, because everything before such a brace is closed: with `depth`
closing braces still to be matched, the look back finds the entry `depth` places below the top of
the stack (`insideEnumFrom_reverse`).
-/

namespace IdlFormat

namespace Token

/-- The bodies that are open after a token, innermost first. An opening brace puts on the stack
whether the token right before it heads an enumeration. -/
def stackAfter (previous : Option Token) (stack : List Bool) (token : Token) : List Bool :=
  match token.kind with
  | .braceOpen => previous.any headsEnum :: stack
  | .braceClose => stack.tail
  | _ => stack

/-- The bodies that are open after tokens that follow `previous`. -/
def bodiesFrom (previous : Option Token) (stack : List Bool) : List Token → List Bool
  | [] => stack
  | token :: tokens => bodiesFrom (some token) (stackAfter previous stack token) tokens

/-- The bodies that tokens leave open, innermost first; each says whether it belongs to an
enumeration. -/
def bodies (tokens : List Token) : List Bool :=
  bodiesFrom none [] tokens

theorem bodiesFrom_concat (previous : Option Token) (stack : List Bool) (tokens : List Token)
    (token : Token) :
    bodiesFrom previous stack (tokens ++ [token]) =
      stackAfter (tokens.getLast?.or previous) (bodiesFrom previous stack tokens) token := by
  induction tokens generalizing previous stack with
  | nil => rfl
  | cons first tokens ih =>
      rw [List.cons_append, bodiesFrom, ih, bodiesFrom, List.getLast?_cons]
      cases tokens.getLast? <;> rfl

theorem bodies_concat (tokens : List Token) (token : Token) :
    bodies (tokens ++ [token]) = stackAfter tokens.getLast? (bodies tokens) token := by
  rw [bodies, bodiesFrom_concat, Option.or_none, bodies]

/-- With closing braces still to be matched, the look back passes over as many entries. -/
theorem insideEnumFrom_reverse (depth : Nat) (tokens : List Token) :
    insideEnumFrom depth tokens.reverse = ((bodies tokens)[depth]? == some true) := by
  induction tokens using List.reverseRecOn generalizing depth with
  | nil => rfl
  | append_singleton tokens token ih =>
      rw [List.reverse_concat, bodies_concat, stackAfter]
      cases kind : token.kind with
      | braceClose =>
          -- one more closing brace to be matched, one entry less on the stack
          simp only [insideEnumFrom, kind, ih, List.getElem?_tail]
      | braceOpen =>
          cases depth with
          | zero =>
              simp only [insideEnumFrom, kind, List.head?_reverse, List.getElem?_cons_zero]
              cases tokens.getLast?.any headsEnum <;> rfl
          | succ depth => simp only [insideEnumFrom, kind, ih, List.getElem?_cons_succ]
      | _ => simp only [insideEnumFrom, kind, ih]

/-- The stack is as high as the braces are deep. -/
theorem length_bodies (tokens : List Token) :
    (bodies tokens).length = tokens.foldl Layout.nextLevel 0 := by
  induction tokens using List.reverseRecOn with
  | nil => rfl
  | append_singleton tokens token ih =>
      rw [bodies_concat, List.foldl_append, ← ih, List.foldl_cons, List.foldl_nil, stackAfter,
        Layout.nextLevel]
      cases token.kind with
      | braceClose => exact List.length_tail
      | _ => rfl

end Token

namespace Layout

/-- Tokens are printed first and those that follow them afterwards, at the level that the braces of
the first ones leave, with an empty line between the two maybe. -/
theorem exists_linesFrom_append (style : Style) (level : Nat) (previous : Option Token)
    (tokens more : List Token) :
    ∃ gap : List Text, (gap = [] ∨ gap = [[]]) ∧
      linesFrom style level previous (tokens ++ more) = (do
        let own ← linesFrom style level previous tokens
        let rest ← linesFrom style (tokens.foldl nextLevel level) (tokens.getLast?.or previous) more
        return own ++ gap ++ rest) := by
  induction tokens generalizing level previous with
  | nil =>
      refine ⟨[], .inl rfl, ?_⟩
      show linesFrom style level previous more =
        (linesFrom style level (none.or previous) more).bind .ok
      rw [Option.none_or]
      cases linesFrom style level previous more <;> rfl
  | cons token tokens ih =>
      have last : (token :: tokens).getLast?.or previous = tokens.getLast?.or (some token) := by
        rw [List.getLast?_cons]
        cases tokens.getLast? <;> rfl
      rw [last, List.cons_append, linesFrom, linesFrom, List.foldl_cons]
      cases tokens with
      | nil =>
          -- the gap stands between the token and what follows it
          refine ⟨if more.head?.any (blankBetween level token) then [[]] else [], ?_, ?_⟩
          · split
            · exact .inr rfl
            · exact .inl rfl
          · rw [List.nil_append, List.getLast?_nil, Option.none_or]
            cases tokenLines style level token with
            | error fault => rfl
            | ok own =>
                show (linesFrom style (nextLevel level token) (some token) more).bind _ =
                  (linesFrom style (nextLevel level token) (some token) more).bind _
                cases linesFrom style (nextLevel level token) (some token) more with
                | error fault => rfl
                | ok rest =>
                    refine congrArg Except.ok ?_
                    simp only [List.append_assoc]
                    rfl
      | cons second tokens =>
          rcases ih (nextLevel level token) (some token) with ⟨gap, few, same⟩
          refine ⟨gap, few, ?_⟩
          rw [same]
          cases tokenLines style level token with
          | error fault => rfl
          | ok own =>
              cases linesFrom style (nextLevel level token) (some token) (second :: tokens) with
              | error fault => rfl
              | ok inner =>
                  show ((linesFrom style _ _ more).bind _).bind _ = (linesFrom style _ _ more).bind _
                  cases linesFrom style ((second :: tokens).foldl nextLevel (nextLevel level token))
                      ((second :: tokens).getLast?.or (some token)) more with
                  | error fault => rfl
                  | ok rest =>
                      refine congrArg Except.ok ?_
                      simp only [List.append_assoc]
                      rfl

end Layout

namespace Token

/-- The look back finds an open enumeration exactly if one is on top of the stack of open bodies,
and the stack is as high as the level at which the printer goes on behind the same tokens. -/
theorem insideEnum_iff_head?_bodies (tokens : List Token) :
    (insideEnum tokens ↔ (bodies tokens).head? = some true) ∧
      (bodies tokens).length = tokens.foldl Layout.nextLevel 0 ∧
      ∀ (style : Style) (more : List Token), ∃ gap : List Text, (gap = [] ∨ gap = [[]]) ∧
        Layout.linesFrom style 0 none (tokens ++ more) = (do
          let own ← Layout.linesFrom style 0 none tokens
          let rest ← Layout.linesFrom style (bodies tokens).length tokens.getLast? more
          return own ++ gap ++ rest) := by
  refine ⟨?_, length_bodies tokens, ?_⟩
  · rw [insideEnum, insideEnumFrom_reverse, beq_iff_eq, List.head?_eq_getElem?]
  · intro style more
    rcases Layout.exists_linesFrom_append style 0 none tokens more with ⟨gap, few, same⟩
    rw [Option.or_none] at same
    exact ⟨gap, few, by rw [same, length_bodies]⟩

/-- Closing braces that close nothing, an enumeration that is closed and one that stays open. -/
example : bodies [⟨.braceClose, "\x7d".toList, none⟩, ⟨.declaration, "enum E".toList, none⟩,
    ⟨.braceOpen, "\x7b".toList, none⟩, ⟨.braceClose, "\x7d".toList, none⟩,
    ⟨.braceOpen, "\x7b".toList, none⟩, ⟨.declaration, "enum F".toList, none⟩,
    ⟨.braceOpen, "\x7b".toList, none⟩] = [true, false] := by decide +kernel

end Token

end IdlFormat
