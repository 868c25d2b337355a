import IdlFormat.Proofs.Clean
import IdlFormat.Span.Directive

/-!
# The extent of a directive

A backslash continues a directive over the blanks behind it, and the clean-up deletes those blanks.
Still a cleaned directive ends where it did: dropping a space or tab changes nothing about whether a
line break behind it is continued, so the scan passes through the same states as before
(`cutFrom_trimLineEnds`). Each line break inside a directive has its backslash right before it,
hence no two of them stand in a row and the clean-up never shortens a run of them there.
-/

namespace IdlFormat

namespace Directive

open Clean (trimLineEnds capBreaks capBreaksFrom CappedFrom)

variable {continued : Bool} {text : Text}

/-- A directive is cut off the same way once the spaces and tabs at the ends of its lines are gone,
whatever follows its last line. -/
theorem cutFrom_trimLineEnds (stops : (cutFrom continued text).2 ≠ []) (more : Text) :
    cutFrom continued (trimLineEnds (cutFrom continued text).1 ++ '\n' :: more) =
      (trimLineEnds (cutFrom continued text).1, '\n' :: more) := by
  fun_induction cutFrom continued text with
  | case1 => exact absurd rfl stops
  | case2 continued c rest ends =>
      simp only [Bool.and_eq_true, Bool.not_eq_true', decide_eq_true_eq] at ends
      rcases ends with ⟨rfl, rfl⟩
      rfl
  | case3 continued c rest goesOn taken after same ih =>
      rw [same] at ih
      have later := ih stops
      rw [Clean.trimLineEnds_cons]
      split
      · next dropped =>
          -- a dropped space or tab leaves the scan in the state in which it was
          simp only [Bool.and_eq_true] at dropped
          have notBackslash : c ≠ '\\' := by
            rintro rfl
            exact absurd dropped.1 (by decide)
          simpa [notBackslash, dropped.1] using later
      · rw [List.cons_append, cutFrom, if_neg goesOn, later]

/-- A directive that is not continued does not go on behind a line break. -/
theorem head?_cutFrom (text : Text) : (cutFrom false text).1.head? ≠ some '\n' := by
  cases text with
  | nil => simp [cutFrom]
  | cons c rest =>
      rw [cutFrom]
      split
      · simp
      · next goesOn => simpa using goesOn

theorem not_infix_cutFrom (continued : Bool) (text : Text) :
    ¬ ['\n', '\n'] <:+: (cutFrom continued text).1 := by
  fun_induction cutFrom continued text with
  | case1 => simp
  | case2 => simp
  | case3 continued c rest goesOn taken after same ih =>
      rw [same] at ih
      intro inside
      rcases List.infix_cons_iff.1 inside with first | later
      · rcases List.cons_prefix_cons.1 first with ⟨rfl, next⟩
        have fresh := head?_cutFrom rest
        have fallsOff : (decide ('\n' = '\\') || (continued && isIndent '\n')) = false := by
          cases continued <;> decide
        rw [fallsOff] at same
        rw [same] at fresh
        rcases next with ⟨others, rfl⟩
        exact fresh rfl
      · exact ih later

end Directive

namespace Clean

variable {breaks : Nat}

/-- A character in a line begins the count of line breaks anew. -/
theorem capBreaksFrom_append_cons {c : Char} (inLine : c ≠ '\n') (breaks : Nat)
    (left right : Text) :
    capBreaksFrom breaks (left ++ c :: right) =
      capBreaksFrom breaks left ++ c :: capBreaksFrom 0 right := by
  fun_induction capBreaksFrom breaks left with
  | case1 => simp [capBreaksFrom, inLine]
  | case2 breaks rest less ih => simp [capBreaksFrom, less, ih]
  | case3 breaks rest more ih => simp [capBreaksFrom, more, ih]
  | case4 breaks d rest other ih => simp [capBreaksFrom, other, ih]

/-- What follows a text without long runs of line breaks does not shorten the runs in it. -/
theorem CappedFrom.exists_capBreaksFrom_append {text : Text} (capped : CappedFrom breaks text)
    (after : Text) : ∃ rest, capBreaksFrom breaks (text ++ after) = text ++ rest := by
  induction text generalizing breaks with
  | nil => exact ⟨_, rfl⟩
  | cons c text ih =>
      rw [CappedFrom] at capped
      rw [List.cons_append, capBreaksFrom]
      split at capped
      · next isBreak =>
          rcases ih capped.2 with ⟨rest, same⟩
          exact ⟨rest, by rw [if_pos isBreak, if_pos capped.1, same]; rfl⟩
      · next inLine =>
          rcases ih capped with ⟨rest, same⟩
          exact ⟨rest, by rw [if_neg inLine, same]; rfl⟩

end Clean

namespace Directive

open Clean (trimLineEnds capBreaks capBreaksFrom CappedFrom)

/-- A directive that is cut off and cleaned up as it stands, whatever stands around it. -/
structure KeepsExtent (directive : Text) : Prop where
  /-- It is cut off whole, and the line behind it is not. -/
  cut_append : ∀ more, cut (directive ++ '\n' :: more) = (directive, '\n' :: more)
  /-- No two line breaks stand in a row in it. -/
  single_breaks : ¬ ['\n', '\n'] <:+: directive
  /-- Shortening the runs of line breaks in a document leaves it alone. -/
  capBreaks_append : ∀ before after, ∃ rest,
    capBreaks (before ++ directive ++ after) = capBreaks before ++ directive ++ rest

theorem exists_trimLineEnds_cut (text : Text) :
    ∃ rest, trimLineEnds (cut ('#' :: text)).1 = '#' :: rest := by
  rw [cut, cutFrom, if_neg (by decide)]
  exact ⟨_, rfl⟩

/-- A directive that ends at a line break keeps its extent once the spaces and tabs at the ends of
its lines are dropped: its continuation lines stay, and the line behind it stays out. -/
theorem keepsExtent_trimLineEnds {text : Text} {start : Nat} (hash : text[start]? = some '#')
    (stops : (cut (text.drop start)).2 ≠ []) :
    KeepsExtent (trimLineEnds (cut (text.drop start)).1) := by
  rcases List.getElem?_eq_some_iff.1 hash with ⟨within, isHash⟩
  rw [List.drop_eq_getElem_cons within, isHash] at stops ⊢
  rcases exists_trimLineEnds_cut (text.drop (start + 1)) with ⟨rest, shape⟩
  have recut : ∀ more, cut ('#' :: rest ++ '\n' :: more) = ('#' :: rest, '\n' :: more) := by
    intro more
    rw [← shape]
    exact cutFrom_trimLineEnds stops more
  rw [shape]
  have single : ¬ ['\n', '\n'] <:+: '#' :: rest := by
    have taken := not_infix_cutFrom false ('#' :: rest ++ ['\n'])
    rwa [← cut, recut []] at taken
  have capped : CappedFrom 0 ('#' :: rest) := by
    rw [Clean.cappedFrom_iff (Nat.zero_le 2)]
    intro inside
    apply single
    exact List.IsInfix.trans ⟨[], ['\n'], rfl⟩ inside
  refine ⟨recut, single, ?_⟩
  intro before after
  have inLine : '#' ≠ '\n' := by decide
  rw [CappedFrom, if_neg inLine] at capped
  rcases capped.exists_capBreaksFrom_append after with ⟨others, kept⟩
  refine ⟨others, ?_⟩
  rw [capBreaks, capBreaks, List.append_assoc, List.cons_append,
    Clean.capBreaksFrom_append_cons inLine, kept, List.append_assoc, List.cons_append]

/-- Blanks behind a backslash, a blank continuation line, and a document around the directive. -/
theorem keepsExtent_trimLineEnds_blankLine :
    trimLineEnds (cut ("x;\n#d \\ \t\n  e\\\n \ny;".toList.drop 3)).1 = "#d \\\n  e\\\n".toList ∧
      KeepsExtent (trimLineEnds (cut ("x;\n#d \\ \t\n  e\\\n \ny;".toList.drop 3)).1) :=
  ⟨by decide, keepsExtent_trimLineEnds (by decide) (by decide)⟩

end Directive

end IdlFormat
