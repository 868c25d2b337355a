import IdlFormat.Span.Basic

/-!
# Spans of a text

A span covers the text that it was cut off, from the first character that is not blank, so the spans
of a text and the blanks between them make up the whole of it.
-/

namespace IdlFormat

namespace Span

/-- A span and what follows it make up the text that it is cut off. -/
theorem source_append_cut (c : Char) (rest : Text) :
    (cut c rest).1.source ++ (cut c rest).2 = c :: rest := by
  unfold cut
  split
  · exact Comment.cut_append _ _
  · split
    · exact Directive.cutFrom_append _ _
    · split
      · exact Bracket.cutClosed_append _ _ _
      · split
        · next brace => simp [source, brace]
        · split
          · simp [source, CloseBrace.taken_append_rest]
          · exact CodeUnit.cutFrom_append _ _

/-- Every span is cut off a part of the text. -/
theorem exists_cut_of_mem_split {text : Text} {span : Span} (member : span ∈ split text) :
    ∃ c rest, c :: rest <:+ text ∧ span = (cut c rest).1 := by
  fun_induction split text with
  | case1 => simp at member
  | case2 text c rest start ih =>
      have suffix : c :: rest <:+ text := by
        rw [← start]
        exact List.dropWhile_suffix isBlank
      rcases List.mem_cons.1 member with rfl | later
      · exact ⟨c, rest, suffix, rfl⟩
      · obtain ⟨d, after, within, same⟩ := ih later
        have cutSuffix : (cut c rest).2 <:+ c :: rest := ⟨_, source_append_cut c rest⟩
        exact ⟨d, after, within.trans (cutSuffix.trans suffix), same⟩

end Span

end IdlFormat
