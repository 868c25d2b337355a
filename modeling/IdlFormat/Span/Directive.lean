import IdlFormat.Text.Blank

/-!
# Directives

A directive is a line that starts with `#`. A backslash at the end of the line, maybe with spaces or
tabs after it, continues the directive on the next line.
-/

namespace IdlFormat

namespace Directive

/-- Cuts a directive off the front of a text; `continued` says that a backslash with nothing but
spaces and tabs after it stands before the text. -/
def cutFrom (continued : Bool) : Text → Text × Text
  | [] => ([], [])
  | c :: rest =>
      if c = '\n' && !continued then ([], c :: rest)
      else
        let (taken, after) := cutFrom (c = '\\' || (continued && isIndent c)) rest
        (c :: taken, after)

/-- Cuts the directive off a text that starts with one. -/
def cut (text : Text) : Text × Text :=
  cutFrom false text

theorem cutFrom_append (continued : Bool) (text : Text) :
    (cutFrom continued text).1 ++ (cutFrom continued text).2 = text := by
  fun_induction cutFrom continued text <;> simp_all

theorem length_cut_lt {c : Char} (notBreak : c ≠ '\n') (text : Text) :
    (cut (c :: text)).2.length < (c :: text).length := by
  have parts := congrArg List.length
    (cutFrom_append (c = '\\' || (false && isIndent c)) text)
  simp only [List.length_append] at parts
  simp only [cut, cutFrom, notBreak, decide_false, Bool.false_and, Bool.false_eq_true, if_false,
    List.length_cons] at parts ⊢
  omega

end Directive

end IdlFormat
