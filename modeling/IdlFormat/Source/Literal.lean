import IdlFormat.Text.Basic

/-!
# Quoted literals

A literal opens with a quote and ends with the same quote. A backslash escapes the character after
it. A literal that is still open at a line break stops before it, so it can never swallow the rest
of a document; such a literal can be repaired by writing what would have closed it.

`Literal.scan` cuts a literal off the front of a text. `Literal.State` runs along a text instead and
tells at each character whether it stands in a literal, which is what bracket counting needs.
-/

namespace IdlFormat

/-- The two quotes that open literals. -/
def isQuote (c : Char) : Bool :=
  c = '"' || c = '\''

namespace Literal

/-- A literal cut off a text, without its opening quote. -/
structure Scan where
  /-- What belongs to the literal after its opening quote. -/
  body : Text
  /-- What follows the literal. -/
  rest : Text
  /-- What has to be added to close the literal: nothing if it is closed. -/
  repair : Text
deriving DecidableEq, Repr

/-- The literal with one more character in front of its body. -/
def Scan.cons (c : Char) (scan : Scan) : Scan :=
  { scan with body := c :: scan.body }

/-- What closes an open literal: the quote, after a second backslash if a lone one stands at its
end. -/
def repair (quote : Char) (escaped : Bool) : Text :=
  if escaped then ['\\', quote] else [quote]

/-- Cuts off the literal whose opening quote stands before the text; `escaped` says that an escaping
backslash stands there too. -/
def scan (quote : Char) (escaped : Bool) : Text → Scan
  | [] => ⟨[], [], repair quote escaped⟩
  | c :: rest =>
      if escaped && c != '\n' then (scan quote false rest).cons c
      else if c = '\\' then (scan quote true rest).cons c
      else if c = quote then ⟨[c], rest, []⟩
      else if c = '\n' then ⟨[], c :: rest, repair quote escaped⟩
      else (scan quote false rest).cons c

theorem body_append_rest (quote : Char) (escaped : Bool) (text : Text) :
    (scan quote escaped text).body ++ (scan quote escaped text).rest = text := by
  fun_induction scan quote escaped text <;> simp_all [Scan.cons]

theorem length_rest_le (quote : Char) (escaped : Bool) (text : Text) :
    (scan quote escaped text).rest.length ≤ text.length := by
  have parts := congrArg List.length (body_append_rest quote escaped text)
  simp only [List.length_append] at parts
  omega

/-- Where a character stands while a text is read from left to right. -/
inductive State where
  /-- Outside all literals. -/
  | outside
  /-- In a literal, maybe right after an escaping backslash. -/
  | inside (quote : Char) (escaped : Bool)
deriving DecidableEq, Repr

/-- Whether a character counts as code: neither in a literal nor a quote that opens one. The line
break that stops an open literal does. -/
def State.reveals : State → Char → Bool
  | .outside, c => !isQuote c
  | .inside _ _, c => c = '\n'

/-- The state after a character. -/
def State.next : State → Char → State
  | .outside, c => if isQuote c then .inside c false else .outside
  | .inside quote escaped, c =>
      if c = '\n' then .outside
      else if escaped then .inside quote false
      else if c = '\\' then .inside quote true
      else if c = quote then .outside
      else .inside quote false

end Literal

end IdlFormat
