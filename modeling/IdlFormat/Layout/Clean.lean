import IdlFormat.Text.Blank

/-!
# Clean documents

A finished document has no spaces or tabs at the end of a line, at most one blank line in a row, no
blank line at its start, and ends in exactly one line break.
-/

namespace IdlFormat

namespace Clean

/-- Drops the spaces and tabs at the end of every line. -/
def trimLineEnds (text : Text) : Text :=
  text.foldr
    (fun c rest =>
      if isIndent c && (rest.isEmpty || rest.head? = some '\n') then rest else c :: rest)
    []

/-- Shortens every run of line breaks to two at most, where `breaks` counts those right before the
text. -/
def capBreaksFrom (breaks : Nat) : Text → Text
  | [] => []
  | c :: rest =>
      if c = '\n' then
        if breaks < 2 then c :: capBreaksFrom (breaks + 1) rest else capBreaksFrom breaks rest
      else c :: capBreaksFrom 0 rest

/-- Shortens every run of line breaks to two at most. -/
def capBreaks (text : Text) : Text :=
  capBreaksFrom 0 text

end Clean

/-- The clean form of a document. -/
def finalize (text : Text) : Text :=
  let capped := (Clean.capBreaks (Clean.trimLineEnds text)).dropWhile (· = '\n')
  Text.trimEnd capped ++ ['\n']

end IdlFormat
