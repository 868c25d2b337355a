import IdlFormat.Source.Bracket
import IdlFormat.Text.Blank

/-!
# Members of enumerations

The members of an enumeration are separated by the commas that no parenthesis or angle bracket
encloses, and each gets a token of its own.
-/

namespace IdlFormat

namespace EnumMember

/-- Drops one comma or semicolon from the end of a trimmed text, and the blanks before it. -/
def dropTerminator (member : Text) : Text :=
  match member.getLast? with
  | some c => if c = ',' || c = ';' then Text.trimEnd member.dropLast else member
  | none => member

/-- The members of a list of pieces between commas: all but the last piece keep their comma, the
last one loses its terminator, unless that is a semicolon to be kept. -/
def ofPieces (keepSemicolon : Bool) : List Text → List Text
  | [] => []
  | [piece] =>
      let member := piece.trim
      let kept :=
        if keepSemicolon && member.getLast? = some ';' then member else dropTerminator member
      if kept.isEmpty then [] else [kept]
  | piece :: pieces =>
      let member := piece.trim
      let members := ofPieces keepSemicolon pieces
      if member.isEmpty then members else (member ++ [',']) :: members

/-- The members that a comma-separated list holds, one entry each. -/
def split (keepSemicolon : Bool) (text : Text) : List Text :=
  ofPieces keepSemicolon (Bracket.splitTopLevel (· = ',') [.round, .angle] text)

end EnumMember

end IdlFormat
