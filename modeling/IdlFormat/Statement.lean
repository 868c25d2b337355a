import IdlFormat.Source.Mask
import IdlFormat.Text.Word

/-!
# Statements

A statement or declaration head is respaced onto one line. Literals and comments are hidden first,
so they pass through unchanged. The listed operators are all treated as binary: `a-1` and `&p` are
spaced alike. Keywords are matched as whole words.
-/

namespace IdlFormat

namespace Keyword

/-- The words that begin a declaration. -/
def declarations : List Text :=
  ["interface", "library", "coclass", "dispinterface", "module", "struct", "union", "enum",
    "typedef", "import", "importlib"].map String.toList

/-- The words that are set apart from a parenthesis that follows. -/
def spaced : List Text :=
  ["if", "for", "while", "switch", "catch", "return", "typedef", "struct", "union", "enum"].map
    String.toList

/-- The words that begin the declaration of a method or field. -/
def memberTypes : List Text :=
  ["HRESULT", "void", "long", "short", "int", "double", "float", "byte", "boolean", "char",
    "wchar_t", "error_status_t"].map String.toList

/-- The words that mark a property. -/
def properties : List Text :=
  ["propget", "propput", "propputref"].map String.toList

/-- The word that marks a body whose members stand one to a line. -/
def enumeration : Text :=
  "enum".toList

end Keyword

/-- The operators that are set between spaces. -/
def isOperator (c : Char) : Bool :=
  ['+', '-', '=', '<', '>', '!', '&', '|'].contains c

namespace Statement

/-- Puts spaces around each operator. -/
def padOperators (text : Text) : Text :=
  text.flatMap fun c => if isOperator c then [' ', c, ' '] else [c]

/-- The characters that a word in source code starts with. -/
def startsName (c : Char) : Bool :=
  ('A' ≤ c && c ≤ 'Z') || ('a' ≤ c && c ≤ 'z') || c = '_'

/-- Puts a space between a `]` and a name that follows directly. -/
def spaceAfterBrackets : Text → Text
  | [] => []
  | c :: rest =>
      if c = ']' && rest.head?.any startsName then c :: ' ' :: spaceAfterBrackets rest
      else c :: spaceAfterBrackets rest

/-- Puts a space between a keyword and a parenthesis that follows directly; `word` is the word right
before the text, last character first. -/
def spaceKeywordsFrom (word : Text) : Text → Text
  | [] => []
  | c :: rest =>
      if c = '(' && Keyword.spaced.contains word.reverse then
        ' ' :: c :: spaceKeywordsFrom [] rest
      else c :: spaceKeywordsFrom (if isWordChar c then c :: word else []) rest

/-- Puts a space between a keyword and a parenthesis that follows directly. -/
def spaceKeywords (text : Text) : Text :=
  spaceKeywordsFrom [] text

/-- The canonical spacing of a text without literals and comments. -/
def respace (text : Text) : Text :=
  let collapsed := text.collapse.trim
  let padded := (padOperators collapsed.spaceCommas : Text)
  let tightened := padded.collapse.tighten ';'
  (spaceKeywords (spaceAfterBrackets tightened)).trim

/-- Respaces a statement onto one line and leaves its literals and comments alone. -/
def normalize (text : Text) : Except Numeral.TooLong Text :=
  let masked := mask text
  unmask masked.saved (respace masked.text)

/-- Whether a respaced text begins a declaration. -/
def isDeclaration (text : Text) : Bool :=
  Keyword.declarations.contains text.leadingWord

/-- Whether a respaced text looks like the declaration of a method, property or field. -/
def isMember (text : Text) : Bool :=
  Keyword.memberTypes.contains text.leadingWord ||
    text.words.any fun word => Keyword.properties.contains word

/-- Whether a respaced text mentions an enumeration. -/
def mentionsEnum (text : Text) : Bool :=
  text.words.contains Keyword.enumeration

end Statement

end IdlFormat
