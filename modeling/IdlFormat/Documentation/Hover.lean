import IdlFormat.Documentation.Words

/-!
# Help at a place in a text

The word that touches an offset is looked up without regard to case, and its entry is shown as
Markdown.
-/

namespace IdlFormat

namespace Documentation

/-- The entries of the known words by the word in lower case. -/
def table : Table Entry :=
  Table.ofPairs (words.map fun entry => (entry.name.lower, entry))

/-- The entry of a word, in any case. -/
def lookup (word : Text) : Option Entry :=
  Table.get? word.lower table

/-- The characters of names: ASCII letters, digits and the underscore. -/
def isNameChar (c : Char) : Bool :=
  c.isAlphanum || c = '_'

/-- The name that touches an offset of a text. A run that begins with a digit is no name. -/
def wordAt (text : Text) (offset : Int) : Option Text :=
  if 0 ≤ offset && offset ≤ text.length then
    let before := (text.take offset.toNat).reverse.takeWhile isNameChar
    let after := (text.drop offset.toNat).takeWhile isNameChar
    let run := before.reverse ++ after
    if run.head?.any fun c => !c.isDigit then some run else none
  else none

/-- A titled piece of code, if there is any. -/
def codeBlock (title : String) : Option Text → Text
  | none => []
  | some [] => []
  | some code =>
      "**".toList ++ title.toList ++ ":**\n```midl\n".toList ++ code ++ "\n```\n\n".toList

/-- An entry in Markdown. -/
def Entry.render (entry : Entry) : Text :=
  "### ".toList ++ entry.name ++ "\n\n**Category:** `".toList ++ entry.category.name.toList ++
    "`\n\n".toList ++ entry.description ++ "\n\n".toList ++ codeBlock "Syntax" entry.synopsis ++
    codeBlock "Example" entry.sample ++ "---\n[View Documentation](".toList ++ entry.url ++ [')']

/-- The help for the name that touches an offset. -/
def hoverAt (text : Text) (offset : Int) : Option Text := do
  let word ← wordAt text offset
  let entry ← lookup word
  return entry.render

end Documentation

end IdlFormat
