import IdlFormat.Setting.Display
import IdlFormat.Text.Lower

/-!
# Documentation entries

An entry explains one word of the interface language. Entries are read from records; what a record
leaves out is filled in from the word that it is listed under.
-/

namespace IdlFormat

namespace Documentation

open Setting

/-- The kind of a word. -/
inductive Category where
  /-- A word that begins or structures a declaration. -/
  | keyword
  /-- A word in an attribute block. -/
  | attributeName
  /-- The name of a type. -/
  | typeName
  /-- An instruction to the compiler. -/
  | directive
  /-- A word that changes a type. -/
  | modifier
deriving DecidableEq, Repr

namespace Category

/-- All kinds. -/
def all : List Category :=
  [keyword, attributeName, typeName, directive, modifier]

/-- The name of a kind. -/
def name : Category → String
  | keyword => "keyword"
  | attributeName => "attribute"
  | typeName => "type"
  | directive => "directive"
  | modifier => "modifier"

/-- The kind with a name. -/
def ofName (name : Text) : Checked Category :=
  match all.find? fun category => category.name.toList = name with
  | some category => .ok category
  | none => .fail (.refused ("Invalid category: ".toList ++ name))

end Category

/-- The explanation of a word. -/
structure Entry where
  /-- The word as it is shown. -/
  name : Text
  /-- The kind of the word. -/
  category : Category
  /-- What the word means. -/
  description : Text
  /-- How the word is used, in general. -/
  synopsis : Option Text
  /-- How the word is used, in one case. -/
  sample : Option Text
  /-- Where to read more. -/
  url : Text
deriving DecidableEq, Repr

/-- The address of a page of the language reference. -/
def urlOf (page : Text) : Text :=
  "https://learn.microsoft.com/en-us/windows/win32/Midl/".toList ++ page

namespace Entry

/-- The entry that a complete record describes. -/
def ofFields (fields : Table Value) : Checked Entry :=
  let required := fun {α : Type} (name : String) (read : Value → Checked α) =>
    Value.fieldOr fields name (.fail .missing) read
  let optional := fun (name : String) => Value.fieldOr fields name (.ok none) Value.optionalText
  let parts :=
    (required "name" Value.textual).both <|
    (required "category" fun value => value.textual.bind Category.ofName).both <|
    (required "description" Value.textual).both <|
    (optional "syntax").both <|
    (optional "example").both
    (required "doc_url" Value.textual)
  parts.map fun (name, category, description, synopsis, sample, url) =>
    { name, category, description, synopsis, sample, url }

/-- The entry that a record listed under a word describes. The word is the name and the page, unless
the record has its own. -/
def ofListed (word : Text) (fields : Table Value) : Checked Entry :=
  let page :=
    match Table.get? "page".toList fields with
    | some page => page.display
    | none => word
  let withDefault := fun (name : String) (value : Text) (fields : Table Value) =>
    match Table.get? name.toList fields with
    | some _ => fields
    | none => fields ++ [(name.toList, .text value)]
  ofFields (withDefault "doc_url" (urlOf page) (withDefault "name" word fields))

/-- The entries of a list of words, found by the word in lower case. The first entry that is no good
is reported. -/
def ofList (words : List (Text × Table Value)) : Checked (Table Entry) := do
  let entries ← words.mapM fun (word, fields) => do
    return (word.lower, ← ofListed word fields)
  return Table.ofPairs entries

end Entry

end Documentation

end IdlFormat
