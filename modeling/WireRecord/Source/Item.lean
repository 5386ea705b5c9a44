import WireRecord.Generics
import WireRecord.Source.Parser

/-!
Declarations as they are read from source text: attributes, fields, and the items that a derive is
attached to.
-/

namespace WireRecord

inductive AttributeForm where
  | bare
  | list (delimiter : Delimiter) (input : SourceInput)
  | assigned (place : Place) (value : Tokens)

structure Attribute where
  place : Place
  path : Path
  pathPlace : Place
  form : AttributeForm

namespace Attribute

def isNamed (a : Attribute) (name : String) : Bool := a.path.ident? == some name

/-- The tokens between the brackets of an attribute. The content of a group is kept as it
stands. -/
def content (a : Attribute) : Tokens :=
  a.path.tokens ++ match a.form with
    | .bare => []
    | .list delimiter input => [.group delimiter (SourceTree.rawAll input.trees)]
    | .assigned _ value => .leaf "=" :: value

/-- The tokens of an attribute that stands before what it belongs to. -/
def tokens (a : Attribute) : Tokens := [.leaf "#", .group .bracket a.content]

/-- The tokens of an attribute that stands inside what it belongs to. -/
def innerTokens (a : Attribute) : Tokens := [.leaf "#", .leaf "!", .group .bracket a.content]

end Attribute

structure Field where
  place : Place
  attributes : List Attribute
  visibility : Tokens
  name : Option String
  type : TypeExpr

def Field.tokens (f : Field) : Tokens :=
  let name : Tokens := match f.name with
    | some name => [.leaf name, .leaf ":"]
    | none => []
  f.attributes.flatMap Attribute.tokens ++ f.visibility ++ name ++ f.type.tokens

inductive ItemBody where
  | named (fields : List (Listed Field))
  | tuple (fields : List (Listed Field))
  | unit
  /-- The item is no struct. -/
  | unsupported

/-- The tokens of the body of a struct. The where clause stands before braces and after
parentheses. -/
def ItemBody.tokens (whereClause : Tokens) : ItemBody → Tokens
  | named fields => whereClause ++ [.group .brace (Listed.tokens Field.tokens fields)]
  | tuple fields =>
    .group .paren (Listed.tokens Field.tokens fields) :: whereClause ++ [.leaf ";"]
  | unit => whereClause ++ [.leaf ";"]
  | unsupported => []

/-- A declaration that a derive is attached to, and where it and its name begin. -/
structure Item where
  place : Place
  attributes : List Attribute
  name : String
  namePlace : Place
  generics : Generics
  body : ItemBody

end WireRecord
