import WireRecord.Source.Grammar.Generics

/-!
Fields and the bodies of structs. The same rules read a struct that a derive is attached to and one
that is defined inside a block.
-/

namespace WireRecord

namespace Grammar

open WireRecord.Parser

variable (g : Grammar)

/-- Whether the type of a field is declared in place. -/
def atInlineType (t : Lookahead) : Bool :=
  t.atName "struct" || (t.atName "union" && (t.past 1).atGroup .brace)

/-- The type of a field. One that is declared in place is copied as it stands; only a field called
`_` may have such a type. -/
def fieldType (name : Option String) : Parser TypeExpr := do
  if name == some "_" && (← sees atInlineType) then
    let before ← ahead
    let _ ← inOrder [nameTokens, rawGroup]
    return .other .verbatim (← rawSince before)
  g.type true

def field (isNamed : Bool) : Parser Field := do
  let start ← place
  let attributes ← g.attributes
  let visibility ← visibility
  let name ← if isNamed then do
      let name ← anyName
      takeOperator ":"
      pure (some name)
    else pure none
  return { place := start, attributes, visibility, name, type := ← g.fieldType name }

def fields (isNamed : Bool) (inner : SourceInput) : Parser (List (Listed Field)) :=
  within inner (listedItems atEnd (g.field isNamed))

/-- The body of a struct and its where clause, which may stand on either side of a tuple. -/
def structBody : Parser (ItemBody × List (Listed Predicate)) := do
  let front ← g.whereClause
  if let some inner ← takeGroup? .brace then return (.named (← g.fields true inner), front)
  if let some inner ← takeGroup? .paren then
    let found ← g.fields false inner
    let back ← g.whereClause
    takeOperator ";"
    return (.tuple found, front ++ back)
  takeOperator ";"
  return (.unit, front)

/-- A declaration that a derive is attached to. The body of anything but a struct is not read. -/
def item : Parser Item := do
  let start ← place
  let attributes ← g.attributes
  let _ ← visibility
  let keyword ← anyName
  let namePlace ← place
  let name ← anyName
  let params ← g.genericParams
  if keyword = "struct" then
    let (body, predicates) ← g.structBody
    return { place := start, attributes, name, namePlace, generics := { params, predicates }, body }
  if keyword = "enum" || keyword = "union" then
    resume []
    return {
      place := start, attributes, name, namePlace, generics := { params }, body := .unsupported }
  fail "expected an item"

end Grammar

end WireRecord
