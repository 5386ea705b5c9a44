import WireRecord.Source.Item

/-!
The grammar of source text as rules that refer to each other. A rule is a parser that reaches the
recursive ones through a `Grammar`; the knot is tied once all rules are known. The rules of this
module are those that every other one needs: attributes, visibility and blocks.
-/

namespace WireRecord

structure Grammar where
  /-- A type; the flag says whether it may be a sum of bounds. -/
  type : Bool → Parser TypeExpr
  /-- A value; the flag says whether it may be a struct literal. -/
  value : Bool → Parser ValueExpr
  bounds : Parser Bounds
  pattern : Parser Tokens
  armValue : Parser Tokens
  statements : Parser Tokens
  definition : Parser Tokens
  /-- What a `use` declaration imports, or nothing if it is only copied. -/
  imports : Parser (Option Tokens)

namespace Grammar

open WireRecord.Parser

variable (g : Grammar)

/-- The tokens of a type that may be a sum of bounds. -/
def anyType : Parser Tokens := do return (← g.type true).tokens

/-- The tokens of a value that may be a struct literal. -/
def anyValue : Parser Tokens := do return (← g.value true).tokens

/-- Names separated by `::`, keywords included, and where the first one stands. -/
def plainPath : Parser (Path × Place) := do
  let leading ← takeOperator? "::"
  let start ← tokenPlace
  unless ← sees (·.atAnyName) do
    if ← atEnd then fail "expected nested attribute"
    if ← sees (·.atLiteral) then fail "unexpected literal in nested attribute, expected ident"
    fail "unexpected token in nested attribute, expected ident"
  let first ← anyName
  let rest ← many do
    unless ← takeOperator? "::" do return none
    match ← peek? with
    | some (.name text _) => skip; return some text
    | _ => fail "expected ident"
  return ({ leading, segments := (first :: rest).map fun name => { name } }, start)

/-- Whether a group with visible delimiters comes next. -/
def atDelimited (t : Lookahead) : Bool :=
  t.atGroup .paren || t.atGroup .bracket || t.atGroup .brace

def attributeForm : Parser AttributeForm := do
  if ← sees atDelimited then
    let (delimiter, input) ← delimited
    return .list delimiter input
  let start ← tokenPlace
  if ← takeOperator? "=" then return .assigned start (← g.anyValue)
  return .bare

/-- What stands between the brackets of an attribute that began at `start`. -/
def attributeContent (start : Place) : Parser Attribute := do
  let (path, pathPlace) ← plainPath
  return { place := start, path, pathPlace, form := ← g.attributeForm }

/-- An attribute before what it belongs to, if one comes next. -/
def outerAttribute? : Parser (Option Attribute) := do
  unless ← sees fun t => t.atOperator "#" && (t.past 1).atGroup .bracket do return none
  let start ← tokenPlace
  takeOperator "#"
  return some (← within (← takeGroup .bracket) (g.attributeContent start))

def attributes : Parser (List Attribute) := many g.outerAttribute?

/-- The tokens of the attributes before what they belong to. -/
def outer : Parser Tokens := do return (← g.attributes).flatMap Attribute.tokens

/-- The tokens of the attributes before a value. Those in a bare group belong to the group. -/
def valueOuter : Parser Tokens := do
  let found ← many do
    if ← sees (·.atBareGroup) then return none
    g.outerAttribute?
  return found.flatMap Attribute.tokens

/-- An attribute inside what it belongs to, if one comes next. -/
def innerAttribute? : Parser (Option Attribute) := do
  unless ← sees fun t => t.atOperator "#" && (t.past 1).atOperator "!" &&
    (t.past 2).atGroup .bracket do return none
  let start ← tokenPlace
  takeOperator "#"
  takeOperator "!"
  return some (← within (← takeGroup .bracket) (g.attributeContent start))

/-- The tokens of the attributes inside what they belong to. -/
def inner : Parser Tokens := do
  return (← many g.innerAttribute?).flatMap Attribute.innerTokens

/-- Whether the content of a group after `pub` belongs to the visibility. -/
def atVisibilityScope (t : Lookahead) : Bool :=
  t.atName "in" || (t.atOneOf ["crate", "self", "super"] && (t.past 1).isEmpty)

def visibilityScope : Parser Tokens := do
  if ← sees (·.atName "in") then
    let word ← keyword "in"
    return word ++ (← plainPath).1.tokens
  nameTokens

/-- A visibility, or nothing. A group after `pub` belongs to it only if it holds a visibility, and a
bare group without content stands for no visibility. -/
def visibility : Parser Tokens := do
  if ← sees (·.atEmptyGroup) then
    let _ ← takeBareGroup?
    return []
  unless ← takeName? "pub" do return []
  let before ← ahead
  if let some inner ← takeGroup? .paren then
    if atVisibilityScope inner.trees then
      return [.leaf "pub", .group .paren (← within inner visibilityScope)]
    resume before
  return [.leaf "pub"]

/-- Whether a built-in is called here: the word `builtin` and a number sign. -/
def atBuiltin (t : Lookahead) : Bool := t.atName "builtin" && (t.past 1).atOperator "#"

/-- The call of a built-in, as it stands in the source. -/
def builtin : Parser Tokens := do
  let before ← ahead
  let _ ← inOrder [keyword "builtin", operator "#", nameTokens, rawGroup]
  rawSince before

def block : Parser Tokens := inGroup .brace (inOrder [g.inner, g.statements])

end Grammar

end WireRecord
