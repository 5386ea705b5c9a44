import WireRecord.Source.Grammar.Pattern
import WireRecord.Source.Grammar.Struct

/-!
Definitions inside blocks: functions, types, traits, implementations and the like. A definition of
a form that declarations never have is only copied: it stays as it stands in the source, with the
attributes before it.
-/

namespace WireRecord

namespace Grammar

open WireRecord.Parser

variable (g : Grammar)

/-- A definition with the attributes before it, as one rule reads it. Where the rule gives nothing,
both are copied as they stand. -/
def orCopied (rule : Parser (Option Tokens)) : Parser Tokens := do
  let before ← ahead
  let outer ← g.outer
  match ← rule with
  | some tokens => return outer ++ tokens
  | none => rawSince before

def always (parts : List (Parser Tokens)) : Parser (Option Tokens) := some <$> inOrder parts

def optionalValue : Parser Tokens := default? g.anyValue

/-- The definitions in braces, each by one rule, with the attributes before them. -/
def braced (rule : Parser Tokens) : Parser Tokens :=
  inGroup .brace (inOrder [g.inner, manyTokens do
    if ← atEnd then return none
    return some (← rule)])

def atReceiver (t : Lookahead) : Bool :=
  let t := if t.atOperator "&" then
      if (t.past 1).atLifetime then t.past 2 else t.past 1
    else t
  let t := t.skipName "mut"
  t.atName "self" && !(t.past 1).atOperator "::"

/-- The type of a parameter after its colon, which may be the mark of further parameters. -/
def paramType : Parser Tokens := do
  if ← sees (·.atOperator "...") then operator "..." else g.anyType

/-- A parameter of a function. One without a name gets the name that binds nothing. -/
def functionParam : Parser Tokens := do
  let outer ← g.outer
  if ← sees (·.atOperator "...") then return outer ++ (← operator "...")
  if ← sees atReceiver then
    return outer ++ (← inOrder [
      onlyIf (·.atOperator "&") (inOrder [operator "&", optionalLifetime]), optionalKeyword "mut",
      keyword "self", onlyIf (·.atOperator ":") (inOrder [operator ":", g.anyType])])
  if ← sees fun t => t.atFreeName && (t.past 1).atOperator "<" then
    return outer ++ Tokens.words ["_", ":"] ++ (← g.anyType)
  return outer ++ (← inOrder [g.pattern, operator ":", g.paramType])

def signature : Parser Tokens :=
  inOrder [optionalKeyword "const", optionalKeyword "async", optionalKeyword "unsafe", convention,
    keyword "fn", nameTokens, g.genericTokens, inGroup .paren (commas atEnd g.functionParam),
    g.result true, g.whereTokens]

def function : Parser (Option Tokens) := do
  let head ← g.signature
  if ← takeOperator? ";" then return none
  return some (head ++ (← g.block))

/-- A function of a trait, with or without a body. -/
def traitFunction : Parser (Option Tokens) := do
  let head ← g.signature
  if ← sees (·.atOperator ";") then return some (head ++ (← operator ";"))
  return some (head ++ (← g.block))

/-- A function of a foreign block. One with a body or with a word for safety is only copied. -/
def foreignFunction : Parser (Option Tokens) := do
  let isSafe ← takeName? "safe"
  let head ← g.signature
  if ← sees (·.atGroup .brace) then
    let _ ← g.block
    return none
  let stop ← operator ";"
  return if isSafe then none else some (head ++ stop)

/-- A constant: its tokens, whether it has generic parameters or a where clause, and whether it has
a value. -/
def constant : Parser (Tokens × Bool × Bool) := do
  let head ← inOrder [keyword "const", nameTokens]
  let angled ← sees (·.atOperator "<")
  let params ← g.genericTokens
  let type ← inOrder [operator ":", g.anyType]
  let value ← g.optionalValue
  let bounded ← sees (·.atName "where")
  let predicates ← g.whereTokens
  let stop ← operator ";"
  return (head ++ params ++ type ++ value ++ predicates ++ stop, angled || bounded, !value.isEmpty)

/-- A constant. One with generic parameters or without a value is only copied. -/
def constantItem : Parser (Option Tokens) := do
  let (tokens, isGeneric, hasValue) ← g.constant
  return if isGeneric || !hasValue then none else some tokens

def traitConstant : Parser (Option Tokens) := do
  let (tokens, isGeneric, _) ← g.constant
  return if isGeneric then none else some tokens

/-- A static. One without a type or a value is only copied. -/
def static : Parser (Option Tokens) := do
  let head ← inOrder [keyword "static", optionalKeyword "mut", nameTokens]
  let type ← onlyIf (·.atOperator ":") (inOrder [operator ":", g.anyType])
  let value ← g.optionalValue
  let stop ← operator ";"
  return if type.isEmpty || value.isEmpty then none else some (head ++ type ++ value ++ stop)

/-- A static of a foreign block. One with a value or with a word for safety is only copied. -/
def foreignStatic : Parser (Option Tokens) := do
  let safety ← if ← sees (·.atName "safe") then keyword "safe" else optionalKeyword "unsafe"
  let head ← inOrder [keyword "static", optionalKeyword "mut", nameTokens, operator ":", g.anyType]
  let value ← g.optionalValue
  let stop ← operator ";"
  return if safety.isEmpty && value.isEmpty then some (head ++ stop) else none

/-- A type by name: its tokens, whether bounds may follow the name, and whether it is defined. The
where clause stands on either side of the definition. -/
def typeName : Parser (Tokens × Bool × Bool) := do
  let head ← inOrder [keyword "type", nameTokens, g.genericTokens]
  let colon ← sees (·.atOperator ":")
  let bounds ← g.optionalBounds
  let front ← g.whereTokens
  let value ← default? g.anyType
  let back ← g.whereTokens
  let stop ← operator ";"
  return (head ++ bounds.clause ++ front ++ value ++ back ++ stop, colon, !value.isEmpty)

/-- A type by name with its definition. Any other is only copied. -/
def definedType : Parser (Option Tokens) := do
  let (tokens, isBounded, isDefined) ← g.typeName
  return if isBounded || !isDefined then none else some tokens

def traitType : Parser (Option Tokens) := do return some (← g.typeName).1

/-- A type of a foreign block. One with bounds or a definition is only copied. -/
def foreignType : Parser (Option Tokens) := do
  let (tokens, isBounded, isDefined) ← g.typeName
  return if isBounded || isDefined then none else some tokens

def struct : Parser Tokens := do
  let head ← inOrder [nameTokens, g.genericTokens]
  let (body, predicates) ← g.structBody
  return head ++ body.tokens { predicates : Generics }.whereClause

def fieldTokens (isNamed : Bool) : Parser Tokens := do
  return Listed.tokens Field.tokens (← listedItems atEnd (g.field isNamed))

/-- A variant of an enum. It has no visibility of its own. -/
def variant : Parser Tokens := do
  let outer ← g.outer
  let _ ← visibility
  return outer ++ (← inOrder [nameTokens,
    onlyIf (·.atGroup .brace) (inGroup .brace (g.fieldTokens true)),
    onlyIf (·.atGroup .paren) (inGroup .paren (g.fieldTokens false)), g.optionalValue])

def union : Parser Tokens :=
  inOrder [nameTokens, g.genericTokens, g.whereTokens, inGroup .brace (g.fieldTokens true)]

/-- A tree of imported names. A path from the root inside braces makes the declaration one that is
only copied. -/
def importsRule : Parser (Option Tokens) := do
  if ← sees (·.atOperator "*") then return some (← operator "*")
  if let some inner ← takeGroup? .brace then
    let items ← within inner (listed atEnd do
      let rooted ← takeOperator? "::"
      let tree ← g.imports
      return if rooted then none else tree)
    let trees : Option (List Tokens) := items.mapM fun (tree, comma) =>
      tree.map fun tokens => tokens ++ if comma then [.leaf ","] else []
    return trees.map fun trees => [.group .brace trees.flatten]
  let name ← nameTokens
  if ← takeOperator? "::" then return (← g.imports).map fun rest => name ++ .leaf "::" :: rest
  return some (name ++ (← onlyIf (·.atName "as") (inOrder [keyword "as", nameTokens])))

def imported : Parser (Option Tokens) := do
  let head ← inOrder [keyword "use", optionalOperator "::"]
  let tree ← g.imports
  let stop ← operator ";"
  return tree.map fun tree => head ++ tree ++ stop

/-- A macro that is called where a definition stands, perhaps with the name of what it defines. It
ends in a semicolon unless it has braces. -/
def macroItem : Parser (Option Tokens) := do
  let (path, _) ← plainPath
  let head ← inOrder [operator "!", onlyIf Lookahead.atAnyName nameTokens]
  let hasBraces ← sees (·.atGroup .brace)
  let body ← rawGroup
  let stop ← if hasBraces then pure [] else operator ";"
  return some (path.tokens ++ head ++ body ++ stop)

def macroDefinition : Parser (Option Tokens) := do
  let _ ← inOrder [keyword "macro", nameTokens, onlyIf (·.atGroup .paren) rawGroup, rawGroup]
  return none

/-- A definition in a trait. One with a visibility or a word for defaults is only copied. -/
def traitMember : Parser Tokens := g.orCopied do
  let prefixed ← inOrder [visibility, optionalKeyword "default"]
  let rule ← if ← sees (·.atFunction false) then pure g.traitFunction
    else if ← sees (·.atName "const") then pure g.traitConstant
    else if ← sees (·.atName "type") then pure g.traitType
    else pure macroItem
  let tokens ← rule
  return if prefixed.isEmpty then tokens else none

def atDefault (t : Lookahead) : Bool := t.atName "default" && !(t.past 1).atOperator "!"

def implMember : Parser Tokens := g.orCopied do
  let head ← inOrder [visibility, onlyIf atDefault (keyword "default")]
  let rule ← if ← sees (·.atFunction false) then pure g.function
    else if ← sees (·.atName "const") then pure g.constantItem
    else if ← sees (·.atName "type") then pure g.definedType
    else pure macroItem
  return (← rule).map fun tokens => head ++ tokens

def foreignMember : Parser Tokens := g.orCopied do
  let head ← visibility
  let rule ← if ← sees (·.atFunction true) then pure g.foreignFunction
    else if ← sees fun t => t.atName "static" ||
        (t.atOneOf ["unsafe", "safe"] && (t.past 1).atName "static") then pure g.foreignStatic
    else if ← sees (·.atName "type") then pure g.foreignType
    else pure macroItem
  return (← rule).map fun tokens => head ++ tokens

/-- A trait, or another name for a sum of bounds. -/
def trait : Parser (Option Tokens) := do
  let head ← inOrder [optionalKeyword "unsafe", optionalKeyword "auto", keyword "trait", nameTokens,
    g.genericTokens]
  if ← takeOperator? "=" then
    let bounds := (← g.bounds).tokens
    return some (head ++ .leaf "=" :: bounds ++ (← inOrder [g.whereTokens, operator ";"]))
  let bounds := (← g.optionalBounds).clause
  return some (head ++ bounds ++ (← inOrder [g.whereTokens, g.braced g.traitMember]))

/-- Whether generic parameters, and not a qualified path, come next. -/
def atParams (t : Lookahead) : Bool :=
  let next := t.past 1
  let after := t.past 2
  t.atOperator "<" && (next.atAnyOperator [">", "#"] || next.atName "const" ||
    ((next.atLifetime || next.atFreeName) &&
      (after.atAnyOperator [">", ",", "="] || after.atColon)))

/-- A type without the bare groups around it. -/
def ungrouped : TypeExpr → TypeExpr
  | .group inner => ungrouped inner
  | type => type

/-- An implementation. One with a visibility, one for constant evaluation, and one of what is no
path are only copied. -/
def implementation : Parser (Option Tokens) := do
  let shown ← visibility
  let head ← inOrder [optionalKeyword "default", optionalKeyword "unsafe", keyword "impl",
    onlyIf atParams g.genericTokens]
  let isConst ← sees fun t => t.atName "const" || (t.atOperator "?" && (t.past 1).atName "const")
  if isConst then let _ ← inOrder [optionalOperator "?", keyword "const"]
  let negation ← onlyIf (fun t => t.atOperator "!" && !(t.past 1).atGroup .brace) (operator "!")
  let first ← g.type true
  let isFor ← sees (·.atName "for")
  let subject ← if isFor then inOrder [keyword "for", g.anyType] else pure []
  let body ← inOrder [g.whereTokens, g.braced g.implMember]
  if !shown.isEmpty || isConst then return none
  if !isFor then return some (head ++ negation ++ first.tokens ++ body)
  match ungrouped first with
  | .path path => return some (head ++ negation ++ path.tokens ++ subject ++ body)
  | _ => return none

/-- A definition after its attributes and its visibility; the trees before the visibility are
`start`. -/
def definitionKind (start : Lookahead) (shown : Tokens) : Parser (Option Tokens) := do
  let after (rule : Parser (Option Tokens)) : Parser (Option Tokens) := do
    return (← rule).map fun tokens => shown ++ tokens
  let t ← ahead
  let next := t.past 1
  if t.atFunction false then return ← after g.function
  if t.atName "extern" && next.atName "crate" then
    return ← after (always [keyword "extern", keyword "crate", nameTokens,
      onlyIf (·.atName "as") (inOrder [keyword "as", nameTokens]), operator ";"])
  if t.atName "extern" || (t.atName "unsafe" && next.atName "extern") then
    return ← after (always [optionalKeyword "unsafe", convention, g.braced g.foreignMember])
  if t.atName "use" then return ← after g.imported
  if t.atName "static" then return ← after g.static
  if t.atName "const" then return ← after g.constantItem
  if t.atName "mod" || (t.atName "unsafe" && next.atName "mod") then
    let head ← inOrder [optionalKeyword "unsafe", keyword "mod", nameTokens]
    if ← takeOperator? ";" then return some (shown ++ head ++ [.leaf ";"])
    return some (shown ++ head ++ (← g.braced g.definition))
  if t.atName "type" then return ← after g.definedType
  if t.atName "struct" then return ← after (always [keyword "struct", g.struct])
  if t.atName "enum" then
    return ← after (always [keyword "enum", nameTokens, g.genericTokens, g.whereTokens,
      inGroup .brace (commas atEnd g.variant)])
  if t.atName "union" && next.atFreeName then
    return ← after (always [keyword "union", g.union])
  let safe := t.skipName "unsafe"
  if safe.atName "trait" || (safe.atName "auto" && (safe.past 1).atName "trait") then
    return ← after g.trait
  if t.atName "macro" then return ← macroDefinition
  if (t.skipName "default").skipName "unsafe" |>.atName "impl" then
    resume start
    return ← g.implementation
  macroItem

def definitionRule : Parser Tokens := g.orCopied do
  let start ← ahead
  g.definitionKind start (← visibility)

def atDefinition (t : Lookahead) : Bool :=
  let next := t.past 1
  let after := t.past 2
  t.atOneOf ["pub", "extern", "use", "fn", "mod", "type", "struct", "enum", "trait", "impl",
    "macro"] ||
  (t.atName "crate" && !next.atOperator "::") ||
  (t.atName "static" && (next.atName "mut" || next.atFreeName)) ||
  (t.atName "const" && !(next.atGroup .brace || next.atOneOf ["static", "move"] ||
    next.atOperator "|" ||
    (next.atName "async" && !after.atOneOf ["unsafe", "extern", "fn"]))) ||
  (t.atName "unsafe" && !next.atGroup .brace) ||
  (t.atName "async" && next.atOneOf ["unsafe", "extern", "fn"]) ||
  (t.atName "union" && next.atFreeName) ||
  (t.atName "auto" && next.atName "trait") ||
  (t.atName "default" && next.atOneOf ["unsafe", "impl"]) ||
  t.pastPlainPath?.any fun t =>
    t.atOperator "!" && ((t.past 1).atFreeName || (t.past 1).atName "try")

end Grammar

end WireRecord
