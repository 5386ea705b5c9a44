import WireRecord.Source.Grammar.Pattern

/-!
Values. Operators are read from left to right without regard to their precedence, since only their
order is printed. Some forms are only copied: they stay as they stand in the source, with
the attributes before them.
-/

namespace WireRecord

namespace Grammar

open WireRecord.Parser

variable (g : Grammar)

def binaryOperators : List String :=
  ["<<=", ">>=", "&&", "||", "<<", ">>", "==", "<=", "!=", ">=", "+=", "-=", "*=", "/=", "%=",
   "^=", "&=", "|=", "+", "-", "*", "/", "%", "^", "&", "|", "<", ">"]

def assignments : List String :=
  ["=", "<<=", ">>=", "+=", "-=", "*=", "/=", "%=", "^=", "&=", "|="]

/-- Operators that may stand between the ends of a range. -/
def rangeOperators : List String := ["..", "..="]

def atValue (t : Lookahead) : Bool :=
  (t.atAnyName && !t.atName "as") || t.atGroup .paren || t.atGroup .bracket || t.atGroup .brace ||
  t.atLiteral || t.atCallMark || t.atShort "-" ["-=", "->"] || t.atShort "*" ["*="] ||
  t.atShort "|" ["|="] || t.atShort "&" ["&="] || t.atShort "<" ["<=", "<<="] ||
  t.atAnyOperator ["..", "::", "#"] || t.atLifetime

def atRangeEnd (allowStruct : Bool) (t : Lookahead) : Bool :=
  t.isEmpty || t.atDot || (!allowStruct && t.atGroup .brace) || t.atName "as" ||
  t.atAnyOperator [",", ";", "?", "=>", "=", "+", "/", "%", "^", ">", "<=", "!=", "-=", "*=", "&=",
    "|=", "<<="]

def atClosure (t : Lookahead) : Bool :=
  let next := t.past 1
  t.atOperator "|" || t.atOneOf ["move", "static"] ||
  (t.atName "for" && next.atOperator "<" &&
    ((t.past 2).atLifetime || (t.past 2).atOperator ">")) ||
  (t.atName "const" && !next.atGroup .brace) ||
  (t.atName "async" && (next.atOperator "|" ||
    (next.atName "move" && !(t.past 2).atGroup .brace)))

def atValuePath (t : Lookahead) : Bool :=
  t.atPath || t.atOperator "<" ||
  (t.atName "try" && (t.past 1).atAnyOperator ["!", "::"])

def optionalOperand (test : Lookahead → Bool) (allowStruct : Bool) : Parser Tokens :=
  onlyIf test (do return (← g.value allowStruct).tokens)

def valueList : Parser Tokens := commas atEnd g.anyValue

def memberValue : Parser Tokens := do
  if ← takeOperator? ".." then return .leaf ".." :: (← g.optionalOperand (!·.isEmpty) true)
  inOrder [g.outer, memberName, onlyIf (·.atOperator ":") (inOrder [operator ":", g.anyValue])]

/-- A path by itself, or with what follows it in a macro call or in a struct. -/
def pathForm (head : ValueExpr) (allowStruct : Bool) : Parser ValueExpr := do
  if let .path path := head then
    if ← sees (callsMacro path) then return .other (← macroCall path)
  if allowStruct && (← sees (·.atGroup .brace)) then
    return .other (head.tokens ++ (← inGroup .brace (commas atEnd g.memberValue)))
  return head

def pathValue (allowStruct : Bool) : Parser ValueExpr := do
  let head ← if ← sees (·.atOperator "<") then pure (.qualified (← g.valuePath))
    else pure (.path (← g.path true))
  g.pathForm head allowStruct

/-- A path with further segments after it, and nothing if the value is no path. -/
def longerPath? (more : List PathSegment) : ValueExpr → Option ValueExpr
  | .path path => some (.path { path with segments := path.segments ++ more })
  | .qualified tokens =>
    some (.qualified (tokens ++ Path.tokens { leading := !more.isEmpty, segments := more }))
  | _ => none

/-- A value in a bare group. A path goes on after the group, and then the group does not count. -/
def groupValue (inner : SourceInput) (allowStruct : Bool) : Parser ValueExpr := do
  let value ← within inner (g.value true)
  if (longerPath? [] value).isNone then return .group value
  let more ← many (g.furtherSegment? true)
  let whole ← g.pathForm ((longerPath? more value).getD value) allowStruct
  return if more.isEmpty && (longerPath? [] whole).isSome then .group whole else whole

def parenValue : Parser ValueExpr := do
  if ← atEnd then return .other [.group .paren []]
  let first ← g.value true
  if ← atEnd then return .paren first
  let rest ← inOrder [operator ",", g.valueList]
  return .other [.group .paren (first.tokens ++ rest)]

def arrayValue : Parser Tokens := do
  if ← atEnd then return []
  let first ← g.anyValue
  if ← atEnd then return first
  if ← sees (·.atOperator ";") then return first ++ (← inOrder [operator ";", g.anyValue])
  return first ++ (← inOrder [operator ",", g.valueList])

/-- The condition of `if` or `while`, or the subject of `match` or `for`. -/
def condition : Parser Tokens := do return (← g.value false).tokens

def branch? : Parser (Option Tokens) := do
  unless ← sees (·.atName "else") do return none
  return some (← inOrder [keyword "else",
    onlyIf (·.atName "if") (inOrder [keyword "if", g.condition]), g.block])

/-- A parameter of a closure. Attributes before a pattern that is only copied are dropped. -/
def closureParam : Parser Tokens := do
  let outer ← g.outer
  let isCopied ← sees (·.atName "box")
  let pattern ← g.pattern
  if ← sees (·.atOperator ":") then
    return outer ++ pattern ++ (← inOrder [operator ":", g.anyType])
  return if isCopied then pattern else outer ++ pattern

def closure (allowStruct : Bool) : Parser Tokens := do
  let head ← inOrder [g.binder, optionalKeyword "const", optionalKeyword "static",
    optionalKeyword "async", optionalKeyword "move", operator "|",
    commas (atOperator "|") g.closureParam, operator "|"]
  if ← sees (·.atOperator "->") then return head ++ (← inOrder [g.result true, g.block])
  return head ++ (← g.value allowStruct).tokens

def labeled : Parser Tokens := do
  if ← sees (·.atName "while") then return ← inOrder [keyword "while", g.condition, g.block]
  if ← sees (·.atName "loop") then return ← inOrder [keyword "loop", g.block]
  if ← sees (·.atName "for") then
    return ← inOrder [keyword "for", g.anyPattern, keyword "in", g.condition, g.block]
  g.block

def arm? : Parser (Option Tokens) := do
  if ← atEnd then return none
  return some (← inOrder [g.outer, g.anyPattern,
    onlyIf (·.atName "if") (inOrder [keyword "if", g.anyValue]), operator "=>", g.armValue,
    optionalOperator ","])

/-- Whether a value that ends in a block begins here. -/
def atBlockValue (t : Lookahead) : Bool :=
  t.atOneOf ["if", "while", "loop", "match", "unsafe"] || (t.atName "for" && !atClosure t) ||
  (t.atOneOf ["try", "const"] && (t.past 1).atGroup .brace) || t.atGroup .brace || t.atLifetime

def blockValue : Parser Tokens := do
  if ← sees (·.atName "if") then
    return ← inOrder [keyword "if", g.condition, g.block, manyTokens g.branch?]
  if ← sees (·.atName "match") then
    return ← inOrder [keyword "match", g.condition,
      inGroup .brace (inOrder [g.inner, manyTokens g.arm?])]
  if ← sees (·.atOneOf ["unsafe", "try", "const"]) then
    return ← inOrder [nameTokens, g.block]
  if ← sees (·.atLifetime) then
    return ← inOrder [optionalLifetime, operator ":", g.labeled]
  g.labeled

def range (allowStruct : Bool) : Parser Tokens := do
  if ← takeOperator? "..=" then return .leaf "..=" :: (← g.value allowStruct).tokens
  inOrder [operator "..", g.optionalOperand (!atRangeEnd allowStruct ·) allowStruct]

def jump? (allowStruct : Bool) : Parser (Option Tokens) := do
  if ← sees (·.atName "break") then
    let test (t : Lookahead) : Bool := atValue t && (allowStruct || !t.atGroup .brace)
    return some (← inOrder [keyword "break", optionalLifetime, g.optionalOperand test true])
  if ← sees (·.atName "continue") then
    return some (← inOrder [keyword "continue", optionalLifetime])
  if ← sees (·.atName "return") then
    return some (← inOrder [keyword "return", g.optionalOperand atValue allowStruct])
  if ← sees (·.atName "yield") then
    return some (← inOrder [keyword "yield", g.optionalOperand atValue true])
  return none

def literalValue : Parser ValueExpr := do
  let tokens ← literal
  match tokens with
  | [.leaf token] =>
    match Literal.stringValue? token.text with
    | some value => return .text value tokens
    | none => return .other tokens
  | _ => return .other tokens

def atom (allowStruct : Bool) : Parser ValueExpr := do
  if let some inner ← takeBareGroup? then return ← g.groupValue inner allowStruct
  if ← sees (·.atLiteral) then return ← literalValue
  if ← sees atClosure then return .other (← g.closure allowStruct)
  if ← sees atBlockValue then return .other (← g.blockValue)
  if ← sees (·.atName "async") then
    return .other (← inOrder [keyword "async", optionalKeyword "move", g.block])
  if ← sees atBuiltin then return .verbatim (← builtin)
  if ← sees atValuePath then return ← g.pathValue allowStruct
  if let some inner ← takeGroup? .paren then return ← within inner g.parenValue
  if ← sees (·.atGroup .bracket) then return .other (← inGroup .bracket g.arrayValue)
  if let some tokens ← g.jump? allowStruct then return .other tokens
  if ← sees (·.atName "become") then
    let before ← ahead
    let _ ← inOrder [keyword "become", g.anyValue]
    return .verbatim (← rawSince before)
  if ← sees (·.atName "let") then
    let head ← inOrder [keyword "let", g.anyPattern, operator "="]
    return .other (head ++ (← g.value allowStruct).tokens)
  if ← sees (·.atOperator "..") then return .other (← g.range allowStruct)
  if ← sees (·.atName "_") then return .other (← keyword "_")
  fail "expected an expression"

/-- A member after its dot: a name, perhaps with generic arguments, or a number. -/
def member : Parser Tokens := do
  if ← sees atNumber then memberName
  else inOrder [memberName, onlyIf (·.atOperator "::") (do return (← g.angleArguments).tokens)]

/-- Members after a dot. A number with a point in it stands for two of them, and one that ends in
a point has a further member after it. -/
def members : Parser Tokens := do
  match ← peek? with
  | some (.literal text _) =>
    let parts := text.splitOn "."
    let numbers := Tokens.separated "." (parts.filterMap fun part =>
      if part.isEmpty then none else some [.leaf (toString (Literal.integerValue part))])
    skip
    if parts.getLast? == some "" then return numbers ++ .leaf "." :: (← g.member)
    return numbers
  | _ => g.member

def trailer? : Parser (Option Tokens) := do
  if ← sees (·.atGroup .paren) then return some (← inGroup .paren g.valueList)
  if ← sees (·.atGroup .bracket) then return some (← inGroup .bracket g.anyValue)
  if ← sees (·.atOperator "?") then return some (← operator "?")
  if ← sees Lookahead.atDot then return some (← inOrder [operator ".", g.members])
  return none

/-- A value with the operations that follow it and the attributes before it. -/
def operand (allowStruct : Bool) : Parser ValueExpr := do
  let before ← ahead
  let outer ← g.valueOuter
  let head ← g.atom allowStruct
  let trailers ← manyTokens g.trailer?
  if !trailers.isEmpty then return .other (outer ++ head.tokens ++ trailers)
  match head with
  | .verbatim _ => return .verbatim (← rawSince before)
  | _ => return if outer.isEmpty then head else .attributed outer head

/-- Whether the address of a place is taken without a reference. -/
def atRawAddress (t : Lookahead) : Bool :=
  t.atName "raw" && (t.past 1).atOneOf ["const", "mut"]

/-- One operator before a value with the attributes before it, if one comes next. -/
def sign? : Parser (Option Tokens) := do
  let before ← ahead
  let outer ← g.valueOuter
  if ← sees (·.atBareGroup) then
    resume before
    return none
  if ← takeOperator? "&" then
    let words ← if ← sees atRawAddress then inOrder [nameTokens, nameTokens]
      else optionalKeyword "mut"
    return some (outer ++ .leaf "&" :: words)
  for op in ["*", "!", "-"] do
    if ← takeOperator? op then return some (outer ++ [.leaf op])
  resume before
  return none

def signed (allowStruct : Bool) : Parser ValueExpr := do
  let signs ← manyTokens g.sign?
  let operand ← g.operand allowStruct
  return if signs.isEmpty then operand else .other (signs ++ operand.tokens)

/-- An operator between values and what follows it, if one comes next. -/
def operation? (allowStruct : Bool) : Parser (Option Tokens) := do
  if ← takeName? "as" then
    let type ← match ← takeBareGroup? with
      | some inner => g.groupType inner false
      | none => g.type false
    return some (.leaf "as" :: type.tokens)
  if ← sees (·.atOperator "..") then return some (← g.range allowStruct)
  if ← sees (·.atOperator "=>") then return none
  let upcoming ← ahead
  match (binaryOperators ++ ["="]).find? fun op => upcoming.atOperator op with
  | some op => return some (← inOrder [operator op, do return (← g.signed allowStruct).tokens])
  | none => return none

def operations (allowStruct : Bool) : Parser Tokens := manyTokens (g.operation? allowStruct)

def valueRule (allowStruct : Bool) : Parser ValueExpr := do
  let head ← g.signed allowStruct
  let rest ← g.operations allowStruct
  return if rest.isEmpty then head else .other (head.tokens ++ rest)

/-- A value that stands by itself, without the attributes before it: its first operand, and the
operations after it. One that ends in a block goes on only with an operation that cannot begin
another statement. -/
def standingParts : Parser (ValueExpr × List Tokens) := do
  if ← sees fun t => !t.atBareGroup && atBlockValue t then
    let head ← g.blockValue
    unless ← sees fun t => t.atDot || t.atOperator "?" do return (.other head, [])
    let trailers ← manyTokens g.trailer?
    return (.other (head ++ trailers), ← many (g.operation? true))
  return (← g.signed true, ← many (g.operation? true))

def leadingOperator (tokens : Tokens) : String :=
  (tokens.head?.map fun first => first.printed.text).getD ""

/-- Attributes before an operand. They are dropped before a form that is only copied, and a range
after them stands in parentheses. -/
def withOuter (outer : Tokens) (operand : ValueExpr) : Tokens :=
  match operand with
  | .verbatim tokens => tokens
  | _ =>
    if !outer.isEmpty && rangeOperators.contains (leadingOperator operand.tokens) then
      outer ++ [.group .paren operand.tokens]
    else outer ++ operand.tokens

/-- The value after the arrow of an arm. Attributes belong to its first operand. -/
def armValueRule : Parser Tokens := do
  let outer ← g.valueOuter
  let (head, rest) ← g.standingParts
  return withOuter outer head ++ rest.flatten

end Grammar

end WireRecord
