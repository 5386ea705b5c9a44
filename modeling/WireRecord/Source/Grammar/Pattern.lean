import WireRecord.Source.Grammar.Type

/-!
Patterns. A closed range has one spelling, and so has the number of a tuple member.
-/

namespace WireRecord

namespace Grammar

open WireRecord.Parser

variable (g : Grammar)

/-- A member of a struct: a name, or the number of a tuple member in decimal. -/
def memberName : Parser Tokens := do
  match ← peek? with
  | some (.literal text _) =>
    skip
    return [.leaf (toString (Literal.integerValue text))]
  | _ => nameTokens

def atNumber : Lookahead → Bool
  | .literal .. :: _ => true
  | _ => false

def alternatives : Parser Tokens := manyTokens do
  unless ← sees Lookahead.atBar do return none
  return some (← inOrder [operator "|", g.pattern])

/-- A pattern with alternatives. A bar may stand before the first one. -/
def anyPattern : Parser Tokens := inOrder [optionalOperator "|", g.pattern, g.alternatives]

/-- The tokens of a path in a value or a pattern, perhaps with a qualified self type. -/
def valuePath : Parser Tokens := do
  if ← sees (·.atOperator "<") then
    let self ← g.selfType
    return self ++ Path.tokens { segments := ← g.segments true }
  return (← g.path true).tokens

def atBoundless (t : Lookahead) : Bool :=
  t.isEmpty || t.atAnyOperator ["|", "=", ",", ";"] || t.atColon || t.atName "if"

/-- A bound of a range: a literal, a constant block or a path. -/
def rangeBound : Parser Tokens := do
  if ← sees (·.atLiteral) then return ← literal
  if ← sees (·.atName "const") then return ← inOrder [keyword "const", g.block]
  g.valuePath

/-- The dots of a range and the bound after them. -/
def rangeTail : Parser Tokens := do
  let dots ← if ← (takeOperator? "..=" <||> takeOperator? "...") then pure [.leaf "..="]
    else operator ".."
  if ← sees atBoundless then return dots
  return dots ++ (← g.rangeBound)

/-- The dots and the bound of a range that may come next. -/
def optionalRange : Parser Tokens := onlyIf (·.atOperator "..") g.rangeTail

def memberPattern : Parser Tokens := do
  let outer ← g.outer
  if ← takeOperator? ".." then return outer ++ [.leaf ".."]
  if ← sees fun t => atNumber t || (t.past 1).atColon then
    return outer ++ (← inOrder [memberName, operator ":", g.anyPattern])
  return outer ++ (← inOrder [optionalKeyword "box", optionalKeyword "ref", optionalKeyword "mut",
    nameTokens])

/-- What may follow the path of a pattern: members, the end of a range, or nothing. -/
def pathPatternTail : Parser Tokens := do
  if ← sees (·.atGroup .brace) then return ← inGroup .brace (commas atEnd g.memberPattern)
  if ← sees (·.atGroup .paren) then return ← inGroup .paren (commas atEnd g.anyPattern)
  g.optionalRange

def pathPattern : Parser Tokens := do
  if ← sees (·.atOperator "<") then return ← inOrder [g.valuePath, g.pathPatternTail]
  let path ← g.path true
  if ← sees (callsMacro path) then return ← macroCall path
  return path.tokens ++ (← g.pathPatternTail)

/-- Whether a pattern begins with a path here that is no plain name. -/
def atPathPattern (t : Lookahead) : Bool :=
  let next := t.past 1
  (t.atFreeName && (next.atAnyOperator ["::", "!", ".."] || next.atGroup .brace ||
    next.atGroup .paren)) || (t.atName "self" && next.atOperator "::") ||
    t.atAnyOperator ["::", "<"] || t.atOneOf ["Self", "super", "crate"]

/-- A name that is bound, perhaps with a pattern after `@`. -/
def binding : Parser Tokens :=
  inOrder [optionalKeyword "ref", optionalKeyword "mut", nameTokens,
    onlyIf (·.atOperator "@") (inOrder [operator "@", g.pattern])]

def patternRule : Parser Tokens := do
  if ← sees atPathPattern then return ← g.pathPattern
  if ← sees (·.atName "_") then return ← keyword "_"
  if ← sees (·.atName "box") then
    let before ← ahead
    let _ ← inOrder [keyword "box", g.pattern]
    return ← rawSince before
  if ← sees fun t => t.atLiteral || t.atName "const" then
    return ← inOrder [g.rangeBound, g.optionalRange]
  if ← sees (·.atOperator "&") then
    return ← inOrder [operator "&", optionalKeyword "mut", g.pattern]
  if ← sees (·.atGroup .paren) then return ← inGroup .paren (commas atEnd g.anyPattern)
  if ← sees (·.atGroup .bracket) then return ← inGroup .bracket (commas atEnd g.anyPattern)
  if ← sees (·.atOperator "..") then return ← g.rangeTail
  g.binding

end Grammar

end WireRecord
