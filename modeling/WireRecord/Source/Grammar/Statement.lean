import WireRecord.Source.Grammar.Definition
import WireRecord.Source.Grammar.Value

/-!
Statements of blocks. An empty statement is kept.
-/

namespace WireRecord

namespace Grammar

open WireRecord.Parser

variable (g : Grammar)

/-- Whether a macro with braces is called here as a statement of its own. -/
def atMacroStatement (t : Lookahead) : Bool :=
  t.pastPlainPath?.any fun t =>
    t.atOperator "!" && (t.past 1).atGroup .brace &&
      !((t.past 2).atDot || (t.past 2).atOperator "?")

def macroStatement : Parser Tokens := do
  let (path, _) ← plainPath
  return path.tokens ++ (← inOrder [operator "!", rawGroup, optionalOperator ";"])

def letStatement : Parser Tokens :=
  inOrder [keyword "let", g.anyPattern,
    onlyIf (·.atOperator ":") (inOrder [operator ":", g.anyType]),
    onlyIf (·.atOperator "=") (inOrder [operator "=", g.anyValue,
      onlyIf (·.atName "else") (inOrder [keyword "else", g.block])]),
    operator ";"]

/-- Whether an operand with these operations after it is a range. An assignment that comes first
puts the range on its right. -/
def makesRange (operations : List Tokens) : Bool :=
  let found := (operations.map leadingOperator).find? fun op =>
    rangeOperators.contains op || assignments.contains op
  found.any rangeOperators.contains

/-- A value as a statement. Attributes belong to its first operand, but those before a range to
the range, which then stands in parentheses. -/
def valueStatement : Parser Tokens := do
  let outer ← g.outer
  let (head, rest) ← g.standingParts
  if !outer.isEmpty && makesRange rest then
    return outer ++ [.group .paren (head.tokens ++ rest.flatten)]
  return withOuter outer head ++ rest.flatten

def statement? : Parser (Option Tokens) := do
  if ← atEnd then return none
  if ← takeOperator? ";" then return some [.leaf ";"]
  let before ← ahead
  let outer ← g.outer
  if ← sees atMacroStatement then return some (outer ++ (← macroStatement))
  if ← sees fun t => !t.atBareGroup && t.atName "let" then
    return some (outer ++ (← g.letStatement))
  let isDefinition ← sees atDefinition
  resume before
  if isDefinition then return some (← g.definitionRule)
  return some (← inOrder [g.valueStatement, optionalOperator ";"])

def statementsRule : Parser Tokens := manyTokens g.statement?

end Grammar

end WireRecord
