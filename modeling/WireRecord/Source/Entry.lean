import WireRecord.Source.Grammar.Statement

/-!
The parsers of source text. Each runs one rule of the grammar with the knot tied up to a nesting
depth. No more than a few rules in a row refer to each other without reading a tree, so a small
multiple of the number of trees is deep enough.
-/

namespace WireRecord

open WireRecord.Parser in
def Grammar.ofDepth : Nat → Grammar
  | 0 => {
      type := fun _ => fail "expected a type"
      value := fun _ => fail "expected an expression"
      bounds := fail "expected bounds"
      pattern := fail "expected a pattern"
      armValue := fail "expected an expression"
      statements := fail "expected a statement"
      definition := fail "expected an item"
      imports := fail "expected identifier" }
  | depth + 1 =>
    let g := ofDepth depth
    { type := g.typeRule
      value := g.valueRule
      bounds := g.boundsRule
      pattern := g.patternRule
      armValue := g.armValueRule
      statements := g.statementsRule
      definition := g.definitionRule
      imports := g.importsRule }

namespace Parser

/-- Runs a rule with a grammar deep enough for the input at hand. -/
def withGrammar {α : Type} (rule : Grammar → Parser α) : Parser α := do
  rule (Grammar.ofDepth (4 * SourceTree.sizeAll (← ahead) + 8))

def type : Parser TypeExpr := withGrammar fun g => g.type true

def value : Parser ValueExpr := withGrammar fun g => g.value true

def path : Parser Path := withGrammar fun g => g.path false

def genericParams : Parser (List (Listed GenericParam)) := withGrammar Grammar.genericParams

def whereClause : Parser (List (Listed Predicate)) := withGrammar Grammar.whereClause

def attributes : Parser (List Attribute) := withGrammar Grammar.attributes

def item : Parser Item := withGrammar Grammar.item

end Parser

end WireRecord
