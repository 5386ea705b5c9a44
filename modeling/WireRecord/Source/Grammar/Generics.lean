import WireRecord.Source.Grammar.Path

/-!
Bounds, generic parameters and where clauses. A bound that holds only in constant evaluation is
copied as it stands, so it names no trait.
-/

namespace WireRecord

namespace Grammar

open WireRecord.Parser

variable (g : Grammar)

/-- Items joined by `+`, and whether one more `+` follows the last; `starts` tells where a further
item may begin. -/
def joined {α : Type} (starts : Lookahead → Bool) (item : Parser α) : Parser (List α × Bool) := do
  unless ← sees starts do return ([], false)
  let first ← item
  let rest ← many do
    unless ← sees fun t => t.atOperator "+" && starts (t.past 1) do return none
    takeOperator "+"
    return some (← item)
  return (first :: rest, ← takeOperator? "+")

def lifetimeBounds : Parser Bounds := do
  unless ← takeOperator? ":" do return { items := [] }
  let (items, trailing) ← joined Lookahead.atLifetime (do return ⟨none, [.leaf (← lifetime)]⟩)
  return { items, trailing }

def optionalBounds : Parser Bounds := do
  if ← takeOperator? ":" then g.bounds else return { items := [] }

def constDefault : Parser Tokens := do
  if ← sees (·.atFreeName) then nameTokens else g.constArgument

def default? (value : Parser Tokens) : Parser Tokens :=
  onlyIf (·.atOperator "=") (inOrder [operator "=", value])

def genericParam : Parser GenericParam := do
  let outer ← g.outer
  if ← sees (·.atLifetime) then return .lifetime outer (← lifetime) (← lifetimeBounds)
  if ← takeName? "const" then
    let name ← anyName
    takeOperator ":"
    let type ← g.anyType
    return .const outer name type (← default? g.constDefault)
  return .type outer (← anyName) (← g.optionalBounds) (← default? g.anyType)

def binder : Parser Tokens :=
  onlyIf (·.atName "for") (inOrder [
    keyword "for", operator "<",
    commas (atOperator ">") (do return (← g.genericParam).declaration), operator ">"])

def captures : Parser Tokens := do
  let word ← keyword "use"
  let params ← angled (do
    if ← sees (·.atLifetime) then return (true, [.leaf (← lifetime)])
    return (false, ← nameTokens))
  return word ++ params.tokens

/-- The word for constant evaluation before a bound: whether it is there. -/
def constMark : Parser Bool := do
  match ← takeGroup? .bracket with
  | some inner => let _ ← within inner (keyword "const"); return true
  | none => let _ ← optionalOperator "~"; takeName? "const"

/-- A bound by a trait, or nothing if it is to be copied as it stands. -/
def traitBound? : Parser (Option Bound) := do
  let early ← g.binder
  let isConst ← constMark
  let modifier ← optionalOperator "?"
  let late ← g.binder
  let path ← g.callPath false
  return if isConst then none else some ⟨some path, modifier ++ early ++ late ++ path.tokens⟩

def bound : Parser Bound := do
  if ← sees (·.atLifetime) then return ⟨none, [.leaf (← lifetime)]⟩
  if ← sees (·.atName "use") then return ⟨none, ← captures⟩
  let before ← ahead
  let found ← match ← takeGroup? .paren with
    | some inner => do
      let bound ← within inner g.traitBound?
      pure (bound.map fun bound => ⟨bound.trait?, [.group .paren bound.tokens]⟩)
    | none => g.traitBound?
  match found with
  | some bound => return bound
  | none => return ⟨none, ← rawSince before⟩

def atBound (t : Lookahead) : Bool :=
  (t.atAnyName && !t.atName "where") || t.atLifetime || t.atGroup .paren || t.atGroup .bracket ||
    t.atAnyOperator ["::", "?", "~"]

def boundsRule : Parser Bounds := do
  let (items, trailing) ← joined atBound g.bound
  return { items, trailing }

def listedItems {α : Type} (stops : Parser Bool) (item : Parser α) : Parser (List (Listed α)) := do
  return (← listed stops item).map fun (item, comma) => ⟨item, comma⟩

def genericParams : Parser (List (Listed GenericParam)) := do
  unless ← takeOperator? "<" do return []
  let params ← listedItems (atOperator ">") g.genericParam
  takeOperator ">"
  return params

def predicate : Parser Predicate := do
  if ← sees fun t => t.atLifetime && (t.past 1).atOperator ":" then
    let name ← lifetime
    return .lifetime (.leaf name :: .leaf ":" :: (← lifetimeBounds).tokens)
  let binder ← g.binder
  let bounded ← g.type true
  takeOperator ":"
  return .type binder bounded (← g.bounds)

def atPredicatesEnd (t : Lookahead) : Bool :=
  t.isEmpty || t.atGroup .brace || t.atAnyOperator [",", ";", "="] || t.atColon

def whereClause : Parser (List (Listed Predicate)) := do
  unless ← takeName? "where" do return []
  listedItems (sees atPredicatesEnd) g.predicate

def genericTokens : Parser Tokens := do
  return { params := ← g.genericParams : Generics }.declaredParams

def whereTokens : Parser Tokens := do
  return { predicates := ← g.whereClause : Generics }.whereClause

end Grammar

end WireRecord
