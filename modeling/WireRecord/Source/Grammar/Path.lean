import WireRecord.Source.Grammar

/-!
Paths with their generic arguments. In a value, arguments stand after `::` only; in a type or a
bound the last segment may be a function trait with its parameters.
-/

namespace WireRecord

namespace Grammar

open WireRecord.Parser

def bareSegments : List String := ["super", "self", "crate", "try"]

/-- Whether generic arguments come next; the flag says whether they stand in a value. -/
def atArguments (inValue : Bool) (t : Lookahead) : Bool :=
  (!inValue && t.atShort "<" ["<="]) || (t.atOperator "::" && (t.past 2).atOperator "<")

/-- Whether the parenthesized arguments of a function trait come next, perhaps after `::`. -/
def atParenthesized (t : Lookahead) : Bool :=
  t.atGroup .paren || (t.atOperator "::" && (t.past 2).atGroup .paren)

def atFurtherSegment (t : Lookahead) : Bool := t.atOperator "::" && !(t.past 2).atGroup .paren

variable (g : Grammar)

/-- A generic argument that is a value: a literal or a block. -/
def constArgument : Parser Tokens := do
  if ← sees (·.atLiteral) then literal else g.block

/-- Whether a generic argument that is a value comes next. -/
def atConstArgument (t : Lookahead) : Bool := t.atLiteral || t.atGroup .brace

/-- Whether a type is one name, perhaps with arguments in angle brackets. -/
def isAssociatedName : TypeExpr → Bool
  | .path { leading := false, segments := [_] } => true
  | _ => false

/-- A generic argument: whether it is a lifetime, and its tokens. -/
def genericArgument : Parser (Bool × Tokens) := do
  if ← sees fun t => t.atLifetime && !(t.past 1).atOperator "+" then
    return (true, [.leaf (← lifetime)])
  if ← sees atConstArgument then return (false, ← g.constArgument)
  let head ← g.type true
  unless isAssociatedName head do return (false, head.tokens)
  if ← takeOperator? "=" then
    let value ← if ← sees atConstArgument then g.constArgument else g.anyType
    return (false, head.tokens ++ .leaf "=" :: value)
  if ← takeOperator? ":" then
    return (false, head.tokens ++ .leaf ":" :: (← g.bounds).tokens)
  return (false, head.tokens)

/-- Items in angle brackets. Lifetimes are moved to the front. -/
def angled (item : Parser (Bool × Tokens)) : Parser Arguments := do
  takeOperator "<"
  let items ← listed (atOperator ">") item
  takeOperator ">"
  let items := items.map fun (item, comma) => Listed.mk item comma
  return {
    tokens := .leaf "<" :: Listed.tokensFirst Prod.fst Prod.snd items ++ [.leaf ">"]
    isEmpty := items.isEmpty }

def angleArguments : Parser Arguments := do
  let colons ← optionalOperator "::"
  let arguments ← angled g.genericArgument
  return { arguments with tokens := colons ++ arguments.tokens }

/-- The name of a segment. A keyword is one only if it stands in paths. -/
def segmentName : Parser String := do
  match ← peek? with
  | some (.name text _) =>
    if ← sees fun t => t.atFreeName || t.atOneOf ("try" :: Lookahead.pathKeywords) then anyName
    else fail s!"expected identifier, found keyword `{text}`"
  | _ => anyName

def segment (inValue : Bool) : Parser PathSegment := do
  let name ← segmentName
  if !bareSegments.contains name && (← sees (atArguments inValue)) then
    return { name, arguments := some (← g.angleArguments) }
  return { name }

/-- A further segment of a path, if one comes next. -/
def furtherSegment? (inValue : Bool) : Parser (Option PathSegment) := do
  unless ← sees atFurtherSegment do return none
  takeOperator "::"
  return some (← g.segment inValue)

def segments (inValue : Bool) : Parser (List PathSegment) := do
  return (← g.segment inValue) :: (← many (g.furtherSegment? inValue))

/-- A path; the flag says whether it stands in a value. -/
def path (inValue : Bool) : Parser Path := do
  return { leading := ← takeOperator? "::", segments := ← g.segments inValue }

/-- The qualified self type of a path, up to the `::` after it. -/
def selfType : Parser Tokens := do
  takeOperator "<"
  let self ← g.anyType
  let trait ← if ← takeName? "as" then do pure (.leaf "as" :: (← g.path false).tokens)
    else pure []
  takeOperator ">"
  takeOperator "::"
  return .leaf "<" :: self ++ trait ++ [.leaf ">", .leaf "::"]

/-- The result type of a function after its parameters, or nothing; the flag says whether it may be
a sum of bounds. -/
def result? (allowSum : Bool) : Parser (Option TypeExpr) := do
  unless ← takeOperator? "->" do return none
  return some (← g.type allowSum)

def resultTokens : Option TypeExpr → Tokens
  | some type => .leaf "->" :: type.tokens
  | none => []

def result (allowSum : Bool) : Parser Tokens := do return resultTokens (← g.result? allowSum)

/-- Whether segments may follow the arguments of a function trait with a given result type. -/
def mayGoOn : Option TypeExpr → Bool
  | none | some (.paren _) => true
  | _ => false

/-- Segments of which the last may be a function trait with its arguments; the flag says whether
segments may follow them. -/
def callSegments (start : List PathSegment) (goesOn : Bool) : Parser (List PathSegment) := do
  match start.getLast? with
  | none => return start
  | some last =>
    if last.hasArguments || !(← sees atParenthesized) then return start
    let _ ← takeOperator? "::"
    let inputs ← inGroup .paren (commas atEnd g.anyType)
    let output ← g.result? false
    let arguments := { tokens := inputs ++ resultTokens output, isEmpty := false }
    let more ← if goesOn && mayGoOn output then many (g.furtherSegment? false) else pure []
    return start.dropLast ++ { last with arguments := some arguments } :: more

/-- A path in a type or a bound, which may be a function trait with its arguments. -/
def callPath (goesOn : Bool) : Parser Path := do
  let path ← g.path false
  return { path with segments := ← g.callSegments path.segments goesOn }

def macroCall (path : Path) : Parser Tokens := do
  return path.tokens ++ (← inOrder [operator "!", rawGroup])

/-- Whether a path that has been read names a macro that is called here. -/
def callsMacro (path : Path) (t : Lookahead) : Bool :=
  t.atCallMark && path.segments.all fun segment => segment.arguments.isNone

end Grammar

end WireRecord
