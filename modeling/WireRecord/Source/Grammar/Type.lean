import WireRecord.Source.Grammar.Generics

/-!
Types. Where a sum of bounds could be taken for something else, only one bound is read. A type in a
bare group is read by itself, except that a path in one may go on after it.
-/

namespace WireRecord

namespace Grammar

open WireRecord.Parser

variable (g : Grammar)

def convention : Parser Tokens :=
  onlyIf (·.atName "extern")
    (inOrder [keyword "extern", onlyIf Lookahead.atString literal])

/-- Whether a parameter of a function type has a name here. -/
def atParamName (isFirst : Bool) (t : Lookahead) : Bool :=
  (t.atFreeName || t.atName "_" || (isFirst && t.atName "self")) && (t.past 1).atColon

/-- A parameter of a function type without its attributes. A first one that is `mut self` is copied
as it stands. -/
def functionTypeParam (isFirst : Bool) : Parser Tokens := do
  if ← takeOperator? "..." then return [.leaf "..."]
  if ← sees fun t => (t.atFreeName || t.atName "_") && (t.past 1).atColon &&
      (t.past 2).atOperator "..." then
    return ← inOrder [nameTokens, operator ":", operator "..."]
  let before ← ahead
  let named := inOrder [nameTokens, operator ":", g.anyType]
  if ← sees fun t => isFirst && t.atName "mut" && (t.past 1).atName "self" then
    let _ ← keyword "mut"
    let _ ← if ← sees (atParamName isFirst) then named else keyword "self"
    return ← rawSince before
  if ← sees (atParamName isFirst) then named else g.anyType

def functionTypeParams : Parser Tokens := do
  let count := SourceTree.sizeAll (← ahead)
  commas atEnd (do
    let isFirst := SourceTree.sizeAll (← ahead) == count
    inOrder [g.outer, g.functionTypeParam isFirst])

def functionType : Parser Tokens :=
  inOrder [optionalKeyword "unsafe", convention, keyword "fn",
    inGroup .paren g.functionTypeParams, g.result false]

def atFunctionType (t : Lookahead) : Bool := t.atOneOf ["fn", "unsafe", "extern"]

/-- One bound, or a sum of bounds where one may stand. -/
def boundSum (allowSum : Bool) : Parser Tokens := do
  if allowSum then return (← g.bounds).tokens
  else return (← g.bound).tokens

/-- The rest of a sum of bounds after its first bound, or nothing. -/
def sumTail : Parser Tokens :=
  onlyIf (·.atOperator "+") (do return .leaf "+" :: (← (operator "+" *> g.boundSum true)))

def parenType : Parser TypeExpr := do
  if ← atEnd then return .other .tuple [.group .paren []]
  if ← sees (·.atLifetime) then return .paren (.other .traitObject (← g.bounds).tokens)
  if ← sees (·.atOperator "?") then
    return .other .traitObject [.group .paren (← g.bound).tokens]
  let first ← g.type true
  if ← atEnd then return .paren first
  let rest ← inOrder [operator ",", commas atEnd g.anyType]
  return .other .tuple [.group .paren (first.tokens ++ rest)]

def bracketType : Parser TypeExpr := do
  let element ← g.anyType
  if ← atEnd then return .other .slice [.group .bracket element]
  let length ← inOrder [operator ";", g.anyValue]
  return .other .array [.group .bracket (element ++ length)]

/-- A type that begins with a path. After a `for` part it is a sum of bounds. -/
def pathType (allowSum : Bool) (binder : Tokens) : Parser TypeExpr := do
  if ← sees (·.atOperator "<") then
    let self ← g.selfType
    let rest ← g.callSegments (← g.segments false) true
    return .qualified (self ++ Path.tokens { segments := rest })
  let path ← g.callPath true
  if ← sees (callsMacro path) then return .other .macroCall (← macroCall path)
  let more ← if allowSum then g.sumTail else pure []
  if binder.isEmpty && more.isEmpty then return .path path
  return .other .traitObject (binder ++ path.tokens ++ more)

/-- The tokens of a type in parentheses as the first bound of a sum. A bound keeps one pair of
parentheses. -/
def firstBound : TypeExpr → Tokens
  | .paren (.other .traitObject [.group .paren bound]) => [.group .paren bound]
  | type => type.tokens

/-- How arguments are put after the last name of a path, if it has none yet. -/
def argumentSlot? : TypeExpr → Option (Arguments → TypeExpr)
  | .path path =>
    match path.segments.getLast? with
    | some { name, arguments := none } => some fun arguments =>
      .path { path with segments := path.segments.dropLast ++ [{ name, arguments }] }
    | _ => none
  | .qualified tokens =>
    match tokens.getLast? with
    | some (.leaf last) =>
      if last.text == ">" then none
      else some fun arguments => .qualified (tokens ++ arguments.tokens)
    | _ => none
  | _ => none

/-- A type with further segments after it. One that is no path becomes the self type of a path. -/
def withSegments (type : TypeExpr) (more : List PathSegment) : TypeExpr :=
  let rest := Path.tokens { leading := !more.isEmpty, segments := more }
  match type with
  | .path path => .path { path with segments := path.segments ++ more }
  | .qualified tokens => .qualified (tokens ++ rest)
  | other => .qualified (.leaf "<" :: other.tokens ++ .leaf ">" :: rest)

/-- A type in a bare group. A path goes on after the group, and then the group does not count; the
flag says whether it may go on with arguments that have no `::` before them. -/
def groupType (inner : SourceInput) (allowArguments : Bool) : Parser TypeExpr := do
  let type ← within inner (g.type true)
  if ← sees fun t => t.atOperator "::" && (t.past 2).atAnyName then
    return withSegments type (← many (g.furtherSegment? false))
  if ← sees fun t => (allowArguments && t.atOperator "<") ||
      (t.atOperator "::" && (t.past 2).atOperator "<") then
    if let some fill := argumentSlot? type then
      let whole := fill (← g.angleArguments)
      return withSegments whole (← many (g.furtherSegment? false))
  return .group type

def typeRule (allowSum : Bool) : Parser TypeExpr := do
  if let some inner ← takeBareGroup? then return ← g.groupType inner true
  let before ← ahead
  let binder ← g.binder
  if let some inner ← takeGroup? .paren then
    let type ← within inner g.parenType
    let more ← if allowSum then g.sumTail else pure []
    return if more.isEmpty then type else .other .traitObject (firstBound type ++ more)
  if let some inner ← takeGroup? .bracket then return ← within inner g.bracketType
  if ← sees atFunctionType then return .other .function (binder ++ (← g.functionType))
  if ← sees atBuiltin then return .other .verbatim (← builtin)
  if ← takeName? "dyn" then
    let star ← takeOperator? "*"
    let bounds ← g.boundSum allowSum
    if star then return .other .verbatim (← rawSince before)
    return .other .traitObject (.leaf "dyn" :: bounds)
  if ← takeName? "impl" then return .other .implTrait (.leaf "impl" :: (← g.boundSum allowSum))
  if ← takeName? "_" then return .other .inferred [.leaf "_"]
  if ← takeOperator? "*" then
    let access ← if ← sees (·.atName "const") then keyword "const" else keyword "mut"
    return .other .pointer (.leaf "*" :: access ++ (← g.type false).tokens)
  if ← takeOperator? "&" then
    let head ← inOrder [optionalLifetime, optionalKeyword "mut"]
    return .other .reference (.leaf "&" :: head ++ (← g.type false).tokens)
  if ← takeOperator? "!" then return .other .never [.leaf "!"]
  if ← sees (·.atLifetime) then return .other .traitObject (← g.bounds).tokens
  g.pathType allowSum binder

end Grammar

end WireRecord
