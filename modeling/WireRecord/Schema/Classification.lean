import WireRecord.Schema.Kind
import WireRecord.TypeExpr

/-!
Classification of member types. It never fails: what a type is by itself is read off its path, and
what only the surroundings know is asked of an oracle.
-/

namespace WireRecord

/-- What the surroundings know about types other than the record at hand. -/
structure TypeOracle where
  /-- The type carries the mark of a record. -/
  isMarked : TypeExpr → Bool
  /-- The type implements the contract by itself. -/
  isImplemented : TypeExpr → Bool
  /-- The mark of a record can be resolved at all. -/
  markResolved : Bool := true

/-- Types known by the last name of their path. -/
structure KnownTypes where
  marked : List String := []
  implemented : List String := []
  markResolved : Bool := true

namespace TypeExpr

/-- The name under which a type is known: the last one of its path. -/
def key? (type : TypeExpr) : Option String := type.path?.bind Path.last?

/-- Whether the type, groupings aside, is a path of any sort. -/
def isPath (type : TypeExpr) : Bool :=
  match type.peel with
  | .path _ | .qualified _ => true
  | _ => false

/-- Whether a member of the type holds its value itself. -/
def isByValue (type : TypeExpr) : Bool :=
  match type.peel with
  | .other form _ =>
    !([.reference, .pointer, .traitObject, .implTrait, .slice, .function].contains form)
  | _ => true

end TypeExpr

namespace Path

/-- The name that stands where a primitive is named: alone, or after `core::primitive` or
`std::primitive`, and without generic arguments anywhere. -/
def primitiveName? (p : Path) : Option String :=
  if p.segments.any PathSegment.hasArguments then none
  else match p.names with
    | [name] => if p.leading then none else some name
    | [root, module, name] =>
      if (root == "core" || root == "std") && module == "primitive" then some name else none
    | _ => none

end Path

namespace TypeExpr

def kind (type : TypeExpr) : Kind :=
  ((type.path?.bind Path.primitiveName?).bind Kind.ofName?).getD .userDefined

/-- The text by which messages refer to a type. -/
def display (type : TypeExpr) : String := type.peel.tokens.compact

end TypeExpr

def KnownTypes.oracle (k : KnownTypes) : TypeOracle where
  isMarked := fun type => type.key?.any k.marked.contains
  isImplemented := fun type => type.key?.any k.implemented.contains
  markResolved := k.markResolved

/-- What is known about the type of a member. -/
structure Classification where
  kind : Kind
  display : String
  /-- A user-defined type that can be nested as a record. -/
  isComposite : Bool
  isByValue : Bool

namespace Classification

def isPrimitive (c : Classification) : Bool := c.kind.isPrimitive

def isSingleByte (c : Classification) : Bool := c.kind.isSingleByte

def isNativeWidth (c : Classification) : Bool := c.kind.isNativeWidth

/-- Whether a member of the type can be encoded at all. -/
def isCompatible (c : Classification) : Bool := c.isPrimitive || c.isComposite

end Classification

/-- Classifies a type. The oracle sees user-defined paths only, and sees them without groupings. -/
def TypeExpr.classify (type : TypeExpr) (oracle : TypeOracle) : Classification where
  kind := type.kind
  display := type.display
  isComposite := type.kind == .userDefined && type.isPath &&
    (oracle.isMarked type.peel || oracle.isImplemented type.peel)
  isByValue := type.isByValue

end WireRecord
