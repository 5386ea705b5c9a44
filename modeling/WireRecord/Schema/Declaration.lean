import WireRecord.Generics
import WireRecord.Record.Value

/-!
Declarations of records: what a record is called, where it stands, and which members it has. A
marked member takes part in the encoding; its marker carries options.
-/

namespace WireRecord

/-- How a record is built from its members. -/
inductive RecordForm where
  | named
  | tuple
  | unit
  deriving DecidableEq, Repr

structure Parent where
  name : String
  /-- Whether code may be added to it. -/
  augmentable : Bool

structure Descriptor where
  name : String
  generics : Generics := {}
  form : RecordForm := .named
  /-- Whether code may be added to the record. -/
  augmentable : Bool := true
  instantiable : Bool := true
  parents : List Parent := []

/-- The name of a record with the names of its enclosing types before it. -/
abbrev QualifiedName := List String

def QualifiedName.text (name : QualifiedName) : String := "::".intercalate name

namespace Descriptor

/-- The names of the enclosing types, outermost first, and of the record itself. -/
def qualifiedName (d : Descriptor) : QualifiedName := d.parents.map Parent.name ++ [d.name]

/-- Whether a type names this record as `Self`, by its name, or by its name after `self`. Any other
path may lead to another type of the same name. -/
def isOwnType (d : Descriptor) (type : TypeExpr) : Bool :=
  match type.path? with
  | some ⟨false, segments⟩ =>
    match segments.map PathSegment.name with
    | [name] => name == "Self" || name == d.name
    | [module, name] => module == "self" && name == d.name
    | _ => false
  | _ => false

end Descriptor

inductive Access where
  | field
  | property (indexer readable writable : Bool)
  deriving DecidableEq, Repr

structure MarkerOption where
  name : String
  value : ValueExpr

structure Member where
  name : MemberName
  type : TypeExpr
  access : Access := .field
  /-- The options of the marker, if the member is marked. -/
  marker : Option (List MarkerOption) := none

/-- Whether a member takes part in the encoding. -/
def Member.isIncluded (m : Member) : Bool := m.marker.isSome

structure Declaration where
  descriptor : Descriptor
  /-- The members in the order of their declaration. -/
  members : List Member := []

/-- The qualified name of a declared record. -/
def Declaration.name (d : Declaration) : QualifiedName := d.descriptor.qualifiedName

end WireRecord
