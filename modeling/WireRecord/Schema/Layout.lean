import WireRecord.Schema.Classification
import WireRecord.Schema.Declaration

/-!
Layouts: the members of a record that are encoded, in the order of their declaration, and the size
of the record as a sum over them.
-/

namespace WireRecord

structure IncludedMember where
  classification : Classification
  name : MemberName
  type : TypeExpr
  /-- The byte order asked for; one-byte and nested members ignore it. -/
  order : ByteOrder
  /-- The place among all members of the record. -/
  index : Nat

structure Layout where
  members : List IncludedMember := []

inductive SizeTerm where
  | primitive (kind : Kind) (type : TypeExpr)
  | nested (type : TypeExpr)

namespace SizeTerm

/-- The type that an addend is about. -/
def type : SizeTerm → TypeExpr
  | primitive _ type => type
  | nested type => type

/-- The value of an addend, where it is known without looking at another record. -/
def constant? : SizeTerm → Option Nat
  | primitive kind _ => kind.wireWidth
  | nested _ => none

end SizeTerm

/-- What a member adds to the size of its record. -/
def IncludedMember.sizeTerm (m : IncludedMember) : SizeTerm :=
  if m.classification.isPrimitive then .primitive m.classification.kind m.type else .nested m.type

/-- The sum of addends, if all of them are known. -/
def SizeTerm.total? : List SizeTerm → Option Nat
  | [] => some 0
  | term :: rest =>
    match term.constant?, total? rest with
    | some width, some total => some (width + total)
    | _, _ => none

/-- The size of a record as a sum over its encoded members. -/
def Layout.sizeTerms (l : Layout) : List SizeTerm := l.members.map IncludedMember.sizeTerm

end WireRecord
