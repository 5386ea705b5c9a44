import WireRecord.Primitive

/-!
Record values and their shapes. A value of a record is a list of named members, each a primitive or
a record again; a shape says which members there are and is enough to make the starting value.
-/

namespace WireRecord

/-- How a record refers to a member: by name, or by position. -/
inductive MemberName where
  | named (text : String)
  | index (position : Nat)
  deriving DecidableEq, Repr

def MemberName.text : MemberName → String
  | named text => text
  | index position => toString position

inductive Value where
  | scalar (v : Scalar)
  | record (members : List (MemberName × Value))

inductive Shape where
  | scalar (p : Primitive)
  | record (members : List (MemberName × Shape))

namespace Value

def member? (name : MemberName) : Value → Option Value
  | scalar _ => none
  | record members => (members.find? fun m => m.1 == name).map Prod.snd

def scalar? : Value → Option Scalar
  | scalar v => some v
  | record _ => none

end Value

namespace Shape

mutual

/-- The value that a shape starts from: every primitive is zero. -/
def zero : Shape → Value
  | scalar p => .scalar p.zero
  | record members => .record (zeroMembers members)

/-- The members that a record of the given members starts from. -/
def zeroMembers : List (MemberName × Shape) → List (MemberName × Value)
  | [] => []
  | (name, shape) :: rest => (name, shape.zero) :: zeroMembers rest

end

mutual

def admits : Shape → Value → Bool
  | scalar p, .scalar v => v.primitive == p
  | record shapes, .record members => admitsMembers shapes members
  | _, _ => false

/-- Whether members have the given names and shapes, in order. -/
def admitsMembers : List (MemberName × Shape) → List (MemberName × Value) → Bool
  | [], [] => true
  | (name, shape) :: shapes, (name', value) :: members =>
    name == name' && shape.admits value && admitsMembers shapes members
  | _, _ => false

end

end Shape

end WireRecord
