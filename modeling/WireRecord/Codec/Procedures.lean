import WireRecord.Schema.Layout

/-!
The procedures emitted for a record, as data: what is summed for the size, what the constructor
takes, and the operations of one write and two reads. Each operation is about one encoded member,
and the operations stand in the order of the layout.
-/

namespace WireRecord

/-- The local variable that holds the member at an index among all members of a record. -/
structure Local where
  index : Nat
  deriving DecidableEq, Repr

def Local.name (l : Local) : String := "__member_" ++ toString l.index

inductive WriteOp where
  | scalar (member : MemberName) (encoding : Encoding)
  /-- Lets a member of a nested type write itself, then moves past it. -/
  | nested (member : MemberName) (type : TypeExpr)

inductive ReadOp where
  /-- Reads a primitive into a local variable. -/
  | scalar (target : Local) (type : TypeExpr) (encoding : Encoding)
  /-- Lets a nested type read itself into a local variable, then moves past it. -/
  | nested (target : Local) (type : TypeExpr)

/-- What a member is set to by the constructor. -/
inductive Init where
  | argument (source : Local)
  /-- The starting value of a type. -/
  | default (type : TypeExpr)

/-- The constructor: its parameters, and what every member is set to. -/
structure Constructor where
  parameters : List (Local × TypeExpr)
  form : RecordForm
  inits : List (MemberName × Init)

/-- A read procedure: its operations, and the arguments that it builds the record from. -/
structure ReadProcedure where
  ops : List ReadOp
  arguments : List Local

/-- The procedures of a record. Writing into a sink needs nothing but them, and is the same for all
records. -/
structure Procedures where
  size : List SizeTerm
  constructor : Constructor
  write : List WriteOp
  read : ReadProcedure
  readSequence : ReadProcedure

namespace IncludedMember

def target (m : IncludedMember) : Local := ⟨m.index⟩

/-- How a primitive member is encoded: one-byte members ignore the byte order. -/
def encoding (m : IncludedMember) : Encoding :=
  if m.classification.isSingleByte then .byte else .ordered m.order

def writeOp (m : IncludedMember) : WriteOp :=
  if m.classification.isPrimitive then .scalar m.name m.encoding else .nested m.name m.type

def readOp (m : IncludedMember) : ReadOp :=
  if m.classification.isPrimitive then .scalar m.target m.type m.encoding
  else .nested m.target m.type

end IncludedMember

namespace Layout

/-- Whether the member at an index is encoded. -/
def includes (l : Layout) (index : Nat) : Bool := l.members.any fun m => m.index == index

/-- What the constructor sets a member to. A stored member that is not encoded gets its starting
value; accessors that are not encoded are left alone. -/
def init? (l : Layout) (m : Member) (index : Nat) : Option (MemberName × Init) :=
  if l.includes index then some (m.name, .argument ⟨index⟩)
  else if m.access = .field then some (m.name, .default m.type)
  else none

/-- The constructor of a record with this layout. -/
def constructor (l : Layout) (d : Declaration) : Constructor where
  parameters := l.members.map fun m => (m.target, m.type)
  form := d.descriptor.form
  inits := d.members.zipIdx.filterMap fun (m, index) => l.init? m index

/-- The read procedure of a record with this layout. -/
def readProcedure (l : Layout) : ReadProcedure where
  ops := l.members.map IncludedMember.readOp
  arguments := l.members.map IncludedMember.target

/-- The procedures of a record with this layout. -/
def procedures (l : Layout) (d : Declaration) : Procedures where
  size := l.sizeTerms
  constructor := l.constructor d
  write := l.members.map IncludedMember.writeOp
  read := l.readProcedure
  readSequence := l.readProcedure

end Layout

/-- All that is emitted for a record. -/
structure Codec where
  descriptor : Descriptor
  layout : Layout
  procedures : Procedures

/-- Emits the codec of a record with a layout. -/
def Declaration.emit (d : Declaration) (layout : Layout) : Codec where
  descriptor := d.descriptor
  layout := layout
  procedures := layout.procedures d

end WireRecord
