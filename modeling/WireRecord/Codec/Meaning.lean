import WireRecord.Codec.Procedures
import WireRecord.Cursor.Writer
import WireRecord.Record.RecordType

/-!
What emitted procedures do when they run. The environment says what the types named by a record
stand for; given one, the procedures of a record make a record type, which can be nested again.
-/

namespace WireRecord

/-- What a type stands for. It is asked about types that are not primitive. -/
abbrev Environment := TypeExpr → RecordType

/-- The shape of the values of a type. -/
def TypeExpr.shape (type : TypeExpr) (env : Environment) : Shape :=
  match type.kind.primitive? with
  | some p => .scalar p
  | none => (env type).shape

/-- The value that a member of a type starts from when it is not read. -/
def TypeExpr.initial (type : TypeExpr) (env : Environment) : Value :=
  match type.kind.primitive? with
  | some p => .scalar p.zero
  | none => (env type).initial

/-- The value of an addend of a size. -/
def SizeTerm.value (env : Environment) : SizeTerm → Nat
  | primitive _ type => (type.kind.primitive?.map Primitive.width).getD 0
  | nested type => (env type).size

namespace WriteOp

/-- Runs a write operation for `self`: whether it succeeded, and the cursor afterwards. A nested
write that fails may have changed the buffer. -/
def run (env : Environment) (self : Value) (op : WriteOp) (w : Writer) : Bool × Writer :=
  match op with
  | scalar member encoding =>
    match (self.member? member).bind Value.scalar? with
    | none => (false, w)
    | some v =>
      match w.put v encoding with
      | some w' => (true, w')
      | none => (false, w)
  | nested member type =>
    match self.member? member with
    | none => (false, w)
    | some v =>
      let (done, tail) := (env type).write v w.tail
      let w := w.fill tail
      if done then
        match w.advance (env type).size with
        | some w' => (true, w')
        | none => (false, w)
      else (false, w)

/-- Runs write operations in order, up to the first that fails. -/
def runAll (env : Environment) (self : Value) : List WriteOp → Writer → Bool × Writer
  | [], w => (true, w)
  | op :: rest, w =>
    match op.run env self w with
    | (true, w') => runAll env self rest w'
    | (false, w') => (false, w')

end WriteOp

/-- A read cursor from which a nested type can read itself. -/
class RecordCursor (ρ : Type) extends ReadCursor ρ where
  /-- Reads a value where the cursor stands, without moving it. -/
  nested : RecordType → ρ → Option Value

instance : RecordCursor Reader where
  nested t r := t.read r.unread

instance : RecordCursor SegmentReader where
  nested t r := t.readSequence (r.sequence.slice r.position)

/-- The values of local variables, the one bound last first. -/
abbrev Locals := List (Local × Value)

namespace ReadOp

variable {ρ : Type} [RecordCursor ρ]

/-- Runs a read operation: the cursor and the local variables afterwards, if it succeeds. -/
def run (env : Environment) (op : ReadOp) (r : ρ) (locals : Locals) : Option (ρ × Locals) :=
  match op with
  | scalar target type encoding => do
    let p ← type.kind.primitive?
    let (v, r) ← ReadCursor.get r p encoding
    return (r, (target, .scalar v) :: locals)
  | nested target type => do
    let v ← RecordCursor.nested (env type) r
    let r ← ReadCursor.advance r (env type).size
    return (r, (target, v) :: locals)

/-- Runs read operations in order: the cursor and the local variables afterwards, if all of them
succeed. -/
def runAll (env : Environment) : List ReadOp → ρ → Locals → Option (ρ × Locals)
  | [], r, locals => some (r, locals)
  | op :: rest, r, locals => (op.run env r locals).bind fun (r, locals) => runAll env rest r locals

end ReadOp

namespace Constructor

/-- The type of the member that is set by `init`. -/
def typeOf (c : Constructor) : Init → Option TypeExpr
  | .argument source => c.parameters.lookup source
  | .default type => some type

/-- The shape of the records that a constructor builds. -/
def shape (c : Constructor) (env : Environment) : Shape :=
  .record (c.inits.filterMap fun (name, init) =>
    (c.typeOf init).map fun type => (name, type.shape env))

/-- The value that a member is set to, given the arguments. -/
def initValue (c : Constructor) (env : Environment) (arguments : List Value) :
    Init → Option Value
  | .argument source => ((c.parameters.map Prod.fst).zip arguments).lookup source
  | .default type => some (type.initial env)

def apply (c : Constructor) (env : Environment) (arguments : List Value) : Value :=
  .record (c.inits.filterMap fun (name, init) =>
    (c.initValue env arguments init).map fun v => (name, v))

end Constructor

namespace Procedures

def sizeIn (p : Procedures) (env : Environment) : Nat :=
  (p.size.map (SizeTerm.value env)).foldr (· + ·) 0

def runWrite (p : Procedures) (env : Environment) (self : Value) (buffer : Bytes) : Bool × Bytes :=
  if buffer.length < p.sizeIn env then (false, buffer)
  else
    let (done, w) := WriteOp.runAll env self p.write (Writer.start buffer)
    (done, w.buffer)

/-- Runs the operations of a read procedure from a cursor, and builds the record. -/
def runReads {ρ : Type} [RecordCursor ρ] (p : Procedures) (env : Environment)
    (procedure : ReadProcedure) (r : ρ) : Option Value := do
  let (_, locals) ← ReadOp.runAll env procedure.ops r []
  let arguments ← procedure.arguments.mapM fun l => locals.lookup l
  return p.constructor.apply env arguments

/-- Runs the procedure that reads from a buffer. -/
def runRead (p : Procedures) (env : Environment) (buffer : Bytes) : Option Value :=
  if buffer.length < p.sizeIn env then none else p.runReads env p.read (Reader.start buffer)

/-- Runs the procedure that reads from a sequence. A sequence whose first segment holds all that is
needed is read as a buffer. -/
def runReadSequence (p : Procedures) (env : Environment) (buffer : Segments) : Option Value :=
  if buffer.isSingle || p.sizeIn env ≤ buffer.first.length then p.runRead env buffer.first
  else if buffer.length < p.sizeIn env then none
  else p.runReads env p.readSequence (SegmentReader.start buffer)

/-- The record type that the procedures implement. -/
def recordType (p : Procedures) (env : Environment) : RecordType where
  shape := p.constructor.shape env
  size := p.sizeIn env
  write := p.runWrite env
  read := p.runRead env
  readSequence := p.runReadSequence env

end Procedures

/-- The record type that a codec implements. -/
def Codec.recordType (c : Codec) (env : Environment) : RecordType := c.procedures.recordType env

end WireRecord
