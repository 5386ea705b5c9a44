import WireRecord.Codec.Procedures
import WireRecord.Token.Template

/-!
The code text of emitted procedures. Every procedure is a template; the supporting library is named
through the hole only, so one template serves whatever path leads to the library.
-/

namespace WireRecord

open Template (words hole paren bracket brace)

namespace Template

/-- The path of an item of the supporting library. -/
def item (name : String) : Template := hole ++ words ["::", name]

/-- An item of a trait as implemented for a type: `<type as trait>::constant`. -/
def associated (type : Template) (trait constant : String) : Template :=
  words ["<"] ++ type ++ words ["as"] ++ item trait ++ words [">", "::", constant]

/-- An item of the contract as implemented for a type. -/
def contract (type : Template) (name : String) : Template :=
  associated type "BinaryStructurable" name

/-- The contract as implemented for the record itself. -/
def ofSelf (name : String) : Template := contract (words ["Self"]) name

/-- The block that gives up a write. -/
def orFalse : Template := brace (words ["return", "false", ";"])

def absent : Template := words ["::", "core", "::", "option", "::", "Option", "::", "None"]

/-- The block that gives up a read. -/
def orAbsent : Template := brace (words ["return"] ++ absent ++ words [";"])

def optionalSelf : Template :=
  words ["::", "core", "::", "option", "::", "Option", "<", "Self", ">"]

end Template

open Template

/-- A type as copied into a template. -/
def TypeExpr.template (type : TypeExpr) : Template := type.tokens.copied

/-- A member name as copied into a template. -/
def MemberName.template (name : MemberName) : Template := [.leaf (.copied name.text)]

def Local.template (l : Local) : Template := words [l.name]

def constructorName : String := "__binary_structurable_new"

/-- The ending of the name of a cursor method. -/
def Encoding.suffix : Encoding → String
  | byte => "byte"
  | ordered .little => "little"
  | ordered .big => "big"

def SizeTerm.template : SizeTerm → Template
  | primitive _ type => associated type.template "Primitive" "WIDTH"
  | nested type => contract type.template "BINARY_SIZE"

/-- The sum of addends; the empty sum is written as a number. -/
def SizeTerm.sumTemplate (terms : List SizeTerm) : Template :=
  if terms.isEmpty then words ["0usize"] else separated "+" (terms.map SizeTerm.template)

def sizeTemplate (terms : List SizeTerm) : Template :=
  words ["const", "BINARY_SIZE", ":", "usize", "="] ++ SizeTerm.sumTemplate terms ++ words [";"]

def Init.template : Init → Template
  | argument source => source.template
  | default _ => words ["::", "core", "::", "default", "::", "Default", "::", "default"] ++ paren []

namespace Constructor

def body (c : Constructor) : Template :=
  match c.form with
  | .named =>
    words ["Self"] ++ brace (separated "," (c.inits.map fun (name, init) =>
      name.template ++ words [":"] ++ init.template))
  | .tuple => words ["Self"] ++ paren (separated "," (c.inits.map fun (_, init) => init.template))
  | .unit => words ["Self"]

def template (c : Constructor) : Template :=
  words ["#"] ++ bracket (words ["doc"] ++ paren (words ["hidden"])) ++
  words ["#"] ++ bracket (words ["inline"]) ++
  words ["#"] ++ bracket (words ["allow"] ++
    paren (words ["clippy", "::", "too_many_arguments"])) ++
  words ["fn", constructorName] ++
  paren (separated "," (c.parameters.map fun (l, type) =>
    l.template ++ words [":"] ++ type.template)) ++
  words ["->", "Self"] ++ brace c.body

end Constructor

/-- The definition of the procedure that writes into a sink. -/
def writeToTemplate : Template :=
  words ["fn", "try_write_to", "<", "__W", ":"] ++ item "BufferWriter" ++
  words ["+", "?", "Sized", ">"] ++
  paren (words ["&", "self", ",", "writer", ":", "&", "mut", "__W"]) ++ words ["->", "bool"] ++
  brace (
    words ["let", "size", "="] ++ ofSelf "BINARY_SIZE" ++ words [";"] ++
    words ["let", "span", "=", "match"] ++ item "BufferWriter" ++ words ["::", "get_span"] ++
    paren (words ["&", "mut", "*", "writer", ",", "size"]) ++
    brace (
      words ["::", "core", "::", "result", "::", "Result", "::", "Ok"] ++ paren (words ["span"]) ++
      words ["=>", "span", ","] ++
      words ["::", "core", "::", "result", "::", "Result", "::", "Err"] ++ paren (words ["_"]) ++
      words ["=>", "return", "false", ","]) ++
    words [";"] ++
    words ["if", "!"] ++ ofSelf "try_write" ++ paren (words ["self", ",", "span"]) ++ orFalse ++
    item "BufferWriter" ++ words ["::", "advance"] ++
    paren (words ["&", "mut", "*", "writer", ",", "size"]) ++ words [";"] ++
    words ["true"])

def WriteOp.template : WriteOp → Template
  | scalar member encoding =>
    words ["if", "!", "writer", ".", "write_" ++ encoding.suffix] ++
    paren (words ["self", "."] ++ member.template) ++ orFalse
  | nested member type =>
    words ["if", "!"] ++ item "BinaryStructurable" ++ words ["::", "try_write"] ++
    paren (words ["&", "self", "."] ++ member.template ++
      words [",", "writer", ".", "remaining_mut"] ++ paren []) ++ orFalse ++
    words ["if", "!", "writer", ".", "advance"] ++
    paren (contract type.template "BINARY_SIZE") ++ orFalse

/-- The start of a cursor over `buffer`, which a record without encoded members does not need. -/
def cursorTemplate (name cursor : String) (needed : Bool) : Template :=
  if needed then
    words ["let", "mut", name, "="] ++ item cursor ++ words ["::", "new"] ++
    paren (words ["buffer"]) ++ words [";"]
  else []

def writeTemplate (ops : List WriteOp) : Template :=
  words ["fn", "try_write"] ++
  paren (words ["&", "self", ",", "buffer", ":", "&", "mut"] ++ bracket (words ["u8"])) ++
  words ["->", "bool"] ++
  brace (
    words ["if", "buffer", ".", "len"] ++ paren [] ++ words ["<"] ++ ofSelf "BINARY_SIZE" ++
    orFalse ++
    cursorTemplate "writer" "ByteWriter" (!ops.isEmpty) ++
    ops.flatMap WriteOp.template ++
    words ["true"])

inductive ReadOrigin where
  | slice | sequence
  deriving DecidableEq, Repr

/-- The expression by which a nested type reads itself. -/
def ReadOrigin.nested (origin : ReadOrigin) (type : TypeExpr) : Template :=
  match origin with
  | slice =>
    contract type.template "try_read" ++
    paren (words ["reader", ".", "remaining"] ++ paren []) ++ words ["?"]
  | sequence =>
    contract type.template "try_read_sequence" ++
    paren (words ["buffer", ".", "slice"] ++
      paren (words ["reader", ".", "position"] ++ paren [])) ++ words ["?"]

def ReadOp.template (origin : ReadOrigin) : ReadOp → Template
  | scalar target type encoding =>
    words ["let"] ++ target.template ++ words [":"] ++ type.template ++
    words ["=", "reader", ".", "read_" ++ encoding.suffix] ++ paren [] ++ words ["?", ";"]
  | nested target type =>
    words ["let"] ++ target.template ++ words [":"] ++ type.template ++ words ["="] ++
    origin.nested type ++ words [";"] ++
    words ["if", "!", "reader", ".", "advance"] ++
    paren (contract type.template "BINARY_SIZE") ++ orAbsent

namespace ReadProcedure

/-- The expression that builds the record from the local variables. -/
def build (p : ReadProcedure) : Template :=
  words ["::", "core", "::", "option", "::", "Option", "::", "Some"] ++
  paren (words ["Self", "::", constructorName] ++
    paren (separated "," (p.arguments.map Local.template)))

/-- The operations of a read procedure between the checks of the size and the result. -/
def steps (p : ReadProcedure) (origin : ReadOrigin) (cursor : String) : Template :=
  cursorTemplate "reader" cursor (!p.ops.isEmpty) ++ p.ops.flatMap (ReadOp.template origin) ++
    p.build

/-- The definition of the procedure that reads from a buffer. -/
def template (p : ReadProcedure) : Template :=
  words ["fn", "try_read"] ++
  paren (words ["buffer", ":", "&"] ++ bracket (words ["u8"])) ++ words ["->"] ++ optionalSelf ++
  brace (
    words ["if", "buffer", ".", "len"] ++ paren [] ++ words ["<"] ++ ofSelf "BINARY_SIZE" ++
    orAbsent ++
    p.steps .slice "ByteReader")

/-- The definition of the procedure that reads from a sequence. -/
def sequenceTemplate (p : ReadProcedure) : Template :=
  words ["fn", "try_read_sequence"] ++
  paren (words ["buffer", ":"] ++ item "ByteSequence" ++ words ["<", "'_", ">", ","]) ++
  words ["->"] ++ optionalSelf ++
  brace (
    words ["let", "size", "="] ++ ofSelf "BINARY_SIZE" ++ words [";"] ++
    words ["if", "buffer", ".", "is_single_segment"] ++ paren [] ++
    words ["||", "buffer", ".", "first_segment"] ++ paren [] ++ words [".", "len"] ++ paren [] ++
    words [">=", "size"] ++
    brace (words ["return"] ++ ofSelf "try_read" ++
      paren (words ["buffer", ".", "first_segment"] ++ paren []) ++ words [";"]) ++
    words ["if", "buffer", ".", "len"] ++ paren [] ++ words ["<", "size"] ++ orAbsent ++
    p.steps .sequence "SequenceReader")

end ReadProcedure

/-- The six definitions emitted for a record. -/
structure ProcedureTemplates where
  size : Template
  constructor : Template
  writeTo : Template
  write : Template
  read : Template
  readSequence : Template

def Procedures.templates (p : Procedures) : ProcedureTemplates where
  size := sizeTemplate p.size
  constructor := p.constructor.template
  writeTo := writeToTemplate
  write := writeTemplate p.write
  read := p.read.template
  readSequence := p.readSequence.sequenceTemplate

/-- All that is emitted for a record: its constructor, and its implementation of the contract. -/
def Codec.template (c : Codec) : Template :=
  let t := c.procedures.templates
  let subject : Template :=
    [.leaf (.copied c.descriptor.name)] ++ c.descriptor.generics.typeArguments.copied ++
      c.descriptor.generics.whereClause.copied
  let params := c.descriptor.generics.implParams.copied
  words ["impl"] ++ params ++ subject ++ brace t.constructor ++
  words ["impl"] ++ params ++ item "BinaryStructurable" ++ words ["for"] ++ subject ++
  brace (t.size ++ t.writeTo ++ t.write ++ t.read ++ t.readSequence)

/-- The emitted code, with the path that leads to the supporting library. -/
def Codec.tokens (c : Codec) (runtime : Path) : Tokens := c.template.fill runtime.tokens

end WireRecord
