import WireRecord.Codec.Compilation
import WireRecord.Codec.Rendering
import WireRecord.Derive.Marker
import WireRecord.Derive.Oracle

/-!
The expansion of a derive: from a declaration in source text to the code emitted for it, or to
errors that point into the text.
-/

namespace WireRecord

/-- How many fields without a name can be counted: a position has 32 bits. -/
def positionLimit : Nat := UInt32.size

structure MarkedField where
  field : Field
  marker : Option FieldMarker

structure MarkedItem where
  item : Item
  form : RecordForm
  fields : List MarkedField

namespace ItemBody

def fields? : ItemBody → Option (RecordForm × List Field)
  | named fields => some (.named, fields.map Listed.item)
  | tuple fields => some (.tuple, fields.map Listed.item)
  | unit => some (.unit, [])
  | unsupported => none

end ItemBody

namespace Field

/-- Whether a field has no name and stands at an index that cannot be counted. -/
def exceeds (f : Field) (index : Nat) : Bool := f.name.isNone && positionLimit ≤ index

/-- What is reported of a field that stands too far behind. -/
def tooMany (f : Field) : SourceError := { message := "too many fields", place := f.place }

/-- Reads the marker of the field at an index. -/
def readAt (f : Field) (index : Nat) : Except SourceError MarkedField := do
  if f.exceeds index then throw f.tooMany
  return { field := f, marker := ← fieldMarker? f.attributes }

end Field

namespace Item

/-- Reads the markers of all fields, up to the first error. -/
def marked (item : Item) : Except SourceError MarkedItem :=
  match item.body.fields? with
  | none =>
    .error { message := s!"{contractName} derive only supports structs", place := item.place }
  | some (form, fields) => do
    let fields ← fields.zipIdx.mapM fun (f, index) => f.readAt index
    return { item, form, fields }

end Item

namespace MarkedField

/-- The member that a field declares. A field without a name is called by its position. -/
def member (f : MarkedField) (index : Nat) : Member where
  name := match f.field.name with
    | some name => .named name
    | none => .index index
  type := f.field.type
  marker := f.marker.map fun marker => marker.options.map PlacedOption.option

end MarkedField

namespace MarkedItem

def declaration (m : MarkedItem) : Declaration where
  descriptor := { name := m.item.name, generics := m.item.generics, form := m.form }
  members := m.fields.zipIdx.map fun (f, index) => f.member index

/-- An option of the marker of the field at an index. -/
def option? (m : MarkedItem) (field index : Nat) : Option PlacedOption := do
  let found ← m.fields[field]?
  let marker ← found.marker
  marker.options[index]?

/-- Where a part of the declaration stands in the text. -/
def placeOf (m : MarkedItem) : Location → Place
  | .record | .parent _ => m.item.namePlace
  | .member index => (m.fields[index]?.map fun f => f.field.place).getD m.item.namePlace
  | .option field index =>
    ((m.option? field index).map PlacedOption.namePlace).getD m.item.namePlace
  | .value field index =>
    ((m.option? field index).map PlacedOption.valuePlace).getD m.item.namePlace

end MarkedItem

def Diagnostic.sourceError (d : Diagnostic Place) : SourceError := ⟨d.text, d.place⟩

/-- The code that makes an error known to the compiler. -/
def SourceError.tokens (e : SourceError) : Tokens :=
  Tokens.words ["::", "core", "::", "compile_error", "!"] ++
    [.group .brace [.leaf (Literal.quote e.message)]]

def SourceError.allTokens (errors : List SourceError) : Tokens :=
  errors.flatMap SourceError.tokens

namespace Item

def compile (item : Item) : Except (List SourceError) (Config × Codec) := do
  let config ← (containerConfig item.attributes).mapError ([·])
  let marked ← item.marked.mapError ([·])
  let codec ← (marked.declaration.compile item.generics.oracle config).mapError fun problems =>
    problems.map fun problem => (problem.relocate marked.placeOf).sourceError
  return (config, codec)

def expand (item : Item) : Except (List SourceError) Tokens :=
  item.compile.map fun (config, codec) => codec.tokens config.runtime

end Item

end WireRecord
