import WireRecord.Schema.Config
import WireRecord.Schema.Declaration
import WireRecord.Source.Entry

/-!
The two attributes of the derive. `binary_include` marks a field, and its options are those of all
attributes of that name together; `binary_structurable` configures the emitted code.
-/

namespace WireRecord

def includeAttribute : String := "binary_include"

def containerAttribute : String := "binary_structurable"

/-- An option of a marker, and where its name and its value stand. -/
structure PlacedOption where
  option : MarkerOption
  namePlace : Place
  valuePlace : Place

/-- The marker of a field: where its first attribute stands, and all its options. -/
structure FieldMarker where
  place : Place
  options : List PlacedOption

namespace Parser

/-- Whether a value is a bare group, or begins with one. -/
def beginsWithGroup (value : ValueExpr) : Bool :=
  match value.tokens with
  | .group .bare _ :: _ => true
  | _ => false

/-- An option of a marker. Its value stands where its first token does, or the bare group that it
begins with. -/
def markerOption : Parser PlacedOption := do
  let (path, namePlace) ← Grammar.plainPath
  match path.ident? with
  | none => failAt namePlace "expected an option name"
  | some name =>
    takeOperator "="
    let groupPlace ← place
    let firstPlace ← tokenPlace
    let value ← value
    let valuePlace := if beginsWithGroup value then groupPlace else firstPlace
    return { option := { name, value }, namePlace, valuePlace }

/-- A string literal: the text that it denotes, its suffix, and where it stands. -/
def stringLiteral : Parser (String × String × Place) := do
  match ← peek? with
  | some (.literal literal start) =>
    match Literal.stringValue? literal with
    | some text => skip; return (text, Literal.stringSuffix literal, start)
    | none => fail "expected string literal"
  | _ => fail "expected string literal"

/-- An option of a record: the path of the supporting library. What is wrong with the path is
reported at its literal. -/
def containerOption : Parser Path := do
  let (key, keyPlace) ← Grammar.plainPath
  unless key.ident? == some "crate" do
    failAt keyPlace s!"unsupported {containerAttribute} option"
  takeOperator "="
  let (text, suffix, start) ← stringLiteral
  match onText Parser.path text with
  | .error e => failAt start e.message
  | .ok path =>
    unless suffix.isEmpty do failAt start s!"unexpected suffix `{suffix}` on string literal"
    return path

/-- All of an input read as a list of options. -/
def options {α : Type} (option : Parser α) (input : SourceInput) : Except SourceError (List α) :=
  (onInput (listed atEnd option) input).map fun found => found.map Prod.fst

end Parser

namespace Attribute

/-- The options that an attribute adds to the marker of a field. -/
def markerOptions (a : Attribute) : Except SourceError (List PlacedOption) :=
  match a.form with
  | .bare => .ok []
  | .list _ input => Parser.options Parser.markerOption input
  | .assigned _ _ =>
    .error {
      message :=
        s!"expected #[{includeAttribute}] or #[{includeAttribute}(option = value)]"
      place := a.place }

/-- The paths that an attribute names for the supporting library. -/
def runtimePaths (a : Attribute) : Except SourceError (List Path) :=
  match a.form with
  | .bare =>
    .error {
      message :=
        s!"expected attribute arguments in parentheses: #[{containerAttribute}(...)]"
      place := a.pathPlace }
  | .list _ input => Parser.options Parser.containerOption input
  | .assigned place _ =>
    .error { message := s!"expected parentheses: #[{containerAttribute}(...)]", place }

end Attribute

/-- The marker that the attributes of a field make, if any of them marks it. -/
def fieldMarker? (attributes : List Attribute) : Except SourceError (Option FieldMarker) := do
  let marks := attributes.filter fun a => a.isNamed includeAttribute
  let options ← marks.mapM Attribute.markerOptions
  return marks.head?.map fun first => { place := first.place, options := options.flatten }

/-- The configuration that the attributes of a record make. The path named last wins. -/
def containerConfig (attributes : List Attribute) : Except SourceError Config := do
  let paths ← (attributes.filter fun a => a.isNamed containerAttribute).mapM Attribute.runtimePaths
  match paths.flatten.getLast? with
  | some runtime => return { runtime }
  | none => return {}

end WireRecord
