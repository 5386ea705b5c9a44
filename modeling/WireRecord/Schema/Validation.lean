import WireRecord.Schema.Config
import WireRecord.Schema.Diagnostic
import WireRecord.Schema.Layout

/-!
Validation of a declaration. The record itself is checked first, then every marked member by
itself; a rejected member does not stop the checks of the others, and is rejected for its first
problem only.
-/

namespace WireRecord

def byteOrderOption : String := "endianness"

/-- Whether two texts are equal when ASCII capitals count as small letters. -/
def equalIgnoringCase (a b : String) : Bool := a.toLower == b.toLower

namespace ValueExpr

/-- The byte order that a value stands for: a path that ends in `Little` or `Big`, or a string
that spells the name of an order in any case. -/
def byteOrder? (value : ValueExpr) : Option ByteOrder :=
  match value.peel with
  | .path p =>
    match p.last? with
    | some "Little" => some .little
    | some "Big" => some .big
    | _ => none
  | .text t _ =>
    [ByteOrder.little, .big].find? fun order => equalIgnoringCase t order.name
  | _ => none

end ValueExpr

/-- The byte order that the options of a marker ask for, starting from `order`. The last option
wins; the first bad one is reported. Options are counted from `index`. -/
def MarkerOption.byteOrder (record : String) (member : Nat) (order : ByteOrder) (index : Nat) :
    List MarkerOption → Except (Diagnostic Location) ByteOrder
  | [] => .ok order
  | option :: rest =>
    if option.name != byteOrderOption then
      .error {
        cause := .invalidOption option.name record s!"unknown option, expected `{byteOrderOption}`"
        place := .option member index }
    else match option.value.byteOrder? with
      | some order => byteOrder record member order (index + 1) rest
      | none =>
        .error {
          cause := .invalidOption byteOrderOption record "expected `Little` or `Big`"
          place := .value member index }

/-- The problem with how a member is reached, if there is one. -/
def Access.problem? (record : String) : Access → Option Cause
  | field => none
  | property indexer readable writable =>
    if indexer then some (.indexer record)
    else if !readable || !writable then some (.notReadableAndWritable record)
    else none

namespace Member

/-- The classification of a member's type. The type of the record at hand, held by value, counts as
a record. -/
def classify (m : Member) (d : Descriptor) (oracle : TypeOracle) : Classification :=
  let c := m.type.classify oracle
  if d.isOwnType m.type && c.isByValue && !c.isPrimitive then { c with isComposite := true } else c

/-- The problem with the type of a member, if there is one. -/
def typeProblem? (m : Member) (d : Descriptor) (oracle : TypeOracle) : Option Cause :=
  let c := m.classify d oracle
  let record := d.qualifiedName.text
  if !c.isCompatible then some (.notEncodable record)
  else if c.isNativeWidth then some (.notFixedSize c.display record)
  else if d.isOwnType m.type then some (.recursive record)
  else none

/-- Checks the marked member at an index, stopping at its first problem. -/
def check (m : Member) (d : Descriptor) (oracle : TypeOracle) (options : List MarkerOption)
    (index : Nat) : Except (Diagnostic Location) IncludedMember :=
  let record := d.qualifiedName.text
  match (m.access.problem? record).or (m.typeProblem? d oracle) with
  | some cause => .error ⟨cause, .member index⟩
  | none => do
    let order ← MarkerOption.byteOrder record index .little 0 options
    return { classification := m.classify d oracle, name := m.name, type := m.type, order, index }

end Member

namespace Declaration

/-- The checks of all marked members, in order. -/
def checks (d : Declaration) (oracle : TypeOracle) :
    List (Except (Diagnostic Location) IncludedMember) :=
  d.members.zipIdx.filterMap fun (m, index) =>
    m.marker.map fun options => m.check d.descriptor oracle options index

/-- The problem with the enclosing types: the innermost one that cannot be extended. -/
def parentProblem? (d : Declaration) : Option (Diagnostic Location) :=
  (d.descriptor.parents.zipIdx.reverse.find? fun p => !p.1.augmentable).map fun (parent, index) =>
    ⟨.parentNotExtensible parent.name d.name.text, .parent index⟩

/-- All problems of a declaration, in the order in which they are reported. A record that cannot be
extended or constructed has no other problem. -/
def problems (d : Declaration) (oracle : TypeOracle) : List (Diagnostic Location) :=
  if !d.descriptor.augmentable then [⟨.notExtensible d.name.text, .record⟩]
  else if !d.descriptor.instantiable then [⟨.abstract d.name.text, .record⟩]
  else
    d.parentProblem?.toList ++ (d.checks oracle).filterMap fun
      | .error problem => some problem
      | .ok _ => none

/-- The layout of a declaration, or the problems to report. -/
def validate (d : Declaration) (oracle : TypeOracle) (config : Config) :
    Except (List (Diagnostic Location)) Layout :=
  match d.problems oracle with
  | [] => .ok { members := (d.checks oracle).filterMap Except.toOption }
  | problems => .error (config.limit problems)

end Declaration

end WireRecord
