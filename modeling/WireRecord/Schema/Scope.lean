import WireRecord.Schema.Declaration

/-!
Scopes: which record of a set a type names from inside another record. A relative path is looked up
inside the record itself, then inside each enclosing type from the innermost out, then at the top.
-/

namespace WireRecord

/-- A path reduced to names: whether it starts at the top, and the names that follow. -/
structure ScopedPath where
  isAbsolute : Bool
  names : List String
  deriving DecidableEq

namespace ScopedPath

/-- The names of a path after a leading `crate` or `self`; only `crate` starts at the top. There is
no reading without names. -/
def ofNames? (names : List String) : Option ScopedPath :=
  let reading : ScopedPath :=
    match names with
    | "crate" :: rest => ⟨true, rest⟩
    | "self" :: rest => ⟨false, rest⟩
    | _ => ⟨false, names⟩
  if reading.names.isEmpty then none else some reading

/-- The reading of a type that is a path without leading `::`, groupings aside. -/
def ofType? (type : TypeExpr) : Option ScopedPath :=
  match type.path? with
  | some p => if p.leading then none else ofNames? p.names
  | none => none

end ScopedPath

/-- The beginnings of a list, longest first. -/
def beginnings {α : Type} (items : List α) : List (List α) :=
  (List.range (items.length + 1)).reverse.map items.take

/-- The names that a path may stand for inside a scope, in the order in which they are tried. -/
def ScopedPath.candidates (path : ScopedPath) (scope : QualifiedName) : List QualifiedName :=
  if path.isAbsolute then [path.names] else (beginnings scope).map (· ++ path.names)

/-- The record among `records` that a type names from inside the record called `scope`. -/
def resolve (type : TypeExpr) (scope : QualifiedName) (records : List QualifiedName) :
    Option QualifiedName :=
  (ScopedPath.ofType? type).bind fun path => (path.candidates scope).find? records.contains

end WireRecord
