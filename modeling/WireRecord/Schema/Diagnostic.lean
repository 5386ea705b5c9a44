/-!
Diagnostics: why a declaration is rejected, and where. The text of a diagnostic depends on its cause
alone; the place is kept apart so that it can be given in whatever terms a caller has.
-/

namespace WireRecord

inductive ErrorCode where
  | notExtensible | parentNotExtensible | abstract | indexer | notReadableAndWritable
  | notEncodable | recursive | notFixedSize | invalidOption
  deriving DecidableEq, Repr

namespace ErrorCode

def all : List ErrorCode :=
  [notExtensible, parentNotExtensible, abstract, indexer, notReadableAndWritable, notEncodable,
   recursive, notFixedSize, invalidOption]

def text : ErrorCode → String
  | notExtensible => "RB0001"
  | parentNotExtensible => "RB0002"
  | abstract => "RB0003"
  | indexer => "RB0004"
  | notReadableAndWritable => "RB0005"
  | notEncodable => "RB0006"
  | recursive => "RB0007"
  | notFixedSize => "RB0008"
  | invalidOption => "RB0009"

/-- What a code stands for, in a few words. -/
def title : ErrorCode → String
  | notExtensible => "Type is not extensible"
  | parentNotExtensible => "Parent type is not extensible"
  | abstract => "Type is abstract"
  | indexer => "Property is an indexer"
  | notReadableAndWritable => "Property must be readable and writable"
  | notEncodable => "Member type is not primitive or BinaryStructurable"
  | recursive => "Member type is recursive"
  | notFixedSize => "Member type is not fixed size"
  | invalidOption => "Invalid include option"

end ErrorCode

/-- Why a declaration is rejected. Every cause names the record it is about. -/
inductive Cause where
  | notExtensible (record : String)
  | parentNotExtensible (parent record : String)
  | abstract (record : String)
  | indexer (record : String)
  | notReadableAndWritable (record : String)
  | notEncodable (record : String)
  | recursive (record : String)
  | notFixedSize (memberType record : String)
  | invalidOption (option record reason : String)
  deriving DecidableEq, Repr

namespace Cause

def code : Cause → ErrorCode
  | notExtensible _ => .notExtensible
  | parentNotExtensible _ _ => .parentNotExtensible
  | abstract _ => .abstract
  | indexer _ => .indexer
  | notReadableAndWritable _ => .notReadableAndWritable
  | notEncodable _ => .notEncodable
  | recursive _ => .recursive
  | notFixedSize _ _ => .notFixedSize
  | invalidOption _ _ _ => .invalidOption

def message : Cause → String
  | notExtensible record =>
    s!"type `{record}` cannot be extended by generated code, " ++
      "make it extensible or remove #[derive(BinaryStructurable)]"
  | parentNotExtensible parent record =>
    s!"parent type `{parent}` of type `{record}` cannot be extended by generated code, " ++
      s!"make it extensible or move `{record}` out of it"
  | abstract record =>
    s!"type `{record}` cannot be instantiated, " ++
      "make it concrete or remove #[derive(BinaryStructurable)]"
  | indexer record => s!"an indexer property cannot be included in type `{record}`"
  | notReadableAndWritable record =>
    s!"a property included in type `{record}` must be both readable and writable"
  | notEncodable record =>
    s!"member inside type `{record}` must be a primitive or implement BinaryStructurable"
  | recursive record => s!"member inside type `{record}` must not be recursive"
  | notFixedSize memberType record =>
    s!"member of type `{memberType}` inside type `{record}` has a platform-dependent size, " ++
      "use a fixed size type instead"
  | invalidOption option record reason =>
    s!"invalid include option `{option}` inside type `{record}`: {reason}"

end Cause

/-- The part of a declaration that a diagnostic is about. -/
inductive Location where
  | record
  /-- The enclosing type at an index, counted from the outermost. -/
  | parent (index : Nat)
  | member (index : Nat)
  /-- The name of an option of a member's marker. -/
  | option (member index : Nat)
  /-- The value of an option of a member's marker. -/
  | value (member index : Nat)
  deriving DecidableEq, Repr

structure Diagnostic (Place : Type) where
  cause : Cause
  place : Place
  deriving DecidableEq, Repr

namespace Diagnostic

variable {Place Other : Type}

/-- The same diagnostic with its place put in other terms. -/
def relocate (f : Place → Other) (d : Diagnostic Place) : Diagnostic Other := ⟨d.cause, f d.place⟩

def text (d : Diagnostic Place) : String :=
  "[" ++ d.cause.code.text ++ "] " ++ d.cause.message

end Diagnostic

end WireRecord
