import WireRecord.Codec.Compilation
import WireRecord.Codec.Meaning

/-!
A catalogue of record types. All but two are compiled from declarations that between them use every
primitive, both byte orders, unmarked members, nesting and generic parameters; the two others
implement the contract by hand.
-/

namespace WireRecord

namespace Catalog

def plain (name : MemberName) (type : TypeExpr) : Member := { name, type, marker := some [] }

/-- A marked member in the given byte order. -/
def ordered (order : ByteOrder) (name : MemberName) (type : TypeExpr) : Member :=
  let value := match order with
    | .little => "Little"
    | .big => "Big"
  let option := { name := byteOrderOption, value := .path (Path.ofNames [value]) }
  { name, type, marker := some [option] }

/-- A marked little-endian member called by name. -/
def little (name : String) (type : String) : Member :=
  ordered .little (.named name) (.named type)

/-- A marked big-endian member called by name. -/
def big (name : String) (type : String) : Member := ordered .big (.named name) (.named type)

/-- A marked member without options, called by name. -/
def bare (name : String) (type : String) : Member := plain (.named name) (.named type)

def skipped (name : String) (type : String) : Member := { name := .named name, type := .named type }

def record (name : String) (members : List Member) : Declaration :=
  { descriptor := { name }, members }

def tuple (name : String) (members : List (MemberName → Member)) : Declaration where
  descriptor := { name, form := .tuple }
  members := members.zipIdx.map fun (member, index) => member (.index index)

abbrev Types := List (String × RecordType)

/-- The environment in which every known type is called by the last name of its path. -/
def environment (types : Types) : Environment := fun type =>
  ((type.key?.bind fun name => types.lookup name).getD (RecordType.unencoded (.record [])))

/-- The record type that a declaration makes among known types. -/
def implement (types : Types) (d : Declaration) : RecordType :=
  match d.compile (KnownTypes.oracle { implemented := types.map Prod.fst }) {} with
  | .ok codec => codec.recordType (environment types)
  | .error _ => RecordType.unencoded (.record [])

/-- The two bytes by which a magic value is known. -/
def magicBytes : Bytes := [0xca, 0xfe]

def twoBytes (buffer : Segments) : Option (Scalar × Scalar) := do
  let (a, r) ← ReadCursor.readByte (SegmentReader.start buffer) .u8
  let (b, _) ← ReadCursor.readByte r .u8
  return (a, b)

/-- A record without members that is known by its two bytes. -/
def magic : RecordType where
  shape := .record []
  size := 2
  write := fun _ buffer =>
    if buffer.length < 2 then (false, buffer) else (true, overlay magicBytes buffer)
  read := fun buffer => if buffer.take 2 = magicBytes then some (.record []) else none
  readSequence := fun buffer =>
    if twoBytes buffer = some (.u8 0xca, .u8 0xfe) then some (.record []) else none

/-- A probe with a number, read by the given way. -/
def probeValue (raw : Scalar) (way : UInt8) : Value :=
  .record [(.named "raw", .scalar raw), (.named "via", .scalar (.u8 way))]

/-- A record that cannot be written if the two bytes of its number are equal, and that tells by
which way it was read: from a buffer, from a sequence of one segment, or from one of several. -/
def probe : RecordType where
  shape := .record [(.named "raw", .scalar .u16), (.named "via", .scalar .u8)]
  size := 2
  write := fun v buffer =>
    match (v.member? (.named "raw")).bind Value.scalar? with
    | some (.u16 raw) =>
      if raw / 256 = raw % 256 then (false, buffer)
      else match Scalar.encode (.u16 raw) .big buffer with
        | some buffer => (true, buffer)
        | none => (false, buffer)
    | _ => (false, buffer)
  read := fun buffer => (Primitive.u16.decode .big buffer).map (probeValue · 1)
  readSequence := fun buffer =>
    (ReadCursor.readBig (SegmentReader.start buffer) .u16).map fun (raw, _) =>
      probeValue raw (if buffer.isSingle then 2 else 3)

/-- The declarations of the records without parameters. A record stands after all that it nests. -/
def declarations : List Declaration := [
  record "Header" [little "id" "u32", bare "flag" "bool", big "tag" "u16"],
  record "Everything" [
    bare "a" "bool", bare "b" "u8", bare "c" "i8", big "d" "i16", little "e" "u16", big "f" "i32",
    little "g" "u32", little "h" "i64", big "i" "u64", little "j" "f32", big "k" "f64",
    big "l" "char"],
  record "Mirror" [
    bare "a" "bool", bare "b" "u8", bare "c" "i8", little "d" "i16", big "e" "u16",
    little "f" "i32", big "g" "u32", big "h" "i64", little "i" "u64", big "j" "f32",
    little "k" "f64", little "l" "char"],
  record "Frame" [bare "header" "Header", big "crc" "u32", skipped "seq" "u16"],
  tuple "Pair" [
    fun name => plain name (.named "u8"), fun name => ordered .big name (.named "u16")],
  record "Outer" [
    bare "pre" "u8", bare "frame" "Frame", big "post" "i64", bare "pair" "Pair"],
  { descriptor := { name := "Empty", form := .unit } },
  record "Cache" [skipped "entries" "u64", skipped "hot" "bool"],
  record "Hollow" [
    bare "e0" "Empty", bare "a" "u8", bare "e1" "Cache", big "b" "u16", bare "e2" "Empty"],
  record "OnlyEmpty" [bare "e" "Empty", skipped "note" "u8"],
  record "Sparse" [
    skipped "skip0" "u32", little "a" "u16", skipped "skip1" "bool", big "b" "u32",
    skipped "skip2" "char", skipped "skip3" "f64"],
  tuple "SparseTuple" [
    fun name => { name, type := .named "u32" }, fun name => plain name (.named "i8"),
    fun name => { name, type := .named "bool" }, fun name => ordered .big name (.named "i16"),
    fun name => { name, type := .named "i64" }],
  record "Chars" [little "a" "char", big "b" "char", bare "c" "bool", little "d" "char"],
  tuple "Floats" [
    fun name => ordered .little name (.named "f32"), fun name => ordered .big name (.named "f32"),
    fun name => ordered .little name (.named "f64"), fun name => ordered .big name (.named "f64")],
  record "Qualified" [
    ordered .big (.named "a") (.path (Path.ofNames ["core", "primitive", "u32"])),
    ordered .little (.named "b") (.path (Path.ofNames ["std", "primitive", "i16"])),
    ordered .big (.named "c")
      (.path { Path.ofNames ["core", "primitive", "u16"] with leading := true }),
    plain (.named "d") (.path (Path.ofNames ["crate", "Pair"]))],
  record "Tagged" [bare "magic" "Magic", bare "value" "u8"],
  record "Probed" [big "a" "u16", bare "p" "Probe", little "b" "u32", bare "q" "Probe"]]

def wrapperDeclaration : Declaration := record "Wrapper" [big "len" "u16", bare "inner" "T"]

def bothDeclaration : Declaration := record "Both" [bare "a" "A", bare "mid" "u8", bare "b" "B"]

/-- A type in front of which stands the length of something. -/
def wrapper (inner : RecordType) : RecordType := implement [("T", inner)] wrapperDeclaration

/-- Two types with a byte between them. -/
def both (a b : RecordType) : RecordType := implement [("A", a), ("B", b)] bothDeclaration

def simpleTypes : Types :=
  declarations.foldl (fun types d => types ++ [(d.descriptor.name, implement types d)])
    [("Magic", magic), ("Probe", probe)]

/-- The type without parameters that is called `name`. -/
def simple (name : String) : RecordType :=
  (simpleTypes.lookup name).getD (RecordType.unencoded (.record []))

/-- The types with parameters at the arguments for which they are listed. -/
def appliedTypes : Types := [
  ("Wrapper<Header>", wrapper (simple "Header")),
  ("Wrapper<Magic>", wrapper (simple "Magic")),
  ("Wrapper<Wrapper<Probed>>", wrapper (wrapper (simple "Probed"))),
  ("Both<Pair,Chars>", both (simple "Pair") (simple "Chars")),
  ("Both<Empty,Frame>", both (simple "Empty") (simple "Frame"))]

def types : Types := simpleTypes ++ appliedTypes

end Catalog

end WireRecord
