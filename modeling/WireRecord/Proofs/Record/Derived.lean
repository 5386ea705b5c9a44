import WireRecord.Catalog
import WireRecord.Proofs.Record.Format
import WireRecord.Proofs.Record.Transparency

/-!
Record types that are compiled from declarations all the way down, with the wire format that can be
read off the slots of each. No such type can tell how its bytes are cut into segments.
-/

namespace WireRecord

/-- The format of a record with the given slots, where the formats of nested types are known. -/
def WireFormat.ofSlots (env : Environment) (formats : TypeExpr → WireFormat) :
    List Slot → WireFormat
  | [] => .nil
  | .encoded m :: slots =>
    match m.type.kind.primitive? with
    | some p => .scalar m.name p m.order (ofSlots env formats slots)
    | none => .nested m.name (formats m.type) (ofSlots env formats slots)
  | .initial name type :: slots => .skipped name (type.initial env) (ofSlots env formats slots)

/-- A record type that is compiled from a declaration, and so is every type nested in it. Members
have names of their own, as they do in every declaration. Any value may be the one that a member of
the type starts from. -/
inductive Derived : RecordType → WireFormat → Prop where
  | compile {d : Declaration} {oracle : TypeOracle} {config : Config} {c : Codec}
      {env : Environment} (formats : TypeExpr → WireFormat) (initial : Value)
      (hNames : (d.members.map Member.name).Nodup) (hCompile : d.compile oracle config = .ok c)
      (hNested : ∀ m ∈ c.layout.members,
        m.classification.isPrimitive = false → Derived (env m.type) (formats m.type)) :
      Derived { c.recordType env with initial } (.ofSlots env formats (d.slots oracle))

/-- The encoded members are well formed, and nested types have a property with their formats. -/
def NestedAs (P : RecordType → WireFormat → Prop) (env : Environment)
    (formats : TypeExpr → WireFormat) (slots : List Slot) : Prop :=
  ∀ m, .encoded m ∈ slots →
    m.Sound ∧ (m.classification.isPrimitive = false → P (env m.type) (formats m.type))

namespace NestedAs

variable {P : RecordType → WireFormat → Prop} {env : Environment} {formats : TypeExpr → WireFormat}
  {slots : List Slot}

theorem tail {slot : Slot} (h : NestedAs P env formats (slot :: slots)) :
    NestedAs P env formats slots :=
  fun m hMember => h m (List.mem_cons_of_mem _ hMember)

/-- In an accepted record the nested members are what the layout takes for composite. -/
theorem of_validate {d : Declaration} {oracle : TypeOracle} {config : Config} {layout : Layout}
    (hValidate : d.validate oracle config = .ok layout)
    (hNested : ∀ m ∈ layout.members,
      m.classification.isPrimitive = false → P (env m.type) (formats m.type)) :
    NestedAs P env formats (d.slots oracle) := by
  intro m hMember
  have hIncluded : m ∈ layout.members := by
    rw [Declaration.members_eq_slots hValidate]
    exact List.mem_filterMap.mpr ⟨_, hMember, rfl⟩
  exact ⟨Declaration.sound_of_validate hValidate hIncluded, hNested m hIncluded⟩

/-- The bytes that the members take add up to the size of the format. -/
theorem encodedSize_eq (h : NestedAs P env formats slots)
    (hSize : ∀ {t f}, P t f → t.size = f.size) :
    encodedSize env (slots.filterMap Slot.included?) =
      (WireFormat.ofSlots env formats slots).size := by
  induction slots with
  | nil => rfl
  | cons slot slots ih =>
      have hRest := ih h.tail
      cases slot with
      | initial name type => exact hRest
      | encoded m =>
          obtain ⟨hSound, hNested⟩ := h m (List.mem_cons_self ..)
          have hIncluded : (Slot.encoded m).included? = some m := rfl
          rw [List.filterMap_cons_some hIncluded, encodedSize_cons, hRest]
          rcases hSound.primitive_or_nested with ⟨p, hKind, hPrimitive, _⟩ | ⟨hKind, hUser⟩
          · rw [IncludedMember.value_of_primitive env hPrimitive hKind]
            simp only [WireFormat.ofSlots, hKind, WireFormat.size]
          · rw [IncludedMember.value_of_nested env hUser, hSize (hNested hUser)]
            simp only [WireFormat.ofSlots, hKind, WireFormat.size]

/-- The declared size of a record is the size of its format. -/
theorem sizeIn_eq {d : Declaration} {oracle : TypeOracle} {config : Config} {layout : Layout}
    (h : NestedAs P env formats (d.slots oracle)) (hSize : ∀ {t f}, P t f → t.size = f.size)
    (hValidate : d.validate oracle config = .ok layout) :
    (layout.procedures d).sizeIn env = (WireFormat.ofSlots env formats (d.slots oracle)).size := by
  rw [← h.encodedSize_eq hSize, ← Declaration.members_eq_slots hValidate]
  rfl

end NestedAs

/-- By induction on the nesting: a type is transparent if those nested in it are. -/
theorem Derived.transparent {t : RecordType} {f : WireFormat} (h : Derived t f) :
    Transparent t := by
  induction h with
  | compile formats initial hNames hCompile hNested ih =>
      have hRecord := Transparent.compile hCompile ih
      exact ⟨hRecord.read_congr, hRecord.readSequence_eq⟩

namespace Sample

open Catalog

def stampDeclaration : Declaration := record "Stamp" [big "mark" "char", bare "seen" "bool"]

def stampCodec : Codec :=
  stampDeclaration.emit {
    members := [
      ⟨⟨.char, "char", false, true⟩, .named "mark", .named "char", .big, 0⟩,
      ⟨⟨.boolean, "bool", false, true⟩, .named "seen", .named "bool", .little, 1⟩] }

def stamp : RecordType := stampCodec.recordType (environment [])

def stampFormat : WireFormat :=
  .scalar (.named "mark") .char .big (.scalar (.named "seen") .bool .little .nil)

/-- A number before a nested record, a member that is not encoded between them, and another one of
the nested type after them. -/
def envelopeDeclaration : Declaration :=
  record "Envelope" [
    little "length" "u16", skipped "cached" "u8", bare "stamp" "Stamp", skipped "spare" "Stamp"]

def envelopeCodec : Codec :=
  envelopeDeclaration.emit {
    members := [
      ⟨⟨.ushort, "u16", false, true⟩, .named "length", .named "u16", .little, 0⟩,
      ⟨⟨.userDefined, "Stamp", true, true⟩, .named "stamp", .named "Stamp", .little, 2⟩] }

def envelope : RecordType := envelopeCodec.recordType (environment [("Stamp", stamp)])

def envelopeFormat : WireFormat :=
  .scalar (.named "length") .u16 .little
    (.skipped (.named "cached") (.scalar (.u8 0))
      (.nested (.named "stamp") stampFormat (.skipped (.named "spare") stamp.initial .nil)))

/-- A letter whose members that are not encoded are not as they are read. -/
def letter : Members := [
  (.named "length", .scalar (.u16 0x201)), (.named "cached", .scalar (.u8 3)),
  (.named "stamp", .record [(.named "mark", .scalar (.char '\u263a')),
    (.named "seen", .scalar (.bool true))]),
  (.named "spare", .record [(.named "mark", .scalar (.char (Char.ofNat 0x1f600))),
    (.named "seen", .scalar (.bool true))])]

theorem compile_stamp : stampDeclaration.compile (KnownTypes.oracle {}) {} = .ok stampCodec := rfl

theorem compile_envelope :
    envelopeDeclaration.compile (KnownTypes.oracle { marked := ["Stamp"] }) {} =
      .ok envelopeCodec := rfl

theorem derived_stamp : Derived stamp stampFormat := by
  refine Derived.compile (fun _ => .nil) stamp.initial ?_ compile_stamp ?_
  · decide
  · intro m hMember hUser
    rcases List.mem_pair.mp hMember with rfl | rfl <;> cases hUser

theorem derived_envelope : Derived envelope envelopeFormat := by
  refine Derived.compile (fun _ => stampFormat) envelope.initial ?_ compile_envelope ?_
  · decide
  · intro m hMember hUser
    rcases List.mem_pair.mp hMember with rfl | rfl
    · cases hUser
    · exact derived_stamp

end Sample

/-- Compiling keeps transparency of the nested types, whatever these are. A type that is compiled
all the way down reads the same value, or none, from segments as from their concatenation. -/
theorem segmentation_transparent :
    (∀ {d : Declaration} {oracle : TypeOracle} {config : Config} {c : Codec} {env : Environment},
      d.compile oracle config = .ok c →
      (∀ m ∈ c.layout.members,
        m.classification.isPrimitive = false → Transparent (env m.type)) →
      Transparent (c.recordType env)) ∧
    ∀ {t : RecordType} {f : WireFormat}, Derived t f → ∀ segments : List Bytes,
      t.readSequence (.ofList segments) = t.read segments.flatten :=
  ⟨fun hCompile hNested => .compile hCompile hNested,
    fun hDerived => hDerived.transparent.readSequence_eq⟩

/-- A nested record of which the cuts go through the character, and one that ends too early. -/
theorem segmentation_transparent_envelope :
    Transparent Sample.stamp ∧
    Sample.envelope.readSequence (.ofList [[1], [2, 0x26], [], [0x3a, 1]]) =
      some (.record [(.named "length", .scalar (.u16 0x201)), (.named "cached", .scalar (.u8 0)),
        (.named "stamp", .record [(.named "mark", .scalar (.char '\u263a')),
          (.named "seen", .scalar (.bool true))]), (.named "spare", Sample.stamp.initial)]) ∧
    Sample.envelope.readSequence (.ofList [[1], [2, 0x26], [], [0x3a]]) = none := by
  refine ⟨segmentation_transparent.1 Sample.compile_stamp ?_, ?_, ?_⟩
  · intro m hMember hUser
    rcases List.mem_pair.mp hMember with rfl | rfl <;> cases hUser
  · rw [segmentation_transparent.2 Sample.derived_envelope]
    rfl
  · rw [segmentation_transparent.2 Sample.derived_envelope]
    rfl

end WireRecord
