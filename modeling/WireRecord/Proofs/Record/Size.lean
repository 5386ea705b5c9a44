import Mathlib.Algebra.GroupWithZero.Nat
import WireRecord.Proofs.Record.Passage
import WireRecord.Proofs.Record.RoundTrip
import WireRecord.Proofs.Schema.Spelling
import WireRecord.Proofs.Segments.Slice

/-!
The size that a record declares is the number of bytes that its procedures move. The addends of the
size, the widths of the primitives and the moves of the cursors come from different definitions;
they agree member by member, and so every member starts where the sizes of those before it say.
-/

namespace WireRecord

/-- The bytes of a member of a type: those of the primitive that the type spells, or those of the
record that it stands for. -/
inductive TypeExpr.Takes (env : Environment) (type : TypeExpr) : Nat → Prop where
  | primitive {p : Primitive} (hType : type.SpellsPrimitive p) : Takes env type p.width
  | nested (hType : ∀ p, ¬type.SpellsPrimitive p) : Takes env type (env type).size

/-- A member takes what its term adds to the size, primitive or nested. -/
theorem IncludedMember.Sound.takes {m : IncludedMember} (h : m.Sound) (env : Environment) :
    m.type.Takes env (m.sizeTerm.value env) := by
  rcases h.primitive_or_nested with ⟨p, hKind, hPrimitive, _⟩ | ⟨hKind, hUser⟩
  · rw [value_of_primitive env hPrimitive hKind]
    exact .primitive (TypeExpr.primitive?_kind_eq_some_iff.mp hKind)
  · rw [value_of_nested env hUser]
    exact .nested (TypeExpr.primitive?_kind_eq_none_iff.mp hKind)

/-- An addend is known by itself exactly if the type of its member spells a primitive, and then is
the width of that primitive. -/
theorem IncludedMember.Sound.constant?_sizeTerm {m : IncludedMember} (h : m.Sound) :
    m.sizeTerm.constant? = m.type.kind.primitive?.map Primitive.width := by
  rcases h.primitive_or_nested with ⟨p, hKind, hPrimitive, _⟩ | ⟨hKind, hUser⟩
  · rw [sizeTerm, if_pos hPrimitive, SizeTerm.constant?, h.kind_eq, Kind.wireWidth_eq]
  · simp [sizeTerm, hUser, SizeTerm.constant?, hKind]

/-- The addends have a sum that is known without looking at other records exactly if all types spell
primitives, and then it is the sum of the widths of these. -/
theorem SizeTerm.total?_eq_some_iff {members : List IncludedMember}
    (hSound : ∀ m ∈ members, m.Sound) {n : Nat} :
    total? (members.map IncludedMember.sizeTerm) = some n ↔
      ∃ primitives, List.Forall₂ (fun m p => m.type.SpellsPrimitive p) members primitives ∧
        (primitives.map Primitive.width).sum = n := by
  induction members generalizing n with
  | nil => simp [total?, eq_comm]
  | cons m members ih =>
      rw [List.forall_mem_cons] at hSound
      rw [List.map_cons, total?, hSound.1.constant?_sizeTerm]
      constructor
      · intro hTotal
        split at hTotal
        · rename_i width total hWidth hRest
          cases hTotal
          obtain ⟨p, hKind, rfl⟩ := Option.map_eq_some_iff.mp hWidth
          obtain ⟨primitives, hPrimitives, rfl⟩ := (ih hSound.2).mp hRest
          have hType := TypeExpr.primitive?_kind_eq_some_iff.mp hKind
          exact ⟨p :: primitives, .cons hType hPrimitives, rfl⟩
        · cases hTotal
      · rintro ⟨_, hPrimitives, rfl⟩
        cases hPrimitives with
        | @cons _ p _ primitives hType hPrimitives =>
            have hKind := TypeExpr.primitive?_kind_eq_some_iff.mpr hType
            have hRest := (ih hSound.2).mpr ⟨primitives, hPrimitives, rfl⟩
            simp [hKind, hRest]

/-- The size is known without the nested types exactly if there are none. -/
theorem SizeTerm.isSome_total?_iff {members : List IncludedMember}
    (hSound : ∀ m ∈ members, m.Sound) :
    (total? (members.map IncludedMember.sizeTerm)).isSome ↔
      ∀ m ∈ members, ∃ p, m.type.SpellsPrimitive p := by
  induction members with
  | nil => exact iff_of_true rfl (List.forall_mem_nil _)
  | cons m members ih =>
      rw [List.forall_mem_cons] at hSound ⊢
      rw [← ih hSound.2]
      simp only [← TypeExpr.primitive?_kind_eq_some_iff, List.map_cons, total?,
        hSound.1.constant?_sizeTerm]
      cases m.type.kind.primitive? <;>
        cases total? (members.map IncludedMember.sizeTerm) <;> simp

namespace Layout

variable {d : Declaration} {oracle : TypeOracle} {config : Config} {layout : Layout}
  {env : Environment}

/-- The bytes of the encoded members, in order. -/
def sizes (l : Layout) (env : Environment) : List Nat := l.sizeTerms.map (SizeTerm.value env)

/-- Where the member at a place of the layout starts: after the members before it. -/
def offset (l : Layout) (env : Environment) (index : Nat) : Nat := ((l.sizes env).take index).sum

/-- The places of the members are where the cursors stand. A cursor that has passed some of the
members stands after the bytes of these, and one that has passed all of them after the bytes of the
record. -/
structure Spans (l : Layout) (d : Declaration) (env : Environment) : Prop where
  takes : List.Forall₂ (fun m n => m.type.Takes env n) l.members (l.sizes env)
  size_eq : (l.procedures d).sizeIn env = (l.sizes env).sum
  size_of_empty : l.members = [] → (l.procedures d).sizeIn env = 0
  /-- A write cursor before the member at a place. Members have names of their own. -/
  write_stands : ∀ {self : Value} {buffer : Bytes} {index : Nat} {w : Writer},
    (d.members.map Member.name).Nodup → ((l.constructor d).shape env).admits self →
    WriteOp.runAll env self ((l.procedures d).write.take index) (Writer.start buffer) = (true, w) →
    w.position = l.offset env index
  /-- A read cursor before the member at a place. -/
  read_stands : ∀ {buffer : Bytes} {index : Nat} {r : Reader} {locals : Locals},
    ReadOp.runAll env ((l.procedures d).read.ops.take index) (Reader.start buffer) [] =
      some (r, locals) →
    r = ⟨buffer, l.offset env index⟩
  /-- A read cursor over segments before the member at a place, and what a nested member there is
  read from. -/
  readSequence_stands : ∀ {s : Segments} {index : Nat} {r : SegmentReader} {locals : Locals},
    ReadOp.runAll env ((l.procedures d).readSequence.ops.take index) (SegmentReader.start s) [] =
      some (r, locals) →
    r.consumed = l.offset env index ∧
      (s.slice r.position).bytes = s.bytes.drop (l.offset env index)
  write_ends : ∀ {self : Value} {buffer : Bytes},
    (d.members.map Member.name).Nodup → ((l.constructor d).shape env).admits self →
    ((l.procedures d).runWrite env self buffer).1 = true →
    ∃ w, WriteOp.runAll env self (l.procedures d).write (Writer.start buffer) = (true, w) ∧
      w.position = (l.procedures d).sizeIn env
  read_ends : ∀ {buffer : Bytes} {v : Value}, (l.procedures d).runRead env buffer = some v →
    ∃ r locals, ReadOp.runAll env (l.procedures d).read.ops (Reader.start buffer) [] =
      some (r, locals) ∧ r.position = (l.procedures d).sizeIn env
  /-- The read of a sequence whose first segment is too short, so that a cursor walks the segments. -/
  readSequence_ends : ∀ {s : Segments} {v : Value}, s.isSingle = false →
    s.first.length < (l.procedures d).sizeIn env →
    (l.procedures d).runReadSequence env s = some v →
    ∃ r locals, ReadOp.runAll env (l.procedures d).readSequence.ops (SegmentReader.start s) [] =
      some (r, locals) ∧ r.consumed = (l.procedures d).sizeIn env

/-- The offset of a member is what the members before it take. -/
theorem offset_eq (l : Layout) (env : Environment) (index : Nat) :
    l.offset env index = encodedSize env (l.members.take index) := by
  rw [offset, sizes, sizeTerms, ← List.map_take, ← List.map_take]
  rfl

theorem offset_length (l : Layout) (d : Declaration) (env : Environment) :
    l.offset env l.members.length = (l.procedures d).sizeIn env := by
  rw [offset, List.take_of_length_le (by simp [sizes, sizeTerms])]
  rfl

/-- A value has a value of its type for every encoded member. So has each value of the shape of a
record whose members have names of their own. -/
def Admits (l : Layout) (env : Environment) (self : Value) : Prop :=
  ∀ m ∈ l.members, ∃ v, self.member? m.name = some v ∧ (m.type.shape env).admits v

/-- The step lemma for the writer: before each member it stands at the member's offset. -/
theorem position_of_admits (hValidate : d.validate oracle config = .ok layout) {self : Value}
    {buffer : Bytes} {index : Nat} {w : Writer} (hSelf : layout.Admits env self)
    (hRun : WriteOp.runAll env self ((layout.procedures d).write.take index)
      (Writer.start buffer) = (true, w)) : w.position = layout.offset env index := by
  rw [procedures, ← List.map_take] at hRun
  have hMoved := WriteOp.position_of_runAll
    (fun m hMember => Declaration.sound_of_validate hValidate (List.mem_of_mem_take hMember))
    (fun m hMember => hSelf m (List.mem_of_mem_take hMember)) hRun
  rw [offset_eq]
  exact hMoved.trans (Nat.zero_add _)

theorem position_of_write (hNames : (d.members.map Member.name).Nodup)
    (hValidate : d.validate oracle config = .ok layout) {self : Value} {buffer : Bytes}
    {index : Nat} {w : Writer} (hSelf : ((layout.constructor d).shape env).admits self)
    (hRun : WriteOp.runAll env self ((layout.procedures d).write.take index)
      (Writer.start buffer) = (true, w)) : w.position = layout.offset env index :=
  position_of_admits hValidate (member?_of_admits hNames hValidate hSelf) hRun

theorem at_of_read (hValidate : d.validate oracle config = .ok layout) {ρ : Type} [RecordCursor ρ]
    {At : Nat → ρ → Prop} (hAt : CountsBytes At) {index : Nat} {r r' : ρ} {locals : Locals}
    (hStart : At 0 r)
    (hRun : ReadOp.runAll env (layout.readProcedure.ops.take index) r [] = some (r', locals)) :
    At (layout.offset env index) r' := by
  rw [readProcedure, ← List.map_take] at hRun
  have hEnd := hAt.runAll
    (fun m hMember => Declaration.sound_of_validate hValidate (List.mem_of_mem_take hMember))
    hStart hRun
  rwa [Nat.zero_add, ← offset_eq] at hEnd

/-- A read that gives a value has run all its operations, and so has passed all members. -/
theorem at_of_runReads (hValidate : d.validate oracle config = .ok layout) {ρ : Type}
    [RecordCursor ρ] {At : Nat → ρ → Prop} (hAt : CountsBytes At) {r : ρ} {v : Value}
    (hStart : At 0 r)
    (hReads : (layout.procedures d).runReads env layout.readProcedure r = some v) :
    ∃ r' locals, ReadOp.runAll env layout.readProcedure.ops r [] = some (r', locals) ∧
      At ((layout.procedures d).sizeIn env) r' := by
  obtain ⟨⟨r', locals⟩, hRun, _⟩ := Option.bind_eq_some_iff.mp hReads
  refine ⟨r', locals, hRun, ?_⟩
  have hAll : layout.readProcedure.ops.take layout.members.length = layout.readProcedure.ops :=
    List.take_of_length_le (by simp [readProcedure])
  rw [← hAll] at hRun
  exact offset_length layout d env ▸ at_of_read hValidate hAt hStart hRun

/-- Offsets, positions and the size of an accepted record agree in all of these ways. -/
theorem spans (hValidate : d.validate oracle config = .ok layout) (env : Environment) :
    layout.Spans d env where
  takes := by
    rw [sizes, sizeTerms, List.map_map, List.forall₂_map_right_iff, List.forall₂_same]
    exact fun m hMember => (Declaration.sound_of_validate hValidate hMember).takes env
  size_eq := rfl
  size_of_empty := fun hEmpty => by rw [← offset_length, hEmpty]; rfl
  write_stands := fun hNames hSelf hRun => position_of_write hNames hValidate hSelf hRun
  read_stands := fun hRun => at_of_read hValidate (Reader.countsBytes _) rfl hRun
  readSequence_stands := fun {s index r locals} hRun => by
    have hAfter := at_of_read hValidate (SegmentReader.countsBytes s)
      ⟨SegmentReader.start_valid s, rfl, rfl⟩ hRun
    have hSlice := hAfter.valid.slice_eq
    rw [hAfter.sequence_eq, hAfter.consumed_eq] at hSlice
    exact ⟨hAfter.consumed_eq, by rw [hSlice, Segments.bytes_dropBytes]⟩
  write_ends := fun {self buffer} hNames hSelf hDone => by
    obtain ⟨w, hRun⟩ := Procedures.runAll_of_runWrite hDone
    have hAll : (layout.procedures d).write.take layout.members.length =
        (layout.procedures d).write := List.take_of_length_le (by simp [procedures])
    refine ⟨w, hRun, ?_⟩
    rw [← hAll] at hRun
    rw [← offset_length]
    exact position_of_write hNames hValidate hSelf hRun
  read_ends := fun {buffer v} hRead => by
    rw [Procedures.runRead] at hRead
    split at hRead
    · cases hRead
    · obtain ⟨r, locals, hRun, rfl⟩ := at_of_runReads hValidate (Reader.countsBytes buffer) rfl hRead
      exact ⟨_, locals, hRun, rfl⟩
  readSequence_ends := fun {s v} hMany hShort hRead => by
    rw [Procedures.runReadSequence, hMany, if_neg (by simp; omega)] at hRead
    split at hRead
    · cases hRead
    · obtain ⟨r, locals, hRun, hAfter⟩ := at_of_runReads hValidate (SegmentReader.countsBytes s)
        ⟨SegmentReader.start_valid s, rfl, rfl⟩ hRead
      exact ⟨r, locals, hRun, hAfter.consumed_eq⟩

end Layout

namespace WireFormat

/-- The encoded primitives, those of a nested record in its place. -/
def primitives : WireFormat → List Primitive
  | nil => []
  | scalar _ p _ rest => p :: rest.primitives
  | nested _ inner rest => inner.primitives ++ rest.primitives
  | skipped _ _ rest => rest.primitives

theorem size_eq_sum (f : WireFormat) : f.size = (f.primitives.map Primitive.width).sum := by
  induction f with
  | nil => rfl
  | scalar name p order rest ih => rw [size, primitives, List.map_cons, List.sum_cons, ih]
  | nested name inner rest ihInner ihRest =>
      rw [size, primitives, List.map_append, List.sum_append, ihInner, ihRest]
  | skipped name initial rest ih => exact ih

/-- All values of a record have the same primitives as their leaves. -/
theorem primitives_of_admits {f : WireFormat} {members : Members} (h : f.admits members) :
    (f.leaves members).map (fun l => l.scalar.primitive) = f.primitives := by
  induction f generalizing members with
  | nil =>
      obtain rfl := admits_nil_iff.mp h
      rfl
  | scalar name p order rest ih =>
      obtain ⟨v, later, rfl, rfl, hRest⟩ := admits_scalar_iff.mp h
      exact congrArg (v.primitive :: ·) (ih hRest)
  | nested name inner rest ihInner ihRest =>
      obtain ⟨inner', later, rfl, hInner, hRest⟩ := admits_nested_iff.mp h
      rw [leaves, List.map_append, ihInner hInner, ihRest hRest, primitives]
  | skipped name initial rest ih =>
      obtain ⟨v, later, rfl, hRest⟩ := admits_skipped_iff.mp h
      exact ih hRest

end WireFormat

/-- The size that an accepted record declares is a number that is known by itself exactly if no
member is nested, and then the sum of the widths of the primitives. In general it is the sum of the
sizes of the members, and every cursor that walks the members stands where these sizes say. For a
type that is compiled all the way down it is the sum of the widths of all primitives in it, which
are the same for every value. -/
theorem declared_size_exact :
    (∀ {d : Declaration} {oracle : TypeOracle} {config : Config} {layout : Layout},
      d.validate oracle config = .ok layout →
      ((SizeTerm.total? layout.sizeTerms).isSome ↔
        ∀ m ∈ layout.members, ∃ p, m.type.SpellsPrimitive p) ∧
      (∀ n, SizeTerm.total? layout.sizeTerms = some n ↔
        ∃ primitives, List.Forall₂ (fun m p => m.type.SpellsPrimitive p) layout.members primitives ∧
          (primitives.map Primitive.width).sum = n) ∧
      ∀ env, layout.Spans d env) ∧
    ∀ {t : RecordType} {f : WireFormat}, Derived t f →
      t.size = (f.primitives.map Primitive.width).sum ∧
      ∀ v, t.shape.admits v → ∃ members, v = .record members ∧
        (f.leaves members).map (fun l => l.scalar.primitive) = f.primitives := by
  constructor
  · intro d oracle config layout hValidate
    have hSound : ∀ m ∈ layout.members, m.Sound := fun m => Declaration.sound_of_validate hValidate
    exact ⟨SizeTerm.isSome_total?_iff hSound, fun n => SizeTerm.total?_eq_some_iff hSound,
      Layout.spans hValidate⟩
  · intro t f hDerived
    refine ⟨hDerived.size_eq.trans f.size_eq_sum, fun v hValue => ?_⟩
    obtain ⟨members, rfl, hAdmits⟩ := hDerived.shapedAs v hValue
    exact ⟨members, rfl, WireFormat.primitives_of_admits hAdmits⟩

/-- The two records of which one nests the other. Past its first member the cursor that writes a
letter stands before the stamp, and past all members it stands after five bytes. -/
theorem declared_size_exact_envelope :
    SizeTerm.total? Sample.stampCodec.layout.sizeTerms = some 3 ∧
    Sample.envelope.size = 5 ∧
    (∀ w, WriteOp.runAll (Catalog.environment [("Stamp", Sample.stamp)]) (.record Sample.letter)
        (Sample.envelopeCodec.procedures.write.take 1) (Writer.start [0, 0, 0, 0, 0, 7]) =
          (true, w) → w.position = 2) ∧
    ∃ w, WriteOp.runAll (Catalog.environment [("Stamp", Sample.stamp)]) (.record Sample.letter)
        Sample.envelopeCodec.procedures.write (Writer.start [0, 0, 0, 0, 0, 7]) = (true, w) ∧
      w.position = 5 := by
  have hNames : (Sample.envelopeDeclaration.members.map Member.name).Nodup := by decide
  have hLetter : ((Sample.envelopeCodec.layout.constructor Sample.envelopeDeclaration).shape
      (Catalog.environment [("Stamp", Sample.stamp)])).admits (.record Sample.letter) := rfl
  have hEnvelope : Sample.envelopeDeclaration.validate (KnownTypes.oracle { marked := ["Stamp"] })
      {} = .ok Sample.envelopeCodec.layout := rfl
  have hStamp : Sample.stampDeclaration.validate (KnownTypes.oracle {}) {} =
      .ok Sample.stampCodec.layout := rfl
  have hSpans := (declared_size_exact.1 hEnvelope).2.2
    (Catalog.environment [("Stamp", Sample.stamp)])
  refine ⟨?_, (declared_size_exact.2 Sample.derived_envelope).1, fun w => ?_, ?_⟩
  · have hChar : (TypeExpr.named "char").SpellsPrimitive .char :=
      TypeExpr.primitive?_kind_eq_some_iff.mp rfl
    have hBool : (TypeExpr.named "bool").SpellsPrimitive .bool :=
      TypeExpr.primitive?_kind_eq_some_iff.mp rfl
    exact ((declared_size_exact.1 hStamp).2.1 3).mpr ⟨_, .cons hChar (.cons hBool .nil), rfl⟩
  · exact hSpans.write_stands hNames hLetter
  · exact hSpans.write_ends hNames hLetter (by decide +kernel)

end WireRecord
