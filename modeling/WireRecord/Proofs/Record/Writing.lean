import Mathlib.Data.List.TakeWhile
import WireRecord.Proofs.Record.Derived
import WireRecord.Proofs.Record.FormatLaws

/-!
Writing a compiled record leaves the encodings of its leaves in the buffer, in the order of the wire
format. A value with a leaf that cannot be encoded leaves those before it, and is reported as not
written.
-/

namespace WireRecord

namespace Leaf

/-- The bytes that are written of the leaves: those before the first leaf that cannot be encoded. -/
def written (leaves : List Leaf) : Bytes := (leaves.takeWhile fits).flatMap bytes

variable {first second : List Leaf}

theorem written_eq (h : first.all fits) : written first = first.flatMap bytes := by
  rw [written, List.takeWhile_eq_self_iff.mpr (List.all_eq_true.mp h)]

/-- Leaves that can be encoded are written before what follows them. -/
theorem written_append_of_fits (h : first.all fits) :
    written (first ++ second) = first.flatMap bytes ++ written second := by
  rw [written, List.takeWhile_append_of_pos (List.all_eq_true.mp h), List.flatMap_append, written]

/-- Nothing is written after a leaf that does not fit. -/
theorem written_append_of_not_fits (h : first.all fits = false) :
    written (first ++ second) = written first := by
  induction first with
  | nil => cases h
  | cons leaf first ih =>
      cases hLeaf : leaf.fits with
      | false => simp [written, hLeaf]
      | true =>
          have hRest : first.all fits = false := by simpa [hLeaf] using h
          have hTail := ih hRest
          simp only [written] at hTail ⊢
          simp [hLeaf, hTail]

end Leaf

namespace Writer

/-- The cursor past bytes that are written at it. -/
def pass (w : Writer) (bytes : Bytes) : Writer :=
  { w.fill bytes with position := w.position + bytes.length }

variable {w : Writer}

@[simp] theorem length_tail (w : Writer) : w.tail.length = w.remaining := List.length_drop

theorem fill_nil (w : Writer) : w.fill [] = w := by simp [fill, overlay, tail]

theorem pass_nil (w : Writer) : w.pass [] = w := by simp [pass, fill_nil]

/-- Writing into the tail and putting it back is writing at the cursor. -/
theorem fill_overlay (w : Writer) (bytes : Bytes) :
    w.fill (overlay bytes w.tail) = w.fill bytes := by
  rw [fill, fill, overlay_overlay]

theorem remaining_fill (w : Writer) (bytes : Bytes) : (w.fill bytes).remaining = w.remaining := by
  simp only [remaining, fill, List.length_append, List.length_take, length_overlay, length_tail]
  omega

/-- Unless nothing is written, the cursor past some bytes stands after what stood before it and
these bytes. -/
theorem pass_cases {bytes : Bytes} (hLength : bytes.length ≤ w.remaining) :
    bytes = [] ∨
      (w.pass bytes).buffer = (w.buffer.take w.position ++ bytes) ++ w.tail.drop bytes.length ∧
        (w.buffer.take w.position ++ bytes).length = (w.pass bytes).position := by
  rcases Nat.le_total w.position w.buffer.length with hInside | hOutside
  · have hTail : bytes.length ≤ w.tail.length := by rwa [length_tail]
    refine .inr ⟨?_, ?_⟩
    · rw [pass, fill, overlay_eq_append hTail, List.append_assoc]
    · rw [List.length_append, List.length_take, Nat.min_eq_left hInside, pass]
  · rw [remaining] at hLength
    exact .inl (List.length_eq_zero_iff.mp (by omega))

/-- Behind a pass the buffer up to the cursor has grown by the bytes passed. -/
theorem take_pass {bytes : Bytes} (hLength : bytes.length ≤ w.remaining) :
    (w.pass bytes).buffer.take (w.pass bytes).position = w.buffer.take w.position ++ bytes := by
  rcases pass_cases hLength with rfl | ⟨hBuffer, hPosition⟩
  · rw [pass_nil, List.append_nil]
  · rw [hBuffer, List.take_left' hPosition]

theorem tail_pass {bytes : Bytes} (hLength : bytes.length ≤ w.remaining) :
    (w.pass bytes).tail = w.tail.drop bytes.length := by
  rcases pass_cases hLength with rfl | ⟨hBuffer, hPosition⟩
  · rw [pass_nil, List.length_nil, List.drop_zero]
  · rw [tail, hBuffer, List.drop_left' hPosition]

/-- Bytes written one after the other are their concatenation written at once. -/
theorem fill_pass {first : Bytes} (hLength : first.length ≤ w.remaining) (second : Bytes) :
    ((w.pass first).fill second).buffer = (w.fill (first ++ second)).buffer := by
  have hTail : first.length ≤ w.tail.length := by rwa [length_tail]
  rw [fill, fill, take_pass hLength, tail_pass hLength, overlay_append second hTail,
    List.append_assoc]

/-- Two passes are one pass with all bytes, if there is room. -/
theorem pass_pass {first : Bytes} (hLength : first.length ≤ w.remaining) (second : Bytes) :
    (w.pass first).pass second = w.pass (first ++ second) := by
  have hBuffer := fill_pass hLength second
  simp only [pass] at hBuffer ⊢
  rw [mk.injEq]
  exact ⟨hBuffer, by rw [List.length_append, Nat.add_assoc]⟩

theorem writeByte_eq {v : Scalar} (hSingle : v.primitive.isSingleByte) (w : Writer)
    (order : ByteOrder) : w.writeByte v = w.write v order := by
  have hWidth : v.width = 1 := by simpa [Primitive.isSingleByte, Scalar.width] using hSingle
  obtain ⟨byte, hByte, hCode⟩ : ∃ byte, v.toByte? = some byte ∧ v.code? = some byte.toNat := by
    cases v with
    | bool b => cases b <;> exact ⟨_, rfl, rfl⟩
    | u8 x | i8 x => exact ⟨_, rfl, rfl⟩
    | i16 | u16 | i32 | u32 | i64 | u64 | f32 | f64 | char => cases hSingle
  have hEncode : order.encode 1 byte.toNat = [byte] := by
    cases order <;> simp [ByteOrder.encode, littleBytes]
  rcases Nat.lt_or_ge w.position w.buffer.length with hInside | hOutside
  · have hSpace : ¬w.remaining < 1 := by
      rw [remaining]
      omega
    have hTarget : ¬(w.tail.take 1).length < 1 := by
      rw [List.length_take, length_tail]
      omega
    have hDrop : (w.tail.take 1).drop 1 = [] := by simp
    simp only [writeByte, write, Scalar.encode, hByte, hCode, hWidth, hSpace, hTarget, hEncode,
      hDrop, if_false, if_true, List.getElem?_eq_getElem hInside,
      List.set_eq_take_append_cons_drop, hInside, List.append_nil, List.append_assoc,
      List.singleton_append]
  · have hSpace : w.remaining < 1 := by
      rw [remaining]
      omega
    simp [writeByte, write, hWidth, hSpace, List.getElem?_eq_none hOutside]

/-- Where a primitive has room it is written at the cursor, in the byte order asked for, unless it
cannot be encoded. -/
theorem write_eq {l : Leaf} (hWidth : l.scalar.width ≤ w.remaining) :
    w.write l.scalar l.order = if l.fits then some (w.pass l.bytes) else none := by
  rw [write, if_neg (Nat.not_lt.mpr hWidth)]
  cases hFits : l.fits with
  | false => simp [Leaf.encode_eq_none hFits]
  | true =>
      have hTail : (w.tail.take l.scalar.width).length = l.scalar.width := by
        rw [List.length_take, length_tail, Nat.min_eq_left hWidth]
      have hBytes : l.bytes.length ≤ w.tail.length := by rwa [Leaf.length_bytes, length_tail]
      have hDrop : (w.tail.take l.scalar.width).drop l.scalar.width = [] := by
        rw [List.drop_eq_nil_iff, hTail]
      have hRest : w.buffer.drop (w.position + l.scalar.width) = w.tail.drop l.bytes.length := by
        rw [Leaf.length_bytes, tail, List.drop_drop]
      rw [Leaf.encode_eq hFits hTail.ge, hDrop, List.append_nil, hRest, if_pos rfl, pass, fill,
        overlay_eq_append hBytes, Leaf.length_bytes, ← List.append_assoc]

/-- A cursor writes a primitive in the byte order that is asked for, also if it takes one byte. -/
theorem put_eq_write (w : Writer) (l : Leaf) :
    w.put l.scalar (l.scalar.primitive.encoding l.order) = w.write l.scalar l.order := by
  by_cases hSingle : l.scalar.primitive.isSingleByte
  · rw [Primitive.encoding, if_pos hSingle]
    exact writeByte_eq hSingle w l.order
  · rw [Primitive.encoding, if_neg hSingle]
    cases l.order <;> rfl

/-- A leaf for which there is room is written in any encoding, unless it does not fit. -/
theorem put_eq {l : Leaf} (hWidth : l.scalar.width ≤ w.remaining) :
    w.put l.scalar (l.scalar.primitive.encoding l.order) =
      if l.fits then some (w.pass l.bytes) else none := by
  rw [put_eq_write, write_eq hWidth]

end Writer

/-- What a run of write operations has done: written all the leaves and moved past them, or written
those before one that cannot be encoded, and failed. -/
inductive Wrote (w : Writer) (leaves : List Leaf) : Bool × Writer → Prop where
  | all (hFits : leaves.all Leaf.fits) : Wrote w leaves (true, w.pass (leaves.flatMap Leaf.bytes))
  | stopped {w' : Writer} (hStop : leaves.all Leaf.fits = false)
      (hBuffer : w'.buffer = (w.fill (Leaf.written leaves)).buffer) : Wrote w leaves (false, w')

namespace Wrote

variable {w w' : Writer} {first second : List Leaf} {out : Bool × Writer}

theorem nil (w : Writer) : Wrote w [] (true, w) := by
  have hAll : Wrote w [] (true, w.pass []) := .all rfl
  rwa [Writer.pass_nil] at hAll

/-- A run that has failed has written no later leaf. -/
theorem append_stopped (h : Wrote w first (false, w')) (second : List Leaf) :
    Wrote w (first ++ second) (false, w') := by
  cases h with
  | stopped hStop hBuffer =>
      refine .stopped ?_ ?_
      · rw [List.all_append, hStop, Bool.false_and]
      · rw [hBuffer, Leaf.written_append_of_not_fits hStop]

/-- A run that has not failed goes on with the later leaves. -/
theorem append (hLength : (first.flatMap Leaf.bytes).length ≤ w.remaining)
    (h : Wrote w first (true, w')) (hNext : Wrote w' second out) :
    Wrote w (first ++ second) out := by
  cases h with
  | all hFits =>
      cases hNext with
      | all hFits' =>
          rw [Writer.pass_pass hLength, ← List.flatMap_append]
          refine .all ?_
          rw [List.all_append, hFits, hFits', Bool.true_and]
      | stopped hStop hBuffer =>
          refine .stopped ?_ ?_
          · rw [List.all_append, hStop, Bool.and_false]
          · rw [hBuffer, Writer.fill_pass hLength, Leaf.written_append_of_fits hFits]

theorem remaining_eq (h : Wrote w first (true, w')) :
    w'.remaining = w.remaining - (first.flatMap Leaf.bytes).length := by
  cases h with
  | all hFits =>
      have hBuffer := w.remaining_fill (first.flatMap Leaf.bytes)
      simp only [Writer.remaining, Writer.pass, Writer.fill] at hBuffer ⊢
      omega

/-- A write succeeds exactly if all leaves fit, and the buffer shows what has been written. -/
theorem buffer_eq (h : Wrote w first out) :
    out.1 = first.all Leaf.fits ∧ out.2.buffer = (w.fill (Leaf.written first)).buffer := by
  cases h with
  | all hFits => exact ⟨hFits.symm, by rw [Leaf.written_eq hFits, Writer.pass]⟩
  | stopped hStop hBuffer => exact ⟨hStop.symm, hBuffer⟩

end Wrote

/-- A type is as long as the format, and writes the leaves that the format finds in a value. -/
structure WritesAs (t : RecordType) (f : WireFormat) : Prop where
  size_eq : t.size = f.size
  write_eq : ∀ {members : Members} (bytes : Bytes), f.admits members →
    t.write (.record members) bytes =
      if bytes.length < f.size then (false, bytes)
      else ((f.leaves members).all Leaf.fits, overlay (Leaf.written (f.leaves members)) bytes)

/-- The step that writes a scalar writes its leaf. -/
theorem Wrote.scalar (env : Environment) {self : Value} {name : MemberName} {l : Leaf} {w : Writer}
    (hSelf : self.member? name = some (.scalar l.scalar)) (hWidth : l.scalar.width ≤ w.remaining) :
    Wrote w [l]
      ((WriteOp.scalar name (l.scalar.primitive.encoding l.order)).run env self w) := by
  simp only [WriteOp.run, hSelf, Option.bind_some, Value.scalar?, Writer.put_eq hWidth]
  cases hFits : l.fits with
  | false =>
      refine .stopped (by simp [hFits]) ?_
      simp [Leaf.written, hFits, Writer.fill_nil]
  | true =>
      have hAll : Wrote w [l] (true, w.pass ([l].flatMap Leaf.bytes)) := .all (by simp [hFits])
      rwa [List.flatMap_singleton] at hAll

theorem Wrote.nested {env : Environment} {self : Value} {name : MemberName} {type : TypeExpr}
    {f : WireFormat} {members : Members} {w : Writer} (hWrites : WritesAs (env type) f)
    (hSelf : self.member? name = some (.record members)) (hAdmits : f.admits members)
    (hLength : f.size ≤ w.remaining) :
    Wrote w (f.leaves members) ((WriteOp.nested name type).run env self w) := by
  have hLong : ¬w.tail.length < f.size := by rwa [Writer.length_tail, Nat.not_lt]
  have hSpace : ¬(w.fill (Leaf.written (f.leaves members))).remaining < (env type).size := by
    rwa [Writer.remaining_fill, hWrites.size_eq, Nat.not_lt]
  simp only [WriteOp.run, hSelf, hWrites.write_eq _ hAdmits, if_neg hLong, Writer.fill_overlay]
  cases hFits : (f.leaves members).all Leaf.fits with
  | false => exact .stopped hFits rfl
  | true =>
      have hSize : (env type).size = ((f.leaves members).flatMap Leaf.bytes).length :=
        hWrites.size_eq.trans (WireFormat.length_encode hAdmits).symm
      have hAll :
          Wrote w (f.leaves members) (true, w.pass ((f.leaves members).flatMap Leaf.bytes)) :=
        .all hFits
      rw [Leaf.written_eq hFits, hSize] at hSpace
      simp only [if_true, Writer.advance, Leaf.written_eq hFits, hSize, if_neg hSpace]
      exact hAll

variable {env : Environment} {formats : TypeExpr → WireFormat} {slots : List Slot}

/-- The operation of an encoded member, primitive or nested, writes the leaves that the format finds
first. -/
theorem NestedAs.run_writeOp {m : IncludedMember}
    (h : NestedAs WritesAs env formats (.encoded m :: slots)) {members : Members}
    (hAdmits : (WireFormat.ofSlots env formats (.encoded m :: slots)).admits members) :
    ∃ (v : Value) (later : Members) (first : List Leaf),
      members = (m.name, v) :: later ∧ (WireFormat.ofSlots env formats slots).admits later ∧
      (WireFormat.ofSlots env formats (.encoded m :: slots)).leaves members =
        first ++ (WireFormat.ofSlots env formats slots).leaves later ∧
      ∀ {self : Value} {w : Writer}, self.member? m.name = some v →
        (first.flatMap Leaf.bytes).length ≤ w.remaining →
        Wrote w first (m.writeOp.run env self w) := by
  obtain ⟨hSound, hNested⟩ := h m (List.mem_cons_self ..)
  rcases hSound.primitive_or_nested with ⟨p, hKind, hPrimitive, hEncoding⟩ | ⟨hKind, hUser⟩
  · simp only [WireFormat.ofSlots, hKind] at hAdmits ⊢
    obtain ⟨v, later, rfl, rfl, hRest⟩ := WireFormat.admits_scalar_iff.mp hAdmits
    refine ⟨.scalar v, later, [⟨v, m.order⟩], rfl, hRest, rfl, fun {self w} hSelf hLength => ?_⟩
    have hWidth : v.width ≤ w.remaining := by simpa using hLength
    simp only [IncludedMember.writeOp, hPrimitive, if_true, hEncoding]
    exact .scalar env hSelf hWidth
  · simp only [WireFormat.ofSlots, hKind] at hAdmits ⊢
    obtain ⟨inner, later, rfl, hInner, hRest⟩ := WireFormat.admits_nested_iff.mp hAdmits
    refine ⟨.record inner, later, (formats m.type).leaves inner, rfl, hRest, rfl,
      fun {self w} hSelf hLength => ?_⟩
    have hSize := WireFormat.length_encode hInner
    rw [WireFormat.encode] at hSize
    simp only [IncludedMember.writeOp, hUser, Bool.false_eq_true, if_false]
    exact .nested (hNested hUser) hSelf hInner (hSize ▸ hLength)

/-- The operations of the encoded members write the leaves that the format finds. -/
theorem NestedAs.runAll_writeOp (h : NestedAs WritesAs env formats slots) {members : Members}
    (hAdmits : (WireFormat.ofSlots env formats slots).admits members) {self : Value} {w : Writer}
    (hSelf : ∀ member ∈ members, self.member? member.1 = some member.2)
    (hLength : (WireFormat.ofSlots env formats slots).size ≤ w.remaining) :
    Wrote w ((WireFormat.ofSlots env formats slots).leaves members)
      (WriteOp.runAll env self
        ((slots.filterMap Slot.included?).map IncludedMember.writeOp) w) := by
  induction slots generalizing members w with
  | nil =>
      obtain rfl := WireFormat.admits_nil_iff.mp hAdmits
      exact .nil w
  | cons slot slots ih =>
      cases slot with
      | initial name type =>
          obtain ⟨v, later, rfl, hRest⟩ := WireFormat.admits_skipped_iff.mp hAdmits
          rw [List.forall_mem_cons] at hSelf
          exact ih h.tail hRest hSelf.2 hLength
      | encoded m =>
          obtain ⟨v, later, first, rfl, hRest, hLeaves, hRun⟩ := h.run_writeOp hAdmits
          have hSize := WireFormat.length_encode hAdmits
          have hSizeRest := WireFormat.length_encode hRest
          rw [WireFormat.encode, hLeaves, List.flatMap_append, List.length_append] at hSize
          rw [WireFormat.encode] at hSizeRest
          rw [List.forall_mem_cons] at hSelf
          have hFirst : Wrote w first (m.writeOp.run env self w) := hRun hSelf.1 (by omega)
          rw [hLeaves]
          simp only [List.filterMap_cons, Slot.included?, List.map_cons, WriteOp.runAll]
          -- a member that cannot be encoded ends the run, and its part of the leaves is cut there
          generalize m.writeOp.run env self w = out at hFirst ⊢
          obtain ⟨done, w'⟩ := out
          cases done with
          | false => exact hFirst.append_stopped _
          | true =>
              have hRemaining := hFirst.remaining_eq
              have hLater := ih h.tail hRest hSelf.2 (w := w') (by omega)
              exact hFirst.append (by omega) hLater

/-- Admitted members have the names of the slots, in order. -/
theorem WireFormat.names_of_admits (env : Environment) (formats : TypeExpr → WireFormat)
    {slots : List Slot} {members : Members} (hAdmits : (ofSlots env formats slots).admits members) :
    members.map Prod.fst = slots.map Slot.name := by
  induction slots generalizing members with
  | nil =>
      obtain rfl := admits_nil_iff.mp hAdmits
      rfl
  | cons slot slots ih =>
      cases slot with
      | initial name type =>
          obtain ⟨v, later, rfl, hRest⟩ := admits_skipped_iff.mp hAdmits
          exact congrArg (name :: ·) (ih hRest)
      | encoded m =>
          simp only [ofSlots] at hAdmits
          split at hAdmits
          · obtain ⟨v, later, rfl, _, hRest⟩ := admits_scalar_iff.mp hAdmits
            exact congrArg (m.name :: ·) (ih hRest)
          · obtain ⟨inner, later, rfl, _, hRest⟩ := admits_nested_iff.mp hAdmits
            exact congrArg (m.name :: ·) (ih hRest)

theorem Value.member?_record (members : Members) (name : MemberName) :
    (Value.record members).member? name = members.lookup name := by
  induction members with
  | nil => rfl
  | cons member members ih =>
      obtain ⟨other, v⟩ := member
      simp only [member?] at ih ⊢
      by_cases hName : other = name
      · simp [hName]
      · have hOther : (name == other) = false := beq_false_of_ne fun hEq => hName hEq.symm
        simp [hName, hOther, List.lookup_cons, ih]

/-- A compiled record writes the leaves that its format finds if its nested types do. -/
theorem WritesAs.compile {d : Declaration} {oracle : TypeOracle} {config : Config} {c : Codec}
    (initial : Value) (hNames : (d.members.map Member.name).Nodup)
    (hCompile : d.compile oracle config = .ok c)
    (hNested : ∀ m ∈ c.layout.members,
      m.classification.isPrimitive = false → WritesAs (env m.type) (formats m.type)) :
    WritesAs { c.recordType env with initial } (.ofSlots env formats (d.slots oracle)) := by
  obtain ⟨layout, hValidate, rfl⟩ := Declaration.compile_eq_ok hCompile
  have hSlots := NestedAs.of_validate hValidate hNested
  have hSize := hSlots.sizeIn_eq WritesAs.size_eq hValidate
  refine ⟨hSize, fun {members} bytes hAdmits => ?_⟩
  change (layout.procedures d).runWrite env (.record members) bytes = _
  rw [Procedures.runWrite, hSize]
  by_cases hShort : bytes.length < (WireFormat.ofSlots env formats (d.slots oracle)).size
  · rw [if_pos hShort, if_pos hShort]
  · rw [if_neg hShort, if_neg hShort]
    have hNodup : (members.map Prod.fst).Nodup := by
      rw [WireFormat.names_of_admits env formats hAdmits]
      exact Declaration.nodup_slot_names hNames oracle
    have hSelf : ∀ member ∈ members, (Value.record members).member? member.1 = some member.2 := by
      intro member hMember
      rw [Value.member?_record]
      exact lookup_of_mem hNodup hMember
    have hWrote := hSlots.runAll_writeOp hAdmits hSelf (w := Writer.start bytes)
      (Nat.not_lt.mp hShort)
    rw [← Declaration.members_eq_slots hValidate] at hWrote
    exact Prod.ext hWrote.buffer_eq.1 hWrote.buffer_eq.2

/-- By induction on the nesting: a type writes the leaves that its format finds. -/
theorem Derived.writesAs {t : RecordType} {f : WireFormat} (h : Derived t f) : WritesAs t f := by
  induction h with
  | compile formats initial hNames hCompile hNested ih => exact .compile initial hNames hCompile ih

end WireRecord
