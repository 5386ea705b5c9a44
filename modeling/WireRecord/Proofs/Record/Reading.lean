import WireRecord.Proofs.Record.Derived
import WireRecord.Proofs.Record.FormatCanonical

/-!
Reading a compiled record gives what its wire format decodes. The operations bind the values of the
encoded members to local variables, and the constructor puts them back under the names of the
members.
-/

namespace WireRecord

/-- A type is as long as the format and reads what the format decodes. -/
structure ReadsAs (t : RecordType) (f : WireFormat) : Prop where
  size_eq : t.size = f.size
  read_eq : ∀ bytes, t.read bytes =
    if bytes.length < f.size then none else (f.decode bytes).map .record

namespace Slot

/-- The local variables that the values of the members are read into, those of the encoded ones. -/
def locals : List Slot → Members → Locals
  | encoded m :: slots, (_, v) :: members => (m.target, v) :: locals slots members
  | initial _ _ :: slots, _ :: members => locals slots members
  | _, _ => []

/-- Whether a read can give the member: it has the name of the slot, and its initial value unless it
is encoded. -/
def Gives (env : Environment) : Slot → MemberName × Value → Prop
  | encoded m, (name, _) => name = m.name
  | initial name type, member => member = (name, type.initial env)

end Slot

variable {env : Environment} {formats : TypeExpr → WireFormat} {slots : List Slot}

/-- A primitive member is read from its window. -/
theorem ReadOp.run_scalar (env : Environment) {target : Local} {type : TypeExpr} {p : Primitive}
    {order : ByteOrder} {q : Reader} (hKind : type.kind.primitive? = some p) (locals : Locals)
    (hWidth : p.width ≤ q.unread.length) :
    (ReadOp.scalar target type (p.encoding order)).run env q locals =
      (p.ofCode? (order.decode (q.unread.take p.width))).map fun v =>
        ({ q with position := q.position + p.width }, (target, .scalar v) :: locals) := by
  have hDecode : p.decode order q.unread = p.ofCode? (order.decode (q.unread.take p.width)) :=
    if_neg (Nat.not_lt.mpr hWidth)
  simp only [run, hKind, Option.bind_eq_bind, Option.bind_some, Reader.get_eq, Reader.read, hDecode]
  cases p.ofCode? (order.decode (q.unread.take p.width)) <;> rfl

/-- A nested member is what its format decodes. -/
theorem ReadOp.run_nested {target : Local} {type : TypeExpr} {f : WireFormat} {q : Reader}
    (hReads : ReadsAs (env type) f) (locals : Locals) (hLength : f.size ≤ q.unread.length) :
    (ReadOp.nested target type).run env q locals = (f.decode q.unread).map fun members =>
      ({ q with position := q.position + f.size }, (target, .record members) :: locals) := by
  have hValue : RecordCursor.nested (env type) q = (f.decode q.unread).map .record :=
    (hReads.read_eq q.unread).trans (if_neg (Nat.not_lt.mpr hLength))
  have hAdvance : ReadCursor.advance q f.size =
      some { q with position := q.position + f.size } := Reader.advance_eq hLength
  simp only [run, hValue, hReads.size_eq, hAdvance]
  cases f.decode q.unread <;> rfl

/-- The operation of an encoded member, primitive or nested, reads the value that the format decodes
first, and moves past its bytes. -/
theorem NestedAs.run_readOp {m : IncludedMember}
    (h : NestedAs ReadsAs env formats (.encoded m :: slots)) :
    ∃ (width : Nat) (first : Bytes → Option Value),
      (WireFormat.ofSlots env formats (.encoded m :: slots)).size =
        width + (WireFormat.ofSlots env formats slots).size ∧
      (∀ bytes, (WireFormat.ofSlots env formats (.encoded m :: slots)).decode bytes =
        (first bytes).bind fun v =>
          ((WireFormat.ofSlots env formats slots).decode (bytes.drop width)).map
            ((m.name, v) :: ·)) ∧
      ∀ {q : Reader} (locals : Locals), width ≤ q.unread.length →
        m.readOp.run env q locals = (first q.unread).map fun v =>
          ({ q with position := q.position + width }, (m.target, v) :: locals) := by
  obtain ⟨hSound, hNested⟩ := h m (List.mem_cons_self ..)
  -- The type and the classification of the member tell the same of the two cases.
  rcases hSound.primitive_or_nested with ⟨p, hKind, hPrimitive, hEncoding⟩ | ⟨hKind, hUser⟩
  · simp only [WireFormat.ofSlots, hKind, WireFormat.size, IncludedMember.readOp, hPrimitive,
      if_true, hEncoding]
    refine ⟨p.width, fun bytes => (p.ofCode? (m.order.decode (bytes.take p.width))).map .scalar,
      rfl, fun bytes => ?_, fun locals hWidth => ?_⟩
    · simp only [WireFormat.decode]
      cases p.ofCode? (m.order.decode (bytes.take p.width)) <;>
        cases (WireFormat.ofSlots env formats slots).decode (bytes.drop p.width) <;> rfl
    · rw [ReadOp.run_scalar env hKind locals hWidth, Option.map_map]
      rfl
  · simp only [WireFormat.ofSlots, hKind, WireFormat.size, IncludedMember.readOp, hUser,
      Bool.false_eq_true, if_false]
    refine ⟨(formats m.type).size, fun bytes => ((formats m.type).decode bytes).map .record,
      rfl, fun bytes => ?_, fun locals hLength => ?_⟩
    · simp only [WireFormat.decode]
      cases (formats m.type).decode bytes <;>
        cases (WireFormat.ofSlots env formats slots).decode
          (bytes.drop (formats m.type).size) <;> rfl
    · rw [ReadOp.run_nested (hNested hUser) locals hLength, Option.map_map]
      rfl

/-- The operations run as far as the format decodes, and bind what it decodes. -/
theorem NestedAs.runAll_readOp (h : NestedAs ReadsAs env formats slots) {q : Reader}
    (locals : Locals) (hLength : (WireFormat.ofSlots env formats slots).size ≤ q.unread.length) :
    ReadOp.runAll env ((slots.filterMap Slot.included?).map IncludedMember.readOp) q locals =
      ((WireFormat.ofSlots env formats slots).decode q.unread).map fun members =>
        ({ q with position := q.position + (WireFormat.ofSlots env formats slots).size },
          (Slot.locals slots members).reverse ++ locals) := by
  induction slots generalizing q locals with
  | nil => rfl
  | cons slot slots ih =>
      cases slot with
      | initial name type =>
          have hRest := ih h.tail locals hLength
          simp only [List.filterMap_cons, Slot.included?, WireFormat.ofSlots, WireFormat.size,
            WireFormat.decode, hRest]
          cases (WireFormat.ofSlots env formats slots).decode q.unread <;> rfl
      | encoded m =>
          obtain ⟨width, first, hSize, hDecode, hRun⟩ := h.run_readOp
          rw [hSize] at hLength
          have hWidth : width ≤ q.unread.length := by omega
          simp only [List.filterMap_cons, Slot.included?, List.map_cons, ReadOp.runAll,
            hRun _ hWidth, hDecode, hSize]
          cases first q.unread with
          | none => rfl
          | some v =>
              have hRest := ih h.tail (q := { q with position := q.position + width })
                ((m.target, v) :: locals) (by
                  rw [Reader.unread_forward, List.length_drop]
                  omega)
              rw [Option.map_some, Option.bind_some, hRest, Reader.unread_forward, Option.bind_some,
                Option.map_map]
              cases (WireFormat.ofSlots env formats slots).decode (q.unread.drop width) with
              | none => rfl
              | some members => simp [Slot.locals, Nat.add_assoc]

/-- The members that decoding finds fill the slots of the record, each with its name and a value of
its type. -/
theorem WireFormat.gives_of_decode {members : Members} {bytes : Bytes}
    (h : NestedAs ReadsAs env formats slots)
    (hDecode : (ofSlots env formats slots).decode bytes = some members) :
    List.Forall₂ (Slot.Gives env) slots members := by
  induction slots generalizing members bytes with
  | nil =>
      cases hDecode
      exact .nil
  | cons slot slots ih =>
      cases slot with
      | initial name type =>
          obtain ⟨later, hRest, rfl⟩ := decode_skipped_eq_some hDecode
          exact .cons rfl (ih h.tail hRest)
      | encoded m =>
          obtain ⟨width, first, _, hFirst, _⟩ := h.run_readOp
          rw [hFirst] at hDecode
          obtain ⟨v, _, hRest⟩ := Option.bind_eq_some_iff.mp hDecode
          obtain ⟨later, hLater, rfl⟩ := Option.map_eq_some_iff.mp hRest
          exact .cons rfl (ih h.tail hLater)

namespace Slot

variable {members : Members}

/-- The reader has bound the variables of the included members, in order. -/
theorem fst_locals (h : List.Forall₂ (Gives env) slots members) :
    (locals slots members).map Prod.fst =
      (slots.filterMap included?).map IncludedMember.target := by
  induction h with
  | nil => rfl
  | @cons slot member slots members hSlot hSlots ih =>
      cases slot with
      | initial name type => exact ih
      | encoded m => exact congrArg (m.target :: ·) ih

/-- The arguments of the constructor are recovered from the local variables. -/
theorem arguments_eq (h : List.Forall₂ (Gives env) slots members)
    (hNodup : ((slots.filterMap included?).map IncludedMember.target).Nodup) :
    ((slots.filterMap included?).map IncludedMember.target).mapM
        (fun l => (locals slots members).reverse.lookup l) =
      some ((locals slots members).map Prod.snd) := by
  rw [← fst_locals h] at hNodup ⊢
  have hReverse : ((locals slots members).reverse.map Prod.fst).Nodup := by
    rwa [List.map_reverse, List.nodup_reverse]
  refine mapM_fst fun entry hEntry => ?_
  exact lookup_of_mem hReverse (List.mem_reverse.mpr hEntry)

/-- The constructor puts the values back into the slots. -/
theorem apply_eq (c : Constructor) (h : List.Forall₂ (Gives env) slots members)
    (hNodup : ((slots.filterMap included?).map IncludedMember.target).Nodup)
    (hParameters : c.parameters.map Prod.fst =
      (slots.filterMap included?).map IncludedMember.target)
    (hInits : c.inits = slots.map init) :
    c.apply env ((locals slots members).map Prod.snd) = .record members := by
  rw [← fst_locals h] at hNodup hParameters
  have hFound : ∀ entry ∈ locals slots members,
      c.initValue env ((locals slots members).map Prod.snd) (.argument entry.1) =
        some entry.2 := by
    intro entry hEntry
    have hZip := List.zip_of_prod (rfl : (locals slots members).map Prod.fst = _) rfl
    rw [Constructor.initValue, hParameters, ← hZip]
    exact lookup_of_mem hNodup hEntry
  rw [Constructor.apply, hInits, List.filterMap_map]
  generalize (locals slots members).map Prod.snd = arguments at hFound
  congr 1
  clear hNodup hParameters hInits
  induction h with
  | nil => rfl
  | @cons slot member slots members hSlot hSlots ih =>
      cases slot with
      | initial name type =>
          cases hSlot
          simpa [List.filterMap_cons, init, Constructor.initValue] using ih hFound
      | encoded m =>
          obtain ⟨name, v⟩ := member
          cases hSlot
          rw [locals, List.forall_mem_cons] at hFound
          simpa [List.filterMap_cons, init, hFound.1] using ih hFound.2

end Slot

/-- A read procedure gives what the format decodes: the operations bind the decoded values, and the
constructor takes them as its arguments. -/
theorem NestedAs.runReads {d : Declaration} {oracle : TypeOracle} {config : Config}
    {layout : Layout} (h : NestedAs ReadsAs env formats (d.slots oracle))
    (hValidate : d.validate oracle config = .ok layout) {q : Reader}
    (hLength : (WireFormat.ofSlots env formats (d.slots oracle)).size ≤ q.unread.length) :
    (layout.procedures d).runReads env layout.readProcedure q =
      ((WireFormat.ofSlots env formats (d.slots oracle)).decode q.unread).map .record := by
  have hMembers := Declaration.members_eq_slots hValidate
  have hTargets := d.nodup_targets oracle
  have hRun := h.runAll_readOp [] hLength
  rw [← hMembers] at hRun
  simp only [Procedures.runReads, Layout.readProcedure, hRun, List.append_nil]
  cases hDecode : (WireFormat.ofSlots env formats (d.slots oracle)).decode q.unread with
  | none => rfl
  | some members =>
      have hGives := WireFormat.gives_of_decode h hDecode
      have hArguments := Slot.arguments_eq hGives hTargets
      rw [← hMembers] at hArguments
      have hApply := Slot.apply_eq (layout.constructor d) hGives hTargets
        (Declaration.parameters_eq_slots hValidate) (Declaration.inits_eq_slots hValidate)
      simp only [Option.map_some, Option.bind_eq_bind, Option.bind_some, hArguments,
        Layout.procedures, hApply]
      rfl

/-- A compiled record reads what its format decodes if its nested types do. -/
theorem ReadsAs.compile {d : Declaration} {oracle : TypeOracle} {config : Config} {c : Codec}
    (initial : Value) (hCompile : d.compile oracle config = .ok c)
    (hNested : ∀ m ∈ c.layout.members,
      m.classification.isPrimitive = false → ReadsAs (env m.type) (formats m.type)) :
    ReadsAs { c.recordType env with initial } (.ofSlots env formats (d.slots oracle)) := by
  obtain ⟨layout, hValidate, rfl⟩ := Declaration.compile_eq_ok hCompile
  have hSlots := NestedAs.of_validate hValidate hNested
  have hSize := hSlots.sizeIn_eq ReadsAs.size_eq hValidate
  refine ⟨hSize, fun bytes => ?_⟩
  change (layout.procedures d).runRead env bytes = _
  rw [Procedures.runRead, hSize]
  by_cases hShort : bytes.length < (WireFormat.ofSlots env formats (d.slots oracle)).size
  · rw [if_pos hShort, if_pos hShort]
  · rw [if_neg hShort, if_neg hShort]
    exact hSlots.runReads hValidate (q := Reader.start bytes) (Nat.not_lt.mp hShort)

/-- By induction on the nesting: a type reads what its format decodes. -/
theorem Derived.readsAs {t : RecordType} {f : WireFormat} (h : Derived t f) : ReadsAs t f := by
  induction h with
  | compile formats initial hNames hCompile hNested ih => exact .compile initial hCompile ih

end WireRecord
