import WireRecord.Proofs.Codec.Reordering
import WireRecord.Proofs.Record.Size

/-!
The byte order of a member is local to the member. A run of write operations neither reads nor
changes what stands before the cursor, so that two runs which differ in one member's bytes differ in
nothing else; and the bytes of a number in one order are those in the other order, reversed.
-/

namespace WireRecord

/-- A byte string with `width` bytes from `start` on reversed. -/
def reverseWindow (start width : Nat) (bytes : Bytes) : Bytes :=
  bytes.take start ++ ((bytes.drop start).take width).reverse ++ bytes.drop (start + width)

/-- To reverse a window touches nothing before or behind it. -/
theorem reverseWindow_eq (before window after : Bytes) :
    reverseWindow before.length window.length (before ++ window ++ after) =
      before ++ window.reverse ++ after := by
  have hAfter : (before ++ window ++ after).drop (before.length + window.length) = after :=
    List.drop_left' List.length_append
  rw [reverseWindow, hAfter, List.append_assoc before, List.take_left, List.drop_left,
    List.take_left]

/-- In the other byte order the bytes of a scalar stand the other way round. -/
theorem Leaf.bytes_of_ne {v : Scalar} {old new : ByteOrder} (hOrder : old ≠ new) :
    bytes ⟨v, new⟩ = (bytes ⟨v, old⟩).reverse := by
  cases old <;> cases new <;> simp_all [bytes, ByteOrder.encode]

theorem Primitive.width_pos (p : Primitive) : 0 < p.width := by cases p <;> decide

namespace Writer

/-- The cursor over the same bytes with others before them. -/
def behind (before : Bytes) (w : Writer) : Writer where
  buffer := before ++ w.buffer
  position := before.length + w.position

variable {before : Bytes}

@[simp] theorem tail_behind (w : Writer) : (w.behind before).tail = w.tail :=
  List.drop_length_add_append ..

@[simp] theorem remaining_behind (w : Writer) : (w.behind before).remaining = w.remaining := by
  rw [← length_tail, tail_behind, length_tail]

/-- From here on, one lemma for each operation: it does not see the bytes that stand before its
buffer. -/
theorem fill_behind (w : Writer) (bytes : Bytes) :
    (w.behind before).fill bytes = (w.fill bytes).behind before := by
  rw [fill, fill, tail_behind, behind, behind, List.take_length_add_append, List.append_assoc]

theorem advance_behind (w : Writer) (count : Nat) :
    (w.behind before).advance count = (w.advance count).map (behind before) := by
  rw [advance, advance, remaining_behind]
  split
  · rfl
  · rw [Option.map_some, behind, behind, Nat.add_assoc]

theorem writeByte_behind (w : Writer) (v : Scalar) :
    (w.behind before).writeByte v = (w.writeByte v).map (behind before) := by
  have hAt : (w.behind before).buffer[(w.behind before).position]? = w.buffer[w.position]? := by
    rw [behind, List.getElem?_append_right (Nat.le_add_right ..), Nat.add_sub_cancel_left]
  rw [writeByte, writeByte, hAt]
  split
  · rw [Option.map_some, behind, behind, List.set_append_right _ _ (Nat.le_add_right ..),
      Nat.add_sub_cancel_left, Nat.add_assoc]
  · rfl

theorem write_behind (w : Writer) (v : Scalar) (order : ByteOrder) :
    (w.behind before).write v order = (w.write v order).map (behind before) := by
  rw [write, write, remaining_behind, tail_behind]
  split
  · rfl
  · split
    · rfl
    · rw [Option.map_some, behind, behind, List.take_length_add_append, Nat.add_assoc,
        List.drop_length_add_append, List.append_assoc, List.append_assoc, List.append_assoc]

theorem put_behind (w : Writer) (v : Scalar) (encoding : Encoding) :
    (w.behind before).put v encoding = (w.put v encoding).map (behind before) := by
  cases encoding with
  | byte => exact w.writeByte_behind v
  | ordered order =>
      cases order with
      | little => exact w.write_behind v .little
      | big => exact w.write_behind v .big

/-- The cursor past some bytes has them before it, and what it had before it. -/
theorem pass_eq_behind {w : Writer} {bytes : Bytes} (hBytes : bytes ≠ [])
    (hLength : bytes.length ≤ w.remaining) :
    w.pass bytes =
      (start (w.tail.drop bytes.length)).behind (w.buffer.take w.position ++ bytes) := by
  rcases pass_cases hLength with hNone | ⟨hBuffer, hPosition⟩
  · exact absurd hNone hBytes
  · rw [behind, start, mk.injEq]
    exact ⟨hBuffer, hPosition.symm⟩

end Writer

namespace WriteOp

variable {env : Environment} {self : Value} {before : Bytes}

/-- An operation does the same whatever stands before the cursor, and leaves it there. -/
theorem run_behind (op : WriteOp) (w : Writer) :
    op.run env self (w.behind before) =
      ((op.run env self w).1, (op.run env self w).2.behind before) := by
  cases op with
  | scalar name encoding =>
      simp only [run, Writer.put_behind]
      cases (self.member? name).bind Value.scalar? with
      | none => rfl
      | some v =>
          cases hPut : w.put v encoding with
          | none => simp [hPut]
          | some next => simp [hPut]
  | nested name type =>
      cases hMember : self.member? name with
      | none => simp [run, hMember]
      | some v =>
          rcases hWrite : (env type).write v w.tail with ⟨done, tail⟩
          cases done with
          | false => simp [run, hMember, hWrite, Writer.fill_behind]
          | true =>
              cases hMove : (w.fill tail).advance (env type).size <;>
                simp [run, hMember, hWrite, Writer.fill_behind, Writer.advance_behind, hMove]

/-- A run of steps does not see them either, so that what comes before it may change. -/
theorem runAll_behind (ops : List WriteOp) (w : Writer) :
    runAll env self ops (w.behind before) =
      ((runAll env self ops w).1, (runAll env self ops w).2.behind before) := by
  induction ops generalizing w with
  | nil => rfl
  | cons op ops ih =>
      rw [runAll, runAll, run_behind]
      obtain ⟨done, next⟩ := op.run env self w
      cases done with
      | false => rfl
      | true => exact ih next

theorem runAll_append (first second : List WriteOp) (w : Writer) :
    runAll env self (first ++ second) w =
      if (runAll env self first w).1 then runAll env self second (runAll env self first w).2
      else runAll env self first w := by
  induction first generalizing w with
  | nil => rfl
  | cons op first ih =>
      rw [List.cons_append, runAll, runAll]
      obtain ⟨done, next⟩ := op.run env self w
      cases done with
      | false => rfl
      | true => exact ih next

/-- The step of a member of several bytes is the write of its value. -/
theorem run_ordered {name : MemberName} {v : Scalar} (hSelf : self.member? name = some (.scalar v))
    (order : ByteOrder) (w : Writer) : (scalar name (.ordered order)).run env self w =
      match w.write v order with
      | some next => (true, next)
      | none => (false, w) := by
  rw [run, hSelf]
  cases order <;> rfl

/-- A number of several bytes is written in both orders or in neither, and what is before the cursor
then ends with its bytes. -/
theorem run_ordered_cases {name : MemberName} {v : Scalar}
    (hSelf : self.member? name = some (.scalar v)) (w : Writer) :
    (∀ order, (scalar name (.ordered order)).run env self w = (false, w)) ∨
      ∃ before rest, before.length = w.position ∧
        ∀ order, (scalar name (.ordered order)).run env self w =
          (true, (Writer.start rest).behind (before ++ Leaf.bytes ⟨v, order⟩)) := by
  by_cases hRoom : v.width ≤ w.remaining
  · have hWrite (order : ByteOrder) := @Writer.write_eq w ⟨v, order⟩ hRoom
    cases hFits : v.code?.isSome with
    | false =>
        refine .inl fun order => ?_
        rw [run_ordered hSelf, hWrite, Leaf.fits, hFits]
        rfl
    | true =>
        have hWidth : 0 < v.width := v.primitive.width_pos
        have hInside : w.position ≤ w.buffer.length := by
          rw [Writer.remaining] at hRoom
          omega
        refine .inr ⟨w.buffer.take w.position, w.tail.drop v.width,
          List.length_take_of_le hInside, fun order => ?_⟩
        have hBytes : Leaf.bytes ⟨v, order⟩ ≠ [] := by
          rw [← List.length_pos_iff, Leaf.length_bytes]
          exact hWidth
        rw [run_ordered hSelf, hWrite, Leaf.fits, hFits,
          Writer.pass_eq_behind hBytes (Leaf.length_bytes _ ▸ hRoom), Leaf.length_bytes]
        rfl
  · refine .inl fun order => ?_
    rw [run_ordered hSelf, Writer.write, if_pos (Nat.not_le.mp hRoom)]

end WriteOp

/-- A run succeeds exactly if another one does, and then leaves the bytes that the other one leaves,
with a window reversed. -/
def Reverses (start width : Nat) (first second : Bool × Bytes) : Prop :=
  second.1 = first.1 ∧ (first.1 = true → second.2 = reverseWindow start width first.2)

/-- Runs which differ in the order of one number leave the same bytes but for those of the number,
which are reversed. -/
theorem WriteOp.reverses_runAll {env : Environment} {self : Value} {ops ops' : List WriteOp}
    {place start : Nat} {name : MemberName} {v : Scalar} {old new : ByteOrder} {w : Writer}
    (hOrder : old ≠ new) (hSelf : self.member? name = some (.scalar v))
    (hOps : ReplacedAt place (.scalar name (.ordered old)) (.scalar name (.ordered new)) ops ops')
    (hStart : ∀ next, runAll env self (ops.take place) w = (true, next) → next.position = start) :
    Reverses start v.width
      ((runAll env self ops w).1, (runAll env self ops w).2.buffer)
      ((runAll env self ops' w).1, (runAll env self ops' w).2.buffer) := by
  obtain ⟨before, after, rfl, rfl, rfl⟩ := hOps
  rw [List.take_left] at hStart
  rw [runAll_append, runAll_append]
  rcases hFirst : runAll env self before w with ⟨done, next⟩
  cases done with
  | false => exact ⟨rfl, fun hDone => absurd hDone Bool.false_ne_true⟩
  | true =>
      rw [if_pos rfl, if_pos rfl]
      rcases @run_ordered_cases env self name v hSelf next with hFails | ⟨done, rest, hDone, hRuns⟩
      · rw [runAll, runAll, hFails, hFails]
        exact ⟨rfl, fun hDone => absurd hDone Bool.false_ne_true⟩
      -- the steps after the member do not see its bytes, so they run alike behind both orders
      · have hRest (order : ByteOrder) :
            runAll env self (.scalar name (.ordered order) :: after) next =
              ((runAll env self after (Writer.start rest)).1,
                (runAll env self after (Writer.start rest)).2.behind
                  (done ++ Leaf.bytes ⟨v, order⟩)) := by
          rw [runAll, hRuns]
          exact runAll_behind after _
        rw [hRest, hRest]
        refine ⟨rfl, fun _ => ?_⟩
        have hWindow := reverseWindow_eq done (Leaf.bytes ⟨v, old⟩)
          (runAll env self after (Writer.start rest)).2.buffer
        rw [Leaf.length_bytes, hDone, hStart next hFirst, ← Leaf.bytes_of_ne hOrder] at hWindow
        exact hWindow.symm

namespace Layout

variable {d : Declaration} {oracle : TypeOracle} {config : Config} {layout : Layout} {m : Member}
  {index : Nat} {options : List MarkerOption} {order : ByteOrder}

/-- A record whose procedures differ in the order of one number is encoded alike but for the bytes
of that number. -/
theorem reverses_runWrite (hValidate : d.validate oracle config = .ok layout) {place : Nat}
    (hPlace : d.included[place]? = some (m, index)) {p : Primitive}
    (hType : m.type.SpellsPrimitive p) (hOrder : m.orderAsked ≠ order) {procedures' : Procedures}
    {l : Local} (hDiffer : (layout.procedures d).DifferAt procedures' m l place m.orderAsked order)
    {env : Environment} {self : Value} (hSelf : layout.Admits env self) (buffer : Bytes) :
    Reverses (layout.offset env place) p.width ((layout.procedures d).runWrite env self buffer)
      (procedures'.runWrite env self buffer) := by
  obtain ⟨included, hIncluded, hEncodes⟩ :=
    forall₂_getElem? (Declaration.encodes_of_validate hValidate) hPlace
  obtain ⟨v, hFound, hValue⟩ := hSelf included (List.mem_of_getElem? hIncluded)
  have hKind := TypeExpr.primitive?_kind_eq_some_iff.mpr hType
  rw [hEncodes.type_eq, TypeExpr.shape, hKind] at hValue
  cases v with
  | record members => cases hValue
  | scalar s =>
      obtain rfl : s.primitive = p := beq_iff_eq.mp hValue
      rw [hEncodes.name_eq] at hFound
      have hSize : procedures'.sizeIn env = (layout.procedures d).sizeIn env := by
        rw [Procedures.sizeIn, hDiffer.size_eq, Procedures.sizeIn]
      rw [Procedures.runWrite, Procedures.runWrite, hSize]
      split
      · exact ⟨rfl, fun hDone => absurd hDone Bool.false_ne_true⟩
      · exact WriteOp.reverses_runAll hOrder hFound hDiffer.write fun _ hRun =>
          position_of_admits hValidate hSelf hRun

end Layout

/-- Two codecs differ in the order of one member, which is a number: in the name of the method that
moves it, and in the bytes that it takes. -/
structure Codec.DifferAt (c c' : Codec) (m : Member) (index place : Nat) (p : Primitive)
    (order : ByteOrder) : Prop where
  procedures : c.procedures.DifferAt c'.procedures m ⟨index⟩ place m.orderAsked order
  templates : c.procedures.templates.DifferIn c'.procedures.templates m.orderAsked order
  write : ∀ {env : Environment} {self : Value}, c.layout.Admits env self → ∀ buffer,
    Reverses (c.layout.offset env place) p.width ((c.recordType env).write self buffer)
      ((c'.recordType env).write self buffer)

/-- Two codecs have the same procedures, the same code and the same meaning. -/
structure Codec.Same (c c' : Codec) : Prop where
  procedures_eq : c'.procedures = c.procedures
  tokens_eq : ∀ runtime, c'.tokens runtime = c.tokens runtime
  recordType_eq : ∀ env, c'.recordType env = c.recordType env

/-- A member that asks for another byte order leaves its record accepted, with the same size and the
same layout but for the order of this member. If it is a number of several bytes, it is moved by
another method and its own bytes are reversed, and nothing else changes. If it is a byte or a nested
record, nothing changes at all. -/
theorem byte_order_is_local {d : Declaration} {oracle : TypeOracle} {config : Config}
    {layout : Layout} {m : Member} {index : Nat} {options : List MarkerOption} {order : ByteOrder}
    (hValidate : d.validate oracle config = .ok layout) (hMember : d.members[index]? = some m)
    (hMarked : m.isIncluded) (hAsk : MarkerOption.AskFor options order) :
    (d.withOptions index options).validate oracle config = .ok (layout.withOrder index order) ∧
    ((d.withOptions index options).emit (layout.withOrder index order)).procedures.size =
      (d.emit layout).procedures.size ∧
    (∀ p, m.type.SpellsPrimitive p → p.width ≠ 1 → m.orderAsked ≠ order →
      ∃ place, d.included[place]? = some (m, index) ∧
        (d.emit layout).DifferAt
          ((d.withOptions index options).emit (layout.withOrder index order)) m index place p
          order) ∧
    ((∀ p, m.type.SpellsPrimitive p → p.width = 1) →
      (d.emit layout).Same
        ((d.withOptions index options).emit (layout.withOrder index order))) := by
  refine ⟨Declaration.validate_withOptions hValidate hMember hMarked hAsk,
    layout.sizeTerms_withOrder index order, fun p hType hWidth hOrder => ?_, fun hType => ?_⟩
  · obtain ⟨place, hPlace, hDiffer⟩ :=
      Layout.exists_differAt hValidate hMember hMarked hType hWidth options order
    exact ⟨place, hPlace, hDiffer, hDiffer.templates, fun hSelf buffer =>
      Layout.reverses_runWrite hValidate hPlace hType hOrder hDiffer hSelf buffer⟩
  · have hProcedures :=
      Layout.procedures_withOrder hValidate hMember hMarked hType options order
    have hCodec :
        ((d.withOptions index options).emit (layout.withOrder index order)).procedures =
          (d.emit layout).procedures := hProcedures
    refine ⟨hCodec, fun runtime => ?_, fun env => ?_⟩
    · rw [Codec.tokens, Codec.tokens, Codec.template, Codec.template, hCodec]
      rfl
    · rw [Codec.recordType, Codec.recordType, hCodec]

namespace Sample

/-- The option that asks for the most significant byte first. -/
def bigOption : MarkerOption :=
  { name := byteOrderOption, value := .path (Path.ofNames ["ByteOrder", "Big"]) }

theorem askFor_bigOption : MarkerOption.AskFor [bigOption] .big :=
  .last (List.forall_mem_nil _) ⟨rfl, .path _ rfl⟩

end Sample

open Sample in
/-- A letter whose length is written from the most significant byte on, and a stamp that ignores the
option on it. -/
theorem byte_order_is_local_envelope :
    (envelopeDeclaration.withOptions 0 [bigOption]).validate
      (KnownTypes.oracle { marked := ["Stamp"] }) {} =
        .ok (envelopeCodec.layout.withOrder 0 .big) ∧
    Reverses 0 2 (envelope.write (.record letter) [0, 0, 0, 0, 0, 7])
      ((((envelopeDeclaration.withOptions 0 [bigOption]).emit
        (envelopeCodec.layout.withOrder 0 .big)).recordType
          (Catalog.environment [("Stamp", stamp)])).write (.record letter) [0, 0, 0, 0, 0, 7]) ∧
    envelopeCodec.Same ((envelopeDeclaration.withOptions 2 [bigOption]).emit
      (envelopeCodec.layout.withOrder 2 .big)) := by
  have hValidate : envelopeDeclaration.validate (KnownTypes.oracle { marked := ["Stamp"] }) {} =
      .ok envelopeCodec.layout := rfl
  obtain ⟨hAccepted, _, hNumber, _⟩ :=
    @byte_order_is_local _ _ _ _ _ 0 _ _ hValidate rfl rfl askFor_bigOption
  obtain ⟨_, _, _, hStamp⟩ := @byte_order_is_local _ _ _ _ _ 2 _ _ hValidate rfl rfl
    askFor_bigOption
  have hSpells : (TypeExpr.named "u16").SpellsPrimitive .u16 :=
    TypeExpr.primitive?_kind_eq_some_iff.mp rfl
  have hNested : ∀ p, ¬(TypeExpr.named "Stamp").SpellsPrimitive p :=
    TypeExpr.primitive?_kind_eq_none_iff.mp rfl
  obtain ⟨place, hPlace, hDiffer⟩ := hNumber .u16 hSpells (by decide) (by decide)
  have hFirst : place = 0 := by
    match place, hPlace with
    | 0, _ => rfl
    | 1, hPlace => exact absurd (congrArg (Option.map Prod.snd) hPlace) (by decide)
    | _ + 2, hPlace => cases hPlace
  subst hFirst
  have hSelf : envelopeCodec.layout.Admits (Catalog.environment [("Stamp", stamp)])
      (.record letter) := by
    intro m hMember
    rcases List.mem_pair.mp hMember with rfl | rfl
    · exact ⟨_, rfl, rfl⟩
    · exact ⟨_, rfl, rfl⟩
  exact ⟨hAccepted, hDiffer.write hSelf _, hStamp fun p hType => absurd hType (hNested p)⟩

end WireRecord
