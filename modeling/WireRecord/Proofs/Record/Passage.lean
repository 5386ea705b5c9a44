import WireRecord.Proofs.Record.Shape
import WireRecord.Proofs.Record.Writing

/-!
How far the operations of a record move a cursor. A primitive is passed by its width and a nested
record by the size of its type, whatever that type reads or writes, so a cursor that has passed some
members stands after the bytes of these.
-/

namespace WireRecord

/-- A write moves past the width of the value. -/
theorem Writer.position_of_write {w w' : Writer} {v : Scalar} {order : ByteOrder}
    (h : w.write v order = some w') : w'.position = w.position + v.width := by
  simp only [write] at h
  split at h
  · cases h
  · split at h
    · cases h
    · cases h
      rfl

theorem Writer.position_of_advance {w w' : Writer} {count : Nat}
    (h : w.advance count = some w') : w'.position = w.position + count := by
  rw [advance] at h
  split at h
  · cases h
  · cases h
    rfl

/-- A place for every count of bytes, at which a cursor stands after it has taken so many. -/
structure CountsBytes {ρ : Type} [ReadCursor ρ] (At : Nat → ρ → Prop) : Prop where
  get : ∀ {n : Nat} {r r' : ρ} {p : Primitive} {order : ByteOrder} {v : Scalar}, At n r →
    ReadCursor.get r p (p.encoding order) = some (v, r') → At (n + p.width) r'
  advance : ∀ {n count : Nat} {r r' : ρ}, At n r →
    ReadCursor.advance r count = some r' → At (n + count) r'

/-- A cursor over a buffer stands where it has been moved. -/
theorem Reader.countsBytes (buffer : Bytes) :
    CountsBytes fun n (r : Reader) => r = ⟨buffer, n⟩ where
  get := by
    rintro n _ r' p order v rfl hGet
    rw [get_eq, read] at hGet
    obtain ⟨_, _, hPair⟩ := Option.map_eq_some_iff.mp hGet
    cases hPair
    rfl
  advance := by
    rintro n count _ r' rfl hAdvance
    change Reader.advance _ count = some r' at hAdvance
    rw [advance] at hAdvance
    split at hAdvance
    · cases hAdvance
    · cases hAdvance
      rfl

/-- The cursor runs over the sequence and stands after a number of its bytes. -/
structure SegmentReader.After (s : Segments) (n : Nat) (r : SegmentReader) : Prop where
  valid : r.Valid
  sequence_eq : r.sequence = s
  consumed_eq : r.consumed = n

theorem SegmentReader.countsBytes (s : Segments) : CountsBytes (After s) where
  get := by
    intro n r r' p order v h hGet
    obtain ⟨order', hRead⟩ : ∃ order', r.read p order' = some (v, r') := by
      rw [Primitive.encoding] at hGet
      split at hGet
      · exact ⟨.little, hGet⟩
      · cases order with
        | little => exact ⟨.little, hGet⟩
        | big => exact ⟨.big, hGet⟩
    rcases h.valid.read p order' with ⟨_, hNone⟩ | ⟨_, _, _, hSome, hValid, hSequence, hConsumed⟩
    · rw [hNone] at hRead
      cases hRead
    · rw [hSome] at hRead
      cases hRead
      exact ⟨hValid, hSequence.trans h.sequence_eq, h.consumed_eq ▸ hConsumed⟩
  advance := by
    intro n count r r' h hAdvance
    change r.advance count = some r' at hAdvance
    by_cases hCount : count ≤ r.remaining
    · obtain ⟨_, hMoved, hValid, hSequence, hConsumed⟩ := h.valid.advance hCount
      rw [hMoved] at hAdvance
      cases hAdvance
      exact ⟨hValid, hSequence.trans h.sequence_eq, h.consumed_eq ▸ hConsumed⟩
    · rw [advance_eq_none (Nat.not_le.mp hCount)] at hAdvance
      cases hAdvance

section Runs

variable {env : Environment}

/-- The operation of a member takes the bytes of the member. -/
theorem CountsBytes.run {ρ : Type} [RecordCursor ρ] {At : Nat → ρ → Prop} (hAt : CountsBytes At)
    {m : IncludedMember} (hSound : m.Sound) {n : Nat} {r r' : ρ} {locals locals' : Locals}
    (h : At n r) (hRun : m.readOp.run env r locals = some (r', locals')) :
    At (n + m.sizeTerm.value env) r' := by
  rcases hSound.primitive_or_nested with ⟨p, hKind, hPrimitive, hEncoding⟩ | ⟨_, hUser⟩
  · simp only [IncludedMember.readOp, hPrimitive, if_true, hEncoding, ReadOp.run, hKind,
      Option.bind_eq_bind, Option.bind_some] at hRun
    obtain ⟨⟨v, next⟩, hGet, hSame⟩ := Option.bind_eq_some_iff.mp hRun
    cases hSame
    rw [IncludedMember.value_of_primitive env hPrimitive hKind]
    exact hAt.get h hGet
  · rw [IncludedMember.readOp, hUser, if_neg Bool.false_ne_true, ReadOp.run] at hRun
    obtain ⟨v, _, hMove⟩ := Option.bind_eq_some_iff.mp hRun
    obtain ⟨next, hAdvance, hSame⟩ := Option.bind_eq_some_iff.mp hMove
    cases hSame
    rw [IncludedMember.value_of_nested env hUser]
    exact hAt.advance h hAdvance

/-- The run lemma: a cursor that counts bytes has moved by the encoded size of the members. -/
theorem CountsBytes.runAll {ρ : Type} [RecordCursor ρ] {At : Nat → ρ → Prop}
    (hAt : CountsBytes At) {members : List IncludedMember} (hSound : ∀ m ∈ members, m.Sound)
    {n : Nat} {r r' : ρ} {locals locals' : Locals} (h : At n r)
    (hRun : ReadOp.runAll env (members.map IncludedMember.readOp) r locals = some (r', locals')) :
    At (n + encodedSize env members) r' := by
  induction members generalizing n r locals with
  | nil =>
      cases hRun
      exact h
  | cons m members ih =>
      rw [List.forall_mem_cons] at hSound
      obtain ⟨⟨next, bound⟩, hFirst, hRest⟩ := Option.bind_eq_some_iff.mp hRun
      rw [encodedSize_cons, ← Nat.add_assoc]
      exact ih hSound.2 (hAt.run hSound.1 h hFirst) hRest

/-- The operation of a member of its type takes the bytes of the member, whatever a nested type
writes. -/
theorem IncludedMember.Sound.position_writeOp {m : IncludedMember} (h : m.Sound) {self v : Value}
    (hSelf : self.member? m.name = some v) (hType : (m.type.shape env).admits v) {w w' : Writer}
    (hRun : m.writeOp.run env self w = (true, w')) :
    w'.position = w.position + m.sizeTerm.value env := by
  rcases h.primitive_or_nested with ⟨p, hKind, hPrimitive, hEncoding⟩ | ⟨_, hUser⟩
  · rw [TypeExpr.shape, hKind] at hType
    cases v with
    | record members => cases hType
    | scalar s =>
        obtain rfl : s.primitive = p := beq_iff_eq.mp hType
        have hPut := w.put_eq_write ⟨s, m.order⟩
        simp only [writeOp, hPrimitive, if_true, hEncoding, WriteOp.run, hSelf, Option.bind_some,
          Value.scalar?, hPut] at hRun
        rw [value_of_primitive env hPrimitive hKind]
        split at hRun
        · rename_i hWrite
          cases hRun
          exact Writer.position_of_write hWrite
        · cases hRun
  · simp only [writeOp, hUser, Bool.false_eq_true, if_false, WriteOp.run, hSelf] at hRun
    rw [value_of_nested env hUser]
    split at hRun
    · split at hRun
      · rename_i hAdvance
        cases hRun
        -- filling the tail does not move the cursor
        have hMoved := Writer.position_of_advance hAdvance
        exact hMoved
      · cases hRun
    · cases hRun

theorem WriteOp.position_of_runAll {members : List IncludedMember}
    (hSound : ∀ m ∈ members, m.Sound) {self : Value}
    (hSelf : ∀ m ∈ members, ∃ v, self.member? m.name = some v ∧ (m.type.shape env).admits v)
    {w w' : Writer}
    (hRun : runAll env self (members.map IncludedMember.writeOp) w = (true, w')) :
    w'.position = w.position + encodedSize env members := by
  induction members generalizing w with
  | nil =>
      cases hRun
      rfl
  | cons m members ih =>
      rw [List.forall_mem_cons] at hSound hSelf
      obtain ⟨v, hMember, hType⟩ := hSelf.1
      rw [List.map_cons, runAll] at hRun
      split at hRun
      · rename_i next hFirst
        rw [ih hSound.2 hSelf.2 hRun, hSound.1.position_writeOp hMember hType hFirst,
          encodedSize_cons, Nat.add_assoc]
      · cases hRun

end Runs

/-- Members of a shape have its names, and for each name a value of its shape. -/
theorem Shape.mem_of_admitsMembers {shapes : List (MemberName × Shape)} {members : Members}
    (h : admitsMembers shapes members) :
    members.map Prod.fst = shapes.map Prod.fst ∧
      ∀ entry ∈ shapes, ∃ v, (entry.1, v) ∈ members ∧ entry.2.admits v := by
  induction shapes generalizing members with
  | nil =>
      cases members with
      | nil => exact ⟨rfl, List.forall_mem_nil _⟩
      | cons member members => cases h
  | cons entry shapes ih =>
      cases members with
      | nil => cases h
      | cons member members =>
          obtain ⟨name, shape⟩ := entry
          obtain ⟨name', v⟩ := member
          simp only [admitsMembers, Bool.and_eq_true, beq_iff_eq] at h
          obtain ⟨⟨rfl, hValue⟩, hRest⟩ := h
          obtain ⟨hNames, hMembers⟩ := ih hRest
          refine ⟨congrArg (name :: ·) hNames, ?_⟩
          rw [List.forall_mem_cons]
          refine ⟨⟨v, List.mem_cons_self, hValue⟩, fun entry hEntry => ?_⟩
          obtain ⟨v', hMember, hValue'⟩ := hMembers entry hEntry
          exact ⟨v', List.mem_cons_of_mem _ hMember, hValue'⟩

/-- A write that succeeds has run all its operations. -/
theorem Procedures.runAll_of_runWrite {p : Procedures} {env : Environment} {self : Value}
    {buffer : Bytes} (hDone : (p.runWrite env self buffer).1 = true) :
    ∃ w, WriteOp.runAll env self p.write (Writer.start buffer) = (true, w) := by
  rw [runWrite] at hDone
  split at hDone
  · cases hDone
  · exact ⟨_, Prod.ext hDone rfl⟩

/-- A value of the record has a value of its type for every encoded member. -/
theorem Layout.member?_of_admits {d : Declaration} {oracle : TypeOracle} {config : Config}
    {layout : Layout} {env : Environment} (hNames : (d.members.map Member.name).Nodup)
    (hValidate : d.validate oracle config = .ok layout) {self : Value}
    (hSelf : ((layout.constructor d).shape env).admits self) :
    ∀ m ∈ layout.members, ∃ v, self.member? m.name = some v ∧ (m.type.shape env).admits v := by
  rw [shape_constructor hValidate] at hSelf
  cases self with
  | scalar v => cases hSelf
  | record members =>
      obtain ⟨hSame, hMembers⟩ := Shape.mem_of_admitsMembers hSelf
      have hNodup : (members.map Prod.fst).Nodup := by
        rw [hSame, List.map_map]
        exact Declaration.nodup_slot_names hNames oracle
      intro m hMember
      rw [Declaration.members_eq_slots hValidate] at hMember
      obtain ⟨slot, hSlot, hEncoded⟩ := List.mem_filterMap.mp hMember
      cases slot with
      | initial name type => cases hEncoded
      | encoded _ =>
          cases hEncoded
          obtain ⟨v, hFound, hType⟩ := hMembers _ (List.mem_map_of_mem hSlot)
          exact ⟨v, (Value.member?_record ..).trans (lookup_of_mem hNodup hFound), hType⟩

end WireRecord
