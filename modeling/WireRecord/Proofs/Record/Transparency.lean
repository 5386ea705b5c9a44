import WireRecord.Codec.Meaning
import WireRecord.Proofs.Cursor.Refinement
import WireRecord.Proofs.Schema.Acceptance

/-!
Reading a record from a segmented sequence gives what reading it from the concatenated bytes gives.
Two cursors that agree on what is left read the members of a record alike, if the nested types
cannot tell them apart; this covers both a segmented cursor against a contiguous one and two buffers
with the same start.
-/

namespace WireRecord

/-- A type reads the same from any buffer with the same first bytes, as many as its size, and the
same from any segments of a buffer. -/
structure Transparent (t : RecordType) : Prop where
  read_congr : ∀ {b b' : Bytes}, t.size ≤ b.length → t.size ≤ b'.length →
    b.take t.size = b'.take t.size → t.read b = t.read b'
  readSequence_eq : ∀ segments : List Bytes,
    t.readSequence (.ofList segments) = t.read segments.flatten

/-- A relation between cursors that agree on the next bytes, as many as the number says. -/
structure ReadsAlike {ρ σ : Type} [RecordCursor ρ] [RecordCursor σ] (R : Nat → ρ → σ → Prop) :
    Prop where
  get : ∀ {p : Primitive} (order : ByteOrder) {n : Nat} {r : ρ} {q : σ}, R (p.width + n) r q →
    Option.Rel (fun a b => a.1 = b.1 ∧ R n a.2 b.2)
      (ReadCursor.get r p (p.encoding order)) (ReadCursor.get q p (p.encoding order))
  nested : ∀ {t : RecordType} {n : Nat} {r : ρ} {q : σ}, Transparent t → R (t.size + n) r q →
    RecordCursor.nested t r = RecordCursor.nested t q
  advance : ∀ {count n : Nat} {r : ρ} {q : σ}, R (count + n) r q →
    Option.Rel (R n) (ReadCursor.advance r count) (ReadCursor.advance q count)

namespace IncludedMember

variable {m : IncludedMember}

/-- A primitive member adds the width of its primitive to a size. -/
theorem value_of_primitive (env : Environment) {p : Primitive}
    (hPrimitive : m.classification.isPrimitive = true)
    (hKind : m.type.kind.primitive? = some p) : m.sizeTerm.value env = p.width := by
  simp [sizeTerm, hPrimitive, SizeTerm.value, hKind]

/-- A nested member adds the size of its type. -/
theorem value_of_nested (env : Environment) (hUser : m.classification.isPrimitive = false) :
    m.sizeTerm.value env = (env m.type).size := by
  simp [sizeTerm, hUser, SizeTerm.value]

end IncludedMember

def encodedSize (env : Environment) (members : List IncludedMember) : Nat :=
  ((members.map IncludedMember.sizeTerm).map (SizeTerm.value env)).foldr (· + ·) 0

theorem encodedSize_cons (env : Environment) (m : IncludedMember) (members : List IncludedMember) :
    encodedSize env (m :: members) = m.sizeTerm.value env + encodedSize env members := rfl

/-- Computations that correspond, one after the other. -/
private theorem bind_rel {α β γ δ : Type} {R : α → β → Prop} {S : γ → δ → Prop} {x : Option α}
    {y : Option β} {f : α → Option γ} {g : β → Option δ} (h : Option.Rel R x y)
    (hSteps : ∀ a b, R a b → Option.Rel S (f a) (g b)) : Option.Rel S (x.bind f) (y.bind g) := by
  cases h with
  | none => exact .none
  | some hPair => exact hSteps _ _ hPair

private theorem bind_eq_of_rel {α β γ : Type} {R : α → β → Prop} {x : Option α} {y : Option β}
    {f : α → Option γ} {g : β → Option γ} (h : Option.Rel R x y)
    (hSteps : ∀ a b, R a b → f a = g b) : x.bind f = y.bind g := by
  cases h with
  | none => rfl
  | some hPair => exact hSteps _ _ hPair

namespace ReadsAlike

variable {ρ σ : Type} [RecordCursor ρ] [RecordCursor σ] {R : Nat → ρ → σ → Prop}
  {env : Environment}

/-- One operation binds the same value from both cursors. -/
theorem run (hR : ReadsAlike R) {m : IncludedMember} (hSound : m.Sound)
    (hNested : m.classification.isPrimitive = false → Transparent (env m.type))
    {n : Nat} {r : ρ} {q : σ} (locals : Locals) (h : R (m.sizeTerm.value env + n) r q) :
    Option.Rel (fun a b => R n a.1 b.1 ∧ a.2 = b.2)
      (m.readOp.run env r locals) (m.readOp.run env q locals) := by
  rcases hSound.primitive_or_nested with ⟨p, hKind, hPrimitive, hEncoding⟩ | ⟨_, hUser⟩
  · rw [IncludedMember.value_of_primitive env hPrimitive hKind] at h
    simp only [IncludedMember.readOp, hPrimitive, if_true, ReadOp.run, hKind, hEncoding,
      Option.bind_eq_bind, Option.bind_some]
    refine bind_rel (hR.get m.order h) fun a b hPair => .some ⟨hPair.2, ?_⟩
    rw [hPair.1]
  · rw [IncludedMember.value_of_nested env hUser] at h
    have hValue := hR.nested (hNested hUser) h
    simp only [IncludedMember.readOp, hUser, Bool.false_eq_true, if_false, ReadOp.run, hValue,
      Option.bind_eq_bind]
    cases RecordCursor.nested (env m.type) q with
    | none => exact .none
    | some v =>
        rw [Option.bind_some, Option.bind_some]
        refine bind_rel (hR.advance h) fun r' q' hNext => ?_
        exact .some ⟨hNext, rfl⟩

/-- The operations of a layout bind the same values from both cursors. -/
theorem runAll (hR : ReadsAlike R) {members : List IncludedMember}
    (hSound : ∀ m ∈ members, m.Sound)
    (hNested : ∀ m ∈ members, m.classification.isPrimitive = false → Transparent (env m.type))
    {r : ρ} {q : σ} (locals : Locals) (h : R (encodedSize env members) r q) :
    Option.Rel (fun a b => a.2 = b.2)
      (ReadOp.runAll env (members.map IncludedMember.readOp) r locals)
      (ReadOp.runAll env (members.map IncludedMember.readOp) q locals) := by
  induction members generalizing r q locals with
  | nil => exact .some rfl
  | cons m members ih =>
      rw [List.forall_mem_cons] at hSound hNested
      simp only [List.map_cons, ReadOp.runAll]
      refine bind_rel (hR.run hSound.1 hNested.1 locals h) fun a b hPair => ?_
      rw [hPair.2]
      exact ih hSound.2 hNested.2 _ hPair.1

/-- The run lemma for cursors that read alike: they give the same record. -/
theorem runReads (hR : ReadsAlike R) {layout : Layout} (d : Declaration)
    (hSound : ∀ m ∈ layout.members, m.Sound)
    (hNested : ∀ m ∈ layout.members,
      m.classification.isPrimitive = false → Transparent (env m.type))
    {r : ρ} {q : σ} (h : R (encodedSize env layout.members) r q) :
    (layout.procedures d).runReads env layout.readProcedure r =
      (layout.procedures d).runReads env layout.readProcedure q := by
  refine bind_eq_of_rel (hR.runAll hSound hNested [] h) fun ⟨r', locals⟩ ⟨q', locals'⟩ hLocals => ?_
  subst hLocals
  rfl

end ReadsAlike

namespace Reader

variable {q : Reader}

theorem unread_forward (q : Reader) (count : Nat) :
    unread { q with position := q.position + count } = q.unread.drop count :=
  List.drop_drop.symm

theorem advance_eq {count : Nat} (hCount : count ≤ q.unread.length) :
    q.advance count = some { q with position := q.position + count } := by
  rw [unread, List.length_drop] at hCount
  exact if_neg (Nat.not_lt.mpr hCount)

/-- A cursor reads a primitive in the byte order that is asked for, also if it takes one byte. -/
theorem get_eq (q : Reader) (p : Primitive) (order : ByteOrder) :
    ReadCursor.get q p (p.encoding order) = q.read p order := by
  by_cases hSingle : p.isSingleByte
  · rw [Primitive.encoding, if_pos hSingle]
    exact Reader.readByte_eq hSingle q order
  · rw [Primitive.encoding, if_neg hSingle]
    cases order <;> rfl

end Reader

/-- A member of any encoding is read alike from a buffer and across segments. -/
theorem Refines.get {bytes : Bytes} {r : SegmentReader} {q : Reader} (h : Refines bytes r q)
    (p : Primitive) (order : ByteOrder) :
    RefinesResult bytes (ReadCursor.get r p (p.encoding order))
      (ReadCursor.get q p (p.encoding order)) := by
  by_cases hSingle : p.isSingleByte
  · rw [Primitive.encoding, if_pos hSingle]
    exact h.readByte hSingle
  · rw [Primitive.encoding, if_neg hSingle]
    cases order with
    | little => exact h.read p .little
    | big => exact h.read p .big

/-- A segmented cursor and a contiguous one over the same bytes. A nested type reads from the slice
at the one and from what is unread at the other. -/
theorem readsAlike_segmented (bytes : Bytes) : ReadsAlike fun _ => Refines bytes where
  get := fun order _ _ _ h => h.get _ order
  nested := by
    intro t n r q hTransparent h
    change t.readSequence (r.sequence.slice r.position) = t.read q.unread
    rw [h.valid.holds.slice_eq, hTransparent.readSequence_eq, h.unread_eq, ← h.segmented,
      ← h.valid.unread]
    rfl
  advance := fun h => h.advance _

/-- The cursors stand before the same bytes, as many as the number says. -/
def SameAhead (n : Nat) (q q' : Reader) : Prop :=
  n ≤ q.unread.length ∧ n ≤ q'.unread.length ∧ q.unread.take n = q'.unread.take n

namespace SameAhead

variable {m n : Nat} {q q' : Reader}

theorem shorter (h : SameAhead (m + n) q q') : SameAhead m q q' := by
  obtain ⟨hLength, hLength', hTake⟩ := h
  refine ⟨by omega, by omega, ?_⟩
  have hShort := congrArg (List.take m) hTake
  rwa [List.take_take, List.take_take, Nat.min_eq_left (Nat.le_add_right m n)] at hShort

theorem forward (h : SameAhead (m + n) q q') :
    SameAhead n { q with position := q.position + m } { q' with position := q'.position + m } := by
  obtain ⟨hLength, hLength', hTake⟩ := h
  rw [SameAhead, Reader.unread_forward, Reader.unread_forward, List.length_drop, List.length_drop]
  refine ⟨by omega, by omega, ?_⟩
  have hRest := congrArg (List.drop m) hTake
  rwa [List.drop_take, List.drop_take, Nat.add_sub_cancel_left] at hRest

end SameAhead

/-- Two contiguous cursors that stand before the same bytes. -/
theorem readsAlike_sameAhead : ReadsAlike SameAhead where
  get := by
    intro p order n q q' h
    obtain ⟨hLength, hLength', hTake⟩ := h.shorter
    have hDecode : p.decode order q.unread = p.decode order q'.unread := by
      rw [← Primitive.decode_take hLength, hTake, Primitive.decode_take hLength']
    rw [Reader.get_eq, Reader.get_eq, Reader.read, Reader.read, hDecode]
    cases p.decode order q'.unread with
    | none => exact .none
    | some v => exact .some ⟨rfl, h.forward⟩
  nested := by
    intro t n q q' hTransparent h
    obtain ⟨hLength, hLength', hTake⟩ := h.shorter
    exact hTransparent.read_congr hLength hLength' hTake
  advance := by
    intro count n q q' h
    obtain ⟨hLength, hLength', _⟩ := h.shorter
    rw [show ReadCursor.advance q count = _ from Reader.advance_eq hLength,
      show ReadCursor.advance q' count = _ from Reader.advance_eq hLength']
    exact .some h.forward

namespace Procedures

variable {p : Procedures} {env : Environment} {bytes : Bytes}

theorem runRead_short (h : bytes.length < p.sizeIn env) : p.runRead env bytes = none := if_pos h

theorem runRead_long (h : p.sizeIn env ≤ bytes.length) :
    p.runRead env bytes = p.runReads env p.read (Reader.start bytes) := if_neg (Nat.not_lt.mpr h)

end Procedures

namespace Layout

variable {layout : Layout} {env : Environment}

/-- What is read from a buffer depends on no more bytes than the size of the record. -/
theorem runRead_congr (d : Declaration) (hSound : ∀ m ∈ layout.members, m.Sound)
    (hNested : ∀ m ∈ layout.members,
      m.classification.isPrimitive = false → Transparent (env m.type))
    {b b' : Bytes} (hLength : (layout.procedures d).sizeIn env ≤ b.length)
    (hLength' : (layout.procedures d).sizeIn env ≤ b'.length)
    (hTake : b.take ((layout.procedures d).sizeIn env) =
      b'.take ((layout.procedures d).sizeIn env)) :
    (layout.procedures d).runRead env b = (layout.procedures d).runRead env b' := by
  rw [Procedures.runRead_long hLength, Procedures.runRead_long hLength']
  exact readsAlike_sameAhead.runReads d hSound hNested ⟨hLength, hLength', hTake⟩

/-- A record is read from segments as from their bytes: where it is read as a buffer, where there
are too few bytes, and where a cursor walks the segments. -/
theorem runReadSequence_eq (d : Declaration) (hSound : ∀ m ∈ layout.members, m.Sound)
    (hNested : ∀ m ∈ layout.members,
      m.classification.isPrimitive = false → Transparent (env m.type)) (s : Segments) :
    (layout.procedures d).runReadSequence env s = (layout.procedures d).runRead env s.bytes := by
  have hBytes : s.bytes = s.first ++ s.rest.flatten := rfl
  rw [Procedures.runReadSequence]
  by_cases hSingle : s.isSingle
  · have hRest : s.rest = [] := by simpa [Segments.isSingle] using hSingle
    rw [if_pos (by simp [hSingle]), hBytes, hRest, List.flatten_nil, List.append_nil]
  by_cases hFirst : (layout.procedures d).sizeIn env ≤ s.first.length
  · rw [if_pos (by simp [hFirst])]
    refine runRead_congr d hSound hNested hFirst ?_ ?_
    · rw [hBytes, List.length_append]
      exact Nat.le_add_right_of_le hFirst
    · rw [hBytes, List.take_append_of_le_length hFirst]
  rw [if_neg (by simp [hSingle, hFirst]), s.length_eq]
  by_cases hShort : s.bytes.length < (layout.procedures d).sizeIn env
  · rw [if_pos hShort, Procedures.runRead_short hShort]
  · rw [if_neg hShort, Procedures.runRead_long (Nat.not_lt.mp hShort)]
    exact (readsAlike_segmented s.bytes).runReads d hSound hNested (refines_start s)

end Layout

/-- A compiled record is transparent if its nested types are. -/
theorem Transparent.compile {d : Declaration} {oracle : TypeOracle} {config : Config} {c : Codec}
    {env : Environment} (hCompile : d.compile oracle config = .ok c)
    (hNested : ∀ m ∈ c.layout.members,
      m.classification.isPrimitive = false → Transparent (env m.type)) :
    Transparent (c.recordType env) := by
  obtain ⟨layout, hValidate, rfl⟩ := Declaration.compile_eq_ok hCompile
  have hSound : ∀ m ∈ layout.members, m.Sound := fun m => Declaration.sound_of_validate hValidate
  refine ⟨Layout.runRead_congr d hSound hNested, fun segments => ?_⟩
  rw [← Segments.bytes_ofList segments]
  exact Layout.runReadSequence_eq d hSound hNested _

end WireRecord
