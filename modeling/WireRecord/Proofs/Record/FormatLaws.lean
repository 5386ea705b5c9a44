import WireRecord.Proofs.Record.Format

/-!
The two round trips of a record format. What is encoded decodes to the same members but for those
that are not encoded; what decodes is encoded to the same bytes but for those that stand for true;
and decoding fails only on a surrogate.
-/

namespace WireRecord

namespace WireFormat

variable {f : WireFormat} {members : Members} {bytes : Bytes}

/-- Admitted members are encoded in as many bytes as the format says, the same for all values. -/
theorem length_encode (h : f.admits members) : (f.encode members).length = f.size := by
  induction f generalizing members with
  | nil =>
      rw [admits_nil_iff] at h
      subst h
      rfl
  | scalar name p order rest ih =>
      obtain ⟨v, later, rfl, hPrimitive, hRest⟩ := admits_scalar_iff.mp h
      have hLength := ih hRest
      simp only [encode] at hLength
      simp [encode, leaves, size, Scalar.width, hPrimitive, hLength]
  | nested name inner rest ihInner ihRest =>
      obtain ⟨inner', later, rfl, hInner, hRest⟩ := admits_nested_iff.mp h
      have hLengthInner := ihInner hInner
      have hLengthRest := ihRest hRest
      simp only [encode] at hLengthInner hLengthRest
      rw [encode, leaves, List.flatMap_append, List.length_append, hLengthInner, hLengthRest, size]
  | skipped name initial rest ih =>
      obtain ⟨v, later, rfl, hRest⟩ := admits_skipped_iff.mp h
      exact ih hRest

/-- Erasing what is skipped takes nothing away from what is encoded. -/
theorem leaves_erase (h : f.admits members) : f.leaves (f.erase members) = f.leaves members := by
  induction f generalizing members with
  | nil =>
      rw [admits_nil_iff] at h
      subst h
      rfl
  | scalar name p order rest ih =>
      obtain ⟨v, later, rfl, _, hRest⟩ := admits_scalar_iff.mp h
      simp only [erase, leaves, ih hRest]
  | nested name inner rest ihInner ihRest =>
      obtain ⟨inner', later, rfl, hInner, hRest⟩ := admits_nested_iff.mp h
      simp only [erase, leaves, ihInner hInner, ihRest hRest]
  | skipped name initial rest ih =>
      obtain ⟨v, later, rfl, hRest⟩ := admits_skipped_iff.mp h
      simp only [erase, leaves, ih hRest]

/-- Decoding looks at no more bytes than the format is long. -/
theorem decode_take (f : WireFormat) (bytes : Bytes) :
    f.decode (bytes.take f.size) = f.decode bytes := by
  induction f generalizing bytes with
  | nil => rfl
  | scalar name p order rest ih =>
      have hWindow : (bytes.take (p.width + rest.size)).take p.width = bytes.take p.width := by
        rw [List.take_take, Nat.min_eq_left (Nat.le_add_right ..)]
      have hRest : (bytes.take (p.width + rest.size)).drop p.width =
          (bytes.drop p.width).take rest.size := by
        rw [List.drop_take, Nat.add_sub_cancel_left]
      simp only [decode, size, hWindow, hRest, ih]
  | nested name inner rest ihInner ihRest =>
      have hInner : inner.decode (bytes.take (inner.size + rest.size)) = inner.decode bytes := by
        rw [← ihInner, List.take_take, Nat.min_eq_left (Nat.le_add_right ..), ihInner]
      have hRest : (bytes.take (inner.size + rest.size)).drop inner.size =
          (bytes.drop inner.size).take rest.size := by
        rw [List.drop_take, Nat.add_sub_cancel_left]
      simp only [decode, size, hInner, hRest, ihRest]
  | skipped name initial rest ih => simp only [decode, size, ih]

/-- Decoding looks at no more bytes than the format has. -/
theorem decode_append (f : WireFormat) {start : Bytes} (tail : Bytes)
    (hLength : f.size = start.length) : f.decode (start ++ tail) = f.decode start := by
  rw [← decode_take f (start ++ tail), hLength, List.take_left]

/-- What is encoded decodes, whatever follows it, to the members with those that are not encoded
reset. -/
theorem decode_encode (h : f.admits members) (hFits : ∀ leaf ∈ f.leaves members, leaf.fits)
    (tail : Bytes) : f.decode (f.encode members ++ tail) = some (f.erase members) := by
  induction f generalizing members tail with
  | nil =>
      rw [admits_nil_iff] at h
      subst h
      rfl
  | scalar name p order rest ih =>
      obtain ⟨v, later, rfl, rfl, hRest⟩ := admits_scalar_iff.mp h
      rw [leaves, List.forall_mem_cons] at hFits
      have hBytes :
          (scalar name v.primitive order rest).encode ((name, .scalar v) :: later) ++ tail =
            Leaf.bytes ⟨v, order⟩ ++ (rest.encode later ++ tail) := by
        simp [encode, leaves]
      have hWidth : v.primitive.width = (Leaf.bytes ⟨v, order⟩).length := by simp [Scalar.width]
      rw [hBytes, decode, hWidth, List.take_left, List.drop_left, Leaf.ofCode?_bytes hFits.1,
        ih hRest hFits.2]
      rfl
  | nested name inner rest ihInner ihRest =>
      obtain ⟨inner', later, rfl, hInner, hRest⟩ := admits_nested_iff.mp h
      rw [leaves, List.forall_mem_append] at hFits
      have hBytes : (nested name inner rest).encode ((name, .record inner') :: later) ++ tail =
          inner.encode inner' ++ (rest.encode later ++ tail) := by
        simp [encode, leaves]
      have hSize : inner.size = (inner.encode inner').length := (length_encode hInner).symm
      rw [hBytes, decode, ihInner hInner hFits.1, hSize, List.drop_left, ihRest hRest hFits.2]
      rfl
  | skipped name initial rest ih =>
      obtain ⟨v, later, rfl, hRest⟩ := admits_skipped_iff.mp h
      have hTail : rest.decode (rest.encode later ++ tail) = some (rest.erase later) :=
        ih hRest hFits tail
      -- a skipped member has no bytes, but its value has become the initial one
      change (rest.decode (rest.encode later ++ tail) >>= fun members =>
        pure ((name, initial) :: members)) = _
      rw [hTail]
      rfl

/-- The windows lie end to end and cover the format. -/
theorem windows_bytes (hLength : f.size ≤ bytes.length) :
    (f.windows bytes).flatMap Window.bytes = bytes.take f.size := by
  induction f generalizing bytes with
  | nil => simp [windows, size]
  | scalar name p order rest ih =>
      simp only [size] at hLength
      have hRest := @ih (bytes.drop p.width) (by rw [List.length_drop]; omega)
      rw [windows, List.flatMap_cons, hRest, size, List.take_add]
  | nested name inner rest ihInner ihRest =>
      simp only [size] at hLength
      have hInner := @ihInner bytes (by omega)
      have hRest := @ihRest (bytes.drop inner.size) (by rw [List.length_drop]; omega)
      rw [windows, List.flatMap_append, hInner, hRest, size, List.take_add]
  | skipped name initial rest ih => exact ih hLength

/-- Decoding fails exactly on a surrogate. -/
theorem decode_isSome_iff (hLength : f.size ≤ bytes.length) :
    (f.decode bytes).isSome ↔ ∀ w ∈ f.windows bytes, ¬w.isSurrogate := by
  induction f generalizing bytes with
  | nil => simp [decode, windows]
  | scalar name p order rest ih =>
      simp only [size] at hLength
      have hRest := @ih (bytes.drop p.width) (by rw [List.length_drop]; omega)
      have hTaken : (bytes.take p.width).length = p.width := by rw [List.length_take]; omega
      have hScalar : (p.ofCode? (order.decode (bytes.take p.width))).isSome ↔
          ¬Window.isSurrogate ⟨p, order, bytes.take p.width⟩ :=
        Primitive.ofCode?_isSome_iff (ByteOrder.decode_lt order hTaken)
      rw [windows, List.forall_mem_cons, ← hRest, ← hScalar, decode]
      cases p.ofCode? (order.decode (bytes.take p.width)) <;>
        cases rest.decode (bytes.drop p.width) <;> simp
  | nested name inner rest ihInner ihRest =>
      simp only [size] at hLength
      have hInner := @ihInner bytes (by omega)
      have hRest := @ihRest (bytes.drop inner.size) (by rw [List.length_drop]; omega)
      rw [windows, List.forall_mem_append, ← hInner, ← hRest, decode]
      cases inner.decode bytes <;> cases rest.decode (bytes.drop inner.size) <;> simp
  | skipped name initial rest ih =>
      rw [windows, ← ih hLength, decode]
      cases rest.decode bytes <;> simp

end WireFormat

end WireRecord
