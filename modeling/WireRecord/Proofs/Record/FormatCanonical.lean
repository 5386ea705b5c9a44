import WireRecord.Proofs.Record.FormatLaws

/-!
The way back from bytes to bytes through a record format. Members that were decoded are encoded to
the bytes that they came from, with every byte that stands for true set to 1, and these decode to
the same members.
-/

namespace WireRecord

namespace Window

variable {w : Window}

/-- A boolean has one byte, in which both orders are the same. -/
theorem bytes_of_bool (hWidth : w.bytes.length = w.primitive.width) (hBool : w.primitive = .bool) :
    ∃ byte : UInt8, w.bytes = [byte] ∧ w.order.decode [byte] = byte.toNat := by
  rw [hBool] at hWidth
  obtain ⟨byte, hByte⟩ := List.length_eq_one_iff.mp hWidth
  refine ⟨byte, hByte, ?_⟩
  cases w.order <;> simp [ByteOrder.decode, littleValue]

/-- A value read from a window is written to it as the normalized bytes. -/
theorem bytes_of_ofCode? (hWidth : w.bytes.length = w.primitive.width) {v : Scalar}
    (hValue : w.primitive.ofCode? (w.order.decode w.bytes) = some v) :
    v.primitive = w.primitive ∧ Leaf.fits ⟨v, w.order⟩ ∧
      Leaf.bytes ⟨v, w.order⟩ = w.normalized := by
  have hPrimitive := Primitive.primitive_of_ofCode? hValue
  have hCode := Primitive.code?_of_ofCode? (w.order.decode_lt hWidth) hValue
  refine ⟨hPrimitive, by simp [Leaf.fits, hCode], ?_⟩
  rw [Leaf.bytes, hCode, Option.getD_some, Scalar.width, hPrimitive, ← hWidth, normalized]
  by_cases hBool : w.primitive = .bool
  · obtain ⟨byte, hByte, hNumber⟩ := bytes_of_bool hWidth hBool
    have hZero : byte.toNat = 0 ↔ byte = 0 := UInt8.toNat_inj (b := 0)
    rw [if_pos hBool, if_pos hBool, hByte, hNumber]
    by_cases hFalse : byte = 0 <;> cases w.order <;>
      simp [hFalse, hZero, ByteOrder.encode, littleBytes]
  · rw [if_neg hBool, if_neg hBool]
    exact w.order.encode_decode w.bytes

/-- A window and its normal form denote the same value: of a boolean only zero counts as false. -/
theorem ofCode?_normalized (hWidth : w.bytes.length = w.primitive.width) :
    w.primitive.ofCode? (w.order.decode w.normalized) =
      w.primitive.ofCode? (w.order.decode w.bytes) := by
  by_cases hBool : w.primitive = .bool
  · obtain ⟨byte, hByte, hNumber⟩ := bytes_of_bool hWidth hBool
    have hZero : byte.toNat = 0 ↔ byte = 0 := UInt8.toNat_inj (b := 0)
    rw [normalized, if_pos hBool, hByte, hNumber, hBool]
    by_cases hFalse : byte = 0
    · simp only [hFalse, List.map_cons, List.map_nil, if_true]
      cases w.order <;> simp [ByteOrder.decode, littleValue]
    · cases w.order <;> simp [hFalse, hZero, ByteOrder.decode, littleValue, Primitive.ofCode?]
  · rw [normalized, if_neg hBool]

end Window

namespace WireFormat

variable {name : MemberName} {inner rest : WireFormat} {f : WireFormat} {members : Members}
  {bytes : Bytes}

/-- What decoding a scalar in front comes to; likewise for the two lemmas that follow. -/
theorem decode_scalar_eq_some {p : Primitive} {order : ByteOrder}
    (h : (scalar name p order rest).decode bytes = some members) :
    ∃ v later, p.ofCode? (order.decode (bytes.take p.width)) = some v ∧
      rest.decode (bytes.drop p.width) = some later ∧ members = (name, .scalar v) :: later := by
  rw [decode] at h
  obtain ⟨v, hValue, h⟩ := Option.bind_eq_some_iff.mp h
  obtain ⟨later, hRest, h⟩ := Option.bind_eq_some_iff.mp h
  cases h
  exact ⟨v, later, hValue, hRest, rfl⟩

theorem decode_nested_eq_some (h : (nested name inner rest).decode bytes = some members) :
    ∃ inner' later, inner.decode bytes = some inner' ∧
      rest.decode (bytes.drop inner.size) = some later ∧
      members = (name, .record inner') :: later := by
  rw [decode] at h
  obtain ⟨inner', hInner, h⟩ := Option.bind_eq_some_iff.mp h
  obtain ⟨later, hRest, h⟩ := Option.bind_eq_some_iff.mp h
  cases h
  exact ⟨inner', later, hInner, hRest, rfl⟩

theorem decode_skipped_eq_some {initial : Value}
    (h : (skipped name initial rest).decode bytes = some members) :
    ∃ later, rest.decode bytes = some later ∧ members = (name, initial) :: later := by
  rw [decode] at h
  obtain ⟨later, hRest, h⟩ := Option.bind_eq_some_iff.mp h
  cases h
  exact ⟨later, hRest, rfl⟩

/-- Decoded members are those of a record, with all that is not encoded at its initial value. -/
theorem admits_of_decode (h : f.decode bytes = some members) :
    f.admits members ∧ f.erase members = members := by
  induction f generalizing bytes members with
  | nil =>
      cases h
      exact ⟨rfl, rfl⟩
  | scalar name p order rest ih =>
      obtain ⟨v, later, hValue, hRest, rfl⟩ := decode_scalar_eq_some h
      obtain ⟨hAdmits, hErase⟩ := ih hRest
      have hPrimitive := Primitive.primitive_of_ofCode? hValue
      exact ⟨admits_scalar_iff.mpr ⟨v, later, rfl, hPrimitive, hAdmits⟩, by rw [erase, hErase]⟩
  | nested name inner rest ihInner ihRest =>
      obtain ⟨inner', later, hInner, hRest, rfl⟩ := decode_nested_eq_some h
      obtain ⟨hAdmitsInner, hEraseInner⟩ := ihInner hInner
      obtain ⟨hAdmits, hErase⟩ := ihRest hRest
      exact ⟨admits_nested_iff.mpr ⟨inner', later, rfl, hAdmitsInner, hAdmits⟩,
        by rw [erase, hEraseInner, hErase]⟩
  | skipped name initial rest ih =>
      obtain ⟨later, hRest, rfl⟩ := decode_skipped_eq_some h
      obtain ⟨hAdmits, hErase⟩ := ih hRest
      exact ⟨admits_skipped_iff.mpr ⟨initial, later, rfl, hAdmits⟩, by rw [erase, hErase]⟩

/-- Decoded members can be encoded again, and become the normalized bytes. -/
theorem encode_of_decode (hLength : f.size ≤ bytes.length) (h : f.decode bytes = some members) :
    (∀ leaf ∈ f.leaves members, leaf.fits) ∧ f.encode members = f.normalize bytes := by
  induction f generalizing bytes members with
  | nil =>
      cases h
      exact ⟨fun _ hLeaf => absurd hLeaf (List.not_mem_nil), rfl⟩
  | scalar name p order rest ih =>
      simp only [size] at hLength
      obtain ⟨v, later, hValue, hRest, rfl⟩ := decode_scalar_eq_some h
      obtain ⟨hFits, hEncode⟩ := ih (by rw [List.length_drop]; omega) hRest
      have hWidth : (bytes.take p.width).length = p.width := by rw [List.length_take]; omega
      obtain ⟨_, hLeaf, hBytes⟩ :=
        Window.bytes_of_ofCode? (w := ⟨p, order, bytes.take p.width⟩) hWidth hValue
      rw [encode] at hEncode
      refine ⟨List.forall_mem_cons.mpr ⟨hLeaf, hFits⟩, ?_⟩
      rw [encode, leaves, List.flatMap_cons, hBytes, hEncode, normalize, normalize, windows,
        List.flatMap_cons]
  | nested name inner rest ihInner ihRest =>
      simp only [size] at hLength
      obtain ⟨inner', later, hInner, hRest, rfl⟩ := decode_nested_eq_some h
      obtain ⟨hFitsInner, hEncodeInner⟩ := ihInner (by omega) hInner
      obtain ⟨hFits, hEncode⟩ := ihRest (by rw [List.length_drop]; omega) hRest
      rw [encode] at hEncodeInner hEncode
      refine ⟨List.forall_mem_append.mpr ⟨hFitsInner, hFits⟩, ?_⟩
      rw [encode, leaves, List.flatMap_append, hEncodeInner, hEncode, normalize, normalize,
        normalize, windows, List.flatMap_append]
  | skipped name initial rest ih =>
      obtain ⟨later, hRest, rfl⟩ := decode_skipped_eq_some h
      exact ih hLength hRest

/-- The normal form of enough bytes has exactly those of the format. -/
theorem length_normalize (hLength : f.size ≤ bytes.length) :
    (f.normalize bytes).length = f.size := by
  have hBytes := congrArg List.length (windows_bytes hLength)
  rw [List.length_take, Nat.min_eq_left hLength, List.length_flatMap] at hBytes
  simp only [normalize, List.length_flatMap, Window.length_normalized, hBytes]

/-- No value is lost: bytes and their normal form decode alike. -/
theorem decode_normalize (hLength : f.size ≤ bytes.length) :
    f.decode (f.normalize bytes) = f.decode bytes := by
  induction f generalizing bytes with
  | nil => rfl
  | scalar name p order rest ih =>
      simp only [size] at hLength
      have hRest := @ih (bytes.drop p.width) (by rw [List.length_drop]; omega)
      have hWidth : (bytes.take p.width).length = p.width := by rw [List.length_take]; omega
      have hWindow := Window.ofCode?_normalized (w := ⟨p, order, bytes.take p.width⟩) hWidth
      have hBytes : (scalar name p order rest).normalize bytes =
          Window.normalized ⟨p, order, bytes.take p.width⟩ ++ rest.normalize (bytes.drop p.width) :=
        List.flatMap_cons ..
      have hNormalized : (Window.normalized ⟨p, order, bytes.take p.width⟩).length = p.width := by
        rw [Window.length_normalized, hWidth]
      rw [hBytes, decode, List.take_left' hNormalized, List.drop_left' hNormalized, hRest, hWindow]
      rfl
  | nested name inner rest ihInner ihRest =>
      simp only [size] at hLength
      have hInner := @ihInner bytes (by omega)
      have hRest := @ihRest (bytes.drop inner.size) (by rw [List.length_drop]; omega)
      have hBytes : (nested name inner rest).normalize bytes =
          inner.normalize bytes ++ rest.normalize (bytes.drop inner.size) :=
        List.flatMap_append ..
      have hSize : (inner.normalize bytes).length = inner.size := length_normalize (by omega)
      rw [hBytes, decode, decode_append inner _ hSize.symm, List.drop_left' hSize, hInner, hRest]
      rfl
  | skipped name initial rest ih =>
      have hRest : rest.decode ((skipped name initial rest).normalize bytes) = rest.decode bytes :=
        ih hLength
      rw [decode, hRest, decode]

/-- The same members are decoded from a second buffer exactly if it starts with the same bytes once
they are normalized. -/
theorem decode_eq_some_iff {other : Bytes} (hLength : f.size ≤ bytes.length)
    (hOther : f.size ≤ other.length) (h : f.decode bytes = some members) :
    f.decode other = some members ↔ f.normalize other = f.normalize bytes := by
  constructor
  · intro hDecode
    rw [← (encode_of_decode hOther hDecode).2, (encode_of_decode hLength h).2]
  · intro hNormalize
    rw [← decode_normalize hOther, hNormalize, decode_normalize hLength, h]

end WireFormat

end WireRecord
