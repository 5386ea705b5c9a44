import WireRecord.Proofs.Record.Reading
import WireRecord.Proofs.Record.Shape
import WireRecord.Proofs.Record.Writing

/-!
The two round trips of a record type that is compiled all the way down: what is written reads back
but for the members that are not encoded, and what is read is written back but for the bytes that
stand for true.
-/

namespace WireRecord

/-- The leaves that can be encoded are all but the characters above `U+FFFF`. -/
theorem Leaf.all_fits_iff (leaves : List Leaf) :
    leaves.all Leaf.fits ↔ ∀ leaf ∈ leaves, ∀ c, leaf.scalar = .char c → c.toNat ≤ 0xffff := by
  simp only [List.all_eq_true, Leaf.fits, Scalar.code?_isSome_iff]

namespace Derived

variable {t : RecordType} {f : WireFormat} {members : Members}

theorem size_eq (h : Derived t f) : t.size = f.size := h.readsAs.size_eq

theorem read_short (h : Derived t f) {bytes : Bytes} (hShort : bytes.length < t.size) :
    t.read bytes = none := by
  rw [h.readsAs.read_eq, if_pos (h.size_eq ▸ hShort)]

/-- Enough bytes are decoded by the format, which looks at the first of them only. -/
theorem read_long (h : Derived t f) {bytes : Bytes} (hLong : t.size ≤ bytes.length) :
    t.read bytes = (f.decode bytes).map .record := by
  rw [h.readsAs.read_eq, if_neg (Nat.not_lt.mpr (h.size_eq ▸ hLong))]

theorem write_short (h : Derived t f) (hAdmits : f.admits members) {bytes : Bytes}
    (hShort : bytes.length < t.size) : t.write (.record members) bytes = (false, bytes) := by
  rw [h.writesAs.write_eq _ hAdmits, if_pos (h.size_eq ▸ hShort)]

/-- Writing into a long enough buffer succeeds exactly if all leaves can be encoded, and then
replaces the first bytes by their encodings. -/
theorem write_long (h : Derived t f) (hAdmits : f.admits members) {bytes : Bytes}
    (hLong : t.size ≤ bytes.length) :
    (t.write (.record members) bytes).1 = (f.leaves members).all Leaf.fits ∧
      ((f.leaves members).all Leaf.fits →
        t.write (.record members) bytes = (true, f.encode members ++ bytes.drop t.size)) := by
  have hWrite := h.writesAs.write_eq bytes hAdmits
  rw [if_neg (Nat.not_lt.mpr (h.size_eq ▸ hLong))] at hWrite
  refine ⟨by rw [hWrite], fun hFits => ?_⟩
  have hSize : (f.encode members).length = t.size :=
    (WireFormat.length_encode hAdmits).trans h.size_eq.symm
  rw [hWrite, hFits, Leaf.written_eq hFits, ← WireFormat.encode, overlay_eq_append (hSize ▸ hLong),
    hSize]

end Derived

/-- A value of the type is written exactly if the buffer is long enough and no character to be
encoded, at any depth, is above `U+FFFF`. The bytes then are the encodings of the leaves in
depth-first order, to which members that are not encoded have no part, the rest of the buffer is as
it was, and what is read back is the value with all members that are not encoded at their initial
values. -/
theorem write_then_read {t : RecordType} {f : WireFormat} (h : Derived t f) {v : Value}
    (hValue : t.shape.admits v) (buffer : Bytes) :
    ∃ members, v = .record members ∧ f.admits members ∧
      ((t.write v buffer).1 = true ↔
        t.size ≤ buffer.length ∧
          ∀ leaf ∈ f.leaves members, ∀ c, leaf.scalar = .char c → c.toNat ≤ 0xffff) ∧
      ((t.write v buffer).1 = true →
        (t.write v buffer).2.take t.size = (f.leaves members).flatMap Leaf.bytes ∧
        (t.write v buffer).2.drop t.size = buffer.drop t.size ∧
        (∀ others, f.admits others → f.erase others = f.erase members →
          f.leaves others = f.leaves members) ∧
        t.read (t.write v buffer).2 = some (.record (f.erase members))) := by
  obtain ⟨members, rfl, hAdmits⟩ := h.shapedAs v hValue
  refine ⟨members, rfl, hAdmits, ?_⟩
  rcases Nat.lt_or_ge buffer.length t.size with hShort | hLong
  · rw [h.write_short hAdmits hShort]
    exact ⟨iff_of_false (by simp) fun hLong => by omega, fun hDone => by cases hDone⟩
  obtain ⟨hDone, hWrite⟩ := h.write_long hAdmits hLong
  refine ⟨?_, fun hSucceeds => ?_⟩
  · rw [hDone, Leaf.all_fits_iff]
    exact (and_iff_right hLong).symm
  have hFits : (f.leaves members).all Leaf.fits := hDone ▸ hSucceeds
  have hSize : (f.encode members).length = t.size :=
    (WireFormat.length_encode hAdmits).trans h.size_eq.symm
  rw [hWrite hFits]
  refine ⟨List.take_left' hSize, List.drop_left' hSize, fun others hOthers hErase => ?_, ?_⟩
  · rw [← WireFormat.leaves_erase hOthers, hErase, WireFormat.leaves_erase hAdmits]
  · have hLength : t.size ≤ (f.encode members ++ buffer.drop t.size).length := by
      rw [List.length_append, hSize]
      exact Nat.le_add_right ..
    rw [h.read_long hLength, WireFormat.decode_encode hAdmits (List.all_eq_true.mp hFits)]
    rfl

/-- A record whose members that are not encoded are set to something else than they read back as. -/
theorem write_then_read_envelope :
    Sample.envelope.write (.record Sample.letter) [0, 0, 0, 0, 0, 7] =
        (true, [1, 2, 0x26, 0x3a, 1, 7]) ∧
      Sample.envelope.read [1, 2, 0x26, 0x3a, 1, 7] =
        some (.record (Sample.envelopeFormat.erase Sample.letter)) := by
  have hValue : Sample.envelope.shape.admits (.record Sample.letter) := rfl
  obtain ⟨members, hMembers, _, hSucceeds, hResult⟩ :=
    write_then_read Sample.derived_envelope hValue [0, 0, 0, 0, 0, 7]
  cases hMembers
  have hDone := hSucceeds.mpr ⟨by decide, (Leaf.all_fits_iff _).mp rfl⟩
  obtain ⟨hBytes, hRest, _, hRead⟩ := hResult hDone
  have hBuffer : (Sample.envelope.write (.record Sample.letter) [0, 0, 0, 0, 0, 7]).2 =
      [1, 2, 0x26, 0x3a, 1, 7] := by
    rw [← List.take_append_drop Sample.envelope.size (Sample.envelope.write _ _).2, hBytes, hRest]
    rfl
  exact ⟨Prod.ext hDone hBuffer, hBuffer ▸ hRead⟩

/-- A record is read exactly if the buffer is long enough and no window of a character, at any
depth, is a surrogate. It then is a record of the format with all members that are not encoded at
their initial values, and is written into any long enough buffer as the bytes that it was read from,
in which the bytes of truth values are normalized. The same record is read from a second buffer
exactly if that buffer starts with the same bytes after this. -/
theorem read_then_write {t : RecordType} {f : WireFormat} (h : Derived t f) (buffer : Bytes) :
    ((t.read buffer).isSome ↔
      t.size ≤ buffer.length ∧ ∀ window ∈ f.windows buffer, ¬window.isSurrogate) ∧
    (t.size ≤ buffer.length → (f.windows buffer).flatMap Window.bytes = buffer.take t.size) ∧
    ∀ v, t.read buffer = some v →
      (∃ members, v = .record members ∧ f.admits members ∧ f.erase members = members) ∧
      (∀ target, t.size ≤ target.length →
        t.write v target =
          (true, (f.windows buffer).flatMap Window.normalized ++ target.drop t.size)) ∧
      ∀ other, t.read other = some v ↔
        t.size ≤ other.length ∧ f.normalize other = f.normalize buffer := by
  rcases Nat.lt_or_ge buffer.length t.size with hShort | hLong
  · rw [h.read_short hShort]
    exact ⟨iff_of_false (by simp) fun hLong => by omega, fun hLong => by omega,
      fun v hRead => by cases hRead⟩
  have hLength : f.size ≤ buffer.length := h.size_eq ▸ hLong
  refine ⟨?_, fun _ => ?_, fun v hRead => ?_⟩
  · rw [h.read_long hLong, Option.isSome_map, WireFormat.decode_isSome_iff hLength]
    exact (and_iff_right hLong).symm
  · rw [h.size_eq]
    exact WireFormat.windows_bytes hLength
  rw [h.read_long hLong] at hRead
  obtain ⟨members, hDecode, rfl⟩ := Option.map_eq_some_iff.mp hRead
  obtain ⟨hAdmits, hErase⟩ := WireFormat.admits_of_decode hDecode
  obtain ⟨hFits, hEncode⟩ := WireFormat.encode_of_decode hLength hDecode
  refine ⟨⟨members, rfl, hAdmits, hErase⟩, fun target hTarget => ?_, fun other => ?_⟩
  · rw [(h.write_long hAdmits hTarget).2 (List.all_eq_true.mpr hFits), hEncode]
    rfl
  rcases Nat.lt_or_ge other.length t.size with hShortOther | hLongOther
  · rw [h.read_short hShortOther]
    exact iff_of_false (by simp) fun hBoth => by omega
  · have hOther : f.size ≤ other.length := h.size_eq ▸ hLongOther
    rw [h.read_long hLongOther, ← WireFormat.decode_eq_some_iff hLength hOther hDecode]
    simp [hLongOther]

/-- A truth value that is read from another byte than 1 and written as 1, and a lone surrogate. -/
theorem read_then_write_envelope :
    (∃ v, Sample.envelope.read [1, 2, 0x26, 0x3a, 7, 9] = some v ∧
      Sample.envelope.write v [0, 0, 0, 0, 0, 0, 0] = (true, [1, 2, 0x26, 0x3a, 1, 0, 0]) ∧
      Sample.envelope.read [1, 2, 0x26, 0x3a, 255] = some v) ∧
    ¬(Sample.envelope.read [1, 2, 0xd8, 0x3a, 7, 9]).isSome := by
  constructor
  · obtain ⟨hAccepts, _, hValue⟩ :=
      read_then_write Sample.derived_envelope [1, 2, 0x26, 0x3a, 7, 9]
    have hSome := hAccepts.mpr ⟨by decide, by decide⟩
    obtain ⟨v, hRead⟩ := Option.isSome_iff_exists.mp hSome
    obtain ⟨_, hWrite, hSame⟩ := hValue v hRead
    exact ⟨v, hRead, hWrite _ (by decide), (hSame _).mpr ⟨by decide, rfl⟩⟩
  · rw [(read_then_write Sample.derived_envelope [1, 2, 0xd8, 0x3a, 7, 9]).1]
    decide

end WireRecord
