import Mathlib.Algebra.GroupWithZero.Nat
import WireRecord.Proofs.Record.SinkRun

/-!
What a write that fails leaves in the buffer. No byte of the first leaf that cannot be encoded is
written, nor of any leaf after it, so the buffer shows how far the write came. It does not show in
which record, the outermost one or a nested one, the leaf is.
-/

namespace WireRecord

namespace Leaf

/-- A character that has no encoding. -/
def IsWide (l : Leaf) : Prop := ∃ c, l.scalar = .char c ∧ 0xffff < c.toNat

/-- The only scalar that does not fit is a character beyond the basic plane. -/
theorem fits_eq_false_iff (l : Leaf) : l.fits = false ↔ l.IsWide := by
  rw [← Bool.not_eq_true, fits, Scalar.code?_isSome_iff]
  simp [IsWide]

/-- The number of bytes of some leaves, which is the offset of the leaf that follows them. -/
def extent (leaves : List Leaf) : Nat := (leaves.map fun l => l.scalar.width).sum

theorem length_flatMap_bytes (leaves : List Leaf) :
    (leaves.flatMap bytes).length = extent leaves := by
  simp [List.length_flatMap, extent]

/-- The leaves before the first one that has no encoding. -/
theorem exists_first_wide {leaves : List Leaf} (h : ∃ l ∈ leaves, l.IsWide) :
    ∃ before odd after, leaves = before ++ odd :: after ∧
      (∀ l ∈ before, ¬l.IsWide) ∧ odd.IsWide := by
  have hSome : (leaves.find? fun l => !l.fits).isSome := by
    obtain ⟨l, hMember, hWide⟩ := h
    rw [List.find?_isSome]
    exact ⟨l, hMember, by rw [l.fits_eq_false_iff.mpr hWide, Bool.not_false]⟩
  obtain ⟨odd, hFind⟩ := Option.isSome_iff_exists.mp hSome
  obtain ⟨hOdd, before, after, hLeaves, hBefore⟩ := List.find?_eq_some_iff_append.mp hFind
  refine ⟨before, odd, after, hLeaves, fun l hMember => ?_, ?_⟩
  · rw [← l.fits_eq_false_iff, Bool.not_eq_false]
    simpa using hBefore l hMember
  · rw [← odd.fits_eq_false_iff]
    simpa using hOdd

/-- What is written are the encodings of the leaves before the first one that has none. -/
theorem written_of_first_wide {before after : List Leaf} {odd : Leaf}
    (hBefore : ∀ l ∈ before, ¬l.IsWide) (hOdd : odd.IsWide) :
    written (before ++ odd :: after) = before.flatMap bytes := by
  have hFits : before.all fits := by
    refine List.all_eq_true.mpr fun l hMember => ?_
    rw [← Bool.not_eq_false, l.fits_eq_false_iff]
    exact hBefore l hMember
  have hStop : written (odd :: after) = [] := by
    rw [written, List.takeWhile_cons_of_neg (by simp [odd.fits_eq_false_iff.mpr hOdd]),
      List.flatMap_nil]
  rw [written_append_of_fits hFits, hStop, List.append_nil]

end Leaf

/-- The first leaves of a record lie within its size. -/
theorem Derived.extent_le_size {t : RecordType} {f : WireFormat} (h : Derived t f)
    {members : Members} (hAdmits : f.admits members) {before rest : List Leaf}
    (hLeaves : f.leaves members = before ++ rest) : Leaf.extent before ≤ t.size := by
  have hSize := WireFormat.length_encode hAdmits
  rw [WireFormat.encode, hLeaves, List.flatMap_append, List.length_append,
    Leaf.length_flatMap_bytes, ← h.size_eq] at hSize
  omega

/-- A write of a leaf that has no encoding leaves the encodings of the leaves before it, followed by
the rest of the buffer as it was. -/
theorem Derived.write_wide {t : RecordType} {f : WireFormat} (h : Derived t f) {members : Members}
    (hAdmits : f.admits members) {buffer : Bytes} (hLong : t.size ≤ buffer.length)
    {before after : List Leaf} {odd : Leaf} (hLeaves : f.leaves members = before ++ odd :: after)
    (hBefore : ∀ l ∈ before, ¬l.IsWide) (hOdd : odd.IsWide) :
    t.write (.record members) buffer =
      (false, before.flatMap Leaf.bytes ++ buffer.drop (Leaf.extent before)) := by
  have hWrite := h.writesAs.write_eq buffer hAdmits
  have hStops : (f.leaves members).all Leaf.fits = false := by
    rw [hLeaves, List.all_append, List.all_cons, odd.fits_eq_false_iff.mpr hOdd, Bool.false_and,
      Bool.and_false]
  have hFits : (before.flatMap Leaf.bytes).length ≤ buffer.length := by
    rw [Leaf.length_flatMap_bytes]
    exact Nat.le_trans (h.extent_le_size hAdmits hLeaves) hLong
  rw [hWrite, if_neg (Nat.not_lt.mpr (h.size_eq ▸ hLong)), hStops, hLeaves,
    Leaf.written_of_first_wide hBefore hOdd, overlay_eq_append hFits, Leaf.length_flatMap_bytes]

/-- A buffer that is too short is not touched. In one that is long enough, a character above
`U+FFFF` makes the write fail, however deep in nested records it is. Up to the offset of the first
such character the buffer then holds the encodings of the leaves before it, in depth-first order,
and from there on it is as it was. -/
theorem failed_write_leaves_prefix {t : RecordType} {f : WireFormat} (h : Derived t f) {v : Value}
    (hValue : t.shape.admits v) (buffer : Bytes) :
    ∃ members, v = .record members ∧ f.admits members ∧
      (buffer.length < t.size → t.write v buffer = (false, buffer)) ∧
      (t.size ≤ buffer.length → (∃ l ∈ f.leaves members, l.IsWide) →
        ∃ before odd after, f.leaves members = before ++ odd :: after ∧
          (∀ l ∈ before, ¬l.IsWide) ∧ odd.IsWide ∧
          (t.write v buffer).1 = false ∧
          (t.write v buffer).2.length = buffer.length ∧
          (t.write v buffer).2.take (Leaf.extent before) = before.flatMap Leaf.bytes ∧
          (t.write v buffer).2.drop (Leaf.extent before) = buffer.drop (Leaf.extent before)) := by
  obtain ⟨members, rfl, hAdmits⟩ := h.shapedAs v hValue
  refine ⟨members, rfl, hAdmits, h.write_short hAdmits, fun hLong hWide => ?_⟩
  obtain ⟨before, odd, after, hLeaves, hBefore, hOdd⟩ := Leaf.exists_first_wide hWide
  have hWrite := h.write_wide hAdmits hLong hLeaves hBefore hOdd
  have hExtent := Leaf.length_flatMap_bytes before
  refine ⟨before, odd, after, hLeaves, hBefore, hOdd, ?_⟩
  rw [hWrite]
  refine ⟨rfl, ?_, List.take_left' hExtent, List.drop_left' hExtent⟩
  have hSize := h.extent_le_size hAdmits hLeaves
  rw [List.length_append, List.length_drop, hExtent]
  omega

namespace Sample

/-- The number of the odd letter. -/
def oddNumber : Leaf := ⟨.u16 0x403, .little⟩

/-- The character in the stamp of the odd letter. -/
def oddMark : Leaf := ⟨.char (Char.ofNat 0x1f600), .big⟩

theorem leaves_oddLetter :
    envelopeFormat.leaves oddLetter = [oddNumber, oddMark, ⟨.bool true, .little⟩] := rfl

theorem isWide_oddMark : oddMark.IsWide := ⟨Char.ofNat 0x1f600, rfl, by decide⟩

end Sample

/-- The number before the stamp is written, and nothing of the character in the stamp or after it.
-/
theorem failed_write_leaves_prefix_oddLetter :
    Sample.envelope.write (.record Sample.oddLetter) [9, 9, 9, 9, 9, 9] =
        (false, [3, 4, 9, 9, 9, 9]) ∧
      Sample.envelope.write (.record Sample.oddLetter) [9, 9, 9, 9] = (false, [9, 9, 9, 9]) := by
  have hValue : Sample.envelope.shape.admits (.record Sample.oddLetter) := rfl
  constructor
  · obtain ⟨members, hMembers, _, _, hFails⟩ :=
      failed_write_leaves_prefix Sample.derived_envelope hValue [9, 9, 9, 9, 9, 9]
    cases hMembers
    rw [Sample.leaves_oddLetter] at hFails
    obtain ⟨before, odd, after, hLeaves, hBefore, hOdd, hFailed, _, hTake, hDrop⟩ :=
      hFails (by decide) ⟨Sample.oddMark, by simp, Sample.isWide_oddMark⟩
    have hFirst : before = [Sample.oddNumber] := by
      rcases before with _ | ⟨number, _ | ⟨mark, rest⟩⟩
      · cases hLeaves
        obtain ⟨c, hChar, _⟩ := hOdd
        cases hChar
      · cases hLeaves
        rfl
      · simp only [List.cons_append, List.cons.injEq] at hLeaves
        obtain ⟨_, rfl, _⟩ := hLeaves
        exact absurd Sample.isWide_oddMark (hBefore _ (by simp))
    subst hFirst
    refine Prod.ext hFailed ?_
    rw [← List.take_append_drop (Leaf.extent [Sample.oddNumber]) (Sample.envelope.write _ _).2,
      hTake, hDrop]
    rfl
  · obtain ⟨members, hMembers, _, hShort, _⟩ :=
      failed_write_leaves_prefix Sample.derived_envelope hValue [9, 9, 9, 9]
    exact hShort (by decide)

end WireRecord
