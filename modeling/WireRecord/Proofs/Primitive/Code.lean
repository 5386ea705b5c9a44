import WireRecord.Primitive

/-!
The numbers that travel for the values of a primitive. A value that has a number is the value of
that number; every number that fits has a value but for the surrogates among the characters; and
numbers are told apart by their values but for those of a truth value.
-/

namespace WireRecord

namespace Scalar

/-- Only a character above `U+FFFF` has no number. -/
theorem code?_isSome_iff (v : Scalar) :
    v.code?.isSome ↔ ∀ c, v = .char c → c.toNat ≤ 0xffff := by
  cases v with
  | char c =>
      by_cases hSmall : c.toNat < 65536
      · simp [code?, hSmall]
        omega
      · simp [code?, hSmall]
        omega
  | bool | u8 | i8 | i16 | u16 | i32 | u32 | i64 | u64 | f32 | f64 => simp [code?]

theorem code?_lt {v : Scalar} {n : Nat} (h : v.code? = some n) : n < valueCount v.width := by
  cases v with
  | bool b =>
      cases h
      cases b <;> decide
  | char c =>
      obtain ⟨hSmall, h⟩ := Option.ite_none_right_eq_some.mp h
      cases h
      exact hSmall
  | u8 x | u16 x | u32 x | u64 x | f32 x | f64 x =>
      cases h
      exact x.toNat_lt
  | i8 x =>
      cases h
      exact x.toUInt8.toNat_lt
  | i16 x =>
      cases h
      exact x.toUInt16.toNat_lt
  | i32 x =>
      cases h
      exact x.toUInt32.toNat_lt
  | i64 x =>
      cases h
      exact x.toUInt64.toNat_lt

/-- A scalar comes back from its code. -/
theorem ofCode?_of_code? {v : Scalar} {n : Nat} (h : v.code? = some n) :
    v.primitive.ofCode? n = some v := by
  cases v with
  | bool b =>
      simp only [code?, Option.some.injEq] at h
      subst h
      cases b <;> rfl
  | char c =>
      simp only [code?, Option.ite_none_right_eq_some, Option.some.injEq] at h
      obtain ⟨_, rfl⟩ := h
      have hValid : c.toNat.isValidChar := c.valid
      simp [primitive, Primitive.ofCode?, hValid]
  | u8 x | f32 x | f64 x | u16 x | u32 x | u64 x | i8 x | i16 x | i32 x | i64 x =>
      simp only [code?, Option.some.injEq] at h
      subst h
      simp [primitive, Primitive.ofCode?]

end Scalar

namespace Primitive

/-- Among the numbers that fit, only the surrogates have no value, and only as characters. -/
theorem ofCode?_isSome_iff {p : Primitive} {n : Nat} (hFits : n < valueCount p.width) :
    (p.ofCode? n).isSome ↔ ¬(p = .char ∧ 0xd800 ≤ n ∧ n ≤ 0xdfff) := by
  cases p with
  | char =>
      have hSmall : n < 65536 := hFits
      by_cases hValid : n.isValidChar
      · simp only [ofCode?, if_pos hValid]
        simp only [Nat.isValidChar] at hValid
        simp
        omega
      · simp only [ofCode?, if_neg hValid]
        simp only [Nat.isValidChar] at hValid
        simp
        omega
  | bool | u8 | i8 | i16 | u16 | i32 | u32 | i64 | u64 | f32 | f64 => simp [ofCode?]

/-- The value of a number has that number again, but for true, which has one of its numbers. -/
theorem code?_of_ofCode? {p : Primitive} {n : Nat} {v : Scalar} (hFits : n < valueCount p.width)
    (h : p.ofCode? n = some v) :
    v.code? = some (if p = .bool then (if n = 0 then 0 else 1) else n) := by
  cases p with
  | bool =>
      simp only [ofCode?, Option.some.injEq] at h
      subst h
      by_cases hZero : n = 0 <;> simp [Scalar.code?, hZero]
  | char =>
      simp only [ofCode?, Option.ite_none_right_eq_some, Option.some.injEq] at h
      obtain ⟨hValid, rfl⟩ := h
      have hSmall : n < 65536 := hFits
      have hBack : (Char.ofNat n).toNat = n := by
        rw [Char.ofNat, dif_pos hValid]
        rfl
      simp [Scalar.code?, hBack, hSmall]
  | u8 | f32 | f64 | u16 | u32 | u64 | i8 | i16 | i32 | i64 =>
      simp only [ofCode?, Option.some.injEq] at h
      simp only [width, valueCount] at hFits
      subst h
      simp [Scalar.code?, Nat.mod_eq_of_lt hFits]

end Primitive

end WireRecord
