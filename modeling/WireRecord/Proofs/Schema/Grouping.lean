import WireRecord.Proofs.Schema.Spelling

/-!
Parentheses and invisible groups around a type or around the value of an option. They may be put
around it any number of times, and what is read off a type or a value is read off what stands inside
of all of them.
-/

namespace WireRecord

namespace TypeExpr

/-- A type with any number of parentheses and invisible groups around another one. -/
inductive Wraps : TypeExpr → TypeExpr → Prop where
  | refl (type : TypeExpr) : Wraps type type
  | paren {outer inner : TypeExpr} (h : Wraps outer inner) : Wraps (.paren outer) inner
  | group {outer inner : TypeExpr} (h : Wraps outer inner) : Wraps (.group outer) inner

variable {type outer inner : TypeExpr}

/-- Inside of all groupings both are the same. -/
theorem Wraps.peel_eq (h : outer.Wraps inner) : outer.peel = inner.peel := by
  induction h with
  | refl type => rfl
  | paren h ih => exact ih
  | group h ih => exact ih

theorem wraps_peel (type : TypeExpr) : type.Wraps type.peel := by
  induction type with
  | paren inner ih => exact .paren ih
  | group inner ih => exact .group ih
  | path _ | qualified _ | other _ _ => exact .refl _

/-- What has nothing around it is what is left of a type exactly if it is inside of the type. -/
theorem wraps_iff_peel_eq {core : TypeExpr} (hBare : core.peel = core) :
    type.Wraps core ↔ type.peel = core := by
  constructor
  · intro h
    exact h.peel_eq.trans hBare
  · rintro rfl
    exact type.wraps_peel

theorem path?_eq_some_iff {p : Path} : type.path? = some p ↔ type.Wraps (.path p) := by
  rw [wraps_iff_peel_eq rfl, path?]
  cases type.peel <;> simp

namespace Wraps

/-- What follows is read from the inside of a type: its kind, how it is shown, whether it is a path,
and whether it is the record's own. -/
theorem kind_eq (h : outer.Wraps inner) : outer.kind = inner.kind := by
  simp only [kind, path?, h.peel_eq]

theorem display_eq (h : outer.Wraps inner) : outer.display = inner.display := by
  rw [display, h.peel_eq, display]

theorem isPath_eq (h : outer.Wraps inner) : outer.isPath = inner.isPath := by
  simp only [isPath, h.peel_eq]

theorem isOwnType_eq (h : outer.Wraps inner) (d : Descriptor) :
    d.isOwnType outer = d.isOwnType inner := by
  simp only [Descriptor.isOwnType, path?, h.peel_eq]

/-- Nothing that is known about a type depends on what is around it. -/
theorem classify_eq (h : outer.Wraps inner) (oracle : TypeOracle) :
    outer.classify oracle = inner.classify oracle := by
  simp only [classify, isByValue, h.kind_eq, h.display_eq, h.isPath_eq, h.peel_eq]

end Wraps

end TypeExpr

namespace ValueExpr

/-- A value with any number of parentheses and invisible groups around another one. -/
inductive Wraps : ValueExpr → ValueExpr → Prop where
  | refl (value : ValueExpr) : Wraps value value
  | paren {outer inner : ValueExpr} (h : Wraps outer inner) : Wraps (.paren outer) inner
  | group {outer inner : ValueExpr} (h : Wraps outer inner) : Wraps (.group outer) inner

theorem Wraps.byteOrder?_eq {outer inner : ValueExpr} (h : outer.Wraps inner) :
    outer.byteOrder? = inner.byteOrder? := by
  induction h with
  | refl value => rfl
  | paren h ih => exact ih
  | group h ih => exact ih

end ValueExpr

end WireRecord
