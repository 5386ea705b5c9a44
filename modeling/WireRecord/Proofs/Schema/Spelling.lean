import WireRecord.Proofs.Schema.Exactness

/-!
How types are spelled. What a declaration reads off the path of a type is said here by the names of
the path: which spellings a record has for itself, and which spellings name a built-in type.
Groupings around a type make no difference, and a leading `::` keeps a path from naming the record.
-/

namespace WireRecord

namespace TypeExpr

/-- The type is a path of these names without a leading `::`. Generic arguments are not looked at.
-/
def Spells (type : TypeExpr) (names : List String) : Prop :=
  ∃ p, type.path? = some p ∧ p.leading = false ∧ p.names = names

/-- The type is spelled as one of the names that a record has for itself. -/
def SpellsOwn (type : TypeExpr) (name : String) : Prop :=
  type.Spells ["Self"] ∨ type.Spells [name] ∨ type.Spells ["self", name]

end TypeExpr

/-- A record knows its own type by its spelling, without a look at the scope. -/
theorem Descriptor.isOwnType_iff (d : Descriptor) (type : TypeExpr) :
    d.isOwnType type ↔ type.SpellsOwn d.name := by
  simp only [isOwnType, TypeExpr.SpellsOwn, TypeExpr.Spells, Path.names]
  cases hPath : type.path? with
  | none => simp
  | some p =>
      obtain ⟨leading, segments⟩ := p
      cases leading with
      | true => simp
      | false =>
          simp only [Option.some.injEq, exists_eq_left', true_and]
          -- only the names count from here on
          generalize segments.map PathSegment.name = names
          rcases names with _ | ⟨_, _ | ⟨_, _ | ⟨_, _⟩⟩⟩
          all_goals simp

namespace Path

/-- The path names a built-in type: the name stands alone, or after `core::primitive` or
`std::primitive`, and no segment has generic arguments. -/
def SpellsBuiltin (p : Path) (name : String) : Prop :=
  (∀ s ∈ p.segments, s.hasArguments = false) ∧
    (p.leading = false ∧ p.names = [name] ∨ p.names = ["core", "primitive", name] ∨
      p.names = ["std", "primitive", name])

/-- A builtin is spelled by its bare name, or in one of the two modules of primitives. -/
theorem primitiveName?_eq_some_iff {p : Path} {name : String} :
    p.primitiveName? = some name ↔ p.SpellsBuiltin name := by
  simp only [primitiveName?, SpellsBuiltin]
  cases hArguments : p.segments.any PathSegment.hasArguments with
  | true =>
      obtain ⟨s, hMember, hHas⟩ := List.any_eq_true.mp hArguments
      simp only [if_true, reduceCtorEq, false_iff, not_and]
      intro hBare
      simp [hBare s hMember] at hHas
  | false =>
      have hBare : ∀ s ∈ p.segments, s.hasArguments = false := by
        simpa using hArguments
      simp only [Bool.false_eq_true, if_false, iff_true_intro hBare, true_and]
      match p.names with
      | [] | [_, _] | _ :: _ :: _ :: _ :: _ => simp
      | [only] => cases p.leading <;> simp
      | [root, module, last] => grind

end Path

namespace Kind

theorem mem_named_of_ofName? {name : String} {kind : Kind} (h : ofName? name = some kind) :
    (name, kind) ∈ named := by
  obtain ⟨before, after, hNamed, _⟩ := List.lookup_eq_some_iff.mp h
  rw [hNamed]
  exact List.mem_append_right _ List.mem_cons_self

/-- The kinds of fixed width are named as their primitives are. -/
theorem exists_ofName?_iff {name : String} {q : Primitive} :
    (∃ kind, ofName? name = some kind ∧ kind.primitive? = some q) ↔ name = q.name := by
  have hListed : ∀ entry ∈ named, entry.2.primitive?.all fun q => entry.1 == q.name := by decide
  constructor
  · rintro ⟨kind, hName, hPrimitive⟩
    have hSame := hListed _ (mem_named_of_ofName? hName)
    simpa only [hPrimitive, Option.all_some, beq_iff_eq] using hSame
  · rintro rfl
    cases q <;> exact ⟨_, rfl, rfl⟩

/-- The two kinds whose width differs between platforms. -/
theorem exists_native_ofName?_iff {name : String} :
    (∃ kind, ofName? name = some kind ∧ kind.isNativeWidth) ↔ name = "isize" ∨ name = "usize" := by
  have hListed : ∀ entry ∈ named, entry.2.isNativeWidth →
      entry.1 = "isize" ∨ entry.1 = "usize" := by decide
  constructor
  · rintro ⟨kind, hName, hNative⟩
    exact hListed _ (mem_named_of_ofName? hName) hNative
  · rintro (rfl | rfl)
    · exact ⟨.nativeInt, rfl, rfl⟩
    · exact ⟨.nativeUInt, rfl, rfl⟩

/-- A kind has a fixed width, a width of the platform, or no width of its own. -/
theorem eq_userDefined_iff {kind : Kind} :
    kind = .userDefined ↔ (∀ q, kind.primitive? ≠ some q) ∧ ¬kind.isNativeWidth := by
  cases kind <;> simp [primitive?, isNativeWidth]

end Kind

namespace TypeExpr

variable {type : TypeExpr}

/-- The type is spelled as one of the primitives of fixed width. -/
def SpellsPrimitive (type : TypeExpr) (q : Primitive) : Prop :=
  ∃ p, type.path? = some p ∧ p.SpellsBuiltin q.name

/-- The type is spelled as one of the integers whose width differs between platforms. -/
def SpellsNative (type : TypeExpr) : Prop :=
  ∃ p, type.path? = some p ∧ (p.SpellsBuiltin "isize" ∨ p.SpellsBuiltin "usize")

/-- A type is of a named kind exactly if it spells a name of the kind. -/
theorem kind_eq_iff {kind : Kind} (hNamed : kind ≠ .userDefined) :
    type.kind = kind ↔ ∃ p name, type.path? = some p ∧ p.SpellsBuiltin name ∧
      Kind.ofName? name = some kind := by
  simp only [TypeExpr.kind, ← Path.primitiveName?_eq_some_iff]
  cases hKind : (type.path?.bind Path.primitiveName?).bind Kind.ofName? with
  | none =>
      refine iff_of_false (fun hUser => hNamed hUser.symm) ?_
      rintro ⟨p, name, hPath, hName, hOf⟩
      simp [hPath, hName, hOf] at hKind
  | some found =>
      obtain ⟨name, hBind, hOf⟩ := Option.bind_eq_some_iff.mp hKind
      obtain ⟨p, hPath, hName⟩ := Option.bind_eq_some_iff.mp hBind
      simp [hPath, hName, hOf]

theorem primitive?_kind_eq_some_iff {q : Primitive} :
    type.kind.primitive? = some q ↔ type.SpellsPrimitive q := by
  constructor
  · intro hPrimitive
    have hNamed : type.kind ≠ .userDefined := by
      intro hUser
      simp [hUser, Kind.primitive?] at hPrimitive
    obtain ⟨p, name, hPath, hSpells, hOf⟩ := (kind_eq_iff hNamed).mp rfl
    obtain rfl := Kind.exists_ofName?_iff.mp ⟨_, hOf, hPrimitive⟩
    exact ⟨p, hPath, hSpells⟩
  · rintro ⟨p, hPath, hSpells⟩
    obtain ⟨kind, hOf, hPrimitive⟩ := Kind.exists_ofName?_iff.mpr (rfl : q.name = q.name)
    have hNamed : kind ≠ .userDefined := fun hUser => by simp [hUser, Kind.primitive?] at hPrimitive
    rwa [(kind_eq_iff hNamed).mpr ⟨p, q.name, hPath, hSpells, hOf⟩]

theorem primitive?_kind_eq_none_iff :
    type.kind.primitive? = none ↔ ∀ q, ¬type.SpellsPrimitive q := by
  rw [Option.eq_none_iff_forall_ne_some]
  exact forall_congr' fun q => not_congr primitive?_kind_eq_some_iff

/-- A type has the width of the machine exactly if it spells one of the two integers that do. -/
theorem isNativeWidth_kind_iff : type.kind.isNativeWidth ↔ type.SpellsNative := by
  constructor
  · intro hNative
    have hNamed : type.kind ≠ .userDefined := by
      intro hUser
      simp [hUser, Kind.isNativeWidth] at hNative
    obtain ⟨p, name, hPath, hSpells, hOf⟩ := (kind_eq_iff hNamed).mp rfl
    rcases Kind.exists_native_ofName?_iff.mp ⟨_, hOf, hNative⟩ with rfl | rfl
    · exact ⟨p, hPath, .inl hSpells⟩
    · exact ⟨p, hPath, .inr hSpells⟩
  · rintro ⟨p, hPath, hSpells | hSpells⟩
    · have hNamed : Kind.nativeInt ≠ .userDefined := by decide
      rw [(kind_eq_iff hNamed).mpr ⟨p, _, hPath, hSpells, rfl⟩]
      rfl
    · have hNamed : Kind.nativeUInt ≠ .userDefined := by decide
      rw [(kind_eq_iff hNamed).mpr ⟨p, _, hPath, hSpells, rfl⟩]
      rfl

/-- A primitive of fixed width is spelled as no integer of the platform's width. -/
theorem SpellsPrimitive.not_spellsNative {q : Primitive}
    (h : type.SpellsPrimitive q) : ¬type.SpellsNative := by
  have hKind : type.kind.primitive? = some q := primitive?_kind_eq_some_iff.mpr h
  rw [← isNativeWidth_kind_iff]
  cases hCase : type.kind <;> simp_all [Kind.primitive?, Kind.isNativeWidth]

/-- A type is user-defined exactly if it spells no built-in type. -/
theorem kind_eq_userDefined_iff :
    type.kind = .userDefined ↔ (∀ q, ¬type.SpellsPrimitive q) ∧ ¬type.SpellsNative := by
  rw [Kind.eq_userDefined_iff, isNativeWidth_kind_iff]
  simp only [ne_eq, primitive?_kind_eq_some_iff]

end TypeExpr

end WireRecord
