import WireRecord.Proofs.Schema.Grouping

/-!
What member types are classified as. Of all types only paths can be encoded at all, and whether a
path is a built-in type is a matter of its spelling; an oracle decides about the other paths and
about nothing else.
-/

namespace WireRecord

/-- The names of the built-in types: the primitives of fixed width, and the two integers whose width
differs between platforms. -/
def builtinNames : List String := Primitive.all.map Primitive.name ++ ["isize", "usize"]

namespace Kind

/-- The table of kinds and the list of names that are built in say the same. -/
theorem exists_ofName?_eq_some_iff {name : String} :
    (∃ kind, ofName? name = some kind) ↔ name ∈ builtinNames := by
  have hListed : ∀ entry ∈ named, entry.1 ∈ builtinNames := by decide
  have hKnown : ∀ name ∈ builtinNames, (ofName? name).isSome := by decide
  constructor
  · rintro ⟨kind, hName⟩
    exact hListed _ (mem_named_of_ofName? hName)
  · intro hName
    exact Option.isSome_iff_exists.mp (hKnown name hName)

theorem ne_userDefined_of_ofName? {name : String} {kind : Kind} (h : ofName? name = some kind) :
    kind ≠ .userDefined := by
  have hListed : ∀ entry ∈ named, entry.2 ≠ .userDefined := by decide
  exact hListed _ (mem_named_of_ofName? h)

end Kind

namespace TypeExpr

variable {type : TypeExpr}

/-- The type is, groupings aside, a path that spells a built-in type of this name. -/
def IsBuiltin (type : TypeExpr) (name : String) : Prop :=
  ∃ p, type.Wraps (.path p) ∧ p.SpellsBuiltin name

/-- A type that is spelled like a builtin has the kind of that name. -/
theorem IsBuiltin.ofName?_eq {name : String} (h : type.IsBuiltin name) (hName : name ∈ builtinNames) :
    Kind.ofName? name = some type.kind := by
  obtain ⟨p, hPath, hSpells⟩ := h
  obtain ⟨kind, hKind⟩ := Kind.exists_ofName?_eq_some_iff.mpr hName
  have hSame : type.kind = kind :=
    (kind_eq_iff (Kind.ne_userDefined_of_ofName? hKind)).mpr
      ⟨p, name, path?_eq_some_iff.mpr hPath, hSpells, hKind⟩
  rw [hSame, hKind]

/-- A primitive is known by how it is spelled, and by nothing that is known of types. -/
theorem isPrimitive_kind_iff :
    type.kind.isPrimitive ↔ ∃ name ∈ builtinNames, type.IsBuiltin name := by
  constructor
  · intro hPrimitive
    have hNamed : type.kind ≠ .userDefined := bne_iff_ne.mp hPrimitive
    obtain ⟨p, name, hPath, hSpells, hKind⟩ := (kind_eq_iff hNamed).mp rfl
    exact ⟨name, Kind.exists_ofName?_eq_some_iff.mp ⟨_, hKind⟩, p, path?_eq_some_iff.mp hPath, hSpells⟩
  · rintro ⟨name, hName, hBuiltin⟩
    exact bne_iff_ne.mpr (Kind.ne_userDefined_of_ofName? (hBuiltin.ofName?_eq hName))

/-- The type is a path, perhaps one with a qualified self type, and nothing is around it. -/
inductive IsPlainPath : TypeExpr → Prop where
  | path (p : Path) : IsPlainPath (.path p)
  | qualified (tokens : Tokens) : IsPlainPath (.qualified tokens)

theorem IsPlainPath.peel_eq {core : TypeExpr} (h : core.IsPlainPath) : core.peel = core := by
  cases h <;> rfl

/-- What counts as a path is a path without a qualified self type, through any groupings. -/
theorem isPath_iff : type.isPath ↔ type.peel.IsPlainPath := by
  rw [isPath]
  cases type.peel with
  | path p => exact iff_of_true rfl (.path p)
  | qualified tokens => exact iff_of_true rfl (.qualified tokens)
  | paren _ | group _ | other _ _ =>
      refine iff_of_false Bool.false_ne_true ?_
      rintro ⟨_⟩

/-- A composite is a path that is not built in and that the oracle knows, inside of all groupings.
-/
theorem isComposite_classify_iff {oracle : TypeOracle} :
    (type.classify oracle).isComposite ↔ type.kind = .userDefined ∧
      ∃ core, type.Wraps core ∧ core.IsPlainPath ∧
        (oracle.isMarked core ∨ oracle.isImplemented core) := by
  simp only [classify, Bool.and_eq_true, beq_iff_eq, Bool.or_eq_true, isPath_iff, and_assoc]
  refine and_congr_right fun _ => ?_
  constructor
  · rintro ⟨hPath, hKnown⟩
    exact ⟨type.peel, type.wraps_peel, hPath, hKnown⟩
  · rintro ⟨core, hWraps, hPath, hKnown⟩
    obtain rfl := (wraps_iff_peel_eq hPath.peel_eq).mp hWraps
    exact ⟨hPath, hKnown⟩

end TypeExpr

/-- A type is of the kind of a built-in type exactly if it is, groupings aside, a path that spells
that type, and it is user-defined otherwise, whatever the oracle says. It is a record exactly if it
is a user-defined path that the oracle, who sees it without its groupings, takes for one. So nothing
is both, no type that is not a path can be encoded, and groupings make no difference to anything
that is known about a type. -/
theorem classification_exact (type : TypeExpr) (oracle : TypeOracle) :
    ((type.classify oracle).isPrimitive ↔ ∃ name ∈ builtinNames, type.IsBuiltin name) ∧
    (∀ name ∈ builtinNames, type.IsBuiltin name →
      Kind.ofName? name = some (type.classify oracle).kind) ∧
    ((type.classify oracle).isPrimitive = false ↔ (type.classify oracle).kind = .userDefined) ∧
    ((type.classify oracle).isComposite ↔ (type.classify oracle).kind = .userDefined ∧
      ∃ core, type.Wraps core ∧ core.IsPlainPath ∧
        (oracle.isMarked core ∨ oracle.isImplemented core)) ∧
    ¬((type.classify oracle).isPrimitive ∧ (type.classify oracle).isComposite) ∧
    (∀ form tokens, type.Wraps (.other form tokens) →
      (type.classify oracle).isCompatible = false) ∧
    ∀ outer : TypeExpr, outer.Wraps type → outer.classify oracle = type.classify oracle := by
  have hUser : (type.classify oracle).isPrimitive = false ↔ type.kind = .userDefined :=
    bne_eq_false_iff_eq
  refine ⟨TypeExpr.isPrimitive_kind_iff, fun name hName hBuiltin => hBuiltin.ofName?_eq hName, hUser,
    TypeExpr.isComposite_classify_iff, ?_, fun form tokens hOther => ?_,
    fun outer hWraps => hWraps.classify_eq oracle⟩
  · rintro ⟨hPrimitive, hComposite⟩
    rw [hUser.mpr (TypeExpr.isComposite_classify_iff.mp hComposite).1] at hPrimitive
    cases hPrimitive
  · have hPeel : type.peel = .other form tokens := hOther.peel_eq
    have hKind : type.kind = .userDefined := by simp [TypeExpr.kind, TypeExpr.path?, hPeel]
    rw [Classification.isCompatible, hUser.mpr hKind]
    simp [TypeExpr.classify, TypeExpr.isPath, hPeel]

/-- Spellings that miss a built-in type by little: a leading `::` before a single name, another
library before `primitive`, a raw identifier, and generic arguments. -/
example :
    (TypeExpr.path { Path.ofNames ["u32"] with leading := true }).kind = .userDefined ∧
      (TypeExpr.path (Path.ofNames ["alloc", "primitive", "u32"])).kind = .userDefined ∧
      (TypeExpr.named "r#u32").kind = .userDefined ∧
      (TypeExpr.path { segments := [⟨"u32", some ⟨[], false⟩⟩] }).kind = .userDefined := by
  decide

/-- Under an oracle that says yes to everything: a number in parentheses and groups with an empty
list of arguments, and a reference. -/
theorem classification_exact_credulous :
    let credulous : TypeOracle := { isMarked := fun _ => true, isImplemented := fun _ => true }
    let number : TypeExpr := .path {
      leading := true
      segments := [⟨"core", none⟩, ⟨"primitive", none⟩, ⟨"u32", some ⟨[], true⟩⟩] }
    number.IsBuiltin "u32" ∧
      ((TypeExpr.group (.paren number)).classify credulous).kind = .uint ∧
      ((TypeExpr.paren (.other .reference [])).classify credulous).isCompatible = false := by
  intro credulous number
  have hBuiltin : number.IsBuiltin "u32" := ⟨_, .refl _, by decide, by decide⟩
  have hExact := classification_exact number credulous
  have hKind : (number.classify credulous).kind = .uint :=
    (Option.some.inj (hExact.2.1 "u32" (by decide) hBuiltin)).symm
  have hSame := hExact.2.2.2.2.2.2 (.group (.paren number)) (.group (.paren (.refl _)))
  refine ⟨hBuiltin, by rw [hSame, hKind], ?_⟩
  exact (classification_exact _ credulous).2.2.2.2.2.1 .reference [] (.paren (.refl _))

end WireRecord
