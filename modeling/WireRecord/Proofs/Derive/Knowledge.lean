import WireRecord.Derive.Oracle
import WireRecord.Proofs.Schema.Spelling

/-!
What a derive takes a type for. It sees no other record, so all it has is the spelling of the type
and the generics of its own record. The answers of its oracle are said here in those terms, and from
them which types it has nothing to say against.
-/

namespace WireRecord

/-- One of the bounds is the contract. -/
def Bounds.NameContract (b : Bounds) : Prop :=
  ∃ bound ∈ b.items, ∃ p, bound.trait? = some p ∧ p.last? = some contractName

/-- A list of bounds has the contract if one of them is a path that ends in its name. -/
theorem Bounds.haveContract_iff (b : Bounds) : b.haveContract ↔ b.NameContract := by
  simp [haveContract, NameContract, Path.isContract, Option.any_eq_true]

namespace TypeExpr

/-- The type is a bare identifier, and nothing is around it. -/
def IsName (type : TypeExpr) (name : String) : Prop :=
  ∃ p, type = .path p ∧ p.ident? = some name

/-- Only a bare name, without groupings around it, can be a type parameter. -/
theorem param?_eq_some_iff {type : TypeExpr} {params : List String} {name : String} :
    type.param? params = some name ↔ type.IsName name ∧ name ∈ params := by
  cases type with
  | path p => simp [param?, IsName]
  | qualified _ | paren _ | group _ | other _ _ => simp [param?, IsName]

end TypeExpr

namespace Generics

variable {g : Generics} {type : TypeExpr}

/-- A type parameter has the contract among its bounds, where it is declared or in a predicate on
its name. -/
def IsBounded (g : Generics) (name : String) : Prop :=
  name ∈ g.typeNames ∧
    ((∃ bounds, (name, bounds) ∈ g.typeParams ∧ bounds.NameContract) ∨
      ∃ listed ∈ g.predicates, ∃ binder bounded bounds,
        listed.item = .type binder bounded bounds ∧ bounded.IsName name ∧ bounds.NameContract)

/-- The parameters that a derive takes for bounded are those that are bounded where they are
declared or in a predicate. -/
theorem mem_contractParams_iff {name : String} :
    name ∈ g.contractParams ↔ g.IsBounded name := by
  rw [contractParams, List.mem_append, List.mem_filterMap, List.mem_filterMap, IsBounded]
  constructor
  · rintro (⟨⟨param, bounds⟩, hMem, hSome⟩ | ⟨⟨predicate, comma⟩, hMem, hSome⟩)
    · simp only [Option.ite_none_right_eq_some, Option.some.injEq] at hSome
      obtain ⟨hContract, rfl⟩ := hSome
      exact ⟨List.mem_map_of_mem hMem, .inl ⟨bounds, hMem, bounds.haveContract_iff.mp hContract⟩⟩
    · cases predicate with
      | lifetime tokens => cases hSome
      | type binder bounded bounds =>
          simp only [Option.ite_none_right_eq_some, TypeExpr.param?_eq_some_iff] at hSome
          obtain ⟨hContract, hName, hParam⟩ := hSome
          exact ⟨hParam, .inr ⟨_, hMem, binder, bounded, bounds, rfl, hName,
            bounds.haveContract_iff.mp hContract⟩⟩
  · rintro ⟨hParam, ⟨bounds, hMem, hContract⟩ |
      ⟨listed, hMem, _, bounded, bounds, hItem, hName, hContract⟩⟩
    · exact .inl ⟨_, hMem, if_pos (bounds.haveContract_iff.mpr hContract)⟩
    · refine .inr ⟨listed, hMem, ?_⟩
      rw [hItem]
      exact (if_pos (bounds.haveContract_iff.mpr hContract)).trans
        (TypeExpr.param?_eq_some_iff.mpr ⟨hName, hParam⟩)

/-- The type, groupings aside, is a type parameter that has the contract among its bounds. -/
def BoundsParam (g : Generics) (type : TypeExpr) : Prop :=
  ∃ name, type.peel.IsName name ∧ g.IsBounded name

/-- The type, groupings aside, is a path that is no type parameter and does not end in the name of a
standard type without a fixed size. -/
def TakesForRecord (g : Generics) (type : TypeExpr) : Prop :=
  ∃ p name, type.path? = some p ∧ (∀ param ∈ g.typeNames, p.ident? ≠ some param) ∧
    p.last? = some name ∧ name ∉ nonFixedTypes

/-- What a derive takes for implemented is a type parameter that is bounded. -/
theorem isImplemented_iff : g.oracle.isImplemented type.peel ↔ g.BoundsParam type := by
  simp only [oracle, Option.isSome_iff_exists, TypeExpr.param?_eq_some_iff, mem_contractParams_iff,
    BoundsParam]

/-- What it takes for another record is any path that is no type parameter and no known type without
a fixed size. -/
theorem isMarked_iff : g.oracle.isMarked type.peel ↔ g.TakesForRecord type := by
  simp only [TakesForRecord, TypeExpr.path?]
  cases type.peel with
  | path p =>
      have hBare : (TypeExpr.path p).param? g.typeNames = none ↔
          ∀ param ∈ g.typeNames, p.ident? ≠ some param := by
        simp only [TypeExpr.param?, Option.filter_eq_none_iff, List.contains_iff_mem]
        exact ⟨fun h param hParam hName => h param hName hParam,
          fun h param hName hParam => h param hParam hName⟩
      simp [oracle, hBare, Option.any_eq_true]
  | qualified _ | paren _ | group _ | other _ _ => simp [oracle]

/-- The types that a derive admits for a marked field of a record of this name: not the record
itself, but a primitive of fixed width, or what is no integer of the platform's width and is either
a type parameter that is bounded by the contract or taken for a record. -/
structure Admits (g : Generics) (record : String) (type : TypeExpr) : Prop where
  notOwn : ¬type.SpellsOwn record
  isEncodable : (∃ q, type.SpellsPrimitive q) ∨
    ¬type.SpellsNative ∧ (g.BoundsParam type ∨ g.TakesForRecord type)

/-- A user-defined type that is not the record's own counts as a record if the oracle of the derive
knows it by its spelling. -/
theorem isRecord_iff {m : Member} {d : Descriptor} (hOwn : d.isOwnType m.type = false) :
    m.isRecord d g.oracle ↔
      m.type.kind = .userDefined ∧ (g.BoundsParam m.type ∨ g.TakesForRecord m.type) := by
  simp only [Member.isRecord, hOwn, Bool.false_or, Bool.and_eq_true, beq_iff_eq, Bool.or_eq_true,
    isMarked_iff, isImplemented_iff]
  constructor
  · rintro ⟨hUser, _, hKnown⟩
    exact ⟨hUser, hKnown.symm⟩
  · rintro ⟨hUser, hKnown⟩
    refine ⟨hUser, ?_, hKnown.symm⟩
    -- either way the type is a path
    rcases hKnown with ⟨_, ⟨p, hPath, _⟩, _⟩ | ⟨p, _, hPath, _⟩
    · rw [TypeExpr.isPath, hPath]
    · simp only [TypeExpr.path?] at hPath
      rw [TypeExpr.isPath]
      cases hPeel : m.type.peel <;> simp_all

/-- A derive finds nothing wrong with a type exactly if it admits it. -/
theorem typeFaults_eq_nil_iff {m : Member} {d : Descriptor} :
    m.typeFaults d g.oracle = [] ↔ g.Admits d.name m.type := by
  cases hOwn : d.isOwnType m.type with
  | true =>
      have hSpells : m.type.SpellsOwn d.name := (d.isOwnType_iff m.type).mp hOwn
      refine iff_of_false ?_ fun hAdmits => hAdmits.notOwn hSpells
      simp [Member.typeFaults, hOwn]
  | false =>
      have hSpells : ¬m.type.SpellsOwn d.name := by
        rw [← d.isOwnType_iff, hOwn]
        exact Bool.false_ne_true
      have hFaults : m.typeFaults d g.oracle = [] ↔
          (m.type.kind.isPrimitive ∨ m.isRecord d g.oracle) ∧ ¬m.type.kind.isNativeWidth := by
        cases hKind : m.type.kind.isPrimitive <;> simp [Member.typeFaults, hOwn, hKind]
      have hPrimitive : m.type.kind.isPrimitive ↔
          (∃ q, m.type.SpellsPrimitive q) ∨ m.type.SpellsNative := by
        rw [Kind.isPrimitive, bne_iff_ne, ne_eq, TypeExpr.kind_eq_userDefined_iff]
        simp only [not_and_or, not_not, not_forall]
      rw [hFaults, hPrimitive, isRecord_iff hOwn, TypeExpr.isNativeWidth_kind_iff,
        TypeExpr.kind_eq_userDefined_iff]
      constructor
      · rintro ⟨(hFixed | hNative) | ⟨_, hKnown⟩, hPortable⟩
        · exact ⟨hSpells, .inl hFixed⟩
        · exact absurd hNative hPortable
        · exact ⟨hSpells, .inr ⟨hPortable, hKnown⟩⟩
      · rintro ⟨_, ⟨q, hFixed⟩ | ⟨hPortable, hKnown⟩⟩
        · exact ⟨.inl (.inl ⟨q, hFixed⟩), hFixed.not_spellsNative⟩
        · by_cases hFixed : ∃ q, m.type.SpellsPrimitive q
          · exact ⟨.inl (.inl hFixed), hPortable⟩
          · exact ⟨.inr ⟨⟨not_exists.mp hFixed, hPortable⟩, hKnown⟩, hPortable⟩

end Generics

end WireRecord
