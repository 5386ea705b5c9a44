import WireRecord.Proofs.Record.Derived

/-!
The values of a compiled record type. What has the shape of the type is a record with the members
that its wire format asks for, so that what holds of these holds of all values of the type.
-/

namespace WireRecord

def Slot.type : Slot → TypeExpr
  | encoded m => m.type
  | initial _ type => type

/-- Values of the shape of the type are records of the format. -/
def ShapedAs (t : RecordType) (f : WireFormat) : Prop :=
  ∀ v, t.shape.admits v → ∃ members, v = .record members ∧ f.admits members

variable {env : Environment} {formats : TypeExpr → WireFormat}

/-- The shape of a record has the slots for its members. -/
theorem Layout.shape_constructor {d : Declaration} {oracle : TypeOracle} {config : Config}
    {layout : Layout} (hValidate : d.validate oracle config = .ok layout) :
    (layout.constructor d).shape env =
      .record ((d.slots oracle).map fun slot => (slot.name, slot.type.shape env)) := by
  have hNodup : ((layout.constructor d).parameters.map Prod.fst).Nodup :=
    Declaration.parameters_eq_slots hValidate ▸ d.nodup_targets oracle
  rw [Constructor.shape, Declaration.inits_eq_slots hValidate, List.filterMap_map,
    ← List.filterMap_eq_map]
  congr 1
  apply List.filterMap_congr
  intro slot hSlot
  cases slot with
  | initial name type => rfl
  | encoded m =>
      have hMember : (m.target, m.type) ∈ (layout.constructor d).parameters := by
        refine List.mem_map.mpr ⟨m, ?_, rfl⟩
        rw [Declaration.members_eq_slots hValidate]
        exact List.mem_filterMap.mpr ⟨_, hSlot, rfl⟩
      have hType := lookup_of_mem hNodup hMember
      simp [Slot.init, Constructor.typeOf, hType, Slot.name, Slot.type]

/-- Members of the shape of the slots are members of the format. -/
theorem NestedAs.admits_of_shape {slots : List Slot} (h : NestedAs ShapedAs env formats slots)
    {members : Members}
    (hShape :
      Shape.admitsMembers (slots.map fun slot => (slot.name, slot.type.shape env)) members) :
    (WireFormat.ofSlots env formats slots).admits members := by
  induction slots generalizing members with
  | nil =>
      cases members with
      | nil => rfl
      | cons member later => cases hShape
  | cons slot slots ih =>
      cases members with
      | nil => cases hShape
      | cons member later =>
          obtain ⟨name, v⟩ := member
          simp only [List.map_cons, Shape.admitsMembers, Bool.and_eq_true, beq_iff_eq] at hShape
          obtain ⟨⟨rfl, hValue⟩, hLater⟩ := hShape
          have hRest := ih h.tail hLater
          cases slot with
          | initial name type => exact WireFormat.admits_skipped_iff.mpr ⟨v, later, rfl, hRest⟩
          | encoded m =>
              obtain ⟨hSound, hNested⟩ := h m (List.mem_cons_self ..)
              simp only [Slot.type, TypeExpr.shape] at hValue
              rcases hSound.primitive_or_nested with ⟨p, hKind, _⟩ | ⟨hKind, hUser⟩
              · simp only [hKind] at hValue
                cases v with
                | record inner => cases hValue
                | scalar s =>
                    simp only [WireFormat.ofSlots, hKind]
                    exact WireFormat.admits_scalar_iff.mpr
                      ⟨s, later, rfl, beq_iff_eq.mp hValue, hRest⟩
              · simp only [hKind] at hValue
                obtain ⟨inner, rfl, hInner⟩ := hNested hUser v hValue
                simp only [WireFormat.ofSlots, hKind]
                exact WireFormat.admits_nested_iff.mpr ⟨inner, later, rfl, hInner, hRest⟩

/-- By induction on the nesting: a value of the type is a record with members of the format. -/
theorem Derived.shapedAs {t : RecordType} {f : WireFormat} (h : Derived t f) : ShapedAs t f := by
  induction h with
  | @compile d oracle config c env formats initial hNames hCompile hNested ih =>
      obtain ⟨layout, hValidate, rfl⟩ := Declaration.compile_eq_ok hCompile
      intro v hValue
      change ((layout.constructor d).shape env).admits v at hValue
      rw [Layout.shape_constructor hValidate] at hValue
      cases v with
      | scalar s => cases hValue
      | record members =>
          exact ⟨members, rfl, (NestedAs.of_validate hValidate ih).admits_of_shape hValue⟩

end WireRecord
