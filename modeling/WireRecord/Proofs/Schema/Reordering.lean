import WireRecord.Proofs.Schema.Options

/-!
A declaration in which one member asks for another byte order. It stays accepted, and its layout is
the same but for the order of that member.
-/

namespace WireRecord

/-- The declaration with other options on the marker of the member at an index. -/
def Declaration.withOptions (d : Declaration) (index : Nat) (options : List MarkerOption) :
    Declaration :=
  { d with members := d.members.modify index fun m => { m with marker := some options } }

/-- The member of a layout, with another byte order if it stands at the index in its record. -/
def IncludedMember.withOrder (index : Nat) (order : ByteOrder) (m : IncludedMember) :
    IncludedMember :=
  if m.index = index then { m with order } else m

/-- The layout with another byte order for the member at an index of the record. -/
def Layout.withOrder (l : Layout) (index : Nat) (order : ByteOrder) : Layout where
  members := l.members.map (IncludedMember.withOrder index order)

section Member

variable {m : Member} {d : Descriptor} {oracle : TypeOracle} {options options' : List MarkerOption}
  {index : Nat} {included : IncludedMember} {order : ByteOrder}

/-- A member that passes its checks passes them with other good options, and is laid out alike but
for the byte order. -/
theorem Member.check_of_askFor (h : m.check d oracle options index = .ok included)
    (hAsk : MarkerOption.AskFor options' order) :
    m.check d oracle options' index = .ok { included with order } := by
  rw [check] at h ⊢
  cases hProblem : (m.access.problem? d.qualifiedName.text).or (m.typeProblem? d oracle) with
  | some cause =>
      rw [hProblem] at h
      cases h
  | none =>
      simp only [hProblem] at h ⊢
      rw [hAsk.byteOrder_eq]
      cases hOrder : MarkerOption.byteOrder d.qualifiedName.text index .little 0 options with
      | error problem =>
          rw [hOrder] at h
          cases h
      | ok first =>
          rw [hOrder] at h
          cases h
          rfl

/-- The check of a member elsewhere finds nothing that has the order. -/
theorem Member.map_withOrder_check (m : Member) (d : Descriptor) (oracle : TypeOracle) {i : Nat}
    (hIndex : i ≠ index) (order : ByteOrder) (options : List MarkerOption) :
    (m.check d oracle options i).map (IncludedMember.withOrder index order) =
      m.check d oracle options i := by
  cases hCheck : m.check d oracle options i with
  | error problem => rfl
  | ok included =>
      have hPlace : included.index ≠ index := (m.of_check_eq_ok hCheck).2.2.2 ▸ hIndex
      rw [Except.map, IncludedMember.withOrder, if_neg hPlace]

end Member

namespace Declaration

variable {d : Declaration} {oracle : TypeOracle} {config : Config} {layout : Layout} {m : Member}
  {index : Nat} {options : List MarkerOption} {order : ByteOrder}

/-- The checks of the members find the same, but for the order that is asked for. -/
theorem checks_withOptions (hValidate : d.validate oracle config = .ok layout)
    (hMember : d.members[index]? = some m) (hMarked : m.isIncluded)
    (hAsk : MarkerOption.AskFor options order) :
    (d.withOptions index options).checks oracle =
      (d.checks oracle).map (Except.map (IncludedMember.withOrder index order)) := by
  rw [checks, checks, withOptions, zipIdx_modify, List.filterMap_map, List.map_filterMap]
  apply List.filterMap_congr
  rintro ⟨member, i⟩ hIn
  have hFound := List.mk_mem_zipIdx_iff_getElem?.mp hIn
  rw [Function.comp_apply]
  by_cases hIndex : i = index
  · subst hIndex
    obtain rfl : member = m := Option.some.inj (hFound.symm.trans hMember)
    obtain ⟨first, hMarker⟩ := Option.isSome_iff_exists.mp hMarked
    have hCheck : member.check d.descriptor oracle first i ∈ d.checks oracle :=
      List.mem_filterMap.mpr ⟨(member, i), hIn, by simp [hMarker]⟩
    obtain ⟨included, hOk⟩ := check_of_validate hValidate hCheck
    have hPlace : included.index = i := (member.of_check_eq_ok hOk).2.2.2
    have hOther : Member.check { member with marker := some options } d.descriptor oracle options i =
        .ok { included with order } := member.check_of_askFor hOk hAsk
    simp [hMarker, hOk, hOther, Except.map, IncludedMember.withOrder, hPlace]
  · simp only [if_neg hIndex, Option.map_map, Function.comp_def,
      member.map_withOrder_check d.descriptor oracle hIndex order]

/-- The declaration with other good options is accepted, and laid out alike but for the order. -/
theorem validate_withOptions (hValidate : d.validate oracle config = .ok layout)
    (hMember : d.members[index]? = some m) (hMarked : m.isIncluded)
    (hAsk : MarkerOption.AskFor options order) :
    (d.withOptions index options).validate oracle config = .ok (layout.withOrder index order) := by
  have hChecks := checks_withOptions hValidate hMember hMarked hAsk
  obtain ⟨hNone, hMembers⟩ := layout_of_validate hValidate
  have hProblems : (d.withOptions index options).problems oracle = d.problems oracle := by
    simp only [problems, hChecks, List.filterMap_map]
    congr 4
    funext check
    cases check <;> rfl
  rw [validate, hProblems, hNone]
  simp only [Layout.withOrder, hMembers, hChecks, List.filterMap_map, List.map_filterMap]
  congr 3
  funext check
  cases check <;> rfl

end Declaration

namespace IncludedMember

variable {m : IncludedMember} {index : Nat} {order : ByteOrder}

@[simp] theorem classification_withOrder (m : IncludedMember) (index : Nat) (order : ByteOrder) :
    (m.withOrder index order).classification = m.classification := by
  rw [withOrder]
  split <;> rfl

@[simp] theorem type_withOrder (m : IncludedMember) (index : Nat) (order : ByteOrder) :
    (m.withOrder index order).type = m.type := by
  rw [withOrder]
  split <;> rfl

@[simp] theorem index_withOrder (m : IncludedMember) (index : Nat) (order : ByteOrder) :
    (m.withOrder index order).index = m.index := by
  rw [withOrder]
  split <;> rfl

theorem sizeTerm_withOrder (m : IncludedMember) (index : Nat) (order : ByteOrder) :
    (m.withOrder index order).sizeTerm = m.sizeTerm := by
  rw [sizeTerm, sizeTerm, classification_withOrder, type_withOrder]

end IncludedMember

end WireRecord
