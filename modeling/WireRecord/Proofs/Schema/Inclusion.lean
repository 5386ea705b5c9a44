import WireRecord.Proofs.Schema.Acceptance

/-!
Which members of an accepted declaration are encoded: the marked ones, in order, each under its own
name and type and in the byte order that it asks for.
-/

namespace WireRecord

/-- The members that take part in the encoding, with their indices among all members. -/
def Declaration.included (d : Declaration) : List (Member × Nat) :=
  d.members.zipIdx.filter fun p => p.1.isIncluded

/-- The byte order that a member asks for: that of the last option of its marker, or little. -/
def Member.orderAsked (m : Member) : ByteOrder :=
  (m.marker.bind fun options => options.getLast?.bind fun o => o.value.byteOrder?).getD .little

/-- If the options are read to the end the last one has set the order, if there is one. -/
theorem MarkerOption.byteOrder_eq_ok {record : String} {member : Nat} {order result : ByteOrder}
    {index : Nat} {options : List MarkerOption}
    (h : byteOrder record member order index options = .ok result) :
    options.getLast?.bind (fun o => o.value.byteOrder?) = some result ∨
      options = [] ∧ result = order := by
  induction options generalizing order index with
  | nil =>
      cases h
      exact .inr ⟨rfl, rfl⟩
  | cons o options ih =>
      left
      simp only [byteOrder] at h
      split at h
      · cases h
      · split at h
        · rename_i next hValue
          rcases ih h with hLast | ⟨rfl, rfl⟩
          · obtain ⟨last, hFound, hOrder⟩ := Option.bind_eq_some_iff.mp hLast
            rw [List.getLast?_cons, hFound]
            exact hOrder
          · exact hValue
        · cases h

/-- A member of a layout is the encoding of a declared member at an index. -/
structure IncludedMember.Encodes (m : IncludedMember) (member : Member) (index : Nat) : Prop where
  sound : m.Sound
  name_eq : m.name = member.name
  type_eq : m.type = member.type
  index_eq : m.index = index
  order_eq : m.order = member.orderAsked

/-- What a marked member becomes when it passes its checks. -/
theorem Member.encodes_of_check {m : Member} {d : Descriptor} {oracle : TypeOracle}
    {options : List MarkerOption} {index : Nat} {included : IncludedMember}
    (hMarker : m.marker = some options) (h : m.check d oracle options index = .ok included) :
    included.Encodes m index := by
  obtain ⟨hSound, hName, hType, hIndex⟩ := m.of_check_eq_ok h
  refine ⟨hSound, hName, hType, hIndex, ?_⟩
  simp only [check] at h
  split at h
  · cases h
  · cases hOrder : MarkerOption.byteOrder d.qualifiedName.text index .little 0 options with
    | error problem =>
        rw [hOrder] at h
        cases h
    | ok order =>
        rw [hOrder] at h
        cases h
        rw [orderAsked, hMarker]
        rcases MarkerOption.byteOrder_eq_ok hOrder with hLast | ⟨rfl, rfl⟩
        · rw [Option.bind_some, hLast, Option.getD_some]
        · rfl

namespace Declaration

variable {d : Declaration} {oracle : TypeOracle} {config : Config} {layout : Layout}

/-- The layout of an accepted declaration encodes the included members, one by one. -/
theorem encodes_of_validate (h : d.validate oracle config = .ok layout) :
    List.Forall₂ (fun p m => m.Encodes p.1 p.2) d.included layout.members := by
  rw [(layout_of_validate h).2, checks, List.filterMap_filterMap]
  apply forall₂_filter_filterMap
  · rintro ⟨member, index⟩ hMember hNone hIncluded
    obtain ⟨options, hMarker⟩ : ∃ options, member.marker = some options :=
      Option.isSome_iff_exists.mp hIncluded
    have hCheck : member.check d.descriptor oracle options index ∈ d.checks oracle :=
      List.mem_filterMap.mpr ⟨(member, index), hMember, by simp [hMarker]⟩
    obtain ⟨m, hOk⟩ := check_of_validate h hCheck
    simp [hMarker, hOk, Except.toOption] at hNone
  · rintro ⟨member, index⟩ hMember m hSome
    obtain ⟨check, hMapped, hOk⟩ := Option.bind_eq_some_iff.mp hSome
    obtain ⟨options, hMarker, rfl⟩ := Option.map_eq_some_iff.mp hMapped
    cases hCheck : member.check d.descriptor oracle options index with
    | error problem =>
        rw [hCheck] at hOk
        cases hOk
    | ok included =>
        rw [hCheck] at hOk
        cases hOk
        exact ⟨Option.isSome_iff_exists.mpr ⟨options, hMarker⟩,
          member.encodes_of_check hMarker hCheck⟩

/-- A marked member is included, and the layout encodes it at the same place. -/
theorem exists_encodes (h : d.validate oracle config = .ok layout) {m : Member} {index : Nat}
    (hMember : d.members[index]? = some m) (hMarked : m.isIncluded) :
    ∃ (place : Nat) (included : IncludedMember), d.included[place]? = some (m, index) ∧
      layout.members[place]? = some included ∧ included.Encodes m index := by
  have hIncluded : (m, index) ∈ d.included :=
    List.mem_filter.mpr ⟨List.mk_mem_zipIdx_iff_getElem?.mpr hMember, hMarked⟩
  obtain ⟨place, hPlace⟩ := List.getElem?_of_mem hIncluded
  obtain ⟨included, hFound, hEncoded⟩ := forall₂_getElem? (encodes_of_validate h) hPlace
  exact ⟨place, included, hPlace, hFound, hEncoded⟩

/-- The indices of the included members increase. -/
theorem pairwise_included (d : Declaration) : (d.included.map Prod.snd).Pairwise (· < ·) := by
  have hAll : (d.members.zipIdx.map Prod.snd).Pairwise (· < ·) := by
    rw [List.zipIdx_map_snd]
    exact List.pairwise_lt_range'
  exact hAll.sublist (List.filter_sublist.map Prod.snd)

end Declaration

end WireRecord
