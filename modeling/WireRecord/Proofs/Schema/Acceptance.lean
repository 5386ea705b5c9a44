import Mathlib.Data.List.Nodup
import WireRecord.Codec.Compilation
import WireRecord.Proofs.Lists

/-!
What an accepted declaration is made of. The stored members of the record fall into slots, each for
a member that is encoded or for one that starts from its initial value; the layout and the
constructor are read off the slots, and no two slots share a name or a local variable.
-/

namespace WireRecord

/-- The classification of an encoded member is that of its type, and a primitive one has a width. -/
structure IncludedMember.Sound (m : IncludedMember) : Prop where
  kind_eq : m.classification.kind = m.type.kind
  hasWidth : m.classification.isPrimitive → m.type.kind.primitive?.isSome

/-- How a primitive is moved where a byte order is asked for. -/
def Primitive.encoding (p : Primitive) (order : ByteOrder) : Encoding :=
  if p.isSingleByte then .byte else .ordered order

/-- An encoded member is a fixed-width primitive, with the encoding of its width, or nested. -/
theorem IncludedMember.Sound.primitive_or_nested {m : IncludedMember} (h : m.Sound) :
    (∃ p, m.type.kind.primitive? = some p ∧ m.classification.isPrimitive = true ∧
        m.encoding = p.encoding m.order) ∨
      (m.type.kind.primitive? = none ∧ m.classification.isPrimitive = false) := by
  cases hPrimitive : m.classification.isPrimitive with
  | true =>
      obtain ⟨p, hWidth⟩ := Option.isSome_iff_exists.mp (h.hasWidth hPrimitive)
      refine .inl ⟨p, hWidth, rfl, ?_⟩
      have hSingle : m.classification.isSingleByte = p.isSingleByte := by
        rw [Classification.isSingleByte, h.kind_eq, Kind.isSingleByte_eq, hWidth, Option.any_some]
      rw [encoding, hSingle, Primitive.encoding]
  | false =>
      refine .inr ⟨?_, rfl⟩
      have hKind : m.type.kind = .userDefined := by
        rw [← h.kind_eq]
        simpa [Classification.isPrimitive, Kind.isPrimitive] using hPrimitive
      rw [hKind]
      rfl

/-- The type of a member that passes its checks has a kind of fixed width, or is nested. -/
theorem Member.hasWidth_of_typeProblem? {m : Member} {d : Descriptor} {oracle : TypeOracle}
    (h : m.typeProblem? d oracle = none) :
    (m.classify d oracle).isPrimitive → (m.classify d oracle).kind.primitive?.isSome := by
  simp only [typeProblem?] at h
  split at h
  · cases h
  · split at h
    · cases h
    · rename_i hNative
      intro hPrimitive
      simp only [Classification.isNativeWidth, Classification.isPrimitive] at hNative hPrimitive
      cases hKind : (m.classify d oracle).kind <;>
        simp_all [Kind.isNativeWidth, Kind.isPrimitive, Kind.primitive?]

theorem Member.kind_classify (m : Member) (d : Descriptor) (oracle : TypeOracle) :
    (m.classify d oracle).kind = m.type.kind := by
  simp only [classify]
  split <;> rfl

/-- A member that passes its checks is encoded under its own name and type. -/
theorem Member.of_check_eq_ok {m : Member} {d : Descriptor} {oracle : TypeOracle}
    {options : List MarkerOption} {index : Nat} {included : IncludedMember}
    (h : m.check d oracle options index = .ok included) :
    included.Sound ∧ included.name = m.name ∧ included.type = m.type ∧ included.index = index := by
  simp only [check] at h
  split at h
  · cases h
  · rename_i hNone
    have hType : m.typeProblem? d oracle = none := (Option.or_eq_none_iff.mp hNone).2
    cases hOrder : MarkerOption.byteOrder d.qualifiedName.text index .little 0 options with
    | error problem =>
        rw [hOrder] at h
        cases h
    | ok order =>
        rw [hOrder] at h
        cases h
        have hKind := m.kind_classify d oracle
        exact ⟨⟨hKind, fun hPrimitive => hKind ▸ m.hasWidth_of_typeProblem? hType hPrimitive⟩,
          rfl, rfl, rfl⟩

/-- How a record gets a stored member: from the wire, or from the initial value of its type. -/
inductive Slot where
  | encoded (m : IncludedMember)
  | initial (name : MemberName) (type : TypeExpr)

namespace Slot

def name : Slot → MemberName
  | encoded m => m.name
  | initial name _ => name

def included? : Slot → Option IncludedMember
  | encoded m => some m
  | initial _ _ => none

/-- What the constructor sets the member to. -/
def init : Slot → MemberName × Init
  | encoded m => (m.name, .argument m.target)
  | initial name type => (name, .default type)

end Slot

/-- The slot of the member at an index. Accessors that are not marked have none. -/
def Member.slot? (m : Member) (d : Descriptor) (oracle : TypeOracle) (index : Nat) : Option Slot :=
  match m.marker with
  | some options =>
    match m.check d oracle options index with
    | .ok included => some (.encoded included)
    | .error _ => none
  | none => if m.access = .field then some (.initial m.name m.type) else none

/-- The slots of a declaration, in the order of its members. -/
def Declaration.slots (d : Declaration) (oracle : TypeOracle) : List Slot :=
  d.members.zipIdx.filterMap fun (m, index) => m.slot? d.descriptor oracle index

/-- What a member with a slot is: marked and past its checks, or a field without a mark. -/
theorem Member.slot?_eq_some {m : Member} {d : Descriptor} {oracle : TypeOracle} {index : Nat}
    {slot : Slot} (h : m.slot? d oracle index = some slot) :
    (∃ options included, m.marker = some options ∧ m.check d oracle options index = .ok included ∧
        slot = .encoded included) ∨
      (m.marker = none ∧ slot = .initial m.name m.type) := by
  simp only [slot?] at h
  split at h
  · rename_i options hMarker
    split at h
    · rename_i included hCheck
      cases h
      exact .inl ⟨options, included, hMarker, hCheck, rfl⟩
    · cases h
  · rename_i hMarker
    obtain ⟨_, h⟩ := Option.ite_none_right_eq_some.mp h
    cases h
    exact .inr ⟨hMarker, rfl⟩

theorem Member.name_of_slot? {m : Member} {d : Descriptor} {oracle : TypeOracle} {index : Nat}
    {slot : Slot} (h : m.slot? d oracle index = some slot) : slot.name = m.name := by
  rcases Member.slot?_eq_some h with ⟨options, included, _, hCheck, rfl⟩ | ⟨_, rfl⟩
  · exact (m.of_check_eq_ok hCheck).2.1
  · rfl

namespace Declaration

variable {d : Declaration} {oracle : TypeOracle} {config : Config} {layout : Layout}

/-- Every slot of an encoded member comes from a marked member that passes its checks. -/
theorem mem_slots_encoded {m : IncludedMember} (h : .encoded m ∈ d.slots oracle) :
    m.Sound ∧ ∃ member options, (member, m.index) ∈ d.members.zipIdx ∧
      member.marker = some options ∧ m.type = member.type := by
  obtain ⟨⟨member, index⟩, hMember, hSlot⟩ := List.mem_filterMap.mp h
  rcases Member.slot?_eq_some hSlot with ⟨options, included, hMarker, hCheck, hEq⟩ | ⟨_, hEq⟩
  · cases hEq
    obtain ⟨hSound, _, hType, hIndex⟩ := member.of_check_eq_ok hCheck
    exact ⟨hSound, member, options, hIndex ▸ hMember, hMarker, hType⟩
  · cases hEq

/-- An accepted declaration is emitted with the layout that its validation gives. -/
theorem compile_eq_ok {c : Codec} (h : d.compile oracle config = .ok c) :
    ∃ layout, d.validate oracle config = .ok layout ∧ c = d.emit layout := by
  simp only [compile] at h
  cases hValidate : d.validate oracle config with
  | error problems =>
      rw [hValidate] at h
      cases h
  | ok layout =>
      rw [hValidate] at h
      cases h
      exact ⟨layout, rfl, rfl⟩

/-- The layout of an accepted declaration, and that it has no problems. -/
theorem layout_of_validate (h : d.validate oracle config = .ok layout) :
    d.problems oracle = [] ∧ layout.members = (d.checks oracle).filterMap Except.toOption := by
  simp only [validate] at h
  split at h
  · rename_i hNone
    cases h
    exact ⟨hNone, rfl⟩
  · cases h

/-- The layout of an accepted record holds the encoded ones of its slots. -/
theorem members_eq_slots (h : d.validate oracle config = .ok layout) :
    layout.members = (d.slots oracle).filterMap Slot.included? := by
  rw [(layout_of_validate h).2, checks, slots, List.filterMap_filterMap, List.filterMap_filterMap]
  congr 1
  funext ⟨m, index⟩
  simp only [Member.slot?]
  cases m.marker with
  | none => by_cases hField : m.access = .field <;> simp [hField, Slot.included?]
  | some options =>
      simp only [Option.map_some, Option.bind_some]
      cases m.check d.descriptor oracle options index with
      | error problem => rfl
      | ok included => rfl

/-- Every member of an accepted layout can be encoded. -/
theorem sound_of_validate (h : d.validate oracle config = .ok layout) {m : IncludedMember}
    (hMember : m ∈ layout.members) : m.Sound := by
  rw [members_eq_slots h] at hMember
  obtain ⟨slot, hSlot, hEq⟩ := List.mem_filterMap.mp hMember
  cases slot with
  | initial name type => cases hEq
  | encoded m' =>
      cases hEq
      exact (mem_slots_encoded hSlot).1

theorem parameters_eq_slots (h : d.validate oracle config = .ok layout) :
    (layout.constructor d).parameters.map Prod.fst =
      ((d.slots oracle).filterMap Slot.included?).map IncludedMember.target := by
  rw [← members_eq_slots h]
  exact List.map_map

/-- In an accepted record every member has passed its checks. -/
theorem check_of_validate (h : d.validate oracle config = .ok layout)
    {check : Except (Diagnostic Location) IncludedMember} (hCheck : check ∈ d.checks oracle) :
    ∃ m, check = .ok m := by
  have hNone := (layout_of_validate h).1
  simp only [problems] at hNone
  split at hNone
  · cases hNone
  · split at hNone
    · cases hNone
    · have hFailed := List.filterMap_eq_nil_iff.mp (List.append_eq_nil_iff.mp hNone).2 check hCheck
      cases check with
      | ok m => exact ⟨m, rfl⟩
      | error problem => cases hFailed

/-- The layout encodes the member at an index exactly if that member is marked. -/
theorem includes_iff (h : d.validate oracle config = .ok layout) {m : Member} {index : Nat}
    (hMember : (m, index) ∈ d.members.zipIdx) : layout.includes index ↔ m.marker.isSome := by
  rw [Layout.includes, List.any_eq_true, members_eq_slots h]
  constructor
  · rintro ⟨included, hIncluded, hIndex⟩
    obtain ⟨slot, hSlot, hEq⟩ := List.mem_filterMap.mp hIncluded
    cases slot with
    | initial name type => cases hEq
    | encoded m' =>
        cases hEq
        obtain ⟨_, member, options, hFound, hMarker, _⟩ := mem_slots_encoded hSlot
        rw [beq_iff_eq] at hIndex
        rw [List.mk_mem_zipIdx_iff_getElem?, hIndex] at hFound
        rw [List.mk_mem_zipIdx_iff_getElem?, hFound, Option.some.injEq] at hMember
        simp [← hMember, hMarker]
  · intro hMarked
    obtain ⟨options, hMarker⟩ := Option.isSome_iff_exists.mp hMarked
    have hCheck : m.check d.descriptor oracle options index ∈ d.checks oracle :=
      List.mem_filterMap.mpr ⟨(m, index), hMember, by simp [hMarker]⟩
    obtain ⟨included, hOk⟩ := check_of_validate h hCheck
    have hSlot : .encoded included ∈ d.slots oracle :=
      List.mem_filterMap.mpr ⟨(m, index), hMember, by simp [Member.slot?, hMarker, hOk]⟩
    exact ⟨included, List.mem_filterMap.mpr ⟨_, hSlot, rfl⟩, by simp [(m.of_check_eq_ok hOk).2.2.2]⟩

/-- The constructor sets every slot, encoded or initial. -/
theorem inits_eq_slots (h : d.validate oracle config = .ok layout) :
    (layout.constructor d).inits = (d.slots oracle).map Slot.init := by
  rw [slots, List.map_filterMap, Layout.constructor]
  apply List.filterMap_congr
  rintro ⟨m, index⟩ hMember
  have hIncludes := includes_iff h hMember
  simp only [Layout.init?, Member.slot?]
  cases hMarker : m.marker with
  | none =>
      rw [hMarker] at hIncludes
      have hExcluded : layout.includes index = false := by simpa using hIncludes
      by_cases hField : m.access = .field <;> simp [hExcluded, hField, Slot.init]
  | some options =>
      rw [hMarker] at hIncludes
      have hIncluded : layout.includes index = true := by simpa using hIncludes
      have hCheck : m.check d.descriptor oracle options index ∈ d.checks oracle :=
        List.mem_filterMap.mpr ⟨(m, index), hMember, by simp [hMarker]⟩
      obtain ⟨included, hOk⟩ := check_of_validate h hCheck
      obtain ⟨_, hName, _, hIndex⟩ := m.of_check_eq_ok hOk
      simp [hIncluded, hOk, Slot.init, hName, IncludedMember.target, hIndex]

end Declaration

namespace Declaration

variable {d : Declaration} {oracle : TypeOracle}

/-- Each member has one slot at most, so that distinct names stay distinct. -/
theorem nodup_slot_names (hNames : (d.members.map Member.name).Nodup) (oracle : TypeOracle) :
    ((d.slots oracle).map Slot.name).Nodup := by
  have hSublist := filterMap_map_sublist
    (fun p => p.1.slot? d.descriptor oracle p.2) Slot.name (fun p => p.1.name)
    (fun p slot hSlot => p.1.name_of_slot? hSlot) d.members.zipIdx
  refine hSublist.nodup ?_
  have hAll : d.members.zipIdx.map (fun p => p.1.name) = d.members.map Member.name := by
    conv_rhs => rw [← List.zipIdx_map_fst 0 d.members, List.map_map]
    rfl
  rwa [hAll]

/-- Variables go by indices, of which there are no two alike. -/
theorem nodup_targets (d : Declaration) (oracle : TypeOracle) :
    (((d.slots oracle).filterMap Slot.included?).map IncludedMember.target).Nodup := by
  have hSublist := filterMap_map_sublist
    (fun p => (p.1.slot? d.descriptor oracle p.2).bind Slot.included?)
    IncludedMember.target (fun p => Local.mk p.2)
    (fun p included hIncluded => by
      obtain ⟨slot, hSlot, hEq⟩ := Option.bind_eq_some_iff.mp hIncluded
      rcases Member.slot?_eq_some hSlot with ⟨_, _, _, hCheck, rfl⟩ | ⟨_, rfl⟩
      · cases hEq
        rw [IncludedMember.target, (p.1.of_check_eq_ok hCheck).2.2.2]
      · cases hEq) d.members.zipIdx
  rw [slots, List.filterMap_filterMap]
  refine hSublist.nodup ?_
  have hAll : d.members.zipIdx.map (fun p => Local.mk p.2) =
      (List.range' 0 d.members.length).map Local.mk := by
    rw [← List.zipIdx_map_snd 0 d.members, List.map_map]
    rfl
  rw [hAll]
  exact List.Nodup.map (fun _ _ hEq => congrArg Local.index hEq) List.nodup_range'

end Declaration

end WireRecord
