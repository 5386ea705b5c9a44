import WireRecord.Derive.Expansion
import WireRecord.Proofs.Derive.Knowledge
import WireRecord.Proofs.Schema.Options

/-!
What a derive has against a single field. A marked field offends by its type, or by an option of its
marker; the first fault of the member that it declares becomes an error at the field or the option.
-/

namespace WireRecord

namespace MarkerOption

variable {o : MarkerOption} {record : String} {member index : Nat}

/-- A fault of an option is about that option, and lies in its name or in its value. -/
theorem of_fault?_eq_some {problem : Diagnostic Location}
    (h : o.fault? record member index = some problem) :
    ¬o.IsGood ∧ (∃ reason, problem.cause = .invalidOption o.name record reason) ∧
      (problem.place = .option member index ∨ problem.place = .value member index) := by
  refine ⟨fun hGood => ?_, ?_⟩
  · rw [fault?_eq_none_iff.mpr hGood] at h
    cases h
  · simp only [fault?] at h
    split at h
    · cases h
      exact ⟨⟨_, rfl⟩, .inl rfl⟩
    · rename_i hName
      have hSame : o.name = byteOrderOption := by simpa using hName
      split at h
      · cases h
        exact ⟨⟨_, by rw [hSame]⟩, .inr rfl⟩
      · cases h

end MarkerOption

namespace Member

variable {m : Member} {d : Descriptor} {oracle : TypeOracle} {index : Nat}

/-- A marked field has no fault if there is nothing against its type and its options are good. -/
theorem faults_eq_nil_iff {options : List MarkerOption} (hField : m.access = .field)
    (hMarker : m.marker = some options) :
    m.faults d oracle index = [] ↔ m.typeFaults d oracle = [] ∧ ∀ o ∈ options, o.IsGood := by
  simp only [faults, hMarker, hField, Access.faults, List.nil_append, List.append_eq_nil_iff,
    List.map_eq_nil_iff, List.filterMap_eq_nil_iff, Prod.forall, MarkerOption.fault?_eq_none_iff]
  refine and_congr_right fun _ => ⟨fun h o hMem => ?_, fun h o i hMem => ?_⟩
  · obtain ⟨i, hOption⟩ := List.getElem?_of_mem hMem
    exact h o i (List.mk_mem_zipIdx_iff_getElem?.mpr hOption)
  · exact h o (List.mem_of_getElem? (List.mk_mem_zipIdx_iff_getElem?.mp hMem))

/-- The first fault of a marked field is about its type, at the field, unless nothing is wrong with
the type. Then it is about an option that is not good, at the option. -/
theorem head?_faults_cases {options : List MarkerOption} (hField : m.access = .field)
    (hMarker : m.marker = some options) {problem : Diagnostic Location}
    (hFirst : (m.faults d oracle index).head? = some problem) :
    (problem.cause ∈ m.typeFaults d oracle ∧ problem.place = .member index) ∨
      m.typeFaults d oracle = [] ∧ ∃ (i : Nat) (o : MarkerOption),
        options[i]? = some o ∧ ¬o.IsGood ∧
        (∃ reason, problem.cause = .invalidOption o.name d.qualifiedName.text reason) ∧
        (problem.place = .option index i ∨ problem.place = .value index i) := by
  simp only [faults, hMarker, hField, Access.faults, List.nil_append] at hFirst
  cases hType : m.typeFaults d oracle with
  | cons cause rest =>
      rw [hType] at hFirst
      cases hFirst
      exact .inl ⟨List.mem_cons_self, rfl⟩
  | nil =>
      rw [hType] at hFirst
      obtain ⟨⟨o, i⟩, hMem, hFault⟩ := List.mem_filterMap.mp (List.mem_of_head? hFirst)
      exact .inr ⟨rfl, i, o, List.mk_mem_zipIdx_iff_getElem?.mp hMem,
        MarkerOption.of_fault?_eq_some hFault⟩

end Member

/-- The marker of a field whose attributes can be read. -/
def Field.marker? (f : Field) : Option FieldMarker := (fieldMarker? f.attributes).toOption.join

def Field.marked (f : Field) : MarkedField := ⟨f, f.marker?⟩

namespace Field

variable {f : Field} {index : Nat}

/-- If the attributes of a field can be read, its marker is what has been read. -/
theorem fieldMarker?_eq (h : ∃ marker, fieldMarker? f.attributes = .ok marker) :
    fieldMarker? f.attributes = .ok f.marker? := by
  obtain ⟨marker, hMarker⟩ := h
  rw [marker?, hMarker]
  rfl

theorem readAt_of_exceeds (h : f.exceeds index) : f.readAt index = .error f.tooMany := by
  rw [readAt, if_pos h]
  rfl

theorem readAt_of_not_exceeds (h : ¬f.exceeds index) :
    f.readAt index = (fieldMarker? f.attributes).map (MarkedField.mk f) := by
  rw [readAt, if_neg h]
  cases fieldMarker? f.attributes <;> rfl

/-- A field is read if it can be counted and its attributes can be read. -/
theorem exists_readAt_iff : (∃ marked, f.readAt index = .ok marked) ↔
    ¬f.exceeds index ∧ ∃ marker, fieldMarker? f.attributes = .ok marker := by
  by_cases hExceeds : f.exceeds index
  · simp [readAt_of_exceeds hExceeds, hExceeds]
  · rw [readAt_of_not_exceeds hExceeds, and_iff_right hExceeds]
    cases fieldMarker? f.attributes <;> simp [Except.map]

/-- The error says why a field cannot be read at an index: it stands too far behind, or one of its
attributes cannot be read. -/
inductive Unreadable (f : Field) (index : Nat) : SourceError → Prop where
  | exceeds (h : f.exceeds index) : Unreadable f index f.tooMany
  | attribute {error : SourceError} (h : fieldMarker? f.attributes = .error error) :
      Unreadable f index error

/-- The error of a field that has not been read says which of the two it is. -/
theorem unreadable_of_readAt {error : SourceError} (h : f.readAt index = .error error) :
    f.Unreadable index error := by
  by_cases hExceeds : f.exceeds index
  · rw [readAt_of_exceeds hExceeds] at h
    cases h
    exact .exceeds hExceeds
  · rw [readAt_of_not_exceeds hExceeds] at h
    cases hMarker : fieldMarker? f.attributes with
    | ok marker =>
        rw [hMarker] at h
        cases h
    | error e =>
        rw [hMarker] at h
        cases h
        exact .attribute hMarker

/-- The first field that stands too far behind, with its index. -/
def firstExceeding? (fields : List Field) : Option (Field × Nat) :=
  fields.zipIdx.find? fun p => p.1.exceeds p.2

theorem firstExceeding?_eq_none_iff {fields : List Field} :
    firstExceeding? fields = none ↔ ∀ p ∈ fields.zipIdx, ¬p.1.exceeds p.2 := List.find?_eq_none

end Field

namespace Item

/-- A marked field offends by its type, or by an option of its marker. -/
def Offends (item : Item) (f : Field) : Prop :=
  ∃ marker, fieldMarker? f.attributes = .ok (some marker) ∧
    ¬(item.generics.Admits item.name f.type ∧ ∀ o ∈ marker.options, o.option.IsGood)

/-- The cause fits what is wrong with a type. -/
inductive FitsType (item : Item) (type : TypeExpr) : Cause → Prop where
  | native (h : type.SpellsNative) : FitsType item type (.notFixedSize type.display item.name)
  | own (h : type.SpellsOwn item.name) : FitsType item type (.recursive item.name)
  | unknown (notNative : ¬type.SpellsNative) (notOwn : ¬type.SpellsOwn item.name) :
      FitsType item type (.notEncodable item.name)

/-- The error is about this field: at the field if its type is not admitted, or else at an option
that is not good. -/
inductive Blames (item : Item) (f : Field) : SourceError → Prop where
  | type {cause : Cause} (notAdmitted : ¬item.generics.Admits item.name f.type)
      (fits : item.FitsType f.type cause) :
      Blames item f ⟨"[" ++ cause.code.text ++ "] " ++ cause.message, f.place⟩
  | option {marker : FieldMarker} {o : PlacedOption} {cause : Cause} {reason : String}
      {place : Place} (admitted : item.generics.Admits item.name f.type)
      (hMarker : fieldMarker? f.attributes = .ok (some marker)) (mem : o ∈ marker.options)
      (notGood : ¬o.option.IsGood)
      (isAboutOption : cause = .invalidOption o.option.name item.name reason)
      (isPlace : place = o.namePlace ∨ place = o.valuePlace) :
      Blames item f ⟨"[" ++ cause.code.text ++ "] " ++ cause.message, place⟩

/-- The item with its markers, if they can be read. -/
def withMarkers (item : Item) (form : RecordForm) (fields : List Field) : MarkedItem :=
  ⟨item, form, fields.map Field.marked⟩

variable {item : Item} {form : RecordForm} {fields : List Field} {f : Field} {index : Nat}

/-- What the declaration of an item says of the record itself. -/
def descriptor (item : Item) (form : RecordForm) : Descriptor :=
  { name := item.name, generics := item.generics, form }

/-- The record knows itself by three spellings. -/
theorem isOwnType_descriptor (type : TypeExpr) :
    (item.descriptor form).isOwnType type ↔ type.SpellsOwn item.name :=
  Descriptor.isOwnType_iff _ type

/-- Each cause found in the type of a member says what is wrong with that type. -/
theorem fitsType_of_mem {m : Member} {oracle : TypeOracle} {cause : Cause}
    (h : cause ∈ m.typeFaults (item.descriptor form) oracle) :
    item.FitsType m.type cause := by
  simp only [Member.typeFaults, List.mem_append, List.mem_ite_nil_left, List.mem_ite_nil_right,
    List.mem_singleton, TypeExpr.isNativeWidth_kind_iff, isOwnType_descriptor] at h
  rcases h with (⟨hUnknown, rfl⟩ | ⟨hNative, rfl⟩) | ⟨hOwn, rfl⟩
  · have hUser : m.type.kind = .userDefined := by
      simp only [Bool.or_eq_true, not_or, Kind.isPrimitive, bne_iff_ne, not_not] at hUnknown
      exact hUnknown.1
    apply FitsType.unknown
    · exact (TypeExpr.kind_eq_userDefined_iff.mp hUser).2
    · intro hOwn
      apply hUnknown
      simp [Member.isRecord, hUser, (isOwnType_descriptor m.type).mpr hOwn]
  · exact .native hNative
  · exact .own hOwn

theorem placeOf_member (hIndex : fields[index]? = some f) :
    (item.withMarkers form fields).placeOf (.member index) = f.place := by
  simp [MarkedItem.placeOf, withMarkers, hIndex, Field.marked]

/-- Options are found again by the index of their field and their own. -/
theorem option?_eq {marker : FieldMarker} {o : PlacedOption} {i : Nat}
    (hIndex : fields[index]? = some f) (hMarker : f.marker? = some marker)
    (hOption : marker.options[i]? = some o) :
    (item.withMarkers form fields).option? index i = some o := by
  simp [MarkedItem.option?, withMarkers, hIndex, Field.marked, hMarker, hOption]

theorem marker_member {marker : FieldMarker} (hMarker : f.marker? = some marker) (index : Nat) :
    (f.marked.member index).marker = some (marker.options.map PlacedOption.option) := by
  simp [MarkedField.member, Field.marked, hMarker]

/-- What a derive finds wrong with a field: with the member that the field declares. -/
def fieldFaults (item : Item) (form : RecordForm) (f : Field) (index : Nat) :
    List (Diagnostic Location) :=
  (f.marked.member index).faults (item.descriptor form) item.generics.oracle index

theorem fieldFaults_of_unmarked (hMarker : f.marker? = none) :
    item.fieldFaults form f index = [] := by
  simp [fieldFaults, Member.faults, MarkedField.member, Field.marked, hMarker]

/-- A field offends exactly if something is wrong with it. -/
theorem offends_iff (hRead : fieldMarker? f.attributes = .ok f.marker?) (form : RecordForm)
    (index : Nat) :
    item.Offends f ↔ item.fieldFaults form f index ≠ [] := by
  cases hMarker : f.marker? with
  | none =>
      refine iff_of_false ?_ (not_not_intro (fieldFaults_of_unmarked hMarker))
      rintro ⟨marker, hSome, _⟩
      rw [hRead, hMarker] at hSome
      cases hSome
  | some marker =>
      have hType : (f.marked.member index).typeFaults (item.descriptor form) item.generics.oracle =
          [] ↔ item.generics.Admits item.name f.type := Generics.typeFaults_eq_nil_iff
      rw [Offends, hRead, hMarker, fieldFaults, ne_eq,
        Member.faults_eq_nil_iff rfl (marker_member hMarker index), hType]
      simp

/-- The first thing wrong with a field becomes an error about it. -/
theorem blames_of_fieldFaults (hIndex : fields[index]? = some f)
    (hRead : fieldMarker? f.attributes = .ok f.marker?) {problem : Diagnostic Location}
    (hFirst : (item.fieldFaults form f index).head? = some problem) :
    item.Blames f (problem.relocate (item.withMarkers form fields).placeOf).sourceError := by
  cases hMarker : f.marker? with
  | none =>
      rw [fieldFaults_of_unmarked hMarker] at hFirst
      cases hFirst
  | some marker =>
      obtain ⟨cause, place⟩ := problem
      rcases Member.head?_faults_cases rfl (marker_member hMarker index) hFirst with
        ⟨hCause, rfl⟩ | ⟨hType, i, o, hOption, hBad, ⟨reason, rfl⟩, hPlace⟩
      · have hFaulty : ¬item.generics.Admits item.name f.type := by
          intro hAdmits
          rw [Generics.typeFaults_eq_nil_iff.mpr hAdmits] at hCause
          cases hCause
        rw [Diagnostic.relocate, placeOf_member hIndex]
        exact .type hFaulty (fitsType_of_mem hCause)
      · obtain ⟨placed, hPlaced, rfl⟩ :=
          Option.map_eq_some_iff.mp ((List.getElem?_map).symm.trans hOption)
        have hFound : (item.withMarkers form fields).option? index i = some placed :=
          option?_eq hIndex hMarker hPlaced
        refine .option (Generics.typeFaults_eq_nil_iff.mp hType) (hRead.trans (congrArg _ hMarker))
          (List.mem_of_getElem? hPlaced) hBad rfl ?_
        rcases hPlace with rfl | rfl
        · exact .inl (by simp [Diagnostic.relocate, MarkedItem.placeOf, hFound])
        · exact .inr (by simp [Diagnostic.relocate, MarkedItem.placeOf, hFound])

end Item

end WireRecord
