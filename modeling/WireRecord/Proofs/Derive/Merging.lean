import WireRecord.Proofs.Derive.Comparison

/-!
The options of a field. They may be spread over several attributes and count as one list. Of a field
whose type has nothing against it the options decide: if all of them are good the last one counts,
and otherwise the first bad one is reported, whatever stands after it.
-/

namespace WireRecord

/-- The attributes that mark a field. -/
def Field.marks (f : Field) : List Attribute :=
  f.attributes.filter fun a => a.isNamed includeAttribute

/-- The first field has its options spread over several attributes, and the second one is the same
field with a single attribute that lists all of them in order. -/
structure Field.Merges (split merged : Field) : Prop where
  name_eq : split.name = merged.name
  type_eq : split.type = merged.type
  options : ∃ parts mark options, split.marks ≠ [] ∧
    List.Forall₂ (fun a part => a.markerOptions = .ok part) split.marks parts ∧
    merged.marks = [mark] ∧ mark.markerOptions = .ok options ∧
    parts.flatten.map PlacedOption.option = options.map PlacedOption.option

/-- The same record, but for fields whose options are merged. -/
structure Item.Merges (split merged : Item) : Prop where
  name_eq : split.name = merged.name
  attributes_eq : split.attributes = merged.attributes
  generics_eq : split.generics = merged.generics
  body : split.body.Corresponds (fun f g => f = g ∨ f.Merges g) merged.body

/-- Two fields declare the same member wherever they stand. -/
def MarkedField.SameMember (f g : MarkedField) : Prop := ∀ index, f.member index = g.member index

/-- Only the places of the options tell the two fields apart, and no member has a place. -/
theorem Field.Merges.readAlike {split merged : Field} (h : split.Merges merged) :
    split.ReadAlike MarkedField.SameMember merged := by
  obtain ⟨hName, hType, parts, mark, options, hSome, hParts, hMark, hOptions, hSame⟩ := h
  obtain ⟨first, rest, hMarks⟩ := List.exists_cons_of_ne_nil hSome
  have hSplit : fieldMarker? split.attributes = .ok (some ⟨first.place, parts.flatten⟩) := by
    rw [fieldMarker?, ← Field.marks, mapM_of_forall₂ hParts, hMarks]
    rfl
  have hMerged : fieldMarker? merged.attributes = .ok (some ⟨mark.place, options⟩) := by
    rw [fieldMarker?, ← Field.marks, hMark, List.mapM_cons, hOptions]
    exact congrArg (fun found => Except.ok (some (FieldMarker.mk mark.place found)))
      (List.append_nil options)
  refine ⟨hName, ?_⟩
  rw [hSplit, hMerged]
  refine .succeeded fun index => ?_
  simp only [MarkedField.member, hName, hType, Option.map_some, hSame]

/-- Records whose fields declare the same members are one declaration. -/
theorem MarkedItem.declaration_eq {m m' : MarkedItem} (hName : m.item.name = m'.item.name)
    (hGenerics : m.item.generics = m'.item.generics) (hForm : m.form = m'.form)
    (hFields : List.Forall₂ MarkedField.SameMember m.fields m'.fields) :
    m.declaration = m'.declaration := by
  have hMembers := zipIdx_filterMap_congr hFields (f := fun p => some (p.1.member p.2))
    (g := fun p => some (p.1.member p.2))
    (fun f g index hSame => congrArg some (hSame index)) 0
  rw [declaration, declaration, hName, hGenerics, hForm, ← List.filterMap_eq_map]
  exact congrArg _ hMembers

/-- A derive gives the same code for both records, or says the same of both. -/
theorem Item.Merges.both_expand {split merged : Item} (h : split.Merges merged) :
    Both SourceError.SayAllSame Eq split.expand merged.expand := by
  obtain ⟨hName, hAttributes, hGenerics, hBody⟩ := h
  have hMarked := both_marked (R := MarkedField.SameMember) <| hBody.imp fun f g hFields => by
    rcases hFields with rfl | hMerges
    · refine ⟨rfl, ?_⟩
      apply Both.refl
      · exact fun _ => rfl
      · exact fun _ _ => rfl
    · exact hMerges.readAlike
  apply Item.both_expand (congrArg containerConfig hAttributes)
  apply hMarked.imp
  rintro m m' ⟨rfl, rfl, hForm, hFields⟩ config
  rw [MarkedItem.declaration_eq hName hGenerics hForm hFields, hGenerics]
  apply Both.refl
  · exact fun _ => rfl
  · exact fun _ => rfl

namespace MarkerOption

variable {o : MarkerOption} {options : List MarkerOption} {order : ByteOrder}

/-- The order that good options ask for is the one that the member asks for, which is that of the
last option. -/
theorem AskFor.orderAsked_eq (h : AskFor options order) {m : Member}
    (hMarker : m.marker = some options) : m.orderAsked = order := by
  rw [Member.orderAsked, hMarker]
  cases h with
  | nothing => rfl
  | last _ asks => simp [ValueExpr.byteOrder?_eq_some_iff.mpr asks.spells]

theorem fault?_of_bad_name (hName : o.name ≠ byteOrderOption) (record : String)
    (member index : Nat) :
    o.fault? record member index = some {
      cause := .invalidOption o.name record s!"unknown option, expected `{byteOrderOption}`"
      place := .option member index } :=
  if_pos (bne_iff_ne.mpr hName)

theorem fault?_of_bad_value (hName : o.name = byteOrderOption) (hBad : ¬o.IsGood)
    (record : String) (member index : Nat) :
    o.fault? record member index = some {
      cause := .invalidOption byteOrderOption record "expected `Little` or `Big`"
      place := .value member index } := by
  have hNone : o.value.byteOrder? = none := by
    rw [Option.eq_none_iff_forall_ne_some]
    exact fun order hOrder => hBad ⟨order, hName, ValueExpr.byteOrder?_eq_some_iff.mp hOrder⟩
  rw [fault?, hName, hNone]
  rfl

/-- The first fault of options is that of the first bad one. -/
theorem head?_faults_of_bad {before after : List MarkerOption} {problem : Diagnostic Location}
    {record : String} {member : Nat} (hBefore : ∀ b ∈ before, b.IsGood)
    (hFault : o.fault? record member before.length = some problem) :
    ((before ++ o :: after).zipIdx.filterMap fun (o, i) => o.fault? record member i).head? =
      some problem := by
  have hNone : before.zipIdx.filterMap (fun (o, i) => o.fault? record member i) = [] := by
    rw [List.filterMap_eq_nil_iff]
    rintro ⟨b, i⟩ hMember
    have hGood := hBefore b (List.mem_of_getElem? (List.mk_mem_zipIdx_iff_getElem?.mp hMember))
    exact fault?_eq_none_iff.mpr hGood
  rw [List.zipIdx_append, List.filterMap_append, hNone, List.nil_append, List.zipIdx_cons,
    Nat.zero_add]
  simp only [List.filterMap_cons, hFault, List.head?_cons]

end MarkerOption

namespace PlacedOption

/-- What is reported of a bad option, for its name or else for its value. -/
def refusal (o : PlacedOption) (record : String) : SourceError :=
  if o.option.name = byteOrderOption then
    ⟨"[RB0009] " ++ (Cause.invalidOption byteOrderOption record
      "expected `Little` or `Big`").message, o.valuePlace⟩
  else
    ⟨"[RB0009] " ++ (Cause.invalidOption o.option.name record
      s!"unknown option, expected `{byteOrderOption}`").message, o.namePlace⟩

theorem exists_first_bad {options : List PlacedOption} (h : ¬∀ o ∈ options, o.option.IsGood) :
    ∃ before o after, options = before ++ o :: after ∧ (∀ b ∈ before, b.option.IsGood) ∧
      ¬o.option.IsGood := by
  classical
  have hSome : (options.find? fun o => ¬o.option.IsGood).isSome := by
    rw [List.find?_isSome]
    simpa using h
  obtain ⟨o, hFind⟩ := Option.isSome_iff_exists.mp hSome
  obtain ⟨hBad, before, after, hOptions, hBefore⟩ := List.find?_eq_some_iff_append.mp hFind
  exact ⟨before, o, after, hOptions, fun b hMember => by simpa using hBefore b hMember,
    of_decide_eq_true hBad⟩

end PlacedOption

namespace Item

/-- The verdict on a field: nothing, or the error that is reported of it. -/
inductive Judges (item : Item) (f : Field) : Option SourceError → Prop where
  | unmarked (hMarker : fieldMarker? f.attributes = .ok none) : Judges item f none
  | type {marker : FieldMarker} {error : SourceError}
      (hMarker : fieldMarker? f.attributes = .ok (some marker))
      (notAdmitted : ¬item.generics.Admits item.name f.type) (blames : item.Blames f error) :
      Judges item f (some error)
  | accepted {marker : FieldMarker} (hMarker : fieldMarker? f.attributes = .ok (some marker))
      (admitted : item.generics.Admits item.name f.type)
      (good : ∀ o ∈ marker.options, o.option.IsGood) : Judges item f none
  | refused {place : Place} {before after : List PlacedOption} {o : PlacedOption}
      (hMarker : fieldMarker? f.attributes = .ok (some ⟨place, before ++ o :: after⟩))
      (admitted : item.generics.Admits item.name f.type)
      (good : ∀ b ∈ before, b.option.IsGood) (bad : ¬o.option.IsGood) :
      Judges item f (some (o.refusal item.name))

variable {item : Item} {form : RecordForm} {fields : List Field} {f : Field} {index : Nat}

/-- The options of a field of which nothing is reported are good. -/
theorem Judges.good (h : item.Judges f none) {marker : FieldMarker}
    (hMarker : fieldMarker? f.attributes = .ok (some marker)) :
    ∀ o ∈ marker.options, o.option.IsGood := by
  cases h with
  | unmarked hNone => cases hNone.symm.trans hMarker
  | accepted hSome _ good =>
      cases hSome.symm.trans hMarker
      exact good

/-- What is reported of a field, if anything is wrong with it. -/
def report? (item : Item) (form : RecordForm) (fields : List Field) (f : Field) (index : Nat) :
    Option SourceError :=
  (item.fieldFaults form f index).head?.map fun problem =>
    (problem.relocate (item.withMarkers form fields).placeOf).sourceError

/-- A field of a good type is reported for its first bad option. -/
theorem report?_of_bad (hIndex : fields[index]? = some f) {place : Place}
    {before after : List PlacedOption} {o : PlacedOption}
    (hMarker : f.marker? = some ⟨place, before ++ o :: after⟩)
    (hAdmits : item.generics.Admits item.name f.type) (hBefore : ∀ b ∈ before, b.option.IsGood)
    (hBad : ¬o.option.IsGood) :
    item.report? form fields f index = some (o.refusal item.name) := by
  have hOption : (item.withMarkers form fields).option? index before.length = some o :=
    option?_eq hIndex hMarker (by simp)
  have hType : (f.marked.member index).typeFaults (item.descriptor form) item.generics.oracle =
      [] := Generics.typeFaults_eq_nil_iff.mpr hAdmits
  have hFirst {problem : Diagnostic Location}
      (hFault : o.option.fault? item.name index before.length = some problem) :
      (item.fieldFaults form f index).head? = some problem := by
    rw [fieldFaults, Member.faults, marker_member hMarker index, List.map_append, List.map_cons]
    simp only [hType]
    apply MarkerOption.head?_faults_of_bad
    · rw [List.forall_mem_map]
      exact hBefore
    · rw [List.length_map]
      exact hFault
  rw [report?, PlacedOption.refusal]
  by_cases hName : o.option.name = byteOrderOption
  · rw [hFirst (MarkerOption.fault?_of_bad_value hName hBad _ _ _), if_pos hName]
    simp [Diagnostic.relocate, MarkedItem.placeOf, hOption, Diagnostic.sourceError, Diagnostic.text,
      Cause.code, ErrorCode.text]
  · rw [hFirst (MarkerOption.fault?_of_bad_name hName _ _ _), if_neg hName]
    simp [Diagnostic.relocate, MarkedItem.placeOf, hOption, Diagnostic.sourceError, Diagnostic.text,
      Cause.code, ErrorCode.text]

/-- The verdict on a field whose marker can be read is what is reported of it. -/
theorem judges_report? (hIndex : fields[index]? = some f)
    (hRead : fieldMarker? f.attributes = .ok f.marker?) :
    item.Judges f (item.report? form fields f index) := by
  cases hMarker : f.marker? with
  | none =>
      rw [report?, fieldFaults_of_unmarked hMarker]
      exact .unmarked (hRead.trans (congrArg _ hMarker))
  | some marker =>
      have hMarked : fieldMarker? f.attributes = .ok (some marker) :=
        hRead.trans (congrArg _ hMarker)
      by_cases hAdmits : item.generics.Admits item.name f.type
      · by_cases hGood : ∀ o ∈ marker.options, o.option.IsGood
        · have hNothing : ¬item.Offends f := by
            rintro ⟨marker', hMarker', hBad⟩
            cases hMarked.symm.trans hMarker'
            exact hBad ⟨hAdmits, hGood⟩
          rw [offends_iff hRead form index, not_not] at hNothing
          rw [report?, hNothing]
          exact .accepted hMarked hAdmits hGood
        · obtain ⟨before, o, after, hOptions, hBefore, hBad⟩ :=
            PlacedOption.exists_first_bad hGood
          obtain ⟨place, options⟩ := marker
          obtain rfl : options = before ++ o :: after := hOptions
          rw [report?_of_bad hIndex hMarker hAdmits hBefore hBad]
          exact .refused hMarked hAdmits hBefore hBad
      · have hOffends : item.Offends f := ⟨marker, hMarked, fun h => hAdmits h.1⟩
        rw [offends_iff hRead form index] at hOffends
        obtain ⟨problem, rest, hFaults⟩ := List.exists_cons_of_ne_nil hOffends
        have hFirst : (item.fieldFaults form f index).head? = some problem := by
          rw [hFaults, List.head?_cons]
        rw [report?, hFirst]
        exact .type hMarked hAdmits (blames_of_fieldFaults hIndex hRead hFirst)

end Item

namespace Item

/-- The attributes of a record and of its fields can be read, and its fields can be counted. -/
structure Readable (item : Item) (fields : List Field) : Prop where
  config : ∃ config, containerConfig item.attributes = .ok config
  markers : ∀ f ∈ fields, ∃ marker, fieldMarker? f.attributes = .ok marker
  counted : Field.firstExceeding? fields = none

/-- An attribute of a record or of one of its fields cannot be read, or a field stands too far
behind, and this is all that is reported. -/
def Unread (item : Item) (fields : List Field) : Prop :=
  ∃ error, item.expand = .error [error] ∧
    (containerConfig item.attributes = .error error ∨
      ∃ (index : Nat) (f : Field), fields[index]? = some f ∧ f.Unreadable index error)

/-- A record is accepted if nothing is reported of any field, and otherwise what is reported of the
fields is reported of the record. -/
structure JudgedBy (item : Item) (fields : List Field) (reports : List (Option SourceError)) :
    Prop where
  judges : List.Forall₂ item.Judges fields reports
  expand_eq_ok_iff : (∃ tokens, item.expand = .ok tokens) ↔ ∀ report ∈ reports, report = none
  errors_eq : ∀ errors, item.expand = .error errors → errors = reports.filterMap id
  /-- In an accepted record the member of a field has the byte order that its options ask for. -/
  orders : ∀ {config codec index f marker}, item.compile = .ok (config, codec) →
    fields[index]? = some f → fieldMarker? f.attributes = .ok (some marker) →
    ∃ m ∈ codec.layout.members, m.index = index ∧
      MarkerOption.AskFor (marker.options.map PlacedOption.option) m.order

variable {item : Item} {form : RecordForm} {fields : List Field} {config : Config} {codec : Codec}

/-- An accepted record is the accepted declaration of its fields. -/
theorem compile_eq_ok {m : MarkedItem} (hMarked : item.marked = .ok m)
    (h : item.compile = .ok (config, codec)) :
    ∃ layout, m.declaration.validate item.generics.oracle config = .ok layout ∧
      codec = m.declaration.emit layout := by
  rw [compile] at h
  cases hConfig : containerConfig item.attributes with
  | error e =>
      rw [hConfig] at h
      cases h
  | ok found =>
      rw [hConfig, hMarked] at h
      cases hCompile : m.declaration.compile item.generics.oracle found with
      | error problems =>
          simp only [Except.mapError, bind, Except.bind, hCompile] at h
          cases h
      | ok made =>
          simp only [Except.mapError, bind, Except.bind, hCompile] at h
          cases h
          exact Declaration.compile_eq_ok hCompile

/-- In an accepted record the member of a field has the byte order that its options ask for. -/
theorem exists_member_of_good {index : Nat} {f : Field} {marker : FieldMarker}
    (hMarked : item.marked = .ok (item.withMarkers form fields))
    (hCompile : item.compile = .ok (config, codec)) (hIndex : fields[index]? = some f)
    (hMarker : fieldMarker? f.attributes = .ok (some marker))
    (hGood : ∀ o ∈ marker.options, o.option.IsGood) :
    ∃ m ∈ codec.layout.members, m.index = index ∧
      MarkerOption.AskFor (marker.options.map PlacedOption.option) m.order := by
  obtain ⟨layout, hValidate, rfl⟩ := compile_eq_ok hMarked hCompile
  have hFound : f.marker? = some marker := by
    rw [Field.marker?, hMarker]
    rfl
  have hOptions := marker_member hFound index
  have hMember : (item.withMarkers form fields).declaration.members[index]? =
      some (f.marked.member index) := by
    simp [MarkedItem.declaration, withMarkers, hIndex]
  have hIncluded : (f.marked.member index).isIncluded := by
    rw [Member.isIncluded, hOptions]
    rfl
  obtain ⟨place, included, _, hPlace, hEncodes⟩ :=
    Declaration.exists_encodes hValidate hMember hIncluded
  obtain ⟨order, hAsk⟩ : ∃ order,
      MarkerOption.AskFor (marker.options.map PlacedOption.option) order := by
    rw [MarkerOption.exists_askFor_iff, List.forall_mem_map]
    exact hGood
  refine ⟨included, List.mem_of_getElem? hPlace, hEncodes.index_eq, ?_⟩
  rwa [hEncodes.order_eq, hAsk.orderAsked_eq hOptions]

/-- What is reported of the fields, in order. -/
def reports (item : Item) (form : RecordForm) (fields : List Field) : List (Option SourceError) :=
  fields.zipIdx.map fun p => item.report? form fields p.1 p.2

/-- What is reported of the fields is the verdict on them, one by one. -/
theorem judges_reports (item : Item) (form : RecordForm)
    (hMarkers : ∀ f ∈ fields, ∃ marker, fieldMarker? f.attributes = .ok marker) :
    List.Forall₂ item.Judges fields (item.reports form fields) := by
  have hFields : fields.zipIdx.map Prod.fst = fields := List.zipIdx_map_fst 0 fields
  have hAll : List.Forall₂ item.Judges (fields.zipIdx.map Prod.fst) (item.reports form fields) := by
    rw [reports, List.forall₂_map_left_iff, List.forall₂_map_right_iff, List.forall₂_same]
    rintro ⟨f, index⟩ hMember
    have hIndex := List.mk_mem_zipIdx_iff_getElem?.mp hMember
    exact judges_report? hIndex (Field.fieldMarker?_eq (hMarkers f (List.mem_of_getElem? hIndex)))
  rwa [hFields] at hAll

theorem errors_eq_reports (item : Item) (form : RecordForm) (fields : List Field) :
    (((item.withMarkers form fields).declaration.faults item.generics.oracle).map fun problem =>
        (problem.relocate (item.withMarkers form fields).placeOf).sourceError) =
      (item.reports form fields).filterMap id := by
  rw [faults_withMarkers, List.map_filterMap, reports, List.filterMap_map]
  rfl

/-- A record that can be read is judged by what is reported of its fields. -/
theorem judgedBy_reports (hFields : item.body.fields? = some (form, fields))
    (hConfig : containerConfig item.attributes = .ok config)
    (hMarkers : ∀ f ∈ fields, ∃ marker, fieldMarker? f.attributes = .ok marker)
    (hCounted : Field.firstExceeding? fields = none) :
    item.JudgedBy fields (item.reports form fields) := by
  have hMarked := marked_eq hFields hMarkers hCounted
  have hExpand := expand_eq hConfig hMarked
  have hErrors := item.errors_eq_reports form fields
  have hNone : (∀ report ∈ item.reports form fields, report = none) ↔
      (item.withMarkers form fields).declaration.faults item.generics.oracle = [] := by
    rw [← List.map_eq_nil_iff, hErrors, List.filterMap_eq_nil_iff]
    rfl
  have hJudges := item.judges_reports form hMarkers
  -- The reports are the faults, so there is a code exactly if nothing is reported.
  by_cases hFaults : (item.withMarkers form fields).declaration.faults item.generics.oracle = []
  · obtain ⟨layout, hValid⟩ := Declaration.exists_validate hFaults config
    rw [hValid] at hExpand
    refine ⟨hJudges, iff_of_true ⟨_, hExpand⟩ (hNone.mpr hFaults), ?_, ?_⟩
    · rw [hExpand]
      intro errors hError
      cases hError
    · intro config' codec index f marker hCompile hIndex hMarker
      obtain ⟨report, hReport, hField⟩ := forall₂_getElem? hJudges hIndex
      rw [hNone.mpr hFaults report (List.mem_of_getElem? hReport)] at hField
      exact exists_member_of_good hMarked hCompile hIndex hMarker (hField.good hMarker)
  · rw [Declaration.validate_eq_error (errorLimit_of_containerConfig hConfig) hFaults] at hExpand
    replace hExpand : item.expand = .error ((item.reports form fields).filterMap id) :=
      hExpand.trans (congrArg _ hErrors)
    refine ⟨hJudges, iff_of_false ?_ (hFaults ∘ hNone.mp), ?_, ?_⟩
    · rw [hExpand]
      rintro ⟨tokens, hOk⟩
      cases hOk
    · rw [hExpand]
      rintro errors ⟨⟩
      rfl
    · intro config' codec index f marker hCompile
      rw [expand, hCompile] at hExpand
      cases hExpand

/-- If the fields cannot be read, one of them is what is reported. -/
theorem marked_eq_error (hFields : item.body.fields? = some (form, fields))
    (h : ¬((∀ f ∈ fields, ∃ marker, fieldMarker? f.attributes = .ok marker) ∧
      Field.firstExceeding? fields = none)) :
    ∃ error, item.marked = .error error ∧
      ∃ (index : Nat) (f : Field), fields[index]? = some f ∧ f.Unreadable index error := by
  have hUnread : ¬∀ p ∈ fields.zipIdx, ∃ marked, p.1.readAt p.2 = .ok marked := by
    intro hRead
    apply h
    constructor
    · intro f hMem
      obtain ⟨index, hIndex⟩ := List.getElem?_of_mem hMem
      exact (Field.exists_readAt_iff.mp (hRead _ (List.mk_mem_zipIdx_iff_getElem?.mpr hIndex))).2
    · rw [Field.firstExceeding?_eq_none_iff]
      exact fun p hMem => (Field.exists_readAt_iff.mp (hRead p hMem)).1
  obtain ⟨error, hError, ⟨f, index⟩, hMem, hField⟩ := mapM_eq_error hUnread
  refine ⟨error, ?_, index, f, List.mk_mem_zipIdx_iff_getElem?.mp hMem,
    Field.unreadable_of_readAt hField⟩
  rw [marked_of_fields hFields, hError]
  rfl

/-- The attributes of the record come first, and then the fields one after the other; the first
failure is all that is reported. -/
theorem unread_of_not_readable (hFields : item.body.fields? = some (form, fields))
    (h : ¬item.Readable fields) : item.Unread fields := by
  cases hConfig : containerConfig item.attributes with
  | error e =>
      refine ⟨e, ?_, .inl hConfig⟩
      rw [expand, compile, hConfig]
      rfl
  | ok config =>
      have hMarkers : ¬((∀ f ∈ fields, ∃ marker, fieldMarker? f.attributes = .ok marker) ∧
          Field.firstExceeding? fields = none) :=
        fun hAll => h ⟨⟨config, hConfig⟩, hAll.1, hAll.2⟩
      obtain ⟨e, hMarked, hField⟩ := marked_eq_error hFields hMarkers
      refine ⟨e, ?_, .inr hField⟩
      rw [expand, compile, hConfig, hMarked]
      rfl

end Item

/-- The options of a field count as one list, however they are spread over attributes. A struct
whose attributes can be read is judged field by field, and a field of an admitted type by its
options: there is nothing to report if all of them are good, and the last one then counts; otherwise
the first bad one is reported, once. A struct with an attribute that cannot be read, or with more
fields than can be counted, is told this and no more. -/
theorem marker_options_count_as_one_list :
    (∀ {split merged : Item}, split.Merges merged →
      Both SourceError.SayAllSame Eq split.expand merged.expand) ∧
    ∀ {item : Item} {form : RecordForm} {fields : List Field},
      item.body.fields? = some (form, fields) →
      (item.Readable fields → ∃ reports, item.JudgedBy fields reports) ∧
        (¬item.Readable fields → item.Unread fields) := by
  refine ⟨fun hMerges => hMerges.both_expand, fun {item form fields} hFields => ⟨?_, ?_⟩⟩
  · rintro ⟨⟨config, hConfig⟩, hMarkers, hCounted⟩
    exact ⟨_, Item.judgedBy_reports hFields hConfig hMarkers hCounted⟩
  · exact Item.unread_of_not_readable hFields

namespace Sample

def bareMark : Attribute := { markOf 2 [] with form := .bare }

def docNote : Attribute :=
  { markOf 2 [] with path := .ofNames ["doc"], form := .assigned ⟨2, 10⟩ [] }

def askBig : List SourceTree := orderTrees 2 21 (.name "Big" ⟨2, 34⟩)

/-- The value is what a macro has been given, so it stands in an invisible group. -/
def askLittle : List SourceTree :=
  orderTrees 2 39 (.group .bare ⟨2, 52⟩ ⟨2, 58⟩ [.name "Little" ⟨2, 52⟩])

def askMiddle : List SourceTree := orderTrees 2 62 (.name "Middle" ⟨2, 75⟩)

def comma : SourceTree := .punct ',' false ⟨2, 60⟩

/-- A field of two bytes with the given attributes. -/
def levelWith (attributes : List Attribute) : Field :=
  { fieldAt 2 "level" (.named "u16") with attributes }

def gauge (attributes : List Attribute) : Item :=
  itemOf "Gauge" [] [] (.named [⟨levelWith attributes, false⟩])

def spread : List Attribute := [bareMark, docNote, markOf 2 askBig, docNote, markOf 2 askLittle]

def merged : List Attribute := [markOf 2 (askBig ++ [comma] ++ askLittle)]

def optionAt (column : Nat) (value : ValueExpr) : PlacedOption where
  option := { name := byteOrderOption, value }
  namePlace := ⟨2, column⟩
  valuePlace := ⟨2, column + 13⟩

def bigOptionAt : PlacedOption := optionAt 21 (.path (.ofNames ["Big"]))

def littleOptionAt : PlacedOption := optionAt 39 (.group (.path (.ofNames ["Little"])))

theorem merges_gauge : (gauge spread).Merges (gauge merged) where
  name_eq := rfl
  attributes_eq := rfl
  generics_eq := rfl
  body := by
    have hMerges : (levelWith spread).Merges (levelWith merged) := by
      refine ⟨rfl, rfl, [[], [bigOptionAt], [littleOptionAt]], _, [bigOptionAt, littleOptionAt],
        ?_, ?_, rfl, rfl, rfl⟩
      · exact List.cons_ne_nil _ _
      · exact .cons rfl (.cons rfl (.cons rfl .nil))
    exact .fields rfl rfl (.cons (.inr hMerges) .nil)

/-- A marker of which the second option is bad and the others are good. -/
def spoiled : List Attribute :=
  [markOf 2 askBig, markOf 2 (askMiddle ++ [comma] ++ askLittle)]

def middleOptionAt : PlacedOption := optionAt 62 (.path (.ofNames ["Middle"]))

end Sample

open Sample in
/-- A gauge whose options stand in three attributes with notes between them, the value of the last
option in an invisible group; one with a bad option between good ones; and one whose marker cannot
be read. -/
theorem marker_options_count_as_one_list_gauge :
    (gauge spread).Merges (gauge merged) ∧
    Both SourceError.SayAllSame Eq (gauge spread).expand (gauge merged).expand ∧
    (∃ tokens, (gauge spread).expand = .ok tokens) ∧
    (∃ reports, (gauge spoiled).JudgedBy [levelWith spoiled] reports) ∧
    (gauge spoiled).expand = .error [middleOptionAt.refusal "Gauge"] ∧
    (gauge [{ bareMark with form := .assigned ⟨2, 20⟩ [] }]).Unread
      [levelWith [{ bareMark with form := .assigned ⟨2, 20⟩ [] }]] := by
  have hSpoiled : (gauge spoiled).Readable [levelWith spoiled] :=
    ⟨⟨_, rfl⟩, List.forall_mem_singleton.mpr ⟨_, rfl⟩, rfl⟩
  refine ⟨merges_gauge, marker_options_count_as_one_list.1 merges_gauge, ⟨_, rfl⟩,
    (marker_options_count_as_one_list.2 rfl).1 hSpoiled, rfl,
    (marker_options_count_as_one_list.2 rfl).2 ?_⟩
  intro hReadable
  obtain ⟨marker, hRead⟩ := List.forall_mem_singleton.mp hReadable.markers
  cases hRead

end WireRecord
