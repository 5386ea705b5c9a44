import WireRecord.Proofs.Derive.Offence

/-!
What a derive answers: code, or one error for each field that offends. The errors are those of the
validation of the declaration that the fields make, put where the fields and their options stand in
the text.
-/

namespace WireRecord

namespace MarkedItem

/-- A declaration that is read from source text is at fault for its members only. -/
theorem faults_declaration (m : MarkedItem) (oracle : TypeOracle) :
    m.declaration.faults oracle = m.fields.zipIdx.filterMap fun p =>
      ((p.1.member p.2).faults m.declaration.descriptor oracle p.2).head? := by
  have hMembers : m.declaration.members.zipIdx =
      m.fields.zipIdx.map fun p => (p.1.member p.2, p.2) := zipIdx_map_zipIdx _ m.fields
  have hTop : m.declaration.innermostSealed? = none := rfl
  show (m.declaration.innermostSealed?.map _).toList ++ m.declaration.members.zipIdx.filterMap _ = _
  rw [hTop, hMembers, List.filterMap_map]
  rfl

end MarkedItem

namespace Item

variable {item : Item} {form : RecordForm} {fields : List Field}

/-- The fields are read one after the other, each at its index. -/
theorem marked_of_fields (hFields : item.body.fields? = some (form, fields)) :
    item.marked =
      (fields.zipIdx.mapM fun p : Field × Nat => p.1.readAt p.2).map (MarkedItem.mk item form) := by
  rw [marked, hFields]
  show fields.zipIdx.mapM (fun p : Field × Nat => p.1.readAt p.2) >>= _ = _
  cases fields.zipIdx.mapM fun p : Field × Nat => p.1.readAt p.2 <;> rfl

/-- If the fields can be counted and their attributes can be read, the markers are those of the
fields. -/
theorem marked_eq (hFields : item.body.fields? = some (form, fields))
    (hMarkers : ∀ f ∈ fields, ∃ marker, fieldMarker? f.attributes = .ok marker)
    (hCounted : Field.firstExceeding? fields = none) :
    item.marked = .ok (item.withMarkers form fields) := by
  have hMarked : (fields.zipIdx.mapM fun p : Field × Nat => p.1.readAt p.2) =
      .ok (fields.zipIdx.map fun p => p.1.marked) := by
    apply mapM_eq_map
    rintro ⟨f, index⟩ hMem
    have hRead := hMarkers f (List.fst_mem_of_mem_zipIdx hMem)
    rw [Field.readAt_of_not_exceeds (Field.firstExceeding?_eq_none_iff.mp hCounted _ hMem),
      Field.fieldMarker?_eq hRead]
    rfl
  have hFirst : (fields.zipIdx.map fun p => p.1.marked) = fields.map Field.marked := by
    conv_rhs => rw [← List.zipIdx_map_fst 0 fields, List.map_map]
    rfl
  rw [marked_of_fields hFields, hMarked, hFirst]
  rfl

/-- If a field stands too far behind, the first such field is what is reported. -/
theorem marked_eq_tooMany (hFields : item.body.fields? = some (form, fields))
    (hMarkers : ∀ f ∈ fields, ∃ marker, fieldMarker? f.attributes = .ok marker) {f : Field}
    {index : Nat} (hFirst : Field.firstExceeding? fields = some (f, index)) :
    item.marked = .error f.tooMany := by
  have hFind : fields.zipIdx.find? (fun p => p.1.exceeds p.2) = some (f, index) := hFirst
  have hExceeds := List.find?_some hFind
  rw [marked_of_fields hFields, mapM_of_find? hFind (Field.readAt_of_exceeds hExceeds)]
  · rfl
  · intro p hMem hCounted
    exact Field.exists_readAt_iff.mpr ⟨hCounted, hMarkers p.1 (List.fst_mem_of_mem_zipIdx hMem)⟩

/-- The faults of the declaration that the fields make. -/
theorem faults_withMarkers (item : Item) (form : RecordForm) (fields : List Field) :
    (item.withMarkers form fields).declaration.faults item.generics.oracle =
      fields.zipIdx.filterMap fun p => (item.fieldFaults form p.1 p.2).head? := by
  rw [MarkedItem.faults_declaration, withMarkers, List.zipIdx_map, List.filterMap_map]
  rfl

/-- The errors for the faults of a record are about the fields that offend, one for each. -/
theorem forall₂_blames (item : Item) [DecidablePred item.Offends] (form : RecordForm)
    (hMarkers : ∀ f ∈ fields, ∃ marker, fieldMarker? f.attributes = .ok marker) :
    List.Forall₂ item.Blames (fields.filter item.Offends)
      (((item.withMarkers form fields).declaration.faults item.generics.oracle).map fun problem =>
        (problem.relocate (item.withMarkers form fields).placeOf).sourceError) := by
  rw [faults_withMarkers, List.map_filterMap]
  have hFields : fields.zipIdx.map Prod.fst = fields := List.zipIdx_map_fst 0 fields
  nth_rewrite 1 [← hFields]
  rw [List.filter_map, List.forall₂_map_left_iff]
  apply forall₂_filter_filterMap
  · rintro ⟨f, index⟩ hMem hNone
    have hIndex := List.mk_mem_zipIdx_iff_getElem?.mp hMem
    have hRead := Field.fieldMarker?_eq (hMarkers f (List.mem_of_getElem? hIndex))
    rw [Function.comp_apply, decide_eq_true_iff, offends_iff hRead form index, not_not]
    exact List.head?_eq_none_iff.mp (Option.map_eq_none_iff.mp hNone)
  · rintro ⟨f, index⟩ hMem error hSome
    have hIndex := List.mk_mem_zipIdx_iff_getElem?.mp hMem
    have hRead := Field.fieldMarker?_eq (hMarkers f (List.mem_of_getElem? hIndex))
    obtain ⟨problem, hFirst, rfl⟩ := Option.map_eq_some_iff.mp hSome
    refine ⟨?_, blames_of_fieldFaults hIndex hRead hFirst⟩
    rw [Function.comp_apply, decide_eq_true_iff, offends_iff hRead form index]
    exact List.ne_nil_of_mem (List.mem_of_head? hFirst)

/-- The declaration that the fields make is at fault exactly if one of them offends. -/
theorem faults_withMarkers_eq_nil_iff (form : RecordForm)
    (hMarkers : ∀ f ∈ fields, ∃ marker, fieldMarker? f.attributes = .ok marker) :
    (item.withMarkers form fields).declaration.faults item.generics.oracle = [] ↔
      ∀ f ∈ fields, ¬item.Offends f := by
  classical
  have hOne := (item.forall₂_blames form hMarkers).length_eq
  rw [List.length_map] at hOne
  rw [← List.length_eq_zero_iff, ← hOne, List.length_eq_zero_iff, List.filter_eq_nil_iff]
  simp only [decide_eq_true_eq]

end Item

namespace Declaration

variable {d : Declaration} {oracle : TypeOracle}

/-- A declaration without faults is accepted under every configuration. -/
theorem exists_validate (hNone : d.faults oracle = []) (config : Config) :
    ∃ layout, d.validate oracle config = .ok layout := by
  rw [← problems_eq_faults] at hNone
  rw [validate, hNone]
  exact ⟨_, rfl⟩

/-- Without a limit on their number all faults are reported. -/
theorem validate_eq_error {config : Config} (hAll : config.errorLimit = 0)
    (hSome : d.faults oracle ≠ []) : d.validate oracle config = .error (d.faults oracle) := by
  rw [← problems_eq_faults] at hSome ⊢
  cases hProblems : d.problems oracle with
  | nil => exact absurd hProblems hSome
  | cons problem rest =>
      rw [validate, hProblems]
      simp only [Config.limit, hAll, if_true]

end Declaration

/-- A derive reports all that it finds. -/
theorem errorLimit_of_containerConfig {attributes : List Attribute} {config : Config}
    (h : containerConfig attributes = .ok config) : config.errorLimit = 0 := by
  simp only [containerConfig] at h
  cases hPaths : (attributes.filter fun a => a.isNamed containerAttribute).mapM
      Attribute.runtimePaths with
  | error e =>
      rw [hPaths] at h
      cases h
  | ok paths =>
      rw [hPaths] at h
      simp only [bind, Except.bind] at h
      split at h <;> · cases h; rfl

namespace Item

variable {item : Item} {m : MarkedItem} {config : Config}

/-- The answer of a derive is that of the validation of the declaration. -/
theorem expand_eq (hConfig : containerConfig item.attributes = .ok config)
    (hMarked : item.marked = .ok m) :
    item.expand = match m.declaration.validate item.generics.oracle config with
      | .ok layout => .ok ((m.declaration.emit layout).tokens config.runtime)
      | .error problems =>
        .error (problems.map fun problem => (problem.relocate m.placeOf).sourceError) := by
  simp only [expand, compile, hConfig, hMarked, Except.mapError, Declaration.compile, bind,
    Except.bind]
  cases m.declaration.validate item.generics.oracle config <;> rfl

/-- What is no struct is refused before its fields are looked at, or for an attribute before that.
-/
theorem expand_of_unsupported (hBody : item.body.fields? = none) :
    ∃ error, item.expand = .error [error] := by
  rw [expand, compile, marked, hBody]
  cases containerConfig item.attributes with
  | error e => exact ⟨e, rfl⟩
  | ok config => exact ⟨_, rfl⟩

end Item

open scoped Classical in
/-- A derive never accepts what is no struct. A struct whose attributes can be read is accepted
exactly if no field offends; otherwise there is one error for each field that does, in the order of
the fields, and no other. Fields without a name must stand where their position can be counted, and
the first one that does not is all that is reported. -/
theorem expansion_exact (item : Item) :
    (item.body = .unsupported → ∃ error, item.expand = .error [error]) ∧
      ∀ form fields config, item.body.fields? = some (form, fields) →
        containerConfig item.attributes = .ok config →
        (∀ f ∈ fields, ∃ marker, fieldMarker? f.attributes = .ok marker) →
        (Field.firstExceeding? fields = none →
          ((∃ tokens, item.expand = .ok tokens) ↔ ∀ f ∈ fields, ¬item.Offends f) ∧
            ((∃ f ∈ fields, item.Offends f) → ∃ errors, item.expand = .error errors ∧
              List.Forall₂ item.Blames (fields.filter item.Offends) errors)) ∧
          ∀ f index, Field.firstExceeding? fields = some (f, index) →
            item.expand = .error [f.tooMany] := by
  refine ⟨fun hBody => Item.expand_of_unsupported (by rw [hBody]; rfl), ?_⟩
  intro form fields config hFields hConfig hMarkers
  refine ⟨fun hCounted => ?_, fun f index hFirst => ?_⟩
  · have hExpand := Item.expand_eq hConfig (Item.marked_eq hFields hMarkers hCounted)
    have hAll := errorLimit_of_containerConfig hConfig
    rw [← Item.faults_withMarkers_eq_nil_iff form hMarkers]
    -- a derive has no limit on errors, so all faults are reported or there are none
    by_cases hNone : (item.withMarkers form fields).declaration.faults item.generics.oracle = []
    · obtain ⟨layout, hValid⟩ := Declaration.exists_validate hNone config
      rw [hValid] at hExpand
      refine ⟨iff_of_true ⟨_, hExpand⟩ hNone, ?_⟩
      rintro ⟨f, hMem, hOffends⟩
      exact absurd hOffends ((Item.faults_withMarkers_eq_nil_iff form hMarkers).mp hNone f hMem)
    · rw [Declaration.validate_eq_error hAll hNone] at hExpand
      refine ⟨iff_of_false ?_ hNone, fun _ => ⟨_, hExpand, item.forall₂_blames form hMarkers⟩⟩
      rintro ⟨tokens, hOk⟩
      rw [hExpand] at hOk
      cases hOk
  · rw [Item.expand, Item.compile, hConfig, Item.marked_eq_tooMany hFields hMarkers hFirst]
    rfl

namespace Sample

/-- A marked field on a line of its own. -/
def fieldAt (line : Nat) (name : String) (type : TypeExpr) : Field where
  place := ⟨line, 22⟩
  attributes := [⟨⟨line, 4⟩, .ofNames [includeAttribute], ⟨line, 6⟩, .bare⟩]
  visibility := []
  name := some name
  type := type

def boundedBy (path : List String) : Bounds := { items := [⟨some (.ofNames path), []⟩] }

def itemOf (name : String) (params : List GenericParam) (predicates : List Predicate)
    (body : ItemBody) : Item where
  place := ⟨1, 0⟩
  attributes := []
  name := name
  namePlace := ⟨1, 7⟩
  generics := ⟨params.map (⟨·, false⟩), predicates.map (⟨·, false⟩)⟩
  body := body

def size : Field := fieldAt 2 "size" (.named "u32")

def guest : Field := fieldAt 3 "guest" (.paren (.named "T"))

def note : Field := fieldAt 4 "note" (.paren (.named "String"))

def spare : Field := { fieldAt 5 "spare" (.named "Hutch") with attributes := [] }

def hutchFields : List Field := [size, guest, note, spare]

/-- A struct `Hutch<T> where T: wire::BinaryStructurable`. -/
def hutch : Item :=
  itemOf "Hutch" [.type [] "T" ⟨[], false⟩ []]
    [.type [] (.named "T") (boundedBy ["wire", contractName])]
    (.named (hutchFields.map (⟨·, true⟩)))

def choice : Item := itemOf "Choice" [] [] .unsupported

def level : Field := fieldAt 2 "level" (.named "usize")

/-- A field of a tuple struct. -/
def drop : Field := { fieldAt 2 "drop" (.named "u8") with name := none }

/-- One field more than can be counted. -/
def drops : List Field := List.replicate (positionLimit + 1) drop

/-- A struct `Ocean(u8, u8, ..)`. -/
def ocean : Item := itemOf "Ocean" [] [] (.tuple (drops.map (⟨·, true⟩)))

theorem fields?_ocean : ocean.body.fields? = some (.tuple, drops) := by
  show some (RecordForm.tuple, (drops.map (⟨·, true⟩)).map Listed.item) = _
  rw [List.map_map]
  exact congrArg (fun fields => some (RecordForm.tuple, fields)) (List.map_id drops)

theorem firstExceeding?_drops : Field.firstExceeding? drops = some (drop, positionLimit) := by
  have hCounted : (List.replicate positionLimit drop).zipIdx.find?
      (fun p => p.1.exceeds p.2) = none := by
    rw [List.find?_eq_none]
    rintro ⟨f, index⟩ hMem hExceeds
    have hIndex : index < positionLimit := by
      simpa using List.snd_lt_of_mem_zipIdx hMem
    simp only [Field.exceeds, Bool.and_eq_true, decide_eq_true_eq] at hExceeds
    exact absurd hIndex (Nat.not_lt.mpr hExceeds.2)
  rw [Field.firstExceeding?, drops, List.replicate_succ', List.zipIdx_append, List.find?_append,
    hCounted, List.length_replicate, Nat.zero_add, List.zipIdx_singleton]
  simp [Field.exceeds, drop]

/-- A struct `Tank<usize: BinaryStructurable>`. -/
def tank : Item :=
  itemOf "Tank" [.type [] "usize" (boundedBy [contractName]) []] [] (.named [⟨level, false⟩])

end Sample

open scoped Classical in
/-- Of the fields of the hutch one offends: a `String` has no fixed size, while the type parameter
is bounded in the where clause, and the field without a marker is not looked at. The ocean has one
field too many. -/
theorem expansion_exact_hutch :
    (∃ error, Sample.choice.expand = .error [error]) ∧
      Sample.hutch.body.fields? = some (.named, Sample.hutchFields) ∧
      containerConfig Sample.hutch.attributes = .ok {} ∧
      (∀ f ∈ Sample.hutchFields, ∃ marker, fieldMarker? f.attributes = .ok marker) ∧
      Field.firstExceeding? Sample.hutchFields = none ∧
      (∃ error, Sample.hutch.expand = .error [error] ∧ Sample.hutch.Blames Sample.note error) ∧
      Sample.ocean.expand = .error [Sample.drop.tooMany] := by
  have hMarkers : ∀ f ∈ Sample.hutchFields, ∃ marker, fieldMarker? f.attributes = .ok marker := by
    simp only [Sample.hutchFields, List.forall_mem_cons, List.not_mem_nil, false_implies,
      implies_true, and_true]
    exact ⟨⟨_, rfl⟩, ⟨_, rfl⟩, ⟨_, rfl⟩, ⟨_, rfl⟩⟩
  have hSize : ¬Sample.hutch.Offends Sample.size := by
    rw [Item.offends_iff rfl .named 0, not_not]
    rfl
  have hGuest : ¬Sample.hutch.Offends Sample.guest := by
    rw [Item.offends_iff rfl .named 1, not_not]
    rfl
  have hNote : Sample.hutch.Offends Sample.note := by
    rw [Item.offends_iff rfl .named 2]
    exact List.cons_ne_nil _ _
  have hSpare : ¬Sample.hutch.Offends Sample.spare := by
    rw [Item.offends_iff rfl .named 3, not_not]
    rfl
  have hFilter : Sample.hutchFields.filter Sample.hutch.Offends = [Sample.note] := by
    simp [Sample.hutchFields, hSize, hGuest, hNote, hSpare]
  obtain ⟨_, hErrors⟩ :=
    ((expansion_exact Sample.hutch).2 .named Sample.hutchFields {} rfl rfl hMarkers).1 rfl
  obtain ⟨errors, hExpand, hBlames⟩ := hErrors ⟨Sample.note, by simp [Sample.hutchFields], hNote⟩
  rw [hFilter] at hBlames
  obtain ⟨error, _, hBlamed, hRest, rfl⟩ := List.forall₂_cons_left_iff.mp hBlames
  cases List.forall₂_nil_left_iff.mp hRest
  have hDrops : ∀ f ∈ Sample.drops, ∃ marker, fieldMarker? f.attributes = .ok marker := by
    intro f hMem
    rw [List.eq_of_mem_replicate hMem]
    exact ⟨_, rfl⟩
  have hOcean : Sample.ocean.expand = .error [Sample.drop.tooMany] :=
    ((expansion_exact Sample.ocean).2 .tuple Sample.drops {} Sample.fields?_ocean rfl hDrops).2
      Sample.drop positionLimit Sample.firstExceeding?_drops
  exact ⟨(expansion_exact Sample.choice).1 rfl, rfl, rfl, hMarkers, rfl, ⟨error, hExpand, hBlamed⟩,
    hOcean⟩

/-- The type parameter of the tank is bounded by the contract, and called `usize`. Its field is
rejected for having no fixed size. -/
theorem bounded_parameter_rejected_tank :
    Sample.tank.body.fields? = some (.named, [Sample.level]) ∧
      containerConfig Sample.tank.attributes = .ok {} ∧
      (∃ place, fieldMarker? Sample.level.attributes = .ok (some ⟨place, []⟩)) ∧
      ¬Sample.level.type.SpellsOwn Sample.tank.name ∧
      Sample.tank.generics.BoundsParam Sample.level.type ∧
      ∃ reason, Sample.tank.expand = .error [⟨"[RB0008] " ++ reason, Sample.level.place⟩] := by
  have hOwn : ¬Sample.level.type.SpellsOwn Sample.tank.name := by
    rw [← Descriptor.isOwnType_iff { name := Sample.tank.name }]
    decide
  have hBounded : Sample.tank.generics.BoundsParam Sample.level.type :=
    Generics.isImplemented_iff.mp rfl
  exact ⟨rfl, rfl, ⟨_, rfl⟩, hOwn, hBounded, (Cause.notFixedSize "usize" "Tank").message, rfl⟩

end WireRecord
