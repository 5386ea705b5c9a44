import WireRecord.Proofs.Derive.Comparison
import WireRecord.Proofs.Schema.Grouping

/-!
Redundant grouping. A derive does not see parentheses and invisible groups around the types of
fields and around the values of options. Around the bounded type of a predicate it does: a predicate
on a grouped type bounds nothing.
-/

namespace WireRecord

/-- The same option, with a value that has groupings around it. -/
structure MarkerOption.Regroups (outer inner : MarkerOption) : Prop where
  name_eq : outer.name = inner.name
  value : outer.value.Wraps inner.value

def PlacedOption.Regroups (outer inner : PlacedOption) : Prop :=
  outer.option.Regroups inner.option

/-- The same attribute, or the same options with groupings around their values. -/
inductive Attribute.Regroups : Attribute → Attribute → Prop where
  | same (a : Attribute) : Regroups a a
  | options {outer inner : Attribute} (outerMarks : outer.isNamed includeAttribute)
      (innerMarks : inner.isNamed includeAttribute)
      (h : Both SourceError.SaysSame (List.Forall₂ PlacedOption.Regroups) outer.markerOptions
        inner.markerOptions) : Regroups outer inner

/-- The same field, with groupings around its type and around the values of its options. -/
structure Field.Regroups (outer inner : Field) : Prop where
  name_eq : outer.name = inner.name
  type : outer.type.Wraps inner.type
  attributes : List.Forall₂ Attribute.Regroups outer.attributes inner.attributes

/-- The same predicate, with groupings around its bounded type. -/
inductive Predicate.Regroups : Predicate → Predicate → Prop where
  | same (p : Predicate) : Regroups p p
  | type (binder : Tokens) {outer inner : TypeExpr} (bounds : Bounds) (h : outer.Wraps inner) :
      Regroups (.type binder outer bounds) (.type binder inner bounds)

/-- The same record, with groupings around types of fields, around values of options and around
bounded types of predicates. -/
structure Item.Regroups (outer inner : Item) : Prop where
  name_eq : outer.name = inner.name
  attributes_eq : outer.attributes = inner.attributes
  params_eq : outer.generics.params = inner.generics.params
  predicates : List.Forall₂ (fun p q => p.item.Regroups q.item) outer.generics.predicates
    inner.generics.predicates
  body : outer.body.Corresponds Field.Regroups inner.body

/-- The markers of two fields, with groupings around the values of options. -/
def FieldMarker.Regroups (outer inner : FieldMarker) : Prop :=
  List.Forall₂ PlacedOption.Regroups outer.options inner.options

structure MarkedField.Regroups (outer inner : MarkedField) : Prop where
  name_eq : outer.field.name = inner.field.name
  type : outer.field.type.Wraps inner.field.type
  marker : Option.Rel FieldMarker.Regroups outer.marker inner.marker

theorem PlacedOption.Regroups.refl (o : PlacedOption) : o.Regroups o := ⟨rfl, .refl _⟩

theorem Field.Regroups.refl (f : Field) : f.Regroups f :=
  ⟨rfl, .refl _, List.forall₂_same.mpr fun a _ => .same a⟩

namespace Attribute.Regroups

variable {outer inner : Attribute}

theorem isNamed_eq (h : outer.Regroups inner) :
    outer.isNamed includeAttribute = inner.isNamed includeAttribute := by
  cases h with
  | same => rfl
  | options outerMarks innerMarks _ => exact outerMarks.trans innerMarks.symm

/-- Whatever the groupings are, the options of both attributes are read, or both attributes are
refused alike. -/
theorem both_markerOptions (h : outer.Regroups inner) :
    Both SourceError.SaysSame (List.Forall₂ PlacedOption.Regroups) outer.markerOptions
      inner.markerOptions := by
  cases h with
  | same =>
      apply Both.refl
      · exact fun _ => rfl
      · exact fun options => List.forall₂_same.mpr fun o _ => PlacedOption.Regroups.refl o
  | options _ _ h => exact h

end Attribute.Regroups

/-- The markers of two fields regroup if their attributes do, one by one. -/
theorem both_fieldMarker? {outer inner : List Attribute}
    (h : List.Forall₂ Attribute.Regroups outer inner) :
    Both SourceError.SaysSame (Option.Rel FieldMarker.Regroups) (fieldMarker? outer)
      (fieldMarker? inner) := by
  have hMarks : List.Forall₂ Attribute.Regroups
      (outer.filter fun a => a.isNamed includeAttribute)
      (inner.filter fun a => a.isNamed includeAttribute) := by
    refine List.rel_filter ?_ h
    intro a b hSame
    exact iff_of_eq (congrArg (· = true) hSame.isNamed_eq)
  rw [fieldMarker?, fieldMarker?]
  generalize outer.filter (fun a => a.isNamed includeAttribute) = marks at hMarks
  generalize inner.filter (fun a => a.isNamed includeAttribute) = marks' at hMarks
  have hOptions := Both.mapM (hMarks.imp fun _ _ hSame => hSame.both_markerOptions)
  refine hOptions.bind fun parts parts' hParts => .succeeded ?_
  have hFlat : List.Forall₂ PlacedOption.Regroups parts.flatten parts'.flatten :=
    List.rel_flatten hParts
  cases hMarks with
  | nil => exact .none
  | cons _ _ => exact .some hFlat

/-- Grouped fields are read like those inside, each with its name, its type and its marker. -/
theorem Field.Regroups.readAlike {outer inner : Field} (h : outer.Regroups inner) :
    outer.ReadAlike MarkedField.Regroups inner where
  name_eq := h.name_eq
  marker := (both_fieldMarker? h.attributes).imp fun _ _ hMarker => ⟨h.name_eq, h.type, hMarker⟩

/-- The value of an option is read through its groupings, so the faults are the same. -/
theorem MarkerOption.Regroups.fault?_eq {outer inner : MarkerOption} (h : outer.Regroups inner)
    (record : String) (member index : Nat) :
    outer.fault? record member index = inner.fault? record member index := by
  rw [fault?, fault?, h.name_eq, h.value.byteOrder?_eq]

/-- All that is asked of the type of a member is asked of what is inside its groupings. -/
theorem MarkedField.Regroups.faults_eq {outer inner : MarkedField} (h : outer.Regroups inner)
    (d : Descriptor) (oracle : TypeOracle) (index : Nat) :
    (outer.member index).faults d oracle index = (inner.member index).faults d oracle index := by
  have hTypes : (outer.member index).typeFaults d oracle =
      (inner.member index).typeFaults d oracle := by
    have hType : (outer.member index).type.Wraps (inner.member index).type := h.type
    rw [Member.typeFaults, Member.typeFaults, Member.isRecord, Member.isRecord, hType.kind_eq,
      hType.display_eq, hType.isPath_eq, hType.isOwnType_eq, hType.peel_eq]
  obtain ⟨f, marker⟩ := outer
  obtain ⟨g, marker'⟩ := inner
  obtain ⟨_, _, hMarker⟩ := h
  cases hMarker with
  | none => rfl
  | @some first second hOptions =>
      have hMarks : List.Forall₂ MarkerOption.Regroups
          (first.options.map PlacedOption.option) (second.options.map PlacedOption.option) := by
        rw [List.forall₂_map_left_iff, List.forall₂_map_right_iff]
        exact hOptions
      have hFaults := zipIdx_filterMap_congr hMarks
        (f := fun p => p.1.fault? d.qualifiedName.text index p.2)
        (g := fun p => p.1.fault? d.qualifiedName.text index p.2)
        (fun o o' i hSame => hSame.fault?_eq d.qualifiedName.text index i) 0
      exact congrArg₂ (fun causes problems => causes.map (⟨·, .member index⟩) ++ problems) hTypes
        hFaults

namespace MarkedItem

variable {m m' : MarkedItem}

/-- The declarations of records with the same name have the same faults, if all that differs are
groupings. -/
theorem problems_eq (hName : m.item.name = m'.item.name) (hForm : m.form = m'.form)
    (hFields : List.Forall₂ MarkedField.Regroups m.fields m'.fields) (oracle : TypeOracle) :
    m.declaration.problems oracle = m'.declaration.problems oracle := by
  rw [Declaration.problems_eq_faults, Declaration.problems_eq_faults, faults_declaration,
    faults_declaration]
  apply zipIdx_filterMap_congr hFields
  intro f g i hSame
  have hDescriptor : m'.declaration.descriptor =
      { m.declaration.descriptor with generics := m'.item.generics } := by
    simp only [declaration, hName, hForm]
  -- the generics of a record play no part in what is wrong with its members
  have hGenerics : (g.member i).faults m'.declaration.descriptor oracle i =
      (g.member i).faults m.declaration.descriptor oracle i := by
    rw [hDescriptor]
    rfl
  rw [hGenerics, hSame.faults_eq]

end MarkedItem

/-- Validation depends on what is found wrong and on nothing else. -/
theorem Declaration.both_validate {d d' : Declaration} {oracle oracle' : TypeOracle}
    (h : d.problems oracle = d'.problems oracle') (config : Config) :
    Both Eq (fun _ _ => True) (d.validate oracle config) (d'.validate oracle' config) := by
  rw [validate, validate, h]
  split
  · exact .succeeded trivial
  · exact .failed rfl

/-- A derive accepts both records, or says the same of both. -/
def Item.SameVerdict (item item' : Item) : Prop :=
  Both SourceError.SayAllSame (fun _ _ => True) item.expand item'.expand

namespace Generics

variable {g g' : Generics}

/-- What a derive knows of types depends on which type parameters there are and which of them are
bounded. -/
theorem oracle_eq (hNames : g.typeNames = g'.typeNames)
    (hBounded : ∀ name, g.IsBounded name ↔ g'.IsBounded name) : g.oracle = g'.oracle := by
  have hImplemented : g.oracle.isImplemented = g'.oracle.isImplemented := by
    funext type
    rw [Bool.eq_iff_iff]
    simp only [oracle, Option.isSome_iff_exists, TypeExpr.param?_eq_some_iff,
      mem_contractParams_iff, hBounded]
  simp only [oracle] at hImplemented ⊢
  rw [hNames, hImplemented]

/-- Nothing around a type is a name, so what is a name has nothing around it. -/
theorem isBounded_of_regroups (hParams : g.params = g'.params)
    (hPredicates : List.Forall₂ (fun p q => p.item.Regroups q.item) g.predicates g'.predicates)
    {name : String} (h : g.IsBounded name) : g'.IsBounded name := by
  have hTypes : g.typeParams = g'.typeParams := by rw [typeParams, hParams, typeParams]
  obtain ⟨hName, hBound⟩ := h
  rw [typeNames, hTypes] at hName
  rw [hTypes] at hBound
  refine ⟨hName, hBound.imp_right ?_⟩
  rintro ⟨listed, hListed, binder, bounded, bounds, hItem, hIsName, hContract⟩
  obtain ⟨place, hPlace⟩ := List.getElem?_of_mem hListed
  obtain ⟨listed', hPlace', hSame⟩ := forall₂_getElem? hPredicates hPlace
  refine ⟨listed', List.mem_of_getElem? hPlace', binder, bounded, bounds, ?_, hIsName, hContract⟩
  rw [hItem] at hSame
  generalize listed'.item = predicate at hSame
  cases hSame with
  | same => rfl
  | type _ _ hWraps =>
      obtain ⟨p, rfl, _⟩ := hIsName
      cases hWraps
      rfl

end Generics

/-- A predicate on a type with something around it. -/
def Predicate.isGrouped : Predicate → Bool
  | type _ (.paren _) _ | type _ (.group _) _ => true
  | _ => false

/-- The record without the predicates on grouped types. -/
def Item.withoutGroupedBounds (item : Item) : Item :=
  { item with
    generics.predicates := item.generics.predicates.filter fun p => !p.item.isGrouped }

/-- A predicate on a grouped type names no type parameter, so that none is bounded by it. -/
theorem Item.contractParams_withoutGroupedBounds (item : Item) :
    item.withoutGroupedBounds.generics.contractParams = item.generics.contractParams := by
  rw [Generics.contractParams, Generics.contractParams, withoutGroupedBounds,
    List.filterMap_filter]
  congr 1
  apply List.filterMap_congr
  intro p _
  split
  · rfl
  · rename_i hGrouped
    obtain ⟨_ | ⟨binder, bounded, bounds⟩, comma⟩ := p
    · exact absurd rfl hGrouped
    · cases bounded with
      | paren _ | group _ => simp [TypeExpr.param?]
      | path _ | qualified _ | other _ _ => exact absurd rfl hGrouped

namespace Item

variable {outer inner : Item}

/-- Records which a derive knows the same of, and of which it sees the same apart from groupings in
the fields. -/
theorem sameVerdict_of_oracle (hName : outer.name = inner.name)
    (hAttributes : outer.attributes = inner.attributes)
    (hOracle : outer.generics.oracle = inner.generics.oracle)
    (hBody : outer.body.Corresponds Field.Regroups inner.body) : outer.SameVerdict inner := by
  have hMarked := both_marked (hBody.imp fun f g hSame => hSame.readAlike)
  apply both_expand (congrArg containerConfig hAttributes)
  apply hMarked.imp
  rintro m m' ⟨rfl, rfl, hForm, hFields⟩ config
  rw [hOracle]
  exact Declaration.both_validate (MarkedItem.problems_eq hName hForm hFields _) config

end Item

/-- A derive gives the same verdict, with the same messages, however the types of fields and the
values of options are grouped; and however the bounded types of predicates are, as long as what was
bounded stays so. To group a bounded type has the effect of leaving out its predicate. -/
theorem grouping_invisible_outside_bounds {outer inner : Item} (hRegroups : outer.Regroups inner) :
    ((∀ name, inner.generics.IsBounded name → outer.generics.IsBounded name) →
      outer.SameVerdict inner) ∧
    outer.SameVerdict outer.withoutGroupedBounds := by
  obtain ⟨hName, hAttributes, hParams, hPredicates, hBody⟩ := hRegroups
  constructor
  · intro hBounded
    refine Item.sameVerdict_of_oracle hName hAttributes ?_ hBody
    apply Generics.oracle_eq
    · rw [Generics.typeNames, Generics.typeParams, hParams]
      rfl
    · exact fun name => ⟨Generics.isBounded_of_regroups hParams hPredicates, hBounded name⟩
  · refine @Item.sameVerdict_of_oracle outer outer.withoutGroupedBounds rfl rfl ?_ (.refl .refl _)
    rw [Generics.oracle, Generics.oracle, outer.contractParams_withoutGroupedBounds]
    rfl

namespace Sample

/-- A struct `Crate<T: BinaryStructurable> where T: BinaryStructurable`, or one with groupings
around the bounded type and in the fields. -/
def crateOf (wrap : TypeExpr → TypeExpr) (order : SourceTree) : Item :=
  itemOf "Crate" [.type [] "T" (boundedBy [contractName]) []]
    [.type [] (wrap (.named "T")) (boundedBy ["wire", contractName])]
    (.named [
      ⟨fieldAt 2 "content" (wrap (.named "T")), true⟩,
      ⟨{ fieldAt 3 "weight" (wrap (.named "u16")) with
        attributes := [markOf 3 (orderTrees 3 21 order)] }, true⟩])

def plainCrate : Item := crateOf id (.name "Big" ⟨3, 34⟩)

/-- The crate as a macro makes it: an invisible group and parentheses around each type and around
the value of the option. -/
def wrappedCrate : Item :=
  crateOf (fun type => .group (.paren type))
    (.group .bare ⟨3, 34⟩ ⟨3, 38⟩ [.group .paren ⟨3, 34⟩ ⟨3, 38⟩ [.name "Big" ⟨3, 35⟩]])

/-- The crate with an invisible group around the value of its option is read, and regroups the plain
one. -/
theorem regroups_crate : wrappedCrate.Regroups plainCrate := by
  have hType (type : TypeExpr) : TypeExpr.Wraps (.group (.paren type)) type :=
    .group (.paren (.refl _))
  have hOption : PlacedOption.Regroups
      ⟨⟨byteOrderOption, .group (.paren (.path (.ofNames ["Big"])))⟩, ⟨3, 21⟩, ⟨3, 34⟩⟩
      ⟨⟨byteOrderOption, .path (.ofNames ["Big"])⟩, ⟨3, 21⟩, ⟨3, 34⟩⟩ :=
    ⟨rfl, .group (.paren (.refl _))⟩
  exact {
    name_eq := rfl
    attributes_eq := rfl
    params_eq := rfl
    predicates := .cons (.type _ _ (hType _)) .nil
    body := .fields rfl rfl <|
      .cons ⟨rfl, hType _, .cons (.same _) .nil⟩ <|
      .cons ⟨rfl, hType _, .cons (.options rfl rfl (.succeeded (.cons hOption .nil))) .nil⟩ .nil }

/-- A struct `Slot<T>` with a predicate that bounds a type by the contract, and a field of type
`T`. -/
def slotWhere (bounded : TypeExpr) : Item :=
  itemOf "Slot" [.type [] "T" ⟨[], false⟩ []] [.type [] bounded (boundedBy [contractName])]
    (.named [⟨fieldAt 2 "a" (.named "T"), false⟩])

theorem regroups_slot : (slotWhere (.paren (.named "T"))).Regroups (slotWhere (.named "T")) where
  name_eq := rfl
  attributes_eq := rfl
  params_eq := rfl
  predicates := .cons (.type _ _ (.paren (.refl _))) .nil
  body := .refl .refl _

end Sample

open Sample in
/-- A crate with groupings is accepted like the one without, for its type parameter is bounded where
it is declared. A slot with a grouped bound is rejected like one that has no bound. -/
theorem grouping_invisible_outside_bounds_crate :
    wrappedCrate.Regroups plainCrate ∧
    (∀ name, plainCrate.generics.IsBounded name → wrappedCrate.generics.IsBounded name) ∧
    (∃ tokens, plainCrate.expand = .ok tokens) ∧ wrappedCrate.SameVerdict plainCrate ∧
    (slotWhere (.paren (.named "T"))).SameVerdict
      (slotWhere (.paren (.named "T"))).withoutGroupedBounds := by
  have hBounded (name : String) (h : plainCrate.generics.IsBounded name) :
      wrappedCrate.generics.IsBounded name := by
    have hNames : name ∈ ["T", "T"] := Generics.mem_contractParams_iff.mpr h
    obtain rfl : name = "T" := by simpa using hNames
    exact Generics.mem_contractParams_iff.mp (List.mem_singleton.mpr rfl)
  exact ⟨regroups_crate, hBounded, ⟨_, rfl⟩,
    (grouping_invisible_outside_bounds regroups_crate).1 hBounded,
    (grouping_invisible_outside_bounds regroups_slot).2⟩

open Sample in
/-- A type parameter that is bounded through parentheses is not taken for bounded. -/
theorem grouped_bound_rejected_slot :
    (slotWhere (.paren (.named "T"))).Regroups (slotWhere (.named "T")) ∧
    (∃ tokens, (slotWhere (.named "T")).expand = .ok tokens) ∧
    ∃ reason place, (slotWhere (.paren (.named "T"))).expand =
      .error [⟨"[RB0006] " ++ reason, place⟩] :=
  ⟨regroups_slot, ⟨_, rfl⟩, (Cause.notEncodable "Slot").message, _, rfl⟩

end WireRecord
