import WireRecord.Proofs.Schema.Inclusion

/-!
Validation reports what a declaration has to answer for and nothing else. The faults of a member are
listed here by checks that do not know of each other; the validation, which stops at the first check
that fails, reports the first of them.
-/

namespace WireRecord

/-- What is wrong with how a member is reached. -/
def Access.faults (record : String) : Access → List Cause
  | field => []
  | property indexer readable writable =>
    (if indexer then [.indexer record] else []) ++
      (if readable && writable then [] else [.notReadableAndWritable record])

/-- Of what is wrong with an accessor the first is reported. -/
theorem Access.head?_faults (record : String) (a : Access) :
    (a.faults record).head? = a.problem? record := by
  cases a with
  | field => rfl
  | property indexer readable writable =>
      cases indexer <;> cases readable <;> cases writable <;> rfl

namespace Member

/-- Whether the type of a member counts as a record: it is the type of the record at hand and not a
primitive, or a path that is known to be one. -/
def isRecord (m : Member) (d : Descriptor) (oracle : TypeOracle) : Bool :=
  m.type.kind == .userDefined &&
    (d.isOwnType m.type ||
      m.type.isPath && (oracle.isMarked m.type.peel || oracle.isImplemented m.type.peel))

/-- What is wrong with the type of a member. -/
def typeFaults (m : Member) (d : Descriptor) (oracle : TypeOracle) : List Cause :=
  let record := d.qualifiedName.text
  (if m.type.kind.isPrimitive || m.isRecord d oracle then [] else [.notEncodable record]) ++
    (if m.type.kind.isNativeWidth then [.notFixedSize m.type.display record] else []) ++
    (if d.isOwnType m.type then [.recursive record] else [])

end Member

theorem Descriptor.isByValue_of_isOwnType {d : Descriptor} {type : TypeExpr}
    (h : d.isOwnType type) : type.isByValue := by
  simp only [isOwnType, TypeExpr.path?] at h
  rw [TypeExpr.isByValue]
  cases hPeel : type.peel <;> simp_all

namespace Member

/-- The classification calls composite what is a record by the list of faults. -/
theorem isComposite_classify (m : Member) (d : Descriptor) (oracle : TypeOracle) :
    (m.classify d oracle).isComposite = m.isRecord d oracle := by
  cases hOwn : d.isOwnType m.type with
  | false => simp [classify, isRecord, TypeExpr.classify, hOwn, Bool.and_assoc]
  | true =>
      have hByValue := Descriptor.isByValue_of_isOwnType hOwn
      cases hUser : m.type.kind == .userDefined <;>
        simp [classify, isRecord, TypeExpr.classify, Classification.isPrimitive, Kind.isPrimitive,
          bne, hOwn, hByValue, hUser]

/-- In messages a type is shown as it is written, without what is around it. -/
theorem display_classify (m : Member) (d : Descriptor) (oracle : TypeOracle) :
    (m.classify d oracle).display = m.type.display := by
  simp only [classify]
  split <;> rfl

/-- The problem with the type of a member is its first fault. -/
theorem head?_typeFaults (m : Member) (d : Descriptor) (oracle : TypeOracle) :
    (m.typeFaults d oracle).head? = m.typeProblem? d oracle := by
  have hKind := m.kind_classify d oracle
  have hRecord := m.isComposite_classify d oracle
  have hDisplay := m.display_classify d oracle
  simp only [typeFaults, typeProblem?, Classification.isCompatible, Classification.isPrimitive,
    Classification.isNativeWidth, hKind, hRecord, hDisplay]
  cases m.type.kind.isPrimitive || m.isRecord d oracle <;>
    cases m.type.kind.isNativeWidth <;> cases d.isOwnType m.type <;> rfl

end Member

/-- What is wrong with an option of a marker. -/
def MarkerOption.fault? (o : MarkerOption) (record : String) (member index : Nat) :
    Option (Diagnostic Location) :=
  if o.name != byteOrderOption then
    some {
      cause := .invalidOption o.name record s!"unknown option, expected `{byteOrderOption}`"
      place := .option member index }
  else if o.value.byteOrder?.isNone then
    some {
      cause := .invalidOption byteOrderOption record "expected `Little` or `Big`"
      place := .value member index }
  else none

/-- The first problem of a check, if it fails. -/
def problem? {ε α : Type} : Except ε α → Option ε
  | .error problem => some problem
  | .ok _ => none

/-- Reading the options of a marker fails with the fault of the first option that has one. -/
theorem MarkerOption.problem?_byteOrder (record : String) (member : Nat) (order : ByteOrder)
    (index : Nat) (options : List MarkerOption) :
    problem? (MarkerOption.byteOrder record member order index options) =
      ((options.zipIdx index).filterMap fun (o, i) => o.fault? record member i).head? := by
  induction options generalizing order index with
  | nil => rfl
  | cons o options ih =>
      simp only [byteOrder, List.zipIdx_cons, List.filterMap_cons, fault?]
      cases hName : o.name != byteOrderOption with
      | true => rfl
      | false =>
          cases hValue : o.value.byteOrder? with
          | none => rfl
          | some order => exact ih order (index + 1)

namespace Member

/-- All that is wrong with a member if it is marked, in the order in which it matters. -/
def faults (m : Member) (d : Descriptor) (oracle : TypeOracle) (index : Nat) :
    List (Diagnostic Location) :=
  match m.marker with
  | none => []
  | some options =>
    let record := d.qualifiedName.text
    (m.access.faults record ++ m.typeFaults d oracle).map (⟨·, .member index⟩) ++
      options.zipIdx.filterMap fun (o, i) => o.fault? record index i

/-- The checks, made one after the other, report the first of the faults, which do not know of each
other. -/
theorem problem?_check {m : Member} {options : List MarkerOption}
    (hMarker : m.marker = some options) (d : Descriptor) (oracle : TypeOracle) (index : Nat) :
    problem? (m.check d oracle options index) = (m.faults d oracle index).head? := by
  simp only [faults, hMarker, List.head?_append, List.head?_map, Access.head?_faults,
    head?_typeFaults]
  rw [check]
  cases (m.access.problem? d.qualifiedName.text).or (m.typeProblem? d oracle) with
  | some cause => rfl
  | none =>
      rw [← MarkerOption.problem?_byteOrder d.qualifiedName.text index .little 0 options]
      cases MarkerOption.byteOrder d.qualifiedName.text index .little 0 options <;> rfl

end Member

namespace Declaration

variable {d : Declaration} {oracle : TypeOracle} {config : Config}

/-- The innermost enclosing type that cannot be extended, with its index. -/
def innermostSealed? (d : Declaration) : Option (Parent × Nat) :=
  (d.descriptor.parents.zipIdx.filter fun p => !p.1.augmentable).getLast?

/-- All that a declaration has to answer for: that it cannot be extended; or that it cannot be
constructed; or else the innermost enclosing type that cannot be extended, and the first fault of
each member that has one. -/
def faults (d : Declaration) (oracle : TypeOracle) : List (Diagnostic Location) :=
  let record := d.name.text
  if !d.descriptor.augmentable then [⟨.notExtensible record, .record⟩]
  else if !d.descriptor.instantiable then [⟨.abstract record, .record⟩]
  else
    (d.innermostSealed?.map fun (parent, index) =>
      ⟨.parentNotExtensible parent.name record, .parent index⟩).toList ++
    d.members.zipIdx.filterMap fun (m, index) => (m.faults d.descriptor oracle index).head?

/-- Of several sealed parents the innermost one is reported. -/
theorem parentProblem?_eq (d : Declaration) :
    d.parentProblem? = d.innermostSealed?.map fun (parent, index) =>
      ⟨.parentNotExtensible parent.name d.name.text, .parent index⟩ := by
  rw [parentProblem?, innermostSealed?, List.getLast?_filter]

/-- Members are checked one by one, with one report for each at most. -/
theorem problems_of_checks (d : Declaration) (oracle : TypeOracle) :
    (d.checks oracle).filterMap problem? =
      d.members.zipIdx.filterMap fun p => (p.1.faults d.descriptor oracle p.2).head? := by
  rw [checks, List.filterMap_filterMap]
  congr 1
  funext p
  obtain ⟨m, index⟩ := p
  cases hMarker : m.marker with
  | none => simp [Member.faults, hMarker]
  | some options => simpa [hMarker] using Member.problem?_check hMarker d.descriptor oracle index

/-- The problems that are found are the faults. -/
theorem problems_eq_faults (d : Declaration) (oracle : TypeOracle) :
    d.problems oracle = d.faults oracle := by
  rw [problems, faults, ← problems_of_checks, parentProblem?_eq]
  congr 3
  apply List.filterMap_congr
  intro check _
  cases check <;> rfl

/-- An accepted declaration is laid out with its marked members, in order. -/
theorem members_of_validate {layout : Layout} (h : d.validate oracle config = .ok layout) :
    layout.members.map (fun m => (m.name, m.type, m.index)) =
      (d.members.zipIdx.filter fun p => p.1.isIncluded).map fun (m, index) =>
        (m.name, m.type, index) := by
  symm
  apply map_eq_map_of_forall₂
  apply (encodes_of_validate h).imp
  intro p m hEncodes
  rw [hEncodes.name_eq, hEncodes.type_eq, hEncodes.index_eq]

end Declaration

/-- A declaration is accepted exactly if there is nothing that it has to answer for, and then with a
layout of its marked members in order. Otherwise all of it is reported, or as much of it as is asked
for. -/
theorem validation_exact (d : Declaration) (oracle : TypeOracle) (config : Config) :
    ((∃ layout, d.validate oracle config = .ok layout ∧
        layout.members.map (fun m => (m.name, m.type, m.index)) =
          (d.members.zipIdx.filter fun p => p.1.isIncluded).map fun (m, index) =>
            (m.name, m.type, index)) ↔
      d.faults oracle = []) ∧
    ∀ problems, d.validate oracle config = .error problems ↔
      d.faults oracle ≠ [] ∧ problems =
        if config.errorLimit = 0 then d.faults oracle
        else (d.faults oracle).take config.errorLimit := by
  rw [← Declaration.problems_eq_faults]
  cases hProblems : d.problems oracle with
  | nil =>
      have hValidate : d.validate oracle config =
          .ok { members := (d.checks oracle).filterMap Except.toOption } := by
        rw [Declaration.validate, hProblems]
      refine ⟨iff_of_true ⟨_, hValidate, Declaration.members_of_validate hValidate⟩ rfl, ?_⟩
      intro problems
      simp [hValidate]
  | cons problem rest =>
      have hValidate : d.validate oracle config = .error (config.limit (problem :: rest)) := by
        rw [Declaration.validate, hProblems]
      refine ⟨iff_of_false (by simp [hValidate]) (by simp), fun problems => ?_⟩
      rw [hValidate, Except.error.injEq, Config.limit]
      simp [eq_comm]

/-- A member that fails three checks is reported for the first of them, next to the enclosing type
that cannot be extended. -/
example :
    Declaration.faults {
        descriptor := {
          name := "Leaf", parents := [⟨"Tree", false⟩, ⟨"Twig", false⟩, ⟨"Bud", true⟩] }
        members := [
          { name := .named "size", type := .named "usize", access := .property false true false,
            marker := some [⟨"order", .path (.ofNames ["Big"])⟩] },
          { name := .named "age", type := .named "u8", marker := some [] }] }
      (KnownTypes.oracle {}) =
    [⟨.parentNotExtensible "Twig" "Tree::Twig::Bud::Leaf", .parent 1⟩,
      ⟨.notReadableAndWritable "Tree::Twig::Bud::Leaf", .member 0⟩] := by
  rfl

end WireRecord
