import WireRecord.Proofs.Batch.Verdict
import WireRecord.Proofs.Schema.Exactness

/-!
Where the diagnostics of a batch point, whether or not records share a name. The validation of a
record points into its own declaration. The search for cycles knows records by name only, and of
those that share one the last valid one stands for all: what it reports of any of them lies in the
declaration of that one.
-/

namespace WireRecord

namespace Declaration

variable {d : Declaration} {oracle : TypeOracle} {config : Config}

/-- The place is a part of the declaration. -/
def HasPart (d : Declaration) : Location → Prop
  | .record => True
  | .parent index => index < d.descriptor.parents.length
  | .member index => index < d.members.length
  | .option member index | .value member index =>
    ∃ m options, d.members[member]? = some m ∧ m.marker = some options ∧ index < options.length

/-- What is wrong with a member is placed at the member or in its marker. -/
theorem hasPart_of_mem_memberFaults {m : Member} {index : Nat} {problem : Diagnostic Location}
    (hMember : (m, index) ∈ d.members.zipIdx)
    (hProblem : problem ∈ m.faults d.descriptor oracle index) : d.HasPart problem.place := by
  have hIndex := List.mk_mem_zipIdx_iff_getElem?.mp hMember
  simp only [Member.faults] at hProblem
  split at hProblem
  · cases hProblem
  · rename_i options hMarker
    rcases List.mem_append.mp hProblem with hCause | hOption
    · obtain ⟨cause, _, rfl⟩ := List.mem_map.mp hCause
      exact (List.getElem?_eq_some_iff.mp hIndex).1
    · obtain ⟨⟨o, i⟩, hFound, hFault⟩ := List.mem_filterMap.mp hOption
      have hBound : i < options.length :=
        (List.getElem?_eq_some_iff.mp (List.mk_mem_zipIdx_iff_getElem?.mp hFound)).1
      simp only [MarkerOption.fault?] at hFault
      split at hFault
      · cases hFault
        exact ⟨m, options, hIndex, hMarker, hBound⟩
      · split at hFault
        · cases hFault
          exact ⟨m, options, hIndex, hMarker, hBound⟩
        · cases hFault

/-- All that a declaration has to answer for is placed in the declaration. -/
theorem hasPart_of_mem_faults {problem : Diagnostic Location}
    (hProblem : problem ∈ d.faults oracle) : d.HasPart problem.place := by
  simp only [faults] at hProblem
  split at hProblem
  · cases List.mem_singleton.mp hProblem
    trivial
  · split at hProblem
    · cases List.mem_singleton.mp hProblem
      trivial
    · rcases List.mem_append.mp hProblem with hParent | hMember
      · obtain ⟨⟨parent, index⟩, hSealed, rfl⟩ :=
          Option.map_eq_some_iff.mp (Option.mem_toList.mp hParent)
        have hFound := List.mem_filter.mp (List.mem_of_getLast? hSealed)
        exact (List.getElem?_eq_some_iff.mp (List.mk_mem_zipIdx_iff_getElem?.mp hFound.1)).1
      · obtain ⟨⟨m, index⟩, hFound, hFirst⟩ := List.mem_filterMap.mp hMember
        exact hasPart_of_mem_memberFaults hFound (List.mem_of_head? hFirst)

/-- Validation places all that it reports in the declaration: the limit on their number only drops
some. -/
theorem hasPart_of_validate {problems : List (Diagnostic Location)}
    (hInvalid : d.validate oracle config = .error problems) {problem : Diagnostic Location}
    (hProblem : problem ∈ problems) : d.HasPart problem.place := by
  have hFaults : problem ∈ d.faults oracle := by
    rw [← problems_eq_faults]
    simp only [validate] at hInvalid
    split at hInvalid
    · cases hInvalid
    · cases hInvalid
      simp only [Config.limit] at hProblem
      split at hProblem
      · exact hProblem
      · exact List.mem_of_mem_take hProblem
  exact hasPart_of_mem_faults hFaults

end Declaration

namespace Batch

variable {b : Batch} {oracle : TypeOracle} {config : Config} {d : Declaration} {layout : Layout}
  {index : Nat}

/-- No record after the one at an index is valid and has its name. -/
def IsLastValid (b : Batch) (oracle : TypeOracle) (config : Config) (d : Declaration)
    (index : Nat) : Prop :=
  ∀ (later : Nat) (d' : Declaration), index < later → b.records[later]? = some d' →
    d'.name = d.name → ∃ problems, b.validate oracle config d' = .error problems

/-- The entries of the records after the one at an index, the last one first. -/
def laterEntries (b : Batch) (oracle : TypeOracle) (config : Config) (index : Nat) :
    List (QualifiedName × List Edge) :=
  ((b.records.zipIdx.drop (index + 1)).filterMap fun p => b.listed? oracle config p.1 p.2).reverse

theorem mem_laterEntries_iff {entry : QualifiedName × List Edge} :
    entry ∈ b.laterEntries oracle config index ↔
      ∃ later d' layout', index < later ∧ b.records[later]? = some d' ∧
        b.validate oracle config d' = .ok layout' ∧ entry = (d'.name, b.edges d' later layout') := by
  have hDrop (d' : Declaration) (later : Nat) : (d', later) ∈ b.records.zipIdx.drop (index + 1) ↔
      index < later ∧ b.records[later]? = some d' := by
    simp only [List.mem_iff_getElem?, List.getElem?_drop, List.getElem?_zipIdx,
      Option.map_eq_some_iff, Prod.mk.injEq, Nat.zero_add]
    constructor
    · rintro ⟨i, _, hFound, rfl, rfl⟩
      exact ⟨by omega, hFound⟩
    · rintro ⟨hAfter, hFound⟩
      have hPlace : index + 1 + (later - (index + 1)) = later := by omega
      exact ⟨later - (index + 1), d', by rw [hPlace, hFound], rfl, hPlace⟩
  simp only [laterEntries, List.mem_reverse, List.mem_filterMap, listed?_eq_some_iff, Prod.exists,
    hDrop]
  constructor
  · rintro ⟨d', later, ⟨hAfter, hFound⟩, layout', hValid, hEntry⟩
    exact ⟨later, d', layout', hAfter, hFound, hValid, hEntry⟩
  · rintro ⟨later, d', layout', hAfter, hFound, hValid, hEntry⟩
    exact ⟨d', later, ⟨hAfter, hFound⟩, layout', hValid, hEntry⟩

/-- A valid record is looked up after all later ones. -/
theorem lookup_entries (hIndex : b.records[index]? = some d)
    (hValid : b.validate oracle config d = .ok layout) :
    (b.compositeGraph oracle config).entries.lookup d.name =
      ((b.laterEntries oracle config index).lookup d.name).or (some (b.edges d index layout)) := by
  have hFound : b.records.zipIdx[index]? = some (d, index) := by simp [hIndex]
  obtain ⟨hBound, hElem⟩ := List.getElem?_eq_some_iff.mp hFound
  have hSplit : b.records.zipIdx.drop index = (d, index) :: b.records.zipIdx.drop (index + 1) := by
    rw [← hElem, List.getElem_cons_drop]
  have hListed : b.listed? oracle config d index = some (d.name, b.edges d index layout) :=
    listed?_eq_some_iff.mpr ⟨layout, hValid, rfl⟩
  have hEntries : ∃ earlier, (b.compositeGraph oracle config).entries =
      b.laterEntries oracle config index ++ (d.name, b.edges d index layout) :: earlier := by
    refine ⟨((b.records.zipIdx.take index).filterMap
      fun p => b.listed? oracle config p.1 p.2).reverse, ?_⟩
    rw [compositeGraph, entries_eq, laterEntries]
    conv_lhs => rw [← List.take_append_drop index b.records.zipIdx, hSplit]
    simp [hListed]
  obtain ⟨earlier, hEntries⟩ := hEntries
  rw [hEntries, List.lookup_append, List.lookup_cons_self]

/-- The record whose edges count for a valid record is a valid record of its name. It is the record
itself exactly if that is the last one. -/
theorem exists_bearer (hIndex : b.records[index]? = some d)
    (hValid : b.validate oracle config d = .ok layout) :
    ∃ bearer d' layout', b.records[bearer]? = some d' ∧ d'.name = d.name ∧
      b.validate oracle config d' = .ok layout' ∧
      (b.compositeGraph oracle config).entries.lookup d.name = some (b.edges d' bearer layout') ∧
      (bearer = index ↔ b.IsLastValid oracle config d index) := by
  rw [lookup_entries hIndex hValid]
  -- The record bears its name unless a later valid one has taken it over.
  cases hLater : (b.laterEntries oracle config index).lookup d.name with
  | none =>
      refine ⟨index, d, layout, hIndex, rfl, hValid, rfl, iff_of_true rfl ?_⟩
      intro later d' hAfter hMember hName
      cases hValid' : b.validate oracle config d' with
      | error problems => exact ⟨problems, rfl⟩
      | ok layout' =>
          have hEntry := mem_laterEntries_iff.mpr ⟨later, d', layout', hAfter, hMember, hValid', rfl⟩
          have hOther := List.lookup_eq_none_iff.mp hLater _ hEntry
          simp [hName] at hOther
  | some edges =>
      obtain ⟨before, after, hEntries, _⟩ := List.lookup_eq_some_iff.mp hLater
      have hEntry : (d.name, edges) ∈ b.laterEntries oracle config index := by
        rw [hEntries]
        exact List.mem_append_right _ List.mem_cons_self
      obtain ⟨later, d', layout', hAfter, hMember, hValid', hEq⟩ := mem_laterEntries_iff.mp hEntry
      obtain ⟨hName, rfl⟩ := Prod.mk.inj hEq
      refine ⟨later, d', layout', hMember, hName.symm, hValid', rfl,
        iff_of_false (Nat.ne_of_gt hAfter) fun hLast => ?_⟩
      obtain ⟨problems, hInvalid⟩ := hLast later d' hAfter hMember hName.symm
      cases hValid'.symm.trans hInvalid

/-- The final verdict on the record at an index, in a batch that may have several records of its
name. -/
def verdict (b : Batch) (oracle : TypeOracle) (config : Config) (d : Declaration) (index : Nat) :
    Verdict :=
  match config.cycles with
  | .direct => placed index (b.validate oracle config d)
  | .transitive =>
    rejectCycle (b.compositeGraph oracle config) d (placed index (b.validate oracle config d))

/-- The final verdicts, record by record, with no condition on their names. -/
theorem finalVerdicts_eq_verdict (b : Batch) (oracle : TypeOracle) (config : Config) :
    b.finalVerdicts oracle config =
      b.records.zipIdx.map fun (d, index) => b.verdict oracle config d index := by
  have hVerdicts : b.verdicts oracle config =
      b.records.zipIdx.map fun (d, index) => placed index (b.validate oracle config d) := rfl
  rw [finalVerdicts]
  cases hCycles : config.cycles with
  | direct => simp only [hVerdicts, verdict, hCycles]
  | transitive =>
      change List.zipWith (rejectCycle (b.compositeGraph oracle config)) b.records _ = _
      simp only [hVerdicts, zipWith_zipIdx, verdict, hCycles]

/-- The outcome at the index of a record. -/
theorem getElem?_of_compile {outcomes : List RecordOutcome}
    (hCompile : b.compile oracle config = .ok outcomes) (hIndex : b.records[index]? = some d) :
    outcomes[index]? = some ⟨d.descriptor, (b.verdict oracle config d index).map d.emit⟩ := by
  simp only [compile] at hCompile
  split at hCompile
  · cases hCompile
    simp [finalVerdicts_eq_verdict, zipWith_zipIdx, hIndex]
  · cases hCompile

/-- The search for cycles leaves alone what validation has rejected. -/
theorem verdict_of_invalid {problems : List (Diagnostic Location)}
    (hInvalid : b.validate oracle config d = .error problems) :
    b.verdict oracle config d index =
      .error (problems.map (Diagnostic.relocate (BatchLocation.mk index))) := by
  rw [verdict, hInvalid]
  cases config.cycles <;> rfl

/-- A valid record is rejected only for a member of the record whose edges count for it. -/
theorem verdict_of_valid (hIndex : b.records[index]? = some d)
    (hValid : b.validate oracle config d = .ok layout) :
    b.verdict oracle config d index = .ok layout ∨
      ∃ bearer d' layout' m, b.records[bearer]? = some d' ∧ d'.name = d.name ∧
        b.validate oracle config d' = .ok layout' ∧ m ∈ layout'.members ∧
        (∃ target, b.PointsAt d' m target) ∧
        (bearer = index ↔ b.IsLastValid oracle config d index) ∧
        b.verdict oracle config d index =
          .error [⟨.recursive d.name.text, ⟨bearer, .member m.index⟩⟩] := by
  obtain ⟨bearer, d', layout', hFound, hName, hValid', hEntry, hLast⟩ := exists_bearer hIndex hValid
  rw [verdict, hValid]
  cases hCycles : config.cycles with
  | direct => exact .inl rfl
  | transitive =>
      simp only [placed, Except.mapError, rejectCycle, CompositeGraph.cycleThrough?, hEntry,
        Option.bind_eq_bind, Option.bind_some]
      cases hBack : (b.edges d' bearer layout').find? fun edge =>
          (b.compositeGraph oracle config).graph.reaches edge.target d.name with
      | none => exact .inl rfl
      | some edge =>
          have hEdge := List.mem_of_find?_eq_some hBack
          simp only [edges, List.mem_filterMap, List.mem_filter, Option.map_eq_some_iff] at hEdge
          obtain ⟨m, ⟨hMember, hComposite⟩, target, hTarget, rfl⟩ := hEdge
          exact .inr ⟨bearer, d', layout', m, hFound, hName, hValid', hMember,
            ⟨target, hComposite, hTarget⟩, hLast, rfl⟩

/-- A member of a layout comes from a marked member of the declaration, at the same index. -/
theorem exists_member_of_validate {m : IncludedMember}
    (hValid : b.validate oracle config d = .ok layout) (hMember : m ∈ layout.members) :
    ∃ member, d.members[m.index]? = some member ∧ member.isIncluded ∧ member.type = m.type := by
  rw [Declaration.members_eq_slots hValid] at hMember
  obtain ⟨slot, hSlot, hEq⟩ := List.mem_filterMap.mp hMember
  cases slot with
  | initial name type => cases hEq
  | encoded m' =>
      cases hEq
      obtain ⟨_, member, options, hFound, hMarker, hType⟩ := Declaration.mem_slots_encoded hSlot
      exact ⟨member, List.mk_mem_zipIdx_iff_getElem?.mp hFound, by simp [Member.isIncluded, hMarker],
        hType.symm⟩

end Batch

/-- Every diagnostic in the outcome of a record lies in a declaration of the record's name. It lies
in the record's own declaration exactly if the record is not valid or is the last valid one of its
name. A record of that sort of which no marked member names a record of the batch keeps the verdict
of its validation. -/
theorem diagnostics_stay_with_record {b : Batch} {oracle : TypeOracle} {config : Config}
    {outcomes : List RecordOutcome} (hCompile : b.compile oracle config = .ok outcomes)
    {index : Nat} {d : Declaration} (hIndex : b.records[index]? = some d) :
    ∃ outcome, outcomes[index]? = some outcome ∧
      (∀ problems, outcome.result = .error problems → ∀ problem ∈ problems,
        (∃ d', b.records[problem.place.record]? = some d' ∧ d'.name = d.name ∧
          d'.HasPart problem.place.location) ∧
        (problem.place.record = index ↔
          (∃ faults, b.validate oracle config d = .error faults) ∨
            b.IsLastValid oracle config d index)) ∧
      (b.IsLastValid oracle config d index →
        (∀ m ∈ d.members, m.isIncluded → resolve m.type d.name b.names = none) →
        outcome.result = Batch.placed index ((b.validate oracle config d).map d.emit)) := by
  refine ⟨_, Batch.getElem?_of_compile hCompile hIndex, ?_, ?_⟩
  · intro problems hError problem hProblem
    cases hValid : b.validate oracle config d with
    -- what validation finds is placed in the record itself, whatever its name is
    | error faults =>
        rw [Batch.verdict_of_invalid hValid] at hError
        cases hError
        obtain ⟨fault, hFault, rfl⟩ := List.mem_map.mp hProblem
        exact ⟨⟨d, hIndex, rfl, Declaration.hasPart_of_validate hValid hFault⟩,
          iff_of_true rfl (.inl ⟨faults, rfl⟩)⟩
    | ok layout =>
        rcases Batch.verdict_of_valid hIndex hValid with hOk |
          ⟨bearer, d', layout', m, hFound, hName, hValid', hMember, _, hLast, hRejected⟩
        · rw [hOk] at hError
          cases hError
        -- a cycle is reported at the bearer of the name, the last valid record that has it
        · rw [hRejected] at hError
          cases hError
          cases List.mem_singleton.mp hProblem
          obtain ⟨member, hAt, _⟩ := Batch.exists_member_of_validate hValid' hMember
          refine ⟨⟨d', hFound, hName, (List.getElem?_eq_some_iff.mp hAt).1⟩, ?_⟩
          simpa using hLast
  · intro hLast hApart
    cases hValid : b.validate oracle config d with
    | error faults =>
        rw [Batch.verdict_of_invalid hValid]
        rfl
    | ok layout =>
        rcases Batch.verdict_of_valid hIndex hValid with hOk |
          ⟨bearer, d', layout', m, hFound, _, hValid', hMember, ⟨target, _, hTarget⟩, hBearer, _⟩
        · rw [hOk]
          rfl
        · obtain rfl := hBearer.mpr hLast
          rw [hIndex, Option.some.injEq] at hFound
          subst hFound
          obtain ⟨member, hAt, hMarked, hType⟩ := Batch.exists_member_of_validate hValid' hMember
          have hNone := hApart member (List.mem_of_getElem? hAt) hMarked
          rw [hType, hTarget] at hNone
          cases hNone

namespace Sample

open Catalog

/-- A young hen, which nests nothing. -/
def pullet : Declaration := record "Hen" [bare "age" "u8"]

/-- A hen of the same name, with a chick that is the record of that name. -/
def broody : Declaration :=
  record "Hen" [plain (.named "chick") (.path (Path.ofNames ["crate", "Hen"]))]

def coop : Batch := ⟨[pullet, broody]⟩

/-- The entry of the name `Hen` is that of the second record, and it leads back to the name. -/
theorem verdict_pullet : coop.verdict yardOracle {} pullet 0 =
    .error [⟨.recursive "Hen", ⟨1, .member 0⟩⟩] := by
  let graph := coop.compositeGraph yardOracle {}
  have hEntry : graph.entries.lookup ["Hen"] = some [⟨["Hen"], ⟨1, .member 0⟩⟩] := rfl
  have hBack : graph.graph.reaches ["Hen"] ["Hen"] := by
    rw [Graph.reaches_eq_true_iff]
  have hCycle : graph.cycleThrough? ["Hen"] = some ⟨1, .member 0⟩ := by
    simp [CompositeGraph.cycleThrough?, hEntry, hBack]
  have hValid : coop.validate yardOracle {} pullet = .ok ageLayout := rfl
  rw [Batch.verdict, hValid]
  show Batch.rejectCycle graph pullet (.ok _) = _
  have hName : pullet.name = ["Hen"] := rfl
  rw [Batch.rejectCycle, hName, hCycle]
  rfl

end Sample

/-- The diagnostic of the second record of the coop lies in its own declaration. -/
theorem diagnostics_stay_with_record_coop :
    ∃ outcomes, Sample.coop.compile Sample.yardOracle {} = .ok outcomes ∧
      Sample.coop.records[1]? = some Sample.broody ∧
      ∃ outcome, outcomes[1]? = some outcome ∧
        ∀ problems, outcome.result = .error problems → ∀ problem ∈ problems,
          problem.place.record = 1 := by
  obtain ⟨outcomes, hCompile⟩ :
      ∃ outcomes, Sample.coop.compile Sample.yardOracle {} = .ok outcomes := ⟨_, rfl⟩
  have hIndex : Sample.coop.records[1]? = some Sample.broody := rfl
  have hLast : Sample.coop.IsLastValid Sample.yardOracle {} Sample.broody 1 := by
    intro later d' hAfter hFound
    have hBound : later < 2 := (List.getElem?_eq_some_iff.mp hFound).1
    omega
  obtain ⟨outcome, hOutcome, hPlaces, _⟩ := diagnostics_stay_with_record hCompile hIndex
  refine ⟨outcomes, hCompile, hIndex, outcome, hOutcome, ?_⟩
  intro problems hError problem hProblem
  exact (hPlaces problems hError problem hProblem).2.mpr (.inr hLast)

/-- The first record of the coop nests no record of the batch, and yet is rejected as recursive, at
a member of the second one. -/
theorem diagnostic_leaves_record_coop :
    ∃ outcomes, Sample.coop.compile Sample.yardOracle {} = .ok outcomes ∧
      Sample.coop.records[0]? = some Sample.pullet ∧
      (∀ m ∈ Sample.pullet.members, m.isIncluded →
        resolve m.type Sample.pullet.name Sample.coop.names = none) ∧
      outcomes[0]?.map RecordOutcome.result =
        some (.error [⟨.recursive "Hen", ⟨1, .member 0⟩⟩]) := by
  obtain ⟨outcomes, hCompile⟩ :
      ∃ outcomes, Sample.coop.compile Sample.yardOracle {} = .ok outcomes := ⟨_, rfl⟩
  refine ⟨outcomes, hCompile, rfl, ?_, ?_⟩
  · intro m hMember _
    cases List.mem_singleton.mp hMember
    rfl
  · rw [Batch.getElem?_of_compile hCompile rfl, Option.map_some, Sample.verdict_pullet]
    rfl

end WireRecord
