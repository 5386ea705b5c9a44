import WireRecord.Catalog
import WireRecord.Proofs.Batch.Nesting

/-!
What becomes of the records of a batch in which no two share a name. A record that is not valid
keeps its problems; a valid one is rejected exactly if it is on a cycle, at its first member that
leads back to it. What is left over has no cycles.
-/

namespace WireRecord

namespace Batch

variable {b : Batch} {oracle : TypeOracle} {config : Config} {d : Declaration} {layout : Layout}
  {m : IncludedMember} {index : Nat}

/-- The member is the first one of the layout that leads back to the record. -/
def IsFirstBack (b : Batch) (oracle : TypeOracle) (config : Config) (d : Declaration)
    (layout : Layout) (m : IncludedMember) : Prop :=
  ∃ before after, layout.members = before ++ m :: after ∧ b.LeadsBack oracle config d m ∧
    ∀ earlier ∈ before, ¬b.LeadsBack oracle config d earlier

theorem firstBack?_eq_some_iff :
    b.firstBack? oracle config d layout = some m ↔ b.IsFirstBack oracle config d layout m := by
  rw [firstBack?, List.find?_eq_some_iff_append]
  simp only [decide_eq_true_eq, Bool.not_eq_true', decide_eq_false_iff_not]
  constructor
  · rintro ⟨hBack, before, after, hMembers, hBefore⟩
    exact ⟨before, after, hMembers, hBack, hBefore⟩
  · rintro ⟨before, after, hMembers, hBack, hBefore⟩
    exact ⟨hBack, before, after, hMembers, hBefore⟩

/-- No member leads back to a valid record exactly if the record is on no cycle. -/
theorem firstBack?_eq_none_iff (hNames : b.names.Nodup) (hMember : d ∈ b.records)
    (hValid : b.validate oracle config d = .ok layout) :
    b.firstBack? oracle config d layout = none ↔ ¬b.OnCycle oracle config d.name := by
  rw [firstBack?, List.find?_eq_none, onCycle_iff hNames hMember hValid]
  simp

/-- The final verdict on a record, with places in terms of the record alone. -/
noncomputable def judge (b : Batch) (oracle : TypeOracle) (config : Config) (d : Declaration) :
    Except (List (Diagnostic Location)) Layout :=
  match config.cycles with
  | .direct => b.validate oracle config d
  | .transitive =>
    (b.validate oracle config d).bind fun layout =>
      match b.firstBack? oracle config d layout with
      | some m => .error [⟨.recursive d.name.text, .member m.index⟩]
      | none => .ok layout

/-- A verdict with its places in terms of the batch, for the record at an index. -/
def placed {α : Type} (index : Nat) (verdict : Except (List (Diagnostic Location)) α) :
    Except (List (Diagnostic BatchLocation)) α :=
  verdict.mapError fun problems => problems.map (Diagnostic.relocate (BatchLocation.mk index))

/-- The step from the verdict of validation to the final one, for a single record. -/
theorem rejectCycle_placed (hNames : b.names.Nodup) (hCycles : config.cycles = .transitive)
    (hMember : (d, index) ∈ b.records.zipIdx) :
    rejectCycle (b.compositeGraph oracle config) d (placed index (b.validate oracle config d)) =
      placed index (b.judge oracle config d) := by
  rw [judge, hCycles]
  cases hValid : b.validate oracle config d with
  | error problems => rfl
  | ok layout =>
      simp only [rejectCycle, placed, Except.mapError, Except.bind,
        cycleThrough?_eq hNames hMember hValid]
      cases b.firstBack? oracle config d layout with
      | none => rfl
      | some m => rfl

/-- The verdicts after the search for cycles. -/
theorem finalVerdicts_eq (hNames : b.names.Nodup) :
    b.finalVerdicts oracle config =
      b.records.zipIdx.map fun (d, index) => placed index (b.judge oracle config d) := by
  have hVerdicts : b.verdicts oracle config =
      b.records.zipIdx.map fun (d, index) => placed index (b.validate oracle config d) := rfl
  rw [finalVerdicts]
  cases hCycles : config.cycles with
  | direct => simp only [hVerdicts, judge, hCycles]
  | transitive =>
      change List.zipWith (rejectCycle (b.compositeGraph oracle config)) b.records _ = _
      rw [hVerdicts, zipWith_zipIdx]
      apply List.map_congr_left
      rintro ⟨d, index⟩ hMember
      exact rejectCycle_placed hNames hCycles hMember

/-- What becomes of a record at an index of the batch. -/
noncomputable def outcome (b : Batch) (oracle : TypeOracle) (config : Config) (d : Declaration)
    (index : Nat) : RecordOutcome where
  descriptor := d.descriptor
  result := placed index ((b.judge oracle config d).map d.emit)

/-- The outcomes of a batch, record by record: the start of all that is proved of batches without
two records of one name. -/
theorem compile_eq (hNames : b.names.Nodup) (hMark : oracle.markResolved) :
    b.compile oracle config =
      .ok (b.records.zipIdx.map fun (d, index) => b.outcome oracle config d index) := by
  rw [compile, if_pos hMark, finalVerdicts_eq hNames, zipWith_zipIdx]
  congr 2
  funext ⟨d, index⟩
  simp only [outcome]
  cases b.judge oracle config d <;> rfl

/-- One of the outcomes is the code of the record called `name`. -/
def Emits (b : Batch) (outcomes : List RecordOutcome) (name : QualifiedName) : Prop :=
  ∃ d outcome, (d, outcome) ∈ b.records.zip outcomes ∧ d.name = name ∧
    ∃ codec, outcome.result = .ok codec

/-- An invalid record keeps all that validation has found, in order. -/
theorem result_of_invalid {problems : List (Diagnostic Location)}
    (hInvalid : b.validate oracle config d = .error problems) (index : Nat) :
    (b.outcome oracle config d index).result =
      .error (problems.map (Diagnostic.relocate (BatchLocation.mk index))) := by
  rw [outcome, judge, hInvalid]
  cases config.cycles <;> rfl

/-- A valid record is either on a cycle and rejected, or neither. -/
theorem result_of_valid (hNames : b.names.Nodup) (hCycles : config.cycles = .transitive)
    (hMember : d ∈ b.records) (hValid : b.validate oracle config d = .ok layout) (index : Nat) :
    (b.OnCycle oracle config d.name ∧ ∃ m, b.IsFirstBack oracle config d layout m ∧
        (b.outcome oracle config d index).result =
          .error [⟨.recursive d.name.text, ⟨index, .member m.index⟩⟩]) ∨
      (¬b.OnCycle oracle config d.name ∧
        (b.outcome oracle config d index).result = .ok (d.emit layout)) := by
  rw [outcome, judge, hCycles, hValid]
  simp only [Except.bind]
  have hNone := firstBack?_eq_none_iff hNames hMember hValid
  cases hFirst : b.firstBack? oracle config d layout with
  | some m =>
      rw [hFirst] at hNone
      refine .inl ⟨?_, m, firstBack?_eq_some_iff.mp hFirst, rfl⟩
      by_contra hFree
      cases hNone.mpr hFree
  | none => exact .inr ⟨hNone.mp hFirst, rfl⟩

/-- A record of which code is emitted is not on a cycle. -/
theorem not_onCycle_of_emits (hNames : b.names.Nodup) (hCycles : config.cycles = .transitive)
    {name : QualifiedName} (hEmits : b.Emits
      (b.records.zipIdx.map fun (d, index) => b.outcome oracle config d index) name) :
    ¬b.OnCycle oracle config name := by
  obtain ⟨d, outcome, hPair, rfl, codec, hCodec⟩ := hEmits
  rw [List.zip, zipWith_zipIdx] at hPair
  obtain ⟨⟨d, index⟩, hMember, hEq⟩ := List.mem_map.mp hPair
  obtain ⟨rfl, rfl⟩ := Prod.mk.inj hEq
  cases hValid : b.validate oracle config d with
  | error problems =>
      rw [result_of_invalid hValid] at hCodec
      cases hCodec
  | ok layout =>
      have hRecord : d ∈ b.records := List.fst_mem_of_mem_zipIdx hMember
      rcases result_of_valid hNames hCycles hRecord hValid index with ⟨_, m, _, hError⟩ | ⟨hFree, _⟩
      · rw [hError] at hCodec
        cases hCodec
      · exact hFree

end Batch

namespace Sample

open Catalog

def hen : Declaration := record "Hen" [bare "age" "u8", bare "egg" "Egg"]

def egg : Declaration := record "Egg" [bare "hen" "Hen"]

def farm : Declaration := record "Farm" [bare "hen" "Hen"]

def yard : Batch := ⟨[hen, egg, farm]⟩

def nested (name type : String) (index : Nat) : IncludedMember :=
  ⟨⟨.userDefined, type, true, true⟩, .named name, .named type, .little, index⟩

def henLayout : Layout :=
  ⟨[⟨⟨.byte, "u8", false, true⟩, .named "age", .named "u8", .little, 0⟩, nested "egg" "Egg" 1]⟩

def ageLayout : Layout :=
  ⟨[⟨⟨.byte, "u8", false, true⟩, .named "age", .named "u8", .little, 0⟩]⟩

def nestsHen : Layout := ⟨[nested "hen" "Hen" 0]⟩

def yardOracle : TypeOracle := KnownTypes.oracle {}

theorem validate_hen : yard.validate yardOracle {} hen = .ok henLayout := rfl

theorem validate_egg : yard.validate yardOracle {} egg = .ok nestsHen := rfl

theorem validate_farm : yard.validate yardOracle {} farm = .ok nestsHen := rfl

theorem hen_nests_egg : yard.Nests yardOracle {} ["Hen"] ["Egg"] :=
  ⟨hen, by simp [yard], rfl, henLayout, validate_hen, nested "egg" "Egg" 1, by simp [henLayout],
    rfl, rfl⟩

theorem egg_nests_hen : yard.Nests yardOracle {} ["Egg"] ["Hen"] :=
  ⟨egg, by simp [yard], rfl, nestsHen, validate_egg, nested "hen" "Hen" 0, by simp [nestsHen],
    rfl, rfl⟩

theorem hen_onCycle : yard.OnCycle yardOracle {} ["Hen"] :=
  .head hen_nests_egg (.single egg_nests_hen)

/-- Of the members of the hen only the second one nests a record. -/
theorem index_of_isFirstBack {m : IncludedMember}
    (h : yard.IsFirstBack yardOracle {} hen henLayout m) : m.index = 1 := by
  obtain ⟨before, after, hMembers, ⟨_, ⟨hComposite, _⟩, _⟩, _⟩ := h
  have hMember : m ∈ henLayout.members := hMembers ▸ List.mem_append_right _ List.mem_cons_self
  rcases List.mem_pair.mp hMember with rfl | rfl
  · cases hComposite
  · rfl

/-- The hen is rejected at its second member, wherever it stands in the batch. -/
theorem result_hen (index : Nat) : (yard.outcome yardOracle {} hen index).result =
    .error [⟨.recursive "Hen", ⟨index, .member 1⟩⟩] := by
  have hNames : yard.names.Nodup := by decide
  have hCycles : ({} : Config).cycles = .transitive := rfl
  rcases Batch.result_of_valid hNames hCycles List.mem_cons_self validate_hen index with
    ⟨_, m, hBack, hResult⟩ | ⟨hFree, _⟩
  · rw [hResult, index_of_isFirstBack hBack]
    rfl
  · exact absurd hen_onCycle hFree

/-- No record of the yard nests the farm, so the farm is on no cycle. -/
theorem not_nests_farm (name : QualifiedName) : ¬yard.Nests yardOracle {} name ["Farm"] := by
  rintro ⟨d, hMember, rfl, layout, hValid, m, hIncluded, hComposite, hTarget⟩
  have hHen : resolve (.named "Hen") d.name yard.names ≠ some ["Farm"] := by
    rcases List.mem_cons.mp hMember with rfl | hMember
    · decide
    · rcases List.mem_pair.mp hMember with rfl | rfl <;> decide
  rcases List.mem_cons.mp hMember with rfl | hMember
  · cases validate_hen.symm.trans hValid
    rcases List.mem_pair.mp hIncluded with rfl | rfl
    · cases hComposite
    · exact absurd hTarget (by decide)
  · rcases List.mem_pair.mp hMember with rfl | rfl
    · cases validate_egg.symm.trans hValid
      cases List.mem_singleton.mp hIncluded
      exact hHen hTarget
    · cases validate_farm.symm.trans hValid
      cases List.mem_singleton.mp hIncluded
      exact hHen hTarget

end Sample

/-- In a batch without two records of one name, the outcomes are those of the records in order. An
invalid record keeps its problems. A valid record is rejected exactly if it contains itself, for one
reason and at its first member that leads back to it, and its code is emitted otherwise. So no
emitted record contains itself through emitted ones. -/
theorem cycle_rejection_exact {b : Batch} (hNames : b.names.Nodup) {oracle : TypeOracle}
    (hMark : oracle.markResolved) {config : Config} (hCycles : config.cycles = .transitive) :
    ∃ outcomes, b.compile oracle config = .ok outcomes ∧ outcomes.length = b.records.length ∧
      (∀ (index : Nat) (d : Declaration), b.records[index]? = some d →
        ∃ outcome, outcomes[index]? = some outcome ∧ outcome.descriptor = d.descriptor ∧
          (∀ problems, b.validate oracle config d = .error problems →
            outcome.result =
              .error (problems.map (Diagnostic.relocate (BatchLocation.mk index)))) ∧
          ∀ layout, b.validate oracle config d = .ok layout →
            (b.OnCycle oracle config d.name ∧ ∃ m, b.IsFirstBack oracle config d layout m ∧
              outcome.result = .error [⟨.recursive d.name.text, ⟨index, .member m.index⟩⟩]) ∨
            (¬b.OnCycle oracle config d.name ∧ outcome.result = .ok (d.emit layout))) ∧
      ∀ name, ¬Relation.TransGen (fun x y => b.Nests oracle config x y ∧ b.Emits outcomes x ∧
        b.Emits outcomes y) name name := by
  refine ⟨_, Batch.compile_eq hNames hMark, by simp, fun index d hIndex => ?_,
    fun name hCycle => ?_⟩
  · have hRecord : d ∈ b.records := List.mem_of_getElem? hIndex
    refine ⟨b.outcome oracle config d index, ?_, rfl, ?_, ?_⟩
    · simp [hIndex]
    · exact fun problems hInvalid => Batch.result_of_invalid hInvalid index
    · exact fun layout hValid => Batch.result_of_valid hNames hCycles hRecord hValid index
  · obtain ⟨next, ⟨_, hEmits, _⟩, _⟩ := Relation.TransGen.head'_iff.mp hCycle
    refine Batch.not_onCycle_of_emits hNames hCycles hEmits ?_
    exact Relation.TransGen.mono (fun _ _ hStep => hStep.1) name name hCycle

/-- The hen contains itself through the egg and is rejected at its second member; the farm, which
nests the hen, is emitted. -/
theorem cycle_rejection_exact_yard :
    ∃ outcomes, Sample.yard.compile Sample.yardOracle {} = .ok outcomes ∧
      outcomes[0]?.map RecordOutcome.result =
        some (.error [⟨.recursive "Hen", ⟨0, .member 1⟩⟩]) ∧
      outcomes[2]?.map RecordOutcome.result = some (.ok (Sample.farm.emit Sample.nestsHen)) := by
  have hNames : Sample.yard.names.Nodup := by decide
  have hMark : Sample.yardOracle.markResolved := rfl
  have hCycles : ({} : Config).cycles = .transitive := rfl
  obtain ⟨outcomes, hCompile, _, hEach, _⟩ := cycle_rejection_exact hNames hMark hCycles
  obtain ⟨first, hFirst, _, _, hHen⟩ := hEach 0 Sample.hen rfl
  obtain ⟨third, hThird, _, _, hFarm⟩ := hEach 2 Sample.farm rfl
  refine ⟨outcomes, hCompile, ?_, ?_⟩
  · rcases hHen _ Sample.validate_hen with ⟨_, m, hBack, hResult⟩ | ⟨hFree, _⟩
    · rw [hFirst, Option.map_some, hResult, Sample.index_of_isFirstBack hBack]
      rfl
    · exact absurd Sample.hen_onCycle hFree
  · rcases hFarm _ Sample.validate_farm with ⟨hCycle, _⟩ | ⟨_, hResult⟩
    · obtain ⟨name, _, hLast⟩ := Relation.TransGen.tail'_iff.mp hCycle
      exact absurd hLast (Sample.not_nests_farm name)
    · rw [hThird, Option.map_some, hResult]

end WireRecord
