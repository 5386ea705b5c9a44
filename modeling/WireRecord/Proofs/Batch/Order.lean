import WireRecord.Proofs.Batch.Verdict

/-!
The outcomes of a batch do not depend on the order of its records. All that a verdict on a record
sees of the batch is which names there are and which records nest which, and neither has an order.
-/

namespace WireRecord

namespace Batch

variable {b b' : Batch} {oracle : TypeOracle} {config : Config}

/-- Resolution asks which names there are, and not in what order. -/
theorem resolve_eq (hNames : ∀ name, name ∈ b.names ↔ name ∈ b'.names) (type : TypeExpr)
    (scope : QualifiedName) : resolve type scope b.names = resolve type scope b'.names := by
  have hContains : b.names.contains = b'.names.contains := by
    funext name
    rw [Bool.eq_iff_iff, List.contains_iff_mem, List.contains_iff_mem]
    exact hNames name
  rw [resolve, resolve, hContains]

/-- Inside a record, batches of the same names know the same of types. -/
theorem oracleFor_eq (hNames : ∀ name, name ∈ b.names ↔ name ∈ b'.names) (oracle : TypeOracle)
    (scope : QualifiedName) : b.oracleFor oracle scope = b'.oracleFor oracle scope := by
  simp only [oracleFor, resolve_eq hNames]

/-- Of the rest of the batch, the validation of a record sees the names only. -/
theorem validate_eq (hNames : ∀ name, name ∈ b.names ↔ name ∈ b'.names) (d : Declaration) :
    b.validate oracle config d = b'.validate oracle config d := by
  rw [validate, validate, oracleFor_eq hNames]

theorem mem_names_iff (hRecords : ∀ d, d ∈ b.records ↔ d ∈ b'.records) (name : QualifiedName) :
    name ∈ b.names ↔ name ∈ b'.names := by
  simp only [names, List.mem_map, hRecords]

theorem nests_eq (hRecords : ∀ d, d ∈ b.records ↔ d ∈ b'.records) :
    b.Nests oracle config = b'.Nests oracle config := by
  have hNames := mem_names_iff hRecords
  funext name target
  simp only [Nests, PointsAt, hRecords, validate_eq hNames, resolve_eq hNames]

theorem leadsBack_eq (hRecords : ∀ d, d ∈ b.records ↔ d ∈ b'.records) :
    b.LeadsBack oracle config = b'.LeadsBack oracle config := by
  funext d m
  simp only [LeadsBack, PointsAt, nests_eq hRecords, resolve_eq (mem_names_iff hRecords)]

/-- The verdict on a record depends on the set of the records. -/
theorem judge_eq (hRecords : ∀ d, d ∈ b.records ↔ d ∈ b'.records) (d : Declaration) :
    b.judge oracle config d = b'.judge oracle config d := by
  have hFirst : b.firstBack? oracle config d = b'.firstBack? oracle config d := by
    funext layout
    rw [firstBack?, firstBack?, leadsBack_eq hRecords]
  rw [judge, judge, validate_eq (mem_names_iff hRecords), hFirst]

end Batch

namespace RecordOutcome

/-- All that is wrong is wrong with the record at an index. -/
def IsAbout (o : RecordOutcome) (index : Nat) : Prop :=
  ∀ problems, o.result = .error problems → ∀ problem ∈ problems, problem.place.record = index

/-- The outcome of the same record at another index. -/
def moveTo (o : RecordOutcome) (index : Nat) : RecordOutcome :=
  { o with
    result := o.result.mapError fun problems =>
      problems.map (Diagnostic.relocate fun place => ⟨index, place.location⟩) }

end RecordOutcome

namespace Batch

variable {b : Batch} {oracle : TypeOracle} {config : Config} {d : Declaration}

/-- Without two records of one name all that is reported of a record points into its declaration. -/
theorem isAbout_outcome (index : Nat) : (b.outcome oracle config d index).IsAbout index := by
  intro problems hError problem hProblem
  simp only [outcome] at hError
  cases hVerdict : (b.judge oracle config d).map d.emit with
  | ok codec =>
      rw [hVerdict] at hError
      cases hError
  | error faults =>
      rw [hVerdict] at hError
      cases hError
      obtain ⟨fault, _, rfl⟩ := List.mem_map.mp hProblem
      rfl

/-- At another index a record has the same outcome, but for the index in its places. -/
theorem moveTo_outcome (index other : Nat) :
    (b.outcome oracle config d index).moveTo other = b.outcome oracle config d other := by
  simp only [outcome, RecordOutcome.moveTo, RecordOutcome.mk.injEq, true_and]
  cases (b.judge oracle config d).map d.emit with
  | ok codec => rfl
  | error faults =>
      simp only [placed, Except.mapError, List.map_map]
      rfl

end Batch

def Sample.yardReversed : Batch := ⟨yard.records.reverse⟩

/-- Batches of the same records in two orders, no two of one name, are refused for the same reason,
or every record has the same outcome in both: the same code, or the same problems, all in its own
declaration, at the index at which it stands. -/
theorem outcomes_independent_of_order {b b' : Batch} (hPerm : b.records.Perm b'.records)
    (hNames : b.names.Nodup) (oracle : TypeOracle) (config : Config) :
    (oracle.markResolved = false ∧ b.compile oracle config = .error .markUnresolved ∧
      b'.compile oracle config = .error .markUnresolved) ∨
    (oracle.markResolved = true ∧
      ∃ outcomes outcomes', b.compile oracle config = .ok outcomes ∧
        b'.compile oracle config = .ok outcomes' ∧ outcomes.length = b.records.length ∧
        outcomes'.length = b'.records.length ∧
        ∀ (i j : Nat) (d : Declaration), b.records[i]? = some d → b'.records[j]? = some d →
          ∃ outcome : RecordOutcome, outcomes[i]? = some outcome ∧ outcome.IsAbout i ∧
            outcomes'[j]? = some (outcome.moveTo j)) := by
  cases hMark : oracle.markResolved with
  | false => exact .inl ⟨rfl, by simp [Batch.compile, hMark], by simp [Batch.compile, hMark]⟩
  | true =>
      have hNames' : b'.names.Nodup := (hPerm.map Declaration.name).nodup_iff.mp hNames
      refine .inr ⟨rfl, _, _, Batch.compile_eq hNames hMark, Batch.compile_eq hNames' hMark,
        by simp, by simp, fun i j d hIndex hIndex' => ?_⟩
      refine ⟨b.outcome oracle config d i, by simp [hIndex], Batch.isAbout_outcome i, ?_⟩
      have hJudge : b'.judge oracle config d = b.judge oracle config d :=
        Batch.judge_eq (fun d => hPerm.mem_iff.symm) d
      rw [Batch.moveTo_outcome]
      simp [hIndex', Batch.outcome, hJudge]

/-- The hen is rejected at the same member where it stands last. -/
theorem outcomes_independent_of_order_yard :
    ∃ outcomes, Sample.yardReversed.compile Sample.yardOracle {} = .ok outcomes ∧
      outcomes[2]?.map RecordOutcome.result =
        some (.error [⟨.recursive "Hen", ⟨2, .member 1⟩⟩]) := by
  have hNames : Sample.yard.names.Nodup := by decide
  have hPerm : Sample.yard.records.Perm Sample.yardReversed.records := (List.reverse_perm _).symm
  rcases outcomes_independent_of_order hPerm hNames Sample.yardOracle {} with
    ⟨hMark, _⟩ | ⟨_, outcomes, outcomes', hCompile, hCompile', _, _, hEach⟩
  · cases hMark
  · rw [Batch.compile_eq hNames rfl] at hCompile
    cases hCompile
    obtain ⟨outcome, hFirst, _, hLast⟩ := hEach 0 2 Sample.hen rfl rfl
    cases hFirst
    refine ⟨outcomes', hCompile', ?_⟩
    rw [hLast, Batch.moveTo_outcome, Option.map_some, Sample.result_hen]

end WireRecord
