import Mathlib.Data.List.Cycle
import Mathlib.Data.List.Find
import WireRecord.Proofs.Batch.Order

/-!
What a change of one record can do to the others. The validation of a record sees the names of the
batch only, so a record that keeps its name can disturb another one only through the search for
cycles: the way back that is gained or lost goes through the changed record and closes a cycle on
which both lie.
-/

namespace WireRecord

section Paths

variable {α : Type} {r r' : α → α → Prop} {start goal : α}

/-- What is connected at all is connected by a path that meets no element twice. -/
theorem exists_simple_path (way : Relation.ReflTransGen r start goal) :
    ∃ path, (start :: path).IsChain r ∧ (start :: path).Nodup ∧
      (start :: path).getLast? = some goal := by
  induction way using Relation.ReflTransGen.head_induction_on with
  | refl => exact ⟨[], List.isChain_singleton goal, List.nodup_singleton goal, rfl⟩
  | @head start next hStep _ ih =>
      obtain ⟨path, hChain, hNodup, hGoal⟩ := ih
      by_cases hSeen : start ∈ next :: path
      · -- the path comes back to its start: what lies before that is left out
        obtain ⟨before, after, hSplit⟩ := List.append_of_mem hSeen
        rw [hSplit] at hChain hNodup hGoal
        refine ⟨after, hChain.right_of_append, hNodup.of_append_right, ?_⟩
        rwa [List.getLast?_append_of_ne_nil _ (List.cons_ne_nil start after)] at hGoal
      · refine ⟨next :: path, hChain.cons_cons hStep, List.nodup_cons.mpr ⟨hSeen, hNodup⟩, ?_⟩
        rwa [List.getLast?_cons_cons]

/-- A way that is lost with the change goes through the changed element. Together with a step from
its goal to its start it makes a cycle on which the goal and the changed element lie. -/
theorem exists_cycle_of_lost {changed : α} (hKept : ∀ a, a ≠ changed → ∀ c, r a c → r' a c)
    (hClose : r goal start) (way : Relation.ReflTransGen r start goal)
    (hLost : ¬Relation.ReflTransGen r' start goal) :
    ∃ cycle : Cycle α, cycle.Nodup ∧ cycle.Chain r ∧ goal ∈ cycle ∧ changed ∈ cycle := by
  obtain ⟨path, hChain, hNodup, hGoal⟩ := exists_simple_path way
  refine ⟨(start :: path : List α), Cycle.nodup_coe_iff.mpr hNodup, ?_, ?_, ?_⟩
  · rw [Cycle.chain_coe_cons, ← List.cons_append, List.isChain_append]
    refine ⟨hChain, List.isChain_singleton start, fun last hLast first hFirst => ?_⟩
    rw [hGoal, Option.mem_some_iff] at hLast
    rw [List.head?_cons, Option.mem_some_iff] at hFirst
    exact hLast ▸ hFirst ▸ hClose
  · exact Cycle.mem_coe_iff.mpr (List.mem_of_getLast? hGoal)
  · rw [Cycle.mem_coe_iff]
    by_contra hAvoids
    have hPath : (start :: path).IsChain r' :=
      hChain.imp_of_mem_imp fun a c hMem _ => hKept a (fun hEq => hAvoids (hEq ▸ hMem)) c
    refine hLost (List.relationReflTransGen_of_exists_isChain_cons path hPath ?_)
    rwa [List.getLast?_eq_getLast_of_ne_nil (List.cons_ne_nil start path),
      Option.some.injEq] at hGoal

end Paths

namespace Batch

variable {b b' : Batch} {oracle : TypeOracle} {config : Config} {d : Declaration} {layout : Layout}
  {m : IncludedMember} {name : QualifiedName}

/-- Two records lie on a common cycle of nested records, which meets no record twice. -/
def ShareCycle (b : Batch) (oracle : TypeOracle) (config : Config) (name other : QualifiedName) :
    Prop :=
  ∃ cycle : Cycle QualifiedName, cycle.Nodup ∧ cycle.Chain (b.Nests oracle config) ∧
    name ∈ cycle ∧ other ∈ cycle

/-- Two batches with the same names, and with the same records but for those called `name`. -/
structure AgreeOff (b b' : Batch) (name : QualifiedName) : Prop where
  names : b.names = b'.names
  records : ∀ d : Declaration, d.name ≠ name → (d ∈ b.records ↔ d ∈ b'.records)

namespace AgreeOff

theorem symm (h : AgreeOff b b' name) : AgreeOff b' b name where
  names := h.names.symm
  records := fun d hName => (h.records d hName).symm

theorem mem_names_iff (h : AgreeOff b b' name) (other : QualifiedName) :
    other ∈ b.names ↔ other ∈ b'.names := by
  rw [h.names]

/-- Only the changed record may nest other records than before. -/
theorem nests (h : AgreeOff b b' name) {other target : QualifiedName} (hOther : other ≠ name)
    (hNests : b.Nests oracle config other target) : b'.Nests oracle config other target := by
  obtain ⟨d, hMember, rfl, layout, hValid, m, hIncluded, hComposite, hTarget⟩ := hNests
  rw [validate_eq h.mem_names_iff] at hValid
  rw [resolve_eq h.mem_names_iff] at hTarget
  exact ⟨d, (h.records d hOther).mp hMember, rfl, layout, hValid, m, hIncluded, hComposite, hTarget⟩

/-- A record of which a member leads back to it in one of the batches only lies on a cycle with the
changed record. -/
theorem shareCycle_of_lost (h : AgreeOff b b' name) (hMember : d ∈ b.records)
    (hValid : b.validate oracle config d = .ok layout) (hIncluded : m ∈ layout.members)
    (hBack : b.LeadsBack oracle config d m) (hLost : ¬b'.LeadsBack oracle config d m) :
    b.ShareCycle oracle config d.name name := by
  obtain ⟨target, ⟨hComposite, hTarget⟩, way⟩ := hBack
  have hNests : b.Nests oracle config d.name target :=
    ⟨d, hMember, rfl, layout, hValid, m, hIncluded, hComposite, hTarget⟩
  refine exists_cycle_of_lost (fun other hOther target => h.nests hOther) hNests way fun way' => ?_
  rw [resolve_eq h.mem_names_iff] at hTarget
  exact hLost ⟨target, ⟨hComposite, hTarget⟩, way'⟩

/-- The verdict on a record is the same in both batches, unless cycles are looked for and the record
lies on one with the changed record. -/
theorem judge_eq_or_shareCycle (h : AgreeOff b b' name) (hMember : d ∈ b.records)
    (hMember' : d ∈ b'.records) (oracle : TypeOracle) (config : Config) :
    b.judge oracle config d = b'.judge oracle config d ∨
      config.cycles = .transitive ∧ (b.ShareCycle oracle config d.name name ∨
        b'.ShareCycle oracle config d.name name) := by
  have hValidate : b.validate oracle config d = b'.validate oracle config d :=
    validate_eq h.mem_names_iff d
  cases hCycles : config.cycles with
  | direct => exact .inl (by simp only [judge, hCycles, hValidate])
  | transitive =>
      cases hValid : b.validate oracle config d with
      | error problems =>
          refine .inl ?_
          simp only [judge, hCycles, ← hValidate, hValid]
          rfl
      | ok layout =>
          have hValid' : b'.validate oracle config d = .ok layout := hValidate ▸ hValid
          -- a verdict that differs is due to a member that leads back in one batch only
          by_cases hSame : ∀ m ∈ layout.members,
              b.LeadsBack oracle config d m ↔ b'.LeadsBack oracle config d m
          · have hFirst : b.firstBack? oracle config d layout =
                b'.firstBack? oracle config d layout :=
              List.find?_congr fun m hIncluded => decide_eq_decide.mpr (hSame m hIncluded)
            refine .inl ?_
            simp only [judge, hCycles, hValid, hValid', Except.bind, hFirst]
          · push Not at hSame
            obtain ⟨m, hIncluded, ⟨hBack, hLost⟩ | ⟨hLost, hBack⟩⟩ := hSame
            · exact .inr ⟨rfl, .inl (h.shareCycle_of_lost hMember hValid hIncluded hBack hLost)⟩
            · exact .inr ⟨rfl,
                .inr (h.symm.shareCycle_of_lost hMember' hValid' hIncluded hBack hLost)⟩

end AgreeOff

/-- One record of a batch has been replaced by another of the same name. -/
theorem agreeOff_of_replaced {before after : List Declaration} {x x' : Declaration}
    (hRecords : b.records = before ++ x :: after) (hRecords' : b'.records = before ++ x' :: after)
    (hName : x.name = x'.name) : AgreeOff b b' x.name where
  names := by simp [Batch.names, hRecords, hRecords', hName]
  records := by
    intro d hOther
    have hOld : d ≠ x := fun hEq => hOther (congrArg Declaration.name hEq)
    have hNew : d ≠ x' := fun hEq => hOther ((congrArg Declaration.name hEq).trans hName.symm)
    simp [hRecords, hRecords', hOld, hNew]

/-- The other records stand where they stood. -/
theorem getElem?_of_replaced {before after : List Declaration} {x x' : Declaration} {index : Nat}
    (hRecords : b.records = before ++ x :: after) (hRecords' : b'.records = before ++ x' :: after)
    (hOther : index ≠ before.length) : b'.records[index]? = b.records[index]? := by
  have hSet : b'.records = b.records.set before.length x' := by simp [hRecords, hRecords']
  rw [hSet, List.getElem?_set_ne hOther.symm]

end Batch

/-- In two batches that are the same but for one record, which keeps its name, no two records of one
name, every other record has the same outcome, unless cycles through other records are looked for
and in one of the batches the record lies on a cycle with the changed one. -/
theorem change_confined_to_shared_cycle {b b' : Batch} {before after : List Declaration}
    {x x' : Declaration} (hRecords : b.records = before ++ x :: after)
    (hRecords' : b'.records = before ++ x' :: after) (hName : x.name = x'.name)
    (hNames : b.names.Nodup) (oracle : TypeOracle) (config : Config) :
    (oracle.markResolved = false ∧ b.compile oracle config = .error .markUnresolved ∧
      b'.compile oracle config = .error .markUnresolved) ∨
    (oracle.markResolved = true ∧
      ∃ outcomes outcomes', b.compile oracle config = .ok outcomes ∧
        b'.compile oracle config = .ok outcomes' ∧ outcomes.length = b.records.length ∧
        outcomes'.length = b'.records.length ∧
        ∀ (index : Nat) (y : Declaration), index ≠ before.length → b.records[index]? = some y →
          b'.records[index]? = some y ∧
          (outcomes[index]? ≠ outcomes'[index]? → config.cycles = .transitive ∧
            (b.ShareCycle oracle config y.name x.name ∨
              b'.ShareCycle oracle config y.name x.name))) := by
  cases hMark : oracle.markResolved with
  | false => exact .inl ⟨rfl, by simp [Batch.compile, hMark], by simp [Batch.compile, hMark]⟩
  | true =>
      have hAgree := Batch.agreeOff_of_replaced hRecords hRecords' hName
      have hNames' : b'.names.Nodup := hAgree.names ▸ hNames
      refine .inr ⟨rfl, _, _, Batch.compile_eq hNames hMark, Batch.compile_eq hNames' hMark,
        by simp, by simp, fun index y hOther hIndex => ?_⟩
      have hIndex' : b'.records[index]? = some y :=
        (Batch.getElem?_of_replaced hRecords hRecords' hOther).trans hIndex
      refine ⟨hIndex', fun hDiffer => ?_⟩
      rcases hAgree.judge_eq_or_shareCycle (List.mem_of_getElem? hIndex)
        (List.mem_of_getElem? hIndex') oracle config with hJudge | hShared
      · exact absurd (by simp [hIndex, hIndex', Batch.outcome, hJudge]) hDiffer
      · exact hShared

namespace Sample

open Catalog

/-- An egg from which nothing hatches. -/
def boiledEgg : Declaration := record "Egg" [bare "age" "u8"]

def kitchen : Batch := ⟨[hen, boiledEgg, farm]⟩

theorem validate_hen_kitchen : kitchen.validate yardOracle {} hen = .ok henLayout := rfl

theorem validate_boiledEgg : kitchen.validate yardOracle {} boiledEgg = .ok ageLayout := rfl

/-- In the kitchen the hen nests the egg and no more. -/
theorem eq_of_hen_nests {name : QualifiedName} (h : kitchen.Nests yardOracle {} ["Hen"] name) :
    name = ["Egg"] := by
  obtain ⟨d, hMember, hName, layout, hValid, m, hIncluded, hComposite, hTarget⟩ := h
  have hNames : kitchen.names.Nodup := by decide
  obtain rfl : d = hen := Batch.eq_of_name hNames hMember List.mem_cons_self hName
  cases validate_hen_kitchen.symm.trans hValid
  rcases List.mem_pair.mp hIncluded with rfl | rfl
  · cases hComposite
  · cases hTarget
    rfl

theorem not_egg_nests (name : QualifiedName) : ¬kitchen.Nests yardOracle {} ["Egg"] name := by
  rintro ⟨d, hMember, hName, layout, hValid, m, hIncluded, hComposite, _⟩
  have hNames : kitchen.names.Nodup := by decide
  obtain rfl : d = boiledEgg := Batch.eq_of_name hNames hMember (by simp [kitchen]) hName
  cases validate_boiledEgg.symm.trans hValid
  cases List.mem_singleton.mp hIncluded
  cases hComposite

/-- A cycle of the hen would have to go on from the egg. -/
theorem not_hen_onCycle_kitchen : ¬kitchen.OnCycle yardOracle {} ["Hen"] := by
  intro hCycle
  obtain ⟨next, hFirst, hRest⟩ := Relation.TransGen.head'_iff.mp hCycle
  obtain rfl := eq_of_hen_nests hFirst
  rcases Relation.ReflTransGen.cases_head hRest with hSame | ⟨name, hNests, _⟩
  · exact absurd hSame (by decide)
  · exact not_egg_nests name hNests

end Sample

/-- Once the egg is boiled the hen is accepted. It has lain on a cycle with the egg. -/
theorem change_confined_to_shared_cycle_kitchen :
    ∃ outcomes outcomes', Sample.yard.compile Sample.yardOracle {} = .ok outcomes ∧
      Sample.kitchen.compile Sample.yardOracle {} = .ok outcomes' ∧ outcomes[0]? ≠ outcomes'[0]? ∧
      (Sample.yard.ShareCycle Sample.yardOracle {} ["Hen"] ["Egg"] ∨
        Sample.kitchen.ShareCycle Sample.yardOracle {} ["Hen"] ["Egg"]) := by
  have hNames : Sample.yard.names.Nodup := by decide
  have hRecords : Sample.yard.records = [Sample.hen] ++ Sample.egg :: [Sample.farm] := rfl
  have hRecords' : Sample.kitchen.records = [Sample.hen] ++ Sample.boiledEgg :: [Sample.farm] := rfl
  have hName : Sample.egg.name = Sample.boiledEgg.name := rfl
  rcases change_confined_to_shared_cycle hRecords hRecords' hName hNames Sample.yardOracle {} with
    ⟨hMark, _⟩ | ⟨_, outcomes, outcomes', hCompile, hCompile', _, _, hEach⟩
  · cases hMark
  · have hNames' : Sample.kitchen.names.Nodup := by decide
    have hRejected : outcomes[0]? = some (Sample.yard.outcome Sample.yardOracle {} Sample.hen 0) := by
      cases hCompile.symm.trans (Batch.compile_eq hNames rfl)
      rfl
    have hAccepted :
        outcomes'[0]? = some (Sample.kitchen.outcome Sample.yardOracle {} Sample.hen 0) := by
      cases hCompile'.symm.trans (Batch.compile_eq hNames' rfl)
      rfl
    have hDiffer : outcomes[0]? ≠ outcomes'[0]? := by
      intro hSame
      rw [hRejected, hAccepted, Option.some.injEq] at hSame
      have hResult := congrArg RecordOutcome.result hSame
      rcases Batch.result_of_valid hNames' rfl List.mem_cons_self Sample.validate_hen_kitchen 0 with
        ⟨hCycle, _⟩ | ⟨_, hEmitted⟩
      · exact Sample.not_hen_onCycle_kitchen hCycle
      · rw [Sample.result_hen, hEmitted] at hResult
        cases hResult
    obtain ⟨_, hShared⟩ := hEach 0 Sample.hen (by decide) rfl
    exact ⟨outcomes, outcomes', hCompile, hCompile', hDiffer, (hShared hDiffer).2⟩

end WireRecord
