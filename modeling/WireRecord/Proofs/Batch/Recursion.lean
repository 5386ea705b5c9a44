import WireRecord.Proofs.Batch.Verdict
import WireRecord.Proofs.Schema.Spelling

/-!
Records that name themselves. Validation knows a record by the spelling of a type alone, the batch
by its name in scope. The two agree on `Self`, the bare name and the name after `self`. Under any
other spelling that leads to the record validation does not see that a member is the record itself;
it is a cycle of the batch, and is missed where cycles are not looked for.
-/

namespace WireRecord

namespace Member

variable {m : Member} {d : Descriptor} {oracle : TypeOracle}

/-- A member that passes its checks is laid out under the classification that they have found. -/
theorem classification_of_check {options : List MarkerOption} {index : Nat}
    {included : IncludedMember} (h : m.check d oracle options index = .ok included) :
    included.classification = m.classify d oracle := by
  simp only [check] at h
  split at h
  · cases h
  · cases hOrder : MarkerOption.byteOrder d.qualifiedName.text index .little 0 options with
    | error problem =>
        rw [hOrder] at h
        cases h
    | ok order =>
        rw [hOrder] at h
        cases h
        rfl

/-- A nested member has nothing wrong with its type but that the type may be the record's own. -/
theorem typeFaults_of_isComposite (hComposite : (m.classify d oracle).isComposite) :
    m.typeFaults d oracle =
      if d.isOwnType m.type then [.recursive d.qualifiedName.text] else [] := by
  rw [isComposite_classify] at hComposite
  have hUser : m.type.kind = .userDefined := by
    simp only [isRecord, Bool.and_eq_true, beq_iff_eq] at hComposite
    exact hComposite.1
  simp [typeFaults, hComposite, hUser, Kind.isNativeWidth]

end Member

namespace Declaration

variable {d : Declaration} {oracle : TypeOracle} {config : Config} {layout : Layout} {m : Member}

/-- A marked member of an accepted record is encoded, and has no fault. -/
theorem exists_included (hValid : d.validate oracle config = .ok layout) (hMember : m ∈ d.members)
    (hMarked : m.isIncluded) :
    ∃ included ∈ layout.members, included.type = m.type ∧
      included.classification = m.classify d.descriptor oracle ∧
      m.typeFaults d.descriptor oracle = [] := by
  obtain ⟨options, hMarker⟩ := Option.isSome_iff_exists.mp hMarked
  obtain ⟨index, hIndex⟩ := List.getElem?_of_mem hMember
  have hFound : (m, index) ∈ d.members.zipIdx := List.mk_mem_zipIdx_iff_getElem?.mpr hIndex
  have hCheck : m.check d.descriptor oracle options index ∈ d.checks oracle :=
    List.mem_filterMap.mpr ⟨(m, index), hFound, by simp [hMarker]⟩
  obtain ⟨included, hOk⟩ := check_of_validate hValid hCheck
  refine ⟨included, ?_, (m.of_check_eq_ok hOk).2.2.1, m.classification_of_check hOk, ?_⟩
  · rw [(layout_of_validate hValid).2]
    exact List.mem_filterMap.mpr ⟨_, hCheck, by rw [hOk]; rfl⟩
  · have hFaults := m.problem?_check hMarker d.descriptor oracle index
    rw [hOk] at hFaults
    have hNone := List.head?_eq_none_iff.mp hFaults.symm
    simp only [Member.faults, hMarker, List.append_eq_nil_iff, List.map_eq_nil_iff] at hNone
    exact hNone.1.2

end Declaration

namespace Batch

variable {b : Batch} {oracle : TypeOracle} {config : Config} {d : Declaration} {layout : Layout}
  {m : Member} {index : Nat}

/-- A marked member of a record nests, by the scopes of the batch, the record itself. -/
structure NestsItself (b : Batch) (oracle : TypeOracle) (d : Declaration) (m : Member) : Prop where
  mem : m ∈ d.members
  isIncluded : m.isIncluded
  isComposite : (m.classify d.descriptor (b.oracleFor oracle d.name)).isComposite
  resolve_eq : resolve m.type d.name b.names = some d.name

namespace NestsItself

/-- A valid record that nests itself is on a cycle. -/
theorem onCycle (h : b.NestsItself oracle d m) (hRecord : d ∈ b.records)
    (hValid : b.validate oracle config d = .ok layout) : b.OnCycle oracle config d.name := by
  obtain ⟨included, hIncluded, hType, hClassified, _⟩ :=
    Declaration.exists_included hValid h.mem h.isIncluded
  apply Relation.TransGen.single
  refine ⟨d, hRecord, rfl, layout, hValid, included, hIncluded, ?_, ?_⟩
  · rw [hClassified]
    exact h.isComposite
  · rw [hType]
    exact h.resolve_eq

/-- A record that nests itself under a name of its own is not valid. -/
theorem exists_problems (h : b.NestsItself oracle d m) (hOwn : m.type.SpellsOwn d.descriptor.name)
    (config : Config) :
    ∃ problems, b.validate oracle config d = .error problems := by
  cases hValid : b.validate oracle config d with
  | error problems => exact ⟨problems, rfl⟩
  | ok layout =>
      obtain ⟨_, _, _, _, hNone⟩ := Declaration.exists_included hValid h.mem h.isIncluded
      rw [Member.typeFaults_of_isComposite h.isComposite,
        if_pos ((Descriptor.isOwnType_iff d.descriptor m.type).mpr hOwn)] at hNone
      cases hNone

/-- Under any other name validation finds nothing wrong with the member's type. -/
theorem typeFaults_eq_nil (h : b.NestsItself oracle d m)
    (hOther : ¬m.type.SpellsOwn d.descriptor.name) :
    m.typeFaults d.descriptor (b.oracleFor oracle d.name) = [] := by
  rw [Member.typeFaults_of_isComposite h.isComposite, if_neg]
  rwa [Descriptor.isOwnType_iff]

end NestsItself

end Batch

/-- A record of a batch that nests itself is rejected where cycles through other records are looked
for. Where they are not, it is rejected if it spells itself as `Self`, by its name, or by its name
after `self`; under any other spelling nothing is wrong with the type of the member, and the record
keeps the verdict of its validation. -/
theorem direct_recursion_by_spelling {b : Batch} (hNames : b.names.Nodup) {oracle : TypeOracle}
    (hMark : oracle.markResolved) (config : Config) {index : Nat} {d : Declaration}
    (hIndex : b.records[index]? = some d) {m : Member} (hItself : b.NestsItself oracle d m) :
    ∃ outcomes outcome, b.compile oracle config = .ok outcomes ∧ outcomes[index]? = some outcome ∧
      (config.cycles = .transitive → ∃ problems, outcome.result = .error problems) ∧
      (config.cycles = .direct → m.type.SpellsOwn d.descriptor.name →
        ∃ problems, outcome.result = .error problems) ∧
      (config.cycles = .direct → ¬m.type.SpellsOwn d.descriptor.name →
        m.typeFaults d.descriptor (b.oracleFor oracle d.name) = [] ∧
          outcome.result = Batch.placed index ((b.validate oracle config d).map d.emit)) := by
  have hRecord : d ∈ b.records := List.mem_of_getElem? hIndex
  refine ⟨_, b.outcome oracle config d index, Batch.compile_eq hNames hMark, by simp [hIndex],
    ?_, ?_, ?_⟩
  · intro hCycles
    cases hValid : b.validate oracle config d with
    | error problems => exact ⟨_, Batch.result_of_invalid hValid index⟩
    | ok layout =>
        rcases Batch.result_of_valid hNames hCycles hRecord hValid index with
          ⟨_, m, _, hRejected⟩ | ⟨hFree, _⟩
        · exact ⟨_, hRejected⟩
        · exact absurd (hItself.onCycle hRecord hValid) hFree
  · intro _ hOwn
    obtain ⟨problems, hInvalid⟩ := hItself.exists_problems hOwn config
    exact ⟨_, Batch.result_of_invalid hInvalid index⟩
  -- Under direct detection the graph is not searched, and the checks know the spelling only.
  · intro hCycles hOther
    refine ⟨hItself.typeFaults_eq_nil hOther, ?_⟩
    rw [Batch.outcome, Batch.judge, hCycles]

namespace Sample

open Catalog

def directly : Config := { cycles := .direct }

def nextLeaf : Member := plain (.named "next") (.path (Path.ofNames ["self", "Leaf"]))

def leaf : Declaration where
  descriptor := { name := "Leaf", parents := [⟨"Tree", true⟩] }
  members := [bare "age" "u8", nextLeaf]

def tree : Batch := ⟨[egg, leaf, hen]⟩

theorem leaf_nestsItself : tree.NestsItself yardOracle leaf nextLeaf where
  mem := List.mem_cons_of_mem _ List.mem_cons_self
  isIncluded := rfl
  isComposite := rfl
  resolve_eq := rfl

def nextNode : Member := plain (.named "next") (.path (Path.ofNames ["crate", "Node"]))

def node : Declaration := record "Node" [nextNode]

def ring : Batch := ⟨[node]⟩

theorem node_nestsItself : ring.NestsItself yardOracle node nextNode where
  mem := List.mem_cons_self
  isIncluded := rfl
  isComposite := rfl
  resolve_eq := rfl

end Sample

/-- The leaf spells itself `self::Leaf` and is rejected, though nothing but its own type is looked
for. -/
theorem direct_recursion_by_spelling_leaf :
    Sample.tree.names.Nodup ∧ Sample.nextLeaf.type.SpellsOwn "Leaf" ∧
      ∃ outcomes outcome, Sample.tree.compile Sample.yardOracle Sample.directly = .ok outcomes ∧
        outcomes[1]? = some outcome ∧ ∃ problems, outcome.result = .error problems := by
  have hNames : Sample.tree.names.Nodup := by decide
  have hIndex : Sample.tree.records[1]? = some Sample.leaf := rfl
  have hOwn : Sample.nextLeaf.type.SpellsOwn "Leaf" := .inr (.inr ⟨_, rfl, rfl, rfl⟩)
  obtain ⟨outcomes, outcome, hCompile, hOutcome, _, hDirect, _⟩ :=
    direct_recursion_by_spelling hNames rfl Sample.directly hIndex Sample.leaf_nestsItself
  exact ⟨hNames, hOwn, outcomes, outcome, hCompile, hOutcome, hDirect rfl hOwn⟩

/-- The node spells itself `crate::Node`. Where nothing but its own type is looked for it is
accepted, though it is its own type. -/
theorem direct_recursion_unseen_ring :
    Sample.ring.names.Nodup ∧ Sample.yardOracle.markResolved = true ∧
      Sample.ring.records[0]? = some Sample.node ∧
      Sample.ring.NestsItself Sample.yardOracle Sample.node Sample.nextNode ∧
      ∃ codec, Sample.ring.compile Sample.yardOracle Sample.directly =
        .ok [⟨Sample.node.descriptor, .ok codec⟩] := by
  refine ⟨by decide, rfl, rfl, Sample.node_nestsItself, ?_⟩
  exact ⟨Sample.node.emit ⟨[⟨⟨.userDefined, "crate::Node", true, true⟩, .named "next",
    Sample.nextNode.type, .little, 0⟩]⟩, rfl⟩

end WireRecord
