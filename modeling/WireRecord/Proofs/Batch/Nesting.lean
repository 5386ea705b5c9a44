import WireRecord.Codec.Compilation
import WireRecord.Proofs.Schema.Acceptance
import WireRecord.Proofs.Schema.Search

/-!
Which records of a batch nest each other. The relation is read off the layouts that the records are
accepted with before cycles are looked for, and does not mention the graph in which they are looked
for. If no two records share a name, that graph has the relation for its edges, and the search for a
cycle through a record finds the first member from which the relation leads back to it.
-/

namespace WireRecord

/-- In a graph that has one entry for a node, the edges are those of its entries. -/
theorem Graph.edge_iff {α : Type} [DecidableEq α] {g : Graph α}
    (hNodup : (g.entries.map Prod.fst).Nodup) {node next : α} :
    g.Edge node next ↔ ∃ targets, (node, targets) ∈ g.entries ∧ next ∈ targets := by
  constructor
  · intro hEdge
    cases hEntry : g.entries.lookup node with
    | none => simp [Edge, successors, hEntry] at hEdge
    | some targets =>
        obtain ⟨before, after, hEntries, _⟩ := List.lookup_eq_some_iff.mp hEntry
        refine ⟨targets, ?_, by simpa [Edge, successors, hEntry] using hEdge⟩
        rw [hEntries]
        exact List.mem_append_right _ List.mem_cons_self
  · rintro ⟨targets, hEntry, hTarget⟩
    simpa [Edge, successors, lookup_of_mem hNodup hEntry] using hTarget

namespace Batch

variable {b : Batch} {oracle : TypeOracle} {config : Config} {d : Declaration} {layout : Layout}
  {m : IncludedMember} {index : Nat}

/-- The layout of a record, validated as a part of the batch, or what is wrong with the record. -/
def validate (b : Batch) (oracle : TypeOracle) (config : Config) (d : Declaration) :
    Except (List (Diagnostic Location)) Layout :=
  d.validate (b.oracleFor oracle d.name) config

/-- A member of a record nests the record of the batch that is called `target`. -/
def PointsAt (b : Batch) (d : Declaration) (m : IncludedMember) (target : QualifiedName) : Prop :=
  m.classification.isComposite ∧ resolve m.type d.name b.names = some target

/-- A valid record of one name has a member that nests the record of the other. -/
def Nests (b : Batch) (oracle : TypeOracle) (config : Config) (name target : QualifiedName) :
    Prop :=
  ∃ d ∈ b.records, d.name = name ∧ ∃ layout, b.validate oracle config d = .ok layout ∧
    ∃ m ∈ layout.members, b.PointsAt d m target

/-- A way along nested records leads from a member of a record back to the record. -/
def LeadsBack (b : Batch) (oracle : TypeOracle) (config : Config) (d : Declaration)
    (m : IncludedMember) : Prop :=
  ∃ target, b.PointsAt d m target ∧ Relation.ReflTransGen (b.Nests oracle config) target d.name

/-- The record of a name contains itself, perhaps through others. -/
def OnCycle (b : Batch) (oracle : TypeOracle) (config : Config) (name : QualifiedName) : Prop :=
  Relation.TransGen (b.Nests oracle config) name name

/-- Records of one name are the same record. -/
theorem eq_of_name (hNames : b.names.Nodup) {d' : Declaration} (hMember : d ∈ b.records)
    (hMember' : d' ∈ b.records) (hName : d.name = d'.name) : d = d' :=
  List.inj_on_of_nodup_map hNames hMember hMember' hName

/-- A valid record is on a cycle exactly if one of its members leads back to it. -/
theorem onCycle_iff (hNames : b.names.Nodup) (hMember : d ∈ b.records)
    (hValid : b.validate oracle config d = .ok layout) :
    b.OnCycle oracle config d.name ↔ ∃ m ∈ layout.members, b.LeadsBack oracle config d m := by
  rw [OnCycle, Relation.TransGen.head'_iff]
  constructor
  · rintro ⟨target, ⟨d', hMember', hName, layout', hValid', m, hIncluded, hPoints⟩, hBack⟩
    obtain rfl := eq_of_name hNames hMember hMember' hName.symm
    rw [hValid, Except.ok.injEq] at hValid'
    subst hValid'
    exact ⟨m, hIncluded, target, hPoints, hBack⟩
  · rintro ⟨m, hIncluded, target, hPoints, hBack⟩
    exact ⟨target, ⟨d, hMember, rfl, layout, hValid, m, hIncluded, hPoints⟩, hBack⟩

/-- The entry of a record in the graph, if the record is valid. -/
def listed? (b : Batch) (oracle : TypeOracle) (config : Config) (d : Declaration) (index : Nat) :
    Option (QualifiedName × List Edge) :=
  (b.validate oracle config d).toOption.map fun layout => (d.name, b.edges d index layout)

/-- A record is entered into the graph exactly if it is valid, with its edges under its name. -/
theorem listed?_eq_some_iff {entry : QualifiedName × List Edge} :
    b.listed? oracle config d index = some entry ↔
      ∃ layout, b.validate oracle config d = .ok layout ∧
        entry = (d.name, b.edges d index layout) := by
  rw [listed?]
  cases b.validate oracle config d with
  | error problems => simp [Except.toOption]
  | ok layout => simp [Except.toOption, eq_comm]

/-- The entries of the graph, read off the records without their verdicts. -/
theorem entries_eq (b : Batch) (oracle : TypeOracle) (config : Config) :
    b.entries (b.verdicts oracle config) =
      (b.records.zipIdx.filterMap fun (d, index) => b.listed? oracle config d index).reverse := by
  rw [entries, verdicts, List.zip, List.zipWith_map_right, List.zipWith_self, List.filterMap_map]
  congr 2
  funext ⟨d, index⟩
  simp only [Function.comp_apply, listed?, validate]
  cases d.validate (b.oracleFor oracle d.name) config <;> rfl

/-- The composite graph of a batch. -/
def compositeGraph (b : Batch) (oracle : TypeOracle) (config : Config) : CompositeGraph :=
  ⟨b.entries (b.verdicts oracle config)⟩

/-- Without two records of one name there are no two entries of one name, so that no record loses
its edges to another. -/
theorem nodup_entries (hNames : b.names.Nodup) (oracle : TypeOracle) (config : Config) :
    ((b.compositeGraph oracle config).entries.map Prod.fst).Nodup := by
  have hSublist := filterMap_map_sublist (fun p => b.listed? oracle config p.1 p.2) Prod.fst
    (fun p => p.1.name)
    (fun p entry hEntry => by
      obtain ⟨layout, _, rfl⟩ := listed?_eq_some_iff.mp hEntry
      rfl) b.records.zipIdx
  have hAll : b.records.zipIdx.map (fun p => p.1.name) = b.names := by
    conv_rhs => rw [names, ← List.zipIdx_map_fst 0 b.records, List.map_map]
    rfl
  rw [compositeGraph, entries_eq, List.map_reverse, List.nodup_reverse]
  exact hSublist.nodup (hAll ▸ hNames)

/-- The entries are those of the valid records, whatever their order. -/
theorem mem_entries_iff {entry : QualifiedName × List Edge} :
    entry ∈ (b.compositeGraph oracle config).entries ↔
      ∃ d index layout, (d, index) ∈ b.records.zipIdx ∧ b.validate oracle config d = .ok layout ∧
        entry = (d.name, b.edges d index layout) := by
  rw [compositeGraph, entries_eq, List.mem_reverse, List.mem_filterMap]
  simp only [listed?_eq_some_iff, Prod.exists]
  constructor
  · rintro ⟨d, index, hMember, layout, hEntry⟩
    exact ⟨d, index, layout, hMember, hEntry⟩
  · rintro ⟨d, index, layout, hMember, hEntry⟩
    exact ⟨d, index, hMember, layout, hEntry⟩

/-- The edges of a layout are its members that nest records of the batch. -/
theorem exists_edge_iff {target : QualifiedName} :
    (∃ edge ∈ b.edges d index layout, edge.target = target) ↔
      ∃ m ∈ layout.members, b.PointsAt d m target := by
  simp only [edges, PointsAt, List.mem_filterMap, List.mem_filter, Option.map_eq_some_iff]
  constructor
  · rintro ⟨edge, ⟨m, ⟨hMember, hComposite⟩, _, hTarget, rfl⟩, rfl⟩
    exact ⟨m, hMember, hComposite, hTarget⟩
  · rintro ⟨m, hMember, hComposite, hTarget⟩
    exact ⟨_, ⟨m, ⟨hMember, hComposite⟩, _, hTarget, rfl⟩, rfl⟩

/-- The edges of the graph are the nestings of the batch. -/
theorem graph_edge_iff (hNames : b.names.Nodup) {name target : QualifiedName} :
    (b.compositeGraph oracle config).graph.Edge name target ↔
      b.Nests oracle config name target := by
  have hNodup : ((b.compositeGraph oracle config).graph.entries.map Prod.fst).Nodup := by
    rw [CompositeGraph.graph, List.map_map]
    exact nodup_entries hNames oracle config
  rw [Graph.edge_iff hNodup]
  constructor
  · rintro ⟨targets, hEntry, hTarget⟩
    obtain ⟨entry, hEntry, hEq⟩ := List.mem_map.mp hEntry
    obtain ⟨d, index, layout, hMember, hValid, rfl⟩ := mem_entries_iff.mp hEntry
    obtain ⟨rfl, rfl⟩ := Prod.mk.inj hEq
    refine ⟨d, List.fst_mem_of_mem_zipIdx hMember, rfl, layout, hValid, ?_⟩
    exact exists_edge_iff.mp (List.mem_map.mp hTarget)
  · rintro ⟨d, hMember, rfl, layout, hValid, hPoints⟩
    obtain ⟨index, hIndex⟩ := List.getElem?_of_mem hMember
    have hEntry := mem_entries_iff.mpr
      ⟨d, index, layout, List.mk_mem_zipIdx_iff_getElem?.mpr hIndex, hValid, rfl⟩
    exact ⟨_, List.mem_map.mpr ⟨_, hEntry, rfl⟩, List.mem_map.mpr (exists_edge_iff.mpr hPoints)⟩

/-- The search in the graph decides which records can be reached by nesting. -/
theorem reaches_iff (hNames : b.names.Nodup) {name goal : QualifiedName} :
    (b.compositeGraph oracle config).graph.reaches name goal = true ↔
      Relation.ReflTransGen (b.Nests oracle config) name goal := by
  have hEdge : (b.compositeGraph oracle config).graph.Edge = b.Nests oracle config := by
    funext x y
    exact propext (graph_edge_iff hNames)
  rw [Graph.reaches_eq_true_iff, hEdge]

open Classical in
/-- The first member of a layout that leads back to the record. -/
noncomputable def firstBack? (b : Batch) (oracle : TypeOracle) (config : Config) (d : Declaration)
    (layout : Layout) : Option IncludedMember :=
  layout.members.find? fun m => decide (b.LeadsBack oracle config d m)

/-- What leads back to a record by the nesting of records is what the search finds in the graph. -/
theorem leadsBack_iff (hNames : b.names.Nodup) :
    b.LeadsBack oracle config d m ↔ m.classification.isComposite ∧
      ((resolve m.type d.name b.names).any fun target =>
        (b.compositeGraph oracle config).graph.reaches target d.name) := by
  simp only [Option.any_eq_true, reaches_iff hNames]
  constructor
  · rintro ⟨target, ⟨hComposite, hTarget⟩, hBack⟩
    exact ⟨hComposite, target, hTarget, hBack⟩
  · rintro ⟨hComposite, target, hTarget, hBack⟩
    exact ⟨target, ⟨hComposite, hTarget⟩, hBack⟩

/-- The search for a cycle through a valid record finds its first member that leads back. -/
theorem cycleThrough?_eq (hNames : b.names.Nodup) (hMember : (d, index) ∈ b.records.zipIdx)
    (hValid : b.validate oracle config d = .ok layout) :
    (b.compositeGraph oracle config).cycleThrough? d.name =
      (b.firstBack? oracle config d layout).map fun m => ⟨index, .member m.index⟩ := by
  classical
  have hEntry := lookup_of_mem (nodup_entries hNames oracle config)
    (mem_entries_iff.mpr ⟨d, index, layout, hMember, hValid, rfl⟩)
  have hBack : (fun m : IncludedMember => decide (m.classification.isComposite ∧
      ((resolve m.type d.name b.names).any fun target =>
        (b.compositeGraph oracle config).graph.reaches target d.name))) =
      fun m => decide (b.LeadsBack oracle config d m) := by
    funext m
    exact decide_eq_decide.mpr (leadsBack_iff hNames).symm
  rw [CompositeGraph.cycleThrough?, hEntry]
  simp only [edges, Option.bind_eq_bind, Option.bind_some, List.find?_filterMap,
    List.find?_filter, Option.any_map, hBack, firstBack?]
  cases hFirst : layout.members.find? fun m => decide (b.LeadsBack oracle config d m) with
  | none => rfl
  | some m =>
      have hLeads := List.find?_some hFirst
      rw [decide_eq_true_eq] at hLeads
      obtain ⟨target, ⟨_, hTarget⟩, _⟩ := hLeads
      simp [hTarget]

end Batch

end WireRecord
