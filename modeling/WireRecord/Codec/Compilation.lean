import WireRecord.Codec.Procedures
import WireRecord.Schema.Validation
import WireRecord.Schema.Scope
import WireRecord.Schema.Reachability

/-!
Compilation of one record, and of a batch of records that may nest each other. In a batch every
record counts as marked for the others, and a record that contains itself through others can be
rejected.
-/

namespace WireRecord

/-- Validates a record and emits its codec. Only a member of the record's own type is recognised as
recursion. -/
def Declaration.compile (d : Declaration) (oracle : TypeOracle) (config : Config) :
    Except (List (Diagnostic Location)) Codec :=
  (d.validate oracle config).map d.emit

/-- A place in a batch: the index of a record, and a place in its declaration. -/
structure BatchLocation where
  record : Nat
  location : Location
  deriving DecidableEq, Repr

inductive BatchError where
  /-- The mark of a record cannot be resolved, so no record can be trusted. -/
  | markUnresolved
  deriving DecidableEq, Repr

def BatchError.message : BatchError → String
  | markUnresolved => "the BinaryStructurable marker could not be resolved"

/-- What became of a record of a batch. -/
structure RecordOutcome where
  descriptor : Descriptor
  result : Except (List (Diagnostic BatchLocation)) Codec

structure Batch where
  records : List Declaration

namespace Batch

/-- A nested member that names a record of the batch: which one, and where the member is. -/
structure Edge where
  target : QualifiedName
  place : BatchLocation

abbrev Verdict := Except (List (Diagnostic BatchLocation)) Layout

def names (b : Batch) : List QualifiedName := b.records.map Declaration.name

/-- What is known about types inside the record called `scope`. -/
def oracleFor (b : Batch) (oracle : TypeOracle) (scope : QualifiedName) : TypeOracle :=
  { oracle with
    isMarked := fun type => (resolve type scope b.names).isSome || oracle.isMarked type }

def verdicts (b : Batch) (oracle : TypeOracle) (config : Config) : List Verdict :=
  b.records.zipIdx.map fun (d, index) =>
    (d.validate (b.oracleFor oracle d.name) config).mapError fun problems =>
      problems.map (Diagnostic.relocate (BatchLocation.mk index))

/-- The nested members of a record that name records of the batch, in order. -/
def edges (b : Batch) (d : Declaration) (index : Nat) (layout : Layout) : List Edge :=
  (layout.members.filter fun m => m.classification.isComposite).filterMap fun m =>
    (resolve m.type d.name b.names).map fun target => ⟨target, ⟨index, .member m.index⟩⟩

/-- The edges of the validated records by name. Of records that share a name the last one counts,
so later entries stand first. -/
def entries (b : Batch) (verdicts : List Verdict) : List (QualifiedName × List Edge) :=
  ((b.records.zipIdx.zip verdicts).filterMap fun ((d, index), verdict) =>
    match verdict with
    | .ok layout => some (d.name, b.edges d index layout)
    | .error _ => none).reverse

end Batch

structure CompositeGraph where
  entries : List (QualifiedName × List Batch.Edge)

namespace CompositeGraph

/-- The graph without the places of its edges. -/
def graph (g : CompositeGraph) : Graph QualifiedName :=
  ⟨g.entries.map fun (name, edges) => (name, edges.map Batch.Edge.target)⟩

/-- The place of the first member of the record called `name` from which a way leads back to it. -/
def cycleThrough? (g : CompositeGraph) (name : QualifiedName) : Option BatchLocation := do
  let edges ← g.entries.lookup name
  let edge ← edges.find? fun edge => g.graph.reaches edge.target name
  return edge.place

end CompositeGraph

namespace Batch

/-- Rejects a validated record that lies on a cycle. -/
def rejectCycle (graph : CompositeGraph) (d : Declaration) (verdict : Verdict) : Verdict :=
  match verdict with
  | .error problems => .error problems
  | .ok layout =>
    match graph.cycleThrough? d.name with
    | some place => .error [⟨.recursive d.name.text, place⟩]
    | none => .ok layout

/-- The verdicts after the search for cycles, if the configuration asks for one. -/
def finalVerdicts (b : Batch) (oracle : TypeOracle) (config : Config) : List Verdict :=
  let verdicts := b.verdicts oracle config
  match config.cycles with
  | .direct => verdicts
  | .transitive => List.zipWith (rejectCycle ⟨b.entries verdicts⟩) b.records verdicts

/-- Compiles the records of a batch; the outcomes are in the order of the records. -/
def compile (b : Batch) (oracle : TypeOracle) (config : Config) :
    Except BatchError (List RecordOutcome) :=
  if oracle.markResolved then
    .ok (List.zipWith (fun d verdict => ⟨d.descriptor, verdict.map d.emit⟩) b.records
      (b.finalVerdicts oracle config))
  else .error .markUnresolved

end Batch

end WireRecord
