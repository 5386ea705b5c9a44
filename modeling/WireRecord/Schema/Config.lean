import WireRecord.TypeExpr

/-!
What can be configured about the compilation of records.
-/

namespace WireRecord

/-- How far the search for recursion looks. -/
inductive CycleDetection where
  /-- Only a member of the record's own type counts. -/
  | direct
  /-- A way back through other records of the batch counts too. -/
  | transitive
  deriving DecidableEq, Repr

structure Config where
  /-- The path through which emitted code reaches the supporting library. -/
  runtime : Path := { leading := true, segments := [{ name := "binstruct" }] }
  cycles : CycleDetection := .transitive
  /-- The most diagnostics reported for one record; zero means all. -/
  errorLimit : Nat := 0

/-- Whether a configuration says nothing but what holds without one. Paths are compared as they are
written. -/
def Config.isDefault (c : Config) : Bool :=
  c.runtime.tokens.text == ({} : Config).runtime.tokens.text && c.cycles = .transitive &&
    c.errorLimit = 0

/-- The first diagnostics of a list, as many as are to be reported. -/
def Config.limit {α : Type} (c : Config) (diagnostics : List α) : List α :=
  if c.errorLimit = 0 then diagnostics else diagnostics.take c.errorLimit

end WireRecord
