/-!
Search in a finite graph given by its adjacency lists. `search` visits every node at most once, so
it ends on every graph, with whatever loops.
-/

namespace WireRecord

/-- A graph: the successors of each node that has an entry. The first entry of a node counts. -/
structure Graph (α : Type) where
  entries : List (α × List α)

namespace Graph

variable {α : Type} [DecidableEq α]

def successors (g : Graph α) (node : α) : List α := (g.entries.lookup node).getD []

/-- The number of entries of nodes that have not been visited. -/
def unvisited (entries : List (α × List α)) (visited : List α) : Nat :=
  entries.countP fun entry => !visited.contains entry.1

/-- Further visits never make an entry unvisited. -/
theorem unvisited_le_of_subset (entries : List (α × List α)) {fewer visited : List α}
    (hSub : fewer ⊆ visited) : unvisited entries visited ≤ unvisited entries fewer := by
  unfold unvisited
  apply List.countP_mono_left
  intro entry _ hNew
  simp only [Bool.not_eq_true', List.contains_eq_mem, decide_eq_false_iff_not] at hNew ⊢
  exact fun hMem => hNew (hSub hMem)

/-- The first visit to a node that has an entry leaves fewer unvisited ones. -/
theorem unvisited_cons_lt {entries : List (α × List α)} {node : α}
    {visited : List α} (hNew : visited.contains node = false)
    (hEntry : (entries.lookup node).isSome) :
    unvisited entries (node :: visited) < unvisited entries visited := by
  induction entries with
  | nil => simp at hEntry
  | cons entry entries ih =>
    obtain ⟨key, targets⟩ := entry
    by_cases hKey : node = key
    · subst hKey
      have hRest := unvisited_le_of_subset entries (List.subset_cons_self node visited)
      unfold unvisited at hRest ⊢
      have hHead : (node :: visited).contains node = true := by simp
      rw [List.countP_cons, List.countP_cons]
      simp only [hHead, hNew, Bool.not_true, Bool.not_false, Bool.false_eq_true, if_false, if_true]
      omega
    · have hNe : (node == key) = false := by simpa using hKey
      have hRest := ih (by simpa only [List.lookup_cons, hNe] using hEntry)
      have hHead : (key == node) = false := by simpa using fun h => hKey h.symm
      unfold unvisited at hRest ⊢
      rw [List.countP_cons, List.countP_cons]
      simp only [List.contains_cons, hHead, Bool.false_or] at hRest ⊢
      omega

/-- Whether `goal` is met when the nodes of `pending` are searched in order, each together with what
follows from it, and none of `visited` again. -/
def search (g : Graph α) (goal : α) (pending visited : List α) : Bool :=
  match pending with
  | [] => false
  | node :: rest =>
    if node == goal then true
    else if _hSeen : visited.contains node then g.search goal rest visited
    else match _hEntry : g.entries.lookup node with
      | none => g.search goal rest visited
      | some targets => g.search goal (targets ++ rest) (node :: visited)
termination_by (unvisited g.entries visited, pending.length)
decreasing_by
  · exact Prod.Lex.right _ (by simp)
  · exact Prod.Lex.right _ (by simp)
  · exact Prod.Lex.left _ _ (unvisited_cons_lt (by simpa using _hSeen) (by simp [_hEntry]))

/-- Whether `goal` can be reached from `start`, in no steps or more. -/
def reaches (g : Graph α) (start goal : α) : Bool := g.search goal [start] []

end Graph

end WireRecord
