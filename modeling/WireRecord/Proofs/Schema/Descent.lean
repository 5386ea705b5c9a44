import WireRecord.Proofs.Schema.Search

/-!
The search by nested calls: a call for a node calls itself for one successor after the other, until
one of these calls finds the goal. All calls share the nodes that have been visited. A call that is
nested too deep has no answer; but a depth of one more than the number of entries that have not been
visited is always enough, so the calls come to an end on every graph. Their answer is that of the
search with a list of pending nodes, and both decide whether a way leads to the goal.
-/

namespace WireRecord

namespace Graph

variable {α : Type} [DecidableEq α] {g : Graph α} {goal node : α} {pending visited after : List α}
  {found : Bool} {depth : Nat}

/-- Whether calls that are nested at most so deep find the goal from a node. The state holds the
nodes that have been visited. -/
def descend (g : Graph α) (goal : α) : Nat → α → StateT (List α) Option Bool
  | 0, _ => failure
  | depth + 1, node => do
    if node = goal then return true
    if (← get).contains node then return false
    modify (node :: ·)
    (g.successors node).anyM (g.descend goal depth)

/-- What a call of the search does, said without the monad. -/
theorem run_descend (g : Graph α) (goal : α) (depth : Nat) (node : α) (visited : List α) :
    (g.descend goal (depth + 1) node).run visited =
      if node = goal then some (true, visited)
      else if node ∈ visited then some (false, visited)
      else ((g.successors node).anyM (g.descend goal depth)).run (node :: visited) := by
  by_cases hGoal : node = goal
  · rw [descend, if_pos hGoal, if_pos hGoal]
    rfl
  · by_cases hSeen : node ∈ visited
    · simp [descend, hGoal, hSeen]
    · simp [descend, hGoal, hSeen]

/-- The loop over successors stops at the first that finds the goal, and hands on what has been
visited. -/
theorem run_anyM_cons {σ : Type} (call : σ → StateT (List σ) Option Bool) (node : σ) (rest : List σ)
    {visited middle : List σ} (hHead : (call node).run visited = some (found, middle)) :
    ((node :: rest).anyM call).run visited =
      if found then some (true, middle) else (rest.anyM call).run middle := by
  rw [List.anyM_cons, StateT.run_bind, hHead]
  cases found <;> rfl

theorem search_goal (g : Graph α) (goal : α) (rest visited : List α) :
    g.search goal (goal :: rest) visited = true := by
  rw [search, if_pos (beq_self_eq_true goal)]

theorem search_seen (hGoal : node ≠ goal) (hSeen : node ∈ visited) (rest : List α) :
    g.search goal (node :: rest) visited = g.search goal rest visited := by
  rw [search, if_neg (by simpa using hGoal), dif_pos (by simpa using hSeen)]

/-- The successors of a new node take its place, also where there are none. -/
theorem search_expand (hGoal : node ≠ goal) (hNew : node ∉ visited) (rest : List α) :
    g.search goal (node :: rest) visited =
      g.search goal (g.successors node ++ rest) (node :: visited) := by
  rw [Bool.eq_iff_iff, search_eq_true_iff, search_eq_true_iff]
  exact (Way.exists_expand_iff hGoal hNew).symm

/-- The pending nodes are done with: either the goal has been found, or the search for what else is
pending goes on with `after` for the visited nodes. No visit is taken back. -/
structure Settles (g : Graph α) (goal : α) (pending visited : List α) (found : Bool)
    (after : List α) : Prop where
  subset : visited ⊆ after
  search_append : ∀ rest,
    g.search goal (pending ++ rest) visited = (found || g.search goal rest after)

namespace Settles

theorem nil (g : Graph α) (goal : α) (visited : List α) : Settles g goal [] visited false visited where
  subset := List.Subset.refl visited
  search_append _ := rfl

theorem here (g : Graph α) (goal : α) (visited : List α) :
    Settles g goal [goal] visited true visited where
  subset := List.Subset.refl visited
  search_append rest := search_goal g goal rest visited

theorem seen (hGoal : node ≠ goal) (hSeen : node ∈ visited) :
    Settles g goal [node] visited false visited where
  subset := List.Subset.refl visited
  search_append rest := search_seen hGoal hSeen rest

/-- A new node comes to what its successors come to, once it counts as visited. -/
theorem expand (hGoal : node ≠ goal) (hNew : node ∉ visited)
    (h : Settles g goal (g.successors node) (node :: visited) found after) :
    Settles g goal [node] visited found after where
  subset := List.Subset.trans (List.subset_cons_self node visited) h.subset
  search_append rest := (search_expand hGoal hNew rest).trans (h.search_append rest)

/-- Behind a node from which the goal is found nothing is looked at. -/
theorem cons_found {middle : List α} (h : Settles g goal [node] visited true middle) (rest : List α) :
    Settles g goal (node :: rest) visited true middle where
  subset := h.subset
  search_append later := h.search_append (rest ++ later)

/-- Otherwise the others are searched with all that has been visited so far. -/
theorem cons {middle : List α} (h : Settles g goal [node] visited false middle)
    (hRest : Settles g goal pending middle found after) :
    Settles g goal (node :: pending) visited found after where
  subset := List.Subset.trans h.subset hRest.subset
  search_append later := (h.search_append (pending ++ later)).trans (hRest.search_append later)

/-- With nothing else pending, the answer of the search is what was found. -/
theorem search_eq (h : Settles g goal pending visited found after) :
    g.search goal pending visited = found := by
  have hAlone := h.search_append []
  rwa [List.append_nil, search, Bool.or_false] at hAlone

end Settles

/-- A call comes to an answer, and settles the nodes that it is for. -/
def Completes (g : Graph α) (goal : α) (pending visited : List α)
    (call : StateT (List α) Option Bool) : Prop :=
  ∃ found after, call.run visited = some (found, after) ∧
    Settles g goal pending visited found after

/-- Calls in a row complete if each one does, whatever the calls before it have visited. -/
theorem completes_anyM {call : α → StateT (List α) Option Bool}
    (hCall : ∀ node ∈ pending, ∀ middle, visited ⊆ middle →
      Completes g goal [node] middle (call node)) :
    Completes g goal pending visited (pending.anyM call) := by
  induction pending generalizing visited with
  | nil => exact ⟨false, visited, rfl, .nil g goal visited⟩
  | cons node rest ih =>
      rw [List.forall_mem_cons] at hCall
      obtain ⟨found, middle, hRun, hHead⟩ := hCall.1 visited (List.Subset.refl visited)
      cases found with
      | true => exact ⟨true, middle, run_anyM_cons call node rest hRun, hHead.cons_found rest⟩
      | false =>
          have hRest : Completes g goal rest middle (rest.anyM call) := by
            apply ih
            intro next hNext later hLater
            exact hCall.2 next hNext later (List.Subset.trans hHead.subset hLater)
          obtain ⟨found, after, hRunRest, hTail⟩ := hRest
          exact ⟨found, after, (run_anyM_cons call node rest hRun).trans hRunRest, hHead.cons hTail⟩

/-- A call completes if it may be nested deeper than there are entries left to visit: a call for a
new node that has successors leaves one entry less to the calls inside of it. -/
theorem completes_descend (hDepth : unvisited g.entries visited < depth) (node : α) :
    Completes g goal [node] visited (g.descend goal depth node) := by
  induction depth generalizing visited node with
  | zero => exact absurd hDepth (Nat.not_lt_zero _)
  | succ depth ih =>
      by_cases hGoal : node = goal
      · subst hGoal
        exact ⟨true, visited, by rw [run_descend, if_pos rfl], .here g node visited⟩
      · by_cases hSeen : node ∈ visited
        · exact ⟨false, visited, by rw [run_descend, if_neg hGoal, if_pos hSeen], .seen hGoal hSeen⟩
        · have hInside : Completes g goal (g.successors node) (node :: visited)
              ((g.successors node).anyM (g.descend goal depth)) := by
            apply completes_anyM
            intro next hNext middle hMiddle
            have hEntry : (g.entries.lookup node).isSome := by
              cases hLookup : g.entries.lookup node with
              | none => simp [successors, hLookup] at hNext
              | some targets => rfl
            have hFewer := unvisited_cons_lt (by simpa using hSeen) hEntry
            have hLeft := unvisited_le_of_subset g.entries hMiddle
            exact ih (by omega) next
          obtain ⟨found, after, hRun, hSettles⟩ := hInside
          exact ⟨found, after, by rw [run_descend, if_neg hGoal, if_neg hSeen, hRun],
            .expand hGoal hSeen hSettles⟩

/-- The search ends on every graph and decides whether a way leads to the goal. It is given twice:
by nested calls, for which a depth is named that is enough, as is any larger one, and by pending
nodes. With visited nodes the way has to avoid them before it is at the goal; with none it is any
path of edges, of no edges if the search starts at the goal. -/
theorem descent_decides_ways (g : Graph α) (start goal : α) (visited : List α) :
    (∀ extra, ∃ after,
      (g.descend goal (unvisited g.entries visited + 1 + extra) start).run visited =
        some (g.search goal [start] visited, after)) ∧
    (g.search goal [start] visited = true ↔ Way g visited goal start) ∧
    (g.reaches start goal = true ↔ start = goal ∨ Relation.TransGen g.Edge start goal) := by
  refine ⟨?_, ?_, ?_⟩
  · intro extra
    have hDepth : unvisited g.entries visited < unvisited g.entries visited + 1 + extra := by omega
    have hCall : Completes g goal [start] visited
        (g.descend goal (unvisited g.entries visited + 1 + extra) start) :=
      completes_descend hDepth start
    obtain ⟨found, after, hRun, hSettles⟩ := hCall
    rw [hSettles.search_eq]
    exact ⟨after, hRun⟩
  · rw [search_eq_true_iff]
    simp
  · rw [reaches_eq_true_iff, Relation.reflTransGen_iff_eq_or_transGen, eq_comm]

end Graph

end WireRecord
