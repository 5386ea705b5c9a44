import Mathlib.Logic.Relation
import WireRecord.Schema.Reachability

/-!
The search in a finite graph finds its goal exactly if a way leads there. With nodes that have been
visited already it finds the goal exactly if a way avoids them: what was visited in vain can be left
out, since a way that goes through it can be cut short.
-/

namespace WireRecord

namespace Graph

variable {α : Type} [DecidableEq α] {g : Graph α} {visited : List α} {node goal : α}

def Edge (g : Graph α) (node next : α) : Prop := next ∈ g.successors node

/-- A way from a node to a goal on which no node before the goal is in `visited`. -/
inductive Way (g : Graph α) (visited : List α) (goal : α) : α → Prop where
  | here : Way g visited goal goal
  | step {node next : α} (hNew : node ∉ visited) (hEdge : g.Edge node next)
      (rest : Way g visited goal next) : Way g visited goal node

namespace Way

/-- A way that avoids some nodes avoids fewer. -/
theorem mono {fewer : List α} (hSub : fewer ⊆ visited) (way : Way g visited goal node) :
    Way g fewer goal node := by
  induction way with
  | here => exact .here
  | step hNew hEdge _ ih => exact .step (fun hMem => hNew (hSub hMem)) hEdge ih

/-- A way either avoids one more node as well, or can be cut to one that starts behind that node and
does not come back to it. -/
theorem avoid (extra : α) (way : Way g visited goal node) :
    Way g (extra :: visited) goal node ∨
      ∃ next, g.Edge extra next ∧ Way g (extra :: visited) goal next := by
  induction way with
  | here => exact .inl .here
  | @step node next hNew hEdge rest ih =>
      rcases ih with hRest | hCut
      · by_cases hExtra : node = extra
        · subst hExtra
          exact .inr ⟨next, hEdge, hRest⟩
        · refine .inl (.step ?_ hEdge hRest)
          simp [hExtra, hNew]
      · exact .inr hCut

/-- Where a way starts that is not yet at its goal. -/
theorem start_new (way : Way g visited goal node) (hGoal : node ≠ goal) :
    node ∉ visited ∧ ∃ next, g.Edge node next := by
  cases way with
  | here => exact absurd rfl hGoal
  | step hNew hEdge _ => exact ⟨hNew, _, hEdge⟩

/-- Nothing that follows a new node is lost when the node is marked and its successors take its
place. -/
theorem exists_expand_iff {rest : List α} (hGoal : node ≠ goal) (hNew : node ∉ visited) :
    (∃ start ∈ g.successors node ++ rest, Way g (node :: visited) goal start) ↔
      ∃ start ∈ node :: rest, Way g visited goal start := by
  have hFewer : visited ⊆ node :: visited := List.subset_cons_self node visited
  constructor
  · rintro ⟨start, hStart, way⟩
    rcases List.mem_append.mp hStart with hEdge | hRest
    · exact ⟨node, List.mem_cons_self, .step hNew hEdge (way.mono hFewer)⟩
    · exact ⟨start, List.mem_cons_of_mem node hRest, way.mono hFewer⟩
  · rintro ⟨start, hStart, way⟩
    rcases way.avoid node with hAvoid | ⟨next, hEdge, hNext⟩
    · rcases List.mem_cons.mp hStart with rfl | hRest
      · exact absurd List.mem_cons_self (hAvoid.start_new hGoal).1
      · exact ⟨start, List.mem_append_right _ hRest, hAvoid⟩
    · exact ⟨next, List.mem_append_left _ hEdge, hNext⟩

end Way

/-- The search succeeds exactly if a way to the goal starts at a pending node and avoids what has
been visited. -/
theorem search_eq_true_iff (g : Graph α) (goal : α) (pending visited : List α) :
    g.search goal pending visited = true ↔ ∃ start ∈ pending, Way g visited goal start := by
  fun_induction search g goal pending visited with
  | case1 visited => simp
  | case2 visited node rest hGoal =>
      obtain rfl := beq_iff_eq.mp hGoal
      exact iff_of_true rfl ⟨node, List.mem_cons_self, .here⟩
  | case3 visited node rest hGoal hSeen ih =>
      have hNode : node ≠ goal := by simpa using hGoal
      have hVisited : node ∈ visited := by simpa using hSeen
      have hNoWay : ¬Way g visited goal node := fun way => (way.start_new hNode).1 hVisited
      simp [ih, hNoWay]
  | case4 visited node rest hGoal hSeen hEntry ih =>
      have hNode : node ≠ goal := by simpa using hGoal
      have hNoWay : ¬Way g visited goal node := by
        intro way
        obtain ⟨_, next, hEdge⟩ := way.start_new hNode
        simp [Edge, successors, hEntry] at hEdge
      simp [ih, hNoWay]
  | case5 visited node rest hGoal hSeen targets hEntry ih =>
      have hNode : node ≠ goal := by simpa using hGoal
      have hVisited : node ∉ visited := by simpa using hSeen
      have hTargets : targets = g.successors node := by simp [successors, hEntry]
      rw [ih, hTargets]
      exact Way.exists_expand_iff hNode hVisited

/-- A way that avoids nothing is a path of edges. -/
theorem way_nil_iff : Way g [] goal node ↔ Relation.ReflTransGen g.Edge node goal := by
  constructor
  · intro way
    induction way with
    | here => exact .refl
    | step _ hEdge _ ih => exact .head hEdge ih
  · intro path
    induction path using Relation.ReflTransGen.head_induction_on with
    | refl => exact .here
    | head hEdge _ ih => exact .step (List.not_mem_nil) hEdge ih

/-- The search from one node decides whether a path of edges leads to the goal. -/
theorem reaches_eq_true_iff (g : Graph α) (start goal : α) :
    g.reaches start goal = true ↔ Relation.ReflTransGen g.Edge start goal := by
  rw [reaches, search_eq_true_iff, ← way_nil_iff]
  simp

end Graph

end WireRecord
