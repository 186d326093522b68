import Mathlib.Data.List.Nodup
import Mathlib.Logic.Relation

/-!
# Worklists

A traversal takes nodes from a worklist, skips those that it has visited, and puts the
successors of the others on the worklist.  Every visited node and every waiting one is
reached from the root, and a successor of a visited node is visited or waiting.  So once
no node waits, the visited nodes are those that the root reaches.  The worklist is a
predicate: it may hold a node more than once, and a node that is visited already.
-/

/-- A traversal from a root, between two of its steps. -/
structure Frontier
    (edge : Node → Node → Prop) (root : Node) (waiting : Node → Prop)
    (visited : List Node) : Prop where
  nodup : visited.Nodup
  reached : ∀ node, node ∈ visited ∨ waiting node → Relation.ReflTransGen edge root node
  rooted : root ∈ visited ∨ waiting root
  closed : ∀ node ∈ visited, ∀ next, edge node next → next ∈ visited ∨ waiting next

namespace Frontier

variable {visited : List Node}

theorem start (edge : Node → Node → Prop) (root : Node) :
    Frontier edge root (fun node => node = root) [] where
  nodup := .nil
  reached := by
    rintro node (visited | rfl)
    · cases visited
    · exact .refl
  rooted := Or.inr rfl
  closed := by
    intro node visited
    cases visited

theorem skip
    (frontier : Frontier edge root waiting visited)
    (fewer : ∀ node, remaining node → waiting node)
    (known : ∀ node, waiting node → node ∈ visited ∨ remaining node) :
    Frontier edge root remaining visited where
  nodup := frontier.nodup
  reached := fun node found => frontier.reached node (found.imp_right (fewer node))
  rooted := frontier.rooted.elim Or.inl (known root)
  closed := by
    intro node member next step
    exact (frontier.closed node member next step).elim Or.inl (known next)

/-- A node from the worklist is visited, and its successors that are not visited take
its place. -/
theorem visit
    (frontier : Frontier edge root waiting visited)
    (waits : waiting node)
    (fresh : node ∉ visited)
    (pushed : ∀ other, remaining other → waiting other ∨ edge node other)
    (stays : ∀ other, waiting other → other ∈ visited ++ [node] ∨ remaining other)
    (successors : ∀ other, edge node other → other ∈ visited ++ [node] ∨ remaining other) :
    Frontier edge root remaining (visited ++ [node]) where
  nodup := by
    rw [List.nodup_append]
    refine ⟨frontier.nodup, List.nodup_singleton node, ?_⟩
    intro earlier member current last same
    rw [List.mem_singleton] at last
    rw [same, last] at member
    exact fresh member
  reached := by
    have reachesNode := frontier.reached node (Or.inr waits)
    rintro other (member | pending)
    · rw [List.mem_append, List.mem_singleton] at member
      rcases member with earlier | rfl
      · exact frontier.reached other (Or.inl earlier)
      · exact reachesNode
    · rcases pushed other pending with earlier | step
      · exact frontier.reached other (Or.inr earlier)
      · exact reachesNode.tail step
  rooted := by
    rcases frontier.rooted with member | pending
    · exact Or.inl (List.mem_append_left [node] member)
    · exact stays root pending
  closed := by
    intro current member next step
    rw [List.mem_append, List.mem_singleton] at member
    rcases member with earlier | rfl
    · rcases frontier.closed current earlier next step with nextVisited | pending
      · exact Or.inl (List.mem_append_left [node] nextVisited)
      · exact stays next pending
    · exact successors next step

theorem mem_visited_iff
    (frontier : Frontier edge root waiting visited)
    (idle : ∀ node, ¬ waiting node) (node : Node) :
    node ∈ visited ↔ Relation.ReflTransGen edge root node := by
  refine ⟨fun member => frontier.reached node (Or.inl member), ?_⟩
  intro path
  induction path with
  | refl => exact frontier.rooted.resolve_right (idle root)
  | tail _ step ih =>
    exact (frontier.closed _ ih _ step).resolve_right (idle _)

end Frontier
