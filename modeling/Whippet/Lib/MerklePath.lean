import Mathlib.Data.Set.Function

/-! Paths from a leaf to the root of a binary tree, in which a node is computed from its two children. -/
namespace Whippet.Lib

universe u
variable {α : Type u} (parent : α → α → α)

/-- The children that a step joins: `true` is for a node on the right of its sibling. -/
def joined (node : α) (step : Bool × α) : α × α := if step.1 then (step.2, node) else (node, step.2)

def climb : α → List (Bool × α) → α
  | node, [] => node
  | node, step :: path => climb (Function.uncurry parent (joined node step)) path

/-- The pairs of children on the way. -/
def climbPairs : α → List (Bool × α) → List (α × α)
  | _, [] => []
  | node, step :: path => joined node step :: climbPairs (Function.uncurry parent (joined node step)) path

variable {parent}

theorem joined_inj {x y : α} {p q : Bool × α} (hside : p.1 = q.1) (h : joined x p = joined y q) : x = y := by
  rw [joined, joined, hside] at h
  split_ifs at h
  · exact congrArg Prod.snd h
  · exact congrArg Prod.fst h

/-- Where the parents have no collision, the root and the sides determine the leaf, whatever the siblings are. -/
theorem climb_inj {pairs : Set (α × α)} (hinj : Set.InjOn (Function.uncurry parent) pairs) {x y : α}
    {p q : List (Bool × α)} (hsides : p.map Prod.fst = q.map Prod.fst) (hp : ∀ c ∈ climbPairs parent x p, c ∈ pairs)
    (hq : ∀ c ∈ climbPairs parent y q, c ∈ pairs) (h : climb parent x p = climb parent y q) : x = y := by
  induction p generalizing q x y with
  | nil =>
    obtain rfl : q = [] := List.map_eq_nil_iff.mp hsides.symm
    exact h
  | cons step p ih =>
    cases q with
    | nil => cases hsides
    | cons step' q =>
      rw [List.map_cons, List.map_cons, List.cons.injEq] at hsides
      rw [climbPairs, List.forall_mem_cons] at hp hq
      have hnode := ih hsides.2 hp.2 hq.2 h
      exact joined_inj hsides.1 (hinj hp.1 hq.1 hnode)

end Whippet.Lib
