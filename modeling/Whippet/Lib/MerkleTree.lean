import Mathlib.Data.Nat.Log
import Mathlib.Data.Set.Function

/-! Binary trees over a list of leaves, level by level. A node without a sibling is joined with itself. -/
namespace Whippet.Lib.MerkleTree

universe u
variable {α : Type u}

def siblings : List α → List (α × α)
  | a :: b :: l => (a, b) :: siblings l
  | _ => []

/-- The last node of a level, if it has no sibling. -/
def lone? : List α → Option α
  | _ :: _ :: l => lone? l
  | [a] => some a
  | [] => none

/-- The children of the nodes of the next level. -/
def joins (l : List α) : List (α × α) := siblings l ++ (lone? l).toList.map fun a => (a, a)

section
variable (join : α × α → α)

def nextLevel (l : List α) : List α := (joins l).map join

/-- The node that is left after all levels. -/
def root (empty : α) (l : List α) : α := ((nextLevel join)^[Nat.clog 2 l.length] l).headD empty

/-- The children of all nodes of the next `n` levels. -/
def allJoins : ℕ → List α → List (α × α)
  | 0, _ => []
  | n + 1, l => joins l ++ allJoins n (nextLevel join l)

/-- No two siblings below the next `n` levels are equal. -/
def Distinct : ℕ → List α → Prop
  | 0, _ => True
  | n + 1, l => (∀ c ∈ siblings l, c.1 ≠ c.2) ∧ Distinct n (nextLevel join l)

end

variable {join : α × α → α} {empty : α} {l l' : List α} {s : Set (α × α)}

theorem siblings_concat (l : List α) (x : α) :
    siblings (l ++ [x]) = siblings l ++ (lone? l).toList.map fun a => (a, x) := by
  induction l using lone?.induct with
  | case1 a b l ih => rw [List.cons_append, List.cons_append, siblings, ih, siblings, List.cons_append, lone?]
  | case2 a => rfl
  | case3 => rfl

theorem lone?_concat (l : List α) (x : α) : lone? (l ++ [x]) = if (lone? l).isSome then none else some x := by
  induction l using lone?.induct with
  | case1 a b l ih => exact ih
  | case2 a => rfl
  | case3 => rfl

theorem mem_of_lone? {a : α} (h : lone? l = some a) : a ∈ l := by
  induction l using lone?.induct with
  | case1 b c l ih => exact List.mem_cons_of_mem _ (List.mem_cons_of_mem _ (ih h))
  | case2 b => exact List.mem_singleton.mpr (Option.some.inj h).symm
  | case3 => cases h

theorem mem_of_siblings {c : α × α} (h : c ∈ siblings l) : c.2 ∈ l := by
  induction l using lone?.induct with
  | case1 a b l ih =>
    rcases List.mem_cons.mp h with rfl | hrest
    · simp
    · exact List.mem_cons_of_mem _ (List.mem_cons_of_mem _ (ih hrest))
  | case2 b => cases h
  | case3 => cases h

theorem eq_of_siblings_eq_nil (h : siblings l = []) : l = (lone? l).toList := by
  rcases l with _ | ⟨a, _ | ⟨b, l⟩⟩
  · rfl
  · rfl
  · cases h

theorem length_nextLevel (l : List α) : (nextLevel join l).length = (l.length + 1) / 2 := by
  rw [nextLevel, List.length_map]
  induction l using lone?.induct with
  | case1 a b l ih =>
    have hjoins : joins (a :: b :: l) = (a, b) :: joins l := rfl
    rw [hjoins, List.length_cons, ih, List.length_cons, List.length_cons]
    omega
  | case2 a => simp [joins, siblings, lone?]
  | case3 => simp [joins, siblings, lone?]

theorem clog_nextLevel (join : α × α → α) (h : 2 ≤ l.length) :
    Nat.clog 2 l.length = Nat.clog 2 (nextLevel join l).length + 1 := by
  rw [length_nextLevel, Nat.clog_of_two_le (by decide) h]
  rfl

theorem root_nextLevel (h : 2 ≤ l.length) : root join empty (nextLevel join l) = root join empty l := by
  rw [root, root, clog_nextLevel join h, Function.iterate_succ_apply]

theorem nextLevel_concat (l : List α) (x : α) : nextLevel join (l ++ [x]) =
    (siblings l).map join ++ [join ((lone? l).getD x, x)] := by
  rw [nextLevel, joins, siblings_concat, lone?_concat]
  cases lone? l with
  | none => simp
  | some a => simp

theorem iterate_eq_singleton (join : α × α → α) (empty : α) (hne : l ≠ []) :
    (nextLevel join)^[Nat.clog 2 l.length] l = [root join empty l] := by
  suffices hlength : ((nextLevel join)^[Nat.clog 2 l.length] l).length = 1 by
    obtain ⟨a, ha⟩ := List.length_eq_one_iff.mp hlength
    rw [root, ha]
    rfl
  have hpos := List.length_pos_iff.mpr hne
  generalize hn : Nat.clog 2 l.length = n
  induction n generalizing l with
  | zero =>
    have hlt : ¬ 2 ≤ l.length := fun h => (Nat.clog_pos (by decide) h).ne' hn
    rw [Function.iterate_zero_apply]
    omega
  | succ n ih =>
    have hlen : 2 ≤ l.length := by
      by_contra hlt
      rw [Nat.clog_of_right_le_one (by omega)] at hn
      cases hn
    have hnext : 0 < (nextLevel join l).length := by rw [length_nextLevel]; omega
    rw [clog_nextLevel join hlen] at hn
    exact ih (List.ne_nil_of_length_pos hnext) hnext (Nat.succ.inj hn)

/-- Without collisions a level determines the one below, if that has no two equal siblings. -/
theorem eq_of_nextLevel_eq (hinj : Set.InjOn join s) (hs : ∀ c ∈ joins l, c ∈ s)
    (hs' : ∀ c ∈ joins l', c ∈ s) (hl : ∀ c ∈ siblings l, c.1 ≠ c.2) (hl' : ∀ c ∈ siblings l', c.1 ≠ c.2)
    (h : nextLevel join l = nextLevel join l') : l = l' := by
  induction l using lone?.induct generalizing l' with
  | case1 a b l ih =>
    rcases l' with _ | ⟨a', _ | ⟨b', l'⟩⟩
    · cases h
    · obtain ⟨rfl, rfl⟩ := Prod.mk.inj (hinj (hs _ List.mem_cons_self) (hs' _ List.mem_cons_self) (List.cons.inj h).1)
      exact absurd rfl (hl _ List.mem_cons_self)
    · obtain ⟨rfl, rfl⟩ := Prod.mk.inj (hinj (hs _ List.mem_cons_self) (hs' _ List.mem_cons_self) (List.cons.inj h).1)
      rw [ih (List.forall_mem_cons.mp hs).2 (List.forall_mem_cons.mp hs').2 (List.forall_mem_cons.mp hl).2
        (List.forall_mem_cons.mp hl').2 (List.cons.inj h).2]
  | case2 a =>
    rcases l' with _ | ⟨a', _ | ⟨b', l'⟩⟩
    · cases h
    · rw [(Prod.mk.inj (hinj (hs _ List.mem_cons_self) (hs' _ List.mem_cons_self) (List.cons.inj h).1)).1]
    · obtain ⟨rfl, rfl⟩ := Prod.mk.inj (hinj (hs _ List.mem_cons_self) (hs' _ List.mem_cons_self) (List.cons.inj h).1)
      exact absurd rfl (hl' _ List.mem_cons_self)
  | case3 =>
    rcases l' with _ | ⟨a', _ | ⟨b', l'⟩⟩
    · rfl
    · cases h
    · cases h

theorem eq_of_iterate_eq (hinj : Set.InjOn join s) {n : ℕ} (hs : ∀ c ∈ allJoins join n l, c ∈ s)
    (hs' : ∀ c ∈ allJoins join n l', c ∈ s) (hl : Distinct join n l) (hl' : Distinct join n l')
    (h : (nextLevel join)^[n] l = (nextLevel join)^[n] l') : l = l' := by
  induction n generalizing l l' with
  | zero => exact h
  | succ n ih =>
    rw [allJoins, List.forall_mem_append] at hs hs'
    exact eq_of_nextLevel_eq hinj hs.1 hs'.1 hl.1 hl'.1 (ih hs.2 hs'.2 hl.2 hl'.2 h)

end Whippet.Lib.MerkleTree
