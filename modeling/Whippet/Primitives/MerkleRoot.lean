import Whippet.Lib.MerkleTree
import Whippet.Primitives.Block

/-! `ComputeMerkleRoot` takes the leaves one after the other, and finds the root of the tree that is built level by
level. -/
namespace Whippet.Primitives
open Lib.MerkleTree

def Crypto.merkleJoin (crypto : Crypto) (c : Uint256 × Uint256) : Uint256 := crypto.merkleParent c.1 c.2

/-- The root of the tree that is built level by level. -/
def merkleTreeRoot (crypto : Crypto) (leaves : List Uint256) : Uint256 := root crypto.merkleJoin Uint256.zero leaves

/-- What `inner` and the flag are after the leaves `l`: at each level the node without a sibling among those whose leaves
are all there, and whether two such siblings are equal. -/
inductive Summary (crypto : Crypto) : List (Option Uint256) → List Uint256 → Bool → Prop
  | nil : Summary crypto [] [] false
  | level {inner l mutated} (ne_nil : l ≠ [])
      (above : Summary crypto inner ((siblings l).map crypto.merkleJoin) mutated) :
      Summary crypto (lone? l :: inner) l ((siblings l).any (fun c => c.1 == c.2) || mutated)

variable {crypto : Crypto} {inner : List (Option Uint256)} {l l' : List Uint256} {mutated : Bool}

theorem merkleTreeRoot_nextLevel (h : 2 ≤ l.length) :
    merkleTreeRoot crypto (nextLevel crypto.merkleJoin l) = merkleTreeRoot crypto l := root_nextLevel h

theorem Summary.add (h : Summary crypto inner l mutated) (leaf : Uint256) :
    Summary crypto (merkleAdd crypto inner leaf).1 (l ++ [leaf]) (mutated || (merkleAdd crypto inner leaf).2) := by
  induction h generalizing leaf with
  | nil => exact .level (l := [leaf]) (by simp) .nil
  | @level inner l mutated _ above ih =>
    cases hlone : lone? l with
    | none =>
      have hlevel := @Summary.level crypto _ (l ++ [leaf]) _ (by simp) (by simpa [siblings_concat, hlone] using above)
      simpa [siblings_concat, lone?_concat, hlone, merkleAdd] using hlevel
    | some left =>
      have hlevel := @Summary.level crypto _ (l ++ [leaf]) _ (by simp)
        (by simpa [siblings_concat, hlone] using ih (crypto.merkleJoin (left, leaf)))
      simpa [siblings_concat, lone?_concat, hlone, merkleAdd, Crypto.merkleJoin, Bool.or_assoc, Bool.or_left_comm]
        using hlevel

theorem exists_summary (crypto : Crypto) (leaves : List Uint256) : ∃ inner,
    Summary crypto inner leaves (computeMerkleRoot crypto leaves).2 ∧
      (computeMerkleRoot crypto leaves).1 = merkleFinish crypto inner := by
  refine ⟨_, ?_, rfl⟩
  unfold computeMerkleRoot
  induction leaves using List.reverseRecOn with
  | nil => exact .nil
  | append_singleton leaves leaf ih =>
    rw [List.foldl_append]
    exact ih.add leaf

theorem Summary.sweep (h : Summary crypto inner l mutated) (x : Uint256) :
    merkleSweep crypto true inner x = merkleTreeRoot crypto (l ++ [x]) ∧
      (l ≠ [] → merkleSweep crypto false inner x = merkleTreeRoot crypto (l ++ [crypto.merkleParent x x])) ∧
      (l = [] → merkleSweep crypto false inner x = x) := by
  induction h generalizing x with
  | nil => exact ⟨rfl, fun h => absurd rfl h, fun _ => rfl⟩
  | @level inner l mutated hne above ih =>
    have hroot : ∀ y, merkleTreeRoot crypto (l ++ [y]) = merkleTreeRoot crypto
        ((siblings l).map crypto.merkleJoin ++ [crypto.merkleJoin ((lone? l).getD y, y)]) := by
      intro y
      have hlength := List.length_pos_iff.mpr hne
      rw [← nextLevel_concat, merkleTreeRoot_nextLevel (by simp; omega)]
    have hsome : lone? l = none → (siblings l).map crypto.merkleJoin ≠ [] := by
      intro hlone hnil
      rw [eq_of_siblings_eq_nil (List.map_eq_nil_iff.mp hnil), hlone] at hne
      exact hne rfl
    refine ⟨?_, fun _ => ?_, fun h => absurd h hne⟩
    · rw [hroot]
      cases hlone : lone? l with
      | none => exact (ih x).2.1 (hsome hlone)
      | some left => exact (ih _).1
    · rw [hroot]
      cases hlone : lone? l with
      | none => exact (ih _).2.1 (hsome hlone)
      | some left => exact (ih _).1

theorem Summary.finish (h : Summary crypto inner l mutated) : merkleFinish crypto inner = merkleTreeRoot crypto l := by
  induction h with
  | nil => rfl
  | @level inner l mutated hne above ih =>
    have hnext : nextLevel crypto.merkleJoin l = (siblings l).map crypto.merkleJoin ++
        (lone? l).toList.map fun a => crypto.merkleJoin (a, a) := by simp [nextLevel, joins]
    by_cases hlen : 2 ≤ l.length
    · rw [← merkleTreeRoot_nextLevel hlen, hnext]
      cases hlone : lone? l with
      | none => simpa [merkleFinish] using ih
      | some x =>
        refine (above.sweep x).2.1 fun hnil => ?_
        rw [eq_of_siblings_eq_nil (List.map_eq_nil_iff.mp hnil), hlone] at hlen
        exact absurd hlen (by simp)
    · obtain ⟨a, rfl⟩ : ∃ a, l = [a] := List.length_eq_one_iff.mp (by have := List.length_pos_iff.mpr hne; omega)
      exact (above.sweep a).2.2 rfl

theorem Summary.above (h : Summary crypto inner l mutated) (hm : mutated = false) : (∀ c ∈ siblings l, c.1 ≠ c.2) ∧
    ∃ inner, Summary crypto inner ((siblings l).map crypto.merkleJoin) false := by
  cases h with
  | nil => exact ⟨by simp [siblings], [], .nil⟩
  | level _ above =>
    rw [Bool.or_eq_false_iff] at hm
    exact ⟨by simpa using hm.1, _, hm.2 ▸ above⟩

/-- Where no two siblings with all their leaves are equal, no two siblings are. The last node of a level, whose leaves
are not all there, is none of the others: both would have been joined from the same children. -/
theorem Summary.distinct {n : ℕ} {t : Option Uint256} (h : Summary crypto inner l false) (ht : ∀ x ∈ t, x ∉ l)
    (hinj : Set.InjOn crypto.merkleJoin {c | c ∈ allJoins crypto.merkleJoin n (l ++ t.toList)}) :
    Distinct crypto.merkleJoin n (l ++ t.toList) := by
  induction n generalizing inner l t with
  | zero => trivial
  | succ n ih =>
    obtain ⟨hdiff, inner', habove⟩ := h.above rfl
    -- the last join: of a node with itself, or with a right child that is none of the nodes
    obtain ⟨d, hjoins, hd, hlast⟩ : ∃ d : Option (Uint256 × Uint256), joins (l ++ t.toList) = siblings l ++ d.toList ∧
        (∀ c ∈ d, c.1 = c.2 ∨ c.2 ∉ l) ∧ ∀ c ∈ siblings (l ++ t.toList), c ∈ siblings l ∨ c.1 ∈ l ∧ c.2 ∉ l := by
      cases t with
      | none => exact ⟨(lone? l).map fun a => (a, a), by simp [joins, Option.toList_map], by simp, by simp +contextual⟩
      | some x =>
        refine ⟨some ((lone? l).getD x, x), ?_, by simpa using Or.inr (ht x rfl), ?_⟩
        · rw [joins, Option.toList_some, siblings_concat, lone?_concat]
          cases lone? l <;> simp
        · intro c hc
          rw [Option.toList_some, siblings_concat, List.mem_append, List.mem_map] at hc
          refine hc.imp id ?_
          rintro ⟨a, ha, rfl⟩
          exact ⟨mem_of_lone? (by simpa using ha), ht x rfl⟩
    rw [allJoins, hjoins] at hinj
    refine ⟨?_, ?_⟩
    · intro c hc heq
      rcases hlast c hc with hold | ⟨hleft, hright⟩
      · exact hdiff c hold heq
      · exact hright (heq ▸ hleft)
    · rw [nextLevel, hjoins, List.map_append, ← Option.toList_map] at hinj ⊢
      refine ih habove ?_ (hinj.mono fun c hc => List.mem_append_right _ hc)
      intro y hy hjoined
      obtain ⟨e, he, rfl⟩ := Option.mem_map.mp hy
      obtain ⟨c, hc, heq⟩ := List.mem_map.mp hjoined
      obtain rfl := hinj (show c ∈ _ by simp [hc]) (show e ∈ _ by simp [Option.mem_def.mp he]) heq
      rcases hd c he with hsame | hnot
      · exact hdiff c hc hsame
      · exact hnot (mem_of_siblings hc)

/-- The loop over the leaves finds the root of the tree that is built level by level. -/
theorem computeMerkleRoot_eq_root (crypto : Crypto) (leaves : List Uint256) :
    (computeMerkleRoot crypto leaves).1 = merkleTreeRoot crypto leaves := by
  obtain ⟨inner, hsum, hroot⟩ := exists_summary crypto leaves
  rw [hroot, hsum.finish]

/-- Two lists of leaves with trees of one height have different roots, unless one of them is flagged as mutated or the
hash has a collision among the nodes of the trees. -/
theorem computeMerkleRoot_ne (crypto : Crypto) (l l' : List Uint256) (n : ℕ) (hl : l ≠ []) (hl' : l' ≠ []) (hne : l ≠ l')
    (hheight : Nat.clog 2 l.length = n) (hheight' : Nat.clog 2 l'.length = n)
    (hinj : Set.InjOn crypto.merkleJoin
      {c | c ∈ allJoins crypto.merkleJoin n l ∨ c ∈ allJoins crypto.merkleJoin n l'})
    (hm : (computeMerkleRoot crypto l).2 = false) (hm' : (computeMerkleRoot crypto l').2 = false) :
    (computeMerkleRoot crypto l).1 ≠ (computeMerkleRoot crypto l').1 := by
  intro heq
  obtain ⟨inner, hsum, hroot⟩ := exists_summary crypto l
  obtain ⟨inner', hsum', hroot'⟩ := exists_summary crypto l'
  rw [hroot, hroot', hsum.finish, hsum'.finish] at heq
  rw [hm] at hsum
  rw [hm'] at hsum'
  have hd := hsum.distinct (n := n) (t := none) (by simp)
  have hd' := hsum'.distinct (n := n) (t := none) (by simp)
  rw [Option.toList_none, List.append_nil] at hd hd'
  refine hne (eq_of_iterate_eq hinj (fun _ => Or.inl) (fun _ => Or.inr) (hd (hinj.mono fun _ => Or.inl))
    (hd' (hinj.mono fun _ => Or.inr)) ?_)
  have hroots := (iterate_eq_singleton crypto.merkleJoin Uint256.zero hl).trans
    ((congrArg (fun r => [r]) heq).trans (iterate_eq_singleton crypto.merkleJoin Uint256.zero hl').symm)
  rwa [hheight, hheight'] at hroots

theorem computeMerkleRoot_ne_swapped : (computeMerkleRoot (Crypto.recorded []) [Uint256.zero, Uint256.one]).1 ≠
    (computeMerkleRoot (Crypto.recorded []) [Uint256.one, Uint256.zero]).1 := by
  have hne : (Crypto.recorded []).merkleJoin (Uint256.zero, Uint256.one) ≠
      (Crypto.recorded []).merkleJoin (Uint256.one, Uint256.zero) := by decide +kernel
  refine computeMerkleRoot_ne (Crypto.recorded []) _ _ 1 (by simp) (by simp) (by decide) rfl rfl ?_ (by decide +kernel)
    (by decide +kernel)
  refine (Set.injOn_pair.mpr fun h => absurd h hne).mono ?_
  intro c hc
  simpa [allJoins, joins, siblings, lone?] using hc

end Whippet.Primitives
