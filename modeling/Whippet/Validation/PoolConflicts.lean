import Whippet.Validation.MempoolRun

/-! The memory pool holds no double spend, whatever happens to the node. -/
namespace Whippet.Validation
open Lib Primitives

/-- What `mapTx` and `mapNextTx` take for granted of two transactions of the pool. -/
structure Compatible (crypto : Crypto) (tx other : CTransaction) : Prop where
  txid_ne : crypto.txid tx ≠ crypto.txid other
  noConflict : ∀ p, spendsOutPoint p tx = true → spendsOutPoint p other = false

variable {node : Node} {policy : MempoolPolicy} {chain : List CBlockIndex} {coins : CCoinsView} {tx : CTransaction}
  {pool : List CTransaction}

theorem removeForBlock_sublist (crypto : Crypto) (vtx pool : List CTransaction) :
    (removeForBlock crypto vtx pool).Sublist pool := by
  refine List.foldlRecOn (motive := fun left : List CTransaction => left.Sublist pool) vtx _ (.refl pool) ?_
  intro left hleft tx _
  refine List.foldlRecOn (motive := fun left : List CTransaction => left.Sublist pool) tx.vin _
    (List.filter_sublist.trans hleft) ?_
  exact fun left hleft _ _ => (removeWithDependents_sublist _ _).trans hleft

/-- A transaction comes in only after all that spend one of its inputs have left. -/
theorem compatible_of_checkForMempool {nSpendHeight : ℕ} {setConflicts : List Uint256}
    (h : checkForMempool node policy chain nSpendHeight coins pool tx = .ok setConflicts) :
    ∀ other ∈ removeRecursive node.crypto setConflicts pool, Compatible node.crypto other tx := by
  simp only [checkForMempool, bind_eq_ok, failIf_eq_ok, pure_eq_ok] at h
  obtain ⟨_, -, _, -, _, -, _, hnew, _, -, _, -, _, -, _, -, _, -, _, -, _, -, _, -, rfl⟩ := h
  intro other hother
  obtain ⟨hkeeps, hfree⟩ := @removeWithDependents_spec _ _ node.crypto.txid parents pool _
    ((tx.vin.flatMap fun txin => nextTx pool txin.prevout).map node.crypto.txid)
  have hmem := hkeeps.sub other hother
  constructor
  · intro heq
    exact hnew (heq ▸ List.mem_map_of_mem hmem)
  · intro p hspends
    by_contra hboth
    obtain ⟨txin, hin, hp⟩ := List.any_eq_true.mp (Bool.not_eq_false _ ▸ hboth)
    rw [← of_decide_eq_true hp] at hspends
    refine (hfree other hother).1 (List.mem_map_of_mem (List.mem_flatMap.mpr ⟨txin, hin, ?_⟩))
    exact List.mem_filter.mpr ⟨hmem, hspends⟩

theorem compatible_acceptToMemoryPool (nSpendHeight : ℕ) (h : pool.Pairwise (Compatible node.crypto)) :
    (acceptToMemoryPool node policy chain nSpendHeight coins pool tx).2.Pairwise (Compatible node.crypto) := by
  unfold acceptToMemoryPool
  cases hcheck : checkForMempool node policy chain nSpendHeight coins pool tx with
  | error r => exact h
  | ok setConflicts =>
    have hadded : (removeRecursive node.crypto setConflicts pool ++ [tx]).Pairwise (Compatible node.crypto) := by
      refine List.pairwise_append.mpr ⟨h.sublist (removeWithDependents_sublist _ _), List.pairwise_singleton _ _, ?_⟩
      intro other hother tx' htx'
      rw [List.mem_singleton.mp htx']
      exact compatible_of_checkForMempool hcheck other hother
    dsimp only
    split_ifs
    · exact hadded.sublist (removeWithDependents_sublist _ _)
    · exact hadded.sublist (removeWithDependents_sublist _ _)

theorem compatible_resurrect (h : pool.Pairwise (Compatible node.crypto)) :
    (resurrect node policy chain coins pool tx).Pairwise (Compatible node.crypto) := by
  unfold resurrect
  split_ifs
  · exact h.sublist (removeWithDependents_sublist _ _)
  · have haccept := @compatible_acceptToMemoryPool _ { policy with evicted := [] } chain coins tx _ (chain.length - 1) h
    split
    · next heq =>
      rwa [heq] at haccept
    · next heq =>
      rw [heq] at haccept
      exact haccept.sublist (removeWithDependents_sublist _ _)

/-- Through any sequence of acceptances, replacements, evictions and reorganisations, no two transactions of the pool
have the same txid or spend the same output. -/
theorem pool_conflictFree (node : Node) (events : List MempoolEvent) :
    (run (NodeState.step node) .start events).pool.Pairwise (Compatible node.crypto) := by
  refine List.foldlRecOn (motive := fun s : NodeState => s.pool.Pairwise (Compatible node.crypto)) events _ .nil ?_
  intro s hs event _
  cases event with
  | acceptToMemoryPool policy tx => exact compatible_acceptToMemoryPool _ hs
  | connectTip block =>
    unfold NodeState.step connectTip
    dsimp only
    split
    · exact hs
    · exact hs.sublist (removeForBlock_sublist _ _ _)
  | disconnectTip policy =>
    unfold NodeState.step disconnectTip
    dsimp only
    split
    · exact hs
    · split
      · exact List.foldlRecOn (motive := fun pool : List CTransaction => pool.Pairwise (Compatible node.crypto)) _ _ hs
          fun _ hpool _ _ => compatible_resurrect hpool
      · exact hs
  | removeForReorg stale => exact hs.sublist (removeWithDependents_sublist _ _)

end Whippet.Validation
