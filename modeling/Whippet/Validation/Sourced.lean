import Whippet.Validation.MempoolRun

/-! Everything a node holds comes from the transactions it was given, whatever the order of its events. -/
namespace Whippet.Validation
open Lib Primitives

/-- The coins, the blocks on disk and the pool come from these transactions. -/
structure Sourced (node : Node) (hist : List CTransaction) (s : NodeState) : Prop where
  coins : s.coins.MadeBy node.crypto hist
  stored : ∀ e ∈ s.stored, StoredOk node.crypto hist e
  pool : ∀ tx ∈ s.pool, tx ∈ hist

section
variable {node : Node} {hist : List CTransaction} {s : NodeState} {block : CBlock} {policy : MempoolPolicy}

theorem Sourced.connectTip (h : Sourced node hist s) (hvtx : ∀ tx ∈ block.vtx, tx ∈ hist) :
    Sourced node hist (connectTip node s block) := by
  unfold Validation.connectTip
  split
  · exact h
  · next t undo hconnect =>
    obtain ⟨hcoins, hstored⟩ := madeBy_of_connectBlock h.coins hvtx hconnect
    refine ⟨hcoins, fun e he => ?_, fun tx htx => h.pool tx ((removeForBlock_spec _ _).1.sub tx htx)⟩
    rcases List.mem_append.mp he with hold | hnew
    · exact h.stored e hold
    · rw [List.mem_singleton.mp hnew]
      exact hstored

theorem Sourced.disconnectTip (h : Sourced node hist s) : Sourced node hist (disconnectTip node s policy) := by
  unfold Validation.disconnectTip
  split
  · exact h
  · next block undo hlast =>
    have hstored := h.stored _ (List.mem_of_getLast? hlast)
    split
    · next t hback =>
      obtain ⟨-, hrestores, -⟩ := restores_of_disconnectBlock h.coins hstored hback
      refine ⟨hrestores.made, fun e he => h.stored e (List.mem_of_mem_dropLast he), fun tx htx => ?_⟩
      rcases mem_of_mem_foldl_resurrect htx with hold | hnew
      · exact h.pool tx hold
      · exact hstored.known tx hnew
    · exact h

theorem Sourced.step (h : Sourced node hist s) {event : MempoolEvent} (htxs : ∀ tx ∈ event.txs, tx ∈ hist) :
    Sourced node hist (s.step node event) := by
  cases event with
  | acceptToMemoryPool policy new =>
    refine ⟨h.coins, h.stored, fun tx htx => ?_⟩
    rcases mem_of_mem_acceptToMemoryPool htx with hold | rfl
    · exact h.pool tx hold
    · exact htxs tx List.mem_cons_self
  | connectTip block => exact h.connectTip htxs
  | disconnectTip policy => exact h.disconnectTip
  | removeForReorg stale => exact ⟨h.coins, h.stored, fun tx htx => h.pool tx (mem_of_mem_removeRecursive htx)⟩

theorem sourced_run (node : Node) (events : List MempoolEvent) :
    Sourced node (events.flatMap MempoolEvent.txs) (run (NodeState.step node) .start events) := by
  have hknown : ∀ e ∈ events, ∀ tx ∈ e.txs, tx ∈ events.flatMap MempoolEvent.txs :=
    fun e he tx htx => List.mem_flatMap.mpr ⟨e, he, htx⟩
  have hstart : Sourced node (events.flatMap MempoolEvent.txs) .start :=
    ⟨nodeInv_start.coins, by simp [NodeState.start], by simp [NodeState.start]⟩
  exact run_invariant (P := fun _ s => Sourced node (events.flatMap MempoolEvent.txs) s) hstart
    (fun _ _ _ hs hok => hs.step hok) (admissible_of_forall hknown _)

/-- What an accepted transaction spends is there, and comes from a transaction that the node was given. -/
theorem Sourced.made_of_accept (h : Sourced node hist s) {chain : List CBlockIndex} {nSpendHeight : ℕ} {tx : CTransaction}
    (haccept : (acceptToMemoryPool node policy chain nSpendHeight s.coins s.pool tx).1 = .ok ()) {txin : CTxIn}
    (hin : txin ∈ tx.vin) : ∃ out, (memPoolView node.crypto s.pool s.coins).output? txin.prevout = some out ∧
      Made node.crypto hist txin.prevout out := by
  unfold acceptToMemoryPool at haccept
  cases hcheck : checkForMempool node policy chain nSpendHeight s.coins s.pool tx with
  | error r =>
    rw [hcheck] at haccept
    cases haccept
  | ok setConflicts =>
    have hadm := admitted_of_checkForMempool hcheck
    obtain ⟨out, hout⟩ := (haveInputs_iff hadm.notCoinBase).mp hadm.haveInputs txin hin
    exact ⟨out, hout, madeBy_memPoolView h.pool h.coins _ _ hout⟩

end

end Whippet.Validation
