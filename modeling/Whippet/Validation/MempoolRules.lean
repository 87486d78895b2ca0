import Whippet.Validation.Mempool

/-! What keeps the transactions of the pool within the UAP rules, as long as the chain does not cross the activation
height with such transactions in the pool. -/
namespace Whippet.Validation
open Lib Primitives Script

def Made (crypto : Crypto) (hist : List CTransaction) (p : COutPoint) (out : CTxOut) : Prop :=
  ∃ tx ∈ hist, crypto.txid tx = p.hash ∧ txCoin? tx p.n = some out

/-- Every available output is an output of one of the transactions. -/
def CCoinsView.MadeBy (crypto : Crypto) (hist : List CTransaction) (view : CCoinsView) : Prop :=
  ∀ p out, view.output? p = some out → Made crypto hist p out

/-- A txid determines the outputs, among these transactions. -/
def OutputsBound (crypto : Crypto) (hist : List CTransaction) : Prop :=
  ∀ tx ∈ hist, ∀ tx' ∈ hist, crypto.txid tx = crypto.txid tx' → tx.vout = tx'.vout

section
variable {crypto : Crypto} {hist pool : List CTransaction} {coins view view' : CCoinsView} {p : COutPoint}
  {out out' : CTxOut} {tx : CTransaction}

theorem OutputsBound.txCoin?_eq (hb : OutputsBound crypto hist) (hmade : Made crypto hist p out) (htx : tx ∈ hist)
    (hid : crypto.txid tx = p.hash) : txCoin? tx p.n = some out := by
  obtain ⟨tx', htx', hid', hcoin⟩ := hmade
  rw [txCoin?, hb tx htx tx' htx' (hid.trans hid'.symm)]
  exact hcoin

theorem OutputsBound.out_eq (hb : OutputsBound crypto hist) (h : Made crypto hist p out)
    (h' : Made crypto hist p out') : out = out' := by
  obtain ⟨tx, htx, hid, hcoin⟩ := h'
  exact Option.some.inj ((hb.txCoin?_eq h htx hid).symm.trans hcoin)

theorem output?_memPoolView_cons (tx : CTransaction) (pool : List CTransaction) (coins : CCoinsView) (p : COutPoint) :
    (memPoolView crypto (tx :: pool) coins).output? p =
      if p.hash = crypto.txid tx then txCoin? tx p.n else (memPoolView crypto pool coins).output? p := by
  rw [← CCoins.output?_fromTx tx mempoolHeight]
  exact CCoinsView.output?_setCoins _ _ _ _

theorem output?_memPoolView (h : (memPoolView crypto pool coins).output? p = some out) :
    (∃ tx ∈ pool, crypto.txid tx = p.hash ∧ txCoin? tx p.n = some out) ∨ coins.output? p = some out := by
  induction pool with
  | nil => exact Or.inr h
  | cons tx pool ih =>
    rw [output?_memPoolView_cons] at h
    split_ifs at h with hid
    · exact Or.inl ⟨tx, List.mem_cons_self, hid.symm, h⟩
    · refine (ih h).imp ?_ id
      rintro ⟨tx', hmem, htx'⟩
      exact ⟨tx', List.mem_cons_of_mem _ hmem, htx'⟩

theorem OutputsBound.output?_memPoolView (hb : OutputsBound crypto hist) (hpool : ∀ tx ∈ pool, tx ∈ hist)
    (hmade : Made crypto hist p out) (h : p.hash ∈ pool.map crypto.txid ∨ coins.output? p = some out) :
    (memPoolView crypto pool coins).output? p = some out := by
  induction pool with
  | nil => exact h.resolve_left (by simp)
  | cons tx pool ih =>
    rw [List.forall_mem_cons] at hpool
    rw [output?_memPoolView_cons]
    split_ifs with hid
    · exact hb.txCoin?_eq hmade hpool.1 hid.symm
    · apply ih hpool.2
      simpa [hid] using h

theorem madeBy_memPoolView (hpool : ∀ tx ∈ pool, tx ∈ hist) (hcoins : coins.MadeBy crypto hist) :
    (memPoolView crypto pool coins).MadeBy crypto hist := by
  intro p out h
  rcases output?_memPoolView h with ⟨tx, hmem, htx⟩ | h
  · exact ⟨tx, hpool tx hmem, htx⟩
  · exact hcoins p out h

theorem haveInputs_iff (hcb : tx.isCoinBase = false) :
    view.haveInputs tx = true ↔ ∀ txin ∈ tx.vin, ∃ out, view.output? txin.prevout = some out := by
  simp [CCoinsView.haveInputs, hcb, Option.isSome_iff_exists]

theorem OutputsBound.output?_eq (hb : OutputsBound crypto hist) (hview : view.MadeBy crypto hist)
    (hview' : view'.MadeBy crypto hist) (hcb : tx.isCoinBase = false) (h : view.haveInputs tx = true)
    (h' : view'.haveInputs tx = true) : ∀ txin ∈ tx.vin, view.output? txin.prevout = view'.output? txin.prevout := by
  intro txin hmem
  obtain ⟨out, hout⟩ := (haveInputs_iff hcb).mp h txin hmem
  obtain ⟨out', hout'⟩ := (haveInputs_iff hcb).mp h' txin hmem
  rw [hout, hout', hb.out_eq (hview _ _ hout) (hview' _ _ hout')]

theorem foldlM_congr {α σ ε : Type*} {f g : σ → α → Except ε σ} {l : List α} (h : ∀ a ∈ l, ∀ s, f s a = g s a)
    (s : σ) : l.foldlM f s = l.foldlM g s := by
  induction l generalizing s with
  | nil => rfl
  | cons a l ih =>
    rw [List.forall_mem_cons] at h
    rw [List.foldlM_cons, List.foldlM_cons, h.1 s]
    exact bind_congr fun s' => ih h.2 s'

theorem spendsCovenant_congr (hcb : tx.isCoinBase = false)
    (h : ∀ txin ∈ tx.vin, view.output? txin.prevout = view'.output? txin.prevout) :
    spendsCovenant view tx = spendsCovenant view' tx := by
  unfold spendsCovenant
  rw [hcb, Bool.eq_iff_iff, List.any_eq_true, List.any_eq_true]
  refine exists_congr fun txin => and_congr_right fun hmem => ?_
  rw [prevOutput, prevOutput, h txin hmem]

theorem checkUapRules_congr {node : Node} {nHeight : ℕ} (hcb : tx.isCoinBase = false)
    (h : ∀ txin ∈ tx.vin, view.output? txin.prevout = view'.output? txin.prevout) :
    checkUapRules node nHeight view tx = checkUapRules node nHeight view' tx := by
  have hlineage : ∀ txin ∈ tx.vin, ∀ lineages,
      collectLineage node.crypto view lineages txin = collectLineage node.crypto view' lineages txin := by
    intro txin hmem lineages
    simp only [collectLineage, h txin hmem]
  have hcreate : checkUapOutputCreation node.crypto tx view = checkUapOutputCreation node.crypto tx view' := by
    simp only [checkUapOutputCreation, hcb, Bool.false_eq_true, if_false, foldlM_congr hlineage]
  rw [checkUapRules, checkUapRules, hcreate, spendsCovenant_congr hcb h]

end

/-- What holds of the pool over the coins of a chain, while transactions with the pending txids may still come back.
The rules are those of a block at the height, in any view that has what the transaction spends. -/
structure PoolOk (node : Node) (hist : List CTransaction) (coins : CCoinsView) (pending : List Uint256) (nHeight : ℕ)
    (pool : List CTransaction) : Prop where
  known : ∀ tx ∈ pool, tx ∈ hist
  notCoinBase : ∀ tx ∈ pool, tx.isCoinBase = false
  inputs : ∀ tx ∈ pool, ∀ txin ∈ tx.vin, ∃ out, Made node.crypto hist txin.prevout out ∧
    (txin.prevout.hash ∈ pool.map node.crypto.txid ∨ coins.output? txin.prevout = some out ∨
      txin.prevout.hash ∈ pending)
  rules : ∀ tx ∈ pool, ∀ view : CCoinsView, view.MadeBy node.crypto hist → view.haveInputs tx = true →
    checkUapRules node nHeight view tx = .ok ()

section
variable {node : Node} {hist pool pool' : List CTransaction} {coins coins' : CCoinsView} {pending pending' : List Uint256}
  {nHeight : ℕ} {tx : CTransaction} {policy : MempoolPolicy} {chain : List CBlockIndex} {nSpendHeight : ℕ}

theorem hash_mem_parents {txin : CTxIn} (h : txin ∈ tx.vin) : txin.prevout.hash ∈ parents tx :=
  List.mem_map_of_mem h

/-- A part of the pool is fine over other coins, if these have what is no longer in the pool. -/
theorem PoolOk.of_keeps {lost : List Uint256} (h : PoolOk node hist coins pending nHeight pool)
    (hk : Keeps node.crypto.txid parents lost pool pool')
    (hcoins : ∀ tx ∈ pool', ∀ txin ∈ tx.vin, ∀ out, Made node.crypto hist txin.prevout out →
      coins.output? txin.prevout = some out ∨ txin.prevout.hash ∈ lost ∨ txin.prevout.hash ∈ pending →
        coins'.output? txin.prevout = some out ∨ txin.prevout.hash ∈ pending') :
    PoolOk node hist coins' pending' nHeight pool' where
  known tx htx := h.known tx (hk.sub tx htx)
  notCoinBase tx htx := h.notCoinBase tx (hk.sub tx htx)
  inputs tx htx txin hin := by
    obtain ⟨out, hmade, hsrc⟩ := h.inputs tx (hk.sub tx htx) txin hin
    refine ⟨out, hmade, ?_⟩
    rcases hsrc with hpool | hcoin | hpend
    · rcases hk.needed tx htx _ (hash_mem_parents hin) hpool with hkept | hlost
      · exact Or.inl hkept
      · exact Or.inr (hcoins tx htx txin hin out hmade (Or.inr (Or.inl hlost)))
    · exact Or.inr (hcoins tx htx txin hin out hmade (Or.inl hcoin))
    · exact Or.inr (hcoins tx htx txin hin out hmade (Or.inr (Or.inr hpend)))
  rules tx htx := h.rules tx (hk.sub tx htx)

theorem PoolOk.removeRecursive (h : PoolOk node hist coins pending nHeight pool) (roots : List Uint256) :
    PoolOk node hist coins pending nHeight (removeRecursive node.crypto roots pool) := by
  refine h.of_keeps (removeWithDependents_spec roots).1 ?_
  rintro tx - txin - out - (hcoin | hlost | hpend)
  · exact Or.inl hcoin
  · simp at hlost
  · exact Or.inr hpend

theorem PoolOk.append (h : PoolOk node hist coins pending nHeight pool) (htx : tx ∈ hist)
    (hcb : tx.isCoinBase = false)
    (hinputs : ∀ txin ∈ tx.vin, ∃ out, Made node.crypto hist txin.prevout out ∧
      (txin.prevout.hash ∈ pool.map node.crypto.txid ∨ coins.output? txin.prevout = some out))
    (hrules : ∀ view : CCoinsView, view.MadeBy node.crypto hist → view.haveInputs tx = true →
      checkUapRules node nHeight view tx = .ok ()) :
    PoolOk node hist coins pending nHeight (pool ++ [tx]) where
  known := by simpa [or_imp, forall_and] using ⟨h.known, htx⟩
  notCoinBase := by simpa [or_imp, forall_and] using ⟨h.notCoinBase, hcb⟩
  inputs tx' htx' txin hin := by
    rw [List.map_append]
    rcases List.mem_append.mp htx' with hold | hnew
    · obtain ⟨out, hmade, hsrc⟩ := h.inputs tx' hold txin hin
      exact ⟨out, hmade, hsrc.imp (List.mem_append_left _) id⟩
    · rw [List.mem_singleton.mp hnew] at hin
      obtain ⟨out, hmade, hsrc⟩ := hinputs txin hin
      exact ⟨out, hmade, hsrc.imp (List.mem_append_left _) Or.inl⟩
  rules tx' htx' := by
    rcases List.mem_append.mp htx' with hold | hnew
    · exact h.rules tx' hold
    · rw [List.mem_singleton.mp hnew]
      exact hrules

structure Admitted (node : Node) (nHeight : ℕ) (coins : CCoinsView) (pool : List CTransaction) (tx : CTransaction)
    (setConflicts : List Uint256) : Prop where
  notCoinBase : tx.isCoinBase = false
  haveInputs : (memPoolView node.crypto pool coins).haveInputs tx = true
  parents_kept : ∀ hash ∈ parents tx, hash ∈ pool.map node.crypto.txid →
    hash ∈ (removeRecursive node.crypto setConflicts pool).map node.crypto.txid
  rules : checkUapRules node nHeight (memPoolView node.crypto pool coins) tx = .ok ()

theorem admitted_of_checkForMempool {setConflicts : List Uint256}
    (h : checkForMempool node policy chain nSpendHeight coins pool tx = .ok setConflicts) :
    Admitted node chain.length coins pool tx setConflicts := by
  simp only [checkForMempool, bind_eq_ok, failIf_eq_ok, pure_eq_ok] at h
  obtain ⟨_, -, _, hcb, _, -, _, -, _, -, _, -, _, -, _, hinputs, _, hkept, _, hrules, _, -, _, -, rfl⟩ := h
  refine ⟨by simpa using hcb, by simpa using hinputs, ?_, hrules⟩
  intro hash hparent hmem
  by_contra hlost
  exact hkept ⟨hash, hparent, hmem, hlost⟩

/-- The rules hold in every view that has the inputs, since they hold in the one of the check. -/
theorem Admitted.checkUapRules {setConflicts : List Uint256} (hb : OutputsBound node.crypto hist)
    (h : Admitted node nHeight coins pool tx setConflicts) (hpool : ∀ tx ∈ pool, tx ∈ hist)
    (hcoins : coins.MadeBy node.crypto hist) (view : CCoinsView) (hview : view.MadeBy node.crypto hist)
    (hinputs : view.haveInputs tx = true) : checkUapRules node nHeight view tx = .ok () := by
  rw [← h.rules]
  exact checkUapRules_congr h.notCoinBase
    (hb.output?_eq hview (madeBy_memPoolView hpool hcoins) h.notCoinBase hinputs h.haveInputs)

theorem PoolOk.acceptToMemoryPool (hb : OutputsBound node.crypto hist) (hcoins : coins.MadeBy node.crypto hist)
    (htx : tx ∈ hist) (h : PoolOk node hist coins pending chain.length pool) :
    PoolOk node hist coins pending chain.length
      (acceptToMemoryPool node policy chain nSpendHeight coins pool tx).2 := by
  unfold Validation.acceptToMemoryPool
  cases hcheck : checkForMempool node policy chain nSpendHeight coins pool tx with
  | error r => exact h
  | ok setConflicts =>
    have hadm := admitted_of_checkForMempool hcheck
    have hadded : PoolOk node hist coins pending chain.length
        (Validation.removeRecursive node.crypto setConflicts pool ++ [tx]) := by
      refine (h.removeRecursive setConflicts).append htx hadm.notCoinBase ?_ (hadm.checkUapRules hb h.known hcoins)
      intro txin hin
      obtain ⟨out, hout⟩ := (haveInputs_iff hadm.notCoinBase).mp hadm.haveInputs txin hin
      refine ⟨out, madeBy_memPoolView h.known hcoins _ _ hout, (output?_memPoolView hout).imp ?_ id⟩
      rintro ⟨parent, hparent, hid, -⟩
      exact hadm.parents_kept _ (hash_mem_parents hin) (hid ▸ List.mem_map_of_mem hparent)
    dsimp only
    split_ifs
    · exact hadded.removeRecursive _
    · exact hadded.removeRecursive _

theorem PoolOk.of_mem {hash : Uint256} (h : PoolOk node hist coins (hash :: pending) nHeight pool)
    (hmem : hash ∈ pool.map node.crypto.txid) : PoolOk node hist coins pending nHeight pool := by
  refine ⟨h.known, h.notCoinBase, ?_, h.rules⟩
  intro tx htx txin hin
  obtain ⟨out, hmade, hsrc⟩ := h.inputs tx htx txin hin
  refine ⟨out, hmade, ?_⟩
  rcases hsrc with hpool | hcoin | hpend
  · exact Or.inl hpool
  · exact Or.inr (Or.inl hcoin)
  · rcases List.mem_cons.mp hpend with hself | hpend
    · exact Or.inl (hself ▸ hmem)
    · exact Or.inr (Or.inr hpend)

/-- Nor is one that will not come back, once all that depends on it has left. -/
theorem PoolOk.removePending {hash : Uint256} (h : PoolOk node hist coins (hash :: pending) nHeight pool) :
    PoolOk node hist coins pending nHeight (Validation.removeRecursive node.crypto [hash] pool) := by
  obtain ⟨hkeeps, hfree⟩ := @removeWithDependents_spec _ _ node.crypto.txid parents pool _ [hash]
  refine h.of_keeps hkeeps ?_
  rintro tx htx txin hin out - (hcoin | hlost | hpend)
  · exact Or.inl hcoin
  · simp at hlost
  · rcases List.mem_cons.mp hpend with hself | hpend
    · exact absurd (List.mem_singleton.mpr hself) ((hfree tx htx).2 _ (hash_mem_parents hin))
    · exact Or.inr hpend

theorem PoolOk.resurrect (hb : OutputsBound node.crypto hist) (hcoins : coins.MadeBy node.crypto hist)
    (htx : tx ∈ hist) (h : PoolOk node hist coins (node.crypto.txid tx :: pending) chain.length pool) :
    PoolOk node hist coins pending chain.length (resurrect node policy chain coins pool tx) := by
  unfold Validation.resurrect
  split_ifs
  · exact h.removePending
  · have haccept := @PoolOk.acceptToMemoryPool _ _ _ _ _ _ { policy with evicted := [] } _ (chain.length - 1)
      hb hcoins htx h
    split
    · next pool' heq =>
      rw [heq] at haccept
      apply haccept.of_mem
      unfold Validation.acceptToMemoryPool at heq
      split at heq
      · cases heq
      · dsimp only at heq
        split_ifs at heq with hmem
        · rwa [← (Prod.mk.inj heq).2]
        · cases heq
    · next pool' heq =>
      rw [heq] at haccept
      exact haccept.removePending

theorem PoolOk.foldl_resurrect (hb : OutputsBound node.crypto hist) (hcoins : coins.MadeBy node.crypto hist)
    {vtx : List CTransaction} (hvtx : ∀ tx ∈ vtx, tx ∈ hist)
    (h : PoolOk node hist coins (vtx.map node.crypto.txid) chain.length pool) :
    PoolOk node hist coins [] chain.length (vtx.foldl (Validation.resurrect node policy chain coins) pool) := by
  induction vtx generalizing pool with
  | nil => exact h
  | cons tx vtx ih =>
    rw [List.forall_mem_cons] at hvtx
    exact ih hvtx.2 (h.resurrect hb hcoins hvtx.1)

theorem removeConflicts_spec {crypto : Crypto} (tx : CTransaction) (pool : List CTransaction) :
    Keeps crypto.txid parents [] pool (removeConflicts crypto tx pool) ∧
      ∀ other ∈ removeConflicts crypto tx pool, crypto.txid other ≠ crypto.txid tx →
        ∀ txin ∈ tx.vin, spendsOutPoint txin.prevout other = false := by
  unfold removeConflicts
  induction tx.vin generalizing pool with
  | nil => exact ⟨.refl, by simp⟩
  | cons txin vin ih =>
    rw [List.foldl_cons]
    generalize hpool' : removeRecursive crypto _ pool = pool'
    obtain ⟨hkeeps, hfree⟩ := @removeWithDependents_spec _ _ crypto.txid parents pool _
      (((nextTx pool txin.prevout).filter fun other => crypto.txid other ≠ crypto.txid tx).map crypto.txid)
    rw [← removeRecursive, hpool'] at hkeeps hfree
    obtain ⟨hkeeps', hfree'⟩ := ih pool'
    refine ⟨by simpa using hkeeps.trans hkeeps', ?_⟩
    intro other hother hne
    refine List.forall_mem_cons.mpr ⟨?_, hfree' other hother hne⟩
    have hmem := hkeeps'.sub other hother
    by_contra hspends
    refine (hfree other hmem).1 (List.mem_map_of_mem (List.mem_filter.mpr ⟨?_, by simpa using hne⟩))
    exact List.mem_filter.mpr ⟨hkeeps.sub other hmem, by simpa using hspends⟩

theorem removeForBlock_spec {crypto : Crypto} (vtx pool : List CTransaction) :
    Keeps crypto.txid parents (vtx.map crypto.txid) pool (removeForBlock crypto vtx pool) ∧
      ∀ other ∈ removeForBlock crypto vtx pool, ∀ tx ∈ vtx, ∀ txin ∈ tx.vin,
        spendsOutPoint txin.prevout other = false := by
  unfold removeForBlock
  induction vtx generalizing pool with
  | nil => exact ⟨.refl, by simp⟩
  | cons tx vtx ih =>
    rw [List.foldl_cons]
    have hfilter := @keeps_filter_key _ _ crypto.txid parents pool _ [crypto.txid tx]
    simp only [List.mem_singleton, ← ne_eq] at hfilter
    obtain ⟨hkeeps, hfree⟩ := @removeConflicts_spec crypto tx (pool.filter fun other => crypto.txid other ≠ crypto.txid tx)
    obtain ⟨hkeeps', hfree'⟩ := ih (removeConflicts crypto tx (pool.filter fun other => crypto.txid other ≠ crypto.txid tx))
    refine ⟨by simpa using (hfilter.trans hkeeps).trans hkeeps', ?_⟩
    intro other hother
    refine List.forall_mem_cons.mpr ⟨?_, hfree' other hother⟩
    have hmem := hkeeps'.sub other hother
    exact hfree other hmem (by simpa using (List.mem_filter.mp (hkeeps.sub other hmem)).2)

end
end Whippet.Validation
