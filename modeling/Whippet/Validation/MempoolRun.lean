import Whippet.Validation.DisconnectRun
import Whippet.Validation.MempoolRules

/-! Runs of the node: the pool and the UAP rules over connected and disconnected blocks. -/
namespace Whippet.Validation
open Lib Primitives Script Consensus

/-- The undo data of a transaction holds the outputs it spends. -/
def UndoOf (crypto : Crypto) (hist : List CTransaction) (tx : CTransaction) (undo : List CTxInUndo) : Prop :=
  ∀ e ∈ tx.vin.zip undo, Made crypto hist e.1.prevout e.2.txout

/-- What the view inside a block has: what the block has found or made, and has not spent. -/
structure BlockView (crypto : Crypto) (hist : List CTransaction) (base : CCoinsView) (done : List CTransaction)
    (view : CCoinsView) : Prop where
  made : view.MadeBy crypto hist
  kept : ∀ q out, Made crypto hist q out → (∀ tx ∈ done, q ∉ txSpends tx) →
    base.output? q = some out ∨ q.hash ∈ done.map crypto.txid → view.output? q = some out

section
variable {crypto : Crypto} {hist done : List CTransaction} {base view view' : CCoinsView} {tx : CTransaction}
  {nHeight : ℕ} {undo : List CTxInUndo}

theorem CCoinsView.MadeBy.update (h : view.MadeBy crypto hist) (htx : tx ∈ hist)
    (hupdate : updateCoins? crypto tx view nHeight = some (view', undo)) : view'.MadeBy crypto hist := by
  intro q out hout
  rw [(updates_of_updateCoins? hupdate).output] at hout
  split_ifs at hout with hid hspent
  · exact ⟨tx, htx, hid.symm, hout⟩
  · exact h q out hout

theorem BlockView.update (hb : OutputsBound crypto hist) (h : BlockView crypto hist base done view) (htx : tx ∈ hist)
    (hupdate : updateCoins? crypto tx view nHeight = some (view', undo)) :
    BlockView crypto hist base (done ++ [tx]) view' := by
  refine ⟨h.made.update htx hupdate, ?_⟩
  intro q out hmade hunspent hsrc
  rw [(updates_of_updateCoins? hupdate).output]
  split_ifs with hid hspent
  · exact hb.txCoin?_eq hmade htx hid.symm
  · exact absurd hspent (hunspent tx (by simp))
  · refine h.kept q out hmade (fun tx' htx' => hunspent tx' (List.mem_append_left _ htx')) (hsrc.imp id fun hmem => ?_)
    simpa [hid] using hmem

theorem undoOf_of_updateCoins? (hview : view.MadeBy crypto hist)
    (hupdate : updateCoins? crypto tx view nHeight = some (view', undo)) : UndoOf crypto hist tx undo := by
  obtain ⟨mid, undo', hspend, -, rfl⟩ := updateCoins?_inv hupdate
  split_ifs at hspend with hcb
  · obtain ⟨-, rfl⟩ : view = mid ∧ [] = undo' := by simpa [spendInputs?] using hspend
    simp [UndoOf]
  · obtain ⟨-, houts, -⟩ := spendInputs?_eq_some hspend
    rintro ⟨txin, u⟩ hmem
    obtain ⟨i, hi⟩ := List.mem_iff_getElem?.mp hmem
    obtain ⟨hin, hu⟩ := List.getElem?_zip_eq_some.mp hi
    have hout := congrArg (·[i]?) houts
    simp only [List.getElem?_map, hin, hu, Option.map_some, Option.some.injEq] at hout
    exact hview _ _ hout

theorem applyTxInUndo_clean {undo : CTxInUndo} {p : COutPoint} (h : applyTxInUndo undo view p = (view', true)) :
    view.output? p = none ∧ (∀ q, q ≠ p → view'.output? q = view.output? q) ∧
      ∀ out, view'.output? p = some out → out = undo.txout := by
  have hold : ∀ q : COutPoint, q.hash = p.hash → view.output? q = (view.modifyCoins p.hash).output? q.n := by
    intro q hq
    rw [CCoinsView.output?, hq, CCoinsView.modifyCoins]
    cases view.lookup p.hash with
    | none => rfl
    | some coins => rfl
  unfold applyTxInUndo at h
  generalize view.modifyCoins p.hash = old at h hold
  simp only [Prod.mk.injEq, Bool.and_eq_true, Option.isNone_iff_eq_none] at h
  obtain ⟨rfl, hclean, hfree⟩ := h
  -- the coins that the output is put into have what the view had there
  have hcoins : ∀ n, (if undo.nHeight ≠ 0 then ⟨undo.fCoinBase, [], undo.nHeight, undo.nVersion⟩ else old :
      CCoins).output? n = old.output? n := by
    intro n
    split_ifs at hclean ⊢ with hheight
    · rw [CCoins.output?_of_isPruned hclean]
      rfl
    · rfl
  generalize (if undo.nHeight ≠ 0 then ⟨undo.fCoinBase, [], undo.nHeight, undo.nVersion⟩ else old : CCoins) = coins
    at hfree hcoins ⊢
  have hout : ∀ q : COutPoint, (view.setCoins p.hash { coins with
      vout := CCoins.cleanup ((resizeOutputs coins.vout (p.n.toNat + 1)).set p.n.toNat undo.txout) }).output? q =
      if q.hash = p.hash then available? ((resizeOutputs coins.vout (p.n.toNat + 1)).set p.n.toNat undo.txout) q.n.toNat
      else view.output? q := by
    intro q
    rw [CCoinsView.output?_setCoins]
    congr 1
    exact available?_cleanup _ _
  refine ⟨by rw [hold p rfl, ← hcoins, hfree], ?_, ?_⟩
  · intro q hq
    rw [hout]
    split_ifs with hhash
    · have hn : p.n.toNat ≠ q.n.toNat := by
        intro heq
        exact hq (COutPoint.ext hhash (UInt32.toNat_inj.mp heq.symm))
      rw [available?_set_ne hn, available?_resizeOutputs, hold q hhash, ← hcoins]
      rfl
    · rfl
  · intro out hp
    rw [hout, if_pos rfl, available?] at hp
    have hget := (Option.filter_eq_some_iff.mp hp).1
    rw [List.getElem?_set, if_pos rfl] at hget
    split_ifs at hget
    exact (Option.some.inj hget).symm

/-- What a step back leaves: outputs that were made, and all that was there before. -/
structure Restores (crypto : Crypto) (hist : List CTransaction) (lost : List Uint256) (view view' : CCoinsView) :
    Prop where
  made : view'.MadeBy crypto hist
  kept : ∀ q out, view.output? q = some out → q.hash ∉ lost → view'.output? q = some out

theorem restoreInputs_clean {l : List (CTxIn × CTxInUndo)} (hview : view.MadeBy crypto hist)
    (hundo : ∀ e ∈ l, Made crypto hist e.1.prevout e.2.txout) (h : restoreInputs l view = (view', true)) :
    Restores crypto hist [] view view' := by
  induction l generalizing view' with
  | nil =>
    obtain rfl : view = view' := by simpa [restoreInputs] using h
    exact ⟨hview, fun _ _ hout _ => hout⟩
  | cons e l ih =>
    rw [List.forall_mem_cons] at hundo
    simp only [restoreInputs, Prod.mk.injEq, Bool.and_eq_true] at h
    obtain ⟨rfl, hclean, hrestored⟩ := h
    have hrest := ih hundo.2 (Prod.ext rfl hclean)
    obtain ⟨hfree, hother, hput⟩ := applyTxInUndo_clean (Prod.ext rfl hrestored)
    constructor
    · intro q out hout
      by_cases hq : q = e.1.prevout
      · subst hq
        exact hput out hout ▸ hundo.1
      · exact hrest.made q out (hother q hq ▸ hout)
    · intro q out hout hlost
      have hbefore := hrest.kept q out hout hlost
      have hq : q ≠ e.1.prevout := by
        rintro rfl
        simp [hfree] at hbefore
      rw [hother q hq, hbefore]

theorem output?_removeOutputs (q : COutPoint) :
    (removeOutputs crypto tx nHeight view).1.output? q =
      if q.hash = crypto.txid tx then none else view.output? q := by
  unfold CCoinsView.output? removeOutputs
  split_ifs with hid
  · rw [hid, Finmap.lookup_erase]
    rfl
  · rw [Finmap.lookup_erase_ne hid]

theorem removeOutputs_restores (hview : view.MadeBy crypto hist) :
    Restores crypto hist [crypto.txid tx] view (removeOutputs crypto tx nHeight view).1 where
  made q out hout := by
    rw [output?_removeOutputs] at hout
    split_ifs at hout
    exact hview q out hout
  kept q out hout hlost := by
    rw [output?_removeOutputs, if_neg (by simpa using hlost), hout]

theorem Restores.trans {lost lost' : List Uint256} {last : CCoinsView} (h : Restores crypto hist lost view view')
    (h' : Restores crypto hist lost' view' last) : Restores crypto hist (lost' ++ lost) view last where
  made := h'.made
  kept q out hout hlost := by
    rw [List.mem_append, not_or] at hlost
    exact h'.kept q out (h.kept q out hout hlost.2) hlost.1

theorem disconnectTxs_clean {l : List (CTransaction × Option (List CTxInUndo))} (hview : view.MadeBy crypto hist)
    (hundo : ∀ e ∈ l, ∀ undo, e.2 = some undo → UndoOf crypto hist e.1 undo)
    (h : disconnectTxs crypto nHeight l view = .ok (view', true)) :
    Restores crypto hist (l.map fun e => crypto.txid e.1) view view' ∧
      ∀ e ∈ l, ∀ undo, e.2 = some undo → undo.length = e.1.vin.length := by
  induction l generalizing view' with
  | nil =>
    obtain rfl : view = view' := by simpa [disconnectTxs] using h
    exact ⟨⟨hview, fun _ _ hout _ => hout⟩, by simp⟩
  | cons e l ih =>
    obtain ⟨tx, txundo⟩ := e
    rw [List.forall_mem_cons] at hundo
    simp only [disconnectTxs, bind_eq_ok] at h
    obtain ⟨⟨mid, fClean⟩, hrest, h⟩ := h
    cases txundo with
    | none =>
      simp only [Except.ok.injEq, Prod.mk.injEq, Bool.and_eq_true] at h
      obtain ⟨rfl, rfl, -⟩ := h
      obtain ⟨hback, hlen⟩ := ih hundo.2 hrest
      refine ⟨hback.trans (removeOutputs_restores hback.made), List.forall_mem_cons.mpr ⟨by simp, hlen⟩⟩
    | some undo =>
      simp only [bind_eq_ok, failIf_eq_ok, Except.ok.injEq, Prod.mk.injEq, Bool.and_eq_true, ne_eq, not_not] at h
      obtain ⟨_, hsize, rfl, ⟨rfl, -⟩, hrestored⟩ := h
      obtain ⟨hback, hlen⟩ := ih hundo.2 hrest
      have hremoved := hback.trans (@removeOutputs_restores _ _ _ tx nHeight hback.made)
      have hput := restoreInputs_clean hremoved.made (hundo.1 undo rfl) (Prod.ext rfl hrestored)
      refine ⟨by simpa using hremoved.trans hput, List.forall_mem_cons.mpr ⟨?_, hlen⟩⟩
      rintro undo' hundo'
      obtain rfl : undo = undo' := by simpa using hundo'
      exact hsize

end

/-- A block on disk with its undo data. -/
structure StoredOk (crypto : Crypto) (hist : List CTransaction) (e : CBlock × List (List CTxInUndo)) : Prop where
  known : ∀ tx ∈ e.1.vtx, tx ∈ hist
  coinbase : ∀ tx ∈ e.1.vtx.head?, tx.isCoinBase = true
  undo : ∀ p ∈ e.1.vtx.tail.zip e.2, UndoOf crypto hist p.1 p.2

/-- What holds of the node between events. -/
structure NodeInv (node : Node) (hist : List CTransaction) (s : NodeState) : Prop where
  length_eq : s.chain.length = s.stored.length
  coins : s.coins.MadeBy node.crypto hist
  stored : ∀ e ∈ s.stored, StoredOk node.crypto hist e
  pool : PoolOk node hist s.coins [] s.chain.length s.pool

section
variable {node : Node} {hist pool : List CTransaction} {s : NodeState} {block : CBlock} {coins view : CCoinsView}
  {t : ChainState} {undo : List (List CTxInUndo)} {tx : CTransaction} {nHeight nHeight' : ℕ} {policy : MempoolPolicy}

variable {t' : ChainState}

theorem connectBlock_genesis (hgenesis : isGenesis node block = true)
    (h : connectBlock node t block false = .ok (t', undo)) :
    t'.chain = t.chain ++ [node.crypto.blockIndex block.toCBlockHeader] ∧ t'.coins = t.coins ∧ undo = [] := by
  have hconn : connect node t block = .ok t' := by rw [connect, h, Except.map]
  obtain ⟨hchain, -, hcoins⟩ := connect_eq_ok hconn
  rw [if_pos hgenesis] at hcoins
  simp only [isGenesis, decide_eq_true_eq] at hgenesis
  simp only [connectBlock, bind_eq_ok, failIf_eq_ok, hgenesis, if_true, Except.ok.injEq, Prod.mk.injEq] at h
  obtain ⟨_, -, _, -, -, hundo⟩ := h
  exact ⟨hchain, hcoins, hundo.symm⟩

theorem madeBy_of_connectBlock (hcoins : t.coins.MadeBy node.crypto hist) (hvtx : ∀ tx ∈ block.vtx, tx ∈ hist)
    (h : connectBlock node t block false = .ok (t', undo)) :
    t'.coins.MadeBy node.crypto hist ∧ StoredOk node.crypto hist (block, undo) := by
  have hconn : connect node t block = .ok t' := by rw [connect, h, Except.map]
  obtain ⟨coinbase, txs, heq, hcb⟩ := coinbase_of_checkBlock (connect_eq_ok hconn).2.1
  cases hgenesis : isGenesis node block with
  | true =>
    obtain ⟨-, hsame, hundo⟩ := connectBlock_genesis hgenesis h
    exact ⟨hsame ▸ hcoins, hvtx, by simpa [heq] using hcb, by simp [hundo]⟩
  | false =>
    obtain ⟨-, c, hc, rfl, rfl⟩ := connectBlock_eq_ok hgenesis h
    have hrun := foldlM_ok (P := fun done (c : ConnectState) => c.view.MadeBy node.crypto hist ∧
      List.Forall₂ (UndoOf node.crypto hist) done c.vtxundo) (foldlM_of_connectTxs hc) ⟨hcoins, .nil⟩ (by
        rintro done tx c c' hmem ⟨hview, hundo⟩ hstep
        obtain ⟨undo, hupdate, hundos⟩ := connectTx_eq_ok hstep
        refine ⟨hview.update (hvtx tx hmem) hupdate, ?_⟩
        rw [hundos]
        exact List.rel_append hundo (.cons (undoOf_of_updateCoins? hview hupdate) .nil))
    refine ⟨hrun.1, hvtx, by simpa [heq] using hcb, ?_⟩
    have hundo := hrun.2
    rw [heq] at hundo
    obtain ⟨_, undos, -, htail, hundos⟩ := List.forall₂_cons_left_iff.mp hundo
    simp only [heq, hundos, List.tail_cons]
    exact fun p hp => (List.forall₂_iff_zip.mp htail).2 hp

theorem blockView_of_connectBlock (hb : OutputsBound node.crypto hist) (hcoins : t.coins.MadeBy node.crypto hist)
    (hvtx : ∀ tx ∈ block.vtx, tx ∈ hist) (hgenesis : isGenesis node block = false)
    (h : connectBlock node t block false = .ok (t', undo)) : BlockView node.crypto hist t.coins block.vtx t'.coins := by
  obtain ⟨-, c, hc, rfl, -⟩ := connectBlock_eq_ok hgenesis h
  refine foldlM_ok (P := fun done (c : ConnectState) => BlockView node.crypto hist t.coins done c.view)
    (foldlM_of_connectTxs hc) ⟨hcoins, by simp⟩ ?_
  intro done tx c c' hmem hview hstep
  obtain ⟨undo, hupdate, -⟩ := connectTx_eq_ok hstep
  exact hview.update hb (hvtx tx hmem) hupdate

theorem PoolOk.connect (h : PoolOk node hist coins [] nHeight pool)
    (hview : BlockView node.crypto hist coins block.vtx view) :
    PoolOk node hist view [] nHeight (removeForBlock node.crypto block.vtx pool) := by
  obtain ⟨hkeeps, hfree⟩ := @removeForBlock_spec node.crypto block.vtx pool
  refine h.of_keeps hkeeps ?_
  rintro tx htx txin hin out hmade hsrc
  refine Or.inl (hview.kept _ out hmade ?_ (hsrc.imp id fun hlost => hlost.resolve_right (by simp)))
  intro b hmem hspent
  rw [txSpends] at hspent
  split_ifs at hspent
  · simp at hspent
  · obtain ⟨txin', hin', heq⟩ := List.mem_map.mp hspent
    have hnot := hfree tx htx b hmem txin' hin'
    simp only [spendsOutPoint, List.any_eq_false, decide_eq_true_eq] at hnot
    exact hnot txin hin heq.symm

/-- The rules depend on the height only through the activation. -/
theorem PoolOk.of_active_eq (h : PoolOk node hist coins [] nHeight pool)
    (hactive : uapMintActive node nHeight = uapMintActive node nHeight') : PoolOk node hist coins [] nHeight' pool := by
  refine ⟨h.known, h.notCoinBase, h.inputs, ?_⟩
  intro tx htx view hview hinputs
  have hrules := h.rules tx htx view hview hinputs
  rwa [checkUapRules, hactive] at hrules

/-- Where the creation rule applies, a transaction without transfer outputs passes it. -/
theorem PoolOk.of_active (h : PoolOk node hist coins [] nHeight pool) (hactive : uapMintActive node nHeight' = true)
    (hnone : ∀ tx ∈ pool, tx.vout.any isTransferOutput = false) : PoolOk node hist coins [] nHeight' pool := by
  refine ⟨h.known, h.notCoinBase, h.inputs, ?_⟩
  intro tx htx view _ _
  simp [checkUapRules, hactive, checkUapOutputCreation, hnone tx htx]

/-- Where the opcodes are not active, a transaction that spends no covenant passes. -/
theorem PoolOk.of_inactive (h : PoolOk node hist coins [] nHeight pool) (hactive : uapMintActive node nHeight' = false)
    (hnone : ∀ tx ∈ pool, ∀ view : CCoinsView, view.MadeBy node.crypto hist → view.haveInputs tx = true →
      spendsCovenant view tx = false) : PoolOk node hist coins [] nHeight' pool := by
  refine ⟨h.known, h.notCoinBase, h.inputs, ?_⟩
  intro tx htx view hview hinputs
  simp [checkUapRules, hactive, hnone tx htx view hview hinputs]

theorem PoolOk.haveInputs (hb : OutputsBound node.crypto hist) (h : PoolOk node hist coins [] nHeight pool)
    (htx : tx ∈ pool) : (memPoolView node.crypto pool coins).haveInputs tx = true := by
  rw [haveInputs_iff (h.notCoinBase tx htx)]
  intro txin hin
  obtain ⟨out, hmade, hsrc⟩ := h.inputs tx htx txin hin
  exact ⟨out, hb.output?_memPoolView h.known hmade (hsrc.imp id fun hcoin => hcoin.resolve_right (by simp))⟩

theorem spendsCovenant_eq_false (hcb : tx.isCoinBase = false) : spendsCovenant view tx = false ↔
    ∀ txin ∈ tx.vin, parseUapOutputScript? (prevOutput view txin).scriptPubKey = none := by
  simp [spendsCovenant, hcb]

theorem restores_of_disconnectBlock (hcoins : t.coins.MadeBy node.crypto hist)
    (hstored : StoredOk node.crypto hist (block, undo))
    (h : disconnectBlock node.crypto t block undo = .ok (t', true)) :
    t'.chain = t.chain.dropLast ∧ Restores node.crypto hist (block.vtx.map node.crypto.txid) t.coins t'.coins ∧
      List.Forall₂ (fun tx txundo => txundo.length = tx.vin.length) block.vtx.tail undo := by
  simp only [disconnectBlock, bind_eq_ok, failIf_eq_ok] at h
  obtain ⟨_, hlen, ⟨view, fClean⟩, htxs, h⟩ := h
  simp only [Except.ok.injEq, Prod.mk.injEq] at h
  obtain ⟨rfl, rfl⟩ := h
  obtain ⟨coinbase, txs, hvtx⟩ : ∃ coinbase txs, block.vtx = coinbase :: txs :=
    List.exists_cons_of_length_eq_add_one (n := undo.length) (by omega)
  have hundo := hstored.undo
  simp only [hvtx, List.tail_cons] at hundo
  simp only [hvtx, List.zip_cons_cons] at htxs
  have hzip : ∀ e ∈ txs.zip (undo.map some), ∃ u, e.2 = some u ∧ (e.1, u) ∈ txs.zip undo := by
    rintro ⟨tx, txundo⟩ hmem
    rw [List.zip_map_right] at hmem
    obtain ⟨⟨tx', u⟩, hmem', heq⟩ := List.mem_map.mp hmem
    obtain ⟨rfl, rfl⟩ : tx' = tx ∧ some u = txundo := by simpa using heq
    exact ⟨u, rfl, hmem'⟩
  obtain ⟨hrestores, hsizes⟩ := disconnectTxs_clean hcoins (by
    refine List.forall_mem_cons.mpr ⟨by simp, ?_⟩
    intro e he u hu
    obtain ⟨u', hu', hmem⟩ := hzip e he
    obtain rfl : u' = u := Option.some.inj (hu'.symm.trans hu)
    exact hundo _ hmem) htxs
  refine ⟨rfl, ?_, ?_⟩
  · refine ⟨hrestores.made, fun q out hout hlost => hrestores.kept q out hout ?_⟩
    rw [hvtx] at hlost
    intro hmem
    refine hlost ?_
    obtain ⟨e, he, heq⟩ := List.mem_map.mp hmem
    rw [← heq]
    rcases List.mem_cons.mp he with rfl | he
    · exact List.mem_cons_self
    · exact List.mem_cons_of_mem _ (List.mem_map_of_mem (List.of_mem_zip he).1)
  · rw [hvtx, List.tail_cons, List.forall₂_iff_zip]
    refine ⟨by rw [hvtx, List.length_cons] at hlen; omega, fun {tx u} hmem => ?_⟩
    refine hsizes (tx, some u) (List.mem_cons_of_mem _ ?_) u rfl
    rw [List.zip_map_right]
    exact List.mem_map.mpr ⟨(tx, u), hmem, rfl⟩

theorem mem_of_mem_removeRecursive {roots : List Uint256} (h : tx ∈ removeRecursive node.crypto roots pool) : tx ∈ pool :=
  (removeWithDependents_spec roots).1.sub tx h

theorem mem_of_mem_acceptToMemoryPool {chain : List CBlockIndex} {nSpendHeight : ℕ} {new : CTransaction}
    (h : tx ∈ (acceptToMemoryPool node policy chain nSpendHeight coins pool new).2) : tx ∈ pool ∨ tx = new := by
  unfold acceptToMemoryPool at h
  split at h
  · exact Or.inl h
  · next setConflicts _ =>
    have hadded : tx ∈ removeRecursive node.crypto setConflicts pool ++ [new] := by
      dsimp only at h
      split_ifs at h <;> exact mem_of_mem_removeRecursive h
    exact (List.mem_append.mp hadded).imp mem_of_mem_removeRecursive List.mem_singleton.mp

theorem mem_of_mem_foldl_resurrect {chain : List CBlockIndex} {vtx : List CTransaction}
    (h : tx ∈ vtx.foldl (resurrect node policy chain coins) pool) : tx ∈ pool ∨ tx ∈ vtx := by
  induction vtx generalizing pool with
  | nil => exact Or.inl h
  | cons b vtx ih =>
    rcases ih h with hmem | hmem
    · have hboth : tx ∈ pool ∨ tx = b := by
        unfold resurrect at hmem
        split_ifs at hmem
        · exact Or.inl (mem_of_mem_removeRecursive hmem)
        · have haccept : tx ∈ (acceptToMemoryPool node { policy with evicted := [] } chain (chain.length - 1) coins pool
              b).2 → tx ∈ pool ∨ tx = b := mem_of_mem_acceptToMemoryPool
          split at hmem
          · next heq =>
            rw [heq] at haccept
            exact haccept hmem
          · next heq =>
            rw [heq] at haccept
            exact haccept (mem_of_mem_removeRecursive hmem)
      rcases hboth with hpool | rfl
      · exact Or.inl hpool
      · exact Or.inr List.mem_cons_self
    · exact Or.inr (List.mem_cons_of_mem _ hmem)

/-- An event does not take the chain across the activation height while it matters to the pool: no transfer output is
in the pool when the creation rule starts to apply, and no covenant is spent in the pool or in the disconnected block
when the opcodes cease to be active. And the genesis block comes before any transaction. -/
def CrossesClear (node : Node) (s : NodeState) : MempoolEvent → Prop
  | .connectTip block => (isGenesis node block = true → s.pool = []) ∧
      (s.chain.length + 1 = (node.params.getConsensus 0).uapMintHeight →
        ∀ tx ∈ s.pool, tx.vout.any isTransferOutput = false)
  | .disconnectTip _ => s.chain.length = (node.params.getConsensus 0).uapMintHeight →
      (∀ tx ∈ s.pool, spendsCovenant (memPoolView node.crypto s.pool s.coins) tx = false) ∧
        ∀ e ∈ s.stored.getLast?, ∀ u ∈ e.2.flatten, parseUapOutputScript? u.txout.scriptPubKey = none
  | .acceptToMemoryPool _ _ | .removeForReorg _ => True

theorem removeForBlock_nil (crypto : Crypto) (vtx : List CTransaction) : removeForBlock crypto vtx [] = [] :=
  List.eq_nil_iff_forall_not_mem.mpr fun tx htx => by
    simpa using (removeForBlock_spec vtx []).1.sub tx htx

theorem NodeInv.connectGenesis (h : NodeInv node hist s) (hvtx : ∀ tx ∈ block.vtx, tx ∈ hist)
    (hpool : s.pool = []) (hgenesis : isGenesis node block = true)
    (hconnect : connectBlock node s.toChainState block false = .ok (t, undo)) :
    NodeInv node hist ⟨t, s.stored ++ [(block, undo)], removeForBlock node.crypto block.vtx s.pool⟩ := by
  obtain ⟨hchain, -, -⟩ := connectBlock_genesis hgenesis hconnect
  obtain ⟨hcoins, hstored⟩ := madeBy_of_connectBlock h.coins hvtx hconnect
  refine ⟨by simp [hchain, h.length_eq], hcoins, ?_, ?_⟩
  · intro e he
    rcases List.mem_append.mp he with hold | hnew
    · exact h.stored e hold
    · rw [List.mem_singleton.mp hnew]
      exact hstored
  · rw [hpool, removeForBlock_nil]
    exact ⟨by simp, by simp, by simp, by simp⟩

theorem NodeInv.connectTip (hb : OutputsBound node.crypto hist) (h : NodeInv node hist s)
    (hvtx : ∀ tx ∈ block.vtx, tx ∈ hist) (hok : CrossesClear node s (.connectTip block)) :
    NodeInv node hist (connectTip node s block) := by
  unfold Validation.connectTip
  split
  · exact h
  · next t undo hconnect =>
    cases hgenesis : isGenesis node block with
    | true => exact h.connectGenesis hvtx (hok.1 hgenesis) hgenesis hconnect
    | false =>
      have hview := blockView_of_connectBlock hb h.coins hvtx hgenesis hconnect
      have hstored := (madeBy_of_connectBlock h.coins hvtx hconnect).2
      obtain ⟨-, c, -, rfl, -⟩ := connectBlock_eq_ok hgenesis hconnect
      constructor
      · simp [h.length_eq]
      · exact hview.made
      · intro e he
        rcases List.mem_append.mp he with hold | hnew
        · exact h.stored e hold
        · rw [List.mem_singleton.mp hnew]
          exact hstored
      · have hpool := h.pool.connect hview
        by_cases hcross : s.chain.length + 1 = (node.params.getConsensus 0).uapMintHeight
        · refine hpool.of_active (by simp [uapMintActive, hcross]) ?_
          intro tx htx
          exact hok.2 hcross tx ((removeForBlock_spec _ _).1.sub tx htx)
        · refine hpool.of_active_eq ?_
          simp only [uapMintActive, List.length_append, List.length_singleton, decide_eq_decide]
          omega

theorem spendsCovenant_of_undo (hb : OutputsBound node.crypto hist) (hcb : tx.isCoinBase = false)
    {txundo : List CTxInUndo} (hundo : UndoOf node.crypto hist tx txundo) (hlen : txundo.length = tx.vin.length)
    (hnone : ∀ u ∈ txundo, parseUapOutputScript? u.txout.scriptPubKey = none) (hview : view.MadeBy node.crypto hist)
    (hinputs : view.haveInputs tx = true) : spendsCovenant view tx = false := by
  rw [spendsCovenant_eq_false hcb]
  intro txin hin
  obtain ⟨out, hout⟩ := (haveInputs_iff hcb).mp hinputs txin hin
  obtain ⟨i, hi, rfl⟩ := List.mem_iff_getElem.mp hin
  have hi' : i < txundo.length := hlen ▸ hi
  have hzip : (tx.vin[i], txundo[i]) ∈ tx.vin.zip txundo :=
    List.mem_iff_getElem.mpr ⟨i, by simp [hi, hi'], by simp⟩
  have heq := hb.out_eq (hview _ _ hout) (hundo _ hzip)
  rw [prevOutput, hout, Option.getD_some, heq]
  exact hnone _ (List.getElem_mem hi')

theorem exists_undo (hstored : StoredOk node.crypto hist (block, undo))
    (hsizes : List.Forall₂ (fun (tx : CTransaction) (txundo : List CTxInUndo) => txundo.length = tx.vin.length)
      block.vtx.tail undo) (htx : tx ∈ block.vtx) (hcb : tx.isCoinBase = false) :
    ∃ txundo ∈ undo, UndoOf node.crypto hist tx txundo ∧ txundo.length = tx.vin.length := by
  have htail : tx ∈ block.vtx.tail := by
    have hhead := hstored.coinbase
    cases hvtx : block.vtx with
    | nil => simp [hvtx] at htx
    | cons coinbase txs =>
      simp only [hvtx, List.head?_cons, Option.mem_some_iff, forall_eq'] at hhead
      rw [hvtx] at htx
      rcases List.mem_cons.mp htx with rfl | hmem
      · simp [hcb] at hhead
      · exact hmem
  obtain ⟨j, hj, rfl⟩ := List.mem_iff_getElem.mp htail
  have hj' : j < undo.length := hsizes.length_eq ▸ hj
  refine ⟨undo[j], List.getElem_mem hj', hstored.undo (block.vtx.tail[j], undo[j]) ?_, hsizes.get hj hj'⟩
  exact List.mem_iff_getElem.mpr ⟨j, List.length_zip ▸ lt_min hj hj', by simp⟩

theorem NodeInv.disconnectTip (hb : OutputsBound node.crypto hist) (h : NodeInv node hist s)
    (hok : CrossesClear node s (.disconnectTip policy)) : NodeInv node hist (disconnectTip node s policy) := by
  unfold Validation.disconnectTip
  split
  · exact h
  · next block undo hlast =>
    have hmem : (block, undo) ∈ s.stored := List.mem_of_getLast? hlast
    have hstored := h.stored _ hmem
    split
    · next t hback =>
      obtain ⟨hchain, hrestores, hsizes⟩ := restores_of_disconnectBlock h.coins hstored hback
      have hlen : t.chain.length = s.chain.length - 1 := by rw [hchain, List.length_dropLast]
      have hpos : 0 < s.stored.length := List.length_pos_of_mem hmem
      have hheight := h.length_eq
      have hstart : PoolOk node hist t.coins (block.vtx.map node.crypto.txid) s.chain.length s.pool := by
        refine h.pool.of_keeps .refl ?_
        rintro tx - txin - out - (hcoin | hlost | hpend)
        · exact (or_iff_not_imp_right.mpr fun hlost => hrestores.kept _ out hcoin hlost)
        · simp at hlost
        · simp at hpend
      have hpool := @PoolOk.foldl_resurrect _ _ _ _ policy _ hb hrestores.made _ hstored.known hstart
      refine ⟨?_, hrestores.made, fun e he => h.stored e (List.mem_of_mem_dropLast he), ?_⟩
      · rw [hlen, List.length_dropLast]
        omega
      · by_cases hcross : s.chain.length = (node.params.getConsensus 0).uapMintHeight
        · refine hpool.of_inactive (by simp only [uapMintActive, decide_eq_false_iff_not]; omega) ?_
          intro tx htx view hview hinputs
          have hcb := hpool.notCoinBase tx htx
          rcases mem_of_mem_foldl_resurrect htx with hold | hnew
          · rw [← (hok hcross).1 tx hold]
            exact spendsCovenant_congr hcb (hb.output?_eq hview (madeBy_memPoolView h.pool.known h.coins) hcb hinputs
              (h.pool.haveInputs hb hold))
          · obtain ⟨txundo, hpair, hundo⟩ := exists_undo hstored hsizes hnew hcb
            refine spendsCovenant_of_undo hb hcb hundo.1 hundo.2 ?_ hview hinputs
            intro u hu
            exact (hok hcross).2 _ hlast u (List.mem_flatten.mpr ⟨txundo, hpair, hu⟩)
        · refine hpool.of_active_eq ?_
          simp only [uapMintActive, decide_eq_decide]
          omega
    · exact h

theorem NodeInv.step (hb : OutputsBound node.crypto hist) (h : NodeInv node hist s) {event : MempoolEvent}
    (htxs : ∀ tx ∈ event.txs, tx ∈ hist) (hok : CrossesClear node s event) : NodeInv node hist (s.step node event) := by
  cases event with
  | acceptToMemoryPool policy tx =>
    exact ⟨h.length_eq, h.coins, h.stored, h.pool.acceptToMemoryPool hb h.coins (htxs tx List.mem_cons_self)⟩
  | connectTip block => exact h.connectTip hb htxs hok
  | disconnectTip policy => exact h.disconnectTip hb hok
  | removeForReorg stale => exact ⟨h.length_eq, h.coins, h.stored, h.pool.removeRecursive stale⟩

def NodeState.start : NodeState := { chain := [], coins := ∅ }

theorem nodeInv_start : NodeInv node hist .start where
  length_eq := rfl
  coins p out h := by simp [NodeState.start, CCoinsView.output?] at h
  stored := by simp [NodeState.start]
  pool := ⟨by simp [NodeState.start], by simp [NodeState.start], by simp [NodeState.start], by simp [NodeState.start]⟩

theorem nodeInv_run {events : List MempoolEvent}
    (hb : OutputsBound node.crypto (events.flatMap MempoolEvent.txs))
    (h : Admissible (NodeState.step node) (CrossesClear node) .start events) :
    NodeInv node (events.flatMap MempoolEvent.txs) (run (NodeState.step node) .start events) := by
  have hknown : ∀ e ∈ events, ∀ tx ∈ e.txs, tx ∈ events.flatMap MempoolEvent.txs :=
    fun e he tx htx => List.mem_flatMap.mpr ⟨e, he, htx⟩
  exact run_invariant (P := fun _ s => NodeInv node (events.flatMap MempoolEvent.txs) s) nodeInv_start
    (fun _ _ _ hs hok => hs.step hb hok.2 hok.1) (h.and (admissible_of_forall hknown _))

/-- A block as `CreateNewBlock` assembles it: a coinbase, and transactions of the pool. -/
structure Assembled (s : NodeState) (coinbase : CTransaction) (block : CBlock) : Prop where
  isCoinBase : coinbase.isCoinBase = true
  noTransfer : coinbase.vout.any isTransferOutput = false
  head : block.vtx.head? = some coinbase
  tail : ∀ tx ∈ block.vtx.tail, tx ∈ s.pool

/-- A UAP rule refuses a transaction of the block, all of whose inputs are there, once those before it are connected. -/
def StopsAtUapRule (node : Node) (t : ChainState) (block : CBlock) : Prop :=
  ∃ done tx rest c, block.vtx = done ++ tx :: rest ∧
    done.foldlM (connectTx node t.chain (node.fScriptChecks t.chain block.toCBlockHeader)) ⟨t.coins, 0, 0, []⟩ = .ok c ∧
    checkSpends node t.chain c.view tx = .ok () ∧ checkUapRules node t.chain.length c.view tx ≠ .ok ()

theorem checkUapRules_coinbase (hcb : tx.isCoinBase = true) (hnone : tx.vout.any isTransferOutput = false) :
    checkUapRules node nHeight view tx = .ok () := by
  simp [checkUapRules, checkUapOutputCreation, hnone, spendsCovenant, hcb]

variable {crypto : Crypto}

theorem CCoinsView.MadeBy.mono {hist' : List CTransaction} (h : view.MadeBy crypto hist)
    (hsub : ∀ tx ∈ hist, tx ∈ hist') : view.MadeBy crypto hist' := by
  intro p out hout
  obtain ⟨tx, htx, hmade⟩ := h p out hout
  exact ⟨tx, hsub tx htx, hmade⟩

/-- The rules hold of a transaction of the pool inside a block over the coins of the chain. -/
theorem NodeInv.not_stopsAtUapRule (h : NodeInv node hist s) {coinbase : CTransaction}
    (hb : OutputsBound node.crypto (coinbase :: hist)) (hblock : Assembled s coinbase block) :
    ¬ StopsAtUapRule node s.toChainState block := by
  rintro ⟨done, tx, rest, c, hvtx, hdone, hspends, hrules⟩
  apply hrules
  have hbhist : OutputsBound node.crypto hist := fun tx htx tx' htx' =>
    hb tx (List.mem_cons_of_mem _ htx) tx' (List.mem_cons_of_mem _ htx')
  have hhead := hblock.head
  cases done with
  | nil =>
    rw [hvtx, List.nil_append, List.head?_cons, Option.some.injEq] at hhead
    rw [hhead]
    exact checkUapRules_coinbase hblock.isCoinBase hblock.noTransfer
  | cons first done =>
    rw [hvtx, List.cons_append, List.head?_cons, Option.some.injEq] at hhead
    have hpool : ∀ tx' ∈ done ++ tx :: rest, tx' ∈ s.pool := by
      have htail := hblock.tail
      rwa [hvtx, List.cons_append, List.tail_cons] at htail
    have htx : tx ∈ s.pool := hpool tx (by simp)
    have hcb := h.pool.notCoinBase tx htx
    have hknown : ∀ tx' ∈ first :: done, tx' ∈ coinbase :: hist := by
      refine List.forall_mem_cons.mpr ⟨hhead ▸ List.mem_cons_self, fun tx' hmem => ?_⟩
      exact List.mem_cons_of_mem _ (h.pool.known tx' (hpool tx' (List.mem_append_left _ hmem)))
    have hcoins := h.coins.mono fun tx' hmem => List.mem_cons_of_mem coinbase hmem
    have hview : c.view.MadeBy node.crypto (coinbase :: hist) := by
      refine (foldlM_ok (P := fun done (c : ConnectState) => BlockView node.crypto (coinbase :: hist) s.coins done
        c.view) hdone ⟨hcoins, by simp⟩ ?_).made
      intro done tx' c c' hmem hbv hstep
      obtain ⟨undo, hupdate, -⟩ := connectTx_eq_ok hstep
      exact hbv.update hb (hknown tx' hmem) hupdate
    have hinputs : c.view.haveInputs tx = true := by
      simp only [checkSpends, hcb, Bool.false_eq_true, if_false, bind_eq_ok, failIf_eq_ok] at hspends
      obtain ⟨_, hinputs, -⟩ := hspends
      simpa using hinputs
    have hpoolView := madeBy_memPoolView h.pool.known h.coins
    have hpoolInputs := h.pool.haveInputs hbhist htx
    rw [← h.pool.rules tx htx _ hpoolView hpoolInputs]
    exact checkUapRules_congr hcb (hb.output?_eq hview
      (hpoolView.mono fun tx' hmem => List.mem_cons_of_mem coinbase hmem) hcb hinputs hpoolInputs)

/-- In every run whose tip operations cross the activation height only with a pool that does not mind, the
transactions of the pool satisfy the UAP rules of the next block, and no block assembled from them fails by one. -/
theorem mempool_satisfies_uap_rules (node : Node) (events : List MempoolEvent)
    (hbound : OutputsBound node.crypto (events.flatMap MempoolEvent.txs))
    (h : Admissible (NodeState.step node) (CrossesClear node) .start events) :
    let s := run (NodeState.step node) .start events
    (∀ tx ∈ s.pool, (memPoolView node.crypto s.pool s.coins).haveInputs tx = true ∧
      checkUapRules node s.chain.length (memPoolView node.crypto s.pool s.coins) tx = .ok ()) ∧
    ∀ coinbase block, OutputsBound node.crypto (coinbase :: events.flatMap MempoolEvent.txs) →
      Assembled s coinbase block → ¬ StopsAtUapRule node s.toChainState block := by
  have hinv := nodeInv_run hbound h
  refine ⟨fun tx htx => ?_, fun coinbase block hb hblock => hinv.not_stopsAtUapRule hb hblock⟩
  have hinputs := hinv.pool.haveInputs hbound htx
  exact ⟨hinputs, hinv.pool.rules tx htx _ (madeBy_memPoolView hinv.pool.known hinv.coins) hinputs⟩

theorem run_connectTips {blocks : List CBlock} (h : connectBlocks node t blocks = .ok t')
    (stored : List (CBlock × List (List CTxInUndo))) :
    ∃ stored', run (NodeState.step node) ⟨t, stored, []⟩ (blocks.map .connectTip) = ⟨t', stored', []⟩ := by
  induction blocks generalizing t stored with
  | nil =>
    obtain rfl : t = t' := Except.ok.inj h
    exact ⟨stored, rfl⟩
  | cons block blocks ih =>
    simp only [connectBlocks, List.foldlM_cons, bind_eq_ok] at h
    obtain ⟨mid, hfirst, hrest⟩ := h
    cases hconnect : connectBlock node t block false with
    | error r => simp [connect, hconnect, Except.map] at hfirst
    | ok r =>
      obtain rfl : r.1 = mid := by simpa [connect, hconnect, Except.map] using hfirst
      obtain ⟨stored', hrun⟩ := ih hrest (stored ++ [(block, r.2)])
      refine ⟨stored', ?_⟩
      rw [List.map_cons, run_cons, ← hrun]
      simp only [NodeState.step, connectTip, hconnect, removeForBlock_nil]

theorem OutputsBound.of_nodup (h : (hist.map crypto.txid).Nodup) : OutputsBound crypto hist :=
  fun _ htx _ htx' hid => congrArg CTransaction.vout (List.inj_on_of_nodup_map h htx htx' hid)

theorem OutputsBound.subset {hist' : List CTransaction} (h : OutputsBound crypto hist)
    (hsub : ∀ tx ∈ hist', tx ∈ hist) : OutputsBound crypto hist' :=
  fun tx htx tx' htx' => h tx (hsub tx htx) tx' (hsub tx' htx')

end

def openPolicy : MempoolPolicy := { refuse := fun _ => none, fEnableReplacement := false }

theorem connectBlocks_run (uapMintHeight : ℕ) :
    connectBlocks (regTestNode runSignatures uapMintHeight) ⟨[], ∅⟩ runBlocks = .ok runState := by
  apply connectBlocks_of_acceptBlocks
  have haccept := acceptBlocks_run uapMintHeight []
  rwa [List.append_nil] at haccept

variable {block : CBlock} {tx : CTransaction}

theorem mem_emptyBlocks {crypto : Crypto} {nonces : List UInt32} {nHeight : ℕ} {p : Uint256}
    (h : block ∈ emptyBlocks crypto nonces nHeight p) (htx : tx ∈ block.vtx) :
    ∃ n, nHeight ≤ n ∧ n < nHeight + nonces.length ∧ tx = emptyCoinbase n := by
  induction nonces generalizing nHeight p with
  | nil => simp [emptyBlocks] at h
  | cons nNonce nonces ih =>
    rcases List.mem_cons.mp h with rfl | hmem
    · exact ⟨nHeight, le_refl _, by simp, List.mem_singleton.mp htx⟩
    · obtain ⟨n, hle, hlt, heq⟩ := ih hmem
      exact ⟨n, by omega, by rw [List.length_cons]; omega, heq⟩

theorem mem_minedBlocks {crypto : Crypto} {first : CTransaction} {nNonce : UInt32} {nonces : List UInt32}
    (h : block ∈ minedBlocks crypto first nNonce nonces) (htx : tx ∈ block.vtx) :
    tx ∈ (regTestGenesis crypto).vtx ++ first :: (List.range' 2 nonces.length).map emptyCoinbase := by
  rcases List.mem_cons.mp h with rfl | h
  · exact List.mem_append_left _ htx
  · apply List.mem_append_right
    rcases List.mem_cons.mp h with rfl | h
    · rw [List.mem_singleton.mp htx]
      exact List.mem_cons_self
    · obtain ⟨n, hle, hlt, rfl⟩ := mem_emptyBlocks h htx
      exact List.mem_cons_of_mem _ (List.mem_map_of_mem (List.mem_range'_1.mpr ⟨hle, hlt⟩))

variable {node : Node}

theorem admissible_connectTips (blocks : List CBlock) {s : NodeState} (hpool : s.pool = []) :
    Admissible (NodeState.step node) (CrossesClear node) s (blocks.map .connectTip) := by
  induction blocks generalizing s with
  | nil => trivial
  | cons block blocks ih =>
    refine ⟨⟨fun _ => hpool, fun _ => by simp [hpool]⟩, ih ?_⟩
    change (connectTip node s block).pool = []
    unfold connectTip
    split
    · exact hpool
    · rw [hpool, removeForBlock_nil]

theorem outputsBound_run (policy : MempoolPolicy) : OutputsBound runCrypto
    ((runBlocks.map MempoolEvent.connectTip ++ [MempoolEvent.acceptToMemoryPool policy runMintSpend]).flatMap
      MempoolEvent.txs) := by
  let hist := (regTestGenesis runCrypto).vtx.map (Prod.mk 0) ++ runTxs
  have hsnd : hist.map Prod.snd = (regTestGenesis runCrypto).vtx ++ runTxs.map Prod.snd := by
    rw [List.map_append, List.map_map]
    simp [Function.comp_def]
  have horigins := (List.nodup_cons.mp runHistory_origins).2
  have hdistinct : DistinctTxids runCrypto hist :=
    distinctTxids_of_nodup (hsnd ▸ horigins) (by decide +kernel)
  have hnodup : ((hist.map Prod.snd).map runCrypto.txid).Nodup := by rwa [List.map_map]
  refine (OutputsBound.of_nodup hnodup).subset fun tx htx => ?_
  have hchain : (firstCoinbase :: (List.range' 2 runNonces.length).map emptyCoinbase).Sublist (runTxs.map Prod.snd) := by
    rw [runTxs_eq, List.map_append, List.map_cons, List.map_map]
    exact List.sublist_append_left _ _
  rw [hsnd]
  rw [List.flatMap_append, List.mem_append, List.flatMap_map, List.mem_flatMap] at htx
  obtain ⟨block, hblock, htx⟩ | htx := htx
  · have hmem : tx ∈ (regTestGenesis runCrypto).vtx ++ _ := mem_minedBlocks hblock htx
    exact ((List.Sublist.refl _).append hchain).subset hmem
  · simp only [List.flatMap_singleton, MempoolEvent.txs, List.mem_singleton] at htx
    simp [htx, runTxs]

theorem run_connectTips_accept {blocks : List CBlock} {t : ChainState} {policy : MempoolPolicy}
    {pool : List CTransaction} (h : connectBlocks node ⟨[], ∅⟩ blocks = .ok t)
    (haccept : (acceptToMemoryPool node policy t.chain t.chain.length t.coins [] tx).2 = pool) :
    ∃ stored, run (NodeState.step node) .start (blocks.map .connectTip ++ [.acceptToMemoryPool policy tx]) =
      ⟨t, stored, pool⟩ := by
  obtain ⟨stored, hrun⟩ := run_connectTips h []
  refine ⟨stored, ?_⟩
  rw [run_append, NodeState.start, hrun, ← haccept]
  rfl

theorem run_connectTip {events : List MempoolEvent} {s s' : NodeState}
    (h : run (NodeState.step node) .start events = s) (hconnect : connectTip node s block = s') :
    run (NodeState.step node) .start (events ++ [.connectTip block]) = s' := by
  rw [run_append, h]
  exact hconnect

/-- The spend of the mint waits in the pool, and a block may be made of it. -/
theorem mempool_satisfies_uap_rules_spend : ∃ s,
    run (NodeState.step (regTestNode runSignatures 0)) .start
      (runBlocks.map .connectTip ++ [.acceptToMemoryPool openPolicy runMintSpend]) = s ∧ s.pool = [runMintSpend] ∧
    checkUapRules (regTestNode runSignatures 0) s.chain.length (memPoolView runCrypto s.pool s.coins) runMintSpend =
      .ok () := by
  have hadm : Admissible (NodeState.step (regTestNode runSignatures 0)) (CrossesClear (regTestNode runSignatures 0))
      .start (runBlocks.map .connectTip ++ [.acceptToMemoryPool openPolicy runMintSpend]) :=
    admissible_append.mpr ⟨admissible_connectTips _ rfl, trivial, trivial⟩
  have hthm := mempool_satisfies_uap_rules (regTestNode runSignatures 0) _ (outputsBound_run openPolicy) hadm
  have haccept : (acceptToMemoryPool (regTestNode runSignatures 0) openPolicy runState.chain runState.chain.length
      runState.coins [] runMintSpend).2 = [runMintSpend] := by
    decide +kernel
  obtain ⟨stored, hrun⟩ := run_connectTips_accept (connectBlocks_run 0) haccept
  rw [hrun] at hthm
  exact ⟨_, hrun, rfl, (hthm.1 runMintSpend (List.mem_singleton_self _)).2⟩

def poolForgery : CTransaction :=
  { runForgery with vout := [⟨99900000000, uapScript ⟨mintKey, 5, List.replicate 32 0, false⟩⟩] }

def runEmptyBlock : CBlock := nextBlock runCrypto runTip [emptyCoinbase 61] (regTestTime 61) 1

def runNextChain : List CBlockIndex := runState.chain ++ [runCrypto.blockIndex runEmptyBlock.toCBlockHeader]

example : runNextChain.length = 62 := by decide +kernel

theorem connectBlock_runEmptyBlock : ∃ undo,
    connectBlock (regTestNode runSignatures 62) runState runEmptyBlock false = .ok (⟨runNextChain, runCoins⟩, undo) := by
  have heval : ((connectBlock (regTestNode runSignatures 62) runState runEmptyBlock false).map fun r => r.1.coins) =
      .ok runCoins := by
    decide +kernel
  cases hconnect : connectBlock (regTestNode runSignatures 62) runState runEmptyBlock false with
  | error r => simp [hconnect, Except.map] at heval
  | ok r =>
    have hconn : connect (regTestNode runSignatures 62) runState runEmptyBlock = .ok r.1 := by
      rw [connect, hconnect, Except.map]
    have hcoins : r.1.coins = runCoins := by simpa [hconnect, Except.map] using heval
    have hchain : r.1.chain = runNextChain := (connect_eq_ok hconn).1
    obtain ⟨⟨chain, coins⟩, undo⟩ := r
    subst hcoins hchain
    exact ⟨undo, rfl⟩

theorem stopsAtUapRule_poolForgery : StopsAtUapRule (regTestNode runSignatures 62) ⟨runNextChain, runCoins⟩
    { runEmptyBlock with vtx := [emptyCoinbase 62, poolForgery] } := by
  have heval : ∀ fScriptChecks, ((connectTx (regTestNode runSignatures 62) runNextChain fScriptChecks
      ⟨runCoins, 0, 0, []⟩ (emptyCoinbase 62)).map fun c =>
        (checkSpends (regTestNode runSignatures 62) runNextChain c.view poolForgery,
          checkUapRules (regTestNode runSignatures 62) 62 c.view poolForgery)) =
      .ok (.ok (), .error (dos 100 "bad-txns-uap-output-without-input")) := by
    decide +kernel
  specialize heval ((regTestNode runSignatures 62).fScriptChecks runNextChain runEmptyBlock.toCBlockHeader)
  generalize hconnect : connectTx (regTestNode runSignatures 62) runNextChain _ ⟨runCoins, 0, 0, []⟩
    (emptyCoinbase 62) = result at heval
  cases result with
  | error r => simp [Except.map] at heval
  | ok c =>
    simp only [Except.map, Except.ok.injEq, Prod.mk.injEq] at heval
    refine ⟨[emptyCoinbase 62], poolForgery, [], c, rfl, ?_, heval.1, ?_⟩
    · simp only [List.foldlM_cons, List.foldlM_nil, bind_pure]
      exact hconnect
    · have hlen : runNextChain.length = 62 := by decide +kernel
      rw [hlen, heval.2]
      simp

/-- With the rules active from height 62, the pool takes the invented position at height 60. The next block changes
the rules and not the pool, and no block can be made of it. -/
theorem mempool_breaks_uap_rules : ∃ s block,
    run (NodeState.step (regTestNode runSignatures 62)) .start (runBlocks.map .connectTip ++
      [.acceptToMemoryPool openPolicy poolForgery] ++ [.connectTip runEmptyBlock]) = s ∧ s.pool = [poolForgery] ∧
    checkUapRules (regTestNode runSignatures 62) s.chain.length (memPoolView runCrypto s.pool s.coins) poolForgery =
      .error (dos 100 "bad-txns-uap-output-without-input") ∧
    Assembled s (emptyCoinbase 62) block ∧ StopsAtUapRule (regTestNode runSignatures 62) s.toChainState block := by
  have haccept : (acceptToMemoryPool (regTestNode runSignatures 62) openPolicy runState.chain runState.chain.length
      runState.coins [] poolForgery).2 = [poolForgery] := by
    decide +kernel
  obtain ⟨stored, hrun⟩ := run_connectTips_accept (connectBlocks_run 62) haccept
  obtain ⟨undo, hconnect⟩ := connectBlock_runEmptyBlock
  have hremove : removeForBlock runCrypto runEmptyBlock.vtx [poolForgery] = [poolForgery] := by decide +kernel
  have hstep : connectTip (regTestNode runSignatures 62) ⟨runState, stored, [poolForgery]⟩ runEmptyBlock =
      ⟨⟨runNextChain, runCoins⟩, stored ++ [(runEmptyBlock, undo)], [poolForgery]⟩ := by
    unfold connectTip
    rw [hconnect]
    exact congrArg (NodeState.mk _ _) hremove
  have hrules : checkUapRules (regTestNode runSignatures 62) runNextChain.length
      (memPoolView runCrypto [poolForgery] runCoins) poolForgery =
      .error (dos 100 "bad-txns-uap-output-without-input") := by
    decide +kernel
  refine ⟨_, _, run_connectTip hrun hstep, rfl, hrules, ⟨?_, ?_, rfl, ?_⟩, stopsAtUapRule_poolForgery⟩
  · decide +kernel
  · decide +kernel
  · exact fun tx htx => htx

end Whippet.Validation
