import Whippet.Validation.Disconnect
import Whippet.Validation.Mining

/-! Disconnecting a block takes back what connecting it did to the coins. -/
namespace Whippet.Validation
open Lib Primitives Script Consensus

section
variable {crypto : Crypto} {tx : CTransaction} {nHeight : ℕ} {base view view' : CCoinsView} {undo : List CTxInUndo}
  {done : List CTransaction}

/-- Where the entries of the view inside a block come from, and what its transactions have spent so far. -/
structure InBlock (crypto : Crypto) (base : CCoinsView) (done : List CTransaction) (view : CCoinsView) : Prop where
  known : ∀ txid, view.lookup txid ≠ none → base.lookup txid ≠ none ∨ txid ∈ done.map crypto.txid
  spent : ∀ tx ∈ done, ∀ p ∈ txSpends tx,
    view.output? p = none ∧ (base.lookup p.hash ≠ none ∨ p.hash ∈ done.map crypto.txid)

/-- A txid determines the outpoints its transaction spends, among these transactions. -/
def TxidsBind (crypto : Crypto) (txs : List CTransaction) : Prop :=
  ∀ tx ∈ txs, ∀ tx' ∈ txs, crypto.txid tx = crypto.txid tx' → tx.vin.map CTxIn.prevout = tx'.vin.map CTxIn.prevout

/-- What the checks of a block leave for its transactions: they make no unspent transaction again, and only the
first is a coinbase. -/
structure FreshBlock (crypto : Crypto) (base : CCoinsView) (vtx : List CTransaction) : Prop where
  unused : ∀ tx ∈ vtx, base.lookup (crypto.txid tx) = none
  binds : TxidsBind crypto vtx
  coinbase : ∀ tx ∈ vtx.tail, tx.isCoinBase = false
  checks : ∀ tx ∈ vtx, BasicChecks tx

theorem isCoinBase_congr {tx tx' : CTransaction} (h : tx.vin.map CTxIn.prevout = tx'.vin.map CTxIn.prevout) :
    tx.isCoinBase = tx'.isCoinBase := by
  unfold CTransaction.isCoinBase
  rcases hvin : tx.vin with _ | ⟨txin, _ | ⟨_, rest⟩⟩ <;> rcases hvin' : tx'.vin with _ | ⟨txin', _ | ⟨_, rest'⟩⟩ <;>
    simp_all

theorem lookup_ne_none_of_output? {p : COutPoint} {out : CTxOut} (h : view.output? p = some out) :
    view.lookup p.hash ≠ none := by
  intro hnone
  simp [CCoinsView.output?, hnone] at h

/-- No earlier transaction of the block has the same txid: its inputs would be spent. -/
theorem FreshBlock.txid_notMem {vtx rest : List CTransaction} (hb : FreshBlock crypto base vtx)
    (hvtx : vtx = done ++ tx :: rest) (hinv : InBlock crypto base done view)
    (h : updateCoins? crypto tx view nHeight = some (view', undo)) : crypto.txid tx ∉ done.map crypto.txid := by
  intro hmem
  obtain ⟨tx', hdone, heq⟩ := List.mem_map.mp hmem
  have htx : tx ∈ vtx := by simp [hvtx]
  have hprev := hb.binds tx' (by simp [hvtx, hdone]) tx htx heq
  have hcb : tx.isCoinBase = false := by
    apply hb.coinbase
    obtain ⟨first, more, rfl⟩ := List.exists_cons_of_ne_nil (List.ne_nil_of_mem hdone)
    simp [hvtx]
  have hspends : txSpends tx' = txSpends tx := by
    simp only [txSpends, isCoinBase_congr hprev, hprev]
  obtain ⟨txin, hin⟩ := List.exists_mem_of_ne_nil _ (hb.checks tx htx).vin_ne_nil
  have hp : txin.prevout ∈ txSpends tx := by
    simp only [txSpends, hcb, Bool.false_eq_true, if_false]
    exact List.mem_map_of_mem hin
  obtain ⟨out, hout⟩ := (updates_of_updateCoins? h).available _ hp
  have hnone := (hinv.spent tx' hdone _ (hspends ▸ hp)).1
  rw [hout] at hnone
  simp at hnone

theorem InBlock.fresh (hinv : InBlock crypto base done view) (hbase : base.lookup (crypto.txid tx) = none)
    (hnew : crypto.txid tx ∉ done.map crypto.txid) : view.lookup (crypto.txid tx) = none := by
  by_contra hne
  rcases hinv.known _ hne with h | h
  · exact h hbase
  · exact hnew h

theorem InBlock.step (hinv : InBlock crypto base done view) (hbase : base.lookup (crypto.txid tx) = none)
    (hnew : crypto.txid tx ∉ done.map crypto.txid)
    (h : updateCoins? crypto tx view nHeight = some (view', undo)) : InBlock crypto base (done ++ [tx]) view' := by
  have hupdates := updates_of_updateCoins? h
  have hother : ∀ hash, base.lookup hash ≠ none ∨ hash ∈ done.map crypto.txid → hash ≠ crypto.txid tx := by
    rintro hash hknown rfl
    rcases hknown with hk | hk
    · exact hk hbase
    · exact hnew hk
  have hmore : ∀ hash, base.lookup hash ≠ none ∨ hash ∈ done.map crypto.txid →
      base.lookup hash ≠ none ∨ hash ∈ (done ++ [tx]).map crypto.txid := by
    intro hash hknown
    exact hknown.imp id fun hmem => by simp [hmem]
  constructor
  · intro txid hlookup
    by_cases heq : txid = crypto.txid tx
    · exact Or.inr (by simp [heq])
    · apply hmore
      apply hinv.known
      intro hnone
      exact hlookup (lookup_updateCoins?_eq_none h heq hnone)
  · intro tx' hmem p hp
    rcases List.mem_append.mp hmem with hold | hlast
    · obtain ⟨hnone, hknown⟩ := hinv.spent tx' hold p hp
      refine ⟨?_, hmore _ hknown⟩
      rw [hupdates.output, if_neg (hother _ hknown), hnone, ite_self]
    · rw [List.mem_singleton.mp hlast] at hp
      obtain ⟨out, hout⟩ := hupdates.available p hp
      have hknown := hinv.known _ (lookup_ne_none_of_output? hout)
      refine ⟨?_, hmore _ hknown⟩
      rw [hupdates.output, if_neg (hother _ hknown), if_pos hp]

end

section
variable {node : Node} {s t : ChainState} {block : CBlock}

theorem connectTx_eq_ok {chain : List CBlockIndex} {fScriptChecks : Bool} {c c' : ConnectState} {tx : CTransaction}
    (h : connectTx node chain fScriptChecks c tx = .ok c') :
    ∃ undo, updateCoins? node.crypto tx c.view chain.length = some (c'.view, undo) ∧
      c'.vtxundo = c.vtxundo ++ [undo] := by
  simp only [connectTx, bind_eq_ok, orFail_eq_ok] at h
  obtain ⟨_, -, _, -, _, -, _, -, _, -, ⟨view, undo⟩, hupdate, hdone⟩ := h
  simp only [Except.ok.injEq] at hdone
  subst hdone
  exact ⟨undo, hupdate, rfl⟩

def withUndo (tx : CTransaction) (undo : List CTxInUndo) : CTransaction × Option (List CTxInUndo) :=
  (tx, if tx.isCoinBase then none else some undo)

/-- The transactions from one position of a block on are taken back with the undo data they left. -/
theorem disconnectTxs_connectTx {chain : List CBlockIndex} {fScriptChecks : Bool} {base : CCoinsView}
    {vtx done rest : List CTransaction} {c c' : ConnectState} (hb : FreshBlock node.crypto base vtx)
    (hheight : chain.length ≠ 0) (hvtx : vtx = done ++ rest) (hinv : InBlock node.crypto base done c.view)
    (hclean : c.view.Clean) (h : rest.foldlM (connectTx node chain fScriptChecks) c = .ok c') :
    ∃ undos, c'.vtxundo = c.vtxundo ++ undos ∧ undos.length = rest.length ∧
      disconnectTxs node.crypto chain.length (rest.zipWith withUndo undos) c'.view = .ok (c.view, true) := by
  induction rest generalizing done c with
  | nil =>
    obtain rfl : c = c' := by simpa using h
    exact ⟨[], by simp, rfl, rfl⟩
  | cons tx rest ih =>
    simp only [List.foldlM_cons, bind_eq_ok] at h
    obtain ⟨mid, hstep, hrest⟩ := h
    obtain ⟨undo, hupdate, hundo⟩ := connectTx_eq_ok hstep
    have htx : tx ∈ vtx := by simp [hvtx]
    have hnew := hb.txid_notMem hvtx hinv hupdate
    have hmid := updateCoins?_clean hclean (hb.checks tx htx) hheight hupdate
    have hinv' := hinv.step (hb.unused tx htx) hnew hupdate
    obtain ⟨undos, hundos, hlen, hdisconnect⟩ := ih (by simp [hvtx]) hinv' hmid hrest
    refine ⟨undo :: undos, ?_, ?_, ?_⟩
    · rw [hundos, hundo, List.append_assoc, List.singleton_append]
    · rw [List.length_cons, hlen, List.length_cons]
    · exact disconnectTxs_cons hclean (hinv.fresh (hb.unused tx htx) hnew) hupdate hdisconnect

theorem zipWith_withUndo {txs : List CTransaction} (h : ∀ tx ∈ txs, tx.isCoinBase = false)
    (undos : List (List CTxInUndo)) : txs.zipWith withUndo undos = txs.zip (undos.map some) := by
  induction txs generalizing undos with
  | nil => rfl
  | cons tx txs ih =>
    cases undos with
    | nil => rfl
    | cons undo undos =>
      have hcb := h tx List.mem_cons_self
      have hrest := ih (fun tx' hmem => h tx' (List.mem_cons_of_mem _ hmem)) undos
      rw [List.zipWith_cons_cons, List.map_cons, List.zip_cons_cons, hrest]
      simp only [withUndo, hcb, Bool.false_eq_true, if_false]

theorem tail_of_checkBlock {nHeight : ℕ} (h : checkBlock node block true true nHeight = .ok ()) :
    ∀ tx ∈ block.vtx.tail, tx.isCoinBase = false := by
  simp only [checkBlock, checkBlockContents, bind_eq_ok, failIf_eq_ok] at h
  obtain ⟨_, -, _, -, _, -, _, -, _, -, _, htail, -⟩ := h
  simpa using htail

theorem freshBlock_of_connectTxs {nHeight : ℕ} {c : ConnectState}
    (hcheck : checkBlock node block true true nHeight = .ok ()) (henforce : enforceBIP30 node s.chain = true)
    (hbind : TxidsBind node.crypto block.vtx) (h : connectTxs node s block = .ok c) : FreshBlock node.crypto s.coins block.vtx := by
  simp only [connectTxs, bind_eq_ok, failIf_eq_ok, henforce, true_and, Bool.not_eq_true, List.any_eq_false,
    decide_eq_true_eq, ne_eq, not_not] at h
  obtain ⟨_, -, _, hunused, -⟩ := h
  have hchecks : ∀ tx ∈ block.vtx, BasicChecks tx := by
    intro tx hmem
    exact basicChecks_of_checkTransaction (checkTransaction_of_checkBlock hcheck tx hmem)
  exact ⟨hunused, hbind, tail_of_checkBlock hcheck, hchecks⟩

theorem coinbase_of_checkBlock {nHeight : ℕ} (h : checkBlock node block true true nHeight = .ok ()) :
    ∃ coinbase txs, block.vtx = coinbase :: txs ∧ coinbase.isCoinBase = true := by
  simp only [checkBlock, checkBlockContents, bind_eq_ok, failIf_eq_ok] at h
  obtain ⟨_, -, _, -, _, -, _, -, _, hhead, -⟩ := h
  cases hvtx : block.vtx with
  | nil => simp [hvtx] at hhead
  | cons coinbase txs => exact ⟨coinbase, txs, rfl, by simpa [hvtx] using hhead⟩

theorem foldlM_of_connectTxs {c : ConnectState} (h : connectTxs node s block = .ok c) :
    block.vtx.foldlM (connectTx node s.chain (node.fScriptChecks s.chain block.toCBlockHeader)) ⟨s.coins, 0, 0, []⟩ =
      .ok c := by
  simp only [connectTxs, bind_eq_ok] at h
  obtain ⟨_, -, _, -, c', hfold, _, -, _, -, _, -, hdone⟩ := h
  obtain rfl : c' = c := by simpa using hdone
  exact hfold

theorem chain_ne_nil_of_connectTxs {c : ConnectState} (h : connectTxs node s block = .ok c) : s.chain.length ≠ 0 := by
  simp only [connectTxs, bind_eq_ok, failIf_eq_ok] at h
  obtain ⟨_, hne, -⟩ := h
  simpa using hne

theorem clean_of_connect (hclean : s.coins.Clean) (h : connect node s block = .ok t) : t.coins.Clean := by
  obtain ⟨-, -, hcoins⟩ := connect_eq_ok h
  split_ifs at hcoins with hg
  · rwa [hcoins]
  · obtain ⟨c, hc, -⟩ := hcoins
    have hheight := chain_ne_nil_of_connectTxs hc
    refine @connect_run node s t block (fun _ view => view.Clean) [] h hclean ?_
    intro _ tx view view' hview hconn
    obtain ⟨undo, hupdate⟩ := hconn.updated
    exact updateCoins?_clean hview (basicChecks_of_checkTransaction hconn.checked) hheight hupdate

theorem clean_of_connectBlocks {blocks : List CBlock} (hclean : s.coins.Clean)
    (run : connectBlocks node s blocks = .ok t) : t.coins.Clean := by
  refine foldlM_ok (P := fun _ (u : ChainState) => u.coins.Clean) run hclean ?_
  intro done block u u' _ hu hstep
  exact clean_of_connect hu hstep

theorem connectBlock_eq_ok {undo : List (List CTxInUndo)} (hgenesis : isGenesis node block = false)
    (h : connectBlock node s block false = .ok (t, undo)) :
    checkBlock node block true true s.nextHeight = .ok () ∧ ∃ c, connectTxs node s block = .ok c ∧
      t = ⟨s.chain ++ [node.crypto.blockIndex block.toCBlockHeader], c.view⟩ ∧ undo = c.vtxundo.tail := by
  have hconnect : connect node s block = .ok t := by rw [connect, h, Except.map]
  refine ⟨(connect_eq_ok hconnect).2.1, ?_⟩
  simp only [isGenesis, decide_eq_false_iff_not] at hgenesis
  simp only [connectBlock, bind_eq_ok, failIf_eq_ok, hgenesis, if_false, Except.ok.injEq, Prod.mk.injEq] at h
  obtain ⟨_, -, _, -, c, hc, ht, hundo⟩ := h
  exact ⟨c, hc, ht.symm, hundo.symm⟩

end

end Whippet.Validation
