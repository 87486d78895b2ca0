import Whippet.Validation.ConnectBlock
import Whippet.Validation.Conservation

/-! Connecting a chain of blocks as a run over its transactions. -/
namespace Whippet.Validation
open Lib Primitives Script Consensus

/-- What connecting one transaction on top of `chain` establishes. -/
structure Connected (node : Node) (chain : List CBlockIndex) (fScriptChecks : Bool) (view : CCoinsView)
    (tx : CTransaction) (view' : CCoinsView) : Prop where
  checked : checkTransaction tx true = .ok ()
  creation : uapMintActive node chain.length = true → checkUapOutputCreation node.crypto tx view = .ok ()
  scripts : fScriptChecks = true → tx.isCoinBase = false →
    ∀ i < tx.vin.length, scriptCheck node.crypto (getBlockScriptFlags node chain) view tx i = .ok ()
  updated : ∃ undo, updateCoins? node.crypto tx view chain.length = some (view', undo)

section
variable {node : Node} {chain : List CBlockIndex} {tx : CTransaction} {s s' : ChainState} {block : CBlock}

theorem scriptCheck_of_checkInputScript {crypto : Crypto} {flags : ScriptFlags} {view : CCoinsView} {i : ℕ}
    (h : checkInputScript crypto flags view tx i = .ok ()) : scriptCheck crypto flags view tx i = .ok () := by
  unfold checkInputScript at h
  split at h
  · assumption
  · split_ifs at h

theorem scriptCheck_of_checkInputs {crypto : Crypto} {params : CChainParams} {flags : ScriptFlags}
    {view : CCoinsView} {nSpendHeight : ℕ} (h : checkInputs crypto params tx view true flags nSpendHeight = .ok ())
    (hcb : tx.isCoinBase = false) : ∀ i < tx.vin.length, scriptCheck crypto flags view tx i = .ok () := by
  simp only [checkInputs, hcb, Bool.false_eq_true, if_false, if_true, bind_eq_ok] at h
  obtain ⟨_, -, h⟩ := h
  intro i hi
  exact scriptCheck_of_checkInputScript (forM_eq_ok.mp h i (List.mem_range.mpr hi))

theorem connected_of_connectTx {fScriptChecks : Bool} {t t' : ConnectState}
    (hchecked : checkTransaction tx true = .ok ()) (h : connectTx node chain fScriptChecks t tx = .ok t') :
    Connected node chain fScriptChecks t.view tx t'.view := by
  simp only [connectTx, bind_eq_ok, orFail_eq_ok] at h
  obtain ⟨_, -, _, -, _, hcreate, _, -, _, hinputs, ⟨view, undo⟩, hupdate, hdone⟩ := h
  simp only [Except.ok.injEq] at hdone
  subst hdone
  constructor
  case checked => exact hchecked
  case creation =>
    intro hactive
    have hflag : (getBlockScriptFlags node chain).uapMint = true := hactive
    simpa [hflag] using hcreate
  case scripts =>
    intro hf hcb
    rw [hf] at hinputs
    exact scriptCheck_of_checkInputs hinputs hcb
  case updated => exact ⟨undo, hupdate⟩

/-- The genesis block, whose transactions are not connected. -/
def isGenesis (node : Node) (block : CBlock) : Bool :=
  node.crypto.blockHash block.toCBlockHeader = (node.params.getConsensus 0).hashGenesisBlock

theorem connect_eq_ok (h : connect node s block = .ok s') :
    s'.chain = s.chain ++ [node.crypto.blockIndex block.toCBlockHeader] ∧
      checkBlock node block true true s.nextHeight = .ok () ∧
      if isGenesis node block then s'.coins = s.coins
      else ∃ t, connectTxs node s block = .ok t ∧ s'.coins = t.view := by
  unfold connect at h
  cases hb : connectBlock node s block false with
  | error e => simp [hb, Except.map] at h
  | ok r =>
    simp only [hb, Except.map, Except.ok.injEq] at h
    subst h
    simp only [connectBlock, bind_eq_ok, failIf_eq_ok, Bool.not_false] at hb
    obtain ⟨_, hcheck, _, -, hb⟩ := hb
    have hchecked : checkBlock node block true true s.nextHeight = .ok () := by
      cases hc : checkBlock node block true true s.nextHeight with
      | error e => simp [hc, Except.mapError] at hcheck
      | ok u => rfl
    simp only [isGenesis, decide_eq_true_eq]
    split_ifs at hb with hg
    · simp only [Except.ok.injEq] at hb
      subst hb
      exact ⟨rfl, hchecked, by simp [hg]⟩
    · simp only [bind_eq_ok, Except.ok.injEq] at hb
      obtain ⟨t, ht, rfl⟩ := hb
      exact ⟨rfl, hchecked, by simp [hg, ht]⟩

theorem hashPrevBlock_of_connect (h : connect node s block = .ok s') : block.hashPrevBlock = s.bestBlock := by
  unfold connect at h
  cases hb : connectBlock node s block false with
  | error e => simp [hb, Except.map] at h
  | ok r =>
    simp only [connectBlock, bind_eq_ok, failIf_eq_ok] at hb
    obtain ⟨_, -, _, hprev, -⟩ := hb
    simpa using hprev

theorem connect_of_connectTxs {t : ConnectState} (hcheck : checkBlock node block true true s.nextHeight = .ok ())
    (hprev : block.hashPrevBlock = s.bestBlock) (htxs : connectTxs node s block = .ok t) :
    connect node s block = .ok ⟨s.chain ++ [node.crypto.blockIndex block.toCBlockHeader],
      if isGenesis node block then s.coins else t.view⟩ := by
  simp only [connect, connectBlock, Bool.not_false, hcheck, Except.mapError, hprev, ne_eq, not_true_eq_false,
    failIf_false, ok_bind, isGenesis, decide_eq_true_eq]
  split_ifs with hg
  · rfl
  · rw [htxs]
    rfl

theorem connect_of_isGenesis (hcheck : checkBlock node block true true s.nextHeight = .ok ())
    (hprev : block.hashPrevBlock = s.bestBlock) (hgenesis : isGenesis node block = true) :
    connect node s block = .ok ⟨s.chain ++ [node.crypto.blockIndex block.toCBlockHeader], s.coins⟩ := by
  simp only [isGenesis, decide_eq_true_eq] at hgenesis
  simp only [connect, connectBlock, Bool.not_false, hcheck, Except.mapError, hprev, ne_eq, not_true_eq_false,
    failIf_false, ok_bind, hgenesis, if_true]
  rfl

theorem acceptBlocks_cons {blocks : List CBlock} (hcontext : contextualCheckBlock node s.chain block = .ok ())
    (hconnect : connect node s block = .ok s') : acceptBlocks node s (block :: blocks) = acceptBlocks node s' blocks := by
  simp only [acceptBlocks, List.foldlM_cons, hcontext, hconnect, ok_bind]

theorem connectBlocks_of_acceptBlocks {blocks : List CBlock} (h : acceptBlocks node s blocks = .ok s') :
    connectBlocks node s blocks = .ok s' := by
  induction blocks generalizing s with
  | nil => exact h
  | cons block blocks ih =>
    simp only [acceptBlocks, List.foldlM_cons, bind_eq_ok] at h
    obtain ⟨t, ⟨_, -, hconnect⟩, hrest⟩ := h
    simp only [connectBlocks, List.foldlM_cons, bind_eq_ok]
    exact ⟨t, hconnect, ih hrest⟩

theorem checkTransaction_of_checkBlock {nHeight : ℕ} (h : checkBlock node block true true nHeight = .ok ()) :
    ∀ tx ∈ block.vtx, checkTransaction tx true = .ok () := by
  simp only [checkBlock, checkBlockContents, bind_eq_ok] at h
  obtain ⟨_, -, _, -, _, -, _, -, _, -, _, -, _, hforM, -⟩ := h
  exact forM_eq_ok.mp hforM

/-- The transactions of a block that are connected, with its height. -/
def blockTxs (node : Node) (nHeight : ℕ) (block : CBlock) : List (ℕ × CTransaction) :=
  if isGenesis node block then [] else block.vtx.map fun tx => (nHeight, tx)

theorem blockTxs_sublist (node : Node) (nHeight : ℕ) (block : CBlock) :
    (blockTxs node nHeight block).Sublist (block.vtx.map fun tx => (nHeight, tx)) := by
  unfold blockTxs
  split_ifs
  · exact List.nil_sublist _
  · exact List.Sublist.refl _

def chainTxs (node : Node) (nHeight : ℕ) : List CBlock → List (ℕ × CTransaction)
  | [] => []
  | block :: blocks => blockTxs node nHeight block ++ chainTxs node (nHeight + 1) blocks

theorem chainTxs_append (nHeight : ℕ) (blocks later : List CBlock) :
    chainTxs node nHeight (blocks ++ later) =
      chainTxs node nHeight blocks ++ chainTxs node (nHeight + blocks.length) later := by
  induction blocks generalizing nHeight with
  | nil => simp [chainTxs]
  | cons b blocks ih =>
    have hlen : nHeight + (b :: blocks).length = nHeight + 1 + blocks.length := by
      rw [List.length_cons]
      omega
    rw [List.cons_append, chainTxs, ih, chainTxs, List.append_assoc, hlen]

/-- The run rule of a block: what each connected transaction keeps, the block keeps. -/
theorem connect_run {P : List (ℕ × CTransaction) → CCoinsView → Prop} {hist : List (ℕ × CTransaction)}
    (h : connect node s block = .ok s') (init : P hist s.coins)
    (step : ∀ hist tx view view', P hist view →
      Connected node s.chain (node.fScriptChecks s.chain block.toCBlockHeader) view tx view' →
      P (hist ++ [(s.nextHeight, tx)]) view') :
    P (hist ++ blockTxs node s.nextHeight block) s'.coins := by
  obtain ⟨-, hcheck, hcoins⟩ := connect_eq_ok h
  unfold blockTxs
  split_ifs at hcoins ⊢ with hg
  · simpa [hcoins] using init
  · obtain ⟨t, ht, hview⟩ := hcoins
    simp only [connectTxs, bind_eq_ok] at ht
    obtain ⟨_, -, _, -, t', hfold, _, -, _, -, _, -, hdone⟩ := ht
    obtain rfl : t' = t := by simpa using hdone
    rw [hview]
    refine foldlM_ok (P := fun done t => P (hist ++ done.map fun tx => (s.nextHeight, tx)) t.view) hfold
      (by simpa using init) ?_
    intro done tx t t' hmem hP hstep
    rw [List.map_append, ← List.append_assoc]
    exact step _ tx t.view t'.view hP
      (connected_of_connectTx (checkTransaction_of_checkBlock hcheck tx hmem) hstep)

theorem nextHeight_of_connect (h : connect node s block = .ok s') : s'.nextHeight = s.nextHeight + 1 := by
  rw [ChainState.nextHeight, (connect_eq_ok h).1, List.length_append]
  rfl

theorem nextHeight_of_connectBlocks {blocks : List CBlock} (run : connectBlocks node s blocks = .ok s') :
    s'.nextHeight = s.nextHeight + blocks.length := by
  refine foldlM_ok (P := fun done t => t.nextHeight = s.nextHeight + done.length) run rfl ?_
  intro done block t t' _ hlen hstep
  rw [nextHeight_of_connect hstep, hlen, List.length_append, List.length_singleton, add_assoc]

theorem chain_run {P : List (ℕ × CTransaction) → CCoinsView → Prop} {blocks : List CBlock}
    (run : connectBlocks node s blocks = .ok s') (init : P [] s.coins)
    (step : ∀ hist chain header tx view view', s.nextHeight ≤ chain.length → P hist view →
      Connected node chain (node.fScriptChecks chain header) view tx view' →
      P (hist ++ [(chain.length, tx)]) view') :
    P (chainTxs node s.nextHeight blocks) s'.coins := by
  have hrun : s'.nextHeight = s.nextHeight + blocks.length ∧ P (chainTxs node s.nextHeight blocks) s'.coins := by
    refine foldlM_ok (P := fun done (t : ChainState) => t.nextHeight = s.nextHeight + done.length ∧
      P (chainTxs node s.nextHeight done) t.coins) run ⟨rfl, init⟩ ?_
    rintro done block t t' _ ⟨hlen, hP⟩ hstep
    constructor
    · rw [nextHeight_of_connect hstep, hlen, List.length_append, List.length_singleton, add_assoc]
    · rw [chainTxs_append, chainTxs, chainTxs, List.append_nil, ← hlen]
      apply connect_run hstep hP
      intro hist tx view view' hP' hconn
      exact step hist t.chain block.toCBlockHeader tx view view' (by rw [← ChainState.nextHeight]; omega) hP' hconn
  exact hrun.2

end

end Whippet.Validation
