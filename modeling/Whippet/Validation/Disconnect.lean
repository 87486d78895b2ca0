import Whippet.Validation.ChainRun

/-! `DisconnectBlock`, and what it takes back of one transaction. -/
namespace Whippet.Validation
open Lib Primitives Script

namespace CCoins

/-- What `Clear` leaves, and the empty constructor makes. -/
def cleared : CCoins := ⟨false, [], 0, 0⟩

def clearUnspendable (coins : CCoins) : CCoins :=
  { coins with
    vout := cleanup (coins.vout.map fun out => if isUnspendable out.scriptPubKey then CTxOut.null else out) }

/-- `operator==`: empty coins are all equal. -/
def equals (a b : CCoins) : Bool := (a.isPruned && b.isPruned) || a = b

end CCoins

def CCoinsView.modifyCoins (view : CCoinsView) (txid : Uint256) : CCoins := (view.lookup txid).getD CCoins.cleared

/-- `vout.resize(size)`, which only grows here. -/
def resizeOutputs (vout : List CTxOut) (size : ℕ) : List CTxOut :=
  if vout.length < size then vout ++ List.replicate (size - vout.length) CTxOut.null else vout

/-- `ApplyTxInUndo`: the view, and whether nothing was in the way. -/
def applyTxInUndo (undo : CTxInUndo) (view : CCoinsView) (out : COutPoint) : CCoinsView × Bool :=
  let old := view.modifyCoins out.hash
  -- undo data with a height is that of the last output of its transaction
  let coins := if undo.nHeight ≠ 0 then ⟨undo.fCoinBase, [], undo.nHeight, undo.nVersion⟩ else old
  let fClean := if undo.nHeight ≠ 0 then old.isPruned else !old.isPruned
  let vout := (resizeOutputs coins.vout (out.n.toNat + 1)).set out.n.toNat undo.txout
  (view.setCoins out.hash { coins with vout := CCoins.cleanup vout }, fClean && (coins.output? out.n).isNone)

/-- The inputs of a transaction are restored from the last to the first. -/
def restoreInputs : List (CTxIn × CTxInUndo) → CCoinsView → CCoinsView × Bool
  | [], view => (view, true)
  | (txin, undo) :: rest, view =>
    let (view, fClean) := restoreInputs rest view
    let (view, restored) := applyTxInUndo undo view txin.prevout
    (view, fClean && restored)

section
variable (crypto : Crypto)

/-- Takes the outputs of a transaction away; they should be just those the transaction made. -/
def removeOutputs (tx : CTransaction) (nHeight : ℕ) (view : CCoinsView) : CCoinsView × Bool :=
  let hash := crypto.txid tx
  let outsBlock := CCoins.fromTx tx nHeight
  let outs := (view.modifyCoins hash).clearUnspendable
  let outs := if outsBlock.nVersion < 0 then { outs with nVersion := outsBlock.nVersion } else outs
  (view.erase hash, outs.equals outsBlock)

/-- The loop of `DisconnectBlock`, from the last transaction to the first. The coinbase has no undo data. -/
def disconnectTxs (nHeight : ℕ) : List (CTransaction × Option (List CTxInUndo)) → CCoinsView →
    Except String (CCoinsView × Bool)
  | [], view => .ok (view, true)
  | (tx, txundo) :: rest, view => do
    let (view, fClean) ← disconnectTxs nHeight rest view
    let (view, removed) := removeOutputs crypto tx nHeight view
    match txundo with
    | none => .ok (view, fClean && removed)
    | some vprevout => do
      failIf (vprevout.length ≠ tx.vin.length) "DisconnectBlock(): transaction and undo data inconsistent"
      let (view, restored) := restoreInputs (tx.vin.zip vprevout) view
      .ok (view, fClean && removed && restored)

/-- `DisconnectBlock` of the tip, with its undo data: the state before the block, and `fClean`. -/
def disconnectBlock (s : ChainState) (block : CBlock) (vtxundo : List (List CTxInUndo)) :
    Except String (ChainState × Bool) := do
  failIf (vtxundo.length + 1 ≠ block.vtx.length) "DisconnectBlock(): block and undo data inconsistent"
  let (view, fClean) ← disconnectTxs crypto (s.chain.length - 1) (block.vtx.zip (none :: vtxundo.map some)) s.coins
  .ok (⟨s.chain.dropLast, view⟩, fClean)

end

/-- Outputs as `CCoins` keeps them: null outputs have no script, and the last output is not null. -/
structure CleanOutputs (vout : List CTxOut) : Prop where
  null : ∀ out ∈ vout, out.isNull = true → out = CTxOut.null
  cleaned : CCoins.cleanup vout = vout

/-- The entries of a view are unspent transactions of blocks after the first. -/
def CCoinsView.Clean (view : CCoinsView) : Prop :=
  ∀ txid coins, view.lookup txid = some coins → CleanOutputs coins.vout ∧ coins.vout ≠ [] ∧ coins.nHeight ≠ 0

def available? (vout : List CTxOut) (i : ℕ) : Option CTxOut := vout[i]?.filter fun out => !out.isNull

theorem available?_cleanup (vout : List CTxOut) (i : ℕ) : available? (CCoins.cleanup vout) i = available? vout i :=
  getElem?_cleanup vout i

variable {vout : List CTxOut}

theorem available?_set_ne {n i : ℕ} (h : n ≠ i) (out : CTxOut) :
    available? (vout.set n out) i = available? vout i := by
  rw [available?, available?, List.getElem?_set_ne h]

theorem available?_resizeOutputs (vout : List CTxOut) (size i : ℕ) :
    available? (resizeOutputs vout size) i = available? vout i := by
  unfold available? resizeOutputs
  split_ifs
  · by_cases hi : i < vout.length
    · rw [List.getElem?_append_left hi]
    · rw [List.getElem?_append_right (by omega), List.getElem?_replicate, List.getElem?_eq_none (by omega)]
      split_ifs <;> rfl
  · rfl

theorem isNull_of_available? {i : ℕ} {out : CTxOut} (h : available? vout i = some out) :
    out.isNull = false := by
  simpa using (Option.filter_eq_some_iff.mp h).2

theorem cleanup_eq_self_iff :
    CCoins.cleanup vout = vout ↔ ∀ h : vout ≠ [], (vout.getLast h).isNull = false := by
  rw [CCoins.cleanup, List.rdropWhile_eq_self_iff]
  simp

theorem CleanOutputs.length_le {vout' : List CTxOut} (h' : CleanOutputs vout')
    (heq : ∀ i, available? vout i = available? vout' i) : vout'.length ≤ vout.length := by
  by_contra hlt
  have hne : vout' ≠ [] := by
    rintro rfl
    simp at hlt
  have hlast := cleanup_eq_self_iff.mp h'.cleaned hne
  have hi := heq (vout'.length - 1)
  rw [available?, available?, List.getElem?_eq_none (by omega), ← List.getLast?_eq_getElem?,
    List.getLast?_eq_some_getLast hne] at hi
  simp [Option.filter, hlast] at hi

theorem CleanOutputs.ext {vout' : List CTxOut} (h : CleanOutputs vout) (h' : CleanOutputs vout')
    (heq : ∀ i, available? vout i = available? vout' i) : vout = vout' := by
  have hlen : vout.length = vout'.length := le_antisymm (h.length_le fun i => (heq i).symm) (h'.length_le heq)
  apply List.ext_getElem hlen
  intro i hi hi'
  have hout := heq i
  rw [available?, available?, List.getElem?_eq_getElem hi, List.getElem?_eq_getElem hi'] at hout
  cases hnull : vout[i].isNull with
  | true =>
    have hnull' : vout'[i].isNull = true := by simpa [Option.filter, hnull] using hout
    rw [h.null _ (List.getElem_mem hi) hnull, h'.null _ (List.getElem_mem hi') hnull']
  | false =>
    cases hnull' : vout'[i].isNull with
    | true => simp [Option.filter, hnull, hnull'] at hout
    | false => simpa [Option.filter, hnull, hnull'] using hout

theorem cleanOutputs_cleanup (h : ∀ out ∈ vout, out.isNull = true → out = CTxOut.null) :
    CleanOutputs (CCoins.cleanup vout) where
  null out hout := h out ((List.rdropWhile_prefix CTxOut.isNull vout).subset hout)
  cleaned := List.rdropWhile_idempotent CTxOut.isNull vout

theorem CleanOutputs.spend {coins : CCoins} (h : CleanOutputs coins.vout) (n : UInt32) :
    CleanOutputs (coins.spend n).vout := by
  apply cleanOutputs_cleanup
  intro out hout hnull
  rcases List.mem_or_eq_of_mem_set hout with hold | rfl
  · exact h.null out hold hnull
  · rfl

theorem cleanup_restore {rest : List CTxOut} {n : ℕ} {out : CTxOut} (h : CleanOutputs vout)
    (hrest : ∀ o ∈ rest, o.isNull = true → o = CTxOut.null) (hout : available? vout n = some out)
    (heq : ∀ i ≠ n, available? rest i = available? vout i) :
    CCoins.cleanup ((resizeOutputs rest (n + 1)).set n out) = vout := by
  have hlen : n < (resizeOutputs rest (n + 1)).length := by
    unfold resizeOutputs
    split_ifs with hlt
    · rw [List.length_append, List.length_replicate]
      omega
    · omega
  apply CleanOutputs.ext _ h
  · intro i
    rw [available?_cleanup]
    by_cases hi : n = i
    · subst hi
      rw [hout, available?, List.getElem?_set_self hlen, Option.filter_some, isNull_of_available? hout]
      rfl
    · rw [available?_set_ne hi, available?_resizeOutputs, heq i (Ne.symm hi)]
  · apply cleanOutputs_cleanup
    intro o ho hnull
    rcases List.mem_or_eq_of_mem_set ho with hold | rfl
    · unfold resizeOutputs at hold
      split_ifs at hold
      · rcases List.mem_append.mp hold with hmem | hmem
        · exact hrest o hmem hnull
        · exact List.eq_of_mem_replicate hmem
      · exact hrest o hold hnull
    · simp [isNull_of_available? hout] at hnull

section
variable {view view' : CCoinsView} {prevout : COutPoint} {undo : CTxInUndo}

theorem CCoinsView.Clean.setCoins (h : view.Clean) {coins : CCoins} (hclean : CleanOutputs coins.vout)
    (hheight : coins.nHeight ≠ 0) (txid : Uint256) : (view.setCoins txid coins).Clean := by
  intro txid' coins' hlookup
  rw [CCoinsView.lookup_setCoins] at hlookup
  split_ifs at hlookup with heq hpruned
  · obtain rfl : coins = coins' := by simpa using hlookup
    have hne : coins.vout ≠ [] := by simpa [CCoins.isPruned] using hpruned
    exact ⟨hclean, hne, hheight⟩
  · exact h txid' coins' hlookup

variable {txid : Uint256}

theorem CCoinsView.setCoins_setCoins {coins : CCoins} (h : view.lookup txid = some coins)
    (hne : coins.vout ≠ []) (changed : CCoins) : (view.setCoins txid changed).setCoins txid coins = view := by
  apply Finmap.ext_lookup
  intro txid'
  rw [CCoinsView.lookup_setCoins, CCoinsView.lookup_setCoins]
  by_cases heq : txid' = txid
  · rw [if_pos heq, heq, h, if_neg]
    simpa [CCoins.isPruned] using hne
  · rw [if_neg heq, if_neg heq]

theorem modifyCoins_setCoins (txid : Uint256) (coins : CCoins) :
    (view.setCoins txid coins).modifyCoins txid = if coins.isPruned then CCoins.cleared else coins := by
  unfold CCoinsView.modifyCoins
  rw [CCoinsView.lookup_setCoins, if_pos rfl]
  split_ifs <;> rfl

theorem spendInput?_clean (hclean : view.Clean) (h : spendInput? prevout view = some (view', undo)) :
    view'.Clean := by
  obtain ⟨coins, hcoins, out, -, rfl, -⟩ := spendInput?_inv h
  obtain ⟨houts, -, hheight⟩ := hclean _ _ hcoins
  exact hclean.setCoins (houts.spend prevout.n) hheight prevout.hash

theorem applyTxInUndo_spendInput? (hclean : view.Clean) (h : spendInput? prevout view = some (view', undo)) :
    applyTxInUndo undo view' prevout = (view, true) := by
  obtain ⟨coins, hcoins, out, hout, rfl, rfl⟩ := spendInput?_inv h
  obtain ⟨houts, hne, hheight⟩ := hclean _ _ hcoins
  have hspent : ∀ i ≠ prevout.n.toNat, available? (coins.spend prevout.n).vout i = available? coins.vout i := by
    intro i hi
    rw [CCoins.spend, available?_cleanup, available?_set_ne (Ne.symm hi)]
  have hgone : (coins.spend prevout.n).output? prevout.n = none := by rw [CCoins.output?_spend, if_pos rfl]
  unfold applyTxInUndo
  rw [modifyCoins_setCoins]
  by_cases hpruned : (coins.spend prevout.n).isPruned = true
  · have hnil : (coins.spend prevout.n).vout = [] := List.isEmpty_iff.mp hpruned
    have hrest : CCoins.cleanup ((resizeOutputs [] (prevout.n.toNat + 1)).set prevout.n.toNat out) = coins.vout :=
      cleanup_restore houts (by simp) hout (hnil ▸ hspent)
    simp only [hpruned, if_true, ne_eq, hheight, not_false_eq_true, hrest]
    rw [CCoinsView.setCoins_setCoins hcoins hne]
    rfl
  · have hrest := cleanup_restore houts (houts.spend prevout.n).null hout hspent
    have hback : { coins.spend prevout.n with vout := coins.vout } = coins := rfl
    simp only [hpruned, if_false, ne_eq, not_true_eq_false, hrest, hgone, hback, Bool.false_eq_true]
    rw [CCoinsView.setCoins_setCoins hcoins hne]
    rfl

theorem restoreInputs_spendInputs? {vin : List CTxIn} {undos : List CTxInUndo} (hclean : view.Clean)
    (h : spendInputs? vin view = some (view', undos)) :
    undos.length = vin.length ∧ restoreInputs (vin.zip undos) view' = (view, true) ∧ view'.Clean := by
  induction vin generalizing view view' undos with
  | nil =>
    obtain ⟨rfl, rfl⟩ : view = view' ∧ [] = undos := by simpa [spendInputs?] using h
    exact ⟨rfl, rfl, hclean⟩
  | cons txin vin ih =>
    obtain ⟨mid, undo, hfirst, last, undos', hrest, rfl, rfl⟩ := spendInputs?_cons_inv h
    obtain ⟨hlen, hrestore, hlast⟩ := ih (spendInput?_clean hclean hfirst) hrest
    refine ⟨by rw [List.length_cons, hlen, List.length_cons], ?_, hlast⟩
    rw [List.zip_cons_cons, restoreInputs, hrestore]
    simp only [applyTxInUndo_spendInput? hclean hfirst, Bool.and_self]

theorem cleanOutputs_fromTx {tx : CTransaction} (hchecks : BasicChecks tx) (nHeight : ℕ) :
    CleanOutputs (CCoins.fromTx tx nHeight).vout := by
  apply cleanOutputs_cleanup
  intro out hout hnull
  obtain ⟨out', hmem, rfl⟩ := List.mem_map.mp hout
  split_ifs at hnull ⊢
  · rfl
  · have hvalue := hchecks.value_nonneg out' hmem
    rw [CTxOut.isNull, beq_iff_eq] at hnull
    rw [hnull] at hvalue
    exact absurd hvalue (by decide)

theorem clearUnspendable_fromTx (tx : CTransaction) (nHeight : ℕ) :
    (CCoins.fromTx tx nHeight).clearUnspendable = CCoins.fromTx tx nHeight := by
  have hmap : ((CCoins.fromTx tx nHeight).vout.map fun out =>
      if isUnspendable out.scriptPubKey then CTxOut.null else out) = (CCoins.fromTx tx nHeight).vout := by
    conv_rhs => rw [← List.map_id (CCoins.fromTx tx nHeight).vout]
    apply List.map_congr_left
    intro out hout
    obtain ⟨out', -, rfl⟩ := List.mem_map.mp ((List.rdropWhile_prefix CTxOut.isNull _).subset hout)
    by_cases hun : isUnspendable out'.scriptPubKey = true
    · rw [if_pos hun]
      rfl
    · rw [if_neg hun, if_neg hun]
      rfl
  have hcleanup : CCoins.cleanup (CCoins.fromTx tx nHeight).vout = (CCoins.fromTx tx nHeight).vout :=
    List.rdropWhile_idempotent CTxOut.isNull _
  unfold CCoins.clearUnspendable
  rw [hmap, hcleanup]

theorem removeOutputs_setCoins {crypto : Crypto} {tx : CTransaction} (h : view.lookup (crypto.txid tx) = none)
    (nHeight : ℕ) :
    removeOutputs crypto tx nHeight (view.setCoins (crypto.txid tx) (CCoins.fromTx tx nHeight)) = (view, true) := by
  have herase : (view.setCoins (crypto.txid tx) (CCoins.fromTx tx nHeight)).erase (crypto.txid tx) = view := by
    apply Finmap.ext_lookup
    intro txid
    by_cases heq : txid = crypto.txid tx
    · rw [heq, Finmap.lookup_erase, h]
    · rw [Finmap.lookup_erase_ne heq, CCoinsView.lookup_setCoins, if_neg heq]
  simp only [removeOutputs, herase, modifyCoins_setCoins]
  by_cases hpruned : (CCoins.fromTx tx nHeight).isPruned = true
  · simp only [hpruned, if_true, CCoins.equals, Prod.mk.injEq, true_and, Bool.and_true]
    split_ifs <;> rfl
  · simp only [hpruned, clearUnspendable_fromTx, CCoins.equals, Bool.false_eq_true, if_false]
    split_ifs <;> simp

theorem lookup_spendInput?_eq_none (h : spendInput? prevout view = some (view', undo))
    (hnone : view.lookup txid = none) : view'.lookup txid = none := by
  obtain ⟨coins, hcoins, out, -, rfl, -⟩ := spendInput?_inv h
  have hne : txid ≠ prevout.hash := by
    intro heq
    rw [heq, hcoins] at hnone
    simp at hnone
  rw [CCoinsView.lookup_setCoins, if_neg hne, hnone]

theorem lookup_spendInputs?_eq_none {vin : List CTxIn} {undos : List CTxInUndo}
    (h : spendInputs? vin view = some (view', undos)) (hnone : view.lookup txid = none) :
    view'.lookup txid = none := by
  induction vin generalizing view view' undos with
  | nil =>
    obtain ⟨rfl, rfl⟩ : view = view' ∧ [] = undos := by simpa [spendInputs?] using h
    exact hnone
  | cons txin vin ih =>
    obtain ⟨mid, undo, hfirst, last, undos', hrest, rfl, rfl⟩ := spendInputs?_cons_inv h
    exact ih hrest (lookup_spendInput?_eq_none hfirst hnone)

end

section
variable {crypto : Crypto} {tx : CTransaction} {nHeight : ℕ} {view view' : CCoinsView} {undo : List CTxInUndo}

theorem updateCoins?_clean (hclean : view.Clean) (hchecks : BasicChecks tx) (hheight : nHeight ≠ 0)
    (h : updateCoins? crypto tx view nHeight = some (view', undo)) : view'.Clean := by
  obtain ⟨mid, undo', hspend, rfl, -⟩ := updateCoins?_inv h
  exact (restoreInputs_spendInputs? hclean hspend).2.2.setCoins (cleanOutputs_fromTx hchecks nHeight) hheight _

theorem lookup_updateCoins?_eq_none (h : updateCoins? crypto tx view nHeight = some (view', undo)) {txid : Uint256}
    (hne : txid ≠ crypto.txid tx) (hnone : view.lookup txid = none) : view'.lookup txid = none := by
  obtain ⟨mid, undo', hspend, rfl, -⟩ := updateCoins?_inv h
  rw [CCoinsView.lookup_setCoins, if_neg hne, lookup_spendInputs?_eq_none hspend hnone]

theorem disconnectTxs_cons {rest : List (CTransaction × Option (List CTxInUndo))} {last : CCoinsView}
    (hclean : view.Clean) (hfresh : view.lookup (crypto.txid tx) = none)
    (h : updateCoins? crypto tx view nHeight = some (view', undo))
    (hrest : disconnectTxs crypto nHeight rest last = .ok (view', true)) :
    disconnectTxs crypto nHeight ((tx, if tx.isCoinBase then none else some undo) :: rest) last =
      .ok (view, true) := by
  obtain ⟨mid, undo', hspend, rfl, rfl⟩ := updateCoins?_inv h
  obtain ⟨hlen, hrestore, -⟩ := restoreInputs_spendInputs? hclean hspend
  have hremove := removeOutputs_setCoins (lookup_spendInputs?_eq_none hspend hfresh) nHeight
  simp only [disconnectTxs, hrest, ok_bind, hremove]
  by_cases hcb : tx.isCoinBase = true
  · obtain rfl : view = mid := by
      simp only [hcb, if_true, spendInputs?, Option.some.injEq, Prod.mk.injEq] at hspend
      exact hspend.1
    simp only [hcb, if_true, Bool.and_self]
  · simp only [hcb, Bool.false_eq_true, if_false] at hlen hrestore ⊢
    simp only [hlen, ne_eq, not_true_eq_false, failIf_false, ok_bind, hrestore, Bool.and_self]

end

end Whippet.Validation
