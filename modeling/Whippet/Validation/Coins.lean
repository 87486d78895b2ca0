import Whippet.Lib.FinmapSum
import Whippet.Lib.Tally
import Whippet.Script.Scan
import Whippet.Script.UapRules
import Mathlib.Data.List.DropRight

/-! `CCoins` and the coins view: what is unspent, and how a transaction changes it. -/
namespace Whippet.Validation
open Lib Primitives Script

/-- The unspent outputs of one transaction. Spent outputs are null; those at the end are dropped. -/
structure CCoins where
  fCoinBase : Bool
  vout : List CTxOut
  nHeight : ℕ
  nVersion : Int32
  deriving DecidableEq, Repr

namespace CCoins

def cleanup (vout : List CTxOut) : List CTxOut := vout.rdropWhile CTxOut.isNull

/-- `FromTx`, with `ClearUnspendable`. -/
def fromTx (tx : CTransaction) (nHeight : ℕ) : CCoins where
  fCoinBase := tx.isCoinBase
  vout := cleanup (tx.vout.map fun out => if isUnspendable out.scriptPubKey then CTxOut.null else out)
  nHeight := nHeight
  nVersion := tx.nVersion

/-- The output at a position where `IsAvailable` holds. -/
def output? (coins : CCoins) (nPos : UInt32) : Option CTxOut :=
  coins.vout[nPos.toNat]?.filter fun out => !out.isNull

/-- `Spend`, on an available output. -/
def spend (coins : CCoins) (nPos : UInt32) : CCoins :=
  { coins with vout := cleanup (coins.vout.set nPos.toNat CTxOut.null) }

def isPruned (coins : CCoins) : Bool := coins.vout.isEmpty

end CCoins

/-- The view of the coins of the active chain. Fully spent transactions have no entry. -/
abbrev CCoinsView := Finmap fun _ : Uint256 => CCoins

namespace CCoinsView

/-- `AccessCoins` followed by `IsAvailable`: the unspent output at an outpoint. -/
def output? (view : CCoinsView) (prevout : COutPoint) : Option CTxOut :=
  (view.lookup prevout.hash).bind fun coins => coins.output? prevout.n

/-- What a coins modifier writes back. -/
def setCoins (view : CCoinsView) (txid : Uint256) (coins : CCoins) : CCoinsView :=
  if coins.isPruned then view.erase txid else view.insert txid coins

def haveInputs (view : CCoinsView) (tx : CTransaction) : Bool :=
  tx.isCoinBase || tx.vin.all fun txin => (view.output? txin.prevout).isSome

def getValueIn (view : CCoinsView) (tx : CTransaction) : ℤ :=
  if tx.isCoinBase then 0
  else (tx.vin.map fun txin => ((view.output? txin.prevout).map fun out => out.nValue.toInt).getD 0).sum

end CCoinsView

/-- What is kept to undo the spending of one input. The metadata is kept with the last output. -/
structure CTxInUndo where
  txout : CTxOut
  fCoinBase : Bool
  nHeight : ℕ
  nVersion : Int32
  deriving DecidableEq, Repr

/-- The input part of `UpdateCoins`; `none` is its failed assertion. -/
def spendInput? (prevout : COutPoint) (view : CCoinsView) : Option (CCoinsView × CTxInUndo) := do
  let coins ← view.lookup prevout.hash
  let out ← coins.output? prevout.n
  let spent := coins.spend prevout.n
  let undo :=
    if spent.isPruned then ⟨out, coins.fCoinBase, coins.nHeight, coins.nVersion⟩ else ⟨out, false, 0, 0⟩
  some (view.setCoins prevout.hash spent, undo)

def spendInputs? : List CTxIn → CCoinsView → Option (CCoinsView × List CTxInUndo)
  | [], view => some (view, [])
  | txin :: vin, view => do
    let (view, undo) ← spendInput? txin.prevout view
    let (view, undos) ← spendInputs? vin view
    some (view, undo :: undos)

/-- `UpdateCoins`: the new view and the undo data. -/
def updateCoins? (crypto : Crypto) (tx : CTransaction) (view : CCoinsView) (nHeight : ℕ) :
    Option (CCoinsView × List CTxInUndo) := do
  let (view, undo) ← spendInputs? (if tx.isCoinBase then [] else tx.vin) view
  some (view.setCoins (crypto.txid tx) (CCoins.fromTx tx nHeight), undo)

section
variable {crypto : Crypto} {tx : CTransaction} {txin : CTxIn} {vin : List CTxIn} {prevout : COutPoint} {nHeight : ℕ}
  {view view' : CCoinsView} {undo : CTxInUndo} {undos : List CTxInUndo}

theorem spendInput?_inv (h : spendInput? prevout view = some (view', undo)) :
    ∃ coins, view.lookup prevout.hash = some coins ∧ ∃ out, coins.output? prevout.n = some out ∧
      view.setCoins prevout.hash (coins.spend prevout.n) = view' ∧
      (if (coins.spend prevout.n).isPruned then ⟨out, coins.fCoinBase, coins.nHeight, coins.nVersion⟩
        else ⟨out, false, 0, 0⟩) = undo := by
  simpa only [spendInput?, Option.bind_eq_bind, Option.bind_eq_some_iff, Option.some.injEq, Prod.mk.injEq] using h

theorem spendInputs?_cons_inv (h : spendInputs? (txin :: vin) view = some (view', undos)) :
    ∃ mid undo, spendInput? txin.prevout view = some (mid, undo) ∧
      ∃ last undos', spendInputs? vin mid = some (last, undos') ∧ last = view' ∧ undo :: undos' = undos := by
  simpa only [spendInputs?, Option.bind_eq_bind, Option.bind_eq_some_iff, Option.some.injEq, Prod.mk.injEq, Prod.exists]
    using h

theorem updateCoins?_inv (h : updateCoins? crypto tx view nHeight = some (view', undos)) :
    ∃ mid undo, spendInputs? (if tx.isCoinBase then [] else tx.vin) view = some (mid, undo) ∧
      mid.setCoins (crypto.txid tx) (CCoins.fromTx tx nHeight) = view' ∧ undo = undos := by
  simpa only [updateCoins?, Option.bind_eq_bind, Option.bind_eq_some_iff, Option.some.injEq, Prod.mk.injEq, Prod.exists]
    using h

end

/-- The output a transaction in the chain makes spendable at a position. -/
def txCoin? (tx : CTransaction) (n : UInt32) : Option CTxOut :=
  tx.vout[n.toNat]?.filter fun out => !isUnspendable out.scriptPubKey && !out.isNull

def txSpends (tx : CTransaction) : List COutPoint :=
  if tx.isCoinBase then [] else tx.vin.map CTxIn.prevout

theorem getElem?_cleanup (vout : List CTxOut) (i : ℕ) :
    (CCoins.cleanup vout)[i]?.filter (fun out => !out.isNull) = vout[i]?.filter fun out => !out.isNull := by
  unfold CCoins.cleanup
  have hsplit := List.rdropWhile_append_rtakeWhile (p := CTxOut.isNull) (l := vout)
  by_cases hi : i < (vout.rdropWhile CTxOut.isNull).length
  · conv_rhs => rw [← hsplit, List.getElem?_append_left hi]
  · rw [List.getElem?_eq_none (by omega), Option.filter_none]
    conv_rhs => rw [← hsplit, List.getElem?_append_right (by omega)]
    symm
    rw [Option.filter_eq_none_iff]
    intro out hout
    have hnull := List.mem_rtakeWhile_imp (List.mem_of_getElem? hout)
    simp [hnull]

theorem CCoins.output?_spend (coins : CCoins) (n k : UInt32) :
    (coins.spend n).output? k = if k = n then none else coins.output? k := by
  unfold CCoins.output? CCoins.spend
  rw [getElem?_cleanup, List.getElem?_set]
  by_cases hk : k = n
  · subst hk
    rw [if_pos rfl, if_pos rfl]
    split_ifs <;> rfl
  · have hne : n.toNat ≠ k.toNat := fun h => hk (UInt32.toNat_inj.mp h).symm
    rw [if_neg hne, if_neg hk]

theorem CCoins.output?_fromTx (tx : CTransaction) (nHeight : ℕ) (n : UInt32) :
    (CCoins.fromTx tx nHeight).output? n = txCoin? tx n := by
  unfold CCoins.output? CCoins.fromTx txCoin?
  rw [getElem?_cleanup, List.getElem?_map]
  cases tx.vout[n.toNat]? with
  | none => rfl
  | some out =>
    by_cases h : isUnspendable out.scriptPubKey = true
    · simp [h, Option.filter, CTxOut.isNull, CTxOut.null]
    · simp [h, Option.filter]

theorem CCoins.output?_of_isPruned {coins : CCoins} (h : coins.isPruned = true) (n : UInt32) :
    coins.output? n = none := by
  have hnil : coins.vout = [] := List.isEmpty_iff.mp h
  simp [CCoins.output?, hnil]

theorem CCoinsView.lookup_setCoins (view : CCoinsView) (txid : Uint256) (coins : CCoins) (h : Uint256) :
    (view.setCoins txid coins).lookup h =
      if h = txid then (if coins.isPruned then none else some coins) else view.lookup h := by
  unfold CCoinsView.setCoins
  by_cases hh : h = txid
  · rw [if_pos hh, hh]
    split_ifs
    · rw [Finmap.lookup_erase]
    · rw [Finmap.lookup_insert]
  · rw [if_neg hh]
    split_ifs
    · rw [Finmap.lookup_erase_ne hh]
    · rw [Finmap.lookup_insert_of_ne _ hh]

theorem CCoinsView.output?_setCoins (view : CCoinsView) (txid : Uint256) (coins : CCoins) (p : COutPoint) :
    (view.setCoins txid coins).output? p = if p.hash = txid then coins.output? p.n else view.output? p := by
  unfold CCoinsView.output?
  rw [CCoinsView.lookup_setCoins]
  split_ifs with hp hpruned
  · exact (CCoins.output?_of_isPruned hpruned p.n).symm
  · rfl
  · rfl

theorem spendInput?_eq_some {prevout : COutPoint} {view view' : CCoinsView} {undo : CTxInUndo}
    (h : spendInput? prevout view = some (view', undo)) :
    view.output? prevout = some undo.txout ∧
      ∀ q, view'.output? q = if q = prevout then none else view.output? q := by
  obtain ⟨coins, hcoins, out, hout, hview, hundo⟩ := spendInput?_inv h
  have htxout : undo.txout = out := by
    rw [← hundo]
    split_ifs <;> rfl
  have hprev : ∀ q : COutPoint, q.hash = prevout.hash → view.output? q = coins.output? q.n := by
    intro q hq
    rw [CCoinsView.output?, hq, hcoins]
    rfl
  refine ⟨by rw [hprev prevout rfl, hout, htxout], ?_⟩
  intro q
  rw [← hview, CCoinsView.output?_setCoins, CCoins.output?_spend]
  simp only [COutPoint.ext_iff]
  by_cases hq : q.hash = prevout.hash
  · simp [hq, hprev q hq]
  · simp [hq]

/-- Spending the inputs of a transaction in turn needs each of them unspent, and so distinct. -/
theorem spendInputs?_eq_some {vin : List CTxIn} {view view' : CCoinsView} {undos : List CTxInUndo}
    (h : spendInputs? vin view = some (view', undos)) :
    (vin.map CTxIn.prevout).Nodup ∧
      (vin.map fun txin => view.output? txin.prevout) = undos.map (some ∘ CTxInUndo.txout) ∧
      ∀ q, view'.output? q = if q ∈ vin.map CTxIn.prevout then none else view.output? q := by
  induction vin generalizing view view' undos with
  | nil =>
    obtain ⟨rfl, rfl⟩ : view = view' ∧ [] = undos := by simpa [spendInputs?] using h
    simp
  | cons txin vin ih =>
    obtain ⟨mid, undo, hfirst, last, undos', hrest, rfl, rfl⟩ := spendInputs?_cons_inv h
    obtain ⟨hout, hmid⟩ := spendInput?_eq_some hfirst
    obtain ⟨hnodup, houts, hlast⟩ := ih hrest
    have hfresh : txin.prevout ∉ vin.map CTxIn.prevout := by
      intro hmem
      obtain ⟨txin', hmem', heq⟩ := List.mem_map.mp hmem
      have hnone : mid.output? txin'.prevout = none := by rw [hmid, heq, if_pos rfl]
      have hsome : mid.output? txin'.prevout ∈ undos'.map (some ∘ CTxInUndo.txout) := by
        rw [← houts]
        exact List.mem_map_of_mem hmem'
      rw [hnone] at hsome
      simp at hsome
    refine ⟨List.nodup_cons.mpr ⟨hfresh, hnodup⟩, ?_, ?_⟩
    · have hsame : (vin.map fun txin => view.output? txin.prevout) = vin.map fun txin => mid.output? txin.prevout := by
        apply List.map_congr_left
        intro txin' hmem
        rw [hmid, if_neg]
        intro heq
        exact hfresh (heq ▸ List.mem_map_of_mem hmem)
      rw [List.map_cons, List.map_cons, hsame, houts, hout]
      rfl
    · intro q
      rw [hlast, hmid, List.map_cons]
      by_cases hq : q = txin.prevout
      · simp [hq]
      · simp [hq]

/-- What a transaction does to the unspent outputs. -/
structure Updates (crypto : Crypto) (tx : CTransaction) (view view' : CCoinsView) : Prop where
  nodup : (txSpends tx).Nodup
  available : ∀ p ∈ txSpends tx, ∃ out, view.output? p = some out
  output : ∀ q, view'.output? q =
    if q.hash = crypto.txid tx then txCoin? tx q.n else if q ∈ txSpends tx then none else view.output? q

theorem txSpends_eq (tx : CTransaction) :
    txSpends tx = (if tx.isCoinBase then [] else tx.vin).map CTxIn.prevout := by
  unfold txSpends
  split_ifs <;> rfl

theorem updates_of_updateCoins? {crypto : Crypto} {tx : CTransaction} {view view' : CCoinsView} {nHeight : ℕ}
    {undo : List CTxInUndo} (h : updateCoins? crypto tx view nHeight = some (view', undo)) :
    Updates crypto tx view view' := by
  obtain ⟨mid, undo', hspend, rfl, rfl⟩ := updateCoins?_inv h
  obtain ⟨hnodup, houts, hmid⟩ := spendInputs?_eq_some hspend
  refine ⟨by rwa [txSpends_eq], ?_, ?_⟩
  · intro p hp
    rw [txSpends_eq] at hp
    obtain ⟨txin, hmem, rfl⟩ := List.mem_map.mp hp
    have hsome : view.output? txin.prevout ∈ undo'.map (some ∘ CTxInUndo.txout) := by
      rw [← houts]
      exact List.mem_map_of_mem hmem
    obtain ⟨u, -, hu⟩ := List.mem_map.mp hsome
    exact ⟨u.txout, hu.symm⟩
  · intro q
    rw [CCoinsView.output?_setCoins, CCoins.output?_fromTx, hmid, txSpends_eq]

end Whippet.Validation
