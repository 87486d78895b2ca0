import Whippet.Validation.ChainRun

/-! The unspent supply of a lineage, and how a transaction changes it. -/
namespace Whippet.Validation
open Lib Primitives Script

def outSupply (key : UapLineage) (out : CTxOut) : ℤ :=
  if out.isNull then 0 else tally key (transferPosition? out).toList

def CCoins.supply (key : UapLineage) (coins : CCoins) : ℤ := (coins.vout.map (outSupply key)).sum

/-- The total value of the unspent transfer outputs of a lineage. -/
def supply (key : UapLineage) (view : CCoinsView) : ℤ := finmapSum (CCoins.supply key) view

def supplyAt (key : UapLineage) (view : CCoinsView) (p : COutPoint) : ℤ :=
  ((view.output? p).map (outSupply key)).getD 0

section
variable {key : UapLineage}

variable {out : CTxOut}

theorem outSupply_of_isNull (h : out.isNull = true) : outSupply key out = 0 := by
  simp [outSupply, h]

theorem outSupply_null : outSupply key CTxOut.null = 0 := rfl

def CCoins.weight (w : CTxOut → ℤ) (coins : CCoins) : ℤ := (coins.vout.map w).sum

def coinsWeight (w : CTxOut → ℤ) (view : CCoinsView) : ℤ := finmapSum (CCoins.weight w) view

variable {w : CTxOut → ℤ}

theorem CCoins.weight_of_isPruned {coins : CCoins} (h : coins.isPruned = true) : coins.weight w = 0 := by
  have hnil : coins.vout = [] := List.isEmpty_iff.mp h
  simp [CCoins.weight, hnil]

theorem coinsWeight_setCoins (view : CCoinsView) (txid : Uint256) (coins : CCoins) :
    coinsWeight w (view.setCoins txid coins) =
      coinsWeight w view - entryValue (CCoins.weight w) view txid + coins.weight w := by
  unfold CCoinsView.setCoins coinsWeight
  split_ifs with hpruned
  · rw [finmapSum_erase, CCoins.weight_of_isPruned hpruned, add_zero]
  · rw [finmapSum_insert]

variable {view view' : CCoinsView}

section
variable (hw : ∀ out, out.isNull = true → w out = 0)
include hw

theorem sum_map_cleanup (vout : List CTxOut) : ((CCoins.cleanup vout).map w).sum = (vout.map w).sum := by
  have hdropped : ((vout.rtakeWhile CTxOut.isNull).map w).sum = 0 := by
    apply List.sum_eq_zero
    intro v hv
    obtain ⟨out, hout, rfl⟩ := List.mem_map.mp hv
    exact hw out (List.mem_rtakeWhile_imp hout)
  have hsplit := List.rdropWhile_append_rtakeWhile (p := CTxOut.isNull) (l := vout)
  conv_rhs => rw [← hsplit, List.map_append, List.sum_append, hdropped, add_zero]
  rfl

theorem sum_map_set_null (vout : List CTxOut) (i : ℕ) :
    ((vout.set i CTxOut.null).map w).sum = (vout.map w).sum - (vout[i]?.map w).getD 0 := by
  induction vout generalizing i with
  | nil => simp
  | cons out vout ih =>
    cases i with
    | zero => simp [hw CTxOut.null rfl]
    | succ i =>
      have hrest := ih i
      simp only [List.set_cons_succ, List.map_cons, List.sum_cons, List.getElem?_cons_succ]
      omega

theorem getD_filter_weight (o : Option CTxOut) :
    ((o.filter fun out => !out.isNull).map w).getD 0 = (o.map w).getD 0 := by
  cases o with
  | none => rfl
  | some out =>
    by_cases h : out.isNull = true
    · simp [Option.filter, h, hw out h]
    · simp [Option.filter, h]

theorem CCoins.weight_spend (coins : CCoins) (n : UInt32) :
    (coins.spend n).weight w = coins.weight w - ((coins.output? n).map w).getD 0 := by
  unfold CCoins.weight CCoins.spend CCoins.output?
  rw [sum_map_cleanup hw, sum_map_set_null hw, getD_filter_weight hw]

theorem coinsWeight_spendInput? {prevout : COutPoint} {undo : CTxInUndo}
    (h : spendInput? prevout view = some (view', undo)) :
    coinsWeight w view' = coinsWeight w view - w undo.txout := by
  have hout := (spendInput?_eq_some h).1
  obtain ⟨coins, hcoins, out, hcoin, rfl, -⟩ := spendInput?_inv h
  have heq : out = undo.txout := by
    rw [CCoinsView.output?, hcoins, Option.bind_some, hcoin] at hout
    exact Option.some.inj hout
  rw [coinsWeight_setCoins, CCoins.weight_spend hw, hcoin, heq]
  simp only [entryValue, hcoins, Option.map_some, Option.getD_some]
  omega

theorem coinsWeight_spendInputs? {vin : List CTxIn} {undos : List CTxInUndo}
    (h : spendInputs? vin view = some (view', undos)) :
    coinsWeight w view' = coinsWeight w view - (undos.map fun undo => w undo.txout).sum := by
  induction vin generalizing view undos with
  | nil =>
    obtain ⟨rfl, rfl⟩ : view = view' ∧ [] = undos := by simpa [spendInputs?] using h
    simp
  | cons txin vin ih =>
    obtain ⟨mid, undo, hfirst, last, undos', hrest, rfl, rfl⟩ := spendInputs?_cons_inv h
    rw [ih hrest, coinsWeight_spendInput? hw hfirst, List.map_cons, List.sum_cons]
    omega

end

/-- What the undo data weighs is what the inputs weigh in the view. -/
theorem sum_map_undo {vin : List CTxIn} {undos : List CTxInUndo} (h : spendInputs? vin view = some (view', undos)) :
    (vin.map fun txin => ((view.output? txin.prevout).map w).getD 0).sum = (undos.map fun undo => w undo.txout).sum := by
  have hmap := congrArg (List.map fun o : Option CTxOut => (o.map w).getD 0) (spendInputs?_eq_some h).2.1
  rw [List.map_map, List.map_map] at hmap
  exact congrArg List.sum hmap

theorem CCoins.length_vout_spend (coins : CCoins) (n : UInt32) :
    (coins.spend n).vout.length ≤ coins.vout.length := by
  have hdrop := (List.rdropWhile_prefix CTxOut.isNull (coins.vout.set n.toNat CTxOut.null)).length_le
  rwa [List.length_set] at hdrop

theorem lookup_spendInputs? {vin : List CTxIn} {undos : List CTxInUndo}
    (h : spendInputs? vin view = some (view', undos)) {txid : Uint256} {coins' : CCoins}
    (hlookup : view'.lookup txid = some coins') :
    ∃ coins, view.lookup txid = some coins ∧ coins'.vout.length ≤ coins.vout.length := by
  induction vin generalizing view undos with
  | nil =>
    obtain ⟨rfl, rfl⟩ : view = view' ∧ [] = undos := by simpa [spendInputs?] using h
    exact ⟨coins', hlookup, le_refl _⟩
  | cons txin vin ih =>
    obtain ⟨mid, undo, hfirst, last, undos', hrest, rfl, rfl⟩ := spendInputs?_cons_inv h
    obtain ⟨coins₁, hcoins₁, hlen₁⟩ := ih hrest
    obtain ⟨coins, hcoins, out, -, rfl, -⟩ := spendInput?_inv hfirst
    rw [CCoinsView.lookup_setCoins] at hcoins₁
    split_ifs at hcoins₁ with htxid
    · obtain rfl := Option.some.inj hcoins₁
      exact ⟨coins, htxid ▸ hcoins, hlen₁.trans (coins.length_vout_spend _)⟩
    · exact ⟨coins₁, hcoins₁, hlen₁⟩

theorem isUnspendable_of_parse {script : Bytes} {f : UapOutput} (h : parseUapOutputScript? script = some f) :
    isUnspendable script = false := by
  obtain ⟨hwf, rfl⟩ := parseUapOutputScript?_eq_some.mp h
  obtain ⟨tail, htail, hsize⟩ := uapScript_head hwf
  have hlen := (uapScript_length hwf).2
  have hhead : (uapScript f).head? ≠ some opReturn := by
    rw [htail, List.head?_cons, ne_eq, Option.some.injEq]
    rcases hsize with hsize | hsize <;> rw [hsize] <;> decide
  simp only [isUnspendable, hhead, false_or, decide_eq_false_iff_not]
  omega

theorem isNull_of_nonneg (h : 0 ≤ out.nValue.toInt) : out.isNull = false := by
  rw [CTxOut.isNull, beq_eq_false_iff_ne]
  intro heq
  rw [heq] at h
  exact absurd h (by decide)

theorem outSupply_created (h : 0 ≤ out.nValue.toInt) :
    outSupply key (if isUnspendable out.scriptPubKey then CTxOut.null else out) =
      tally key (transferPosition? out).toList := by
  cases hf : parseUapOutputScript? out.scriptPubKey with
  | none =>
    have hpos : transferPosition? out = none := by simp [transferPosition?, hf]
    split_ifs
    · simp [outSupply_null, hpos]
    · simp [outSupply, hpos]
  | some f => simp [isUnspendable_of_parse hf, outSupply, isNull_of_nonneg h]

theorem tally_filterMap {α : Type*} (g : α → Option (UapLineage × ℤ)) (l : List α) :
    tally key (l.filterMap g) = (l.map fun a => tally key (g a).toList).sum := by
  induction l with
  | nil => rfl
  | cons a l ih =>
    cases hg : g a with
    | none => simp [hg, ih]
    | some p => simp [hg, ih, tally_cons]

variable {tx : CTransaction}

theorem CCoins.supply_fromTx (hchecks : BasicChecks tx) (nHeight : ℕ) :
    (CCoins.fromTx tx nHeight).supply key = tally key (transferOutputs tx) := by
  unfold CCoins.supply CCoins.fromTx transferOutputs
  rw [sum_map_cleanup fun _ => outSupply_of_isNull, List.map_map, tally_filterMap]
  congr 1
  apply List.map_congr_left
  intro out hout
  exact outSupply_created (hchecks.value_nonneg out hout)

theorem supply_updateCoins? {crypto : Crypto} {nHeight : ℕ}
    {undo : List CTxInUndo} (hchecks : BasicChecks tx) (hfresh : view.lookup (crypto.txid tx) = none)
    (h : updateCoins? crypto tx view nHeight = some (view', undo)) :
    supply key view' =
      supply key view - ((txSpends tx).map (supplyAt key view)).sum + tally key (transferOutputs tx) := by
  obtain ⟨mid, undo', hspend, rfl, rfl⟩ := updateCoins?_inv h
  have hmid : mid.lookup (crypto.txid tx) = none := by
    rw [Option.eq_none_iff_forall_ne_some]
    intro coins hcoins
    obtain ⟨coins', hcoins', -⟩ := lookup_spendInputs? hspend hcoins
    rw [hfresh] at hcoins'
    contradiction
  have hspent : ((txSpends tx).map (supplyAt key view)).sum =
      (undo'.map fun undo => outSupply key undo.txout).sum := by
    rw [← sum_map_undo hspend, txSpends_eq, List.map_map]
    rfl
  change coinsWeight (outSupply key) _ = coinsWeight (outSupply key) view - _ + _
  rw [coinsWeight_setCoins, coinsWeight_spendInputs? (fun _ => outSupply_of_isNull) hspend, hspent]
  change _ + CCoins.supply key _ = _
  rw [CCoins.supply_fromTx hchecks]
  simp [entryValue, hmid]

theorem not_isNull_of_output? {p : COutPoint} (h : view.output? p = some out) :
    out.isNull = false := by
  obtain ⟨coins, -, hout⟩ := Option.bind_eq_some_iff.mp h
  simpa using (Option.filter_eq_some_iff.mp hout).2

def UapInput.supply (crypto : Crypto) (key : UapLineage) (inp : UapInput) : ℤ :=
  if inp.fields.isMint then 0 else if inp.lineage crypto = key then inp.value else 0

theorem supplyAt_prevout (crypto : Crypto) (view : CCoinsView) (txin : CTxIn) :
    supplyAt key view txin.prevout = ((uapInput? view txin).map (UapInput.supply crypto key)).getD 0 := by
  unfold supplyAt uapInput?
  cases hout : view.output? txin.prevout with
  | none => rfl
  | some out =>
    cases hf : parseUapOutputScript? out.scriptPubKey with
    | none => simp [hf, outSupply, transferPosition?]
    | some f =>
      by_cases hm : f.isMint = true
      · simp [hf, outSupply, transferPosition?, UapInput.supply, hm]
      · simp [hf, outSupply, transferPosition?, UapInput.supply, UapInput.lineage, inputLineage, hm,
          not_isNull_of_output? hout, tally_cons]

theorem sum_supplyAt (crypto : Crypto) (view : CCoinsView) (tx : CTransaction) :
    ((txSpends tx).map (supplyAt key view)).sum =
      ((uapInputs view tx).map (UapInput.supply crypto key)).sum := by
  rw [txSpends_eq, uapInputs, List.map_map]
  generalize (if tx.isCoinBase = true then [] else tx.vin) = vin
  induction vin with
  | nil => rfl
  | cons txin vin ih =>
    rw [List.map_cons, List.sum_cons, ih, Function.comp_apply, supplyAt_prevout crypto]
    cases hinp : uapInput? view txin <;> simp [hinp]

theorem sum_supplyAt_eq_tally {crypto : Crypto}
    (h : ∀ inp ∈ uapInputs view tx, inp.fields.isMint = true → inp.lineage crypto ≠ key) :
    ((txSpends tx).map (supplyAt key view)).sum = tally key (inputPositions crypto view tx) := by
  rw [sum_supplyAt crypto, inputPositions]
  generalize uapInputs view tx = inps at h
  induction inps with
  | nil => rfl
  | cons inp inps ih =>
    have hrest := ih fun i hi => h i (List.mem_cons_of_mem inp hi)
    have hfirst := h inp List.mem_cons_self
    rw [List.map_cons, List.sum_cons, hrest, List.map_cons, tally_cons, UapInput.supply]
    by_cases hm : inp.fields.isMint = true
    · simp [hm, hfirst hm]
    · simp [hm]

/-- Every stored output has a position that an outpoint can name. -/
def Addressable (view : CCoinsView) : Prop := ∀ txid coins, view.lookup txid = some coins → coins.vout.length ≤ 2 ^ 32

theorem Addressable.output? (hview : Addressable view) {txid : Uint256} {coins : CCoins}
    (hcoins : view.lookup txid = some coins) (hout : out ∈ coins.vout) (hnull : out.isNull = false) :
    ∃ n, view.output? ⟨txid, n⟩ = some out := by
  obtain ⟨i, hi⟩ := List.mem_iff_getElem?.mp hout
  have hlt : i < 2 ^ 32 := (List.getElem?_eq_some_iff.mp hi).1.trans_le (hview txid coins hcoins)
  refine ⟨UInt32.ofNat i, ?_⟩
  rw [CCoinsView.output?, hcoins, Option.bind_some, CCoins.output?, UInt32.toNat_ofNat_of_lt' hlt, hi]
  simp [Option.filter, hnull]

theorem outSupply_eq_zero (h : out.isNull = false → ∀ v, transferPosition? out ≠ some (key, v)) :
    outSupply key out = 0 := by
  unfold outSupply
  split_ifs with hnull
  · rfl
  · apply tally_eq_zero
    intro p hp heq
    exact h (by simpa using hnull) p.2 (by rw [← heq]; exact Option.mem_toList.mp hp)

theorem outSupply_of_transferPosition? {v : ℤ} (hnull : out.isNull = false)
    (h : transferPosition? out = some (key, v)) : outSupply key out = v := by
  simp [outSupply, hnull, h, tally_cons]

theorem supply_eq_zero (hview : Addressable view)
    (h : ∀ q out, view.output? q = some out → ∀ v, transferPosition? out ≠ some (key, v)) : supply key view = 0 := by
  apply finmapSum_eq_zero
  intro txid coins hcoins
  apply List.sum_eq_zero
  intro v hv
  obtain ⟨out, hout, rfl⟩ := List.mem_map.mp hv
  apply outSupply_eq_zero
  intro hnull
  obtain ⟨n, hn⟩ := hview.output? hcoins hout hnull
  exact h _ out hn

theorem le_supply (hview : Addressable view)
    (hvalue : ∀ q out, view.output? q = some out → 0 ≤ out.nValue.toInt) {q : COutPoint} {v : ℤ}
    (hq : view.output? q = some out) (hpos : transferPosition? out = some (key, v)) : v ≤ supply key view := by
  have hnonneg : ∀ txid coins, view.lookup txid = some coins → ∀ w ∈ coins.vout.map (outSupply key), 0 ≤ w := by
    intro txid coins hcoins w hw
    obtain ⟨out', hout', rfl⟩ := List.mem_map.mp hw
    unfold outSupply
    split_ifs with hnull
    · exact le_refl 0
    · apply tally_nonneg
      intro p hp _
      obtain ⟨n, hn⟩ := hview.output? hcoins hout' (by simpa using hnull)
      obtain ⟨f, -, hf⟩ := Option.bind_eq_some_iff.mp (Option.mem_toList.mp hp)
      split_ifs at hf
      obtain rfl := Option.some.inj hf
      exact hvalue _ out' hn
  obtain ⟨coins, hcoins, hout⟩ := Option.bind_eq_some_iff.mp hq
  have hmem : out ∈ coins.vout := List.mem_of_getElem? (Option.filter_eq_some_iff.mp hout).1
  calc v = outSupply key out := (outSupply_of_transferPosition? (not_isNull_of_output? hq) hpos).symm
    _ ≤ coins.supply key := List.single_le_sum (hnonneg q.hash coins hcoins) _ (List.mem_map_of_mem hmem)
    _ ≤ supply key view :=
      le_finmapSum (fun txid coins hcoins => List.sum_nonneg (hnonneg txid coins hcoins)) hcoins

end

end Whippet.Validation
