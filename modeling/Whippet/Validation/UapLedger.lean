import Whippet.Lib.Lineage
import Whippet.Validation.Supply

/-! The UAP outputs of a chain as a ledger of lineages, which connecting a transaction refines. -/
namespace Whippet.Validation
open Lib Primitives Script

/-- The lineage a mint output founds when it is spent at its outpoint. -/
def mintLineage? (crypto : Crypto) (p : COutPoint) (out : CTxOut) : Option UapLineage := do
  let f ← parseUapOutputScript? out.scriptPubKey
  if f.isMint then some (f.multiplier, uapOriginFromOutpoint crypto p) else none

/-- What a mint output must be worth when it is spent: the entry fee, within the virtual balance bound. -/
def MintAdmitted (out : CTxOut) : Prop :=
  1000 * coin ≤ out.nValue.toInt ∧
    ∀ f, parseUapOutputScript? out.scriptPubKey = some f → out.nValue.toInt / coin * f.multiplier ≤ 2 ^ 48

/-- The ledger of the UAP lineages over the transactions of a chain and their heights. -/
def uapModel (crypto : Crypto) : LineageModel (ℕ × CTransaction) COutPoint CTxOut UapLineage where
  spends t := txSpends t.2
  creates t q := if q.hash = crypto.txid t.2 then txCoin? t.2 q.n else none
  root := mintLineage? crypto
  holds out := (transferPosition? out).map Prod.fst
  admits := MintAdmitted

def Fresh (crypto : Crypto) (hist : List (ℕ × CTransaction)) (tx : CTransaction) : Prop :=
  ∀ t ∈ hist, crypto.txid t.2 ≠ crypto.txid tx

def CreatedAt (crypto : Crypto) (txs : List (ℕ × CTransaction)) (p : COutPoint) (out : CTxOut) : Prop :=
  ∃ t ∈ txs, p.hash = crypto.txid t.2 ∧ t.2.vout[p.n.toNat]? = some out

def SpentIn (txs : List (ℕ × CTransaction)) (p : COutPoint) : Prop := ∃ t ∈ txs, p ∈ txSpends t.2

def DistinctTxids (crypto : Crypto) (txs : List (ℕ × CTransaction)) : Prop :=
  (txs.map fun t => crypto.txid t.2).Nodup

/-- SHA-256 has no collision among the outpoints that the transactions make. -/
def CollisionFree (crypto : Crypto) (txs : List (ℕ × CTransaction)) : Prop :=
  ∀ p q out out', CreatedAt crypto txs p out → CreatedAt crypto txs q out' →
    uapOriginFromOutpoint crypto p = uapOriginFromOutpoint crypto q → p = q

def outpoints (crypto : Crypto) (tx : CTransaction) : List COutPoint :=
  (List.range tx.vout.length).map fun i => ⟨crypto.txid tx, UInt32.ofNat i⟩

def originNumbers (crypto : Crypto) (txs : List CTransaction) : List ℕ :=
  (txs.flatMap (outpoints crypto)).map fun p => leNat (uapOriginFromOutpoint crypto p)

/-- What the entries of the view have in common with the history. -/
structure Stored (crypto : Crypto) (hist : List (ℕ × CTransaction)) (view : CCoinsView) : Prop where
  known : ∀ txid coins, view.lookup txid = some coins → ∃ t ∈ hist, crypto.txid t.2 = txid
  addressable : Addressable view
  checks : ∀ t ∈ hist, BasicChecks t.2

section
variable {crypto : Crypto} {hist later : List (ℕ × CTransaction)} {view view' : CCoinsView} {tx : CTransaction}
  {nHeight : ℕ} {key : UapLineage} {p : COutPoint} {out : CTxOut}

variable {t : ℕ × CTransaction}

theorem txid_of_creates (h : (uapModel crypto).creates t p = some out) :
    p.hash = crypto.txid t.2 := by
  simp only [uapModel] at h
  split_ifs at h with hp
  exact hp

theorem mem_vout_of_creates (h : (uapModel crypto).creates t p = some out) :
    t.2.vout[p.n.toNat]? = some out := by
  simp only [uapModel] at h
  split_ifs at h
  exact (Option.filter_eq_some_iff.mp h).1

theorem CreatedAt.mono (h : CreatedAt crypto hist p out) : CreatedAt crypto (hist ++ later) p out := by
  obtain ⟨t, hmem, ht⟩ := h
  exact ⟨t, List.mem_append_left _ hmem, ht⟩

theorem CollisionFree.of_append (h : CollisionFree crypto (hist ++ later)) : CollisionFree crypto hist := by
  intro p q out out' hp hq
  exact h p q out out' hp.mono hq.mono

theorem DistinctTxids.of_append (h : DistinctTxids crypto (hist ++ later)) : DistinctTxids crypto hist := by
  rw [DistinctTxids, List.map_append] at h
  exact h.of_append_left

theorem DistinctTxids.fresh (h : DistinctTxids crypto (hist ++ [(nHeight, tx)])) :
    Fresh crypto hist tx := by
  intro t hmem heq
  rw [DistinctTxids, List.map_append] at h
  exact (List.disjoint_of_nodup_append h) (List.mem_map_of_mem hmem) (by simp [heq])

theorem CreatedAt.mem_outpoints (h : CreatedAt crypto hist p out) :
    p ∈ (hist.map Prod.snd).flatMap (outpoints crypto) := by
  obtain ⟨t, hmem, htxid, hout⟩ := h
  refine List.mem_flatMap.mpr ⟨t.2, List.mem_map_of_mem hmem, List.mem_map.mpr ⟨p.n.toNat, ?_, ?_⟩⟩
  · exact List.mem_range.mpr (List.getElem?_eq_some_iff.mp hout).1
  · rw [UInt32.ofNat_toNat, ← htxid]

theorem collisionFree_of_nodup (h : (originNumbers crypto (hist.map Prod.snd)).Nodup) : CollisionFree crypto hist := by
  intro p q out out' hp hq horigin
  apply List.inj_on_of_nodup_map h hp.mem_outpoints hq.mem_outpoints
  rw [horigin]

theorem mem_originNumbers (crypto : Crypto) {txs : List CTransaction} (htx : tx ∈ txs) (hvout : tx.vout ≠ []) :
    leNat (uapOriginFromOutpoint crypto ⟨crypto.txid tx, 0⟩) ∈ originNumbers crypto txs := by
  refine List.mem_map_of_mem (List.mem_flatMap.mpr ⟨tx, htx, List.mem_map.mpr ⟨0, ?_, rfl⟩⟩)
  exact List.mem_range.mpr (List.length_pos_iff.mpr hvout)

theorem distinctTxids_of_nodup (h : (originNumbers crypto (hist.map Prod.snd)).Nodup)
    (hvout : ∀ t ∈ hist, t.2.vout ≠ []) : DistinctTxids crypto hist := by
  induction hist with
  | nil => exact List.nodup_nil
  | cons t hist ih =>
    rw [originNumbers, List.map_cons, List.flatMap_cons, List.map_append] at h
    refine List.nodup_cons.mpr ⟨?_, ih h.of_append_right fun t ht => hvout t (List.mem_cons_of_mem _ ht)⟩
    intro hmem
    obtain ⟨t', ht', htxid⟩ := List.mem_map.mp hmem
    have hfirst := mem_originNumbers crypto (List.mem_singleton_self t.2) (hvout t List.mem_cons_self)
    have hlater := mem_originNumbers crypto (List.mem_map_of_mem (f := Prod.snd) ht')
      (hvout t' (List.mem_cons_of_mem _ ht'))
    rw [htxid] at hlater
    rw [originNumbers, List.flatMap_singleton] at hfirst
    exact List.disjoint_of_nodup_append h hfirst hlater

theorem CollisionFree.subset {txs : List (ℕ × CTransaction)} (h : CollisionFree crypto txs)
    (hsub : hist.map Prod.snd ⊆ txs.map Prod.snd) : CollisionFree crypto hist := by
  have hmono : ∀ {p out}, CreatedAt crypto hist p out → CreatedAt crypto txs p out := by
    rintro p out ⟨t, hmem, ht⟩
    obtain ⟨t', hmem', heq⟩ := List.mem_map.mp (hsub (List.mem_map_of_mem hmem))
    exact ⟨t', hmem', by rwa [heq]⟩
  intro p q out out' hp hq
  exact h p q out out' (hmono hp) (hmono hq)

theorem DistinctTxids.sublist {txs : List (ℕ × CTransaction)} (h : DistinctTxids crypto txs) (hsub : hist.Sublist txs) :
    DistinctTxids crypto hist :=
  List.Nodup.sublist (hsub.map _) h

theorem createdAt_of_creates (hmem : t ∈ hist) (h : (uapModel crypto).creates t p = some out) :
    CreatedAt crypto hist p out :=
  ⟨t, hmem, txid_of_creates h, mem_vout_of_creates h⟩

theorem DistinctTxids.eq_of_txid (h : DistinctTxids crypto hist) {t' : ℕ × CTransaction} (ht : t ∈ hist)
    (ht' : t' ∈ hist) (heq : crypto.txid t.2 = crypto.txid t'.2) : t = t' :=
  List.inj_on_of_nodup_map h ht ht' heq

theorem holds_eq_some : (uapModel crypto).holds out = some key ↔ ∃ v, transferPosition? out = some (key, v) := by
  simp [uapModel]

variable {f : UapOutput}

theorem transferPosition?_of_parse (hf : parseUapOutputScript? out.scriptPubKey = some f) :
    transferPosition? out =
      if f.isMint then none else some ((f.multiplier, f.origin), out.nValue.toInt) := by
  simp [transferPosition?, hf]

theorem isMint_of_root (hf : parseUapOutputScript? out.scriptPubKey = some f)
    (h : (uapModel crypto).root p out = some key) :
    f.isMint = true ∧ key = (f.multiplier, uapOriginFromOutpoint crypto p) := by
  simp only [uapModel, mintLineage?, hf, Option.bind_eq_bind, Option.bind_some] at h
  split_ifs at h with hm
  exact ⟨hm, (Option.some.inj h).symm⟩

theorem belongs_iff (hf : parseUapOutputScript? out.scriptPubKey = some f) :
    (uapModel crypto).Belongs key p out ↔ (f.multiplier, inputLineage crypto f p) = key := by
  unfold LineageModel.Belongs
  rw [holds_eq_some, transferPosition?_of_parse hf]
  by_cases hm : f.isMint = true
  · simp [uapModel, mintLineage?, hf, hm, inputLineage]
  · simp [uapModel, mintLineage?, hf, hm, inputLineage]

theorem parse_of_belongs (h : (uapModel crypto).Belongs key p out) :
    ∃ f, parseUapOutputScript? out.scriptPubKey = some f := by
  rcases h with h | h
  · obtain ⟨f, hf, -⟩ := Option.bind_eq_some_iff.mp h
    exact ⟨f, hf⟩
  · obtain ⟨v, hv⟩ := holds_eq_some.mp h
    obtain ⟨f, hf, -⟩ := Option.bind_eq_some_iff.mp hv
    exact ⟨f, hf⟩

theorem exists_uapInput (hp : p ∈ txSpends tx) (hout : view.output? p = some out)
    (hbel : (uapModel crypto).Belongs key p out) :
    ∃ inp ∈ uapInputs view tx, inp.lineage crypto = key ∧ inp.prevout = p ∧ inp.value = out.nValue.toInt ∧
      parseUapOutputScript? out.scriptPubKey = some inp.fields := by
  obtain ⟨f, hf⟩ := parse_of_belongs hbel
  rw [txSpends_eq] at hp
  obtain ⟨txin, hmem, rfl⟩ := List.mem_map.mp hp
  refine ⟨⟨txin.prevout, f, out.nValue.toInt⟩, ?_, (belongs_iff hf).mp hbel, rfl, rfl, hf⟩
  exact List.mem_filterMap.mpr ⟨txin, hmem, by simp [uapInput?, hout, hf]⟩

theorem belongs_of_mem_uapInputs (crypto : Crypto) {inp : UapInput} (h : inp ∈ uapInputs view tx) :
    inp.prevout ∈ txSpends tx ∧ ∃ out, view.output? inp.prevout = some out ∧ inp.value = out.nValue.toInt ∧
      parseUapOutputScript? out.scriptPubKey = some inp.fields ∧
      (uapModel crypto).Belongs (inp.lineage crypto) inp.prevout out := by
  obtain ⟨hcb, i, txin, out, hi, hout, hf, hprev, hvalue, -⟩ := mem_uapInputs h
  constructor
  · rw [txSpends_eq, hcb, hprev]
    exact List.mem_map_of_mem (List.mem_of_getElem? hi)
  · exact ⟨out, hprev ▸ hout, hvalue, hf, (belongs_iff hf).mpr rfl⟩

theorem backed_of_creation (h : checkUapOutputCreation crypto tx view = .ok ()) :
    (uapModel crypto).Backed view.output? (nHeight, tx) := by
  intro q o k hcreate hhold
  obtain ⟨v, hv⟩ := holds_eq_some.mp hhold
  have hmem : (k, v) ∈ transferOutputs tx :=
    List.mem_filterMap.mpr ⟨o, List.mem_of_getElem? (mem_vout_of_creates hcreate), hv⟩
  obtain ⟨p, hp, hkey⟩ := List.mem_map.mp (creation_spec h (k, v) hmem)
  obtain ⟨inp, hinp, rfl⟩ := List.mem_map.mp hp
  obtain ⟨hspend, out, hout, -, -, hbel⟩ := belongs_of_mem_uapInputs crypto hinp
  change inp.lineage crypto = k at hkey
  exact ⟨inp.prevout, hspend, out, hout, hkey ▸ hbel⟩

theorem admitted_of_scripts {flags : ScriptFlags} (hflags : flags.uapMint = true)
    (hverify : tx.isCoinBase = false → ∀ i < tx.vin.length, scriptCheck crypto flags view tx i = .ok ()) :
    (uapModel crypto).Admitted view.output? (nHeight, tx) := by
  intro p hp out k hout hroot
  obtain ⟨inp, hinp, -, -, hvalue, hf⟩ := exists_uapInput hp hout (Or.inl hroot)
  have hmint := (isMint_of_root hf hroot).1
  obtain ⟨hfee, hvirtual, -⟩ := checked_of_verify hflags hverify hinp
  rw [hvalue] at hfee hvirtual
  refine ⟨(hfee hmint).1, ?_⟩
  intro f hf'
  obtain rfl : f = inp.fields := Option.some.inj (hf'.symm.trans hf)
  exact hvirtual

theorem length_le_flatMap {α : Type*} {f : α → Bytes} (h : ∀ a, 1 ≤ (f a).length) (l : List α) :
    l.length ≤ (l.flatMap f).length := by
  induction l with
  | nil => simp
  | cons a l ih =>
    have ha := h a
    rw [List.flatMap_cons, List.length_append, List.length_cons]
    omega

theorem BasicChecks.length_vout (h : BasicChecks tx) : tx.vout.length ≤ maxBlockBaseSize := by
  have hout : ∀ out : CTxOut, 1 ≤ out.serialize.length := by
    intro out
    rw [CTxOut.serialize, writeInt64, List.length_append, leBytes_length]
    omega
  have hvout := length_le_flatMap hout tx.vout
  have hsize := h.size_le
  simp only [CTransaction.serialize, Bool.false_and, Bool.false_eq_true, if_false, writeVector,
    List.length_append] at hsize
  omega

theorem creates_of_parse (crypto : Crypto) (nHeight : ℕ) (h : BasicChecks tx) (hout : out ∈ tx.vout)
    (hf : parseUapOutputScript? out.scriptPubKey = some f) :
    ∃ q, (uapModel crypto).creates (nHeight, tx) q = some out := by
  obtain ⟨i, hi⟩ := List.mem_iff_getElem?.mp hout
  have hlt : i < 2 ^ 32 := by
    have hlen := (List.getElem?_eq_some_iff.mp hi).1
    have hmax := h.length_vout
    unfold maxBlockBaseSize at hmax
    omega
  refine ⟨⟨crypto.txid tx, UInt32.ofNat i⟩, ?_⟩
  simp only [uapModel, if_true, txCoin?, UInt32.toNat_ofNat_of_lt' hlt, hi]
  simp [Option.filter, isUnspendable_of_parse hf, isNull_of_nonneg (h.value_nonneg out hout)]

theorem continued_of_conserves (hchecks : BasicChecks tx) (h : Conserves crypto view tx) :
    (uapModel crypto).Continued view.output? (nHeight, tx) := by
  intro p hp out k hout hbel
  obtain ⟨inp, hinp, hlineage, -⟩ := exists_uapInput hp hout hbel
  obtain ⟨⟨k', v⟩, hq, rfl⟩ := List.mem_map.mp
    (h.continued (k, inp.value) (List.mem_map.mpr ⟨inp, hinp, by rw [hlineage]⟩))
  obtain ⟨out', hout', hpos⟩ := List.mem_filterMap.mp hq
  obtain ⟨f, hf, -⟩ := Option.bind_eq_some_iff.mp hpos
  obtain ⟨q, hcreate⟩ := creates_of_parse crypto nHeight hchecks hout' hf
  exact ⟨q, out', hcreate, holds_eq_some.mpr ⟨v, hpos⟩⟩

/-- How a conserving transaction with a new txid moves the supplies. -/
theorem moves_of_conserves (hchecks : BasicChecks tx) (hstored : Stored crypto hist view)
    (hfresh : Fresh crypto hist tx) {undo : List CTxInUndo}
    (hupdate : updateCoins? crypto tx view nHeight = some (view', undo)) (h : Conserves crypto view tx) :
    (uapModel crypto).Moves (fun out => out.nValue.toInt) view.output? (nHeight, tx)
      (fun key => supply key view) (fun key => supply key view') := by
  have hnew : view.lookup (crypto.txid tx) = none := by
    rw [Option.eq_none_iff_forall_ne_some]
    intro coins hcoins
    obtain ⟨t, hmem, ht⟩ := hstored.known _ coins hcoins
    exact hfresh t hmem ht
  constructor
  case kept =>
    intro key hroots
    have hmints : ∀ inp ∈ uapInputs view tx, inp.fields.isMint = true → inp.lineage crypto ≠ key := by
      intro inp hinp hmint hkey
      obtain ⟨hspend, out, hout, -, hf, -⟩ := belongs_of_mem_uapInputs crypto hinp
      apply hroots inp.prevout hspend out hout
      rw [← hkey]
      simp [uapModel, mintLineage?, hf, hmint, UapInput.lineage, inputLineage]
    have hbound := h.bounded key
    change supply key view' ≤ supply key view
    rw [supply_updateCoins? hchecks hnew hupdate, sum_supplyAt_eq_tally hmints]
    omega
  case issued =>
    intro key p hp out hout hroot hnone
    obtain ⟨inp, hinp, hlineage, -, hvalue, hf⟩ := exists_uapInput hp hout (Or.inl hroot)
    have hmint := (isMint_of_root hf hroot).1
    have halone := h.mintAlone inp hinp hmint
    have hspent : ((txSpends tx).map (supplyAt key view)).sum = 0 := by
      rw [sum_supplyAt crypto, halone]
      simp [UapInput.supply, hmint]
    have hempty : supply key view = 0 := by
      apply supply_eq_zero hstored.addressable
      intro q o hq v hv
      exact hnone q o hq (holds_eq_some.mpr ⟨v, hv⟩)
    have hin : tally key (inputPositions crypto view tx) = out.nValue.toInt := by
      simp [inputPositions, halone, tally_cons, hlineage, hvalue]
    have hbound := h.bounded key
    change supply key view' ≤ out.nValue.toInt
    rw [supply_updateCoins? hchecks hnew hupdate, hspent, hempty]
    omega

theorem admissible_of_updates (nHeight : ℕ) (hfresh : Fresh crypto hist tx) (h : Updates crypto tx view view') :
    (uapModel crypto).Admissible hist view.output? (nHeight, tx) where
  available := h.available
  fresh := by
    intro q o hcreate t hmem
    have hq := txid_of_creates hcreate
    simp only [uapModel]
    rw [if_neg]
    intro ht
    exact hfresh t hmem (ht.symm.trans hq)

/-- Updating the coins refines the ledger's step. -/
theorem output?_of_updates (nHeight : ℕ) (hl : (uapModel crypto).Ledger hist view.output?) (hfresh : Fresh crypto hist tx)
    (h : Updates crypto tx view view') :
    view'.output? = (uapModel crypto).apply view.output? (nHeight, tx) := by
  funext q
  rw [h.output q]
  by_cases hq : q.hash = crypto.txid tx
  · rw [if_pos hq]
    -- nothing is unspent under the new txid, so an output that is not spendable leaves no output
    have hnone : view.output? q = none := by
      rw [Option.eq_none_iff_forall_ne_some]
      intro o ho
      obtain ⟨t, hmem, hc⟩ := hl.created q o ho
      exact hfresh t hmem ((txid_of_creates hc).symm.trans hq)
    cases hcoin : txCoin? tx q.n with
    | some o => exact (Utxo.apply_of_creates (by simp [uapModel, hq, hcoin])).symm
    | none =>
      rw [Utxo.apply_of_not_creates (by simp [uapModel, hq, hcoin]), hnone, ite_self]
  · rw [if_neg hq, Utxo.apply_of_not_creates (by simp [uapModel, hq])]
    rfl

theorem Stored.step (h : Stored crypto hist view) (hchecks : BasicChecks tx) {undo : List CTxInUndo}
    (hupdate : updateCoins? crypto tx view nHeight = some (view', undo)) :
    Stored crypto (hist ++ [(nHeight, tx)]) view' := by
  obtain ⟨mid, undo', hspend, rfl, rfl⟩ := updateCoins?_inv hupdate
  have hentry : ∀ txid coins, (mid.setCoins (crypto.txid tx) (CCoins.fromTx tx nHeight)).lookup txid = some coins →
      (∃ t ∈ hist ++ [(nHeight, tx)], crypto.txid t.2 = txid) ∧ coins.vout.length ≤ 2 ^ 32 := by
    intro txid coins hcoins
    rw [CCoinsView.lookup_setCoins] at hcoins
    split_ifs at hcoins with htxid
    · obtain rfl := Option.some.inj hcoins
      refine ⟨⟨(nHeight, tx), by simp, htxid.symm⟩, ?_⟩
      have hdrop := (List.rdropWhile_prefix CTxOut.isNull (tx.vout.map fun out =>
        if isUnspendable out.scriptPubKey then CTxOut.null else out)).length_le
      have hmax := hchecks.length_vout
      rw [List.length_map] at hdrop
      unfold maxBlockBaseSize at hmax
      change (List.rdropWhile _ _).length ≤ _
      omega
    · obtain ⟨coins', hcoins', hlen⟩ := lookup_spendInputs? hspend hcoins
      obtain ⟨t, hmem, ht⟩ := h.known txid coins' hcoins'
      exact ⟨⟨t, List.mem_append_left _ hmem, ht⟩, hlen.trans (h.addressable txid coins' hcoins')⟩
  refine ⟨fun txid coins hc => (hentry txid coins hc).1, fun txid coins hc => (hentry txid coins hc).2, ?_⟩
  intro t hmem
  rcases List.mem_append.mp hmem with hold | hnew
  · exact h.checks t hold
  · rw [List.mem_singleton.mp hnew]
    exact hchecks

theorem ledger_empty : (uapModel crypto).Ledger [] (CCoinsView.output? ∅) := by
  have hview : CCoinsView.output? ∅ = fun _ => none := by
    funext q
    simp [CCoinsView.output?]
  rw [hview]
  exact Utxo.ledger_nil

theorem Connected.ledger {node : Node} {chain : List CBlockIndex} {fScriptChecks : Bool}
    (hc : Connected node chain fScriptChecks view tx view')
    (hl : (uapModel node.crypto).Ledger hist view.output?) (hfresh : Fresh node.crypto hist tx) :
    (uapModel node.crypto).Ledger (hist ++ [(chain.length, tx)]) view'.output? := by
  obtain ⟨undo, hupdate⟩ := hc.updated
  have hupdates := updates_of_updateCoins? hupdate
  rw [output?_of_updates chain.length hl hfresh hupdates]
  exact hl.step (admissible_of_updates chain.length hfresh hupdates)

end

end Whippet.Validation
