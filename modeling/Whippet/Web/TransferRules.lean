import Whippet.Ports.SpendRules
import Whippet.Web.TransferPlan

/-! Transfers of the browser wallet under the node's rules. -/
namespace Whippet.Web
open Lib Primitives Script Validation Ports
open Indexer (Text)
open Ports.UapJs (defaultDustLimit defaultHardDustLimit)

/-- The record describes an unspent covenant. -/
structure TruthfulPosition (view : CCoinsView) (p : PositionRecord) (inp : UapInput) : Prop where
  names : Names p.txid (p.vout.getD 0) inp.prevout
  not_null : inp.prevout.isNull = false
  unspent : ∃ out, view.output? inp.prevout = some out ∧ parseUapOutputScript? out.scriptPubKey = some inp.fields ∧
    out.nValue.toInt = inp.value
  value : p.value = some inp.value
  multiplier : p.multiplier = some inp.fields.multiplier
  pubkey : p.pubkey.bytes? = some inp.fields.pubkey
  isMint : p.isMint = inp.fields.isMint
  scriptHex : ∀ script, p.scriptHex.bytes? = some script → script = uapScript inp.fields
  origin : inp.fields.isMint = false → ∀ t, p.origin = some t → UapJs.hexToBytes t = .ok inp.fields.origin

/-- The UTXO is an unspent output of this kind with its value. -/
structure TruthfulCoin (view : CCoinsView) (u : Utxo) (op : COutPoint) : Prop where
  names : Names u.txid u.vout op
  unspent : ∃ out hash, view.output? op = some out ∧ out.scriptPubKey = p2pkhScript hash ∧ out.nValue.toInt = u.value

theorem parse_p2pkhScript (hash : Bytes) : parseUapOutputScript? (p2pkhScript hash) = none := by
  cases h : parseUapOutputScript? (p2pkhScript hash) with
  | none => rfl
  | some f =>
    obtain ⟨hwf, hscript⟩ := parseUapOutputScript?_eq_some.mp h
    have hhead : (uapScript f).head? = some (UInt8.ofNat f.pubkey.length) := by
      rcases hwf.pubkey_size with hlen | hlen <;> simp [uapScript, pushData, pushHeader, hlen, toNat_opPushData1]
    rw [← hscript] at hhead
    rcases hwf.pubkey_size with hlen | hlen <;> simp [p2pkhScript, hlen] at hhead

theorem validatePositionScript_eq_ok {scriptHex : ByteField} {key : Option Bytes} {m : Option ℤ} {isMint : Bool}
    {script : Bytes} (h : validatePositionScript scriptHex key m isMint = .ok script) : scriptHex.bytes? = some script := by
  simp only [validatePositionScript, bind_eq_ok, failIf_eq_ok, orFail_eq_ok, pure_eq_ok] at h
  obtain ⟨⟨⟩, -, b, hb, -, -, -, -, -, -, -, -, -, -, rfl⟩ := h
  exact hb

theorem positionScriptOf_eq_ok {view : CCoinsView} {p : PositionRecord} {inp : UapInput}
    (htruth : TruthfulPosition view p inp) {script : Bytes}
    (h : positionScriptOf p inp.fields.pubkey inp.fields.multiplier = .ok script) : script = uapScript inp.fields := by
  obtain ⟨out, -, hparse, -⟩ := htruth.unspent
  obtain ⟨hwf, -⟩ := parseUapOutputScript?_eq_some.mp hparse
  unfold positionScriptOf at h
  split_ifs at h with hgiven hmint
  · split at h
    · cases h
    · rename_i hvalid
      obtain rfl := Except.ok.inj h
      exact htruth.scriptHex _ (validatePositionScript_eq_ok hvalid)
  · have hmintEq : inp.fields.isMint = true := htruth.isMint ▸ hmint
    rw [UapJs.buildMintScript_eq hwf.pubkey_size hwf.multiplier_nonneg hwf.multiplier_le] at h
    rw [← Except.ok.inj h, ← hwf.origin_mint hmintEq, ← hmintEq]
  · have hnot : inp.fields.isMint = false := by
      rw [← htruth.isMint]
      simpa using hmint
    cases horigin : p.origin with
    | none => rw [horigin] at h; cases h
    | some t =>
      rw [horigin] at h
      dsimp only at h
      split_ifs at h with hhex
      rw [htruth.origin hnot t horigin, ok_bind, UapJs.buildTransferScript_eq hwf.pubkey_size hwf.multiplier_nonneg
        hwf.multiplier_le (hwf.origin_size hnot)] at h
      rw [← Except.ok.inj h, ← hnot]

theorem toTransaction_of_names {tx : UapJs.Tx} {ops : List COutPoint}
    (h : List.Forall₂ (fun vin op => Names (UapJs.TxIn.outpoint vin).1 (UapJs.TxIn.outpoint vin).2 op) tx.vin ops) :
    ∃ T, UapJs.toTransaction tx = .ok T ∧ T.vin.map (·.prevout) = ops ∧
      T.vout = tx.vout.map fun out => ⟨Int64.ofInt out.value, out.scriptPubKey⟩ := by
  obtain ⟨vin, hvin, hprevouts⟩ : ∃ vin, tx.normalize.vin.mapM UapJs.toTxIn = .ok vin ∧ vin.map (·.prevout) = ops := by
    unfold UapJs.Tx.normalize
    dsimp only
    generalize tx.vin = vins at h
    induction h with
    | nil => exact ⟨[], rfl, rfl⟩
    | @cons txin op _ _ hnames _ ih =>
      obtain ⟨vin, hvin, hprevouts⟩ := ih
      refine ⟨⟨op, txin.scriptSig.getD [], UapJs.toUint32 (txin.sequence.getD 0xffffffff), []⟩ :: vin, ?_, ?_⟩
      · change Names txin.txid txin.vout op at hnames
        rw [List.map_cons, List.mapM_cons, hnames.toTxIn, ok_bind, hvin]
        rfl
      · rw [List.map_cons, hprevouts]
  exact ⟨⟨_, vin, _, _⟩, by rw [UapJs.toTransaction, hvin]; rfl, hprevouts, rfl⟩

theorem exists_forall₂ {α β : Type} {R : α → β → Prop} {l : List α} (h : ∀ a ∈ l, ∃ b, R a b) :
    ∃ bs, List.Forall₂ R l bs := by
  induction l with
  | nil => exact ⟨[], .nil⟩
  | cons a l ih =>
    obtain ⟨hhead, htail⟩ := List.forall_mem_cons.mp h
    obtain ⟨b, hb⟩ := hhead
    obtain ⟨bs, hbs⟩ := ih htail
    exact ⟨b :: bs, .cons hb hbs⟩

theorem exists_of_forall₂ {α β : Type} {R : α → β → Prop} {l : List α} {bs : List β} (h : List.Forall₂ R l bs) {b : β}
    (hb : b ∈ bs) : ∃ a, R a b := by
  induction h with
  | nil => cases hb
  | cons hR _ ih =>
    rcases List.mem_cons.mp hb with rfl | hb
    · exact ⟨_, hR⟩
    · exact ih hb

def TransferOutput.script (crypto : Crypto) (origin : Bytes) : TransferOutput → Bytes
  | .whipChange _ pubKey => buildP2PKHScript crypto pubKey
  | .tokenRecipient _ pubKey multiplier | .tokenChange _ pubKey multiplier => uapScript ⟨pubKey, multiplier, origin, false⟩

def TransferOutput.txOut (crypto : Crypto) (origin : Bytes) (o : TransferOutput) : CTxOut :=
  ⟨Int64.ofInt o.value, o.script crypto origin⟩

def TransferOutput.Pays (m : ℤ) : TransferOutput → Prop
  | .whipChange _ _ => True
  | .tokenRecipient _ pubKey multiplier | .tokenChange _ pubKey multiplier =>
    multiplier = m ∧ (pubKey.length = 33 ∨ pubKey.length = 65)

section
variable {crypto : Crypto} {origin : Bytes} (horigin : origin.length = 32) {m : ℤ} (h0 : 0 ≤ m) (h1 : m ≤ maxUapMultiplier)
include horigin h0 h1

theorem TransferOutput.encode_eq {o : TransferOutput} (h : o.Pays m) :
    o.encode crypto origin = .ok ⟨o.value, o.script crypto origin⟩ := by
  cases o with
  | whipChange value pubKey => rfl
  | tokenRecipient value pubKey multiplier | tokenChange value pubKey multiplier =>
    obtain ⟨rfl, hkey⟩ := h
    rw [TransferOutput.encode, UapJs.buildTransferScript_eq hkey h0 h1 horigin]
    rfl

theorem TransferOutput.transferPosition?_txOut (crypto : Crypto) {o : TransferOutput} (h : o.Pays m) :
    transferPosition? (o.txOut crypto origin) = (if o.isToken then some ((m, origin), wireValue o.value) else none) ∧
      isMintOutput (o.txOut crypto origin) = false := by
  cases o with
  | whipChange value pubKey =>
    have hparse : parseUapOutputScript? (buildP2PKHScript crypto pubKey) = none := parse_p2pkhScript _
    simp [TransferOutput.txOut, TransferOutput.script, transferPosition?, isMintOutput, hparse, TransferOutput.isToken]
  | tokenRecipient value pubKey multiplier | tokenChange value pubKey multiplier =>
    obtain ⟨rfl, hkey⟩ := h
    exact transferPosition?_built hkey h0 h1 horigin value (UapJs.buildTransferScript_eq hkey h0 h1 horigin)

theorem filterMap_txOut {outputs : List TransferOutput} (h : ∀ o ∈ outputs, o.Pays m) :
    (outputs.map (·.txOut crypto origin)).filterMap transferPosition? =
      (outputs.filter (·.isToken)).map fun o => ((m, origin), wireValue o.value) := by
  induction outputs with
  | nil => rfl
  | cons o outputs ih =>
    obtain ⟨ho, hrest⟩ := List.forall_mem_cons.mp h
    have hpos := (TransferOutput.transferPosition?_txOut horigin h0 h1 crypto ho).1
    rw [List.map_cons]
    cases htoken : o.isToken with
    | true =>
      rw [htoken, if_pos rfl] at hpos
      rw [List.filterMap_cons_some hpos, List.filter_cons_of_pos htoken, List.map_cons, ih hrest]
    | false =>
      rw [htoken, if_neg Bool.false_ne_true] at hpos
      rw [List.filterMap_cons_none hpos, List.filter_cons_of_neg (by simp [htoken]), ih hrest]

end

/-- A transfer that the rules accept, that moves the whole position, and that pays the fee of its plan. -/
structure SoundTransfer (crypto : Crypto) (view : CCoinsView) (inp : UapInput) (plan : TransferPlan) (T : CTransaction) :
    Prop where
  rules : UapRules crypto view T inp
  total : ((Validation.transferOutputs T).map Prod.snd).sum = inp.value
  lineage : ∀ p ∈ Validation.transferOutputs T, p.1 = inp.lineage crypto
  fee : (T.vin.map fun txin => (prevOutput view txin).nValue.toInt).sum - (T.vout.map (·.nValue.toInt)).sum = plan.fee

/-- The doubles of the plan add up to the funding. -/
def FundingExact (plan : TransferPlan) : Prop :=
  (plan.fundingInputs.map (·.value)).sum = plan.fee + wireValue plan.change

section
variable {crypto : Crypto} {secp : UapJs.Secp} {isPoint : Bytes → Bool} {view : CCoinsView} {input : TransferInput}
  {plan : TransferPlan} {inp : UapInput} {p : PositionRecord} {own toKey : Bytes} {m v a : ℤ} {r : ℚ} {funding : Funding}

theorem plannedOutputs_pays (hchecked : Checked crypto isPoint input p own toKey m v a r) (change : ℤ) :
    ∀ o ∈ plannedOutputs own toKey m a (v - a) change, o.Pays m := by
  intro o ho
  simp only [plannedOutputs, List.mem_append, List.mem_singleton] at ho
  rcases ho with (rfl | ho) | ho
  · exact ⟨rfl, hchecked.to_length⟩
  · split_ifs at ho
    · rw [List.mem_singleton.mp ho]
      exact ⟨rfl, hchecked.own_length⟩
    · cases ho
  · split_ifs at ho
    · rw [List.mem_singleton.mp ho]
      trivial
    · cases ho

theorem plannedOutputs_tokens (hchecked : Checked crypto isPoint input p own toKey m v a r) (change : ℤ) :
    (((plannedOutputs own toKey m a (v - a) change).filter (·.isToken)).map fun o => wireValue o.value).sum = v ∧
      ∀ o ∈ (plannedOutputs own toKey m a (v - a) change).filter (·.isToken), 0 ≤ wireValue o.value := by
  have hmax : maxSafeSats = 2 ^ 53 - 1 := rfl
  have hdust : defaultHardDustLimit = 100000 := rfl
  have hle := hchecked.value_le
  have hmin := hchecked.amount_min
  have hamount := hchecked.amount_le
  have hwire : wireValue a = a := wireValue_of_lt (by omega) (by omega)
  have hwireRest : wireValue (v - a) = v - a := wireValue_of_lt (by omega) (by omega)
  have hchange : (if change > 0 then [TransferOutput.whipChange change own] else []).filter (·.isToken) = [] := by
    split_ifs <;> rfl
  unfold plannedOutputs
  rw [List.filter_append, List.filter_append, hchange, List.append_nil]
  by_cases hrest : v - a > 0
  · rw [if_pos hrest]
    simp [TransferOutput.isToken, TransferOutput.value, hwire, hwireRest]
    omega
  · rw [if_neg hrest]
    simp [TransferOutput.isToken, TransferOutput.value, hwire]
    omega

theorem plannedOutputs_sum (hchecked : Checked crypto isPoint input p own toKey m v a r) {change : ℤ} (hchange : 0 ≤ change) :
    ((plannedOutputs own toKey m a (v - a) change).map fun o => wireValue o.value).sum = v + wireValue change := by
  have hmax : maxSafeSats = 2 ^ 53 - 1 := rfl
  have hdust : defaultHardDustLimit = 100000 := rfl
  have hle := hchecked.value_le
  have hmin := hchecked.amount_min
  have hamount := hchecked.amount_le
  have hwire : wireValue a = a := wireValue_of_lt (by omega) (by omega)
  have hwireRest : wireValue (v - a) = v - a := wireValue_of_lt (by omega) (by omega)
  have hzero : wireValue 0 = 0 := by decide
  have hrests : ((if v - a > 0 then [TransferOutput.tokenChange (v - a) own m] else []).map
      fun o => wireValue o.value).sum = v - a := by
    split_ifs
    · simpa [TransferOutput.value] using hwireRest
    · simp
      omega
  have hchanges : ((if change > 0 then [TransferOutput.whipChange change own] else []).map
      fun o => wireValue o.value).sum = wireValue change := by
    split_ifs with hpos
    · simp [TransferOutput.value]
    · rw [show change = 0 by omega, hzero]
      rfl
  simp only [plannedOutputs, List.map_append, List.sum_append, hrests, hchanges]
  simp [TransferOutput.value, hwire]

theorem buildTransferTx_eq_ok (hchecked : Checked crypto isPoint input p own toKey m v a r)
    (htruth : TruthfulPosition view p inp) {privKey : Bytes} {built : TransferTx}
    (hbuilt : buildTransferTx crypto secp (transferPlan p own toKey m v a r funding) privKey = .ok built)
    {ops : List COutPoint} (hops : List.Forall₂ (TruthfulCoin view) funding.selected ops) :
    ∃ T, UapJs.toTransaction built.tx = .ok T ∧ T.vin.map (·.prevout) = inp.prevout :: ops ∧
      T.vout = (plannedOutputs own toKey m a (v - a) funding.change).map
        (·.txOut crypto (inputLineage crypto inp.fields inp.prevout)) := by
  obtain ⟨out, -, hparse, -⟩ := htruth.unspent
  obtain ⟨hwf, hscript⟩ := parseUapOutputScript?_eq_some.mp hparse
  have hmult : inp.fields.multiplier = m := Option.some.inj (htruth.multiplier.symm.trans hchecked.multiplier)
  have hkey : inp.fields.pubkey = own := Option.some.inj (htruth.pubkey.symm.trans hchecked.owner)
  have hmax : maxSafeSats = 2 ^ 53 - 1 := rfl
  have hrange := hchecked.value_le
  have hmin := hchecked.amount_min
  have hdust : defaultHardDustLimit = 100000 := rfl
  have hremainder : intToDouble (v - a) = v - a := by
    have := hchecked.amount_le
    exact intToDouble_of_lt (by omega)
  have hplanOutputs : (transferPlan p own toKey m v a r funding).outputs =
      plannedOutputs own toKey m a (v - a) funding.change := by
    simp only [transferPlan, hremainder]
  simp only [buildTransferTx, bind_eq_ok, failIf_eq_ok, pure_eq_ok] at hbuilt
  obtain ⟨⟨⟩, -, script, hposition, origin, horigin, vout, hvout, scriptSig, -, inputs, -, tx, hsign, raw, -, rfl⟩ := hbuilt
  obtain rfl : script = uapScript inp.fields := by
    refine positionScriptOf_eq_ok htruth ?_
    rw [hkey, hmult]
    exact hposition
  have hlineage := originForSpend_eq crypto (hscript ▸ hparse) htruth.names
  obtain rfl := Except.ok.inj (hlineage.symm.trans horigin)
  have hlength := length_inputLineage crypto hwf inp.prevout
  have hpays := plannedOutputs_pays hchecked funding.change
  rw [hplanOutputs, mapM_ok fun o ho => TransferOutput.encode_eq hlength hchecked.multiplier_nonneg hchecked.multiplier_le
    (hpays o ho)] at hvout
  obtain rfl := Except.ok.inj hvout
  obtain ⟨hframeOut, hframeIn⟩ := UapJs.signInputs_frame hsign
  have hnames : List.Forall₂ (fun vin op => Names (UapJs.TxIn.outpoint vin).1 (UapJs.TxIn.outpoint vin).2 op) tx.vin
      (inp.prevout :: ops) := by
    rw [← List.forall₂_map_left_iff (f := UapJs.TxIn.outpoint)
      (R := fun (o : Text × ℤ) op => Names o.1 o.2 op), hframeIn, UapJs.map_outpoint_modify]
    rw [List.forall₂_map_left_iff]
    refine .cons htruth.names ?_
    rw [List.forall₂_map_left_iff]
    exact hops.imp fun u op h => h.names
  obtain ⟨T, hT, hprevouts, hTout⟩ := toTransaction_of_names hnames
  refine ⟨T, hT, hprevouts, ?_⟩
  rw [hTout, hframeOut]
  simp only [transferSkeleton, List.map_map]
  rfl

def heldAt (view : CCoinsView) (op : COutPoint) : ℤ := ((view.output? op).getD CTxOut.null).nValue.toInt

theorem sum_heldAt {us : List Utxo} {ops : List COutPoint} (h : List.Forall₂ (TruthfulCoin view) us ops) :
    (ops.map (heldAt view)).sum = (us.map (·.value)).sum := by
  induction h with
  | nil => rfl
  | cons hcoin _ ih =>
    obtain ⟨out, hash, hout, -, hvalue⟩ := hcoin.unspent
    rw [List.map_cons, List.map_cons, List.sum_cons, List.sum_cons, ih, heldAt, hout, Option.getD_some, hvalue]

theorem soleCovenant_of_prevouts (htruth : TruthfulPosition view p inp) (h0 : 0 ≤ inp.value) (h1 : inp.value ≤ maxMoney)
    {us : List Utxo} {ops : List COutPoint} (hops : List.Forall₂ (TruthfulCoin view) us ops) {T : CTransaction}
    (hprevouts : T.vin.map (·.prevout) = inp.prevout :: ops) : SoleCovenant view T inp := by
  obtain ⟨txin, vin, hvin, hfirst, hothers⟩ := List.map_eq_cons_iff.mp hprevouts
  refine ⟨⟨txin, vin, hvin, ?_, ?_⟩, htruth.not_null, h0, h1⟩
  · obtain ⟨out, hout, hparse, hvalue⟩ := htruth.unspent
    simp [uapInput?, hfirst, hout, hparse, hvalue]
  · intro t ht
    have hmem : t.prevout ∈ ops := hothers ▸ List.mem_map_of_mem ht
    obtain ⟨u, hcoin⟩ := exists_of_forall₂ hops hmem
    obtain ⟨out, hash, hout, hscript, -⟩ := hcoin.unspent
    exact ⟨out, hout, by rw [hscript, parse_p2pkhScript]⟩

/-- A transfer that is planned and built is sound exactly when its doubles add up. -/
theorem transfer_sound_iff (hplan : planTransfer crypto isPoint input = .ok plan)
    (htruth : ∀ p, input.position = some p → TruthfulPosition view p inp)
    (hcoins : ∀ u, some u ∈ input.fundingUtxos → ∃ op, TruthfulCoin view u op) {privKey : Bytes} {built : TransferTx}
    (hbuilt : buildTransferTx crypto secp plan privKey = .ok built) :
    ∃ T, UapJs.toTransaction built.tx = .ok T ∧ (SoundTransfer crypto view inp plan T ↔ FundingExact plan) := by
  obtain ⟨p, own, toKey, m, v, a, r, funding, hchecked, hselect, rfl⟩ := planTransfer_eq_ok hplan
  have htruth := htruth p hchecked.position
  obtain ⟨hselected, hspec⟩ := selectFunding_eq_ok hselect
  obtain ⟨ops, hops⟩ := exists_forall₂ fun u hu => hcoins u (hselected u hu).1
  obtain ⟨T, hT, hprevouts, hvout⟩ := buildTransferTx_eq_ok hchecked htruth hbuilt hops
  have hvalue : inp.value = v := Option.some.inj (htruth.value.symm.trans hchecked.value)
  have hmult : inp.fields.multiplier = m := Option.some.inj (htruth.multiplier.symm.trans hchecked.multiplier)
  obtain ⟨out, hout, hparse, hheld⟩ := htruth.unspent
  obtain ⟨hwf, -⟩ := parseUapOutputScript?_eq_some.mp hparse
  have hpos := hchecked.value_pos
  have hle := hchecked.value_le
  have hmax : maxSafeSats = 2 ^ 53 - 1 := rfl
  have hmoney : (2 ^ 53 : ℤ) ≤ maxMoney := by decide
  have hsole := soleCovenant_of_prevouts htruth (by omega) (by omega) hops hprevouts
  have hchange : 0 ≤ funding.change := by
    have hdust : defaultDustLimit = 1000000 := rfl
    rcases hspec.rest with ⟨h, -⟩ | ⟨h, -⟩ <;> omega
  have hlength := length_inputLineage crypto hwf inp.prevout
  have hpays := plannedOutputs_pays hchecked funding.change
  obtain ⟨htokens, hnonneg⟩ := plannedOutputs_tokens hchecked funding.change
  have hkey : inp.lineage crypto = (m, inputLineage crypto inp.fields inp.prevout) := by rw [UapInput.lineage, hmult]
  have hpositions : T.vout.filterMap transferPosition? =
      ((plannedOutputs own toKey m a (v - a) funding.change).filter (·.isToken)).map fun o =>
        (inp.lineage crypto, wireValue o.value) := by
    rw [hvout, hkey, filterMap_txOut hlength hchecked.multiplier_nonneg hchecked.multiplier_le hpays]
  have htotal : ((T.vout.filterMap transferPosition?).map Prod.snd).sum = inp.value := by
    rw [hpositions, List.map_map, hvalue]
    exact htokens
  have hlineage : ∀ q ∈ T.vout.filterMap transferPosition?, q.1 = inp.lineage crypto := by
    rw [hpositions]
    intro q hq
    obtain ⟨o, -, rfl⟩ := List.mem_map.mp hq
    rfl
  have hcontinues : Continues (inp.lineage crypto) inp.value T.vout := by
    refine ⟨?_, hlineage, ?_, ?_, htotal.le⟩
    · intro o ho
      rw [hvout] at ho
      obtain ⟨o', ho', rfl⟩ := List.mem_map.mp ho
      exact (TransferOutput.transferPosition?_txOut hlength hchecked.multiplier_nonneg hchecked.multiplier_le crypto
        (hpays o' ho')).2
    · rw [hpositions]
      intro q hq
      obtain ⟨o, ho, rfl⟩ := List.mem_map.mp hq
      exact hnonneg o ho
    · intro hnil
      rw [hnil] at htotal
      simp at htotal
      omega
  have hinputs : (T.vin.map fun txin => (prevOutput view txin).nValue.toInt).sum =
      v + (funding.selected.map (·.value)).sum := by
    have hmap : (T.vin.map fun txin => (prevOutput view txin).nValue.toInt) =
        (T.vin.map (·.prevout)).map (heldAt view) := by
      rw [List.map_map]
      rfl
    rw [hmap, hprevouts, List.map_cons, List.sum_cons, sum_heldAt hops, heldAt, hout, Option.getD_some, hheld, hvalue]
  have houtputs : (T.vout.map (·.nValue.toInt)).sum = v + wireValue funding.change := by
    rw [hvout, List.map_map, ← plannedOutputs_sum hchecked hchange]
    rfl
  refine ⟨T, hT, fun h => ?_, fun h => ⟨hsole.rules_iff.mpr hcontinues, htotal, hlineage, ?_⟩⟩
  · have hfee := h.fee
    rw [hinputs, houtputs] at hfee
    change _ = funding.fee at hfee
    change (funding.selected.map (·.value)).sum = funding.fee + wireValue funding.change
    omega
  · change (funding.selected.map (·.value)).sum = funding.fee + wireValue funding.change at h
    rw [hinputs, houtputs]
    change _ = funding.fee
    omega

end

end Whippet.Web
