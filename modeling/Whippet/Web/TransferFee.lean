import Whippet.Ports.TxSize
import Whippet.Web.TransferValid

/-! Whether the fee of a transfer covers its rate: the size that the fee is computed from against the bytes that are
written. -/
namespace Whippet.Web
open Lib Primitives Ports
open Indexer (Text hexEncode_length)
open Ports.UapJs (ceil_div_thousand defaultDustLimit defaultHardDustLimit feeFor feeFor_eq recommendedMinTxFee)

def multiplierWidth (m : ℤ) : ℕ := ((UapJs.pushMultiplier m).toOption.getD []).length

def TransferPlan.nCovenantOutputs (plan : TransferPlan) : ℕ := if plan.remainderSats > 0 then 2 else 1

/-- The bytes of the largest transaction for a plan with compressed keys. -/
def TransferPlan.largestSize (plan : TransferPlan) : ℕ :=
  -- Version, lock time and the count of outputs come first.
  9 + varIntSize (1 + plan.fundingInputs.length) + 115 + 149 * plan.fundingInputs.length +
    plan.nCovenantOutputs * (77 + multiplierWidth plan.multiplier) + if plan.change > 0 then 34 else 0

def Utxo.outpoint (u : Utxo) : Text × ℤ := (u.txid, u.vout)

def TransferPlan.paid (held : Text × ℤ → ℤ) (plan : TransferPlan) : ℤ :=
  held (plan.position.txid, plan.position.vout.getD 0) + (plan.fundingInputs.map (held ·.outpoint)).sum -
    (plan.tokenValueIn + wireValue plan.change)

def TransferTx.paid (held : Text × ℤ → ℤ) (built : TransferTx) : ℤ :=
  (built.tx.vin.map fun vin => held vin.outpoint).sum - (built.tx.vout.map fun out => wireValue out.value).sum

/-- The transaction of the plan pays its rate for every byte, whatever its signatures. -/
def CoversRate (crypto : Crypto) (held : Text × ℤ → ℤ) (plan : TransferPlan) : Prop :=
  ∀ secp privKey built, secp.Short → buildTransferTx crypto secp plan privKey = .ok built →
    ⌈plan.feeRate * (built.rawHex.length / 2 : ℕ) / 1000⌉ ≤ built.paid held

theorem buildTransferScript_length {key origin script : Bytes} {m : ℤ} (hkey : key.length = 33)
    (h : UapJs.buildTransferScript key m origin = .ok script) : script.length = 68 + multiplierWidth m := by
  unfold UapJs.buildTransferScript at h
  split_ifs at h with horigin
  have horigin32 : origin.length = 32 := not_not.mp horigin
  simp only [bind_eq_ok, pure_eq_ok] at h
  obtain ⟨k, hk, mult, hmult, org, horg, rfl⟩ := h
  rw [UapJs.pushData_short (by omega)] at hk horg
  obtain rfl := Except.ok.inj hk
  obtain rfl := Except.ok.inj horg
  have hwidth : multiplierWidth m = mult.length := by rw [multiplierWidth, hmult]; rfl
  simp only [List.length_append, List.length_singleton, hkey, horigin32, hwidth]
  omega

theorem multiplierWidth_le {m : ℤ} (h0 : 0 ≤ m) (h1 : m ≤ maxMultiplier) :
    1 ≤ multiplierWidth m ∧ multiplierWidth m ≤ 5 := by
  obtain ⟨b, hb, hlow, hhigh⟩ := UapJs.pushMultiplier_isOk h0 h1
  rw [multiplierWidth, hb]
  exact ⟨hlow, hhigh⟩

def TransferOutput.size (m : ℤ) (o : TransferOutput) : ℕ := if o.isToken then 77 + multiplierWidth m else 34

def TransferOutput.Compressed (m : ℤ) : TransferOutput → Prop
  | .whipChange _ _ => True
  | .tokenRecipient _ pubKey multiplier | .tokenChange _ pubKey multiplier => multiplier = m ∧ pubKey.length = 33

section
variable {crypto : Crypto} (hripemd : ∀ b, (crypto.ripemd160 b).length = 20) {m : ℤ} (h0 : 0 ≤ m) (h1 : m ≤ maxMultiplier)
include hripemd h0 h1

theorem TransferOutput.encode_size {origin : Bytes} {o : TransferOutput} (ho : o.Compressed m) {out : PortTxOut}
    (h : o.encode crypto origin = .ok out) : out.size = o.size m := by
  have hwidth := multiplierWidth_le h0 h1
  cases o with
  | whipChange value pubKey =>
    obtain rfl := Except.ok.inj h
    have hlen : (buildP2PKHScript crypto pubKey).length = 25 := length_p2pkhScript (hripemd _)
    rw [PortTxOut.size, hlen, varIntSize_small (by omega)]
    rfl
  | tokenRecipient value pubKey multiplier | tokenChange value pubKey multiplier =>
    obtain ⟨rfl, hkey⟩ := ho
    simp only [TransferOutput.encode, bind_eq_ok, pure_eq_ok] at h
    obtain ⟨script, hscript, rfl⟩ := h
    have hlen := buildTransferScript_length hkey hscript
    rw [PortTxOut.size, hlen, varIntSize_small (by omega)]
    change _ = 77 + multiplierWidth multiplier
    omega

end

theorem TransferOutput.encode_value {crypto : Crypto} {origin : Bytes} {o : TransferOutput} {out : PortTxOut}
    (h : o.encode crypto origin = .ok out) : out.value = o.value := by
  cases o with
  | whipChange value pubKey =>
    obtain rfl := Except.ok.inj h
    rfl
  | tokenRecipient value pubKey multiplier | tokenChange value pubKey multiplier =>
    simp only [TransferOutput.encode, bind_eq_ok, pure_eq_ok] at h
    obtain ⟨script, -, rfl⟩ := h
    rfl

theorem mapM_paymentInput_keys {crypto : Crypto} {privKey pubKey : Bytes} {utxos : List Utxo}
    {inputs : List UapJs.PaymentInput} (h : utxos.mapM (·.paymentInput crypto privKey pubKey) = .ok inputs) :
    inputs.length = utxos.length ∧ ∀ input ∈ inputs, input.privKey = privKey ∧ input.pubKey = pubKey := by
  have hkeys : inputs.map (fun input => (input.privKey, input.pubKey)) = utxos.map fun _ => (privKey, pubKey) := by
    refine mapM_map (fun u _ input hinput => ?_) h
    simp only [Utxo.paymentInput, bind_eq_ok, pure_eq_ok] at hinput
    obtain ⟨code, -, rfl⟩ := hinput
    rfl
  refine ⟨by simpa using congrArg List.length hkeys, fun input hinput => ?_⟩
  have hmem : (input.privKey, input.pubKey) ∈ utxos.map fun _ => (privKey, pubKey) := hkeys ▸ List.mem_map_of_mem hinput
  obtain ⟨u, -, heq⟩ := List.mem_map.mp hmem
  exact ⟨(congrArg Prod.fst heq).symm, (congrArg Prod.snd heq).symm⟩

section
variable {own toKey : Bytes} {m a v change : ℤ}

theorem plannedOutputs_compressed (hown : own.length = 33) (hto : toKey.length = 33) :
    ∀ o ∈ plannedOutputs own toKey m a v change, o.Compressed m := by
  intro o ho
  simp only [plannedOutputs, List.mem_append, List.mem_singleton] at ho
  rcases ho with (rfl | ho) | ho
  · exact ⟨rfl, hto⟩
  · split_ifs at ho
    · rw [List.mem_singleton.mp ho]
      exact ⟨rfl, hown⟩
    · cases ho
  · split_ifs at ho
    · rw [List.mem_singleton.mp ho]
      trivial
    · cases ho

theorem plannedOutputs_size : ((plannedOutputs own toKey m a v change).map (·.size m)).sum =
      (if v > 0 then 2 else 1) * (77 + multiplierWidth m) + (if change > 0 then 34 else 0) ∧
    (plannedOutputs own toKey m a v change).length ≤ 3 := by
  unfold plannedOutputs
  split_ifs <;> simp [TransferOutput.size, TransferOutput.isToken] <;> ring

end

section
variable {crypto : Crypto} {secp : UapJs.Secp} {isPoint : Bytes → Bool} {input : TransferInput} {p : PositionRecord}
  {own toKey privKey : Bytes} {m v a : ℤ} {r : ℚ} {funding : Funding} {built : TransferTx}

theorem transferPlan_outputs (hchecked : Checked crypto isPoint input p own toKey m v a r) (funding : Funding) :
    (transferPlan p own toKey m v a r funding).remainderSats = v - a ∧
      (transferPlan p own toKey m v a r funding).outputs = plannedOutputs own toKey m a (v - a) funding.change := by
  have hmax : maxSafeSats = 2 ^ 53 - 1 := rfl
  have hdust : defaultHardDustLimit = 100000 := rfl
  have hle := hchecked.value_le
  have hmin := hchecked.amount_min
  have hamount := hchecked.amount_le
  have hremainder : intToDouble (v - a) = v - a := intToDouble_of_lt (by omega)
  simp only [transferPlan, hremainder, and_self]

theorem buildTransferTx_size (hripemd : ∀ b, (crypto.ripemd160 b).length = 20)
    (hchecked : Checked crypto isPoint input p own toKey m v a r) (hown : own.length = 33) (hto : toKey.length = 33)
    (hsecp : secp.Short)
    (hbuilt : buildTransferTx crypto secp (transferPlan p own toKey m v a r funding) privKey = .ok built) :
    ∃ sigs : List ℕ, sigs.length = 1 + funding.selected.length ∧
      (∀ s ∈ sigs, ∃ hash, s = (secp.signSync hash privKey).length) ∧
      built.rawHex.length / 2 + 72 * (1 + funding.selected.length) =
        (transferPlan p own toKey m v a r funding).largestSize + sigs.sum := by
  obtain ⟨hremainder, houtputs⟩ := transferPlan_outputs hchecked funding
  simp only [buildTransferTx, bind_eq_ok, failIf_eq_ok, pure_eq_ok] at hbuilt
  obtain ⟨⟨⟩, -, script, -, origin, -, vout, hvout, scriptSig, hspend, inputs, hinputs, tx, hsign, raw, hraw, rfl⟩ := hbuilt
  rw [houtputs] at hvout
  have hcompressed : ∀ o ∈ plannedOutputs own toKey m a (v - a) funding.change, o.Compressed m :=
    plannedOutputs_compressed hown hto
  have hsizes := mapM_map (fun o ho _ => TransferOutput.encode_size hripemd hchecked.multiplier_nonneg
    hchecked.multiplier_le (hcompressed o ho)) hvout
  obtain ⟨houtSum, hcount⟩ := @plannedOutputs_size own toKey m a (v - a) funding.change
  have hvoutLen : vout.length ≤ 3 := by
    have := congrArg List.length hsizes
    rw [List.length_map, List.length_map] at this
    omega
  -- One ordinary input is signed for each of the funding.
  obtain ⟨hinputsLen, hkeys⟩ := mapM_paymentInput_keys hinputs
  change inputs.length = funding.selected.length at hinputsLen
  have hrest : (funding.selected.map fun u => (⟨u.txid, u.vout, some [], some 0xffffffff⟩ : UapJs.TxIn)).length =
      inputs.length := by rw [List.length_map, hinputsLen]
  obtain ⟨signed, sigs, hvin, hsignedLen, hsigsLen, hsigs, hsignedSize⟩ :=
    UapJs.signInputs_size hsecp hkeys hown [⟨p.txid, p.vout.getD 0, some scriptSig, some 0xffffffff⟩] hrest rfl hsign
  obtain ⟨hash, hspendLen⟩ := UapJs.signSpend_length hsecp hspend
  have hshort := hsecp hash privKey
  have hhead : UapJs.TxIn.size ⟨p.txid, p.vout.getD 0, some scriptSig, some 0xffffffff⟩ = 41 + scriptSig.length := by
    rw [UapJs.TxIn.size, Option.getD_some, varIntSize_small (by omega)]
  have htxVout : tx.vout = vout := (UapJs.signInputs_frame hsign).1
  have hsize := UapJs.serializeTx_length hraw
  rw [UapJs.Tx.size, hvin, htxVout, hsizes, houtSum, varIntSize_small (n := vout.length) (by omega), List.map_append,
    List.sum_append, List.map_singleton, List.sum_singleton, hhead, hsignedSize, List.length_append, List.length_singleton,
    hsignedLen, hinputsLen] at hsize
  refine ⟨(secp.signSync hash privKey).length :: sigs, by simp [hsigsLen, hinputsLen, add_comm], ?_, ?_⟩
  · intro s hs
    rcases List.mem_cons.mp hs with rfl | hs
    · exact ⟨hash, rfl⟩
    · exact hsigs s hs
  · rw [hexEncode_length, TransferPlan.largestSize, TransferPlan.nCovenantOutputs, hremainder, List.sum_cons]
    change 2 * raw.length / 2 + _ = 9 + varIntSize (1 + funding.selected.length) + 115 + 149 * funding.selected.length +
      (if v - a > 0 then 2 else 1) * (77 + multiplierWidth m) + (if funding.change > 0 then 34 else 0) + _
    omega

theorem buildTransferTx_paid (hchecked : Checked crypto isPoint input p own toKey m v a r) (hchange : 0 ≤ funding.change)
    (held : Text × ℤ → ℤ)
    (hbuilt : buildTransferTx crypto secp (transferPlan p own toKey m v a r funding) privKey = .ok built) :
    built.paid held = (transferPlan p own toKey m v a r funding).paid held := by
  obtain ⟨-, houtputs⟩ := transferPlan_outputs hchecked funding
  simp only [buildTransferTx, bind_eq_ok, failIf_eq_ok, pure_eq_ok] at hbuilt
  obtain ⟨⟨⟩, -, script, -, origin, -, vout, hvout, scriptSig, -, inputs, -, tx, hsign, raw, -, rfl⟩ := hbuilt
  rw [houtputs] at hvout
  obtain ⟨hframeOut, hframeIn⟩ := UapJs.signInputs_frame hsign
  have hvalues : (tx.vout.map fun out => wireValue out.value) =
      (plannedOutputs own toKey m a (v - a) funding.change).map fun o => wireValue o.value := by
    rw [show tx.vout = vout from hframeOut]
    exact mapM_map (fun o _ out h => by rw [TransferOutput.encode_value h]) hvout
  have hheld : tx.vin.map (fun vin => held vin.outpoint) = (held (p.txid, p.vout.getD 0)) ::
      funding.selected.map (held ·.outpoint) := by
    have hmap : tx.vin.map (fun vin => held vin.outpoint) = (tx.vin.map UapJs.TxIn.outpoint).map held := by
      rw [List.map_map]
      rfl
    rw [hmap, hframeIn, UapJs.map_outpoint_modify]
    simp only [transferSkeleton, transferPlan, List.map_cons, List.map_map]
    rfl
  simp only [TransferTx.paid, hheld, hvalues, plannedOutputs_sum hchecked hchange, List.sum_cons]
  rfl

theorem buildTransferTx_transfer (hown : own.length = 33) {secp' : UapJs.Secp} (hsecp' : secp'.Short)
    (hbuilt : buildTransferTx crypto secp (transferPlan p own toKey m v a r funding) privKey = .ok built) :
    ∃ built', buildTransferTx crypto secp' (transferPlan p own toKey m v a r funding) privKey = .ok built' := by
  simp only [buildTransferTx, bind_eq_ok, failIf_eq_ok, pure_eq_ok] at hbuilt ⊢
  obtain ⟨⟨⟩, hne, script, hscript, origin, horigin, vout, hvout, scriptSig, hspend, inputs, hinputs, tx, hsign, raw, hraw,
    -⟩ := hbuilt
  obtain ⟨scriptSig', hspend'⟩ := UapJs.signSpend_transfer hsecp' rfl hspend
  obtain ⟨tx', hsign'⟩ := UapJs.signInputs_transfer hsecp'
    (by rw [UapJs.unsigned_modify _ 0 scriptSig', UapJs.unsigned_modify]) hsign
  obtain ⟨-, hkeys⟩ := mapM_paymentInput_keys hinputs
  obtain ⟨hvout', hvin'⟩ := UapJs.signInputs_frame hsign'
  obtain ⟨hvoutEq, hvinEq⟩ := UapJs.signInputs_frame hsign
  rw [UapJs.map_outpoint_modify] at hvin' hvinEq
  have hencodable := (UapJs.encodable_of_serializeTx hraw).congr (hvout'.trans hvoutEq.symm) (hvin'.trans hvinEq.symm)
  obtain ⟨hash, hspendLen⟩ := UapJs.signSpend_length hsecp' hspend'
  have hshort := hsecp' hash privKey
  have hlengths : ∀ vin ∈ tx'.vin, (vin.scriptSig.getD []).length ≤ 144 := by
    refine UapJs.signInputs_length_le _ (fun input hinput tx i b h => ?_) ?_ hsign'
    · exact UapJs.signP2PKHInput_length_le hsecp' (by rw [(hkeys input hinput).2]; exact hown.le.trans (by omega)) h
    · intro vin hvin
      rcases List.mem_cons.mp hvin with rfl | hvin
      · rw [Option.getD_some]
        omega
      · obtain ⟨u, -, rfl⟩ := List.mem_map.mp hvin
        simp
  obtain ⟨raw', hraw'⟩ := UapJs.serializeTx_signed hencodable fun vin hvin => by
    have := hlengths vin hvin
    omega
  exact ⟨_, ⟨⟩, hne, script, hscript, origin, horigin, vout, hvout, scriptSig', hspend', inputs, hinputs, tx', hsign', raw',
    hraw', rfl⟩

end

def TransferPlan.estimate (plan : TransferPlan) : ℕ :=
  estimateTransferSize (1 + plan.fundingInputs.length) plan.nCovenantOutputs 1

/-- A plan over truthful records, with numbers that doubles hold exactly. -/
structure TransferPlan.Exact (held : Text × ℤ → ℤ) (plan : TransferPlan) : Prop where
  position : held (plan.position.txid, plan.position.vout.getD 0) = plan.tokenValueIn
  funding : ∀ u ∈ plan.fundingInputs, held u.outpoint = u.value
  total_lt : (plan.fundingInputs.map (·.value)).sum < 2 ^ 53
  rate : ∃ k : ℤ, plan.feeRate = k ∧ k * plan.estimate < 2 ^ 53

theorem TransferPlan.largestSize_le_iff {plan : TransferPlan} (h0 : 0 ≤ plan.multiplier) (h1 : plan.multiplier ≤ maxMultiplier) :
    plan.largestSize ≤ plan.estimate ↔ ¬ plan.remainderSats > 0 ∨ ¬ plan.change > 0 ∨
      21 + 2 * multiplierWidth plan.multiplier ≤ plan.fundingInputs.length := by
  obtain ⟨hlow, hhigh⟩ := multiplierWidth_le h0 h1
  have hcount := varIntSize_le (1 + plan.fundingInputs.length)
  have hsmall : 1 + plan.fundingInputs.length < 253 → varIntSize (1 + plan.fundingInputs.length) = 1 := varIntSize_small
  have hpos : 1 ≤ varIntSize (1 + plan.fundingInputs.length) := by
    unfold varIntSize writeCompactSize
    split_ifs <;> simp
  unfold TransferPlan.largestSize TransferPlan.estimate TransferPlan.nCovenantOutputs estimateTransferSize
  split_ifs <;> omega

theorem feeFor_intCast {size : ℕ} {k : ℤ} (hk : 0 < k) (hsize : 0 < size) (hlt : k * size < 2 ^ 53) :
    k * size ≤ 1000 * feeFor size k ∧ recommendedMinTxFee ≤ feeFor size k ∧
      (feeFor size k = recommendedMinTxFee ∨ 1000 * feeFor size k < k * size + 1000) := by
  rw [feeFor_eq hk hsize hlt, ceil_div_thousand]
  omega

/-- A fee for the estimate covers the largest transaction unless that has two covenants, change and few inputs, and
costs more than the floor. -/
theorem TransferPlan.covers_largest_iff {plan : TransferPlan} {k paid : ℤ} (hrate : plan.feeRate = k) (hk : 0 < k)
    (hlt : k * plan.estimate < 2 ^ 53) (h0 : 0 ≤ plan.multiplier) (h1 : plan.multiplier ≤ maxMultiplier)
    (hpaid : feeFor plan.estimate plan.feeRate ≤ paid)
    (hchange : plan.change > 0 → paid = feeFor plan.estimate plan.feeRate) :
    plan.feeRate * plan.largestSize ≤ 1000 * paid ↔ ¬ plan.remainderSats > 0 ∨ ¬ plan.change > 0 ∨
      21 + 2 * multiplierWidth plan.multiplier ≤ plan.fundingInputs.length ∨
      plan.feeRate * plan.largestSize ≤ 1000 * recommendedMinTxFee := by
  have hcast : ∀ x : ℤ, (k : ℚ) * plan.largestSize ≤ 1000 * x ↔ k * plan.largestSize ≤ 1000 * x := by
    intro x
    exact_mod_cast Iff.rfl
  have hestimate : 0 < plan.estimate := by unfold TransferPlan.estimate estimateTransferSize; omega
  have hiff := plan.largestSize_le_iff h0 h1
  have hmin : recommendedMinTxFee = 1000000 := rfl
  rw [hrate] at hpaid hchange ⊢
  obtain ⟨hupper, hfloor, hround⟩ := feeFor_intCast hk hestimate hlt
  rw [hcast, hcast]
  by_cases hle : plan.largestSize ≤ plan.estimate
  · have hmul : k * plan.largestSize ≤ k * plan.estimate := mul_le_mul_of_nonneg_left (by exact_mod_cast hle) hk.le
    exact ⟨fun _ => (hiff.mp hle).imp_right (Or.imp_right Or.inl), fun _ => by omega⟩
  · rw [hiff] at hle
    push Not at hle
    obtain ⟨hremainder, hpos, hfew⟩ := hle
    rw [hchange hpos]
    constructor
    · intro hcovers
      rcases hround with hround | hround
      · exact .inr (.inr (.inr (by omega)))
      · -- Above the floor the rate is so high that one byte more costs more than rounding up gives.
        exfalso
        have hwidth := (multiplierWidth_le h0 h1).2
        have hsize : plan.estimate ≤ 4792 := by
          unfold TransferPlan.estimate TransferPlan.nCovenantOutputs estimateTransferSize
          split_ifs
          omega
        have hhigh : 1000 ≤ k := by
          by_contra hlow
          have : k * plan.estimate ≤ 1000 * 4792 :=
            mul_le_mul (by omega) (by exact_mod_cast hsize) (by positivity) (by norm_num)
          omega
        have hlarger : plan.estimate + 1 ≤ plan.largestSize := by
          by_contra hnot
          have := hiff.mp (by omega)
          omega
        have : k * (plan.estimate + 1) ≤ k * plan.largestSize :=
          mul_le_mul_of_nonneg_left (by exact_mod_cast hlarger) hk.le
        rw [mul_add, mul_one] at this
        omega
    · rintro (h | h | h | h)
      · exact absurd hremainder h
      · exact absurd hpos h
      · omega
      · omega

section
variable {crypto : Crypto} {isPoint : Bytes → Bool} {input : TransferInput} {p : PositionRecord} {own toKey : Bytes}
  {m v a : ℤ} {r : ℚ} {funding : Funding} {held : Text × ℤ → ℤ}

theorem paid_of_exact (hpos : ∀ u ∈ funding.selected, 0 < u.value) {n : ℕ} (hspec : FundingSpec r n funding)
    (hexact : (transferPlan p own toKey m v a r funding).Exact held) :
    transferFee r n funding.selected.length ≤ (transferPlan p own toKey m v a r funding).paid held ∧
      (funding.change > 0 →
        (transferPlan p own toKey m v a r funding).paid held = transferFee r n funding.selected.length) := by
  have hlt : (funding.selected.map (·.value)).sum < 2 ^ 53 := hexact.total_lt
  have hnonneg : ∀ x ∈ funding.selected.map (·.value), 0 ≤ x := by
    intro x hx
    obtain ⟨u, hu, rfl⟩ := List.mem_map.mp hx
    exact (hpos u hu).le
  have htotal : funding.total = (funding.selected.map (·.value)).sum := by rw [hspec.total, sumDouble_eq hnonneg hlt]
  have hheld : funding.selected.map (held ·.outpoint) = funding.selected.map (·.value) :=
    List.map_congr_left hexact.funding
  have hposition : held (p.txid, p.vout.getD 0) = v := hexact.position
  have hpaid : (transferPlan p own toKey m v a r funding).paid held = funding.total - wireValue funding.change := by
    change held (p.txid, p.vout.getD 0) + (funding.selected.map (held ·.outpoint)).sum - (v + wireValue funding.change) = _
    rw [hposition, hheld, htotal]
    ring
  have henough := hspec.enough
  have hfloor : recommendedMinTxFee ≤ transferFee r n funding.selected.length := UapJs.fee_pos _ _
  have hmin : recommendedMinTxFee = 1000000 := rfl
  have hdust : defaultDustLimit = 1000000 := rfl
  rcases hspec.rest with ⟨hchange, -⟩ | ⟨hchange, hfee, hrest⟩
  · rw [hpaid, hchange, show wireValue 0 = 0 by decide]
    exact ⟨by omega, fun h => absurd h (by omega)⟩
  · rw [intToDouble_of_lt (by omega)] at hrest
    rw [hpaid, wireValue_of_lt (by omega) (by omega)]
    exact ⟨by omega, fun _ => by omega⟩

end

def longestSecp : UapJs.Secp := ⟨fun _ _ => List.replicate 72 0, fun _ => []⟩

/-- The fee covers the rate exactly when it covers that of the largest transaction. With exact numbers, this fails only
for a transfer with a remainder and change, too few inputs to make up for the size of the covenants, and a fee above the
floor. -/
theorem transfer_fee_covers_iff {crypto : Crypto} (hripemd : ∀ b, (crypto.ripemd160 b).length = 20)
    {isPoint : Bytes → Bool} {input : TransferInput} {plan : TransferPlan}
    (hplan : planTransfer crypto isPoint input = .ok plan) (hown : plan.ownPubKey.length = 33)
    (hto : plan.toPubKey.length = 33)
    (hbuilds : ∃ secp privKey built, buildTransferTx crypto secp plan privKey = .ok built) (held : Text × ℤ → ℤ) :
    (CoversRate crypto held plan ↔ plan.feeRate * plan.largestSize ≤ 1000 * plan.paid held) ∧
    (plan.Exact held → (CoversRate crypto held plan ↔ ¬ plan.remainderSats > 0 ∨ ¬ plan.change > 0 ∨
      21 + 2 * multiplierWidth plan.multiplier ≤ plan.fundingInputs.length ∨
      plan.feeRate * plan.largestSize ≤ 1000 * recommendedMinTxFee)) := by
  obtain ⟨p, own, toKey, m, v, a, r, funding, hchecked, hselect, rfl⟩ := planTransfer_eq_ok hplan
  obtain ⟨hselected, hspec⟩ := selectFunding_eq_ok hselect
  change own.length = 33 at hown
  change toKey.length = 33 at hto
  have hchange : 0 ≤ funding.change := by
    have hdust : defaultDustLimit = 1000000 := rfl
    rcases hspec.rest with ⟨h, -⟩ | ⟨h, -⟩ <;> omega
  have hrate : (0 : ℚ) < r := hchecked.rate_pos
  have hiff : CoversRate crypto held (transferPlan p own toKey m v a r funding) ↔
      r * (transferPlan p own toKey m v a r funding).largestSize ≤
        1000 * (transferPlan p own toKey m v a r funding).paid held := by
    constructor
    · intro hcovers
      obtain ⟨secp, privKey, built, hbuilt⟩ := hbuilds
      have hlongest : longestSecp.Short := fun _ _ => by simp [longestSecp]
      obtain ⟨built', hbuilt'⟩ := buildTransferTx_transfer hown hlongest hbuilt
      obtain ⟨sigs, hcount, hsigs, hsize⟩ := buildTransferTx_size hripemd hchecked hown hto hlongest hbuilt'
      have hsum : sigs.sum = 72 * (1 + funding.selected.length) := by
        rw [List.sum_eq_card_nsmul sigs 72 fun s hs => ?_, hcount, nsmul_eq_mul, Nat.cast_id, mul_comm]
        obtain ⟨hash, rfl⟩ := hsigs s hs
        simp [longestSecp]
      have hfee := hcovers longestSecp privKey built' hlongest hbuilt'
      rw [buildTransferTx_paid hchecked hchange held hbuilt', Int.ceil_le, div_le_iff₀ (by norm_num),
        show built'.rawHex.length / 2 = (transferPlan p own toKey m v a r funding).largestSize by omega, mul_comm _ 1000] at hfee
      exact hfee
    · intro hcovers secp privKey built hsecp hbuilt
      obtain ⟨sigs, hcount, hsigs, hsize⟩ := buildTransferTx_size hripemd hchecked hown hto hsecp hbuilt
      have hsum : sigs.sum ≤ 72 * (1 + funding.selected.length) := by
        have hle := List.sum_le_card_nsmul sigs 72 fun s hs => by
          obtain ⟨hash, rfl⟩ := hsigs s hs
          exact hsecp hash privKey
        rwa [hcount, nsmul_eq_mul, Nat.cast_id, mul_comm] at hle
      have hlength : built.rawHex.length / 2 ≤ (transferPlan p own toKey m v a r funding).largestSize := by omega
      rw [buildTransferTx_paid hchecked hchange held hbuilt, Int.ceil_le, div_le_iff₀ (by norm_num), mul_comm _ 1000]
      refine le_trans (mul_le_mul_of_nonneg_left ?_ hrate.le) hcovers
      exact_mod_cast hlength
  refine ⟨hiff, fun hexact => hiff.trans ?_⟩
  have hcovenants : (transferPlan p own toKey m v a r funding).nCovenantOutputs = if v - a > 0 then 2 else 1 := by
    rw [TransferPlan.nCovenantOutputs, (transferPlan_outputs hchecked funding).1]
  rw [← hcovenants] at hspec
  obtain ⟨hpaid, hpaidEq⟩ := paid_of_exact (fun u hu => (hselected u hu).2) hspec hexact
  obtain ⟨k, hk, hlt⟩ := hexact.rate
  change r = k at hk
  have hkpos : 0 < k := by
    rw [hk] at hrate
    exact_mod_cast hrate
  exact TransferPlan.covers_largest_iff hk hkpos hlt hchecked.multiplier_nonneg hchecked.multiplier_le hpaid hpaidEq

open TransferSample

def sampleHeld (payment : ℤ) (op : Text × ℤ) : ℤ := if op.2 = 0 then 100000000 else payment

/-- The whole position, at ten million satoshis per kilobyte. -/
theorem transfer_fee_covers_whole : ∃ plan, planTransfer crypto (fun _ => true) (input 100000000 100000000 10000000) =
    .ok plan ∧ plan.fee = 3930000 ∧ plan.change > 0 ∧ CoversRate crypto (sampleHeld 100000000) plan := by
  have hrun : ((planTransfer crypto (fun _ => true) (input 100000000 100000000 10000000)).toOption.any fun plan =>
      plan.ownPubKey.length = 33 && plan.toPubKey.length = 33 && plan.fee = 3930000 && plan.change > 0 &&
        !(plan.remainderSats > 0) && (buildTransferTx crypto secp plan []).toOption.isSome &&
        plan.tokenValueIn = 100000000 && plan.feeRate = 10000000 && plan.estimate = 393 &&
        plan.fundingInputs = [⟨txid, 1, 100000000, none⟩] && plan.position.vout = some 0) = true := by
    decide +kernel
  obtain ⟨plan, hplan, hrun⟩ := (Option.any_eq_true _ _).mp hrun
  simp only [Bool.and_eq_true, decide_eq_true_eq, Bool.not_eq_true', decide_eq_false_iff_not] at hrun
  obtain ⟨⟨⟨⟨⟨⟨⟨⟨⟨⟨hown, hto⟩, hfee⟩, hchange⟩, hwhole⟩, hbuilt⟩, hvalue⟩, hrate⟩, hestimate⟩, hfunding⟩, hvout⟩ := hrun
  obtain ⟨built, hbuilt⟩ := Option.isSome_iff_exists.mp hbuilt
  have hexact : plan.Exact (sampleHeld 100000000) := by
    refine ⟨?_, ?_, ?_, 10000000, by rw [hrate]; rfl, by rw [hestimate]; decide⟩
    · rw [hvout, hvalue]
      rfl
    · rw [hfunding]
      decide
    · rw [hfunding]
      decide
  have hiff := (transfer_fee_covers_iff (fun _ => rfl) (toOption_eq_some.mp hplan) hown hto
    ⟨secp, [], built, toOption_eq_some.mp hbuilt⟩ (sampleHeld 100000000)).2 hexact
  exact ⟨plan, toOption_eq_some.mp hplan, hfee, hchange, hiff.mpr (.inl hwhole)⟩

/-- Part of the position, at the same rate: the transaction of 464 bytes is charged as one of 442. -/
theorem transfer_fee_below_rate :
    ((planTransfer crypto (fun _ => true) (input 60000000 100000000 10000000)).toOption.bind fun plan =>
      (buildTransferTx crypto longestSecp plan []).toOption.map fun built =>
        (built.rawHex.length / 2, ⌈plan.feeRate * (built.rawHex.length / 2 : ℕ) / 1000⌉, plan.fee,
          built.paid (sampleHeld 100000000))) =
      some (464, 4640000, 4420000, 4420000) := by
  decide +kernel

end Whippet.Web
