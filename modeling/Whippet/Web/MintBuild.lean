import Whippet.Web.Mint

/-! What `buildMintTx` builds: a plan that was accepted builds once coins are selected for it, and pays the figures of
the selection. -/
namespace Whippet.Web
open Lib Primitives Ports
open Indexer (Text)
open Ports.UapJs (PaymentInput feeFor defaultDustLimit totalValue sortInputs)

variable {host : Host} {ticker upper : Text}

theorem normalizeTicker_eq_ok (h : normalizeTicker host ticker = .ok upper) :
    upper.all isTickerChar = true ∧ 1 ≤ utf16Length upper ∧ utf16Length upper ≤ 8 := by
  simp only [normalizeTicker, bind_eq_ok, failIf_eq_ok] at h
  obtain ⟨⟨⟩, hlen, h⟩ := h
  cases hfind : (host.toUpperCase ticker).findIdx? (!isTickerChar ·) with
  | some i =>
    rw [hfind] at h
    cases h
  | none =>
    rw [hfind] at h
    obtain rfl := Except.ok.inj h
    refine ⟨?_, by omega, by omega⟩
    rw [List.findIdx?_eq_none_iff] at hfind
    exact List.all_eq_true.mpr fun c hc => by simpa using hfind c hc

theorem normalizeTicker_idem (h : normalizeTicker host ticker = .ok upper) :
    normalizeTicker host upper = .ok upper := by
  obtain ⟨hall, hmin, hmax⟩ := normalizeTicker_eq_ok h
  have hfind : upper.findIdx? (!isTickerChar ·) = none := by
    rw [List.findIdx?_eq_none_iff]
    intro c hc
    simpa using List.all_eq_true.mp hall c hc
  have hlen : ¬ (utf16Length upper < 1 ∨ utf16Length upper > 8) := by omega
  simp only [normalizeTicker, host.toUpperCase_eq upper hall, failIf, if_neg hlen, ok_bind, hfind]

theorem length_textEncode_le (t : Text) (h : t.all isTickerChar = true) :
    (textEncode t).length ≤ utf16Length t := by
  induction t with
  | nil => rfl
  | cons c t ih =>
    rw [List.all_cons, Bool.and_eq_true] at h
    have hc : c.toNat ≤ 0x7f := by
      have := h.1
      simp only [isTickerChar, decide_eq_true_eq] at this
      omega
    have hsize : (String.utf8EncodeChar c).length = 1 := by
      rw [String.length_utf8EncodeChar]
      exact Char.utf8Size_eq_one_iff.mpr (UInt32.le_iff_toNat_le.mpr hc)
    have hone : utf16Length (c :: t) = 1 + utf16Length t := by
      simp only [utf16Length, List.map_cons, List.sum_cons]
      rw [if_pos (by omega)]
    have hcons : textEncode (c :: t) = String.utf8EncodeChar c ++ textEncode t := rfl
    rw [hcons, List.length_append, hsize, hone]
    have := ih h.2
    omega

theorem buildMetadataScript_isOk (h : normalizeTicker host ticker = .ok upper) :
    ∃ script, buildMetadataScript host upper [] = .ok script ∧ script.length ≤ 83 := by
  obtain ⟨hall, -, hmax⟩ := normalizeTicker_eq_ok h
  have hlen := length_textEncode_le upper hall
  obtain ⟨push, hpush, hpushLen⟩ := UapJs.pushData_isOk (textEncode upper) (by omega)
  have hmagic : UapJs.pushData [0x57, 0x55, 0x41, 0x50] = .ok [4, 0x57, 0x55, 0x41, 0x50] := rfl
  have hversion : UapJs.pushData [0x02] = .ok [1, 0x02] := rfl
  have hhash : UapJs.pushData [] = .ok [0] := rfl
  have hsize : ¬ ([0x6a] ++ [4, 0x57, 0x55, 0x41, 0x50] ++ [1, 0x02] ++ push ++ [0] : Bytes).length > 83 := by
    simp only [List.length_append, List.length_cons, List.length_nil]
    omega
  refine ⟨_, ?_, not_lt.mp hsize⟩
  simp only [buildMetadataScript, bind_eq_ok, failIf_eq_ok, pure_eq_ok]
  exact ⟨upper, normalizeTicker_idem h, ⟨⟩, by simp, _, hmagic, _, hversion, push, hpush, _, hhash, ⟨⟩, hsize, rfl⟩

theorem planMint_eq_ok {input : MintInput} {plan : MintPlan} (h : planMint host input = .ok plan) :
    ∃ upper m, normalizeTicker host input.ticker = .ok upper ∧ 0 ≤ m ∧ m ≤ 2147483647 ∧
      1000 * UapJs.coin ≤ input.amountSats ∧ input.utxos ≠ [] ∧
      intToDouble (input.amountSats + feeFor (estimateTxSize input.utxos.length 2) input.feeRate) ≤
        input.totalUtxoValue ∧
      plan = ⟨upper, m, input.amountSats, feeFor (estimateTxSize input.utxos.length 3) input.feeRate,
        intToDouble (intToDouble (input.totalUtxoValue - input.amountSats) -
          feeFor (estimateTxSize input.utxos.length 3) input.feeRate), input.feeRate⟩ := by
  unfold planMint at h
  split_ifs at h with herrors
  obtain rfl := Except.ok.inj h
  rw [not_not, MintInput.errors] at herrors
  simp only [List.append_eq_nil_iff] at herrors
  obtain ⟨⟨⟨⟨hticker, hmult⟩, hamount⟩, -⟩, hfunds⟩ := herrors
  obtain ⟨upper, hupper⟩ : ∃ upper, normalizeTicker host input.ticker = .ok upper := by
    cases hnorm : normalizeTicker host input.ticker with
    | error e => simp [MintInput.tickerErrors, hnorm] at hticker
    | ok upper => exact ⟨upper, rfl⟩
  obtain ⟨m, hm, h0, h1⟩ : ∃ m, input.multiplier = some m ∧ 0 ≤ m ∧ m ≤ 2147483647 := by
    cases hm : input.multiplier with
    | none => simp [MintInput.multiplierErrors, hm] at hmult
    | some m =>
      simp only [MintInput.multiplierErrors, hm] at hmult
      split_ifs at hmult
      exact ⟨m, rfl, by omega, by omega⟩
  have hmin : 1000 * UapJs.coin ≤ input.amountSats := by
    unfold MintInput.amountErrors at hamount
    split_ifs at hamount
    omega
  unfold MintInput.fundsErrors at hfunds
  dsimp only at hfunds
  split_ifs at hfunds with hnil hshort
  refine ⟨upper, m, hupper, h0, h1, hmin, hnil, not_lt.mp hshort, ?_⟩
  rw [hupper, hm]
  rfl

/-- The wallet's side of a mint: its keys, its change address, and real outpoints. -/
structure MintReady (crypto : Crypto) (secp : UapJs.Secp) (wallet : MintWallet) (utxos : List Utxo) : Prop where
  short : secp.Short
  key : wallet.pubKey.length = 33 ∨ wallet.pubKey.length = 65
  address : ∃ script, addressToScript crypto wallet.changeAddress = .ok script
  count : utxos.length < 2 ^ 32
  outpoints : (utxos.map fun u => (u.txid, u.vout)).Nodup
  txid : ∀ u ∈ utxos, ∃ hash, txidBytes UapJs.errors u.txid = .ok hash
  script : ∀ u ∈ utxos, ∃ code, u.scriptCode crypto wallet.pubKey = .ok code ∧ code.length < 2 ^ 32

def valueAt (utxos : List Utxo) (outpoint : Text × ℤ) : ℤ :=
  ((utxos.find? fun u => (u.txid, u.vout) = outpoint).map (·.value)).getD 0

def feePaid (utxos : List Utxo) (tx : UapJs.Tx) : ℤ :=
  (tx.vin.map fun vin => valueAt utxos vin.outpoint).sum - (tx.vout.map (·.value)).sum

def changePaid (tx : UapJs.Tx) : ℤ := ((tx.vout.drop 2).map (·.value)).sum

def mintFee (feeRate : ℚ) (nInputs : ℕ) : ℤ := feeFor (UapJs.estimateTxSize nInputs 3) feeRate

def builderRate (feeRate : ℚ) : ℚ := if feeRate = 0 then 1000 else feeRate

theorem valueAt_of_mem {utxos : List Utxo} (hnodup : (utxos.map fun u => (u.txid, u.vout)).Nodup) {u : Utxo}
    (hu : u ∈ utxos) : valueAt utxos (u.txid, u.vout) = u.value := by
  cases hfind : utxos.find? fun w => (w.txid, w.vout) = (u.txid, u.vout) with
  | none =>
    have := List.find?_eq_none.mp hfind u hu
    simp at this
  | some w =>
    have heq : (w.txid, w.vout) = (u.txid, u.vout) := by simpa using List.find?_some hfind
    obtain rfl := List.inj_on_of_nodup_map hnodup (List.mem_of_find?_eq_some hfind) hu heq
    rw [valueAt, hfind]
    rfl

def Utxo.input (crypto : Crypto) (wallet : MintWallet) (u : Utxo) : PaymentInput :=
  ⟨u.txid, u.vout, u.value, (u.scriptCode crypto wallet.pubKey).toOption.getD [], wallet.privKey, wallet.pubKey⟩

def mintTarget (amount : ℤ) (feeRate : ℚ) : UapJs.Target := ⟨amount, 25, builderRate feeRate, 2⟩

theorem fee_mintTarget {amount : ℤ} (feeRate : ℚ) {total : ℤ} (h : total > amount) (n : ℕ) :
    (mintTarget amount feeRate).fee n total = mintFee (builderRate feeRate) n := by
  have hcond : total > (mintTarget amount feeRate).amount ∧ (mintTarget amount feeRate).changeScriptLen > 0 :=
    ⟨h, Nat.zero_lt_succ 24⟩
  simp only [UapJs.Target.fee, if_pos hcond]
  rfl

theorem enough_mintTarget {amount : ℤ} {feeRate : ℚ} {inputs : List PaymentInput} :
    (mintTarget amount feeRate).Enough inputs ↔
      amount + mintFee (builderRate feeRate) inputs.length ≤ totalValue inputs := by
  have hpos : 0 < UapJs.recommendedMinTxFee := by decide
  have hfee := (mintTarget amount feeRate).fee_pos inputs.length (totalValue inputs)
  have hmint := UapJs.fee_pos (UapJs.estimateTxSize inputs.length 3) (builderRate feeRate)
  by_cases hlt : totalValue inputs > amount
  · rw [UapJs.Target.Enough, fee_mintTarget feeRate hlt]
    rfl
  · constructor
    · intro h
      unfold UapJs.Target.Enough at h
      change amount + _ ≤ _ at h
      omega
    · intro h
      unfold mintFee at h
      omega

section
variable {crypto : Crypto} {host : Host} {secp : UapJs.Secp} {wallet : MintWallet} {utxos : List Utxo}

theorem mapM_paymentInput (hready : MintReady crypto secp wallet utxos) :
    utxos.mapM (·.paymentInput crypto wallet.privKey wallet.pubKey) = .ok (utxos.map (Utxo.input crypto wallet)) := by
  refine mapM_ok fun u hu => ?_
  obtain ⟨code, hcode, -⟩ := hready.script u hu
  rw [Utxo.paymentInput, hcode, ok_bind, Utxo.input, hcode]
  rfl

variable {s : List PaymentInput}

theorem sum_valueAt (hready : MintReady crypto secp wallet utxos)
    (hs : ∀ a ∈ s, a ∈ utxos.map (Utxo.input crypto wallet)) :
    (s.map fun a => valueAt utxos (a.txid, a.vout)).sum = totalValue s := by
  congr 1
  refine List.map_congr_left fun a ha => ?_
  obtain ⟨u, hu, rfl⟩ := List.mem_map.mp (hs a ha)
  exact valueAt_of_mem hready.outpoints hu

def mintOpts (inputs : List PaymentInput) (amount : ℤ) (feeRate : ℚ) (mintScript metadataScript changeScript : Bytes) :
    UapJs.PaymentOpts where
  inputs := inputs
  outputs := [⟨amount, mintScript⟩, ⟨0, metadataScript⟩]
  changeScript := some changeScript
  feeRate := some feeRate

theorem target_mintOpts (inputs : List PaymentInput) {amount : ℤ} (h0 : 0 ≤ amount) (hlt : amount < 2 ^ 53) (feeRate : ℚ)
    (mintScript metadataScript : Bytes) {changeScript : Bytes} (hchange : changeScript.length = 25) :
    (mintOpts inputs amount feeRate mintScript metadataScript changeScript).target = mintTarget amount feeRate := by
  have hsum : sumDouble [amount, 0] = amount := by
    rw [sumDouble_eq (by simpa using h0) (by simpa using hlt)]
    simp
  simp only [UapJs.PaymentOpts.target, mintOpts, mintTarget, UapJs.PaymentOpts.rate, builderRate, List.map_cons, List.map_nil,
    hsum, Option.getD_some, hchange, List.length_cons, List.length_nil]
  rfl

def paidChange (change : ℤ) : ℤ := if defaultDustLimit ≤ change then change else 0

theorem buildPaymentTx_mint (crypto : Crypto) (secp : UapJs.Secp) {inputs : List PaymentInput} {amount : ℤ}
    (h0 : 0 ≤ amount) {feeRate : ℚ}
    (mintScript metadataScript : Bytes) {changeScript : Bytes} (hchange : changeScript.length = 25)
    (henough : (mintTarget amount feeRate).Enough s) (hlt : totalValue s < 2 ^ 53)
    (hsel : UapJs.selectCoins inputs (mintTarget amount feeRate) = .ok ((mintTarget amount feeRate).chosen s)) :
    let opts := mintOpts inputs amount feeRate mintScript metadataScript changeScript
    let change := totalValue s - amount - mintFee (builderRate feeRate) s.length
    ∀ tx, UapJs.buildPaymentTx crypto secp opts = .ok tx ↔
      totalValue s - amount - paidChange change ≤ UapJs.defaultTransactionMaxFee ∧
        UapJs.signInputs crypto secp s 0 (UapJs.paymentSkeleton s (opts.vout change)) = .ok tx := by
  intro opts change tx
  have hle := enough_mintTarget.mp henough
  have hpos : 0 < UapJs.recommendedMinTxFee := by decide
  have hfee := UapJs.fee_pos (UapJs.estimateTxSize s.length 3) (builderRate feeRate)
  change _ ≤ mintFee _ _ at hfee
  have hchosen : ((mintTarget amount feeRate).chosen s).change = change := by
    rw [UapJs.Target.chosen, fee_mintTarget feeRate (by omega)]
    rfl
  have htarget : opts.target = mintTarget amount feeRate :=
    target_mintOpts inputs h0 (by omega) feeRate mintScript metadataScript hchange
  have hchange0 : 0 ≤ change := by omega
  have hvout : (opts.vout change).map (·.value) = [amount, 0] ++ if defaultDustLimit ≤ change then [change] else [] := by
    simp only [UapJs.PaymentOpts.vout, opts, mintOpts, ge_iff_le]
    split_ifs <;> rfl
  have hsum : sumDouble ((opts.vout change).map (·.value)) = amount + paidChange change := by
    rw [hvout, paidChange]
    split_ifs
    · rw [sumDouble_eq (by simp; omega) (by simp; omega)]
      simp
    · rw [sumDouble_eq (by simp; omega) (by simp; omega)]
      simp
  have hpaid : paidChange change ≤ change ∧ 0 ≤ paidChange change := by
    unfold paidChange
    split_ifs <;> omega
  have hfeeExact : intToDouble (totalValue s - (amount + paidChange change)) = totalValue s - amount - paidChange change := by
    rw [intToDouble_of_lt (by omega)]
    omega
  have hscript : ¬ (change ≥ defaultDustLimit ∧ opts.changeScript = none) := by simp [opts, mintOpts]
  have hcap : opts.maxFee.getD UapJs.defaultTransactionMaxFee = (UapJs.defaultTransactionMaxFee : WithTop ℤ) := rfl
  have hinputs : opts.inputs = inputs := rfl
  have hselected : ((mintTarget amount feeRate).chosen s).selected = s := rfl
  have htotal : ((mintTarget amount feeRate).chosen s).totalInput = totalValue s := rfl
  simp only [UapJs.buildPaymentTx, htarget, hinputs, hsel, ok_bind, hchosen, hselected, htotal, hsum, hfeeExact, bind_eq_ok,
    failIf_eq_ok, hcap, gt_iff_lt, WithTop.coe_lt_coe, not_lt]
  constructor
  · rintro ⟨⟨⟩, -, ⟨⟩, hle, hsign⟩
    exact ⟨hle, hsign⟩
  · rintro ⟨hle, hsign⟩
    exact ⟨⟨⟩, hscript, ⟨⟩, hle, hsign⟩

theorem buildMintTx_ne_ok (hready : MintReady crypto secp wallet utxos) {plan : MintPlan} (h0 : 0 ≤ plan.amountSats)
    (hlt : plan.amountSats < 2 ^ 53) {e : String}
    (hselect : UapJs.selectCoins (utxos.map (Utxo.input crypto wallet)) (mintTarget plan.amountSats plan.feeRate) = .error e)
    (built : MintTx) : buildMintTx crypto host secp plan wallet utxos ≠ .ok built := by
  intro h
  simp only [buildMintTx, bind_eq_ok, mapM_paymentInput hready, Except.ok.injEq, exists_eq_left'] at h
  obtain ⟨mintScript, -, metadataScript, -, changeScript, haddress, tx, hpay, -⟩ := h
  obtain ⟨hash, hhash, hscript⟩ := addressToScript_eq_ok haddress
  have htarget := target_mintOpts (utxos.map (Utxo.input crypto wallet)) h0 hlt plan.feeRate mintScript
    metadataScript (hscript ▸ length_p2pkhScript hhash)
  rw [UapJs.buildPaymentTx, bind_eq_ok] at hpay
  obtain ⟨s, hs, -⟩ := hpay
  change UapJs.selectCoins _ (mintOpts _ _ _ _ _ _).target = _ at hs
  rw [htarget, hselect] at hs
  cases hs

theorem encodable_skeleton (hready : MintReady crypto secp wallet utxos)
    (hs : s <+: sortInputs (utxos.map (Utxo.input crypto wallet))) {vout : List PortTxOut} (hvout : vout.length ≤ 3)
    (hscripts : ∀ out ∈ vout, out.scriptPubKey.length ≤ 83) : UapJs.Encodable (UapJs.paymentSkeleton s vout) := by
  have hperm := UapJs.sortInputs_perm (utxos.map (Utxo.input crypto wallet))
  have hlen := hs.length_le
  rw [hperm.length_eq, List.length_map] at hlen
  have hcount := hready.count
  refine ⟨by simp [UapJs.paymentSkeleton]; omega, ?_, lt_of_le_of_lt hvout (by decide),
    fun out hout => lt_of_le_of_lt (hscripts out hout) (by decide)⟩
  intro vin hvin
  obtain ⟨a, ha, rfl⟩ := List.mem_map.mp hvin
  obtain ⟨u, hu, rfl⟩ := List.mem_map.mp (hperm.mem_iff.mp (hs.subset ha))
  exact hready.txid u hu

end

/-- A mint whose coins are selected: what is built, and what it pays. -/
structure SelectedMint (crypto : Crypto) (host : Host) (secp : UapJs.Secp) (wallet : MintWallet) (utxos : List Utxo)
    (plan : MintPlan) (s : List PaymentInput) : Prop where
  ready : MintReady crypto secp wallet utxos
  ticker : ∃ t, normalizeTicker host t = .ok plan.ticker
  multiplier : 0 ≤ plan.multiplier ∧ plan.multiplier ≤ 2147483647
  amount : 0 ≤ plan.amountSats
  sorted : s <+: sortInputs (utxos.map (Utxo.input crypto wallet))
  total_lt : totalValue s < 2 ^ 53
  enough : (mintTarget plan.amountSats plan.feeRate).Enough s
  select : UapJs.selectCoins (utxos.map (Utxo.input crypto wallet)) (mintTarget plan.amountSats plan.feeRate) =
    .ok ((mintTarget plan.amountSats plan.feeRate).chosen s)

namespace SelectedMint
variable {crypto : Crypto} {host : Host} {secp : UapJs.Secp} {wallet : MintWallet} {utxos : List Utxo}
  {plan : MintPlan} {s : List PaymentInput}

def change (plan : MintPlan) (s : List PaymentInput) : ℤ :=
  totalValue s - plan.amountSats - mintFee (builderRate plan.feeRate) s.length

def fee (plan : MintPlan) (s : List PaymentInput) : ℤ := totalValue s - plan.amountSats - paidChange (change plan s)

theorem isOk (h : SelectedMint crypto host secp wallet utxos plan s) (hfee : fee plan s ≤ UapJs.defaultTransactionMaxFee) :
    ∃ built, buildMintTx crypto host secp plan wallet utxos = .ok built := by
  obtain ⟨t, ht⟩ := h.ticker
  obtain ⟨mintScript, hmint, hmintLen⟩ := UapJs.buildMintScript_isOk h.ready.key h.multiplier.1 h.multiplier.2
  obtain ⟨metadataScript, hmeta, hmetaLen⟩ := buildMetadataScript_isOk ht
  obtain ⟨changeScript, haddress⟩ := h.ready.address
  obtain ⟨hash, hhash, hscript⟩ := addressToScript_eq_ok haddress
  have hchangeLen : changeScript.length = 25 := hscript ▸ length_p2pkhScript hhash
  have hbuild := buildPaymentTx_mint crypto secp h.amount mintScript metadataScript hchangeLen
    h.enough h.total_lt h.select
  dsimp only at hbuild
  have hvout : ∀ out ∈ (mintOpts (utxos.map (Utxo.input crypto wallet)) plan.amountSats plan.feeRate mintScript
      metadataScript changeScript).vout (change plan s), out.scriptPubKey.length ≤ 83 := by
    intro out hout
    simp only [UapJs.PaymentOpts.vout, mintOpts] at hout
    split_ifs at hout <;> simp at hout <;> rcases hout with rfl | rfl | rfl <;> dsimp only <;> omega
  have hcount : ((mintOpts (utxos.map (Utxo.input crypto wallet)) plan.amountSats plan.feeRate mintScript
      metadataScript changeScript).vout (change plan s)).length ≤ 3 := by
    simp only [UapJs.PaymentOpts.vout, mintOpts]
    split_ifs <;> simp
  have hencodable := encodable_skeleton h.ready h.sorted hcount hvout
  have hperm := UapJs.sortInputs_perm (utxos.map (Utxo.input crypto wallet))
  have hinputs : ∀ a ∈ s, a.scriptCode.length < 2 ^ 32 ∧ a.pubKey.length ≤ 65 := by
    intro a ha
    obtain ⟨u, hu, rfl⟩ := List.mem_map.mp (hperm.mem_iff.mp (h.sorted.subset ha))
    obtain ⟨code, hcode, hlen⟩ := h.ready.script u hu
    have hkey := h.ready.key
    refine ⟨?_, by simp only [Utxo.input]; omega⟩
    simpa [Utxo.input, hcode, Except.toOption] using hlen
  obtain ⟨tx, hsign⟩ := UapJs.signInputs_isOk crypto h.ready.short hinputs (i := 0) hencodable
  have hpay := (hbuild tx).mpr ⟨hfee, hsign⟩
  obtain ⟨hframe, hvin⟩ := UapJs.signInputs_frame hsign
  have hsigs := UapJs.signInputs_length_le 144
    (fun a ha _ _ _ hb => UapJs.signP2PKHInput_length_le h.ready.short (hinputs a ha).2 hb)
    (by simp [UapJs.paymentSkeleton]) hsign
  obtain ⟨raw, hraw⟩ := UapJs.serializeTx_signed (hencodable.congr hframe hvin)
    fun vin hmem => lt_of_le_of_lt (hsigs vin hmem) (by decide)
  refine ⟨⟨hexEncode raw, tx, mintScript, metadataScript, plan.amountSats⟩, ?_⟩
  simp only [buildMintTx, bind_eq_ok, pure_eq_ok]
  exact ⟨mintScript, hmint, metadataScript, hmeta, _, mapM_paymentInput h.ready, changeScript, haddress, tx, hpay, raw,
    hraw, rfl⟩

theorem paid (h : SelectedMint crypto host secp wallet utxos plan s) {built : MintTx}
    (hbuilt : buildMintTx crypto host secp plan wallet utxos = .ok built) :
    fee plan s ≤ UapJs.defaultTransactionMaxFee ∧ feePaid utxos built.tx = fee plan s ∧
      changePaid built.tx = paidChange (change plan s) := by
  simp only [buildMintTx, bind_eq_ok, pure_eq_ok, mapM_paymentInput h.ready, Except.ok.injEq, exists_eq_left'] at hbuilt
  obtain ⟨mintScript, -, metadataScript, -, changeScript, haddress, tx, hpay, raw, -, rfl⟩ := hbuilt
  obtain ⟨hash, hhash, hscript⟩ := addressToScript_eq_ok haddress
  have hbuild := buildPaymentTx_mint crypto secp h.amount mintScript metadataScript
    (hscript ▸ length_p2pkhScript hhash) h.enough h.total_lt h.select
  obtain ⟨hcap, hsign⟩ := (hbuild tx).mp hpay
  obtain ⟨hvout, hvin⟩ := UapJs.signInputs_frame hsign
  have hspent : (tx.vin.map fun vin => valueAt utxos vin.outpoint).sum = totalValue s := by
    have hperm := UapJs.sortInputs_perm (utxos.map (Utxo.input crypto wallet))
    rw [← sum_valueAt h.ready fun a ha => hperm.mem_iff.mp (h.sorted.subset ha)]
    have hmap := congrArg (List.map (valueAt utxos)) hvin
    simp only [List.map_map, UapJs.paymentSkeleton] at hmap
    exact congrArg List.sum hmap
  have houts : tx.vout = [⟨plan.amountSats, mintScript⟩, ⟨0, metadataScript⟩] ++
      if change plan s ≥ defaultDustLimit then [⟨change plan s, changeScript⟩] else [] := by
    rw [hvout]
    rfl
  refine ⟨hcap, ?_, ?_⟩
  · rw [feePaid, hspent, houts, fee, paidChange]
    split_ifs
    · simp
      omega
    · simp
  · rw [changePaid, houts, paidChange]
    split_ifs <;> simp

end SelectedMint

end Whippet.Web
