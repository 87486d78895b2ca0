import Whippet.Ports.PaymentSpec
import Whippet.Validation.SoleCovenant

/-! The transfers and melts of the wallet library under the node's rules. -/
namespace Whippet.Ports
open Lib Primitives Script Validation

structure Names (txid : List Char) (vout : ℤ) (op : COutPoint) : Prop where
  txid : txidBytes UapJs.errors txid = .ok op.hash.bytes
  vout : vout = op.n.toNat

variable {txid : List Char} {vout : ℤ} {op : COutPoint}

theorem Names.deriveOrigin (h : Names txid vout op) (crypto : Crypto) :
    UapJs.deriveOrigin crypto txid vout = .ok (uapOriginFromOutpoint crypto op) := by
  have htxid := h.txid
  simp only [txidBytes, bind_eq_ok] at htxid
  obtain ⟨raw, hraw, hcheck⟩ := htxid
  split_ifs at hcheck with hlen
  have hreverse : raw.reverse = op.hash.bytes := Except.ok.inj hcheck
  have hn := op.n.toNat_lt
  simp only [UapJs.deriveOrigin, bind_eq_ok, failIf_eq_ok, pure_eq_ok]
  refine ⟨raw, hraw, ⟨⟩, hlen, ⟨⟩, by rw [h.vout]; omega, ?_⟩
  rw [h.vout, toUint32_natCast, hreverse]
  rfl

theorem originForSpend_eq (crypto : Crypto) {script : Bytes} {f : UapOutput}
    (hparse : parseUapOutputScript? script = some f) (hnames : Names txid vout op) :
    UapJs.originForSpend crypto (some script) txid vout = .ok (inputLineage crypto f op) := by
  obtain ⟨hwf, rfl⟩ := parseUapOutputScript?_eq_some.mp hparse
  obtain ⟨pubkey, multiplier, origin, isMint⟩ := f
  cases isMint with
  | true =>
    have hlast : (uapScript ⟨pubkey, multiplier, origin, true⟩).getLastD 0 = 0xb5 := by
      simp [uapScript, List.getLastD_eq_getLast?, opMint]
    have hlen : ¬ (uapScript ⟨pubkey, multiplier, origin, true⟩).length < 1 := by simp [uapScript]
    rw [UapJs.originForSpend]
    simp only [Option.getD_some, if_neg hlen, if_pos hlast, hnames.deriveOrigin, inputLineage, if_true]
  | false =>
    have horigin : origin.length = 32 := hwf.origin_size rfl
    obtain ⟨head, hhead⟩ : ∃ head, uapScript ⟨pubkey, multiplier, origin, false⟩ = head ++ [0x20] ++ origin ++ [0xba] := by
      refine ⟨pushData pubkey ++ pushInt64 multiplier, ?_⟩
      have hpush : pushData origin = 0x20 :: origin := by
        simp [pushData, pushHeader, horigin, toNat_opPushData1]
      simp [uapScript, hpush, opMintTransfer]
    rw [hhead]
    have hlen : (head ++ [0x20] ++ origin ++ [0xba]).length = head.length + 34 := by
      simp only [List.length_append, List.length_singleton, horigin]
    have hlast : (head ++ [0x20] ++ origin ++ [0xba]).getLastD 0 = 0xba := by
      rw [List.getLastD_eq_getLast?, List.getLast?_concat]
      rfl
    have hmark : (head ++ [0x20] ++ origin ++ [0xba])[head.length]? = some 0x20 := by simp
    have hdrop : (head ++ [0x20] ++ origin ++ [0xba]).drop (head.length + 1) = origin ++ [0xba] := by
      rw [List.append_assoc]
      exact List.drop_left' (by simp)
    unfold UapJs.originForSpend
    simp only [Option.getD_some, hlen, hlast, inputLineage, Bool.false_eq_true, if_false, if_true]
    rw [if_neg (by omega), if_neg (by decide), if_neg (by
      rw [show head.length + 34 - 34 = head.length by omega, hmark]
      simp)]
    rw [slice, show head.length + 34 - 33 = head.length + 1 by omega, hdrop,
      List.take_left' (by rw [horigin]; omega)]

def wireValue (value : ℤ) : ℤ := (Int64.ofInt value).toInt

theorem wireValue_of_lt {value : ℤ} (h0 : 0 ≤ value) (h1 : value < 2 ^ 63) : wireValue value = value :=
  Int64.toInt_ofInt_of_le (by omega) (by omega)

theorem Names.toTxIn (h : Names txid vout op) (scriptSig : Bytes)
    (scriptSigLength : Option ℕ) (sequence : UInt32) :
    UapJs.toTxIn ⟨txid, UapJs.toUint32 vout, scriptSig, scriptSigLength, sequence⟩ = .ok ⟨op, scriptSig, sequence, []⟩ := by
  rw [UapJs.toTxIn, h.txid, ok_bind, dif_pos op.hash.size_eq, h.vout, toUint32_natCast]
  rfl

theorem length_inputLineage (crypto : Crypto) {f : UapOutput} (hwf : f.WellFormed) (op : COutPoint) :
    (inputLineage crypto f op).length = 32 := by
  unfold inputLineage
  split_ifs with hmint
  · exact (crypto.sha256 _).size_eq
  · exact hwf.origin_size (Bool.eq_false_iff.mpr hmint)

theorem transferPosition?_built {key : Bytes} (hkey : key.length = 33 ∨ key.length = 65) {m : ℤ} (h0 : 0 ≤ m)
    (h1 : m ≤ maxUapMultiplier) {origin : Bytes} (horigin : origin.length = 32) (value : ℤ) {script : Bytes}
    (hscript : UapJs.buildTransferScript key m origin = .ok script) :
    transferPosition? ⟨Int64.ofInt value, script⟩ = some ((m, origin), wireValue value) ∧
      isMintOutput ⟨Int64.ofInt value, script⟩ = false := by
  rw [UapJs.buildTransferScript_eq hkey h0 h1 horigin] at hscript
  obtain rfl := Except.ok.inj hscript
  have hparse : parseUapOutputScript? (uapScript ⟨key, m, origin, false⟩) = some ⟨key, m, origin, false⟩ :=
    parseUapOutputScript?_eq_some.mpr ⟨⟨hkey, h0, h1, by simp, fun _ => horigin⟩, rfl⟩
  refine ⟨transferPosition?_eq_some.mpr ⟨_, hparse, rfl, rfl⟩, ?_⟩
  simp [isMintOutput, hparse]

namespace UapJs

/-- The input describes an unspent covenant, with a value that doubles hold. -/
structure TruthfulSpend (view : CCoinsView) (input : SpendInput) (inp : UapInput) : Prop where
  names : Names input.txid input.vout inp.prevout
  not_null : inp.prevout.isNull = false
  unspent : ∃ out, view.output? inp.prevout = some out ∧ out.scriptPubKey = input.scriptCode ∧
    out.nValue.toInt = inp.value
  covenant : parseUapOutputScript? input.scriptCode = some inp.fields
  value : input.value = inp.value
  nonneg : 0 ≤ inp.value
  safe : inp.value < 2 ^ 53

section
variable {crypto : Crypto} {secp : Secp} {view : CCoinsView} {inp : UapInput}

theorem TruthfulSpend.uapInput? {input : SpendInput} (h : TruthfulSpend view input inp) (scriptSig : Bytes)
    (sequence : UInt32) : Validation.uapInput? view ⟨inp.prevout, scriptSig, sequence, []⟩ = some inp := by
  obtain ⟨out, hout, hscript, hvalue⟩ := h.unspent
  simp [Validation.uapInput?, hout, hscript, h.covenant, hvalue]

variable {tx : Tx}

theorem spendPosition_eq_ok {input : SpendInput} (h : TruthfulSpend view input inp) {vout : List PortTxOut}
    (hbuilt : spendPosition crypto secp input vout = .ok tx) :
    ∃ T, toTransaction tx = .ok T ∧ T.vout = vout.map (fun out => ⟨Int64.ofInt out.value, out.scriptPubKey⟩) ∧
      SoleCovenant view T inp := by
  simp only [spendPosition, bind_eq_ok, pure_eq_ok] at hbuilt
  obtain ⟨scriptSig, -, rfl⟩ := hbuilt
  let T : CTransaction :=
    { nVersion := (toUint32 1).toInt32
      vin := [⟨inp.prevout, scriptSig, toUint32 0xffffffff, []⟩]
      vout := vout.map fun out => ⟨Int64.ofInt out.value, out.scriptPubKey⟩
      nLockTime := toUint32 0 }
  refine ⟨T, ?_, rfl, ⟨⟨_, [], rfl, h.uapInput? scriptSig (toUint32 0xffffffff), by simp⟩, h.not_null, h.nonneg,
    le_of_lt (lt_of_lt_of_le h.safe (by decide))⟩⟩
  simp only [toTransaction, Tx.normalize, List.map_cons, List.map_nil, List.mapM_cons, List.mapM_nil, Option.getD_some,
    h.names.toTxIn, ok_bind]
  rfl

def TransferOpts.outValue (opts : TransferOpts) : ℤ := intToDouble (opts.input.value - opts.fee.getD 50000)

theorem buildTransferTx_rules {opts : TransferOpts} (htruth : TruthfulSpend view opts.input inp)
    (hmult : opts.multiplier = inp.fields.multiplier) (hkey : opts.toPubkey.length = 33 ∨ opts.toPubkey.length = 65)
    (hbuilt : buildTransferTx crypto secp opts = .ok tx) :
    ∃ T, toTransaction tx = .ok T ∧
      (UapRules crypto view T inp ↔ 0 ≤ wireValue opts.outValue ∧ wireValue opts.outValue ≤ inp.value) := by
  obtain ⟨hwf, -⟩ := parseUapOutputScript?_eq_some.mp htruth.covenant
  simp only [buildTransferTx, bind_eq_ok, failIf_eq_ok, originForSpend_eq crypto htruth.covenant htruth.names] at hbuilt
  obtain ⟨⟨⟩, -, ⟨⟩, -, origin, horigin, script, hscript, hspend⟩ := hbuilt
  obtain rfl := Except.ok.inj horigin
  obtain ⟨T, hT, hvout, hsole⟩ := spendPosition_eq_ok htruth hspend
  rw [hmult] at hscript
  obtain ⟨hposition, hmint⟩ := transferPosition?_built hkey hwf.multiplier_nonneg hwf.multiplier_le
    (length_inputLineage crypto hwf inp.prevout) opts.outValue hscript
  have houts : T.vout = [⟨Int64.ofInt opts.outValue, script⟩] := by rw [hvout]; rfl
  refine ⟨T, hT, hsole.rules_iff.trans ?_⟩
  rw [houts]
  refine (continues_cons_iff hposition hmint).trans ?_
  simp

def MeltOpts.remainder (opts : MeltOpts) : ℤ :=
  intToDouble (intToDouble (opts.input.value - defaultDustLimit) - opts.fee.getD 50000)

/-- The second output of a melt leaves the tokens alone, or continues the lineage within its value. -/
def MeltOpts.Conserves (crypto : Crypto) (opts : MeltOpts) (inp : UapInput) : Prop :=
  match parseUapOutputScript? (opts.remainderScript.getD []) with
  | none => defaultDustLimit ≤ inp.value
  | some g => g.isMint = false ∧ (g.multiplier, g.origin) = inp.lineage crypto ∧ 0 ≤ wireValue opts.remainder ∧
      defaultDustLimit + wireValue opts.remainder ≤ inp.value

theorem buildMeltTx_rules {opts : MeltOpts} (htruth : TruthfulSpend view opts.input inp)
    (hmult : opts.multiplier = inp.fields.multiplier) (hkey : opts.toPubkey.length = 33 ∨ opts.toPubkey.length = 65)
    (hbuilt : buildMeltTx crypto secp opts = .ok tx) :
    ∃ T, toTransaction tx = .ok T ∧ (UapRules crypto view T inp ↔ opts.Conserves crypto inp) := by
  obtain ⟨hwf, -⟩ := parseUapOutputScript?_eq_some.mp htruth.covenant
  simp only [buildMeltTx, bind_eq_ok, failIf_eq_ok, originForSpend_eq crypto htruth.covenant htruth.names] at hbuilt
  obtain ⟨⟨⟩, -, ⟨⟩, -, ⟨⟩, -, origin, horigin, script, hscript, hspend⟩ := hbuilt
  obtain rfl := Except.ok.inj horigin
  obtain ⟨T, hT, hvout, hsole⟩ := spendPosition_eq_ok htruth hspend
  rw [hmult] at hscript
  obtain ⟨hposition, hmint⟩ := transferPosition?_built hkey hwf.multiplier_nonneg hwf.multiplier_le
    (length_inputLineage crypto hwf inp.prevout) defaultDustLimit hscript
  have hwire : wireValue defaultDustLimit = defaultDustLimit := by decide
  have hdust : 0 ≤ defaultDustLimit := by decide
  let rest : CTxOut := ⟨Int64.ofInt opts.remainder, opts.remainderScript.getD []⟩
  have houts : T.vout = [⟨Int64.ofInt defaultDustLimit, script⟩, rest] := by rw [hvout]; rfl
  refine ⟨T, hT, hsole.rules_iff.trans ?_⟩
  rw [houts]
  refine (continues_cons_iff hposition hmint).trans ?_
  rw [hwire]
  unfold MeltOpts.Conserves
  cases hparse : parseUapOutputScript? (opts.remainderScript.getD []) with
  | none =>
    have hplain : transferPosition? rest = none := by simp [transferPosition?, rest, hparse]
    have hrestMint : isMintOutput rest = false := by simp [isMintOutput, rest, hparse]
    simp [hplain, hrestMint, hdust]
  | some g =>
    have hrestMint : isMintOutput rest = g.isMint := by simp [isMintOutput, rest, hparse]
    cases hm : g.isMint with
    | true => simp [hrestMint, hm]
    | false =>
      have hrest : transferPosition? rest = some ((g.multiplier, g.origin), wireValue opts.remainder) :=
        transferPosition?_eq_some.mpr ⟨g, hparse, hm, rfl⟩
      simp [hrest, hrestMint, hm, hdust, UapInput.lineage, and_assoc]

end

end UapJs

end Whippet.Ports
