import Whippet.Lib.DoubleRat
import Whippet.Ports.MakerOrder
import Mathlib.Data.List.Sort
import Mathlib.Data.Int.ConditionallyCompleteOrder

/-! Payments of the wallet library: fees, coin selection, and the builders of payments, transfers and melts. Amounts
are whole satoshis in doubles. -/
namespace Whippet.Ports.UapJs
open Lib Primitives

def coin : ℤ := 100000000

def recommendedMinTxFee : ℤ := 1000000

def defaultDustLimit : ℤ := recommendedMinTxFee

def defaultHardDustLimit : ℤ := 100000

def defaultTransactionMaxFee : ℤ := recommendedMinTxFee * 10000

/-- A cap on the fee, which may be `Infinity`, as it is written in an error. -/
def capText : WithTop ℤ → String
  | none => "Infinity"
  | some cap => toString cap

instance decidableCapLt (cap : WithTop ℤ) (fee : ℤ) : Decidable (cap < (fee : WithTop ℤ)) :=
  match cap with
  | none => isFalse not_top_lt
  | some cap => decidable_of_iff (cap < fee) WithTop.coe_lt_coe.symm

/-- The fee for a size at a rate in satoshis per kilobyte, with the floor that every caller applies. -/
def feeFor (size : ℕ) (feeRate : ℚ) : ℤ :=
  max ⌈toDouble (toDouble (size * feeRate) / 1000)⌉ recommendedMinTxFee

/-- `signP2PKHInput`: the signature with its hash type, and the key. -/
def signP2PKHInput (crypto : Crypto) (secp : Secp) (scriptCode privKey pubKey : Bytes) (tx : Tx) (nIn : ℕ)
    (hashType : UInt32) : Except String Bytes := do
  let hash ← signatureHash crypto scriptCode tx nIn hashType
  let signature ← pushData (secp.signSync hash privKey ++ [hashType.toUInt8])
  let key ← pushData pubKey
  return signature ++ key

def estimateTxSize (nInputs nOutputs : ℕ) : ℕ := 10 + nInputs * 150 + nOutputs * 34

structure PaymentInput where
  txid : List Char
  vout : ℤ
  value : ℤ
  scriptCode : Bytes
  privKey : Bytes
  pubKey : Bytes
  deriving DecidableEq, Repr

structure Selection where
  selected : List PaymentInput
  totalInput : ℤ
  change : ℤ
  fee : ℤ
  deriving DecidableEq, Repr

structure Target where
  amount : ℤ
  changeScriptLen : ℕ
  feeRate : ℚ
  nOutputs : ℕ

def Target.fee (target : Target) (nInputs : ℕ) (totalInput : ℤ) : ℤ :=
  let estimatedOutputs :=
    target.nOutputs + if totalInput > target.amount ∧ target.changeScriptLen > 0 then 1 else 0
  feeFor (estimateTxSize nInputs estimatedOutputs) target.feeRate

def selectLoop (target : Target) : List PaymentInput → ℤ → List PaymentInput → Except String Selection
  | _, _, [] => .error "insufficient funds for transaction (cannot select enough UTXOs to cover target + fee)"
  | selected, totalInput, input :: sorted =>
    let selected := selected ++ [input]
    let totalInput := intToDouble (totalInput + input.value)
    let estimatedFee := target.fee selected.length totalInput
    if totalInput ≥ intToDouble (target.amount + estimatedFee) then
      .ok ⟨selected, totalInput, intToDouble (intToDouble (totalInput - target.amount) - estimatedFee), estimatedFee⟩
    else selectLoop target selected totalInput sorted

def sortInputs (inputs : List PaymentInput) : List PaymentInput := inputs.insertionSort fun a b => a.value ≤ b.value

def selectCoins (candidateInputs : List PaymentInput) (target : Target) : Except String Selection :=
  selectLoop target [] 0 (sortInputs candidateInputs)

structure PaymentOpts where
  inputs : List PaymentInput
  outputs : List PortTxOut
  changeScript : Option Bytes := none
  feeRate : Option ℚ := none
  maxFee : Option (WithTop ℤ) := none

def PaymentOpts.rate (opts : PaymentOpts) : ℚ := if opts.feeRate.getD 0 = 0 then 1000 else opts.feeRate.getD 0

def PaymentOpts.target (opts : PaymentOpts) : Target where
  amount := sumDouble (opts.outputs.map (·.value))
  changeScriptLen := (opts.changeScript.getD []).length
  feeRate := opts.rate
  nOutputs := opts.outputs.length

def signInputs (crypto : Crypto) (secp : Secp) : List PaymentInput → ℕ → Tx → Except String Tx
  | [], _, tx => .ok tx
  | input :: inputs, i, tx => do
    let scriptSig ← signP2PKHInput crypto secp input.scriptCode input.privKey input.pubKey tx i 1
    signInputs crypto secp inputs (i + 1)
      { tx with vin := tx.vin.modify i fun vin => { vin with scriptSig := some scriptSig } }

def PaymentOpts.vout (opts : PaymentOpts) (change : ℤ) : List PortTxOut :=
  opts.outputs ++ if change ≥ defaultDustLimit then (opts.changeScript.map (⟨change, ·⟩)).toList else []

def paymentSkeleton (selected : List PaymentInput) (vout : List PortTxOut) : Tx where
  version := some 1
  locktime := some 0
  vin := selected.map fun input => ⟨input.txid, input.vout, some [], some 0xffffffff⟩
  vout := vout

def buildPaymentTx (crypto : Crypto) (secp : Secp) (opts : PaymentOpts) : Except String Tx := do
  let maxFee : WithTop ℤ := opts.maxFee.getD defaultTransactionMaxFee
  let s ← selectCoins opts.inputs opts.target
  failIf (s.change ≥ defaultDustLimit ∧ opts.changeScript = none)
    ("change of " ++ toString s.change ++
      " satoshis exceeds dust limit but no changeScript provided (refusing silent loss of funds)")
  let vout := opts.vout s.change
  let actualFee := intToDouble (s.totalInput - sumDouble (vout.map (·.value)))
  failIf ((actualFee : WithTop ℤ) > maxFee)
    ("refusing to build a transaction paying " ++ toString actualFee ++ " satoshis in fees, above the " ++
      capText maxFee ++ " satoshi cap. Check that feeRate is in satoshis per " ++
      "kilobyte, not per byte. Pass maxFee to authorise a larger fee.")
  signInputs crypto secp s.selected 0 (paymentSkeleton s.selected vout)

structure SpendInput where
  txid : List Char
  vout : ℤ
  scriptCode : Bytes
  value : ℤ
  privKey : Bytes

structure TransferOpts where
  input : SpendInput
  toPubkey : Bytes
  multiplier : ℤ
  fee : Option ℤ := none
  maxFee : Option (WithTop ℤ) := none

def spendPosition (crypto : Crypto) (secp : Secp) (input : SpendInput) (vout : List PortTxOut) : Except String Tx := do
  let tx : Tx := ⟨some 1, [⟨input.txid, input.vout, some [], some 0xffffffff⟩], vout, some 0⟩
  let scriptSig ← signSpend crypto secp input.scriptCode input.privKey tx 0 1
  return { tx with vin := [⟨input.txid, input.vout, some scriptSig, some 0xffffffff⟩] }

def buildTransferTx (crypto : Crypto) (secp : Secp) (opts : TransferOpts) : Except String Tx := do
  let fee := opts.fee.getD 50000
  let maxFee : WithTop ℤ := opts.maxFee.getD defaultTransactionMaxFee
  failIf ((fee : WithTop ℤ) > maxFee)
    ("refusing to build a transfer paying " ++ toString fee ++ " satoshis in fees, above the " ++
      capText maxFee ++ " satoshi cap. Pass maxFee to authorise a larger fee.")
  let outValue := intToDouble (opts.input.value - fee)
  failIf (outValue ≤ 0) "fee exceeds input value"
  let origin ← originForSpend crypto (some opts.input.scriptCode) opts.input.txid opts.input.vout
  let script ← buildTransferScript opts.toPubkey opts.multiplier origin
  spendPosition crypto secp opts.input [⟨outValue, script⟩]

structure MeltOpts extends TransferOpts where
  remainderScript : Option Bytes

def buildMeltTx (crypto : Crypto) (secp : Secp) (opts : MeltOpts) : Except String Tx := do
  let fee := opts.fee.getD 50000
  let maxFee : WithTop ℤ := opts.maxFee.getD defaultTransactionMaxFee
  failIf ((fee : WithTop ℤ) > maxFee)
    ("refusing to build a melt paying " ++ toString fee ++ " satoshis in fees, above the " ++
      capText maxFee ++ " satoshi cap. Pass maxFee to authorise a larger fee.")
  failIf (opts.remainderScript.getD [] = [])
    ("buildMeltTx requires remainderScript: the recovered backing needs a " ++
      "destination, and omitting it would pay the whole remainder to the miner")
  let dustValue := defaultDustLimit
  let remainder := intToDouble (intToDouble (opts.input.value - dustValue) - fee)
  failIf (remainder < defaultDustLimit)
    ("position value " ++ toString opts.input.value ++ " is insufficient to melt: need at least " ++
      toString (intToDouble (intToDouble (dustValue + fee) + defaultDustLimit)) ++ " satoshis (" ++ toString dustValue ++
      " for the surviving covenant, " ++ toString fee ++ " fee, and " ++ toString defaultDustLimit ++
      " so the remainder itself clears dust), but only " ++ toString opts.input.value ++ " available")
  let origin ← originForSpend crypto (some opts.input.scriptCode) opts.input.txid opts.input.vout
  let script ← buildTransferScript opts.toPubkey opts.multiplier origin
  spendPosition crypto secp opts.input [⟨dustValue, script⟩, ⟨remainder, opts.remainderScript.getD []⟩]

end Whippet.Ports.UapJs
