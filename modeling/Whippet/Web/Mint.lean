import Whippet.Ports.PaymentSpec
import Whippet.Web.Address

/-! Mints in the browser wallet: the plan that is reviewed, and the transaction that is built from it. -/
namespace Whippet.Web
open Lib Primitives Ports
open Indexer (Text)
open Ports.UapJs (PaymentInput feeFor defaultDustLimit)

def isTickerChar (c : Char) : Bool := (0x30 ≤ c.toNat ∧ c.toNat ≤ 0x39) ∨ (0x41 ≤ c.toNat ∧ c.toNat ≤ 0x5a)

/-- The functions on texts that the browser brings along. -/
structure Host where
  toUpperCase : Text → Text
  /-- `JSON.stringify` of the character of a text at a position. -/
  stringifyAt : Text → ℕ → Text
  numberText : ℚ → Text
  toUpperCase_eq : ∀ t, t.all isTickerChar = true → toUpperCase t = t

def utf16Length (t : Text) : ℕ := (t.map fun c => if c.toNat < 0x10000 then 1 else 2).sum

def normalizeTicker (host : Host) (ticker : Text) : Except String Text := do
  let upper := host.toUpperCase ticker
  failIf (utf16Length upper < 1 ∨ utf16Length upper > 8)
    ("ticker must be 1..8 characters, got " ++ toString (utf16Length upper))
  match upper.findIdx? (!isTickerChar ·) with
  | some i =>
    .error ("ticker contains invalid character " ++ String.ofList (host.stringifyAt upper i) ++ " at position " ++
      toString i ++ "; only A-Z and 0-9 are allowed")
  | none => .ok upper

/-- `buildMetadataScript`; an absent hash is empty. -/
def buildMetadataScript (host : Host) (ticker : Text) (metadataHash : Bytes) : Except String Bytes := do
  let upper ← normalizeTicker host ticker
  failIf (metadataHash.length ≠ 0 ∧ metadataHash.length ≠ 32)
    ("metadata hash must be empty or exactly 32 bytes, got " ++ toString metadataHash.length)
  let magic ← UapJs.pushData [0x57, 0x55, 0x41, 0x50]
  let version ← UapJs.pushData [0x02]
  let ticker ← UapJs.pushData (textEncode upper)
  let hash ← UapJs.pushData metadataHash
  let script := [0x6a] ++ magic ++ version ++ ticker ++ hash
  failIf (script.length > 83)
    ("internal error: built a " ++ toString script.length ++ "-byte metadata script, over the 83-byte relay ceiling")
  return script

structure Utxo where
  txid : Text
  vout : ℤ
  value : ℤ
  scriptPubKey : Option (Text ⊕ Bytes) := none
  deriving DecidableEq, Repr

structure FieldError where
  field : String
  message : String
  deriving DecidableEq, Repr

/-- The input of `planMint`. A multiplier that is not an integer is `none`. -/
structure MintInput where
  ticker : Text
  multiplier : Option ℤ
  amountSats : ℤ
  utxos : List Utxo
  feeRate : ℚ

structure MintPlan where
  ticker : Text
  multiplier : ℤ
  amountSats : ℤ
  fee : ℤ
  change : ℤ
  feeRate : ℚ
  deriving DecidableEq, Repr

/-- The copy of `estimateTxSize` in `mint.js`. -/
def estimateTxSize (nInputs nOutputs : ℕ) : ℕ := UapJs.estimateTxSize nInputs nOutputs

namespace MintInput

def totalUtxoValue (input : MintInput) : ℤ := sumDouble (input.utxos.map (·.value))

def tickerErrors (host : Host) (input : MintInput) : List FieldError :=
  match normalizeTicker host input.ticker with
  | .error e => [⟨"ticker", e⟩]
  | .ok _ => []

def multiplierErrors (input : MintInput) : List FieldError :=
  match input.multiplier with
  | none => [⟨"multiplier", "Multiplier must be an integer"⟩]
  | some m =>
    if m < 0 ∨ m > 2147483647 then [⟨"multiplier", "Multiplier must be in range [0, 2147483647]"⟩] else []

def amountErrors (input : MintInput) : List FieldError :=
  if input.amountSats < 1000 * UapJs.coin then
    [⟨"amountSats", "Amount must be at least 1000 coins (" ++ toString (1000 * UapJs.coin) ++ " satoshis), got " ++
      toString input.amountSats ++ " satoshis"⟩]
  else []

/-- The check of the virtual balance against `2 ^ 48`. -/
def balanceErrors (host : Host) (input : MintInput) : List FieldError :=
  match input.multiplier with
  | none => []
  | some m =>
    let amountCoins := toDouble (input.amountSats / UapJs.coin)
    let virtualBalance := toDouble (amountCoins * m)
    if m ≥ 0 ∧ input.amountSats ≥ 1000 * UapJs.coin ∧ virtualBalance > 2 ^ 48 then
      [⟨"multiplier", "This multiplier is too large for the amount you are locking (" ++
        String.ofList (host.numberText amountCoins) ++ " coins × " ++ toString m ++ " = " ++
        String.ofList (host.numberText virtualBalance) ++ " > 2^48 = 281474976710656)"⟩]
    else []

def fundsErrors (host : Host) (input : MintInput) : List FieldError :=
  if input.utxos = [] then [⟨"utxos", "No UTXOs provided"⟩]
  else
    let total := input.totalUtxoValue
    let minFee := feeFor (estimateTxSize input.utxos.length 2) input.feeRate
    let totalNeeded := intToDouble (input.amountSats + minFee)
    if total < totalNeeded then
      let shortfallSats := intToDouble (totalNeeded - total)
      [⟨"utxos", "Insufficient funds: need " ++ toString totalNeeded ++ " satoshis (" ++ toString input.amountSats ++
        " for mint + " ++ toString minFee ++ " for fee), have " ++ toString total ++ " satoshis. Shortfall: " ++
        String.ofList (host.numberText (toDouble (shortfallSats / UapJs.coin))) ++ " coins (" ++
        toString shortfallSats ++ " satoshis)"⟩]
    else
      let change := intToDouble (total - totalNeeded)
      if change > 0 ∧ change < defaultDustLimit then
        [⟨"utxos", "Transaction would produce dust change (" ++ toString change ++
          " satoshis). Need either more input or slightly less output."⟩]
      else []

def errors (host : Host) (input : MintInput) : List FieldError :=
  input.tickerErrors host ++ input.multiplierErrors ++ input.amountErrors ++ input.balanceErrors host ++
    input.fundsErrors host

end MintInput

/-- `planMint`. The plan itself counts three outputs. -/
def planMint (host : Host) (input : MintInput) : Except (List FieldError) MintPlan :=
  if input.errors host ≠ [] then .error (input.errors host)
  else
    let fee := feeFor (estimateTxSize input.utxos.length 3) input.feeRate
    .ok {
      ticker := (normalizeTicker host input.ticker).toOption.getD []
      multiplier := input.multiplier.getD 0
      amountSats := input.amountSats
      fee := fee
      change := intToDouble (intToDouble (input.totalUtxoValue - input.amountSats) - fee)
      feeRate := input.feeRate }

/-- The script that an input spends. A text that is empty counts as absent. -/
def Utxo.scriptCode (crypto : Crypto) (pubKey : Bytes) (u : Utxo) : Except String Bytes :=
  match u.scriptPubKey with
  | none | some (.inl []) => .ok (buildP2PKHScript crypto pubKey)
  | some (.inl hex) => UapJs.hexToBytes hex
  | some (.inr bytes) => .ok bytes

def Utxo.paymentInput (crypto : Crypto) (privKey pubKey : Bytes) (u : Utxo) : Except String PaymentInput := do
  let scriptCode ← u.scriptCode crypto pubKey
  return ⟨u.txid, u.vout, u.value, scriptCode, privKey, pubKey⟩

/-- What `buildMintTx` is given beside the plan and the UTXOs. -/
structure MintWallet where
  privKey : Bytes
  pubKey : Bytes
  changeAddress : Text

structure MintTx where
  rawHex : Text
  tx : UapJs.Tx
  mintScript : Bytes
  metadataScript : Bytes
  value : ℤ

def buildMintTx (crypto : Crypto) (host : Host) (secp : UapJs.Secp) (plan : MintPlan) (wallet : MintWallet)
    (utxos : List Utxo) : Except String MintTx := do
  let mintScript ← UapJs.buildMintScript wallet.pubKey plan.multiplier
  let metadataScript ← buildMetadataScript host plan.ticker []
  let inputs ← utxos.mapM (·.paymentInput crypto wallet.privKey wallet.pubKey)
  let changeScript ← addressToScript crypto wallet.changeAddress
  let tx ← UapJs.buildPaymentTx crypto secp {
    inputs := inputs
    outputs := [⟨plan.amountSats, mintScript⟩, ⟨0, metadataScript⟩]
    changeScript := some changeScript
    feeRate := some plan.feeRate }
  let raw ← UapJs.serializeTx tx
  return ⟨hexEncode raw, tx, mintScript, metadataScript, plan.amountSats⟩

end Whippet.Web
