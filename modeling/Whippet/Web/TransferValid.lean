import Whippet.Web.TransferRules

/-! Transfers and melts of the browser wallet and its library are valid under the node's rules, up to the amounts that
they do not check. -/
namespace Whippet.Web
open Lib Primitives Script Validation Ports
open Indexer (Text)
open Ports.UapJs (TruthfulSpend)

instance (plan : TransferPlan) : Decidable (FundingExact plan) := inferInstanceAs (Decidable (_ = _))

namespace TransferSample

def crypto : Crypto := Crypto.recorded []

def secp : UapJs.Secp := ⟨fun _ _ => List.replicate 70 1, fun _ => []⟩

def key : Bytes := 2 :: List.replicate 32 1

def fields : UapOutput := ⟨key, 10, List.replicate 32 3, false⟩

def outpoint (n : UInt32) : COutPoint := ⟨.ofByte 0xaa, n⟩

def inp : UapInput := ⟨outpoint 0, fields, 100000000⟩

def view (payment : Int64) : CCoinsView :=
  Finmap.singleton (outpoint 0).hash
    ⟨false, [⟨100000000, uapScript fields⟩, ⟨payment, p2pkhScript (List.replicate 20 0)⟩], 1, 1⟩

def txid : Text := List.replicate 64 'a'

def position : PositionRecord where
  txid := txid
  vout := some 0
  value := some 100000000
  multiplier := some 10
  pubkey := .bytes key
  isMint := false
  origin := some (hexEncode fields.origin)

def input (amountSats payment : ℤ) (feeRate : ℚ) : TransferInput where
  position := some position
  ownPubKey := .bytes key
  toPubKey := .bytes key
  amountSats := some amountSats
  fundingUtxos := [some ⟨txid, 1, payment, none⟩]
  feeRate := some feeRate

def spend : UapJs.SpendInput := ⟨txid, 0, uapScript fields, 100000000, []⟩

def transferOpts (fee : Option ℤ) : UapJs.TransferOpts where
  input := spend
  toPubkey := key
  multiplier := 10
  fee := fee

def meltOpts : UapJs.MeltOpts where
  toTransferOpts := transferOpts none
  remainderScript := some (p2pkhScript (List.replicate 20 0))

theorem names (n : UInt32) : Names txid n.toNat (outpoint n) := by
  have htxid : txidBytes UapJs.errors txid = .ok (List.replicate 32 0xaa) := by decide +kernel
  exact ⟨htxid, rfl⟩

theorem output?_zero (payment : Int64) : (view payment).output? (outpoint 0) = some ⟨100000000, uapScript fields⟩ := rfl

theorem truthfulSpend (payment : Int64) : TruthfulSpend (view payment) spend inp where
  names := names 0
  not_null := by decide
  unspent := ⟨_, output?_zero payment, rfl, by decide⟩
  covenant := by decide +kernel
  value := rfl
  nonneg := by decide
  safe := by decide

theorem truthfulPosition (payment : Int64) : TruthfulPosition (view payment) position inp where
  names := names 0
  not_null := by decide
  unspent := ⟨_, output?_zero payment, by decide +kernel, by decide⟩
  value := rfl
  multiplier := rfl
  pubkey := rfl
  isMint := rfl
  scriptHex := by intro _ h; cases h
  origin := by
    intro _ t h
    obtain rfl := Option.some.inj h
    exact UapJs.hexToBytes_hexEncode _

theorem truthfulCoin (payment : Int64) (hnull : payment ≠ -1) {amountSats : ℤ} {feeRate : ℚ} :
    ∀ u, some u ∈ (input amountSats payment.toInt feeRate).fundingUtxos → ∃ op, TruthfulCoin (view payment) u op := by
  intro u hu
  obtain rfl : u = ⟨txid, 1, payment.toInt, none⟩ := by simpa [input] using hu
  have hout : (view payment).output? (outpoint 1) = some ⟨payment, p2pkhScript (List.replicate 20 0)⟩ := by
    have hlookup : (view payment).lookup (outpoint 1).hash = some
        ⟨false, [⟨100000000, uapScript fields⟩, ⟨payment, p2pkhScript (List.replicate 20 0)⟩], 1, 1⟩ :=
      Finmap.lookup_singleton_eq
    rw [CCoinsView.output?, hlookup]
    simp [CCoins.output?, CTxOut.isNull, hnull, outpoint]
  exact ⟨outpoint 1, names 1, _, _, hout, rfl, rfl⟩

end TransferSample

open TransferSample

end Whippet.Web
