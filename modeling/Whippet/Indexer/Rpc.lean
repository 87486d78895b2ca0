import Whippet.Ports.Covenant
import Whippet.Primitives.Transaction

/-! Blocks as the node's RPC interface returns them, and what the indexer reads off an output script. -/
namespace Whippet.Indexer
open Lib Primitives Script Ports

/-- Text, mostly hexadecimal, as the list of its characters. -/
abbrev Text := List Char

structure RPCVin where
  txid : Text
  vout : UInt32
  coinbase : Text
  deriving DecidableEq, Repr

/-- An output. The node's amounts are never negative. -/
structure RPCVout where
  value : ℕ
  n : UInt32
  scriptPubKey : Text
  deriving DecidableEq, Repr

/-- A transaction, whose outputs the node numbers. -/
structure RPCTx where
  txid : Text
  vin : List RPCVin
  vout : List RPCVout
  vout_nodup : (vout.map RPCVout.n).Nodup

structure RPCBlock where
  hash : Text
  height : ℤ
  previousBlockHash : Text
  tx : List RPCTx

/-- The key `txid:vout` of an outpoint, kept as the pair it is built from. -/
@[ext] structure Outpoint where
  txid : Text
  vout : UInt32
  deriving DecidableEq, Repr

def positionKey (txid : Text) (vout : UInt32) : Outpoint := ⟨txid, vout⟩

def Outpoint.text (k : Outpoint) : String := String.ofList k.txid ++ ":" ++ toString k.vout.toNat

def uapOriginFromOutpoint (crypto : Crypto) (txidHex : Text) (n : UInt32) : Except String Bytes :=
  match hexDecode? txidHex with
  | none => .error "invalid txid hex"
  | some txidBytes =>
    if txidBytes.length ≠ 32 then .error ("txid must be 32 bytes, got " ++ toString txidBytes.length)
    else .ok (crypto.sha256 (txidBytes.reverse ++ leBytes 4 n.toNat)).bytes

def parseP2PKHScript? (scriptHex : Text) : Option Bytes := do
  let raw ← hexDecode? scriptHex
  if raw.length ≠ 25 then none
  else if raw.take 3 ≠ [0x76, 0xa9, 0x14] ∨ raw.drop 23 ≠ [0x88, 0xac] then none
  else some ((raw.drop 3).take 20)

structure TokenMetadata where
  ticker : Text
  metadataHash : Text
  deriving DecidableEq, Repr

def isTickerByte (c : UInt8) : Bool := (0x30 ≤ c ∧ c ≤ 0x39) ∨ (0x41 ≤ c ∧ c ≤ 0x5a)

/-- `ParseMetadata`: the record `OP_RETURN "WUAP" 0x02 ticker hash`. -/
def parseMetadata? (scriptHex : Text) : Option TokenMetadata := do
  let raw ← hexDecode? scriptHex
  if raw.length < 2 ∨ raw.headD 0 ≠ 0x6a then none
  else
    match ← readPushes? raw.tail with
    | [magic, version, ticker, hash] =>
      if !magic.isPush ∨ magic.data ≠ [0x57, 0x55, 0x41, 0x50] then none
      else if !version.isPush ∨ version.data ≠ [0x02] then none
      else if !ticker.isPush ∨ ticker.data.length < 1 ∨ ticker.data.length > 8 ∨ !ticker.data.all isTickerByte then none
      else if !hash.isPush ∨ (hash.data.length ≠ 0 ∧ hash.data.length ≠ 32) then none
      else some ⟨ticker.data.map fun c => Char.ofNat c.toNat, hexEncode hash.data⟩
    | _ => none

def covenantOf? (vout : RPCVout) : Option UapOutput :=
  match Ports.Indexer.parseUAPScript vout.scriptPubKey with
  | .ok parsed => parsed
  | .error _ => none

def txMetadata? (tx : RPCTx) : Option TokenMetadata := tx.vout.findSome? fun vout => parseMetadata? vout.scriptPubKey

theorem hexEncode_length (b : Bytes) : (hexEncode b).length = 2 * b.length := by
  induction b with
  | nil => rfl
  | cons x b ih =>
    simp only [hexEncode, List.length_cons, ih]
    omega

theorem covenantOf?_wellFormed {vout : RPCVout} {f : UapOutput} (h : covenantOf? vout = some f) : f.WellFormed := by
  unfold covenantOf? Ports.Indexer.parseUAPScript at h
  cases hhex : hexDecode? vout.scriptPubKey with
  | none => simp [hhex] at h
  | some raw =>
    simp only [hhex] at h
    rw [parsePushes?_eq Ports.Indexer.decodesScriptNum] at h
    exact (parseUapOutputScript?_eq_some.mp h).1

theorem uapOriginFromOutpoint_length {crypto : Crypto} {txidHex : Text} {n : UInt32} {origin : Bytes}
    (h : uapOriginFromOutpoint crypto txidHex n = .ok origin) : origin.length = 32 := by
  unfold uapOriginFromOutpoint at h
  cases hhex : hexDecode? txidHex with
  | none => simp [hhex] at h
  | some raw =>
    simp only [hhex] at h
    split_ifs at h
    obtain rfl := Except.ok.inj h
    exact (crypto.sha256 _).size_eq

end Whippet.Indexer
