import Whippet.Lib.Checked
import Whippet.Web.Wallet

/-! Addresses of the wallet library: base58check texts and the scripts they stand for. -/
namespace Whippet.Web
open Lib Primitives
open Indexer (Text)

def base256Digits : ℕ → ℕ → Bytes
  | 0, _ => []
  | fuel + 1, n => if n = 0 then [] else base256Digits fuel (n / 256) ++ [UInt8.ofNat (n % 256)]

def base58Number : ℕ → Text → Except String ℕ
  | num, [] => .ok num
  | num, c :: cs =>
    match base58Alphabet.idxOf? c with
    | none => .error ("invalid base58 character: " ++ String.ofList [c])
    | some digit => base58Number (num * 58 + digit) cs

/-- `base58Decode`; a digit is worth less than a byte. -/
def base58Decode (str : Text) : Except String Bytes := do
  let leadingOnes := (str.takeWhile (· = '1')).length
  let num ← base58Number 0 (str.drop leadingOnes)
  return List.replicate leadingOnes 0 ++ base256Digits str.length num

def base58checkDecode (crypto : Crypto) (str : Text) : Except String (UInt8 × Bytes) := do
  let decoded ← base58Decode str
  failIf (decoded.length < 5) "base58check string too short"
  let version := decoded.headD 0
  let payload := (decoded.drop 1).take (decoded.length - 5)
  let checksum := decoded.drop (decoded.length - 4)
  failIf (checksum ≠ (crypto.hash256 (version :: payload)).bytes.take 4) "invalid base58check checksum"
  return (version, payload)

def p2pkhScript (hash : Bytes) : Bytes := [0x76, 0xa9, 0x14] ++ hash ++ [0x88, 0xac]

def buildP2PKHScript (crypto : Crypto) (pubkey : Bytes) : Bytes := p2pkhScript (crypto.hash160 pubkey)

/-- The values of `VERSIONS`, as pairs of `PUBKEY_ADDRESS` and `SCRIPT_ADDRESS`. -/
def versions : List (UInt8 × UInt8) := [(0x49, 0x16), (0x71, 0xc4), (0x49, 0xc4)]

def addressToScript (crypto : Crypto) (address : Text) : Except String Bytes := do
  let (version, payload) ← base58checkDecode crypto address
  failIf (version ∉ versions.map Prod.fst)
    ("addressToScript: refusing to encode address version byte 0x" ++ String.ofList (hexEncode [version]) ++
      " as a P2PKH output. Only pay-to-pubkey-hash addresses are supported; " ++
      "a P2SH (or otherwise unknown) address encoded this way would be unspendable.")
  failIf (payload.length ≠ 20)
    ("addressToScript: expected a 20-byte hash160 payload, got " ++ toString payload.length ++ " bytes")
  return p2pkhScript payload

theorem length_p2pkhScript {hash : Bytes} (h : hash.length = 20) : (p2pkhScript hash).length = 25 := by
  simp [p2pkhScript, h]

theorem addressToScript_eq_ok {crypto : Crypto} {address : Text} {script : Bytes}
    (h : addressToScript crypto address = .ok script) : ∃ hash : Bytes, hash.length = 20 ∧ script = p2pkhScript hash := by
  simp only [addressToScript, bind_eq_ok, failIf_eq_ok, pure_eq_ok] at h
  obtain ⟨⟨version, payload⟩, -, ⟨⟩, -, ⟨⟩, hlen, rfl⟩ := h
  exact ⟨payload, not_not.mp hlen, rfl⟩

end Whippet.Web
