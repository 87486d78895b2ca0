import Whippet.Indexer.Rpc
import Whippet.Lib.Checked
import Whippet.Lib.Radix
import Whippet.Lib.Sha256

/-! Addresses of the indexer. -/
namespace Whippet.Indexer
open Lib Primitives

def base58Alphabet : Text := "123456789ABCDEFGHJKLMNPQRSTUVWXYZabcdefghijkmnopqrstuvwxyz".toList

/-- The loop of `base58Encode` that takes the digits off a number. Two digits hold more than a byte. -/
def base58Loop : ℕ → ℕ → Text → Text
  | 0, _, result => result
  | fuel + 1, num, result =>
    if num > 0 then base58Loop fuel (num / 58) (base58Alphabet.getD (num % 58) '1' :: result) else result

def base58Encode (data : Bytes) : Text :=
  let result := base58Loop (2 * data.length) (beNat data) []
  let result := (data.takeWhile (· = 0)).foldl (fun result _ => '1' :: result) result
  if result = [] then ['1'] else result

def base58Number? (num : ℕ) (s : Text) : Option ℕ :=
  s.foldlM (fun num ch => (base58Alphabet.idxOf? ch).map (num * 58 + ·)) num

def bigIntBytes (num : ℕ) : Bytes := (radixDigits 256 num).map UInt8.ofNat

/-- `base58Decode`; `none` is nil. -/
def base58Decode? (s : Text) : Option Bytes :=
  (base58Number? 0 s).map fun num => (s.takeWhile (· = '1')).foldl (fun result _ => 0 :: result) (bigIntBytes num)

def encodeAddress (crypto : Crypto) (hash160 : Bytes) (version : UInt8) : Text :=
  if hash160.length ≠ 20 then []
  else
    let payload := version :: hash160
    base58Encode (payload ++ (crypto.hash256 payload).bytes.take 4)

def decodeAddress (crypto : Crypto) (addr : Text) : Except String (UInt8 × Bytes) := do
  let data := (base58Decode? addr).getD []
  failIf (data.length ≠ 25)
    ("invalid address length after decoding: " ++ toString data.length ++ " (expected 25)")
  let payload := data.take 21
  failIf (data.drop 21 ≠ (crypto.hash256 payload).bytes.take 4) "checksum mismatch"
  return (payload.headD 0, payload.tail)

end Whippet.Indexer
