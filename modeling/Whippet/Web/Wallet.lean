import Whippet.Indexer.Rpc
import Whippet.Lib.Run
import Whippet.Lib.Sha256

/-! The browser wallet: a class whose methods change its fields one by one and may throw in between. -/
namespace Whippet.Web
open Lib Primitives
open Indexer (Text)

def base58Alphabet : List Char := "123456789ABCDEFGHJKLMNPQRSTUVWXYZabcdefghijkmnopqrstuvwxyz".toList

/-- The digits of a positive number in base 58, most significant first. Two digits hold more than a byte. -/
def base58Digits : ℕ → ℕ → List Char
  | 0, _ => []
  | fuel + 1, n => if n = 0 then [] else base58Digits fuel (n / 58) ++ [base58Alphabet.getD (n % 58) '1']

def base58Encode (bytes : Bytes) : Text :=
  List.replicate (bytes.takeWhile (· = 0)).length '1' ++ base58Digits (2 * bytes.length) (beNat bytes)

def base58checkEncode (crypto : Crypto) (payload : Bytes) (version : UInt8) : Text :=
  let toHash := version :: payload
  base58Encode (toHash ++ (crypto.hash256 toHash).bytes.take 4)

def pubkeyToAddress (crypto : Crypto) (pubkey : Bytes) (version : UInt8) : Text :=
  base58checkEncode crypto (crypto.hash160 pubkey) version

/-- What a field of the stored record can hold: a text, something else that counts as false (`null`, `undefined`,
`0`) or something else that counts as true. The last two come with their name as a property key. -/
inductive Value
  | falsy (name : Text)
  | text (t : Text)
  | other (name : Text)
  deriving DecidableEq, Repr

def Value.truthy : Value → Bool
  | .falsy _ => false
  | .text t => t ≠ []
  | .other _ => true

/-- The JavaScript operator `||`. -/
def Value.or (a b : Value) : Value := if a.truthy then a else b

def Value.name : Value → Text
  | .falsy t => t
  | .text t => t
  | .other t => t

def Value.null : Value := .falsy "null".toList

def pubkeyAddressVersion? (network : Value) : Option UInt8 :=
  if network.name = "mainnet".toList then some 0x49
  else if network.name = "testnet".toList then some 0x71
  else if network.name = "regtest".toList then some 0x49
  else none

/-- The random bytes behind a phrase of twelve or twenty-four words. -/
def Entropy := { bytes : Bytes // bytes.length = 16 ∨ bytes.length = 32 }

/-- The functions on phrases and keys that the wallet calls. Those that can throw say so. -/
structure Keys where
  mnemonicToEntropy : Text → Except String Bytes
  entropyToMnemonic : Entropy → Text
  mnemonicToPrivateKey : Text → Except String Bytes
  legacyMnemonicToPrivateKey : Text → Bytes
  getPublicKey : Bytes → Except String Bytes
  /-- A generated phrase has its checksum. -/
  generated : ∀ entropy, (mnemonicToEntropy (entropyToMnemonic entropy)).isOk = true

/-- `encryptPrivateKey` and `decryptPrivateKey`, with the random bytes of the salt and the nonce as an argument. A
wrong passphrase gives nothing, a malformed record throws. -/
structure Cipher (ε : Type) where
  encrypt : Bytes → Text → Bytes → Except String ε
  decrypt : ε → Text → Except String (Option Bytes)
  decrypt_encrypt : ∀ plaintext passphrase random e, encrypt plaintext passphrase random = .ok e →
    decrypt e passphrase = .ok (some plaintext)

def textEncode (t : Text) : Bytes := t.flatMap String.utf8EncodeChar

def byteOrderMark : Bytes := [0xef, 0xbb, 0xbf]

/-- `TextDecoder.decode`: a byte order mark at the front is dropped, and what is not UTF-8 is replaced. -/
def textDecode (replaceInvalid : Bytes → Text) (bytes : Bytes) : Text :=
  let bytes := if bytes.take 3 = byteOrderMark then bytes.drop 3 else bytes
  match bytes.toByteArray.utf8Decode? with
  | some chars => chars.toList
  | none => replaceInvalid bytes

/-- The record under the key `wallet`. -/
structure Stored (ε : Type) where
  encrypted : Option ε
  address : Value
  network : Value

structure Wallet (ε : Type) where
  storage : Option (Stored ε) := none
  network : Value
  privKey : Option Bytes := none
  address : Value := .null
  mnemonic : Option Text := none
  locked : Bool := false
  derivationPath : Option String := none
  usesLegacyDerivation : Option Bool := none

def whippetKeyPath : String := "m/0'/3'/0'"

section
variable {ε : Type} (crypto : Crypto) (keys : Keys) (cipher : Cipher ε) (replaceInvalid : Bytes → Text)

def deriveAddressFromPrivKey (privKey : Bytes) (network : Value) : Except String Text :=
  match keys.getPublicKey privKey with
  | .error e => .error e
  | .ok pubKey =>
    match pubkeyAddressVersion? network with
    | none => .error ("Unknown network: " ++ String.ofList network.name)
    | some version => .ok (pubkeyToAddress crypto pubKey version)

namespace Wallet

/-- Set the key, and then its address under the wallet's network. -/
def setKey (w : Wallet ε) (privKey : Bytes) (path : String) : Except String Unit × Wallet ε :=
  let w := { w with privKey := some privKey }
  match deriveAddressFromPrivKey crypto keys privKey w.network with
  | .error e => (.error e, w)
  | .ok address => (.ok (), { w with address := .text address, derivationPath := some path })

def deriveFromMnemonic (w : Wallet ε) (mnemonic : Text) : Except String Unit × Wallet ε :=
  match keys.mnemonicToPrivateKey mnemonic with
  | .error e => (.error e, w)
  | .ok privKey => w.setKey crypto keys privKey whippetKeyPath

def deriveLegacyFromMnemonic (w : Wallet ε) (mnemonic : Text) : Except String Unit × Wallet ε :=
  w.setKey crypto keys (keys.legacyMnemonicToPrivateKey mnemonic) "legacy (pre-BIP39-fix)"

/-- The end of `Wallet.create`, which gives the wallet only if the derivation does not throw. -/
def init (w : Wallet ε) (mnemonic : Text) : Except String (Wallet ε) :=
  match deriveFromMnemonic crypto keys { w with mnemonic := some mnemonic } mnemonic with
  | (.error e, _) => .error e
  | (.ok (), w) => .ok w

/-- `Wallet.create` without `restore`. The random bytes are used when no phrase is given. -/
def create (storage : Option (Stored ε)) (network : Value) (mnemonic : Text) (entropy : Entropy) :
    Except String (Wallet ε) :=
  if mnemonic = [] then
    init crypto keys { storage := storage, network := network } (keys.entropyToMnemonic entropy)
  else
    match keys.mnemonicToEntropy mnemonic with
    | .error e => .error e
    | .ok _ => init crypto keys { storage := storage, network := network } mnemonic

def restore (storage : Option (Stored ε)) (network : Value) : Except String (Wallet ε) :=
  match storage with
  | none => .error "No wallet found in storage"
  | some stored =>
    match stored.encrypted with
    | none => .error "Stored wallet has no encrypted key material"
    | some _ =>
      .ok { storage := storage, network := stored.network.or network, address := stored.address.or .null,
            locked := true }

def lock (w : Wallet ε) (passphrase : Text) (random : Bytes) : Except String Unit × Wallet ε :=
  match w.mnemonic with
  | none | some [] => (.error "No mnemonic available to lock", w)
  | some mnemonic =>
    if passphrase = [] then (.error "A passphrase is required to lock the wallet", w)
    else
      match cipher.encrypt (textEncode mnemonic) passphrase random with
      | .error e => (.error e, w)
      | .ok encrypted =>
        (.ok (), { w with
          storage := some ⟨some encrypted, w.address, w.network⟩, privKey := none, mnemonic := none, locked := true })

/-- The end of `unlock`: the stored address has to be that of one of the two derivations. -/
def checkAddress (w : Wallet ε) (address : Value) (mnemonic : Text) : Except String Bool × Wallet ε :=
  if address.truthy = true ∧ address ≠ w.address then
    match w.deriveLegacyFromMnemonic crypto keys mnemonic with
    | (.error e, w) => (.error e, w)
    | (.ok (), w) =>
      if address = w.address then
        (.ok true, { w with usesLegacyDerivation := some true, locked := false })
      else
        (.error "Stored address does not match the decrypted key; storage may be corrupt",
          { w with privKey := none, mnemonic := none })
  else (.ok true, { w with locked := false })

/-- What `unlock` does with the phrase it has decrypted. -/
def openPhrase (w : Wallet ε) (stored : Stored ε) (mnemonic : Text) : Except String Bool × Wallet ε :=
  match deriveFromMnemonic crypto keys { w with network := stored.network.or w.network, mnemonic := some mnemonic }
      mnemonic with
  | (.error e, w) => (.error e, w)
  | (.ok (), w) => checkAddress crypto keys { w with usesLegacyDerivation := some false } stored.address mnemonic

def phrase (stored : Stored ε) (passphrase : Text) : Except String (Option Text) :=
  match stored.encrypted with
  | none => .error "No encrypted wallet in storage"
  | some encrypted =>
    match cipher.decrypt encrypted passphrase with
    | .error e => .error e
    | .ok none => .ok none
    | .ok (some plaintext) =>
      let mnemonic := textDecode replaceInvalid plaintext
      match keys.mnemonicToEntropy mnemonic with
      | .error e => .error e
      | .ok _ => .ok (some mnemonic)

def unlock (w : Wallet ε) (passphrase : Text) : Except String Bool × Wallet ε :=
  match w.storage with
  | none => (.error "No encrypted wallet in storage", w)
  | some stored =>
    match phrase keys cipher replaceInvalid stored passphrase with
    | .error e => (.error e, w)
    | .ok none => (.ok false, w)
    | .ok (some mnemonic) => w.openPhrase crypto keys stored mnemonic

end Wallet

/-- A call on the wallet, or a change of what is stored by someone else. -/
inductive Call (ε : Type)
  | lock (passphrase : Text) (random : Bytes)
  | unlock (passphrase : Text)
  | store (stored : Option (Stored ε))

def Wallet.step (w : Wallet ε) : Call ε → Wallet ε
  | .lock passphrase random => (w.lock cipher passphrase random).2
  | .unlock passphrase => (w.unlock crypto keys cipher replaceInvalid passphrase).2
  | .store stored => { w with storage := stored }

end
end Whippet.Web
