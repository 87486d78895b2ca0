import Whippet.Lib.Text
import Whippet.Web.Mnemonic

/-! From a phrase to the wallet's key and address. The phrase is validated by its words, but the key is derived from
its characters. -/
namespace Whippet.Web
open Lib Primitives Ports
open Indexer (Text)

/-- What the wallet leaves to others: the browser's functions, the curve and the derivation of the first release. -/
structure Platform where
  /-- NFKD of a text with more than ASCII characters and white space. -/
  normalize : Text → Text
  pbkdf2 : Bytes → Bytes → ℕ → Bytes
  hmacSha512 : Bytes → Bytes → Bytes
  hmacSha512_length : ∀ key data, (hmacSha512 key data).length = 64
  legacyMnemonicToPrivateKey : Text → Bytes
  getPublicKey : Bytes → Except String Bytes

/-- NFKD of an ASCII character or white space. The others among the spaces have no decomposition. -/
def nfkdChar (c : Char) : Char :=
  if c.toNat ∈ [0xa0, 0x202f, 0x205f, 0x3000] ∨ (0x2000 ≤ c.toNat ∧ c.toNat ≤ 0x200a) then ' ' else c

def curveOrder : ℕ := 0xfffffffffffffffffffffffffffffffebaaedce6af48a03bbfd25e8cd0364141

def hardened : ℕ := 0x80000000

def whippetKeyIndices : List ℕ := [0, 3, 0]

structure ExtendedKey where
  key : Bytes
  chainCode : Bytes
  deriving DecidableEq, Repr

namespace Platform
variable (platform : Platform)

def nfkd (t : Text) : Text :=
  if t.all fun c => c.toNat < 128 ∨ UapJs.isWhitespace c then t.map nfkdChar else platform.normalize t

def mnemonicToSeed (mnemonic passphrase : Text) : Bytes :=
  platform.pbkdf2 (textEncode (platform.nfkd mnemonic)) (textEncode (platform.nfkd ("mnemonic".toList ++ passphrase))) 2048

def masterKeyFromSeed (seed : Bytes) : Except String ExtendedKey := do
  let i := platform.hmacSha512 (textEncode "Bitcoin seed".toList) seed
  let key := i.take 32
  let k := beNat key
  failIf (k = 0 ∨ k ≥ curveOrder) "invalid seed: master key out of range"
  return ⟨key, (i.drop 32).take 32⟩

def deriveHardened (parent : ExtendedKey) (index : ℕ) : Except String ExtendedKey := do
  failIf (index ≥ hardened) ("hardened index out of range: " ++ toString index)
  let data := 0 :: parent.key ++ beBytes 4 (index + hardened)
  let i := platform.hmacSha512 parent.chainCode data
  let il := beNat (i.take 32)
  failIf (il ≥ curveOrder) "derived scalar out of range; use the next index"
  let childKey := (il + beNat parent.key) % curveOrder
  failIf (childKey = 0) "derived key is zero; use the next index"
  return ⟨beBytes 32 childKey, (i.drop 32).take 32⟩

def derivePath (seed : Bytes) (indices : List ℕ) : Except String ExtendedKey := do
  let node ← platform.masterKeyFromSeed seed
  indices.foldlM platform.deriveHardened node

def mnemonicToPrivateKey (mnemonic passphrase : Text) : Except String Bytes := do
  let seed := platform.mnemonicToSeed mnemonic passphrase
  let node ← platform.derivePath seed whippetKeyIndices
  return node.key

/-- PBKDF2 tells every two passwords apart. -/
def Collisionless : Prop := ∀ salt iterations, Function.Injective fun password => platform.pbkdf2 password salt iterations

/-- The functions on phrases and keys as the wallet has them. -/
def keys (crypto : Crypto) (list : WordList) : Keys where
  mnemonicToEntropy := mnemonicToEntropy crypto list
  entropyToMnemonic entropy := entropyToMnemonic crypto list entropy.1
  mnemonicToPrivateKey mnemonic := platform.mnemonicToPrivateKey mnemonic []
  legacyMnemonicToPrivateKey := platform.legacyMnemonicToPrivateKey
  getPublicKey := platform.getPublicKey
  generated entropy := by rw [mnemonicToEntropy_entropyToMnemonic entropy.2]; rfl

end Platform

/-- The key and the address of the wallet that `Wallet.create` gives for a phrase. -/
def keyAndAddress {ε : Type} (platform : Platform) (crypto : Crypto) (list : WordList) (storage : Option (Stored ε))
    (network : Value) (random : Entropy) (mnemonic : Text) : Except String (Option Bytes × Value) :=
  (Wallet.create crypto (platform.keys crypto list) storage network mnemonic random).map fun w => (w.privKey, w.address)

/-- Every gap between the words is one character that NFKD makes a space, and nothing stands around the words. -/
def SingleSpaced (mnemonic : Text) : Prop := mnemonic.map nfkdChar = joinWords (phraseWords mnemonic)

instance (mnemonic : Text) : Decidable (SingleSpaced mnemonic) := inferInstanceAs (Decidable (_ = _))

section
variable {ε : Type} {platform : Platform} {crypto : Crypto} {list : WordList} {storage : Option (Stored ε)}
  {network : Value} {random : Entropy} {mnemonic : Text} {entropy : Bytes} {words : List Text}

def withAddress (platform : Platform) (crypto : Crypto) (list : WordList) (network : Value) (privKey : Bytes) :
    Except String (Option Bytes × Value) :=
  (deriveAddressFromPrivKey crypto (platform.keys crypto list) privKey network).map fun address =>
    (some privKey, .text address)

theorem phraseWords_nil : phraseWords [] = [[]] := rfl

theorem ne_nil_of_mnemonicToEntropy (h : mnemonicToEntropy crypto list mnemonic = .ok entropy) : mnemonic ≠ [] := by
  rintro rfl
  obtain ⟨-, hmem, -⟩ := mnemonicToEntropy_eq_ok.mp h
  exact (list.lowercase [] (hmem [] (by simp [phraseWords_nil]))).1 rfl

theorem keyAndAddress_eq (h : mnemonicToEntropy crypto list mnemonic = .ok entropy) :
    keyAndAddress platform crypto list storage network random mnemonic =
      platform.mnemonicToPrivateKey mnemonic [] >>= withAddress platform crypto list network := by
  have hvalid : (platform.keys crypto list).mnemonicToEntropy mnemonic = .ok entropy := h
  have hkey : (platform.keys crypto list).mnemonicToPrivateKey mnemonic = platform.mnemonicToPrivateKey mnemonic [] := rfl
  simp only [keyAndAddress, Wallet.create, if_neg (ne_nil_of_mnemonicToEntropy h), hvalid, Wallet.init,
    Wallet.deriveFromMnemonic, hkey]
  cases platform.mnemonicToPrivateKey mnemonic [] with
  | error e => rfl
  | ok privKey =>
    simp only [Wallet.setKey, withAddress, ok_bind]
    cases deriveAddressFromPrivKey crypto (platform.keys crypto list) privKey network <;> rfl

theorem nfkd_eq_map (h : mnemonicToEntropy crypto list mnemonic = .ok entropy) :
    platform.nfkd mnemonic = mnemonic.map nfkdChar := by
  refine if_pos (List.all_eq_true.mpr fun c hc => decide_eq_true ?_)
  rcases mem_mnemonic h hc with hspace | ⟨-, hc⟩
  · exact .inr hspace
  · have hle : c.toNat ≤ 122 := hc
    exact .inl (by omega)

theorem nfkdChar_letter {c : Char} (h : 'a' ≤ c ∧ c ≤ 'z') : nfkdChar c = c := by
  have hhigh : c.toNat ≤ 122 := h.2
  refine if_neg ?_
  simp only [List.mem_cons, List.not_mem_nil, or_false]
  omega

theorem map_nfkdChar_joinWords (hmem : ∀ w ∈ words, w ∈ list.words) :
    (joinWords words).map nfkdChar = joinWords words := by
  have hword : ∀ w ∈ words, w.map nfkdChar = w := fun w hw =>
    (List.map_congr_left fun c hc => nfkdChar_letter ((list.lowercase w (hmem w hw)).2 c hc)).trans (List.map_id w)
  unfold joinWords
  induction words with
  | nil => rfl
  | cons w words ih =>
    obtain ⟨hw, hrest⟩ := List.forall_mem_cons.mp hword
    have ih := ih (fun w h => hmem w (List.mem_cons_of_mem _ h)) hrest
    cases words with
    | nil => rw [List.intercalate_singleton, hw]
    | cons next words =>
      rw [List.intercalate_cons_cons, List.map_append, List.map_append, hw, ih]
      rfl

/-- What PBKDF2 gets is the phrase of the entropy, for the phrases with single spaces and for no other. -/
theorem nfkd_eq_iff (platform : Platform) (h : mnemonicToEntropy crypto list mnemonic = .ok entropy) :
    platform.nfkd mnemonic = platform.nfkd (entropyToMnemonic crypto list entropy) ↔ SingleSpaced mnemonic := by
  obtain ⟨hlength, hmem, -⟩ := mnemonicToEntropy_eq_ok.mp h
  rw [nfkd_eq_map h, nfkd_eq_map (mnemonicToEntropy_entropyToMnemonic hlength),
    entropyToMnemonic_of_mnemonicToEntropy h, map_nfkdChar_joinWords hmem]
  rfl

theorem mnemonicToSeed_eq_iff (hpbkdf2 : platform.Collisionless)
    (h : mnemonicToEntropy crypto list mnemonic = .ok entropy) (passphrase : Text) :
    platform.mnemonicToSeed mnemonic passphrase =
      platform.mnemonicToSeed (entropyToMnemonic crypto list entropy) passphrase ↔ SingleSpaced mnemonic := by
  rw [← nfkd_eq_iff platform h]
  refine ⟨fun hseed => flatMap_utf8EncodeChar_injective (hpbkdf2 _ _ hseed), fun heq => ?_⟩
  rw [Platform.mnemonicToSeed, heq, Platform.mnemonicToSeed]

end

/-- A platform whose PBKDF2 gives back the password. The master key is 1 for one password and 2 for every other, and
each child has its parent's key. -/
def Platform.tellApart (password : Bytes) : Platform where
  normalize := id
  pbkdf2 password _ _ := password
  hmacSha512 key data :=
    if key = textEncode "Bitcoin seed".toList then
      beBytes 32 (if data = password then 1 else 2) ++ List.replicate 32 0
    else List.replicate 64 0
  hmacSha512_length key data := by
    split_ifs <;> simp [beBytes]
  legacyMnemonicToPrivateKey _ := List.replicate 32 1
  getPublicKey privKey := .ok (2 :: privKey)

namespace Platform
variable (password : Bytes)

theorem tellApart_collisionless : (tellApart password).Collisionless := fun _ _ _ _ h => h

theorem hmacSha512_tellApart (key data : Bytes) : (tellApart password).hmacSha512 key data =
    if key = textEncode "Bitcoin seed".toList then beBytes 32 (if data = password then 1 else 2) ++ List.replicate 32 0
    else List.replicate 64 0 := rfl

theorem tellApart_child {k index : ℕ} (hk : k = 1 ∨ k = 2) (hindex : index = 0 ∨ index = 3) :
    (tellApart password).deriveHardened ⟨beBytes 32 k, List.replicate 32 0⟩ index =
      .ok ⟨beBytes 32 k, List.replicate 32 0⟩ := by
  rcases hk with rfl | rfl <;> rcases hindex with rfl | rfl <;> rfl

theorem tellApart_master (seed : Bytes) : (tellApart password).masterKeyFromSeed seed =
    .ok ⟨beBytes 32 (if seed = password then 1 else 2), List.replicate 32 0⟩ := by
  rw [masterKeyFromSeed, hmacSha512_tellApart, if_pos rfl]
  split_ifs <;> rfl

theorem mnemonicToPrivateKey_tellApart (mnemonic passphrase : Text) :
    (tellApart password).mnemonicToPrivateKey mnemonic passphrase =
      .ok (beBytes 32 (if (tellApart password).mnemonicToSeed mnemonic passphrase = password then 1 else 2)) := by
  have hk : ∀ c : Prop, [Decidable c] → (if c then 1 else 2) = 1 ∨ (if c then 1 else 2) = 2 := fun c _ => by
    by_cases hc : c <;> simp [hc]
  simp only [mnemonicToPrivateKey, derivePath, tellApart_master, whippetKeyIndices, ok_bind, List.foldlM_cons,
    List.foldlM_nil, tellApart_child password (hk _) (.inl rfl), tellApart_child password (hk _) (.inr rfl)]
  rfl

end Platform

section
variable {crypto : Crypto} {list : WordList} {mnemonic : Text} {entropy : Bytes}

theorem keyAndAddress_of_singleSpaced {ε : Type} {platform : Platform} (hpbkdf2 : platform.Collisionless)
    (h : mnemonicToEntropy crypto list mnemonic = .ok entropy) (hspaced : SingleSpaced mnemonic)
    (storage : Option (Stored ε)) (network : Value) (random : Entropy) :
    keyAndAddress platform crypto list storage network random mnemonic =
      keyAndAddress platform crypto list storage network random (entropyToMnemonic crypto list entropy) := by
  obtain ⟨hlength, -, -⟩ := mnemonicToEntropy_eq_ok.mp h
  have hseed := (mnemonicToSeed_eq_iff hpbkdf2 h []).mpr hspaced
  rw [keyAndAddress_eq h, keyAndAddress_eq (mnemonicToEntropy_entropyToMnemonic hlength), Platform.mnemonicToPrivateKey,
    hseed, Platform.mnemonicToPrivateKey]

theorem keyAndAddress_tellApart_ne {ε : Type} (h : mnemonicToEntropy crypto list mnemonic = .ok entropy)
    (hspaced : ¬ SingleSpaced mnemonic) (storage : Option (Stored ε)) (random : Entropy) :
    ∃ platform : Platform, platform.Collisionless ∧
      keyAndAddress platform crypto list storage (.text "mainnet".toList) random mnemonic ≠
        keyAndAddress platform crypto list storage (.text "mainnet".toList) random
          (entropyToMnemonic crypto list entropy) := by
  obtain ⟨hlength, -, -⟩ := mnemonicToEntropy_eq_ok.mp h
  have hcanonical : mnemonicToEntropy crypto list (entropyToMnemonic crypto list entropy) = .ok entropy :=
    mnemonicToEntropy_entropyToMnemonic hlength
  let password := textEncode ((entropyToMnemonic crypto list entropy).map nfkdChar)
  have hcollisionless := Platform.tellApart_collisionless password
  have hone : (Platform.tellApart password).mnemonicToSeed (entropyToMnemonic crypto list entropy) [] = password :=
    congrArg textEncode (nfkd_eq_map hcanonical)
  have hother : (Platform.tellApart password).mnemonicToSeed mnemonic [] ≠ password :=
    fun hsame => hspaced ((mnemonicToSeed_eq_iff hcollisionless h []).mp (hsame.trans hone.symm))
  refine ⟨.tellApart password, hcollisionless, fun heq => ?_⟩
  rw [keyAndAddress_eq h, keyAndAddress_eq hcanonical, Platform.mnemonicToPrivateKey_tellApart, if_neg hother,
    Platform.mnemonicToPrivateKey_tellApart, if_pos hone, ok_bind, ok_bind] at heq
  have hkey : some (beBytes 32 2) = some (beBytes 32 1) := congrArg Prod.fst (Except.ok.inj heq)
  exact absurd hkey (by decide)

/-- Phrases of the same words give the same key and address, those of the phrase generated for their entropy, when
they have single spaces and only then. -/
theorem same_words_same_wallet_iff (crypto : Crypto) (list : WordList) {m₁ m₂ : Text} {entropy : Bytes}
    (h₁ : mnemonicToEntropy crypto list m₁ = .ok entropy) (h₂ : mnemonicToEntropy crypto list m₂ = .ok entropy) :
    (∀ platform : Platform, platform.Collisionless →
      ∀ (ε : Type) (storage : Option (Stored ε)) (network : Value) (random : Entropy),
        keyAndAddress platform crypto list storage network random m₁ =
            keyAndAddress platform crypto list storage network random m₂ ∧
          keyAndAddress platform crypto list storage network random m₂ =
            keyAndAddress platform crypto list storage network random (entropyToMnemonic crypto list entropy)) ↔
      SingleSpaced m₁ ∧ SingleSpaced m₂ := by
  constructor
  · intro hsame
    let random : Entropy := ⟨List.replicate 16 0, .inl rfl⟩
    constructor
    · by_contra hspaced
      obtain ⟨platform, hcollisionless, hne⟩ := keyAndAddress_tellApart_ne h₁ hspaced (none : Option (Stored Unit)) random
      obtain ⟨heq₁, heq₂⟩ := hsame platform hcollisionless Unit none (.text "mainnet".toList) random
      exact hne (heq₁.trans heq₂)
    · by_contra hspaced
      obtain ⟨platform, hcollisionless, hne⟩ := keyAndAddress_tellApart_ne h₂ hspaced (none : Option (Stored Unit)) random
      exact hne (hsame platform hcollisionless Unit none (.text "mainnet".toList) random).2
  · rintro ⟨hspaced₁, hspaced₂⟩ platform hcollisionless ε storage network random
    have heq₁ := keyAndAddress_of_singleSpaced hcollisionless h₁ hspaced₁ storage network random
    have heq₂ := keyAndAddress_of_singleSpaced hcollisionless h₂ hspaced₂ storage network random
    exact ⟨heq₁.trans heq₂.symm, heq₂⟩

def zeroPhrase (gap : String) : Text :=
  ("abandon" ++ gap ++ "abandon abandon abandon abandon abandon abandon abandon abandon abandon abandon about").toList

/-- Two spaces in the first gap: the same words and the same entropy, but another key. -/
theorem same_words_other_wallet :
    mnemonicToEntropy (.recorded []) wordlist (zeroPhrase " ") = .ok (List.replicate 16 0) ∧
      mnemonicToEntropy (.recorded []) wordlist (zeroPhrase "  ") = .ok (List.replicate 16 0) ∧
      (Platform.tellApart (textEncode (zeroPhrase " "))).Collisionless ∧
      keyAndAddress (.tellApart (textEncode (zeroPhrase " "))) (.recorded []) wordlist (none : Option (Stored Unit))
          (.text "mainnet".toList) ⟨List.replicate 16 0, .inl rfl⟩ (zeroPhrase "  ") ≠
        keyAndAddress (.tellApart (textEncode (zeroPhrase " "))) (.recorded []) wordlist (none : Option (Stored Unit))
          (.text "mainnet".toList) ⟨List.replicate 16 0, .inl rfl⟩ (zeroPhrase " ") := by
  refine ⟨by decide +kernel, by decide +kernel, Platform.tellApart_collisionless _, ?_⟩
  decide +kernel

/-- A no-break space in the first gap makes no difference. -/
theorem same_words_same_wallet_noBreak :
    mnemonicToEntropy (.recorded []) wordlist (zeroPhrase "\u00a0") = .ok (List.replicate 16 0) ∧
      keyAndAddress (.tellApart []) (.recorded []) wordlist (none : Option (Stored Unit)) (.text "mainnet".toList)
          ⟨List.replicate 16 0, .inl rfl⟩ (zeroPhrase "\u00a0") =
        keyAndAddress (.tellApart []) (.recorded []) wordlist (none : Option (Stored Unit)) (.text "mainnet".toList)
          ⟨List.replicate 16 0, .inl rfl⟩ (zeroPhrase " ") := by
  have hbreak : mnemonicToEntropy (.recorded []) wordlist (zeroPhrase "\u00a0") = .ok (List.replicate 16 0) := by
    decide +kernel
  have hspace : mnemonicToEntropy (.recorded []) wordlist (zeroPhrase " ") = .ok (List.replicate 16 0) := by
    decide +kernel
  have hspaced : SingleSpaced (zeroPhrase "\u00a0") ∧ SingleSpaced (zeroPhrase " ") := by decide +kernel
  exact ⟨hbreak, ((same_words_same_wallet_iff (.recorded []) wordlist hbreak hspace).mpr hspaced (.tellApart [])
    (Platform.tellApart_collisionless []) Unit none _ _).1⟩

end
end Whippet.Web
