import Whippet.Web.Wallet

/-! A locked wallet holds neither key nor phrase, and unlocking gives back what locking put away. -/
namespace Whippet.Web
open Lib Primitives
open Indexer (Text)

theorem Value.or_self (a : Value) : a.or a = a := ite_self a

theorem le_foldl_beNat (bytes : Bytes) (n : ℕ) :
    n ≤ bytes.foldl (fun n x => Nat.add (Nat.mul 256 n) x.toNat) n := by
  induction bytes generalizing n with
  | nil => exact le_rfl
  | cons b bytes ih =>
    have hstep : n ≤ Nat.add (Nat.mul 256 n) b.toNat := by
      change n ≤ 256 * n + b.toNat
      omega
    exact hstep.trans (ih _)

theorem beNat_cons_pos {b : UInt8} (hb : b ≠ 0) (bytes : Bytes) : 0 < beNat (b :: bytes) := by
  have hpos : 0 < b.toNat := Nat.pos_of_ne_zero fun h => hb (UInt8.toNat_inj.mp h)
  refine hpos.trans_le (le_trans ?_ (le_foldl_beNat bytes _))
  change b.toNat ≤ 256 * 0 + b.toNat
  omega

theorem base58Encode_ne_nil {b : UInt8} (hb : b ≠ 0) (bytes : Bytes) : base58Encode (b :: bytes) ≠ [] := by
  have hn : beNat (b :: bytes) ≠ 0 := (beNat_cons_pos hb bytes).ne'
  have hfuel : 2 * (b :: bytes).length = 2 * bytes.length + 1 + 1 := by
    rw [List.length_cons]
    omega
  unfold base58Encode
  rw [hfuel, base58Digits, if_neg hn]
  simp

theorem pubkeyAddressVersion?_ne_zero {network : Value} {version : UInt8}
    (h : pubkeyAddressVersion? network = some version) : version ≠ 0 := by
  unfold pubkeyAddressVersion? at h
  split_ifs at h <;> cases h <;> decide

section
variable {ε : Type} {crypto : Crypto} {keys : Keys} {cipher : Cipher ε} {replaceInvalid : Bytes → Text}

/-- The address of a key is never the empty text, which would count as no address. -/
theorem truthy_of_deriveAddressFromPrivKey {privKey : Bytes} {network : Value} {address : Text}
    (h : deriveAddressFromPrivKey crypto keys privKey network = .ok address) :
    (Value.text address).truthy = true := by
  unfold deriveAddressFromPrivKey at h
  cases hpub : keys.getPublicKey privKey with
  | error e => simp [hpub] at h
  | ok pubKey =>
    cases hversion : pubkeyAddressVersion? network with
    | none => simp [hpub, hversion] at h
    | some version =>
      have haddress : pubkeyToAddress crypto pubKey version = address := by simpa [hpub, hversion] using h
      have hne : address ≠ [] := haddress ▸ base58Encode_ne_nil (pubkeyAddressVersion?_ne_zero hversion) _
      simpa [Value.truthy] using hne

theorem textDecode_textEncode {t : Text} (h : (textEncode t).take 3 ≠ byteOrderMark) :
    textDecode replaceInvalid (textEncode t) = t := by
  have hdecode : (textEncode t).toByteArray.utf8Decode? = some t.toArray := List.utf8Decode?_utf8Encode
  simp only [textDecode, if_neg h, hdecode]

variable (crypto keys) in
/-- Both derivations of the phrase give an address on the network. -/
structure Derivable (mnemonic : Text) (network : Value) : Prop where
  current : ∃ privKey address, keys.mnemonicToPrivateKey mnemonic = .ok privKey ∧
    deriveAddressFromPrivKey crypto keys privKey network = .ok address
  legacy : ∃ address,
    deriveAddressFromPrivKey crypto keys (keys.legacyMnemonicToPrivateKey mnemonic) network = .ok address

variable (crypto keys) in
/-- The key and address are those of the phrase, in one of the two derivations. -/
structure KeyOf (mnemonic : Text) (network : Value) (privKey : Bytes) (address : Text) : Prop where
  derived : keys.mnemonicToPrivateKey mnemonic = .ok privKey ∨ keys.legacyMnemonicToPrivateKey mnemonic = privKey
  address_eq : deriveAddressFromPrivKey crypto keys privKey network = .ok address

namespace Wallet
variable {w : Wallet ε} {stored : Stored ε} {mnemonic : Text} {network : Value} {privKey : Bytes} {address : Text}

theorem setKey_eq (path : String) (h : deriveAddressFromPrivKey crypto keys privKey w.network = .ok address) :
    w.setKey crypto keys privKey path =
      (.ok (), { w with privKey := some privKey, address := .text address, derivationPath := some path }) := by
  simp [setKey, h]

theorem checkAddress_of_same {stored : Value} (h : ¬(stored.truthy = true ∧ stored ≠ w.address)) :
    checkAddress crypto keys w stored mnemonic = (.ok true, { w with locked := false }) :=
  if_neg h

theorem checkAddress_of_ne {stored : Value} (h : stored.truthy = true ∧ stored ≠ w.address)
    (hlegacy : deriveAddressFromPrivKey crypto keys (keys.legacyMnemonicToPrivateKey mnemonic) w.network =
      .ok address) :
    checkAddress crypto keys w stored mnemonic =
      let w' := { w with
        privKey := some (keys.legacyMnemonicToPrivateKey mnemonic), address := .text address
        derivationPath := some "legacy (pre-BIP39-fix)" }
      if stored = .text address then (.ok true, { w' with usesLegacyDerivation := some true, locked := false })
      else (.error "Stored address does not match the decrypted key; storage may be corrupt",
        { w' with privKey := none, mnemonic := none }) := by
  rw [checkAddress, if_pos h, deriveLegacyFromMnemonic, setKey_eq _ hlegacy]

def opened (w : Wallet ε) (mnemonic : Text) (network : Value) (privKey : Bytes) (address : Text) (legacy : Bool) :
    Wallet ε :=
  { w with
    network := network, mnemonic := some mnemonic, privKey := some privKey, address := .text address, locked := false
    derivationPath := some (if legacy then "legacy (pre-BIP39-fix)" else whippetKeyPath)
    usesLegacyDerivation := some legacy }

theorem openPhrase_eq (hkey : keys.mnemonicToPrivateKey mnemonic = .ok privKey)
    (haddress : deriveAddressFromPrivKey crypto keys privKey (stored.network.or w.network) = .ok address) :
    w.openPhrase crypto keys stored mnemonic =
      checkAddress crypto keys
        { w.opened mnemonic (stored.network.or w.network) privKey address false with locked := w.locked }
        stored.address mnemonic := by
  have hset := setKey_eq (w := { w with network := stored.network.or w.network, mnemonic := some mnemonic })
    whippetKeyPath haddress
  simp only [openPhrase, deriveFromMnemonic, hkey, hset]
  rfl

theorem openPhrase_current (hkey : keys.mnemonicToPrivateKey mnemonic = .ok privKey)
    (haddress : deriveAddressFromPrivKey crypto keys privKey (stored.network.or w.network) = .ok address)
    (hstored : ¬(stored.address.truthy = true ∧ stored.address ≠ .text address)) :
    w.openPhrase crypto keys stored mnemonic =
      (.ok true, w.opened mnemonic (stored.network.or w.network) privKey address false) := by
  rw [openPhrase_eq hkey haddress]
  exact checkAddress_of_same hstored

theorem openPhrase_other {legacyAddress : Text} (hkey : keys.mnemonicToPrivateKey mnemonic = .ok privKey)
    (haddress : deriveAddressFromPrivKey crypto keys privKey (stored.network.or w.network) = .ok address)
    (hlegacy : deriveAddressFromPrivKey crypto keys (keys.legacyMnemonicToPrivateKey mnemonic)
      (stored.network.or w.network) = .ok legacyAddress)
    (hstored : stored.address.truthy = true ∧ stored.address ≠ .text address) :
    w.openPhrase crypto keys stored mnemonic =
      let w' := w.opened mnemonic (stored.network.or w.network) (keys.legacyMnemonicToPrivateKey mnemonic)
        legacyAddress true
      if stored.address = .text legacyAddress then (.ok true, w')
      else (.error "Stored address does not match the decrypted key; storage may be corrupt",
        { w' with privKey := none, mnemonic := none, locked := w.locked, usesLegacyDerivation := some false }) := by
  rw [openPhrase_eq hkey haddress]
  exact checkAddress_of_ne hstored hlegacy

variable (crypto keys) in
/-- What holds of the wallet between calls. -/
structure Inv (w : Wallet ε) : Prop where
  locked : w.locked = true → w.privKey = none ∧ w.mnemonic = none
  phrase : ∀ mnemonic, w.mnemonic = some mnemonic → (keys.mnemonicToEntropy mnemonic).isOk = true ∧
    ∃ privKey address, w.privKey = some privKey ∧ w.address = .text address ∧
      KeyOf crypto keys mnemonic w.network privKey address

theorem Inv.of_opened {legacy : Bool} (hvalid : (keys.mnemonicToEntropy mnemonic).isOk = true)
    (hkey : KeyOf crypto keys mnemonic network privKey address) :
    Inv crypto keys (w.opened mnemonic network privKey address legacy) where
  locked h := by cases h
  phrase m hm := by
    cases hm
    exact ⟨hvalid, privKey, address, rfl, rfl, hkey⟩

theorem Inv.of_cleared (hkey : w.privKey = none) (hphrase : w.mnemonic = none) : Inv crypto keys w where
  locked _ := ⟨hkey, hphrase⟩
  phrase m hm := by simp [hphrase] at hm

theorem Inv.openPhrase (hvalid : (keys.mnemonicToEntropy mnemonic).isOk = true)
    (hderive : Derivable crypto keys mnemonic (stored.network.or w.network)) :
    Inv crypto keys (w.openPhrase crypto keys stored mnemonic).2 := by
  obtain ⟨⟨privKey, address, hkey, haddress⟩, legacyAddress, hlegacy⟩ := hderive
  by_cases hstored : stored.address.truthy = true ∧ stored.address ≠ .text address
  · rw [openPhrase_other hkey haddress hlegacy hstored]
    dsimp only
    split_ifs
    · exact .of_opened hvalid ⟨.inr rfl, hlegacy⟩
    · exact .of_cleared rfl rfl
  · rw [openPhrase_current hkey haddress hstored]
    exact .of_opened hvalid ⟨.inl hkey, haddress⟩

variable {passphrase : Text}

theorem isOk_of_phrase
    (h : phrase keys cipher replaceInvalid stored passphrase = .ok (some mnemonic)) :
    (keys.mnemonicToEntropy mnemonic).isOk = true := by
  unfold phrase at h
  split at h
  · cases h
  · split at h
    · cases h
    · cases h
    · dsimp only at h
      split at h
      · cases h
      · next hentropy =>
        cases h
        rw [hentropy]
        rfl

variable (crypto keys cipher replaceInvalid) in
/-- The record that a call of `unlock` finds names a network on which the phrase in it has its keys. -/
def Derives (w : Wallet ε) : Call ε → Prop
  | .unlock passphrase => ∀ stored mnemonic, w.storage = some stored →
      phrase keys cipher replaceInvalid stored passphrase = .ok (some mnemonic) →
        Derivable crypto keys mnemonic (stored.network.or w.network)
  | .lock _ _ | .store _ => True

theorem Inv.unlock (hinv : Inv crypto keys w)
    (hderive : Derives crypto keys cipher replaceInvalid w (.unlock passphrase)) :
    Inv crypto keys (w.unlock crypto keys cipher replaceInvalid passphrase).2 := by
  unfold Wallet.unlock
  split
  · exact hinv
  · next stored hstored =>
    split
    · exact hinv
    · exact hinv
    · next mnemonic hphrase => exact .openPhrase (isOk_of_phrase hphrase) (hderive stored mnemonic hstored hphrase)

variable {w' : Wallet ε} {random : Bytes}

theorem lock_eq_ok (h : w.lock cipher passphrase random = (.ok (), w')) :
    ∃ mnemonic encrypted, w.mnemonic = some mnemonic ∧
      cipher.encrypt (textEncode mnemonic) passphrase random = .ok encrypted ∧
      w' = { w with
        storage := some ⟨some encrypted, w.address, w.network⟩
        privKey := none, mnemonic := none, locked := true } := by
  unfold lock at h
  split at h
  · cases h
  · cases h
  · next mnemonic _ hmnemonic =>
    split_ifs at h
    · cases h
    · split at h
      · cases h
      · next encrypted hencrypt =>
        cases h
        exact ⟨mnemonic, encrypted, hmnemonic, hencrypt, rfl⟩

theorem lock_eq_error {e : String} (h : w.lock cipher passphrase random = (.error e, w')) : w' = w := by
  unfold lock at h
  split at h
  · cases h; rfl
  · cases h; rfl
  · split_ifs at h
    · cases h; rfl
    · split at h
      · cases h; rfl
      · cases h

theorem Inv.lock (hinv : Inv crypto keys w) (passphrase : Text) (random : Bytes) :
    Inv crypto keys (w.lock cipher passphrase random).2 := by
  cases hlock : w.lock cipher passphrase random with
  | mk outcome w' =>
    cases outcome with
    | error e => exact lock_eq_error hlock ▸ hinv
    | ok =>
      obtain ⟨mnemonic, encrypted, -, -, rfl⟩ := lock_eq_ok hlock
      exact .of_cleared rfl rfl

theorem Inv.step (hinv : Inv crypto keys w) {call : Call ε} (hok : Derives crypto keys cipher replaceInvalid w call) :
    Inv crypto keys (w.step crypto keys cipher replaceInvalid call) := by
  cases call with
  | lock passphrase random => exact hinv.lock passphrase random
  | unlock passphrase => exact hinv.unlock hok
  | store stored => exact ⟨hinv.locked, hinv.phrase⟩

variable (crypto keys) in
/-- The wallet is as `create` or `restore` gives it, whatever was stored before. -/
inductive Constructed : Wallet ε → Prop
  | create {storage network mnemonic entropy w} :
      Wallet.create crypto keys storage network mnemonic entropy = .ok w → Constructed w
  | restore {storage network w} : Wallet.restore storage network = .ok w → Constructed w

theorem Inv.init (hunlocked : w.locked = false)
    (hvalid : (keys.mnemonicToEntropy mnemonic).isOk = true) (h : w.init crypto keys mnemonic = .ok w') :
    Inv crypto keys w' := by
  unfold Wallet.init deriveFromMnemonic at h
  cases hkey : keys.mnemonicToPrivateKey mnemonic with
  | error e => simp [hkey] at h
  | ok privKey =>
    cases haddress : deriveAddressFromPrivKey crypto keys privKey w.network with
    | error e => simp [hkey, setKey, haddress] at h
    | ok address =>
      simp only [hkey, setKey, haddress, Except.ok.injEq] at h
      subst h
      exact {
        locked hl := by simp [hunlocked] at hl
        phrase m hm := by
          cases hm
          exact ⟨hvalid, privKey, address, rfl, rfl, .inl hkey, haddress⟩ }

theorem Inv.of_constructed (h : Constructed crypto keys w) : Inv crypto keys w := by
  cases h with
  | create h =>
    unfold Wallet.create at h
    split_ifs at h
    · exact .init rfl (keys.generated _) h
    · split at h
      · cases h
      · next hentropy => exact .init rfl (by rw [hentropy]; rfl) h
  | restore h =>
    unfold Wallet.restore at h
    split at h
    · cases h
    · split at h
      · cases h
      · cases h
        exact .of_cleared rfl rfl

variable (crypto keys) in
/-- The phrase survives the encoding, its current derivation does not throw, and the two derivations have one
address only if they have one key. -/
structure Restorable (mnemonic : Text) (network : Value) : Prop where
  unmarked : (textEncode mnemonic).take 3 ≠ byteOrderMark
  current : ∃ privKey address, keys.mnemonicToPrivateKey mnemonic = .ok privKey ∧
    deriveAddressFromPrivKey crypto keys privKey network = .ok address
  apart : ∀ privKey address, keys.mnemonicToPrivateKey mnemonic = .ok privKey →
    deriveAddressFromPrivKey crypto keys privKey network = .ok address →
    deriveAddressFromPrivKey crypto keys (keys.legacyMnemonicToPrivateKey mnemonic) network = .ok address →
      keys.legacyMnemonicToPrivateKey mnemonic = privKey

theorem openPhrase_restores (hkey : KeyOf crypto keys mnemonic (stored.network.or w.network) privKey address)
    (hstored : stored.address = .text address)
    (hrest : Restorable crypto keys mnemonic (stored.network.or w.network)) :
    ∃ w', w.openPhrase crypto keys stored mnemonic = (.ok true, w') ∧
      w'.locked = false ∧ w'.privKey = some privKey ∧ w'.address = .text address := by
  obtain ⟨currentKey, currentAddress, hcurrent, hcurrentAddress⟩ := hrest.current
  by_cases hsame : currentAddress = address
  · -- The current derivation has the stored address, so it is the one that is taken.
    subst hsame
    have hk : currentKey = privKey := by
      rcases hkey.derived with hd | hd
      · exact Except.ok.inj (hcurrent.symm.trans hd)
      · exact (hrest.apart currentKey currentAddress hcurrent hcurrentAddress (hd ▸ hkey.address_eq)).symm.trans hd
    subst hk
    exact ⟨_, openPhrase_current hcurrent hcurrentAddress (by simp [hstored]), rfl, rfl, rfl⟩
  · have hd : keys.legacyMnemonicToPrivateKey mnemonic = privKey := by
      refine hkey.derived.resolve_left fun hd => hsame ?_
      cases hcurrent.symm.trans hd
      exact Except.ok.inj (hcurrentAddress.symm.trans hkey.address_eq)
    subst hd
    have hne : stored.address.truthy = true ∧ stored.address ≠ .text currentAddress := by
      rw [hstored]
      exact ⟨truthy_of_deriveAddressFromPrivKey hkey.address_eq, fun h => hsame (Value.text.inj h).symm⟩
    refine ⟨_, (openPhrase_other hcurrent hcurrentAddress hkey.address_eq hne).trans (if_pos hstored), rfl, rfl, rfl⟩

theorem phrase_of_encrypt {encrypted : ε}
    (hencrypt : cipher.encrypt (textEncode mnemonic) passphrase random = .ok encrypted)
    (hunmarked : (textEncode mnemonic).take 3 ≠ byteOrderMark)
    (hvalid : (keys.mnemonicToEntropy mnemonic).isOk = true) (recordAddress recordNetwork : Value) :
    phrase keys cipher replaceInvalid ⟨some encrypted, recordAddress, recordNetwork⟩ passphrase =
      .ok (some mnemonic) := by
  have hdecrypt := cipher.decrypt_encrypt _ _ _ _ hencrypt
  cases hentropy : keys.mnemonicToEntropy mnemonic with
  | error e => simp [hentropy, Except.isOk, Except.toBool] at hvalid
  | ok entropy => simp only [phrase, hdecrypt, textDecode_textEncode hunmarked, hentropy]

theorem unlock_lock (hinv : Inv crypto keys w)
    (hlock : w.lock cipher passphrase random = (.ok (), w'))
    (hrest : ∀ mnemonic, w.mnemonic = some mnemonic → Restorable crypto keys mnemonic w.network) :
    ∃ w'', w'.unlock crypto keys cipher replaceInvalid passphrase = (.ok true, w'') ∧
      w''.locked = false ∧ w''.privKey = w.privKey ∧ w''.address = w.address := by
  obtain ⟨mnemonic, encrypted, hmnemonic, hencrypt, rfl⟩ := lock_eq_ok hlock
  obtain ⟨hvalid, privKey, address, hprivKey, haddress, hkey⟩ := hinv.phrase mnemonic hmnemonic
  have hrest := hrest mnemonic hmnemonic
  rw [← Value.or_self w.network] at hkey hrest
  rw [hprivKey, haddress]
  simp only [Wallet.unlock, phrase_of_encrypt hencrypt hrest.unmarked hvalid]
  exact openPhrase_restores hkey rfl hrest

end Wallet

/-- Locking and unlocking, from any wallet that was created or restored and with any changes of the stored record
in between, as long as each record that is opened names a network on which the keys of its phrase exist. -/
theorem locked_holds_no_secrets (w₀ : Wallet ε) (h₀ : Wallet.Constructed crypto keys w₀) (calls : List (Call ε))
    (h : Admissible (Wallet.step crypto keys cipher replaceInvalid)
      (Wallet.Derives crypto keys cipher replaceInvalid) w₀ calls) :
    let w := run (Wallet.step crypto keys cipher replaceInvalid) w₀ calls
    (w.locked = true → w.privKey = none ∧ w.mnemonic = none) ∧
    ∀ passphrase random w', w.lock cipher passphrase random = (.ok (), w') →
      (∀ mnemonic, w.mnemonic = some mnemonic → Wallet.Restorable crypto keys mnemonic w.network) →
        ∃ w'', w'.unlock crypto keys cipher replaceInvalid passphrase = (.ok true, w'') ∧
          w''.locked = false ∧ w''.privKey = w.privKey ∧ w''.address = w.address := by
  have hinv : Wallet.Inv crypto keys (run (Wallet.step crypto keys cipher replaceInvalid) w₀ calls) :=
    run_invariant (P := fun _ w => Wallet.Inv crypto keys w) (.of_constructed h₀) (fun _ _ _ hw hok => hw.step hok) h
  exact ⟨hinv.locked, fun passphrase random w' hlock hrest => Wallet.unlock_lock hinv hlock hrest⟩

end

def samplePhrase : Text := "legal winner".toList

def samplePassphrase : Text := "horse".toList

def sampleKeys : Keys where
  mnemonicToEntropy m := if m = samplePhrase then .ok (List.replicate 16 0x7f) else .error "Invalid mnemonic"
  entropyToMnemonic _ := samplePhrase
  mnemonicToPrivateKey _ := .ok (List.replicate 32 1)
  legacyMnemonicToPrivateKey _ := List.replicate 32 2
  getPublicKey privKey := .ok (2 :: privKey)
  generated _ := by decide +kernel

/-- A cipher that keeps the passphrase next to the text, and so gives nothing for any other. -/
def sampleCipher : Cipher (Bytes × Text) where
  encrypt plaintext passphrase _ := .ok (plaintext, passphrase)
  decrypt e passphrase := .ok (if e.2 = passphrase then some e.1 else none)
  decrypt_encrypt := by
    rintro plaintext passphrase random e h
    cases h
    simp

def sampleCrypto : Crypto := { Crypto.recorded [] with ripemd160 := List.take 20 }

def sampleLegacyAddress : Text := pubkeyToAddress sampleCrypto (2 :: List.replicate 32 2) 0x49

def sampleStored (network : String) : Stored (Bytes × Text) :=
  ⟨some (textEncode samplePhrase, samplePassphrase), .text sampleLegacyAddress, .text network.toList⟩

def sampleRestored (network : String) : Wallet (Bytes × Text) :=
  { storage := some (sampleStored network), network := .text network.toList, address := .text sampleLegacyAddress
    locked := true }

theorem sampleRestored_constructed (network : String) (h : network.toList ≠ []) :
    Wallet.Constructed sampleCrypto sampleKeys (sampleRestored network) := by
  have haddress : sampleLegacyAddress ≠ [] := base58Encode_ne_nil (by decide) _
  refine @Wallet.Constructed.restore _ _ _ (some (sampleStored network)) (.text network.toList) _ ?_
  simp [Wallet.restore, sampleStored, sampleRestored, Value.or, Value.truthy, h, haddress]

theorem phrase_sampleStored (network : String) :
    Wallet.phrase sampleKeys sampleCipher (fun _ => []) (sampleStored network) samplePassphrase =
      .ok (some samplePhrase) :=
  have hencrypt : sampleCipher.encrypt (textEncode samplePhrase) samplePassphrase [] =
    .ok (textEncode samplePhrase, samplePassphrase) := rfl
  Wallet.phrase_of_encrypt hencrypt (by decide +kernel) (by decide +kernel) _ _

theorem sampleKey_current : sampleKeys.mnemonicToPrivateKey samplePhrase = .ok (List.replicate 32 1) := rfl

theorem deriveAddressFromPrivKey_regtest (privKey : Bytes) :
    deriveAddressFromPrivKey sampleCrypto sampleKeys privKey (.text "regtest".toList) =
      .ok (pubkeyToAddress sampleCrypto (2 :: privKey) 0x49) := by
  have hversion : pubkeyAddressVersion? (.text "regtest".toList) = some 0x49 := by decide
  simp only [deriveAddressFromPrivKey, sampleKeys, hversion]

theorem sampleAddress_ne : pubkeyToAddress sampleCrypto (2 :: List.replicate 32 1) 0x49 ≠ sampleLegacyAddress := by
  decide +kernel

theorem unlock_sampleRestored_regtest :
    (sampleRestored "regtest").unlock sampleCrypto sampleKeys sampleCipher (fun _ => []) samplePassphrase =
      (.ok true, (sampleRestored "regtest").opened samplePhrase (.text "regtest".toList) (List.replicate 32 2)
        sampleLegacyAddress true) := by
  have hstored : (sampleStored "regtest").address.truthy = true ∧
      (sampleStored "regtest").address ≠ .text (pubkeyToAddress sampleCrypto (2 :: List.replicate 32 1) 0x49) :=
    ⟨truthy_of_deriveAddressFromPrivKey (deriveAddressFromPrivKey_regtest (List.replicate 32 2)),
      fun h => sampleAddress_ne (Value.text.inj h).symm⟩
  have hopen := Wallet.openPhrase_other (w := sampleRestored "regtest") sampleKey_current
    (deriveAddressFromPrivKey_regtest _) (deriveAddressFromPrivKey_regtest _) hstored
  simp only [Wallet.unlock, sampleRestored, phrase_sampleStored]
  exact hopen.trans (if_pos rfl)

theorem restorable_regtest : Wallet.Restorable sampleCrypto sampleKeys samplePhrase (.text "regtest".toList) where
  unmarked := by decide +kernel
  current := ⟨_, _, rfl, deriveAddressFromPrivKey_regtest _⟩
  apart := by
    rintro privKey address hkey haddress hlegacy
    cases hkey
    rw [deriveAddressFromPrivKey_regtest] at haddress hlegacy
    exact absurd (Except.ok.inj (haddress.trans hlegacy.symm)) sampleAddress_ne

/-- A wallet with a legacy key is opened, locked and opened again. -/
theorem locked_holds_no_secrets_legacy :
    let w := run (Wallet.step sampleCrypto sampleKeys sampleCipher fun _ => []) (sampleRestored "regtest")
      [.unlock samplePassphrase]
    w.privKey = some (List.replicate 32 2) ∧
    ∃ w'', (w.lock sampleCipher samplePassphrase []).2.unlock sampleCrypto sampleKeys sampleCipher (fun _ => [])
        samplePassphrase = (.ok true, w'') ∧
      w''.locked = false ∧ w''.privKey = w.privKey ∧ w''.address = w.address := by
  have hderive : Derivable sampleCrypto sampleKeys samplePhrase (.text "regtest".toList) :=
    ⟨⟨_, _, rfl, deriveAddressFromPrivKey_regtest _⟩, _, deriveAddressFromPrivKey_regtest _⟩
  have hadm : Admissible (Wallet.step sampleCrypto sampleKeys sampleCipher fun _ => [])
      (Wallet.Derives sampleCrypto sampleKeys sampleCipher fun _ => []) (sampleRestored "regtest")
      [.unlock samplePassphrase] := by
    refine ⟨?_, trivial⟩
    rintro stored mnemonic hstored hphrase
    cases hstored
    cases (phrase_sampleStored "regtest").symm.trans hphrase
    exact hderive
  have hthm := locked_holds_no_secrets (sampleRestored "regtest") (sampleRestored_constructed _ (by decide))
    [.unlock samplePassphrase] hadm
  have hrun : run (Wallet.step sampleCrypto sampleKeys sampleCipher fun _ => []) (sampleRestored "regtest")
      [.unlock samplePassphrase] = (sampleRestored "regtest").opened samplePhrase (.text "regtest".toList)
        (List.replicate 32 2) sampleLegacyAddress true := congrArg Prod.snd unlock_sampleRestored_regtest
  rw [hrun] at hthm ⊢
  refine ⟨rfl, hthm.2 samplePassphrase [] _ rfl ?_⟩
  rintro mnemonic hmnemonic
  cases hmnemonic
  exact restorable_regtest

/-- A record with an unknown network: `unlock` throws after it has set the phrase and the key, and the wallet still
says that it is locked. -/
theorem locked_holds_secrets_after_unknown_network :
    Wallet.Constructed sampleCrypto sampleKeys (sampleRestored "bogus") ∧
    let w := run (Wallet.step sampleCrypto sampleKeys sampleCipher fun _ => []) (sampleRestored "bogus")
      [.unlock samplePassphrase]
    w.locked = true ∧ w.privKey = some (List.replicate 32 1) ∧ w.mnemonic = some samplePhrase := by
  refine ⟨sampleRestored_constructed _ (by decide), ?_⟩
  have hversion : pubkeyAddressVersion? (.text "bogus".toList) = none := by decide
  have hnetwork : (sampleStored "bogus").network.or (.text "bogus".toList) = .text "bogus".toList := Value.or_self _
  have hderive : deriveAddressFromPrivKey sampleCrypto sampleKeys (List.replicate 32 1) (.text "bogus".toList) =
      .error ("Unknown network: " ++ String.ofList "bogus".toList) := by
    simp only [deriveAddressFromPrivKey, sampleKeys, hversion, Value.name]
  simp only [run_cons, run_nil, Wallet.step, Wallet.unlock, sampleRestored, phrase_sampleStored, Wallet.openPhrase,
    Wallet.deriveFromMnemonic, sampleKey_current, Wallet.setKey, hnetwork, hderive, and_self]

end Whippet.Web
