import Mathlib.Data.List.TakeWhile
import Whippet.Lib.Bits
import Whippet.Lib.SplitRuns
import Whippet.Web.Transfer
import Whippet.Web.Wallet
import Whippet.Web.WordList

/-! Recovery phrases: the bytes behind a phrase and some bits of their hash, written eleven bits to a word. -/
namespace Whippet.Web
open Lib Primitives Ports
open Indexer (Text)

def IsWord (w : Text) : Prop := w ≠ [] ∧ ∀ c ∈ w, UapJs.isWhitespace c = false

/-- A table of words, one for each eleven bits. -/
structure WordTable where
  words : List Text
  length_eq : words.length = 2048
  nodup : words.Nodup
  isWord : ∀ w ∈ words, IsWord w

theorem isWord_of_lowercase {w : Text} (hne : w ≠ []) (hletters : ∀ c ∈ w, 'a' ≤ c ∧ c ≤ 'z') : IsWord w := by
  refine ⟨hne, fun c hc => ?_⟩
  have hlow : 97 ≤ c.toNat := (hletters c hc).1
  have hhigh : c.toNat ≤ 122 := (hletters c hc).2
  simp only [UapJs.isWhitespace, List.mem_cons, List.not_mem_nil, or_false, decide_eq_false_iff_not]
  omega

instance : Coe WordList WordTable where
  coe list := ⟨list.words, list.length_eq, list.nodup, fun w hw =>
    isWord_of_lowercase (list.lowercase w hw).1 (list.lowercase w hw).2⟩

section
variable (crypto : Crypto)

/-- The bytes that hold the checksum, and how many of their bits it has. -/
def calculateBIP39Checksum (entropy : Bytes) : Bytes × ℕ :=
  let checksumBits := entropy.length * 8 / 32
  let checksumBytes := (checksumBits + 7) / 8
  ((crypto.sha256 entropy).bytes.take checksumBytes, checksumBits)

def entropyToBits (entropy : Bytes) : List Bool := encodeBits 8 (entropy.map UInt8.toNat)

def checksumToBits (checksum : Bytes) : List Bool := encodeBits 8 (checksum.map UInt8.toNat)

def bitsToEntropy (bits : List Bool) : Bytes := (decodeBits 8 bits).map UInt8.ofNat

def expectedChecksumBits (entropy : Bytes) : List Bool :=
  let checksumInfo := calculateBIP39Checksum crypto entropy
  (checksumToBits checksumInfo.1).take checksumInfo.2

variable (list : WordTable)

def wordAt (i : ℕ) : Text := list.words.getD i []

def joinWords (words : List Text) : Text := [' '].intercalate words

def entropyToMnemonic (entropy : Bytes) : Text :=
  let bits := entropyToBits entropy ++ expectedChecksumBits crypto entropy
  let mnemonicIndices := decodeBits 11 bits
  joinWords (mnemonicIndices.map (wordAt list))

/-- `mnemonic.trim().split(/\s+/)`. -/
def phraseWords (mnemonic : Text) : List Text := splitRuns UapJs.isWhitespace (trim mnemonic)

def wordIndex (word : Text) : Except String ℕ :=
  if word ∈ list.words then .ok (list.words.idxOf word)
  else .error ("invalid word: \"" ++ String.ofList word ++ "\" not in BIP39 wordlist")

def mnemonicToEntropy (mnemonic : Text) : Except String Bytes := do
  let words := phraseWords mnemonic
  failIf (words.length ≠ 12 ∧ words.length ≠ 24) "Mnemonic must be 12 or 24 words"
  let indices ← words.mapM (wordIndex list)
  let bits := encodeBits 11 indices
  let entropyBits := if words.length = 12 then 128 else 256
  let entropy := bitsToEntropy (bits.take entropyBits)
  failIf (bits.drop entropyBits ≠ expectedChecksumBits crypto entropy) "BIP39 checksum validation failed"
  return entropy

end

/-! The bits of a phrase. -/
section
variable {crypto : Crypto} {list : WordTable} {entropy : Bytes} {bits : List Bool} {word : Text} {words : List Text} {i : ℕ}

theorem entropyToBits_bitsToEntropy {k : ℕ} (h : bits.length = k * 8) :
    (bitsToEntropy bits).length = k ∧ entropyToBits (bitsToEntropy bits) = bits := by
  obtain ⟨hlength, hlt, hencode⟩ := decodeBits_spec (by decide) h
  refine ⟨by rw [bitsToEntropy, List.length_map, hlength], ?_⟩
  have hbytes : (bitsToEntropy bits).map UInt8.toNat = decodeBits 8 bits := by
    rw [bitsToEntropy, List.map_map]
    exact (List.map_congr_left fun n hn => UInt8.toNat_ofNat_of_lt (hlt n hn)).trans (List.map_id _)
  rw [entropyToBits, hbytes, hencode]

theorem bitsToEntropy_entropyToBits (entropy : Bytes) : bitsToEntropy (entropyToBits entropy) = entropy := by
  have hlt : ∀ n ∈ entropy.map UInt8.toNat, n < 2 ^ 8 := by
    intro n hn
    obtain ⟨b, -, rfl⟩ := List.mem_map.mp hn
    exact b.toNat_lt
  rw [bitsToEntropy, entropyToBits, decodeBits_encodeBits (by decide) hlt, List.map_map]
  exact (List.map_congr_left fun b _ => UInt8.ofNat_toNat).trans (List.map_id _)

theorem length_entropyToBits (entropy : Bytes) : (entropyToBits entropy).length = entropy.length * 8 := by
  rw [entropyToBits, length_encodeBits, List.length_map]

theorem length_expectedChecksumBits (h : entropy.length = 16 ∨ entropy.length = 32) :
    (expectedChecksumBits crypto entropy).length = entropy.length / 4 := by
  have hhash := (crypto.sha256 entropy).size_eq
  simp only [expectedChecksumBits, calculateBIP39Checksum, checksumToBits, List.length_take, length_encodeBits,
    List.length_map]
  omega

theorem wordAt_mem (hi : i < 2048) : wordAt list i ∈ list.words := by
  have hlt : i < list.words.length := by rw [list.length_eq]; exact hi
  rw [wordAt, List.getD, List.getElem?_eq_getElem hlt]
  exact List.getElem_mem hlt

theorem idxOf_wordAt (hi : i < 2048) : list.words.idxOf (wordAt list i) = i := by
  have hlt : i < list.words.length := by rw [list.length_eq]; exact hi
  rw [wordAt, List.getD, List.getElem?_eq_getElem hlt]
  exact list.nodup.idxOf_getElem i hlt

theorem wordAt_idxOf (h : word ∈ list.words) : wordAt list (list.words.idxOf word) = word := by
  have hlt := List.idxOf_lt_length_iff.mpr h
  rw [wordAt, List.getD, List.getElem?_eq_getElem hlt]
  exact List.getElem_idxOf hlt

theorem idxOf_lt (h : word ∈ list.words) : list.words.idxOf word < 2 ^ 11 := by
  have hlt := List.idxOf_lt_length_iff.mpr h
  rwa [list.length_eq] at hlt

theorem mapM_wordIndex {indices : List ℕ} : words.mapM (wordIndex list) = .ok indices ↔
    (∀ w ∈ words, w ∈ list.words) ∧ indices = words.map list.words.idxOf := by
  have hall : (∀ w ∈ words, w ∈ list.words) → words.mapM (wordIndex list) = .ok (words.map list.words.idxOf) :=
    fun h => mapM_ok fun w hw => if_pos (h w hw)
  constructor
  · intro h
    have hmem : ∀ w ∈ words, w ∈ list.words := by
      intro w hw
      obtain ⟨i, hi⟩ := mapM_mem_ok h hw
      by_contra hw
      simp [wordIndex, hw] at hi
    exact ⟨hmem, Except.ok.inj (h.symm.trans (hall hmem))⟩
  · rintro ⟨hmem, rfl⟩
    exact hall hmem

end

/-! Validation, and the one phrase of each entropy. -/
section
variable {crypto : Crypto} {list : WordTable} {mnemonic : Text} {entropy : Bytes} {words : List Text}

theorem mnemonicToEntropy_eq_ok : mnemonicToEntropy crypto list mnemonic = .ok entropy ↔
    (entropy.length = 16 ∨ entropy.length = 32) ∧ (∀ w ∈ phraseWords mnemonic, w ∈ list.words) ∧
      encodeBits 11 ((phraseWords mnemonic).map list.words.idxOf) =
        entropyToBits entropy ++ expectedChecksumBits crypto entropy := by
  have hbits := length_encodeBits 11 ((phraseWords mnemonic).map list.words.idxOf)
  rw [List.length_map] at hbits
  simp only [mnemonicToEntropy, bind_eq_ok, failIf_eq_ok, pure_eq_ok, mapM_wordIndex]
  constructor
  · rintro ⟨-, hcount, _, ⟨hmem, rfl⟩, -, hchecksum, hentropy⟩
    have hsplit : ∃ k, (k = 16 ∨ k = 32) ∧ (if (phraseWords mnemonic).length = 12 then 128 else 256) = k * 8 ∧
        k * 8 ≤ (phraseWords mnemonic).length * 11 := by
      by_cases h : (phraseWords mnemonic).length = 12
      · exact ⟨16, .inl rfl, if_pos h, by omega⟩
      · exact ⟨32, .inr rfl, if_neg h, by omega⟩
    obtain ⟨k, hk, hn, hle⟩ := hsplit
    rw [hn] at hchecksum hentropy
    have htake : ((encodeBits 11 ((phraseWords mnemonic).map list.words.idxOf)).take (k * 8)).length = k * 8 := by
      rw [List.length_take, hbits]
      omega
    obtain ⟨hlength, hback⟩ := entropyToBits_bitsToEntropy htake
    rw [hentropy] at hlength hback hchecksum
    refine ⟨by rwa [hlength], hmem, ?_⟩
    rw [hback, ← not_not.mp hchecksum, List.take_append_drop]
  · rintro ⟨hlength, hmem, heq⟩
    have hlengths := congrArg List.length heq
    rw [hbits, List.length_append, length_entropyToBits, length_expectedChecksumBits hlength] at hlengths
    have hn : (if (phraseWords mnemonic).length = 12 then 128 else 256) = (entropyToBits entropy).length := by
      rw [length_entropyToBits]
      split_ifs <;> omega
    refine ⟨⟨⟩, by omega, _, ⟨hmem, rfl⟩, ⟨⟩, ?_, ?_⟩
    · rw [hn, heq, List.take_left, List.drop_left, bitsToEntropy_entropyToBits]
      exact not_not.mpr rfl
    · rw [hn, heq, List.take_left, bitsToEntropy_entropyToBits]

theorem trim_eq_self {t : Text} (hhead : ∀ c ∈ t.head?, UapJs.isWhitespace c = false)
    (hlast : ∀ c ∈ t.getLast?, UapJs.isWhitespace c = false) : trim t = t := by
  have hkeep : ∀ l : Text, (∀ c ∈ l.head?, UapJs.isWhitespace c = false) → l.dropWhile UapJs.isWhitespace = l := by
    intro l h
    cases l with
    | nil => rfl
    | cons c l => rw [List.dropWhile_cons, h c rfl, if_neg Bool.false_ne_true]
  rw [trim, hkeep t hhead, hkeep t.reverse (by rwa [List.head?_reverse]), List.reverse_reverse]

theorem phraseWords_joinWords (hwords : words ≠ []) (hword : ∀ w ∈ words, IsWord w) :
    phraseWords (joinWords words) = words := by
  rw [phraseWords, joinWords, trim_eq_self (head_intercalate hword) (getLast_intercalate hword)]
  exact splitRuns_intercalate hword rfl hwords

theorem mnemonicToEntropy_entropyToMnemonic (hlength : entropy.length = 16 ∨ entropy.length = 32) :
    mnemonicToEntropy crypto list (entropyToMnemonic crypto list entropy) = .ok entropy := by
  have hbits : (entropyToBits entropy ++ expectedChecksumBits crypto entropy).length = entropy.length * 3 / 4 * 11 := by
    rw [List.length_append, length_entropyToBits, length_expectedChecksumBits hlength]
    omega
  obtain ⟨hcount, hlt, hencode⟩ := decodeBits_spec (by decide) hbits
  rw [entropyToMnemonic]
  generalize decodeBits 11 (entropyToBits entropy ++ expectedChecksumBits crypto entropy) = indices at hcount hlt hencode
  have hmem : ∀ w ∈ indices.map (wordAt list), w ∈ list.words := by
    intro w hw
    obtain ⟨i, hi, rfl⟩ := List.mem_map.mp hw
    exact wordAt_mem (hlt i hi)
  have hwords : indices.map (wordAt list) ≠ [] := by
    rw [← List.length_pos_iff, List.length_map]
    omega
  have hindices : (indices.map (wordAt list)).map list.words.idxOf = indices := by
    rw [List.map_map]
    exact (List.map_congr_left fun i hi => idxOf_wordAt (hlt i hi)).trans (List.map_id _)
  rw [mnemonicToEntropy_eq_ok, phraseWords_joinWords hwords fun w hw => list.isWord w (hmem w hw), hindices]
  exact ⟨hlength, hmem, hencode⟩

theorem entropyToMnemonic_of_mnemonicToEntropy (h : mnemonicToEntropy crypto list mnemonic = .ok entropy) :
    entropyToMnemonic crypto list entropy = joinWords (phraseWords mnemonic) := by
  obtain ⟨-, hmem, hbits⟩ := mnemonicToEntropy_eq_ok.mp h
  have hlt : ∀ i ∈ (phraseWords mnemonic).map list.words.idxOf, i < 2 ^ 11 := by
    intro i hi
    obtain ⟨w, hw, rfl⟩ := List.mem_map.mp hi
    exact idxOf_lt (hmem w hw)
  rw [entropyToMnemonic, ← hbits, decodeBits_encodeBits (by decide) hlt, List.map_map]
  exact congrArg joinWords ((List.map_congr_left fun w hw => wordAt_idxOf (hmem w hw)).trans (List.map_id _))

theorem phraseWords_of_accepted (hword : ∀ w ∈ words, IsWord w)
    (h : mnemonicToEntropy crypto list (joinWords words) = .ok entropy) : phraseWords (joinWords words) = words := by
  refine phraseWords_joinWords ?_ hword
  rintro rfl
  obtain ⟨-, hmem, -⟩ := mnemonicToEntropy_eq_ok.mp h
  -- the empty phrase is split into one empty word, which no table has
  exact (list.isWord [] (hmem [] (by simp [phraseWords, joinWords, trim, splitRuns]))).1 rfl

/-- Phrases of words and entropies are in bijection: a generated phrase gives its entropy back, the entropy of an accepted
phrase gives the phrase back, and each entropy that is accepted at all has one phrase. -/
theorem mnemonic_bijection (crypto : Crypto) (list : WordTable) :
    (∀ entropy : Bytes, entropy.length = 16 ∨ entropy.length = 32 →
      mnemonicToEntropy crypto list (entropyToMnemonic crypto list entropy) = .ok entropy) ∧
    (∀ (words : List Text) (entropy : Bytes), (∀ w ∈ words, IsWord w) →
      mnemonicToEntropy crypto list (joinWords words) = .ok entropy →
        entropyToMnemonic crypto list entropy = joinWords words) ∧
    (∀ entropy : Bytes, (∃ mnemonic, mnemonicToEntropy crypto list mnemonic = .ok entropy) →
      ∃! words : List Text, (∀ w ∈ words, IsWord w) ∧
        mnemonicToEntropy crypto list (joinWords words) = .ok entropy) := by
  have hback : ∀ (words : List Text) (entropy : Bytes), (∀ w ∈ words, IsWord w) →
      mnemonicToEntropy crypto list (joinWords words) = .ok entropy →
        entropyToMnemonic crypto list entropy = joinWords words := by
    intro words entropy hword h
    rw [entropyToMnemonic_of_mnemonicToEntropy h, phraseWords_of_accepted hword h]
  refine ⟨fun entropy => mnemonicToEntropy_entropyToMnemonic, hback, ?_⟩
  rintro entropy ⟨mnemonic, h⟩
  obtain ⟨hlength, hmem, -⟩ := mnemonicToEntropy_eq_ok.mp h
  have hword : ∀ w ∈ phraseWords mnemonic, IsWord w := fun w hw => list.isWord w (hmem w hw)
  have haccept : mnemonicToEntropy crypto list (joinWords (phraseWords mnemonic)) = .ok entropy := by
    rw [← entropyToMnemonic_of_mnemonicToEntropy h]
    exact mnemonicToEntropy_entropyToMnemonic hlength
  refine ⟨phraseWords mnemonic, ⟨hword, haccept⟩, ?_⟩
  rintro words ⟨hword', haccept'⟩
  have hsame : joinWords words = joinWords (phraseWords mnemonic) :=
    (hback words entropy hword' haccept').symm.trans (hback _ entropy hword haccept)
  rw [← phraseWords_of_accepted hword' haccept', hsame, phraseWords_of_accepted hword haccept]

/-- The phrase of sixteen zero bytes. -/
theorem mnemonic_bijection_zero :
    (List.replicate 16 (0 : UInt8)).length = 16 ∧
      mnemonicToEntropy (.recorded []) wordlist (entropyToMnemonic (.recorded []) wordlist (List.replicate 16 0)) =
        .ok (List.replicate 16 0) ∧
      ∃ words : List Text, (∀ w ∈ words, IsWord w) ∧
        mnemonicToEntropy (.recorded []) wordlist (joinWords words) = .ok (List.replicate 16 0) ∧
        entropyToMnemonic (.recorded []) wordlist (List.replicate 16 0) = joinWords words := by
  have hspec := mnemonic_bijection (.recorded []) wordlist
  have haccept := hspec.1 (List.replicate 16 0) (.inl List.length_replicate)
  obtain ⟨words, ⟨hword, haccept'⟩, -⟩ := hspec.2.2 _ ⟨_, haccept⟩
  exact ⟨List.length_replicate, haccept, words, hword, haccept', hspec.2.1 words _ hword haccept'⟩

theorem mem_trim {t : Text} {c : Char} (hc : c ∈ t) (hspace : UapJs.isWhitespace c = false) : c ∈ trim t := by
  have hkeep : ∀ l : Text, c ∈ l → c ∈ l.dropWhile UapJs.isWhitespace := by
    intro l hl
    rw [← List.takeWhile_append_dropWhile (p := UapJs.isWhitespace) (l := l), List.mem_append] at hl
    refine hl.resolve_left fun htake => ?_
    rw [List.mem_takeWhile_imp htake] at hspace
    exact absurd hspace (by decide)
  rw [trim, List.mem_reverse]
  exact hkeep _ (List.mem_reverse.mpr (hkeep t hc))

theorem mem_mnemonic {list : WordList} {c : Char} (h : mnemonicToEntropy crypto list mnemonic = .ok entropy) (hc : c ∈ mnemonic) :
    UapJs.isWhitespace c = true ∨ ('a' ≤ c ∧ c ≤ 'z') := by
  obtain ⟨-, hmem, -⟩ := mnemonicToEntropy_eq_ok.mp h
  cases hspace : UapJs.isWhitespace c with
  | true => exact .inl rfl
  | false =>
    obtain ⟨w, hw, hcw⟩ := mem_splitRuns (mem_trim hc hspace) hspace
    exact .inr ((list.lowercase w (hmem w hw)).2 c hcw)

end
end Whippet.Web
