import Whippet.Indexer.Address
import Whippet.Web.Address

/-! Base 58 as a change of radix, which the encoders and decoders of the indexer and of the wallet library both carry
out; addresses are then one codec in two languages. -/
namespace Whippet.Web
open Lib Primitives
open Indexer (Text)

/-- The text of some bytes: their digits in radix 58, written in the alphabet. -/
def encode58 (bytes : Bytes) : Text := (reradix 256 58 (bytes.map UInt8.toNat)).map fun d => base58Alphabet.getD d '1'

def digits58? (s : Text) : Option (List ℕ) := s.mapM fun c => base58Alphabet.idxOf? c

def decode58? (s : Text) : Option Bytes := (digits58? s).map fun digits => (reradix 58 256 digits).map UInt8.ofNat

theorem idxOf?_alphabet {c : Char} {d : ℕ} : base58Alphabet.idxOf? c = some d ↔ d < 58 ∧ base58Alphabet.getD d '1' = c := by
  constructor
  · intro h
    obtain ⟨hd, hc, -⟩ := List.idxOf?_eq_some_iff.mp h
    exact ⟨hd, by rw [List.getD, List.getElem?_eq_getElem hd, Option.getD_some, hc]⟩
  · rintro ⟨hd, rfl⟩
    have hall : ∀ d < 58, base58Alphabet.idxOf? (base58Alphabet.getD d '1') = some d := by decide +kernel
    exact hall d hd

example : base58Alphabet.idxOf? 'z' = some 57 := by decide +kernel

theorem digits58?_map {digits : List ℕ} (h : ∀ d ∈ digits, d < 58) :
    digits58? (digits.map fun d => base58Alphabet.getD d '1') = some digits := by
  induction digits with
  | nil => rfl
  | cons d digits ih =>
    obtain ⟨hd, hrest⟩ := List.forall_mem_cons.mp h
    have ih := ih hrest
    unfold digits58? at ih ⊢
    rw [List.map_cons, List.mapM_cons, idxOf?_alphabet.mpr ⟨hd, rfl⟩, ih]
    rfl

theorem digits58?_eq_some {s : Text} {digits : List ℕ} (h : digits58? s = some digits) :
    (∀ d ∈ digits, d < 58) ∧ (digits.map fun d => base58Alphabet.getD d '1') = s := by
  induction s generalizing digits with
  | nil =>
    obtain rfl := Option.some.inj h
    exact ⟨by simp, rfl⟩
  | cons c s ih =>
    unfold digits58? at h
    simp only [List.mapM_cons, Option.bind_eq_bind, Option.bind_eq_some_iff, Option.pure_def, Option.some.injEq] at h
    obtain ⟨d, hd, rest, hrest, rfl⟩ := h
    obtain ⟨hlt, rfl⟩ := idxOf?_alphabet.mp hd
    obtain ⟨hall, rfl⟩ := ih hrest
    exact ⟨List.forall_mem_cons.mpr ⟨hlt, hall⟩, rfl⟩

theorem decode58?_encode58 (bytes : Bytes) : decode58? (encode58 bytes) = some bytes := by
  have hbytes : ∀ d ∈ bytes.map UInt8.toNat, d < 256 := by
    intro d hd
    obtain ⟨b, -, rfl⟩ := List.mem_map.mp hd
    exact b.toNat_lt
  rw [decode58?, encode58, digits58?_map (reradix_lt (by decide)), Option.map_some,
    reradix_reradix (by decide) 58 hbytes, List.map_map]
  congr 1
  conv_rhs => rw [← List.map_id bytes]
  exact List.map_congr_left fun b _ => UInt8.ofNat_toNat

theorem encode58_of_decode58? {s : Text} {bytes : Bytes} (h : decode58? s = some bytes) : encode58 bytes = s := by
  obtain ⟨digits, hdigits, rfl⟩ := Option.map_eq_some_iff.mp h
  obtain ⟨hlt, hs⟩ := digits58?_eq_some hdigits
  have hbytes : ((reradix 58 256 digits).map UInt8.ofNat).map UInt8.toNat = reradix 58 256 digits := by
    rw [List.map_map]
    conv_rhs => rw [← List.map_id (reradix 58 256 digits)]
    exact List.map_congr_left fun d hd => UInt8.toNat_ofNat_of_lt (reradix_lt (by decide) d hd)
  rw [encode58, hbytes, reradix_reradix (by decide) 256 hlt, hs]

section
variable {fuel n : ℕ}

theorem base58Digits_eq (h : n < 58 ^ fuel) :
    base58Digits fuel n = (radixDigits 58 n).map fun d => base58Alphabet.getD d '1' := by
  induction fuel generalizing n with
  | zero =>
    obtain rfl : n = 0 := by simpa using h
    simp [base58Digits, radixDigits_zero]
  | succ fuel ih =>
    rw [base58Digits]
    split_ifs with hn
    · simp [hn, radixDigits_zero]
    · have hdiv : n / 58 < 58 ^ fuel := Nat.div_lt_of_lt_mul (by rwa [pow_succ'] at h)
      rw [radixDigits_of_pos (by decide) hn, List.map_append, ih hdiv, List.map_singleton]

theorem base58Loop_eq (h : n < 58 ^ fuel) (result : Text) :
    Indexer.base58Loop fuel n result = ((radixDigits 58 n).map fun d => base58Alphabet.getD d '1') ++ result := by
  induction fuel generalizing n result with
  | zero =>
    obtain rfl : n = 0 := by simpa using h
    simp [Indexer.base58Loop, radixDigits_zero]
  | succ fuel ih =>
    rw [Indexer.base58Loop]
    split_ifs with hn
    · have hdiv : n / 58 < 58 ^ fuel := Nat.div_lt_of_lt_mul (by rwa [pow_succ'] at h)
      rw [ih hdiv, radixDigits_of_pos (b := 58) (n := n) (by decide) (by omega), List.map_append, List.append_assoc]
      rfl
    · obtain rfl : n = 0 := by omega
      simp [radixDigits_zero]

theorem base256Digits_eq (h : n < 256 ^ fuel) : base256Digits fuel n = (radixDigits 256 n).map UInt8.ofNat := by
  induction fuel generalizing n with
  | zero =>
    obtain rfl : n = 0 := by simpa using h
    simp [base256Digits, radixDigits_zero]
  | succ fuel ih =>
    rw [base256Digits]
    split_ifs with hn
    · simp [hn, radixDigits_zero]
    · have hdiv : n / 256 < 256 ^ fuel := Nat.div_lt_of_lt_mul (by rwa [pow_succ'] at h)
      rw [radixDigits_of_pos (by decide) hn, List.map_append, ih hdiv, List.map_singleton]

end

theorem beNat_eq (bytes : Bytes) : beNat bytes = radixValue 256 (bytes.map UInt8.toNat) := by
  rw [radixValue_eq_foldl, List.foldl_map]
  rfl

theorem beNat_lt (bytes : Bytes) : beNat bytes < 58 ^ (2 * bytes.length) := by
  have hlt : radixValue 256 (bytes.map UInt8.toNat) < 256 ^ (bytes.map UInt8.toNat).length := by
    refine radixValue_lt (by decide) fun d hd => ?_
    obtain ⟨b, -, rfl⟩ := List.mem_map.mp hd
    exact b.toNat_lt
  rw [List.length_map] at hlt
  rw [beNat_eq, pow_mul]
  exact hlt.trans_le (Nat.pow_le_pow_left (by decide) _)

theorem leadingZeros_bytes (bytes : Bytes) : leadingZeros (bytes.map UInt8.toNat) = (bytes.takeWhile (· = 0)).length := by
  rw [leadingZeros, List.takeWhile_map, List.length_map]
  congr 2
  funext b
  simp [← UInt8.toNat_inj]

theorem encode58_eq (bytes : Bytes) : encode58 bytes = List.replicate (bytes.takeWhile (· = 0)).length '1' ++
    (radixDigits 58 (beNat bytes)).map fun d => base58Alphabet.getD d '1' := by
  rw [encode58, reradix, List.map_append, List.map_replicate, leadingZeros_bytes, ← beNat_eq]
  rfl

theorem base58Encode_eq (bytes : Bytes) : base58Encode bytes = encode58 bytes := by
  rw [base58Encode, base58Digits_eq (beNat_lt bytes), encode58_eq]

theorem foldl_prepend {α β : Type*} (a : α) (l : List β) (result : List α) :
    l.foldl (fun result _ => a :: result) result = List.replicate l.length a ++ result := by
  induction l generalizing result with
  | nil => rfl
  | cons b l ih => rw [List.foldl_cons, ih, List.length_cons, List.replicate_succ', List.append_assoc]; rfl

theorem encode58_ne_nil {bytes : Bytes} (h : bytes ≠ []) : encode58 bytes ≠ [] := by
  intro hnil
  have := decode58?_encode58 bytes
  rw [hnil] at this
  exact h (Option.some.inj this).symm

theorem goBase58Encode_eq {data : Bytes} (h : data ≠ []) : Indexer.base58Encode data = encode58 data := by
  have hresult : (data.takeWhile (· = 0)).foldl (fun result _ => '1' :: result)
      (Indexer.base58Loop (2 * data.length) (beNat data) []) = encode58 data := by
    rw [base58Loop_eq (beNat_lt data), foldl_prepend, List.append_nil, encode58_eq]
  unfold Indexer.base58Encode
  simp only [hresult]
  rw [if_neg (encode58_ne_nil h)]

theorem goBase58Number?_eq (num : ℕ) (s : Text) :
    Indexer.base58Number? num s = (digits58? s).map fun digits => digits.foldl (fun n d => n * 58 + d) num := by
  induction s generalizing num with
  | nil => rfl
  | cons c s ih =>
    unfold Indexer.base58Number? digits58? at ih ⊢
    rw [List.foldlM_cons, List.mapM_cons]
    change ((base58Alphabet.idxOf? c).map (num * 58 + ·)).bind _ = _
    cases base58Alphabet.idxOf? c with
    | none => rfl
    | some d =>
      simp only [Option.map_some, Option.bind_some, Option.bind_eq_bind, ih, Option.pure_def]
      cases s.mapM fun c => base58Alphabet.idxOf? c <;> rfl

theorem base58Number_toOption (num : ℕ) (s : Text) :
    (base58Number num s).toOption = (digits58? s).map fun digits => digits.foldl (fun n d => n * 58 + d) num := by
  induction s generalizing num with
  | nil => rfl
  | cons c s ih =>
    rw [base58Number]
    unfold digits58? at ih ⊢
    rw [List.mapM_cons]
    cases base58Alphabet.idxOf? c with
    | none => rfl
    | some d =>
      simp only [ih, Option.bind_some, Option.bind_eq_bind, Option.pure_def]
      cases s.mapM fun c => base58Alphabet.idxOf? c <;> rfl

theorem idxOf?_one : base58Alphabet.idxOf? '1' = some 0 := by decide +kernel

theorem length_takeWhile_ones {s : Text} {digits : List ℕ} (h : digits58? s = some digits) :
    (s.takeWhile (· = '1')).length = leadingZeros digits := by
  obtain ⟨hlt, rfl⟩ := digits58?_eq_some h
  clear h
  induction digits with
  | nil => rfl
  | cons d digits ih =>
    obtain ⟨hd, hrest⟩ := List.forall_mem_cons.mp hlt
    have hone : base58Alphabet.getD d '1' = '1' ↔ d = 0 := by
      constructor
      · intro heq
        have := (idxOf?_alphabet.mpr ⟨hd, heq⟩).symm.trans idxOf?_one
        exact Option.some.inj this
      · rintro rfl
        rfl
    have ih := ih hrest
    unfold leadingZeros at ih ⊢
    by_cases hzero : d = 0
    · rw [List.map_cons, List.takeWhile_cons_of_pos (by simpa using hone.mpr hzero),
        List.takeWhile_cons_of_pos (by simpa using hzero), List.length_cons, List.length_cons, ih]
    · have hchar : ¬ decide (base58Alphabet.getD d '1' = '1') = true := fun h => hzero (hone.mp (of_decide_eq_true h))
      rw [List.map_cons, List.takeWhile_cons, if_neg hchar, List.takeWhile_cons, if_neg (by simpa using hzero)]
      rfl

theorem foldl_digits (digits : List ℕ) : digits.foldl (fun n d => n * 58 + d) 0 = radixValue 58 digits := by
  rw [radixValue_eq_foldl]
  congr 1
  funext n d
  rw [Nat.mul_comm]

theorem goBase58Decode?_eq (s : Text) : Indexer.base58Decode? s = decode58? s := by
  rw [Indexer.base58Decode?, goBase58Number?_eq, Option.map_map, decode58?]
  cases h : digits58? s with
  | none => rfl
  | some digits =>
    rw [Option.map_some, Option.map_some, Function.comp_apply, foldl_digits, foldl_prepend, length_takeWhile_ones h,
      Indexer.bigIntBytes, reradix, List.map_append, List.map_replicate]
    rfl

theorem base58Number_drop (s : Text) :
    base58Number 0 (s.drop (s.takeWhile (· = '1')).length) = base58Number 0 s := by
  induction s with
  | nil => rfl
  | cons c s ih =>
    by_cases hc : c = '1'
    · subst hc
      rw [List.takeWhile_cons_of_pos (by simp), List.length_cons, List.drop_succ_cons, ih, base58Number, idxOf?_one]
    · rw [List.takeWhile_cons_of_neg (by simpa using hc), List.length_nil, List.drop_zero]

theorem base58Decode_toOption (s : Text) : (base58Decode s).toOption = decode58? s := by
  have hnum := base58Number_toOption 0 s
  rw [base58Decode, base58Number_drop, decode58?]
  cases hdigits : digits58? s with
  | none =>
    rw [hdigits] at hnum
    cases hn : base58Number 0 s with
    | error e => rfl
    | ok n => simp [hn, Except.toOption] at hnum
  | some digits =>
    rw [hdigits, Option.map_some, foldl_digits, toOption_eq_some] at hnum
    obtain ⟨hlt, hs⟩ := digits58?_eq_some hdigits
    have hfits : radixValue 58 digits < 256 ^ s.length := by
      have hlen : digits.length = s.length := by rw [← hs, List.length_map]
      rw [← hlen]
      exact (radixValue_lt (by decide) hlt).trans_le (Nat.pow_le_pow_left (by decide) _)
    rw [hnum, ok_bind, length_takeWhile_ones hdigits, base256Digits_eq hfits, Option.map_some, reradix, List.map_append,
      List.map_replicate]
    rfl

section
variable (crypto : Crypto)

def checksum (payload : Bytes) : Bytes := (crypto.hash256 payload).bytes.take 4

theorem length_checksum (payload : Bytes) : (checksum crypto payload).length = 4 := by
  simp [checksum, (crypto.hash256 payload).size_eq]

theorem base58Decode_eq_ok {s : Text} {bytes : Bytes} : base58Decode s = .ok bytes ↔ decode58? s = some bytes := by
  rw [← toOption_eq_some, base58Decode_toOption]

theorem base58checkDecode_eq_ok {s : Text} {version : UInt8} {payload : Bytes} :
    base58checkDecode crypto s = .ok (version, payload) ↔
      decode58? s = some (version :: (payload ++ checksum crypto (version :: payload))) := by
  simp only [base58checkDecode, bind_eq_ok, failIf_eq_ok, pure_eq_ok, base58Decode_eq_ok, Prod.mk.injEq, not_not, not_lt]
  constructor
  · rintro ⟨decoded, hdecoded, -, hlen, -, hsum, rfl, rfl⟩
    rw [hdecoded, checksum, ← hsum]
    cases decoded with
    | nil => simp at hlen
    | cons version rest =>
      have h4 : (version :: rest).length - 4 = (rest.length - 4) + 1 := by
        rw [List.length_cons] at hlen ⊢
        omega
      have h5 : (version :: rest).length - 5 = rest.length - 4 := by
        rw [List.length_cons]
        omega
      simp only [h4, h5, List.headD_cons, List.drop_succ_cons, List.drop_zero, List.take_append_drop]
  · intro h
    have hsum := length_checksum crypto (version :: payload)
    have hlen : (version :: (payload ++ checksum crypto (version :: payload))).length = payload.length + 5 := by
      simp [hsum]
    have hpayload : ((version :: (payload ++ checksum crypto (version :: payload))).drop 1).take payload.length = payload := by
      simp
    refine ⟨_, h, ⟨⟩, by omega, ⟨⟩, ?_, rfl, ?_⟩
    · rw [hlen, show payload.length + 5 - 4 = payload.length + 1 by omega, Nat.add_sub_cancel, hpayload, List.drop_succ_cons,
        List.drop_left, List.headD_cons, checksum]
    · rw [hlen, Nat.add_sub_cancel, hpayload]

theorem decodeAddress_eq_ok {s : Text} {version : UInt8} {hash : Bytes} :
    Indexer.decodeAddress crypto s = .ok (version, hash) ↔
      decode58? s = some (version :: (hash ++ checksum crypto (version :: hash))) ∧ hash.length = 20 := by
  simp only [Indexer.decodeAddress, bind_eq_ok, failIf_eq_ok, pure_eq_ok, goBase58Decode?_eq, Prod.mk.injEq, not_not]
  constructor
  · rintro ⟨-, hlen, -, hsum, rfl, rfl⟩
    cases hdata : decode58? s with
    | none => simp [hdata] at hlen
    | some data =>
      rw [hdata] at hlen hsum
      rw [Option.getD_some] at hlen hsum ⊢
      have hpayload : (data.take 21).headD 0 :: (data.take 21).tail = data.take 21 := by
        cases data with
        | nil => simp at hlen
        | cons version data => rfl
      rw [← List.cons_append, hpayload, checksum, ← hsum, List.take_append_drop]
      exact ⟨rfl, by simp [hlen]⟩
  · rintro ⟨h, hlen⟩
    have hsum := length_checksum crypto (version :: hash)
    rw [h, Option.getD_some]
    have htake : (version :: (hash ++ checksum crypto (version :: hash))).take 21 = version :: hash := by
      rw [List.take_succ_cons, List.take_left' hlen]
    have hdrop : (version :: (hash ++ checksum crypto (version :: hash))).drop 21 = checksum crypto (version :: hash) := by
      rw [List.drop_succ_cons, List.drop_left' hlen]
    exact ⟨⟨⟩, by simp [hlen, hsum], ⟨⟩, by rw [htake, hdrop, checksum], by rw [htake]; rfl, by rw [htake]; rfl⟩

theorem base58checkEncode_eq (version : UInt8) (payload : Bytes) :
    base58checkEncode crypto payload version = encode58 (version :: (payload ++ checksum crypto (version :: payload))) := by
  rw [base58checkEncode, base58Encode_eq]
  rfl

theorem encodeAddress_eq (version : UInt8) {hash : Bytes} (h : hash.length = 20) :
    Indexer.encodeAddress crypto hash version = encode58 (version :: (hash ++ checksum crypto (version :: hash))) := by
  rw [Indexer.encodeAddress, if_neg (not_not.mpr h)]
  exact goBase58Encode_eq (by simp)

/-- One codec in two languages: the encoders write the same text, the decoders read it back, and they accept the same
texts, which are those that were encoded. -/
theorem address_codecs_agree :
    (∀ (version : UInt8) (hash : Bytes), hash.length = 20 →
      Indexer.encodeAddress crypto hash version = base58checkEncode crypto hash version ∧
      Indexer.decodeAddress crypto (Indexer.encodeAddress crypto hash version) = .ok (version, hash) ∧
      base58checkDecode crypto (Indexer.encodeAddress crypto hash version) = .ok (version, hash)) ∧
    ∀ (s : Text) (version : UInt8) (hash : Bytes),
      (Indexer.decodeAddress crypto s = .ok (version, hash) ↔
        base58checkDecode crypto s = .ok (version, hash) ∧ hash.length = 20) ∧
      (Indexer.decodeAddress crypto s = .ok (version, hash) →
        Indexer.encodeAddress crypto hash version = s ∧ base58checkEncode crypto hash version = s) := by
  refine ⟨fun version hash h => ?_, fun s version hash => ⟨?_, fun h => ?_⟩⟩
  · rw [encodeAddress_eq crypto version h, base58checkEncode_eq, decodeAddress_eq_ok, base58checkDecode_eq_ok]
    exact ⟨rfl, ⟨decode58?_encode58 _, h⟩, decode58?_encode58 _⟩
  · rw [decodeAddress_eq_ok, base58checkDecode_eq_ok]
  · obtain ⟨hdecode, hlen⟩ := (decodeAddress_eq_ok crypto).mp h
    rw [encodeAddress_eq crypto version hlen, base58checkEncode_eq]
    exact ⟨encode58_of_decode58? hdecode, encode58_of_decode58? hdecode⟩

end

namespace AddressSample

def hash : Bytes := [0, 0, 1, 2, 3, 4, 5, 6, 7, 8, 9, 10, 11, 12, 13, 14, 15, 16, 17, 18]

def crypto : Crypto := Crypto.recorded []

/-- Its address under a version of zero, which is one more leading zero. -/
def address : Text := Indexer.encodeAddress crypto hash 0

end AddressSample

open AddressSample

theorem address_codecs_agree_sample :
    address.take 3 = ['1', '1', '1'] ∧ Indexer.decodeAddress crypto address = .ok (0, hash) ∧
      base58checkDecode crypto address = .ok (0, hash) ∧ base58checkEncode crypto hash 0 = address := by
  obtain ⟨hencode, hdecode⟩ := address_codecs_agree crypto
  obtain ⟨-, hgo, hjs⟩ := hencode 0 hash rfl
  exact ⟨by decide +kernel, hgo, hjs, ((hdecode address 0 hash).2 hgo).2⟩

end Whippet.Web
