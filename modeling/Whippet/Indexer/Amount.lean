import Whippet.Indexer.Rpc
import Whippet.Lib.Checked
import Whippet.Lib.Digits
import Whippet.Lib.Int64
import Mathlib.Tactic.FieldSimp

/-! Amounts between the node, which prints them as decimal numbers of coins, and the indexer, which reads them as
satoshis. -/
namespace Whippet.Indexer
open Lib Primitives

/-- The text that the node's `ValueFromAmount` prints. -/
def valueFromAmount (amount : ℤ) : Text :=
  (if amount < 0 then ['-'] else []) ++ Nat.toDigits 10 (amount.natAbs / 100000000) ++
    '.' :: padDigits 8 (amount.natAbs % 100000000)

def maxMoneySat : ℤ := 10000000000 * 100000000

def splitSign : Text → Bool × Text
  | '-' :: s => (true, s)
  | '+' :: s => (false, s)
  | s => (false, s)

/-- `strconv.ParseInt` in base ten and 64 bits. -/
def parseInt? (s : Text) : Option ℤ :=
  let (neg, digits) := splitSign s
  if digits = [] ∨ digits.all Char.isDigit = false then none
  else
    let n : ℤ := Nat.ofDigitChars 10 digits 0
    let n := if neg then -n else n
    if -2 ^ 63 ≤ n ∧ n < 2 ^ 63 then some n else none

/-- The digits after the point, in satoshis. -/
def parseFraction (fracPart : Text) : Except String ℤ :=
  if fracPart = [] then .ok 0
  else (orFail "bad fractional part" (parseInt? fracPart)).map (· * 10 ^ (8 - fracPart.length))

/-- `parseCoinsToSat`. The range check keeps the sum in 64 bits for digits, not for a second sign. -/
def parseCoinsToSat (s : Text) : Except String ℤ := do
  failIf (s = []) "empty"
  failIf ('e' ∈ s ∨ 'E' ∈ s) "exponent notation not supported"
  let neg := (splitSign s).1
  let s := (splitSign s).2
  failIf (s = []) "no digits"
  let intPart := s.takeWhile (· ≠ '.')
  let fracPart := (s.dropWhile (· ≠ '.')).drop 1
  failIf ('.' ∈ s ∧ fracPart = []) "trailing decimal point"
  failIf (intPart = []) "no integer part"
  failIf (fracPart.length > 8) "more than 8 decimal places"
  let coins ← orFail "bad integer part" (parseInt? intPart)
  let frac ← parseFraction fracPart
  failIf (coins > maxMoneySat / 100000000) "amount out of range"
  let sat := (coins * 100000000 + frac).bmod (2 ^ 64)
  failIf (sat > maxMoneySat) "amount out of range"
  return if neg then (-sat).bmod (2 ^ 64) else sat

/-- `Amount.UnmarshalJSON`, on an amount that has the value `a`. -/
def Amount.unmarshalJSON (a : ℤ) (b : Text) : Except String ℤ :=
  if b = "null".toList then .ok a
  else (parseCoinsToSat b).mapError fun e => "amount " ++ String.ofList b ++ ": " ++ e

/-- A JSON number without an exponent. There is a decimal point only before the digits of a fraction. -/
structure JsonNumber where
  negative : Bool
  integer : Text
  fraction : Text
  integer_ne : integer ≠ []
  integer_digits : integer.all Char.isDigit
  leading_zero : integer.head? = some '0' → integer = ['0']
  fraction_digits : fraction.all Char.isDigit

namespace JsonNumber

def body (n : JsonNumber) : Text := n.integer ++ if n.fraction = [] then [] else '.' :: n.fraction

def text (n : JsonNumber) : Text := if n.negative then '-' :: n.body else n.body

def digits (n : JsonNumber) : ℕ := Nat.ofDigitChars 10 (n.integer ++ n.fraction) 0

def value (n : JsonNumber) : ℚ := (if n.negative then -1 else 1) * n.digits / 10 ^ n.fraction.length

end JsonNumber

theorem isDigit_ne {c : Char} (h : c.isDigit) : c ≠ '-' ∧ c ≠ '+' ∧ c ≠ '.' ∧ c ≠ 'e' ∧ c ≠ 'E' := by
  refine ⟨?_, ?_, ?_, ?_, ?_⟩ <;> rintro rfl <;> simp [Char.isDigit] at h

section
variable {digits : Text} (hne : digits ≠ []) (hdigits : digits.all Char.isDigit)
include hne hdigits

theorem splitSign_digits (rest : Text) : splitSign (digits ++ rest) = (false, digits ++ rest) := by
  obtain ⟨c, cs, rfl⟩ := List.exists_cons_of_ne_nil hne
  obtain ⟨hminus, hplus, -⟩ := isDigit_ne (List.all_eq_true.mp hdigits c (by simp))
  rw [List.cons_append]
  unfold splitSign
  split
  next h => exact absurd (List.cons.inj h).1 hminus
  next h => exact absurd (List.cons.inj h).1 hplus
  next => rfl

theorem parseInt?_digits : parseInt? digits =
    if Nat.ofDigitChars 10 digits 0 < 2 ^ 63 then some (Nat.ofDigitChars 10 digits 0 : ℤ) else none := by
  have hsplit := splitSign_digits hne hdigits []
  rw [List.append_nil] at hsplit
  simp only [parseInt?, hsplit, hdigits]
  rw [if_neg (by simpa using hne)]
  simp only [Bool.false_eq_true, if_false]
  split_ifs <;> first | rfl | omega

end

namespace JsonNumber
variable (n : JsonNumber)

theorem splitSign_text : splitSign n.text = (n.negative, n.body) := by
  unfold text
  cases n.negative with
  | false => exact splitSign_digits n.integer_ne n.integer_digits _
  | true => rfl

theorem mem_text {c : Char} (h : c ∈ n.text) : c = '-' ∨ c = '.' ∨ c.isDigit := by
  have hbody : ∀ c ∈ n.body, c = '.' ∨ c.isDigit := by
    intro c hc
    unfold body at hc
    rcases List.mem_append.mp hc with hc | hc
    · exact .inr (List.all_eq_true.mp n.integer_digits c hc)
    · split_ifs at hc
      · simp at hc
      · rcases List.mem_cons.mp hc with rfl | hc
        · exact .inl rfl
        · exact .inr (List.all_eq_true.mp n.fraction_digits c hc)
  unfold text at h
  split_ifs at h
  · rcases List.mem_cons.mp h with rfl | h
    · exact .inl rfl
    · exact .inr (hbody c h)
  · exact .inr (hbody c h)

theorem takeWhile_body : n.body.takeWhile (· ≠ '.') = n.integer := by
  have hdigits : ∀ c ∈ n.integer, decide (c ≠ '.') = true := by
    intro c hc
    simpa using (isDigit_ne (List.all_eq_true.mp n.integer_digits c hc)).2.2.1
  unfold body
  rw [List.takeWhile_append_of_pos hdigits]
  split_ifs <;> simp

theorem dropWhile_body : (n.body.dropWhile (· ≠ '.')).drop 1 = n.fraction := by
  have hdigits : ∀ c ∈ n.integer, decide (c ≠ '.') = true := by
    intro c hc
    simpa using (isDigit_ne (List.all_eq_true.mp n.integer_digits c hc)).2.2.1
  unfold body
  rw [List.dropWhile_append_of_pos hdigits]
  split_ifs with h <;> simp [h]

theorem digits_eq : n.digits =
    10 ^ n.fraction.length * Nat.ofDigitChars 10 n.integer 0 + Nat.ofDigitChars 10 n.fraction 0 := by
  rw [digits, Nat.ofDigitChars_append, Nat.ofDigitChars_eq_ofDigitChars_zero]

def sats (n : JsonNumber) : ℤ := n.digits * 10 ^ (8 - n.fraction.length)

theorem sats_eq (h : n.fraction.length ≤ 8) : n.sats = (Nat.ofDigitChars 10 n.integer 0 : ℤ) * 100000000 +
    Nat.ofDigitChars 10 n.fraction 0 * 10 ^ (8 - n.fraction.length) := by
  have hpow : (10 : ℤ) ^ n.fraction.length * 10 ^ (8 - n.fraction.length) = 100000000 := by
    rw [← pow_add, Nat.add_sub_cancel' h]
    norm_num
  rw [sats, digits_eq]
  push_cast
  rw [← hpow]
  ring

theorem parse_text : parseCoinsToSat n.text = do
    failIf (n.fraction.length > 8) "more than 8 decimal places"
    let coins ← orFail "bad integer part" (parseInt? n.integer)
    let frac ← parseFraction n.fraction
    failIf (coins > maxMoneySat / 100000000) "amount out of range"
    let sat := (coins * 100000000 + frac).bmod (2 ^ 64)
    failIf (sat > maxMoneySat) "amount out of range"
    return if n.negative then (-sat).bmod (2 ^ 64) else sat := by
  have hbody : n.body ≠ [] := by simp [body, n.integer_ne]
  have htext : n.text ≠ [] := by
    unfold text
    split_ifs <;> simp [hbody]
  have hexponent : ¬ ('e' ∈ n.text ∨ 'E' ∈ n.text) := by
    rintro (h | h) <;> simpa [Char.isDigit] using n.mem_text h
  have hpoint : ¬ ('.' ∈ n.body ∧ n.fraction = []) := by
    rintro ⟨hmem, hnil⟩
    rw [body, if_pos hnil, List.append_nil] at hmem
    exact (isDigit_ne (List.all_eq_true.mp n.integer_digits _ hmem)).2.2.1 rfl
  simp only [parseCoinsToSat, splitSign_text, takeWhile_body, dropWhile_body, failIf_neg htext, failIf_neg hexponent,
    failIf_neg hbody, failIf_neg hpoint, failIf_neg n.integer_ne, ok_bind]

variable {n} (hlen : n.fraction.length ≤ 8)
include hlen

theorem fraction_lt : (Nat.ofDigitChars 10 n.fraction 0 : ℤ) * 10 ^ (8 - n.fraction.length) < 100000000 := by
  have hlt : (Nat.ofDigitChars 10 n.fraction 0 : ℤ) < 10 ^ n.fraction.length := by
    exact_mod_cast ofDigitChars_lt n.fraction_digits
  calc
    _ < (10 : ℤ) ^ n.fraction.length * 10 ^ (8 - n.fraction.length) := mul_lt_mul_of_pos_right hlt (by positivity)
    _ = 100000000 := by
      rw [← pow_add, Nat.add_sub_cancel' hlen]
      norm_num

theorem parseFraction_eq : parseFraction n.fraction =
    .ok ((Nat.ofDigitChars 10 n.fraction 0 : ℤ) * 10 ^ (8 - n.fraction.length)) := by
  unfold parseFraction
  split_ifs with hnil
  · rw [hnil]
    rfl
  · have hlt := ofDigitChars_lt n.fraction_digits
    have hpow : 10 ^ n.fraction.length ≤ 10 ^ 8 := Nat.pow_le_pow_right (by norm_num) hlen
    rw [parseInt?_digits hnil n.fraction_digits, if_pos (by omega)]
    rfl

theorem parse_text_cases :
    (n.sats ≤ maxMoneySat ∧ parseCoinsToSat n.text = .ok (if n.negative then -n.sats else n.sats)) ∨
      (maxMoneySat < n.sats ∧ ∃ e, parseCoinsToSat n.text = .error e) := by
  have hmax : maxMoneySat = 1000000000000000000 := rfl
  have hfrac := n.fraction_lt hlen
  have hnonneg : (0 : ℤ) ≤ Nat.ofDigitChars 10 n.fraction 0 * 10 ^ (8 - n.fraction.length) := by positivity
  have hsats := n.sats_eq hlen
  rw [parse_text, failIf_neg (by omega), ok_bind, parseFraction_eq hlen, parseInt?_digits n.integer_ne n.integer_digits]
  by_cases hfits : Nat.ofDigitChars 10 n.integer 0 < 2 ^ 63
  · rw [if_pos hfits]
    simp only [orFail, ok_bind, ← hsats]
    by_cases hcoins : (Nat.ofDigitChars 10 n.integer 0 : ℤ) > maxMoneySat / 100000000
    · exact .inr ⟨by omega, _, by rw [failIf_pos hcoins]; rfl⟩
    · rw [failIf_neg hcoins, ok_bind, bmod_int64 (by omega) (by omega)]
      by_cases hrange : n.sats > maxMoneySat
      · exact .inr ⟨hrange, _, by rw [failIf_pos hrange]; rfl⟩
      · rw [failIf_neg hrange, ok_bind, bmod_int64 (by omega) (by omega)]
        exact .inl ⟨by omega, rfl⟩
  · rw [if_neg hfits]
    exact .inr ⟨by omega, _, rfl⟩

end JsonNumber

def printed (amount : ℤ) : JsonNumber where
  negative := amount < 0
  integer := Nat.toDigits 10 (amount.natAbs / 100000000)
  fraction := padDigits 8 (amount.natAbs % 100000000)
  integer_ne := Nat.toDigits_ne_nil
  integer_digits := List.all_eq_true.mpr fun _ hc => Nat.isDigit_of_mem_toDigits (by decide) (by decide) hc
  leading_zero h := by rw [toDigits_head h]; rfl
  fraction_digits := padDigits_all _ _

theorem printed_text (amount : ℤ) : (printed amount).text = valueFromAmount amount := by
  have hfraction : (printed amount).fraction ≠ [] := by simp [printed, padDigits, Nat.toDigits_ne_nil]
  have hbody : (printed amount).body = (printed amount).integer ++ '.' :: (printed amount).fraction := by
    rw [JsonNumber.body, if_neg hfraction]
  rw [JsonNumber.text, hbody, valueFromAmount]
  by_cases h : amount < 0 <;> simp [printed, h]

theorem length_printed (amount : ℤ) : (printed amount).fraction.length = 8 :=
  length_padDigits (by decide) (Nat.mod_lt _ (by decide))

theorem printed_sats (amount : ℤ) : (printed amount).sats = amount.natAbs := by
  rw [JsonNumber.sats_eq _ (length_printed amount).le, length_printed]
  simp only [printed, ofDigitChars_padDigits, Nat.ofDigitChars_ten_toDigits]
  omega

theorem parse_valueFromAmount {amount : ℤ} (h : |amount| ≤ maxMoneySat) :
    parseCoinsToSat (valueFromAmount amount) = .ok amount := by
  rw [← printed_text]
  rcases JsonNumber.parse_text_cases (length_printed amount).le with ⟨-, hok⟩ | ⟨hrange, -⟩
  · rw [hok, printed_sats]
    by_cases hneg : amount < 0
    · rw [if_pos (by simpa [printed] using hneg)]
      congr 1
      omega
    · rw [if_neg (by simpa [printed] using hneg)]
      congr 1
      omega
  · rw [printed_sats, ← Int.abs_eq_natAbs] at hrange
    omega

theorem unmarshalJSON_valueFromAmount {amount : ℤ} (h : |amount| ≤ maxMoneySat) (old : ℤ) :
    Amount.unmarshalJSON old (valueFromAmount amount) = .ok amount := by
  have hnull : valueFromAmount amount ≠ "null".toList := by
    intro heq
    have hmem : 'n' ∈ (printed amount).text := by rw [printed_text, heq]; simp
    simpa [Char.isDigit] using (printed amount).mem_text hmem
  rw [Amount.unmarshalJSON, if_neg hnull, parse_valueFromAmount h]
  rfl

theorem JsonNumber.value_eq {n : JsonNumber} (h : n.fraction.length ≤ 8) :
    10 ^ 8 * n.value = ((if n.negative then -n.sats else n.sats : ℤ) : ℚ) := by
  have hpow : (10 : ℚ) ^ 8 = 10 ^ n.fraction.length * 10 ^ (8 - n.fraction.length) := by
    rw [← pow_add, Nat.add_sub_cancel' h]
  rw [JsonNumber.value, JsonNumber.sats, hpow]
  cases n.negative <;> push_cast <;> simp <;> field_simp

/-- Amounts cross the boundary exactly: what the node prints is read back, and a number is read as its value in
satoshis unless it has more than eight decimals or is out of range. -/
theorem amounts_exact :
    (∀ a, |a| ≤ maxMoney → parseCoinsToSat (valueFromAmount a) = .ok a ∧
      ∀ old, Amount.unmarshalJSON old (valueFromAmount a) = .ok a) ∧
    ∀ n : JsonNumber,
      (∀ sat, parseCoinsToSat n.text = .ok sat → (sat : ℚ) = 10 ^ 8 * n.value ∧ |sat| ≤ maxMoney) ∧
      ∀ e, parseCoinsToSat n.text = .error e → n.fraction.length > 8 ∨ (maxMoney : ℚ) < |10 ^ 8 * n.value| := by
  refine ⟨fun a h => ⟨parse_valueFromAmount h, unmarshalJSON_valueFromAmount h⟩, fun n => ?_⟩
  have hmoney : maxMoney = maxMoneySat := rfl
  have hnonneg : 0 ≤ n.sats := by unfold JsonNumber.sats; positivity
  by_cases hlen : n.fraction.length ≤ 8
  · rw [n.value_eq hlen, hmoney]
    have habs : |if n.negative then -n.sats else n.sats| = n.sats := by
      split_ifs
      · rw [abs_neg, abs_of_nonneg hnonneg]
      · exact abs_of_nonneg hnonneg
    rcases JsonNumber.parse_text_cases hlen with ⟨hrange, hok⟩ | ⟨hrange, e, he⟩
    · rw [hok]
      refine ⟨fun sat h => ?_, fun e h => by cases h⟩
      obtain rfl := Except.ok.inj h
      exact ⟨rfl, habs.trans_le hrange⟩
    · rw [he]
      refine ⟨fun sat h => (by cases h), fun _ _ => .inr ?_⟩
      rw [← Int.cast_abs, habs]
      exact_mod_cast hrange
  · refine ⟨fun sat h => ?_, fun _ _ => .inl (by omega)⟩
    rw [JsonNumber.parse_text, failIf_pos (by omega)] at h
    cases h

def fiveAndTenth : JsonNumber := ⟨false, ['5'], ['1'], by decide, rfl, by decide, rfl⟩

def aboveRange : JsonNumber :=
  ⟨false, '1' :: List.replicate 10 '0', ['1'], by decide, rfl, by decide, rfl⟩

theorem amounts_exact_sample :
    parseCoinsToSat (valueFromAmount (-maxMoney)) = .ok (-maxMoney) ∧
      (((510000000 : ℤ) : ℚ) = 10 ^ 8 * fiveAndTenth.value ∧ |(510000000 : ℤ)| ≤ maxMoney) ∧
      (aboveRange.fraction.length > 8 ∨ (maxMoney : ℚ) < |10 ^ 8 * aboveRange.value|) := by
  obtain ⟨hprinted, hnumber⟩ := amounts_exact
  refine ⟨(hprinted (-maxMoney) (by decide)).1, (hnumber fiveAndTenth).1 510000000 (by decide), ?_⟩
  exact (hnumber aboveRange).2 "amount out of range" (by decide)

end Whippet.Indexer
