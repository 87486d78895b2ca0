import Whippet.Faucet.Liquidity
import Whippet.Indexer.Tokens
import Whippet.Primitives.Transaction

/-! The cap on what the engine spends on a lineage, against the backing that the indexer saw. The indexer holds the
product with the multiplier at 64 bits, and the engine multiplies by twenty before it divides. -/
namespace Whippet.Faucet
open Lib
open Indexer (Text LineageAgg TokenMetadata maxInt64 satMul satMul_div satMul_range scanToken)
open Primitives (coin maxMoney)

def TokenInfo.ofServed (t : Indexer.TokenInfo) : TokenInfo :=
  ⟨t.origin, Int64.ofInt t.multiplier, Int64.ofInt t.supply, Int64.ofInt t.holders⟩

theorem toInt_twentyPercent {backing : Int64} {b : ℤ} (hb : backing.toInt = b) (h0 : 0 ≤ b) (h1 : b ≤ maxMoney) :
    if b ≤ maxInt64 / 20 then (backing * 20 / 100).toInt = b / 5 else (backing * 20 / 100).toInt < maxInt64 / 100 := by
  have h20 : (20 : Int64).toInt = 20 := rfl
  have h100 : (100 : Int64).toInt = 100 := rfl
  have hmoney : maxMoney = 1000000000000000000 := rfl
  have hmax : maxInt64 = 9223372036854775807 := rfl
  split_ifs with hsmall
  · have hmul := toInt_mul_eq hb h20 (by omega) (by omega)
    rw [toInt_div_eq hmul h100 (by omega) (by omega)]
    omega
  · have hmul : (backing * 20).toInt = b * 20 - 2 ^ 64 := by
      rw [Int64.toInt_mul, hb, h20, ← bmod_int64 (n := b * 20 - 2 ^ 64) (by omega) (by omega)]
      exact (Int.sub_bmod_right (b * 20) (2 ^ 64)).symm
    rw [Int64.toInt_div_of_ne_right _ _ (by decide), hmul, h100, Int.tdiv_eq_ediv]
    have hsign : Int.sign 100 = 1 := rfl
    split_ifs <;> omega

/-- The backing that the engine recovers is what the indexer saw, up to what fits with the multiplier. -/
theorem toInt_backing (origin : Text) {agg : LineageAgg} (metadata : Option TokenMetadata) (h0 : 0 ≤ agg.unspentValue)
    (hm0 : 1 ≤ agg.multiplier) (hm1 : agg.multiplier ≤ 2 ^ 31 - 1) :
    let token := TokenInfo.ofServed (scanToken origin agg metadata)
    (token.supply / token.multiplier).toInt = min agg.unspentValue (maxInt64 / agg.multiplier) := by
  have hmax : maxInt64 = 9223372036854775807 := rfl
  obtain ⟨hlow, hhigh⟩ := satMul_range agg.unspentValue agg.multiplier
  have hsupply : (Int64.ofInt (satMul agg.unspentValue agg.multiplier)).toInt = satMul agg.unspentValue agg.multiplier :=
    Int64.toInt_ofInt_of_le (by omega) (by omega)
  have hmult : (Int64.ofInt agg.multiplier).toInt = agg.multiplier := Int64.toInt_ofInt_of_le (by omega) (by omega)
  rw [← satMul_div h0 (show 0 < agg.multiplier by omega)]
  exact toInt_div_eq hsupply hmult hlow (by omega)

/-- The cap is twenty percent of the backing when, up to a multiple of five, the backing times the multiplier fits in 64
bits, and the backing times twenty does too or the multiplier is at least as large. -/
theorem lineage_cap_exact_iff (origin : Text) (agg : LineageAgg) (metadata : Option TokenMetadata)
    (h0 : 0 ≤ agg.unspentValue) (h1 : agg.unspentValue ≤ maxMoney) (hm0 : 1 ≤ agg.multiplier)
    (hm1 : agg.multiplier ≤ 2 ^ 31 - 1) :
    (TokenInfo.ofServed (scanToken origin agg metadata)).maxSpendPerLineage.toInt = agg.unspentValue * 20 / 100 ↔
      agg.unspentValue / 5 ≤ maxInt64 / agg.multiplier / 5 ∧
        (agg.unspentValue ≤ maxInt64 / 20 ∨ 20 ≤ agg.multiplier) := by
  have hmax : maxInt64 = 9223372036854775807 := rfl
  have hbacking := toInt_backing origin metadata h0 hm0 hm1
  have hfit : 0 ≤ maxInt64 / agg.multiplier := Int.ediv_nonneg (by omega) (by omega)
  have hcap := toInt_twentyPercent hbacking (le_min h0 hfit) ((min_le_left _ _).trans h1)
  have hlarge : maxInt64 / agg.multiplier ≤ maxInt64 / 20 ↔ 20 ≤ agg.multiplier := by
    rw [← Int.lt_add_one_iff, Int.ediv_lt_iff_lt_mul (by omega), show maxInt64 / 20 + 1 = 461168601842738791 from rfl]
    omega
  unfold TokenInfo.maxSpendPerLineage
  split_ifs at hcap with hsmall
  · rw [hcap]
    omega
  · omega

/-- The largest backing with multiplier one: the cap is some eight percent of what it should be. -/
theorem lineage_cap_wraps :
    let agg : LineageAgg := { multiplier := 1, unspentValue := maxMoney }
    0 ≤ agg.unspentValue ∧ agg.unspentValue ≤ maxMoney ∧ agg.unspentValue / coin * agg.multiplier ≤ 2 ^ 48 ∧
      (TokenInfo.ofServed (scanToken [] agg none)).maxSpendPerLineage.toInt = 15532559262904483 ∧
      agg.unspentValue * 20 / 100 = 200000000000000000 := by
  decide +kernel

/-- A thousand coins at multiplier a million. -/
theorem lineage_cap_exact_sample :
    (TokenInfo.ofServed (scanToken [] { multiplier := 1000000, unspentValue := 1000 * coin } none)).maxSpendPerLineage.toInt =
      1000 * coin * 20 / 100 :=
  (lineage_cap_exact_iff [] { multiplier := 1000000, unspentValue := 1000 * coin } none (by decide) (by decide) (by decide)
    (by decide)).mpr (by decide)

end Whippet.Faucet
