import Whippet.Indexer.Store

/-! The figures that the indexer publishes for a lineage. -/
namespace Whippet.Indexer
open Lib

/-- The product, held at the largest 64-bit integer. -/
def satMul (a b : ℤ) : ℤ := if a ≤ 0 ∨ b ≤ 0 then 0 else if a > maxInt64 / b then maxInt64 else a * b

structure TokenInfo where
  origin : Text
  multiplier : ℤ
  ticker : Text
  metadataHash : Text
  supply : ℤ
  holders : ℤ
  mintHeight : ℤ
  deriving DecidableEq, Repr

/-- `scanToken`, on the row of a lineage and the metadata of its mint. -/
def scanToken (origin : Text) (agg : LineageAgg) (metadata : Option TokenMetadata) : TokenInfo where
  origin := origin
  multiplier := agg.multiplier
  ticker := (metadata.map (·.ticker)).getD []
  metadataHash := (metadata.map (·.metadataHash)).getD []
  supply := satMul agg.unspentValue agg.multiplier
  holders := agg.holderCount
  mintHeight := if agg.hasMint then agg.mintHeight else 0

theorem satMul_div {a b : ℤ} (ha : 0 ≤ a) (hb : 0 < b) : satMul a b / b = min a (maxInt64 / b) := by
  unfold satMul
  rcases ha.eq_or_lt with rfl | hpos
  · have : 0 ≤ maxInt64 / b := Int.ediv_nonneg (by decide) hb.le
    simp [this]
  · rw [if_neg (by omega)]
    split_ifs with hbig
    · rw [min_eq_right (by omega)]
    · rw [Int.mul_ediv_cancel _ hb.ne', min_eq_left (by omega)]

theorem satMul_range (a b : ℤ) : 0 ≤ satMul a b ∧ satMul a b ≤ maxInt64 := by
  unfold satMul
  split_ifs with h0 hbig
  · decide
  · decide
  · have hb : 0 < b := by omega
    exact ⟨mul_nonneg (by omega) hb.le, (Int.le_ediv_iff_mul_le hb).mp (by omega)⟩

end Whippet.Indexer
