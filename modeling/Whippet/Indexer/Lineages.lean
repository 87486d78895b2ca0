import Whippet.Indexer.Store
import Whippet.Lib.GroupBy

/-! The maintained lineage summaries against their recomputation from the unspent positions. -/
namespace Whippet.Indexer
open Lib

def unspent (positions : Table Outpoint Position) : Multiset Position :=
  (Table.rows positions).filter fun pos => pos.spent = false

/-- The summary row of an origin, recomputed from the unspent positions. -/
structure LineageAgg.Describes (agg : LineageAgg) (origin : Text) (s : Multiset Position) : Prop where
  multiplier : ∀ pos ∈ s, pos.origin = origin → agg.multiplier = pos.multiplier
  unspentValue : agg.unspentValue = groupTotal Position.origin Position.value origin s
  holderCount : agg.holderCount = groupMembers Position.origin Position.pubKey origin s
  positionCount : agg.positionCount = groupCount Position.origin origin s
  hasMint : agg.hasMint = true ↔ ∃ pos ∈ s, pos.origin = origin ∧ pos.isMint = true
  mintHeight : ∀ pos ∈ s, pos.origin = origin → pos.isMint = true → agg.mintHeight = pos.height
  noMint : agg.hasMint = false → agg.mintHeight = 0

/-- Both tables are what a recomputation from the unspent positions gives. -/
structure LineageTables.Recomputed (t : LineageTables) (s : Multiset Position) : Prop where
  absent : ∀ origin, groupCount Position.origin origin s = 0 → t.lineages.lookup origin = none
  present : ∀ origin, groupCount Position.origin origin s ≠ 0 →
    ∃ agg, t.lineages.lookup origin = some agg ∧ agg.Describes origin s
  holders : ∀ origin pubKey, t.holders.lookup (origin, pubKey) =
    if memberCount Position.origin Position.pubKey origin pubKey s = 0 then none
    else some (memberCount Position.origin Position.pubKey origin pubKey s : ℤ)

/-- Unspent positions as the chain leaves them: a lineage has one multiplier and a total that fits the column,
and no two mint outpoints hash to one origin. -/
structure LineagesSound (s : Multiset Position) : Prop where
  multiplier : ∀ p ∈ s, ∀ q ∈ s, p.origin = q.origin → p.multiplier = q.multiplier
  total : ∀ origin, groupTotal Position.origin Position.value origin s < 2 ^ 63
  mint : ∀ p ∈ s, ∀ q ∈ s, p.isMint = true → q.isMint = true → p.origin = q.origin → p.key = q.key

variable {s : Multiset Position} {pos : Position} {t : LineageTables} {agg : LineageAgg}

theorem lineagesSound_iff : LineagesSound s ↔ (∀ p ∈ s, ∀ q ∈ s, p.origin = q.origin → p.multiplier = q.multiplier) ∧
    (∀ p ∈ s, groupTotal Position.origin Position.value p.origin s < 2 ^ 63) ∧
    ∀ p ∈ s, ∀ q ∈ s, p.isMint = true → q.isMint = true → p.origin = q.origin → p.key = q.key := by
  constructor
  · intro h
    exact ⟨h.multiplier, fun p _ => h.total p.origin, h.mint⟩
  · rintro ⟨hmultiplier, htotal, hmint⟩
    refine ⟨hmultiplier, ?_, hmint⟩
    intro origin
    by_cases horigin : ∃ p ∈ s, p.origin = origin
    · obtain ⟨p, hp, rfl⟩ := horigin
      exact htotal p hp
    · have hrows : groupRows Position.origin origin s = 0 := by
        apply Multiset.filter_eq_nil.mpr
        intro p hp heq
        exact horigin ⟨p, hp, heq⟩
      simp [groupTotal, hrows]

instance (s : Multiset Position) : Decidable (LineagesSound s) := decidable_of_iff' _ lineagesSound_iff

theorem LineagesSound.mono {s' : Multiset Position} (h : LineagesSound s) (hle : s' ≤ s)
    (hvalue : ∀ pos ∈ s, 0 ≤ pos.value) : LineagesSound s' where
  multiplier p hp q hq := h.multiplier p (Multiset.mem_of_le hle hp) q (Multiset.mem_of_le hle hq)
  total origin := lt_of_le_of_lt (groupTotal_mono hle hvalue) (h.total origin)
  mint p hp q hq := h.mint p (Multiset.mem_of_le hle hp) q (Multiset.mem_of_le hle hq)

theorem LineagesSound.no_other_mint (h : LineagesSound (pos ::ₘ s)) (hkeys : ((pos ::ₘ s).map Position.key).Nodup)
    (hmint : pos.isMint = true) : ∀ q ∈ s, q.origin = pos.origin → q.isMint = false := by
  intro q hq horigin
  by_contra hne
  have hkey := h.mint q (Multiset.mem_cons_of_mem hq) pos (Multiset.mem_cons_self pos s) (by simpa using hne) hmint
    horigin
  rw [Multiset.map_cons, Multiset.nodup_cons] at hkeys
  exact hkeys.1 (hkey ▸ Multiset.mem_map_of_mem Position.key hq)

theorem satAdd_of_le {a b : ℤ} (h : a + b < 2 ^ 63) : satAdd a b = a + b := by
  unfold satAdd maxInt64
  rw [if_neg]
  omega

theorem holderN_eq (h : t.Recomputed s) (origin pubKey : Text) :
    t.holderN origin pubKey = memberCount Position.origin Position.pubKey origin pubKey s := by
  unfold LineageTables.holderN
  rw [h.holders]
  split_ifs with hzero
  · simp [hzero]
  · rfl

theorem describes_empty {origin : Text} (h : groupCount Position.origin origin s = 0) :
    ({} : LineageAgg).Describes origin s := by
  have hrows : groupRows Position.origin origin s = 0 := Multiset.card_eq_zero.mp h
  have hnone := groupCount_eq_zero.mp h
  refine ⟨?_, ?_, ?_, ?_, ?_, ?_, fun _ => rfl⟩
  · intro pos hpos horigin
    exact absurd horigin (hnone pos hpos)
  · simp [groupTotal, hrows]
  · simp [groupMembers, hrows]
  · simp [h]
  · simp only [Bool.false_eq_true, false_iff]
    rintro ⟨pos, hpos, horigin, -⟩
    exact hnone pos hpos horigin
  · intro pos hpos horigin
    exact absurd horigin (hnone pos hpos)

theorem describes_getD (h : t.Recomputed s) (origin : Text) :
    ((t.lineages.lookup origin).getD {}).Describes origin s := by
  by_cases hzero : groupCount Position.origin origin s = 0
  · rw [h.absent origin hzero]
    exact describes_empty hzero
  · obtain ⟨agg, hagg, hdesc⟩ := h.present origin hzero
    rwa [hagg]

theorem describes_cons_ne {origin : Text} (hne : pos.origin ≠ origin) :
    agg.Describes origin (pos ::ₘ s) ↔ agg.Describes origin s := by
  have hrows : groupRows Position.origin origin (pos ::ₘ s) = groupRows Position.origin origin s :=
    groupRows_cons_ne hne
  have hforall : ∀ P : Position → Prop, (∀ q ∈ pos ::ₘ s, q.origin = origin → P q) ↔
      ∀ q ∈ s, q.origin = origin → P q := by
    intro P
    rw [Multiset.forall_mem_cons]
    exact and_iff_right fun horigin => absurd horigin hne
  have hmint : (∃ q ∈ pos ::ₘ s, q.origin = origin ∧ q.isMint = true) ↔
      ∃ q ∈ s, q.origin = origin ∧ q.isMint = true := by
    simp only [Multiset.mem_cons, exists_eq_or_imp]
    exact or_iff_right fun horigin => hne horigin.1
  constructor <;>
  · rintro ⟨h₁, h₂, h₃, h₄, h₅, h₆, h₇⟩
    simp only [groupTotal, groupMembers, groupCount, hrows] at h₂ h₃ h₄
    refine ⟨?_, by simp only [groupTotal, hrows, h₂], by simp only [groupMembers, hrows, h₃],
      by simp only [groupCount, hrows, h₄], by rw [h₅, hmint], ?_, h₇⟩
    · simpa only [hforall] using h₁
    · simpa only [hforall] using h₆

theorem LineageAgg.Describes.add {n : ℤ} (h : agg.Describes pos.origin s)
    (hn : n = memberCount Position.origin Position.pubKey pos.origin pos.pubKey s) (hvalue : 0 ≤ pos.value)
    (hsound : LineagesSound (pos ::ₘ s)) (hkeys : ((pos ::ₘ s).map Position.key).Nodup) :
    (agg.add n pos).Describes pos.origin (pos ::ₘ s) where
  multiplier q hq horigin := hsound.multiplier pos (Multiset.mem_cons_self pos s) q hq horigin.symm
  unspentValue := by
    have htotal := hsound.total pos.origin
    rw [groupTotal_cons_self rfl] at htotal ⊢
    have hold := h.unspentValue
    simp only [LineageAgg.add]
    split_ifs with hpos
    · rw [satAdd_of_le (by omega)]
      omega
    · omega
  holderCount := by
    have hold := h.holderCount
    rw [groupMembers_cons_self rfl]
    simp only [LineageAgg.add, hn, Nat.cast_eq_zero]
    split_ifs <;> push_cast <;> omega
  positionCount := by
    have hold := h.positionCount
    rw [groupCount_cons_self rfl]
    simp only [LineageAgg.add]
    omega
  hasMint := by
    simp only [LineageAgg.add, Multiset.mem_cons, exists_eq_or_imp]
    split_ifs with hmint
    · simp [hmint]
    · simp [hmint, h.hasMint]
  mintHeight q hq horigin hmint := by
    rcases Multiset.mem_cons.mp hq with rfl | hq
    · simp [LineageAgg.add, hmint]
    · have hpos : ¬ pos.isMint = true := by
        intro hpos
        have hother := hsound.no_other_mint hkeys hpos q hq horigin
        rw [hmint] at hother
        contradiction
      simp only [LineageAgg.add, if_neg hpos]
      exact h.mintHeight q hq horigin hmint
  noMint := by
    simp only [LineageAgg.add]
    split_ifs with hmint
    · intro hfalse
      contradiction
    · exact h.noMint

theorem LineageAgg.Describes.remove {n : ℤ} (h : agg.Describes pos.origin (pos ::ₘ s))
    (hn : n = memberCount Position.origin Position.pubKey pos.origin pos.pubKey s + 1) (hvalue : 0 ≤ pos.value)
    (hrest : ∀ q ∈ s, 0 ≤ q.value) (hsound : LineagesSound (pos ::ₘ s))
    (hkeys : ((pos ::ₘ s).map Position.key).Nodup) : (agg.remove n pos).Describes pos.origin s where
  multiplier q hq horigin := h.multiplier q (Multiset.mem_cons_of_mem hq) horigin
  unspentValue := by
    have hold := h.unspentValue
    have hnonneg : 0 ≤ groupTotal Position.origin Position.value pos.origin s := groupTotal_nonneg hrest
    rw [groupTotal_cons_self rfl] at hold
    simp only [LineageAgg.remove]
    split_ifs with hpos
    · rw [max_eq_left (by omega)]
      omega
    · omega
  holderCount := by
    have hold := h.holderCount
    rw [groupMembers_cons_self rfl] at hold
    simp only [LineageAgg.remove, hn]
    split_ifs at hold ⊢ <;> push_cast at hold <;> omega
  positionCount := by
    have hold := h.positionCount
    rw [groupCount_cons_self rfl] at hold
    simp only [LineageAgg.remove]
    push_cast at hold
    omega
  hasMint := by
    have hold := h.hasMint
    simp only [Multiset.mem_cons, exists_eq_or_imp] at hold
    simp only [LineageAgg.remove]
    split_ifs with hmint
    · simp only [false_iff]
      rintro ⟨q, hq, horigin, hqmint⟩
      rw [hsound.no_other_mint hkeys hmint q hq horigin] at hqmint
      contradiction
    · simpa [hmint] using hold
  mintHeight q hq horigin hqmint := by
    have hpos : ¬ pos.isMint = true := by
      intro hpos
      rw [hsound.no_other_mint hkeys hpos q hq horigin] at hqmint
      contradiction
    simp only [LineageAgg.remove, if_neg hpos]
    exact h.mintHeight q (Multiset.mem_cons_of_mem hq) horigin hqmint
  noMint := by
    simp only [LineageAgg.remove]
    split_ifs with hmint
    · exact fun _ => rfl
    · exact h.noMint

theorem LineageTables.Recomputed.add (h : t.Recomputed s) (horigin : pos.origin ≠ []) (hvalue : 0 ≤ pos.value)
    (hsound : LineagesSound (pos ::ₘ s)) (hkeys : ((pos ::ₘ s).map Position.key).Nodup) :
    (t.add pos).Recomputed (pos ::ₘ s) := by
  unfold LineageTables.add
  rw [if_neg horigin]
  have hnew := (describes_getD h pos.origin).add (holderN_eq h pos.origin pos.pubKey) hvalue hsound hkeys
  refine ⟨?_, ?_, ?_⟩
  · intro origin hzero
    have hnone := groupCount_eq_zero.mp hzero
    rw [Table.lookup_insert_eq, if_neg (hnone pos (Multiset.mem_cons_self pos s)).symm]
    apply h.absent
    rw [groupCount_eq_zero]
    exact fun q hq => hnone q (Multiset.mem_cons_of_mem hq)
  · intro origin hsome
    rw [Table.lookup_insert_eq]
    split_ifs with heq
    · exact ⟨_, rfl, heq ▸ hnew⟩
    · have hcount : groupCount Position.origin origin s ≠ 0 := by
        rwa [groupCount, groupRows_cons_ne (Ne.symm heq)] at hsome
      obtain ⟨agg, hagg, hdesc⟩ := h.present origin hcount
      exact ⟨agg, hagg, (describes_cons_ne (Ne.symm heq)).mpr hdesc⟩
  · intro origin pubKey
    rw [Table.lookup_insert_eq, holderN_eq h]
    by_cases heq : pos.origin = origin
    · subst heq
      rw [memberCount_cons_self rfl, h.holders]
      by_cases hkey : pos.pubKey = pubKey
      · subst hkey
        simp
      · have hne : ¬ (pos.origin, pubKey) = (pos.origin, pos.pubKey) := by simpa [eq_comm] using hkey
        simp [hkey, hne]
    · have hne : ¬ (origin, pubKey) = (pos.origin, pos.pubKey) := by
        intro e
        exact heq (congrArg Prod.fst e).symm
      rw [if_neg hne, memberCount_cons_ne heq, h.holders]

theorem dropHolder_lookup (h : t.Recomputed (pos ::ₘ s)) (origin pubKey : Text) :
    (t.dropHolder (t.holderN pos.origin pos.pubKey) pos).lookup (origin, pubKey) =
      if memberCount Position.origin Position.pubKey origin pubKey s = 0 then none
      else some (memberCount Position.origin Position.pubKey origin pubKey s : ℤ) := by
  have hn := holderN_eq h pos.origin pos.pubKey
  rw [memberCount_cons_self rfl, if_pos rfl] at hn
  unfold LineageTables.dropHolder
  by_cases heq : (origin, pubKey) = (pos.origin, pos.pubKey)
  · obtain ⟨rfl, rfl⟩ := Prod.mk.inj heq
    by_cases hle : t.holderN pos.origin pos.pubKey ≤ 1
    · rw [if_pos hle, Finmap.lookup_erase, if_pos (by omega)]
    · rw [if_neg hle, Finmap.lookup_insert, if_neg (by omega), hn, Nat.cast_add, Nat.cast_one, add_sub_cancel_right]
  · have hother : (t.dropHolder (t.holderN pos.origin pos.pubKey) pos).lookup (origin, pubKey) =
        t.holders.lookup (origin, pubKey) := by
      unfold LineageTables.dropHolder
      split_ifs
      · rw [Table.lookup_erase_eq, if_neg heq]
      · rw [Table.lookup_insert_eq, if_neg heq]
    have hcount : memberCount Position.origin Position.pubKey origin pubKey (pos ::ₘ s) =
        memberCount Position.origin Position.pubKey origin pubKey s := by
      by_cases horigin : pos.origin = origin
      · have hkey : pos.pubKey ≠ pubKey := fun e => heq (by rw [horigin, e])
        rw [memberCount_cons_self horigin, if_neg hkey, add_zero]
      · exact memberCount_cons_ne horigin
    unfold LineageTables.dropHolder at hother
    rw [hother, h.holders, hcount]

theorem LineageTables.Recomputed.remove (h : t.Recomputed (pos ::ₘ s)) (horigin : pos.origin ≠ [])
    (hvalue : 0 ≤ pos.value) (hrest : ∀ q ∈ s, 0 ≤ q.value) (hsound : LineagesSound (pos ::ₘ s))
    (hkeys : ((pos ::ₘ s).map Position.key).Nodup) : (t.remove pos).Recomputed s := by
  have hsome : groupCount Position.origin pos.origin (pos ::ₘ s) ≠ 0 := by
    rw [groupCount_cons_self rfl]
    omega
  obtain ⟨agg, hagg, hdesc⟩ := h.present pos.origin hsome
  have hn := holderN_eq h pos.origin pos.pubKey
  rw [memberCount_cons_self rfl, if_pos rfl, Nat.cast_add, Nat.cast_one] at hn
  have hnew := hdesc.remove hn hvalue hrest hsound hkeys
  have hcount := hnew.positionCount
  have hother : ∀ origin, origin ≠ pos.origin →
      groupCount Position.origin origin (pos ::ₘ s) = groupCount Position.origin origin s := by
    intro origin hne
    rw [groupCount, groupRows_cons_ne hne.symm, groupCount]
  -- the rows of the other origins stay as they are
  have habsent : ∀ origin, origin ≠ pos.origin → groupCount Position.origin origin s = 0 →
      t.lineages.lookup origin = none := by
    intro origin hne hzero
    exact h.absent origin ((hother origin hne).trans hzero)
  have hpresent : ∀ origin, origin ≠ pos.origin → groupCount Position.origin origin s ≠ 0 →
      ∃ agg, t.lineages.lookup origin = some agg ∧ agg.Describes origin s := by
    intro origin hne hcount
    obtain ⟨agg, hagg, hdesc⟩ := h.present origin (by rwa [hother origin hne])
    exact ⟨agg, hagg, (describes_cons_ne hne.symm).mp hdesc⟩
  unfold LineageTables.remove
  rw [if_neg horigin]
  simp only [hagg]
  split_ifs with hlast
  · have hzero : groupCount Position.origin pos.origin s = 0 := by omega
    refine ⟨?_, ?_, ?_⟩
    · intro origin hcount
      rw [Table.lookup_erase_eq]
      split_ifs with heq
      · rfl
      · exact habsent origin heq hcount
    · intro origin hcount
      have hne : origin ≠ pos.origin := fun e => hcount (e ▸ hzero)
      rw [Table.lookup_erase_eq, if_neg hne]
      exact hpresent origin hne hcount
    · intro origin pubKey
      rw [Table.lookup_deleteWhere, dropHolder_lookup h]
      by_cases heq : origin = pos.origin
      · subst heq
        rw [if_pos rfl, if_pos (memberCount_of_groupCount_eq_zero hzero pubKey)]
      · rw [if_neg heq]
  · refine ⟨?_, ?_, dropHolder_lookup h⟩
    · intro origin hzero
      have hne : origin ≠ pos.origin := by
        rintro rfl
        omega
      rw [Table.lookup_insert_eq, if_neg hne]
      exact habsent origin hne hzero
    · intro origin hsome
      rw [Table.lookup_insert_eq]
      split_ifs with heq
      · exact ⟨_, rfl, heq ▸ hnew⟩
      · exact hpresent origin heq hsome

theorem LineageTables.Recomputed.unique {t' : LineageTables} (h : t.Recomputed s) (h' : t'.Recomputed s) : t = t' := by
  have hlineages : t.lineages = t'.lineages := by
    apply Finmap.ext_lookup
    intro origin
    by_cases hzero : groupCount Position.origin origin s = 0
    · rw [h.absent origin hzero, h'.absent origin hzero]
    · obtain ⟨agg, hagg, hdesc⟩ := h.present origin hzero
      obtain ⟨agg', hagg', hdesc'⟩ := h'.present origin hzero
      obtain ⟨pos, hpos, horigin⟩ : ∃ pos ∈ s, pos.origin = origin := by
        by_contra hnone
        simp only [not_exists, not_and] at hnone
        exact hzero (groupCount_eq_zero.mpr hnone)
      have hmint : agg.hasMint = agg'.hasMint := by
        rw [Bool.eq_iff_iff, hdesc.hasMint, hdesc'.hasMint]
      have hheight : agg.mintHeight = agg'.mintHeight := by
        cases hhas : agg.hasMint with
        | false => rw [hdesc.noMint hhas, hdesc'.noMint (hmint ▸ hhas)]
        | true =>
          obtain ⟨q, hq, hqorigin, hqmint⟩ := hdesc.hasMint.mp hhas
          rw [hdesc.mintHeight q hq hqorigin hqmint, hdesc'.mintHeight q hq hqorigin hqmint]
      rw [hagg, hagg']
      cases agg
      cases agg'
      congr 2
      · exact (hdesc.multiplier pos hpos horigin).trans (hdesc'.multiplier pos hpos horigin).symm
      · exact hdesc.unspentValue.trans hdesc'.unspentValue.symm
      · exact hdesc.holderCount.trans hdesc'.holderCount.symm
      · exact hdesc.positionCount.trans hdesc'.positionCount.symm
  have hholders : t.holders = t'.holders := by
    apply Finmap.ext_lookup
    rintro ⟨origin, pubKey⟩
    rw [h.holders, h'.holders]
  cases t
  cases t'
  congr

end Whippet.Indexer
