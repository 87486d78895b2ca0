import Mathlib.Algebra.Order.Group.Multiset
import Mathlib.Data.Finmap
import Mathlib.Data.Multiset.Filter

/-! Database tables: rows under a primary key. -/
namespace Whippet.Lib

abbrev Table (κ ν : Type*) := Finmap fun _ : κ => ν

namespace Table

variable {κ ν : Type*}

def rows (t : Table κ ν) : Multiset ν := t.entries.map Sigma.snd

def deleteWhere (p : κ → Prop) [DecidablePred p] (t : Table κ ν) : Table κ ν where
  entries := t.entries.filter fun e => ¬ p e.1
  nodupKeys := by
    obtain ⟨entries, nodup⟩ := t
    induction entries using Quotient.inductionOn with
    | h l => exact List.NodupKeys.sublist List.filter_sublist nodup

def Keyed [DecidableEq κ] (key : ν → κ) (t : Table κ ν) : Prop := ∀ k v, t.lookup k = some v → key v = k

variable [DecidableEq κ]

theorem lookup_insert_eq (t : Table κ ν) (k k' : κ) (v : ν) :
    (t.insert k v).lookup k' = if k' = k then some v else t.lookup k' := by
  split_ifs with h
  · rw [h, Finmap.lookup_insert]
  · exact Finmap.lookup_insert_of_ne t h

theorem lookup_erase_eq (t : Table κ ν) (k k' : κ) :
    (t.erase k).lookup k' = if k' = k then none else t.lookup k' := by
  split_ifs with h
  · rw [h, Finmap.lookup_erase]
  · exact Finmap.lookup_erase_ne h

theorem lookup_deleteWhere (p : κ → Prop) [DecidablePred p] (t : Table κ ν) (k : κ) :
    (deleteWhere p t).lookup k = if p k then none else t.lookup k := by
  apply Option.ext
  intro v
  have hmem : (⟨k, v⟩ : Sigma fun _ : κ => ν) ∈ (deleteWhere p t).entries ↔ ⟨k, v⟩ ∈ t.entries ∧ ¬ p k :=
    Multiset.mem_filter
  rw [Finmap.lookup_eq_some_iff, hmem, ← Finmap.lookup_eq_some_iff]
  split_ifs with h <;> simp [h]

theorem insert_erase (t : Table κ ν) (k : κ) (v : ν) : (t.erase k).insert k v = t.insert k v := by
  apply Finmap.ext_lookup
  intro k'
  simp only [lookup_insert_eq, lookup_erase_eq]
  split_ifs <;> rfl

theorem insert_erase_of_lookup {t : Table κ ν} {k : κ} {v : ν} (h : t.lookup k = some v) :
    (t.erase k).insert k v = t := by
  apply Finmap.ext_lookup
  intro k'
  simp only [lookup_insert_eq, lookup_erase_eq]
  split_ifs with hk
  · rw [hk, h]
  · rfl

theorem rows_insert_of_lookup_none {t : Table κ ν} {k : κ} (h : t.lookup k = none) (v : ν) :
    rows (t.insert k v) = v ::ₘ rows t := by
  rw [rows, Finmap.entries_insert_of_notMem (Finmap.lookup_eq_none.mp h), Multiset.map_cons, rows]

theorem rows_insert (t : Table κ ν) (k : κ) (v : ν) : rows (t.insert k v) = v ::ₘ rows (t.erase k) := by
  rw [← insert_erase, rows_insert_of_lookup_none (Finmap.lookup_erase k t)]

theorem rows_of_lookup {t : Table κ ν} {k : κ} {v : ν} (h : t.lookup k = some v) :
    rows t = v ::ₘ rows (t.erase k) := by
  conv_lhs => rw [← insert_erase_of_lookup h]
  exact rows_insert_of_lookup_none (Finmap.lookup_erase k t) v

theorem erase_of_lookup_none {t : Table κ ν} {k : κ} (h : t.lookup k = none) : t.erase k = t := by
  apply Finmap.ext_lookup
  intro k'
  rw [lookup_erase_eq]
  split_ifs with hk
  · rw [hk, h]
  · rfl

theorem mem_rows {t : Table κ ν} {v : ν} : v ∈ rows t ↔ ∃ k, t.lookup k = some v := by
  constructor
  · intro h
    obtain ⟨⟨k, w⟩, he, rfl⟩ := Multiset.mem_map.mp h
    exact ⟨k, Finmap.lookup_eq_some_iff.mpr he⟩
  · rintro ⟨k, h⟩
    exact Multiset.mem_map.mpr ⟨⟨k, v⟩, Finmap.lookup_eq_some_iff.mp h, rfl⟩

variable {key : ν → κ} {t : Table κ ν}

theorem Keyed.empty : Keyed key (∅ : Table κ ν) := by
  intro k v h
  simp at h

theorem Keyed.insert (h : Keyed key t) {k : κ} {v : ν} (hv : key v = k) : Keyed key (t.insert k v) := by
  intro k' v' hlookup
  rw [lookup_insert_eq] at hlookup
  split_ifs at hlookup with hk
  · obtain rfl : v = v' := Option.some.inj hlookup
    rw [hv, hk]
  · exact h k' v' hlookup

theorem Keyed.erase (h : Keyed key t) (k : κ) : Keyed key (t.erase k) := by
  intro k' v hlookup
  rw [lookup_erase_eq] at hlookup
  split_ifs at hlookup
  exact h k' v hlookup

theorem Keyed.rows_nodup (h : Keyed key t) : ((rows t).map key).Nodup := by
  have hkeys : (rows t).map key = t.entries.map Sigma.fst := by
    rw [rows, Multiset.map_map]
    apply Multiset.map_congr rfl
    rintro ⟨k, v⟩ he
    exact h k v (Finmap.lookup_eq_some_iff.mpr he)
  rw [hkeys]
  exact t.keys.nodup

end Table
end Whippet.Lib
