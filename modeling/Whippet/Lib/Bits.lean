import Mathlib.Data.List.Induction
import Mathlib.Tactic.Ring

/-! Numbers of a fixed width written as one string of bits, most significant first, and read back in blocks. -/
namespace Whippet.Lib

def bitsOf : ℕ → ℕ → List Bool
  | 0, _ => []
  | w + 1, n => bitsOf w (n / 2) ++ [decide (n % 2 = 1)]

def ofBits (bits : List Bool) : ℕ := bits.foldl (fun n b => 2 * n + b.toNat) 0

/-- The blocks that a loop in steps of `w` cuts a list into. The last one can be shorter. -/
def chunks {α : Type*} (w : ℕ) (l : List α) : List (List α) :=
  (List.range ((l.length + w - 1) / w)).map fun i => (l.drop (i * w)).take w

def encodeBits (w : ℕ) (ns : List ℕ) : List Bool := ns.flatMap (bitsOf w)

def decodeBits (w : ℕ) (bits : List Bool) : List ℕ := (chunks w bits).map ofBits

section
variable {w n : ℕ} {bits : List Bool} {ns : List ℕ}

@[simp] theorem length_bitsOf (w n : ℕ) : (bitsOf w n).length = w := by
  induction w generalizing n with
  | zero => rfl
  | succ w ih => simp [bitsOf, ih]

theorem ofBits_append_singleton (bits : List Bool) (b : Bool) : ofBits (bits ++ [b]) = 2 * ofBits bits + b.toNat := by
  simp [ofBits, List.foldl_append]

theorem ofBits_bitsOf (h : n < 2 ^ w) : ofBits (bitsOf w n) = n := by
  induction w generalizing n with
  | zero => exact (Nat.lt_one_iff.mp h).symm
  | succ w ih =>
    have hlow : (decide (n % 2 = 1)).toNat = n % 2 := by
      rcases Nat.mod_two_eq_zero_or_one n with h0 | h1
      · simp [h0]
      · simp [h1]
    rw [bitsOf, ofBits_append_singleton, ih (by rw [pow_succ] at h; omega), hlow]
    omega

theorem bitsOf_ofBits (bits : List Bool) : bitsOf bits.length (ofBits bits) = bits := by
  induction bits using List.reverseRecOn with
  | nil => rfl
  | append_singleton bits b ih =>
    have hb : b.toNat ≤ 1 := Bool.toNat_le b
    have hdiv : (2 * ofBits bits + b.toNat) / 2 = ofBits bits := by omega
    have hlow : decide ((2 * ofBits bits + b.toNat) % 2 = 1) = b := by cases b <;> simp
    rw [List.length_append, List.length_singleton, bitsOf, ofBits_append_singleton, hdiv, hlow, ih]

theorem ofBits_lt (bits : List Bool) : ofBits bits < 2 ^ bits.length := by
  induction bits using List.reverseRecOn with
  | nil => simp [ofBits]
  | append_singleton bits b ih =>
    have hb : b.toNat ≤ 1 := Bool.toNat_le b
    rw [ofBits_append_singleton, List.length_append, List.length_singleton, pow_succ]
    omega

end

section
variable {α : Type*} {w : ℕ}

@[simp] theorem chunks_nil (hw : 0 < w) : chunks w ([] : List α) = [] := by
  have hzero : (w - 1) / w = 0 := Nat.div_eq_of_lt (by omega)
  simp [chunks, hzero]

theorem chunks_append {block l : List α} (hw : 0 < w) (hblock : block.length = w) :
    chunks w (block ++ l) = block :: chunks w l := by
  have hcount : ((block ++ l).length + w - 1) / w = (l.length + w - 1) / w + 1 := by
    rw [List.length_append, hblock, show w + l.length + w - 1 = l.length + w - 1 + w by omega, Nat.add_div_right _ hw]
  have hblocks : ∀ i, ((block ++ l).drop ((i + 1) * w)).take w = (l.drop (i * w)).take w := by
    intro i
    rw [show (i + 1) * w = block.length + i * w by rw [hblock]; ring, ← List.drop_drop, List.drop_left]
  rw [chunks, hcount, List.range_succ_eq_map, List.map_cons, List.map_map, Nat.zero_mul, List.drop_zero,
    List.take_append_of_le_length hblock.ge, ← hblock, List.take_length, hblock]
  exact congrArg _ (List.map_congr_left fun i _ => hblocks i)

theorem chunks_flatten {blocks : List (List α)} (hw : 0 < w) (h : ∀ b ∈ blocks, b.length = w) :
    chunks w blocks.flatten = blocks := by
  induction blocks with
  | nil => exact chunks_nil hw
  | cons b blocks ih =>
    rw [List.flatten_cons, chunks_append hw (h b List.mem_cons_self), ih fun b hb => h b (List.mem_cons_of_mem _ hb)]

theorem exists_blocks {k : ℕ} {l : List α} (h : l.length = k * w) :
    ∃ blocks : List (List α), blocks.length = k ∧ (∀ b ∈ blocks, b.length = w) ∧ l = blocks.flatten := by
  induction k generalizing l with
  | zero => exact ⟨[], rfl, by simp, List.length_eq_zero_iff.mp (by simpa using h)⟩
  | succ k ih =>
    rw [Nat.succ_mul] at h
    obtain ⟨blocks, hcount, hblocks, hl⟩ := ih (l := l.drop w) (by rw [List.length_drop]; omega)
    refine ⟨l.take w :: blocks, by simp [hcount], ?_, by rw [List.flatten_cons, ← hl, List.take_append_drop]⟩
    intro b hb
    rcases List.mem_cons.mp hb with rfl | hb
    · rw [List.length_take]; omega
    · exact hblocks b hb

end

section
variable {w k : ℕ} {bits : List Bool} {ns : List ℕ}

@[simp] theorem length_encodeBits (w : ℕ) (ns : List ℕ) : (encodeBits w ns).length = ns.length * w := by
  induction ns with
  | nil => simp [encodeBits]
  | cons n ns ih => rw [encodeBits, List.flatMap_cons, List.length_append, ← encodeBits, ih, length_bitsOf,
      List.length_cons]; ring

theorem decodeBits_encodeBits (hw : 0 < w) (h : ∀ n ∈ ns, n < 2 ^ w) : decodeBits w (encodeBits w ns) = ns := by
  have hblocks : chunks w (encodeBits w ns) = ns.map (bitsOf w) := by
    rw [encodeBits, List.flatMap_def]
    exact chunks_flatten hw fun b hb => by
      obtain ⟨n, -, rfl⟩ := List.mem_map.mp hb
      exact length_bitsOf w n
  rw [decodeBits, hblocks, List.map_map]
  exact (List.map_congr_left fun n hn => ofBits_bitsOf (h n hn)).trans (List.map_id _)

theorem decodeBits_spec (hw : 0 < w) (h : bits.length = k * w) :
    (decodeBits w bits).length = k ∧ (∀ n ∈ decodeBits w bits, n < 2 ^ w) ∧ encodeBits w (decodeBits w bits) = bits := by
  obtain ⟨blocks, hcount, hblocks, rfl⟩ := exists_blocks h
  rw [decodeBits, chunks_flatten hw hblocks]
  refine ⟨by simpa using hcount, ?_, ?_⟩
  · intro n hn
    obtain ⟨b, hb, rfl⟩ := List.mem_map.mp hn
    exact hblocks b hb ▸ ofBits_lt b
  · rw [encodeBits, List.flatMap_def, List.map_map]
    refine congrArg List.flatten ((List.map_congr_left fun b hb => ?_).trans (List.map_id _))
    exact hblocks b hb ▸ bitsOf_ofBits b

end
end Whippet.Lib
