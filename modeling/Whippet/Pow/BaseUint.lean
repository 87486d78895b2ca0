import Mathlib.Tactic.IntervalCases
import Whippet.Lib.Limbs

/-! `base_uint`, word by word. -/
namespace Whippet.Pow
open Lib

/-- `base_uint<BITS>`. Its words stand with the least significant first. -/
structure BaseUint (width : ℕ) where
  pn : List UInt32
  size_eq : pn.length = width
  deriving DecidableEq, Repr

namespace BaseUint
variable {width : ℕ}

def value (a : BaseUint width) : ℕ := limbsValue a.pn

def zero : BaseUint width := ⟨List.replicate width 0, List.length_replicate⟩

def word (a : BaseUint width) (i : ℕ) : UInt32 := a.pn.getD i 0

def orWord (a : BaseUint width) (i : ℕ) (w : UInt32) : BaseUint width :=
  ⟨a.pn.modify i (· ||| w), (List.length_modify ..).trans a.size_eq⟩

/-- One round of `operator<<=`, with the shift split in words and bits. -/
def shlRound (a : BaseUint width) (k shift : ℕ) (out : BaseUint width) (i : ℕ) : BaseUint width :=
  let out := if i + k + 1 < width ∧ shift ≠ 0 then out.orWord (i + k + 1) (a.word i >>> .ofNat (32 - shift)) else out
  if i + k < width then out.orWord (i + k) (a.word i <<< .ofNat shift) else out

/-- `operator<<=`. -/
def shl (a : BaseUint width) (shift : ℕ) : BaseUint width :=
  (List.range width).foldl (a.shlRound (shift / 32) (shift % 32)) zero

/-- One round of `operator>>=`. -/
def shrRound (a : BaseUint width) (k shift : ℕ) (out : BaseUint width) (i : ℕ) : BaseUint width :=
  let out := if k + 1 ≤ i ∧ shift ≠ 0 then out.orWord (i - k - 1) (a.word i <<< .ofNat (32 - shift)) else out
  if k ≤ i then out.orWord (i - k) (a.word i >>> .ofNat shift) else out

/-- `operator>>=`. -/
def shr (a : BaseUint width) (shift : ℕ) : BaseUint width :=
  (List.range width).foldl (a.shrRound (shift / 32) (shift % 32)) zero

/-- The loop of `operator+=`. -/
def addLoop : UInt64 → List UInt32 → List UInt32 → List UInt32
  | carry, w :: pn, b :: bs =>
    let n := carry + w.toUInt64 + b.toUInt64
    (n &&& 0xffffffff).toUInt32 :: addLoop (n >>> 32) pn bs
  | _, _, _ => []

/-- The loop of `operator++`, which goes on while a word wraps. -/
def incrLoop : List UInt32 → List UInt32
  | [] => []
  | w :: pn => (w + 1) :: if w + 1 = 0 then incrLoop pn else pn

theorem length_addLoop (carry : UInt64) (pn bs : List UInt32) (h : pn.length = bs.length) :
    (addLoop carry pn bs).length = pn.length := by
  induction pn generalizing carry bs with
  | nil => rfl
  | cons w pn ih =>
    cases bs with
    | nil => cases h
    | cons b bs => rw [addLoop, List.length_cons, ih _ _ (Nat.succ.inj h), List.length_cons]

theorem length_incrLoop (pn : List UInt32) : (incrLoop pn).length = pn.length := by
  induction pn with
  | nil => rfl
  | cons w pn ih =>
    rw [incrLoop]
    split_ifs
    · rw [List.length_cons, ih, List.length_cons]
    · rfl

/-- `operator+=`. -/
def add (a b : BaseUint width) : BaseUint width :=
  ⟨addLoop 0 a.pn b.pn, (length_addLoop _ _ _ (a.size_eq.trans b.size_eq.symm)).trans a.size_eq⟩

/-- `operator-`. -/
def neg (a : BaseUint width) : BaseUint width :=
  ⟨incrLoop (a.pn.map (~~~ ·)), by rw [length_incrLoop, List.length_map, a.size_eq]⟩

/-- `operator-=`. -/
def sub (a b : BaseUint width) : BaseUint width := a.add b.neg

/-- A row of `operator*=`: adds the product of a word and `bs` to the words from a position on. -/
def mulRow (w : UInt32) : UInt64 → List UInt32 → List UInt32 → List UInt32
  | carry, p :: pn, b :: bs =>
    let n := carry + p.toUInt64 + w.toUInt64 * b.toUInt64
    (n &&& 0xffffffff).toUInt32 :: mulRow w (n >>> 32) pn bs
  | _, pn, _ => pn

/-- The rows of `operator*=`. A row leaves the words before its position alone. -/
def mulRows (bs : List UInt32) : List UInt32 → List UInt32 → List UInt32
  | [], pn => pn
  | w :: ws, pn =>
    match mulRow w 0 pn bs with
    | [] => []
    | p :: rest => p :: mulRows bs ws rest

theorem length_mulRow (w : UInt32) (carry : UInt64) (pn bs : List UInt32) :
    (mulRow w carry pn bs).length = pn.length := by
  fun_induction mulRow w carry pn bs with
  | case1 carry p pn b bs n ih => rw [List.length_cons, List.length_cons, ih]
  | case2 => rfl

theorem length_mulRows (bs ws pn : List UInt32) : (mulRows bs ws pn).length = pn.length := by
  fun_induction mulRows bs ws pn with
  | case1 => rfl
  | case2 w ws pn hrow => rw [← length_mulRow w 0 pn bs, hrow]
  | case3 w ws pn p rest hrow ih => rw [← length_mulRow w 0 pn bs, hrow, List.length_cons, List.length_cons, ih]

/-- `operator*=`. -/
def mul (a b : BaseUint width) : BaseUint width :=
  ⟨mulRows b.pn a.pn zero.pn, (length_mulRows _ _ _).trans zero.size_eq⟩

/-- The loop of `CompareTo`, from the most significant word down. -/
def compareLoop : List (UInt32 × UInt32) → ℤ
  | [] => 0
  | (x, y) :: rest => if x < y then -1 else if x > y then 1 else compareLoop rest

def compareTo (a b : BaseUint width) : ℤ := compareLoop (a.pn.zip b.pn).reverse

/-- The highest bit set of a word that has one, looked for from bit `n` down. -/
def topBit (w : UInt32) : ℕ → ℕ
  | 0 => 0
  | n + 1 => if w &&& (1 <<< UInt32.ofNat (n + 1)) ≠ 0 then n + 1 else topBit w n

/-- The loop of `bits`, over the words below `pos`. -/
def bitsLoop (a : BaseUint width) : ℕ → ℕ
  | 0 => 0
  | pos + 1 => if a.word pos ≠ 0 then 32 * pos + topBit (a.word pos) 31 + 1 else a.bitsLoop pos

def bits (a : BaseUint width) : ℕ := a.bitsLoop width

section
variable {a b : BaseUint width} {i j k n shift : ℕ} {w : UInt32}

theorem value_lt (a : BaseUint width) : a.value < 2 ^ (32 * width) := by
  have hlt := limbsValue_lt a.pn
  rwa [a.size_eq] at hlt

theorem testBit_value (a : BaseUint width) (i : ℕ) : a.value.testBit i = (a.word (i / 32)).toNat.testBit (i % 32) :=
  testBit_limbsValue a.pn i

theorem testBit_orWord (hj : j < width) (i : ℕ) :
    (a.orWord j w).value.testBit i = (a.value.testBit i || (decide (i / 32 = j) && w.toNat.testBit (i % 32))) :=
  testBit_limbsValue_modify (by rw [a.size_eq]; exact hj) w i

theorem value_zero : (zero : BaseUint width).value = 0 := limbsValue_replicate_zero width

theorem word_eq_zero (hi : width ≤ i) : a.word i = 0 := by
  rw [word, List.getD_eq_default]
  rw [a.size_eq]
  exact hi

theorem testBit_word_shl (hn : n < 32) (w : UInt32) (hi : i < 32) :
    (w <<< UInt32.ofNat n).toNat.testBit i = (decide (n ≤ i) && w.toNat.testBit (i - n)) := by
  have hshift : (UInt32.ofNat n).toNat % 32 = n := by
    rw [UInt32.toNat_ofNat']
    omega
  rw [UInt32.toNat_shiftLeft, hshift, Nat.testBit_mod_two_pow, Nat.testBit_shiftLeft]
  simp [hi]

theorem testBit_word_shr (hn : n < 32) (w : UInt32) (i : ℕ) :
    (w >>> UInt32.ofNat n).toNat.testBit i = (decide (n + i < 32) && w.toNat.testBit (n + i)) := by
  have hshift : (UInt32.ofNat n).toNat % 32 = n := by
    rw [UInt32.toNat_ofNat']
    omega
  rw [UInt32.toNat_shiftRight, hshift, Nat.testBit_shiftRight]
  by_cases hi : n + i < 32
  · simp [hi]
  · have hout : w.toNat.testBit (n + i) = false :=
      Nat.testBit_lt_two_pow (w.toNat_lt.trans_le (Nat.pow_le_pow_right (by decide) (not_lt.mp hi)))
    simp [hi, hout]

theorem testBit_orWord_if {c : Prop} [Decidable c] (hj : c → j < width) (i : ℕ) :
    (if c then a.orWord j w else a).value.testBit i =
      (a.value.testBit i || (decide (c ∧ i / 32 = j) && w.toNat.testBit (i % 32))) := by
  by_cases hc : c
  · rw [if_pos hc, testBit_orWord (hj hc)]
    simp [hc]
  · simp [hc]

theorem testBit_shlRound (hshift : shift < 32) (out : BaseUint width) (n i : ℕ) :
    (a.shlRound k shift out n).value.testBit i =
      (out.value.testBit i || (decide (i < 32 * width ∧ 32 * k + shift ≤ i ∧ (i - (32 * k + shift)) / 32 = n) &&
        a.value.testBit (i - (32 * k + shift)))) := by
  have hlow : i % 32 < 32 := Nat.mod_lt i (by decide)
  rw [shlRound, testBit_orWord_if id, testBit_orWord_if And.left, testBit_word_shl hshift _ hlow, Bool.or_assoc,
    testBit_value a]
  congr 1
  by_cases hmoved : i < 32 * width ∧ 32 * k + shift ≤ i ∧ (i - (32 * k + shift)) / 32 = n
  · rw [decide_eq_true hmoved, Bool.true_and, hmoved.2.2]
    by_cases hbit : shift ≤ i % 32
    · -- the bit stays within its word
      have hmod : (i - (32 * k + shift)) % 32 = i % 32 - shift := by omega
      have hfirst : ¬ ((n + k + 1 < width ∧ shift ≠ 0) ∧ i / 32 = n + k + 1) := by omega
      have hsecond : n + k < width ∧ i / 32 = n + k := by omega
      rw [decide_eq_false hfirst, decide_eq_true hsecond, hmod]
      simp [hbit]
    · have hmod : (i - (32 * k + shift)) % 32 = 32 - shift + i % 32 := by omega
      have hfirst : (n + k + 1 < width ∧ shift ≠ 0) ∧ i / 32 = n + k + 1 := by omega
      rw [decide_eq_true hfirst, hmod, testBit_word_shr (by omega), decide_eq_true (by omega : 32 - shift + i % 32 < 32)]
      simp [hbit]
  · rw [decide_eq_false hmoved, Bool.false_and, Bool.or_eq_false_iff]
    refine ⟨?_, ?_⟩
    · by_cases hfirst : (n + k + 1 < width ∧ shift ≠ 0) ∧ i / 32 = n + k + 1
      · rw [testBit_word_shr (by omega), decide_eq_false (by omega : ¬ 32 - shift + i % 32 < 32)]
        simp
      · rw [decide_eq_false hfirst, Bool.false_and]
    · by_cases hsecond : n + k < width ∧ i / 32 = n + k
      · rw [decide_eq_false (by omega : ¬ shift ≤ i % 32)]
        simp
      · rw [decide_eq_false hsecond, Bool.false_and]

theorem value_shl (a : BaseUint width) (shift : ℕ) : (a.shl shift).value = a.value * 2 ^ shift % 2 ^ (32 * width) := by
  have hsplit : 32 * (shift / 32) + shift % 32 = shift := Nat.div_add_mod shift 32
  -- after `n` rounds the lowest `n` words have been moved
  have hrounds : ∀ n i, ((List.range n).foldl (a.shlRound (shift / 32) (shift % 32)) zero).value.testBit i =
      (decide (i < 32 * width ∧ shift ≤ i ∧ (i - shift) / 32 < n) && a.value.testBit (i - shift)) := by
    intro n i
    induction n with
    | zero => simp [value_zero]
    | succ n ih =>
      rw [List.range_succ, List.foldl_append, List.foldl_cons, List.foldl_nil,
        testBit_shlRound (Nat.mod_lt _ (by decide)), ih, hsplit]
      cases a.value.testBit (i - shift) with
      | false => simp
      | true =>
        rw [Bool.and_true, Bool.and_true, Bool.and_true, ← Bool.decide_or, decide_eq_decide]
        omega
  refine Nat.eq_of_testBit_eq fun i => ?_
  rw [shl, hrounds, Nat.testBit_mod_two_pow, ← Nat.shiftLeft_eq, Nat.testBit_shiftLeft, ← Bool.and_assoc,
    ← Bool.decide_and]
  refine congrArg (fun p => p && a.value.testBit (i - shift)) (decide_eq_decide.mpr ?_)
  omega

theorem testBit_shrRound (hshift : shift < 32) (hn : n < width) (out : BaseUint width) (i : ℕ) :
    (a.shrRound k shift out n).value.testBit i =
      (out.value.testBit i || (decide ((i + (32 * k + shift)) / 32 = n) && a.value.testBit (i + (32 * k + shift)))) := by
  have hlow : i % 32 < 32 := Nat.mod_lt i (by decide)
  rw [shrRound, testBit_orWord_if (by omega), testBit_orWord_if (by omega), testBit_word_shr hshift, Bool.or_assoc,
    testBit_value a]
  congr 1
  by_cases hmoved : (i + (32 * k + shift)) / 32 = n
  · rw [decide_eq_true hmoved, Bool.true_and, hmoved]
    by_cases hbit : shift + i % 32 < 32
    · have hmod : (i + (32 * k + shift)) % 32 = shift + i % 32 := by omega
      have hfirst : ¬ ((k + 1 ≤ n ∧ shift ≠ 0) ∧ i / 32 = n - k - 1) := by omega
      have hsecond : k ≤ n ∧ i / 32 = n - k := by omega
      rw [decide_eq_false hfirst, decide_eq_true hsecond, hmod]
      simp [hbit]
    · have hmod : (i + (32 * k + shift)) % 32 = i % 32 - (32 - shift) := by omega
      have hfirst : (k + 1 ≤ n ∧ shift ≠ 0) ∧ i / 32 = n - k - 1 := by omega
      rw [decide_eq_true hfirst, hmod, testBit_word_shl (by omega) _ hlow, decide_eq_true (by omega : 32 - shift ≤ i % 32)]
      simp [hbit]
  · rw [decide_eq_false hmoved, Bool.false_and, Bool.or_eq_false_iff]
    refine ⟨?_, ?_⟩
    · by_cases hfirst : (k + 1 ≤ n ∧ shift ≠ 0) ∧ i / 32 = n - k - 1
      · rw [testBit_word_shl (by omega) _ hlow, decide_eq_false (by omega : ¬ 32 - shift ≤ i % 32)]
        simp
      · rw [decide_eq_false hfirst, Bool.false_and]
    · by_cases hsecond : k ≤ n ∧ i / 32 = n - k
      · rw [decide_eq_false (by omega : ¬ shift + i % 32 < 32)]
        simp
      · rw [decide_eq_false hsecond, Bool.false_and]

theorem value_shr (a : BaseUint width) (shift : ℕ) : (a.shr shift).value = a.value / 2 ^ shift := by
  have hsplit : 32 * (shift / 32) + shift % 32 = shift := Nat.div_add_mod shift 32
  have hrounds : ∀ n ≤ width, ∀ i, ((List.range n).foldl (a.shrRound (shift / 32) (shift % 32)) zero).value.testBit i =
      (decide ((i + shift) / 32 < n) && a.value.testBit (i + shift)) := by
    intro n hn i
    induction n with
    | zero => simp [value_zero]
    | succ n ih =>
      rw [List.range_succ, List.foldl_append, List.foldl_cons, List.foldl_nil,
        testBit_shrRound (Nat.mod_lt _ (by decide)) hn, ih (Nat.le_of_succ_le hn), hsplit, ← Bool.and_or_distrib_right,
        ← Bool.decide_or]
      refine congrArg (fun p => p && a.value.testBit (i + shift)) (decide_eq_decide.mpr ?_)
      omega
  refine Nat.eq_of_testBit_eq fun i => ?_
  rw [shr, hrounds width le_rfl, Nat.testBit_div_two_pow]
  by_cases hi : (i + shift) / 32 < width
  · simp [hi]
  · rw [testBit_value, word_eq_zero (not_lt.mp hi)]
    simp

theorem limbsValue_mulRow (w : UInt32) {carry : UInt64} (hcarry : carry.toNat < 2 ^ 32) {pn bs : List UInt32}
    (h : pn.length ≤ bs.length) : limbsValue (mulRow w carry pn bs) =
      (limbsValue pn + w.toNat * limbsValue bs + carry.toNat) % 2 ^ (32 * pn.length) := by
  induction pn generalizing carry bs with
  | nil => simp [mulRow, Nat.mod_one]
  | cons p pn ih =>
    cases bs with
    | nil => cases h
    | cons b bs =>
      have hp := p.toNat_lt
      have hprod : w.toNat * b.toNat ≤ (2 ^ 32 - 1) * (2 ^ 32 - 1) :=
        Nat.mul_le_mul (Nat.le_pred_of_lt w.toNat_lt) (Nat.le_pred_of_lt b.toNat_lt)
      have hn : (carry + p.toUInt64 + w.toUInt64 * b.toUInt64).toNat = carry.toNat + p.toNat + w.toNat * b.toNat := by
        simp only [UInt64.toNat_add, UInt64.toNat_mul, UInt32.toNat_toUInt64]
        omega
      have hsum : limbsValue (p :: pn) + w.toNat * limbsValue (b :: bs) + carry.toNat =
          carry.toNat + p.toNat + w.toNat * b.toNat + 2 ^ 32 * (limbsValue pn + w.toNat * limbsValue bs) := by
        rw [limbsValue_cons, limbsValue_cons]
        ring
      rw [mulRow, limbsValue_cons, ih (by rw [toNat_carry, hn]; omega) (Nat.le_of_succ_le_succ h), toNat_lowWord,
        toNat_carry, hn, hsum, List.length_cons, Nat.mul_succ, Nat.add_comm (32 * pn.length), Nat.pow_add, Nat.mod_mul,
        Nat.add_mul_mod_self_left, Nat.add_mul_div_left _ _ (by decide), Nat.add_comm (limbsValue pn + _)]

theorem addLoop_eq_mulRow (carry : UInt64) (pn bs : List UInt32) (h : pn.length = bs.length) :
    addLoop carry pn bs = mulRow 1 carry pn bs := by
  induction pn generalizing carry bs with
  | nil => rfl
  | cons w pn ih =>
    cases bs with
    | nil => cases h
    | cons b bs => rw [addLoop, mulRow, ih _ _ (Nat.succ.inj h), show UInt32.toUInt64 1 = 1 from rfl, UInt64.one_mul]

theorem value_add (a b : BaseUint width) : (a.add b).value = (a.value + b.value) % 2 ^ (32 * width) := by
  have hlength := a.size_eq.trans b.size_eq.symm
  have hsum := limbsValue_mulRow 1 (show (0 : UInt64).toNat < 2 ^ 32 by decide) hlength.le
  rwa [← addLoop_eq_mulRow _ _ _ hlength, UInt32.toNat_one, Nat.one_mul, a.size_eq] at hsum

theorem limbsValue_mulRows {bs ws pn : List UInt32} (hws : ws.length = pn.length) (h : pn.length ≤ bs.length) :
    limbsValue (mulRows bs ws pn) = (limbsValue pn + limbsValue ws * limbsValue bs) % 2 ^ (32 * pn.length) := by
  induction ws generalizing pn with
  | nil =>
    rw [List.length_eq_zero_iff.mp hws.symm]
    simp [mulRows, Nat.mod_one]
  | cons w ws ih =>
    have hrow := limbsValue_mulRow w (show (0 : UInt64).toNat < 2 ^ 32 by decide) h
    have hlength := length_mulRow w 0 pn bs
    rw [mulRows]
    cases hr : mulRow w 0 pn bs with
    | nil => simp [hr, ← hws] at hlength
    | cons p rest =>
      rw [hr, List.length_cons, ← hws, List.length_cons, Nat.add_right_cancel_iff] at hlength
      have hmod : 2 ^ (32 * pn.length) = 2 ^ 32 * 2 ^ (32 * rest.length) := by
        rw [← Nat.pow_add, ← hws, List.length_cons, hlength, Nat.mul_succ, Nat.add_comm]
      rw [hr, limbsValue_cons, hmod] at hrow
      dsimp only
      rw [limbsValue_cons, ih hlength.symm (by rw [List.length_cons] at hws; omega), hmod]
      calc p.toNat + 2 ^ 32 * ((limbsValue rest + limbsValue ws * limbsValue bs) % 2 ^ (32 * rest.length))
        _ = (p.toNat + 2 ^ 32 * limbsValue rest + 2 ^ 32 * (limbsValue ws * limbsValue bs)) %
            (2 ^ 32 * 2 ^ (32 * rest.length)) := by
          rw [Nat.add_assoc, ← Nat.mul_add, Nat.mod_mul, Nat.add_mul_mod_self_left, Nat.mod_eq_of_lt p.toNat_lt,
            Nat.add_mul_div_left _ _ (by decide), Nat.div_eq_of_lt p.toNat_lt, Nat.zero_add]
        _ = _ := by
          rw [hrow, Nat.mod_add_mod, limbsValue_cons]
          congr 1
          simp only [UInt64.toNat_zero]
          ring

theorem value_mul (a b : BaseUint width) : (a.mul b).value = a.value * b.value % 2 ^ (32 * width) := by
  have hrows := limbsValue_mulRows (a.size_eq.trans zero.size_eq.symm) (zero.size_eq.trans b.size_eq.symm).le
  have hzero : limbsValue (zero : BaseUint width).pn = 0 := value_zero
  rwa [hzero, Nat.zero_add, zero.size_eq] at hrows

theorem limbsValue_incrLoop (pn : List UInt32) :
    limbsValue (incrLoop pn) = (limbsValue pn + 1) % 2 ^ (32 * pn.length) := by
  induction pn with
  | nil => rfl
  | cons w pn ih =>
    have hw := w.toNat_lt
    have hnext : (w + 1).toNat = (w.toNat + 1) % 2 ^ 32 := UInt32.toNat_add w 1
    have hlength : 2 ^ (32 * (w :: pn).length) = 2 ^ 32 * 2 ^ (32 * pn.length) := by
      rw [List.length_cons, Nat.mul_succ, Nat.add_comm, Nat.pow_add]
    rw [incrLoop, limbsValue_cons, limbsValue_cons, hlength]
    split_ifs with hwrap
    · have hmax : w.toNat + 1 = 2 ^ 32 := by
        have hzero : (w + 1).toNat = 0 := by rw [hwrap]; rfl
        omega
      have hsum : w.toNat + 2 ^ 32 * limbsValue pn + 1 = 2 ^ 32 * (limbsValue pn + 1) := by omega
      rw [ih, hwrap, hsum, Nat.mul_mod_mul_left]
      exact Nat.zero_add _
    · have hsmall : w.toNat + 1 < 2 ^ 32 := by
        by_contra hge
        refine hwrap (UInt32.toNat_inj.mp ?_)
        rw [hnext]
        have hmax : w.toNat + 1 = 2 ^ 32 := by omega
        rw [hmax]
        rfl
      have hfit : w.toNat + 2 ^ 32 * limbsValue pn + 1 < 2 ^ 32 * 2 ^ (32 * pn.length) :=
        calc w.toNat + 2 ^ 32 * limbsValue pn + 1 < 2 ^ 32 * (limbsValue pn + 1) := by omega
          _ ≤ 2 ^ 32 * 2 ^ (32 * pn.length) := Nat.mul_le_mul_left _ (limbsValue_lt pn)
      rw [hnext, Nat.mod_eq_of_lt hsmall, Nat.mod_eq_of_lt hfit]
      omega

theorem limbsValue_complement (pn : List UInt32) :
    limbsValue (pn.map (~~~ ·)) + limbsValue pn + 1 = 2 ^ (32 * pn.length) := by
  induction pn with
  | nil => rfl
  | cons w pn ih =>
    have hw := w.toNat_lt
    have hnot : (~~~ w).toNat = 2 ^ 32 - 1 - w.toNat := UInt32.toNat_not w
    rw [List.map_cons, limbsValue_cons, limbsValue_cons, hnot, List.length_cons, Nat.mul_succ, Nat.add_comm (32 * pn.length),
      Nat.pow_add, ← ih]
    omega

theorem value_neg (a : BaseUint width) : a.neg.value = (2 ^ (32 * width) - a.value) % 2 ^ (32 * width) := by
  have hsum := limbsValue_complement a.pn
  rw [a.size_eq] at hsum
  rw [value, neg, limbsValue_incrLoop, List.length_map, a.size_eq]
  congr 1
  exact Nat.eq_sub_of_add_eq (by rw [value]; omega)

theorem value_sub (h : b.value ≤ a.value) : (a.sub b).value = a.value - b.value := by
  have ha := a.value_lt
  have hb := b.value_lt
  rw [sub, value_add, value_neg, Nat.add_mod_mod, show a.value + (2 ^ (32 * width) - b.value) =
    a.value - b.value + 2 ^ (32 * width) by omega, Nat.add_mod_right, Nat.mod_eq_of_lt (by omega)]

theorem compareLoop_eq (l : List (UInt32 × UInt32)) :
    compareLoop l =
      if limbsValue (l.map Prod.fst).reverse < limbsValue (l.map Prod.snd).reverse then -1
      else if limbsValue (l.map Prod.snd).reverse < limbsValue (l.map Prod.fst).reverse then 1 else 0 := by
  induction l with
  | nil => rfl
  | cons pair l ih =>
    obtain ⟨x, y⟩ := pair
    have hx := limbsValue_lt (l.map Prod.fst).reverse
    have hy := limbsValue_lt (l.map Prod.snd).reverse
    rw [compareLoop, List.map_cons, List.map_cons, List.reverse_cons, List.reverse_cons, limbsValue_concat,
      limbsValue_concat]
    simp only [List.length_reverse, List.length_map] at hx hy ⊢
    generalize limbsValue (l.map Prod.fst).reverse = p at *
    generalize limbsValue (l.map Prod.snd).reverse = q at *
    generalize 2 ^ (32 * l.length) = m at *
    have hsep : ∀ {u v : UInt32}, u < v → m * u.toNat + m ≤ m * v.toNat := fun huv =>
      (Nat.mul_succ m _).symm.trans_le (Nat.mul_le_mul_left m (UInt32.lt_iff_toNat_lt.mp huv))
    by_cases hlt : x < y
    · have hsep := hsep hlt
      rw [if_pos hlt, if_pos (by omega)]
    · by_cases hgt : y < x
      · have hsep := hsep hgt
        rw [if_neg hlt, if_pos hgt, if_neg (by omega), if_pos (by omega)]
      · have heq : x = y := UInt32.le_antisymm (UInt32.not_lt.mp hgt) (UInt32.not_lt.mp hlt)
        rw [if_neg hlt, if_neg hgt, ih, heq]
        simp only [Nat.add_lt_add_iff_right]

theorem compareTo_eq (a b : BaseUint width) :
    a.compareTo b = if a.value < b.value then -1 else if b.value < a.value then 1 else 0 := by
  have hlength : a.pn.length = b.pn.length := a.size_eq.trans b.size_eq.symm
  rw [compareTo, compareLoop_eq, List.map_reverse, List.map_reverse, List.reverse_reverse, List.reverse_reverse,
    List.map_fst_zip hlength.le, List.map_snd_zip hlength.ge, ← value, ← value]

theorem compareTo_nonneg (a b : BaseUint width) : 0 ≤ a.compareTo b ↔ b.value ≤ a.value := by
  rw [compareTo_eq]
  split_ifs <;> omega

theorem toNat_one_shl (hn : n < 32) : ((1 : UInt32) <<< UInt32.ofNat n).toNat = 2 ^ n := by
  have hshift : (UInt32.ofNat n).toNat % 32 = n := by
    rw [UInt32.toNat_ofNat']
    omega
  have hone : UInt32.toNat 1 = 1 := rfl
  rw [UInt32.toNat_shiftLeft, hshift, hone, Nat.one_shiftLeft, Nat.mod_eq_of_lt (Nat.pow_lt_pow_right (by decide) hn)]

theorem topBit_eq (hw : w ≠ 0) (h : w.toNat < 2 ^ (n + 1)) (hn : n < 32) : topBit w n + 1 = w.toNat.size := by
  have hpos : 0 < w.toNat := Nat.pos_of_ne_zero fun hzero => hw (UInt32.toNat_inj.mp hzero)
  induction n with
  | zero =>
    have hone : w.toNat = 1 := by omega
    rw [topBit, hone]
    rfl
  | succ n ih =>
    have hbit : w &&& (1 <<< UInt32.ofNat (n + 1)) ≠ 0 ↔ 2 ^ (n + 1) ≤ w.toNat := by
      have hquot : w.toNat / 2 ^ (n + 1) < 2 := Nat.div_lt_of_lt_mul (by rw [← Nat.pow_succ]; exact h)
      have hge : 2 ^ (n + 1) ≤ w.toNat ↔ 1 ≤ w.toNat / 2 ^ (n + 1) := by
        rw [Nat.le_div_iff_mul_le (Nat.two_pow_pos _), Nat.one_mul]
      rw [Ne, ← UInt32.toNat_inj, UInt32.toNat_and, toNat_one_shl hn, Nat.and_two_pow, Nat.testBit_eq_decide_div_mod_eq, hge]
      generalize w.toNat / 2 ^ (n + 1) = quot at hquot
      interval_cases quot <;> simp
    rw [topBit]
    split_ifs with hset
    · exact le_antisymm (Nat.lt_size.mpr (hbit.mp hset)) (Nat.size_le.mpr h)
    · exact ih (by rw [hbit] at hset; omega) (by omega)

theorem bitsLoop_eq (hn : n ≤ width) : a.bitsLoop n = (limbsValue (a.pn.take n)).size := by
  induction n with
  | zero => rfl
  | succ n ih =>
    have hlt : n < a.pn.length := by rw [a.size_eq]; exact hn
    have hword : a.word n = a.pn[n] := List.getD_eq_getElem _ _ hlt
    have htake : limbsValue (a.pn.take (n + 1)) = limbsValue (a.pn.take n) + 2 ^ (32 * n) * (a.word n).toNat := by
      rw [List.take_add_one, List.getElem?_eq_getElem hlt, Option.toList_some, limbsValue_concat, hword,
        List.length_take_of_le hlt.le]
    rw [bitsLoop, htake]
    split_ifs with hzero
    · have hlow := limbsValue_lt (a.pn.take n)
      rw [List.length_take_of_le hlt.le] at hlow
      rw [size_add_two_pow_mul hlow (Nat.pos_of_ne_zero fun h => hzero (UInt32.toNat_inj.mp h)),
        ← topBit_eq hzero (UInt32.toNat_lt _) (by decide), Nat.add_assoc]
    · have hzero : a.word n = 0 := not_not.mp hzero
      rw [ih (Nat.le_of_succ_le hn), hzero]
      rfl

theorem bits_eq (a : BaseUint width) : a.bits = a.value.size := by
  rw [bits, bitsLoop_eq le_rfl, List.take_of_length_le a.size_eq.le, value]

theorem value_orBit {q : ℕ} (hshift : shift < 32 * width) (hlow : a.value = 2 ^ (shift + 1) * q) :
    (a.orWord (shift / 32) (1 <<< UInt32.ofNat (shift % 32))).value = a.value + 2 ^ shift := by
  have hbit : 2 ^ shift < 2 ^ (shift + 1) := Nat.pow_lt_pow_right (by decide) (Nat.lt_succ_self shift)
  have hor : a.value + 2 ^ shift = a.value ||| 2 ^ shift := by rw [hlow, Nat.two_pow_add_eq_or_of_lt hbit]
  refine Nat.eq_of_testBit_eq fun i => ?_
  rw [hor, testBit_orWord (by omega), toNat_one_shl (Nat.mod_lt _ (by decide)), Nat.testBit_or, Nat.testBit_two_pow,
    Nat.testBit_two_pow, ← Bool.decide_and]
  congr 2
  exact propext (by omega)

end

end BaseUint
end Whippet.Pow
