import Whippet.Lib.LittleEndian

/-! `CScriptNum`: sign-and-magnitude little-endian numbers of the script language. -/
namespace Whippet.Script
open Lib

def signBit (b : UInt8) : Bool := b &&& 0x80 != 0

/-- The constructor's minimality test. A zero magnitude in the top byte is only there to carry the
sign bit of a byte below it. -/
def isMinimalNum (vch : Bytes) : Bool :=
  match vch.reverse with
  | [] => true
  | [back] => back &&& 0x7f != 0
  | back :: next :: _ => back &&& 0x7f != 0 || signBit next

def setVch (vch : Bytes) : ℤ :=
  match vch.getLast? with
  | none => 0
  | some back =>
    if signBit back then -((leNat vch - 0x80 * 256 ^ (vch.length - 1) : ℕ) : ℤ) else leNat vch

def serialize (value : ℤ) : Bytes :=
  let result := minimalBytes value.natAbs
  match result.getLast? with
  | none => []
  | some back =>
    if signBit back then result ++ [if value < 0 then 0x80 else 0]
    else if value < 0 then result.dropLast ++ [back ||| 0x80]
    else result

def defaultMaxNumSize : ℕ := 4

/-- The `CScriptNum` constructor from bytes; `none` is a thrown `scriptnum_error`. -/
def scriptNum? (vch : Bytes) (requireMinimal : Bool) (maxNumSize : ℕ) : Option ℤ :=
  if vch.length > maxNumSize then none
  else if requireMinimal && !isMinimalNum vch then none
  else some (setVch vch)

/-- `CScriptNum::getint`, which clamps to the range of a 32-bit integer. -/
def getInt (value : ℤ) : ℤ :=
  if value > 2 ^ 31 - 1 then 2 ^ 31 - 1 else if value < -2 ^ 31 then -2 ^ 31 else value

theorem forall_uint8 {P : UInt8 → Prop} (h : ∀ n : Fin 256, P (UInt8.ofNat n)) (b : UInt8) : P b := by
  simpa using h ⟨b.toNat, b.toNat_lt⟩

theorem signBit_iff (b : UInt8) : signBit b = true ↔ 128 ≤ b.toNat := by
  refine forall_uint8 (P := fun b => signBit b = true ↔ 128 ≤ b.toNat) ?_ b
  decide +kernel

theorem magnitude_ne_zero_iff (b : UInt8) : (b &&& 0x7f != 0) = true ↔ b.toNat % 128 ≠ 0 := by
  refine forall_uint8 (P := fun b => (b &&& 0x7f != 0) = true ↔ b.toNat % 128 ≠ 0) ?_ b
  decide +kernel

theorem toNat_or_signBit {b : UInt8} (h : b.toNat < 128) : (b ||| 0x80).toNat = b.toNat + 128 := by
  refine forall_uint8 (P := fun b => b.toNat < 128 → (b ||| 0x80).toNat = b.toNat + 128) ?_ b h
  decide +kernel

@[simp] theorem isMinimalNum_nil : isMinimalNum [] = true := rfl

theorem isMinimalNum_concat (lo : Bytes) (back : UInt8) :
    isMinimalNum (lo ++ [back]) = true ↔
      back.toNat % 128 ≠ 0 ∨ ∃ next ∈ lo.getLast?, 128 ≤ next.toNat := by
  rcases List.eq_nil_or_concat lo with rfl | ⟨lo, next, rfl⟩
  · simp [isMinimalNum, ← magnitude_ne_zero_iff]
  · simp [isMinimalNum, ← magnitude_ne_zero_iff, signBit_iff]

theorem leNat_concat (lo : Bytes) (back : UInt8) :
    leNat (lo ++ [back]) = leNat lo + 256 ^ lo.length * back.toNat := by
  rw [leNat_append]
  simp

theorem setVch_concat_nonneg (lo : Bytes) {back : UInt8} (h : back.toNat < 128) :
    setVch (lo ++ [back]) = (leNat (lo ++ [back]) : ℤ) := by
  have hs : signBit back ≠ true := by
    rw [Ne, signBit_iff]
    omega
  simp [setVch, hs]

theorem setVch_concat_neg (lo : Bytes) {back : UInt8} (h : 128 ≤ back.toNat) :
    setVch (lo ++ [back]) = -((leNat lo + 256 ^ lo.length * (back.toNat - 128) : ℕ) : ℤ) := by
  have hs : signBit back = true := (signBit_iff back).mpr h
  have hsub : leNat (lo ++ [back]) - 0x80 * 256 ^ ((lo ++ [back]).length - 1) =
      leNat lo + 256 ^ lo.length * (back.toNat - 128) := by
    obtain ⟨k, hk⟩ : ∃ k, back.toNat = 128 + k := ⟨back.toNat - 128, by omega⟩
    rw [leNat_concat, hk]
    simp only [List.length_append, List.length_singleton, Nat.add_sub_cancel, Nat.add_sub_cancel_left]
    rw [Nat.mul_add, Nat.mul_comm (256 ^ lo.length) 128]
    omega
  simp only [setVch, List.getLast?_concat, hs, if_true, hsub]

@[simp] theorem serialize_zero : serialize 0 = [] := by
  simp [serialize, minimalBytes]

theorem serialize_high {value : ℤ} {lo : Bytes} {back : UInt8}
    (hbytes : minimalBytes value.natAbs = lo ++ [back]) (hb : 128 ≤ back.toNat) :
    serialize value = lo ++ [back] ++ [if value < 0 then 0x80 else 0] := by
  simp [serialize, hbytes, (signBit_iff back).mpr hb]

theorem serialize_low {value : ℤ} {lo : Bytes} {back : UInt8}
    (hbytes : minimalBytes value.natAbs = lo ++ [back]) (hb : back.toNat < 128) :
    serialize value = lo ++ [if value < 0 then back ||| 0x80 else back] := by
  have hs : signBit back ≠ true := by
    rw [Ne, signBit_iff]
    omega
  by_cases hneg : value < 0 <;> simp [serialize, hbytes, hs, hneg]

theorem setVch_serialize (value : ℤ) : setVch (serialize value) = value := by
  by_cases hzero : value = 0
  · subst hzero
    simp [setVch]
  obtain ⟨lo, back, hbytes, hne⟩ := minimalBytes_concat (n := value.natAbs) (by omega)
  have hvalue : leNat lo + 256 ^ lo.length * back.toNat = value.natAbs := by
    rw [← leNat_concat, ← hbytes, leNat_minimalBytes]
  by_cases hb : 128 ≤ back.toNat
  · rw [serialize_high hbytes hb]
    by_cases hneg : value < 0
    · have hbig : 128 ≤ (0x80 : UInt8).toNat := by decide
      have hmag : (0x80 : UInt8).toNat - 128 = 0 := by decide
      rw [if_pos hneg, setVch_concat_neg _ hbig, hmag, leNat_concat, hvalue]
      omega
    · have hsmall : (0 : UInt8).toNat < 128 := by decide
      have hmag : (0 : UInt8).toNat = 0 := by decide
      rw [if_neg hneg, setVch_concat_nonneg _ hsmall, leNat_concat, hmag, leNat_concat, hvalue]
      omega
  · rw [serialize_low hbytes (by omega)]
    by_cases hneg : value < 0
    · have hor := toNat_or_signBit (b := back) (by omega)
      rw [if_pos hneg, setVch_concat_neg _ (by omega), hor, Nat.add_sub_cancel, hvalue]
      omega
    · rw [if_neg hneg, setVch_concat_nonneg _ (by omega), leNat_concat, hvalue]
      omega

theorem isMinimalNum_serialize (value : ℤ) : isMinimalNum (serialize value) = true := by
  by_cases hzero : value = 0
  · simp [hzero]
  obtain ⟨lo, back, hbytes, hne⟩ := minimalBytes_concat (n := value.natAbs) (by omega)
  by_cases hb : 128 ≤ back.toNat
  · rw [serialize_high hbytes hb, isMinimalNum_concat]
    exact Or.inr ⟨back, by simp, hb⟩
  · rw [serialize_low hbytes (by omega), isMinimalNum_concat]
    have hor := toNat_or_signBit (b := back) (by omega)
    left
    split_ifs <;> omega

theorem serialize_setVch {vch : Bytes} (h : isMinimalNum vch = true) : serialize (setVch vch) = vch := by
  rcases List.eq_nil_or_concat vch with rfl | ⟨lo, back, rfl⟩
  · simp [setVch]
  rw [List.concat_eq_append] at h ⊢
  rw [isMinimalNum_concat] at h
  by_cases hb : 128 ≤ back.toNat
  · rw [setVch_concat_neg lo hb]
    by_cases hmag : back.toNat = 128
    · obtain ⟨next, hlast, hnext⟩ : ∃ next ∈ lo.getLast?, 128 ≤ next.toNat := h.resolve_left (by omega)
      obtain ⟨lo, rfl⟩ := List.getLast?_eq_some_iff.mp hlast
      have hbytes := minimalBytes_leNat_concat lo next (by omega)
      rw [← Int.natAbs_natCast (leNat _), ← Int.natAbs_neg] at hbytes
      have hpos : 0 < leNat (lo ++ [next]) := by
        rw [leNat_concat]
        positivity
      have hback : (0x80 : UInt8) = back := UInt8.toNat_inj.mp (by rw [hmag]; rfl)
      rw [hmag, Nat.sub_self, Nat.mul_zero, Nat.add_zero]
      rw [serialize_high hbytes hnext, if_pos (by omega), hback]
    · have hlow : (back - 0x80).toNat = back.toNat - 128 := by
        rw [UInt8.toNat_sub_of_le]
        · rfl
        · exact UInt8.le_iff_toNat_le.mpr hb
      have hbytes := minimalBytes_leNat_concat lo (back - 0x80) (by omega)
      rw [leNat_concat, hlow, ← Int.natAbs_natCast (_ + _), ← Int.natAbs_neg] at hbytes
      have hpos : 0 < leNat lo + 256 ^ lo.length * (back.toNat - 128) :=
        Nat.add_pos_right _ (Nat.mul_pos (Nat.pow_pos (by omega)) (by omega))
      have hor : (back - 0x80) ||| 0x80 = back := by
        apply UInt8.toNat_inj.mp
        have hlt := back.toNat_lt
        rw [toNat_or_signBit (by omega), hlow]
        omega
      have hlt := back.toNat_lt
      rw [serialize_low hbytes (by omega), if_pos (by omega), hor]
  · rw [setVch_concat_nonneg lo (by omega)]
    by_cases hmag : back.toNat = 0
    · obtain ⟨next, hlast, hnext⟩ : ∃ next ∈ lo.getLast?, 128 ≤ next.toNat := h.resolve_left (by omega)
      obtain ⟨lo, rfl⟩ := List.getLast?_eq_some_iff.mp hlast
      have hbytes := minimalBytes_leNat_concat lo next (by omega)
      rw [← Int.natAbs_natCast (leNat _)] at hbytes
      have hback : (0 : UInt8) = back := UInt8.toNat_inj.mp (by rw [hmag]; rfl)
      rw [leNat_concat (lo ++ [next]), hmag, Nat.mul_zero, Nat.add_zero]
      rw [serialize_high hbytes hnext, if_neg (Int.not_lt.mpr (Int.natCast_nonneg _)), hback]
    · have hbytes := minimalBytes_leNat_concat lo back hmag
      rw [← Int.natAbs_natCast (leNat _)] at hbytes
      rw [serialize_low hbytes (by omega), if_neg (Int.not_lt.mpr (Int.natCast_nonneg _))]

/-- With minimal encoding required, the bytes that are read as a number are the bytes written for it, if they are few
enough: no number has a second encoding. -/
theorem scriptNum?_eq_some_iff (vch : Bytes) (maxNumSize : ℕ) (value : ℤ) :
    scriptNum? vch true maxNumSize = some value ↔ vch = serialize value ∧ vch.length ≤ maxNumSize := by
  unfold scriptNum?
  constructor
  · intro h
    split_ifs at h with hlen hmin
    obtain rfl := Option.some.inj h
    exact ⟨(serialize_setVch (by simpa using hmin)).symm, by omega⟩
  · rintro ⟨rfl, hlen⟩
    rw [if_neg (by omega), isMinimalNum_serialize, setVch_serialize]
    rfl

theorem length_minimalBytes_le {n w : ℕ} (h : n < 256 ^ w) : (minimalBytes n).length ≤ w := by
  rw [minimalBytes, List.length_map]
  exact (Nat.digits_length_le_iff (by omega) n).mpr h

theorem serialize_length_le {value : ℤ} (h : value.natAbs < 2 ^ 31) : (serialize value).length ≤ 4 := by
  by_cases hzero : value = 0
  · simp [hzero]
  obtain ⟨lo, back, hbytes, hne⟩ := minimalBytes_concat (n := value.natAbs) (by omega)
  have hvalue : leNat lo + 256 ^ lo.length * back.toNat = value.natAbs := by
    rw [← leNat_concat, ← hbytes, leNat_minimalBytes]
  by_cases hb : 128 ≤ back.toNat
  · have hlo : lo.length < 3 := by
      by_contra hge
      have hpow : 256 ^ 3 ≤ 256 ^ lo.length := Nat.pow_le_pow_right (by omega) (by omega)
      have hmul : 256 ^ 3 * 128 ≤ 256 ^ lo.length * back.toNat := Nat.mul_le_mul hpow hb
      omega
    rw [serialize_high hbytes hb]
    simp
    omega
  · have hlen := length_minimalBytes_le (n := value.natAbs) (w := 4) (by omega)
    rw [hbytes, List.length_append, List.length_singleton] at hlen
    rw [serialize_low hbytes (by omega)]
    simpa using hlen

end Whippet.Script
