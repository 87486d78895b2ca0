import Whippet.Script.ScriptNum
import Mathlib.Data.List.Basic

/-! `CScript`: script bytes, how values are pushed and how operations are read back. -/
namespace Whippet.Script
open Lib

def op0 : UInt8 := 0x00
def opPushData1 : UInt8 := 0x4c
def opPushData2 : UInt8 := 0x4d
def opPushData4 : UInt8 := 0x4e
def op1Negate : UInt8 := 0x4f
def op1 : UInt8 := 0x51
def op16 : UInt8 := 0x60
def opReturn : UInt8 := 0x6a
def opEqual : UInt8 := 0x87
def opHash160 : UInt8 := 0xa9
def opCodeSeparator : UInt8 := 0xab
def opCheckSig : UInt8 := 0xac
def opCheckSigVerify : UInt8 := 0xad
def opCheckMultiSig : UInt8 := 0xae
def opCheckMultiSigVerify : UInt8 := 0xaf
def opMint : UInt8 := 0xb5
def opMintTransfer : UInt8 := 0xba
def opInvalidOpcode : UInt8 := 0xff

def maxScriptElementSize : ℕ := 520
def maxOpsPerScript : ℕ := 201
def maxPubkeysPerMultisig : ℕ := 20
def maxScriptSize : ℕ := 10000

/-- The opcode and length bytes that `operator<<` writes before the data. -/
def pushHeader (size : ℕ) : Bytes :=
  if size < opPushData1.toNat then [UInt8.ofNat size]
  else if size ≤ 0xff then [opPushData1, UInt8.ofNat size]
  else if size ≤ 0xffff then opPushData2 :: leBytes 2 size
  else opPushData4 :: leBytes 4 size

/-- `CScript::operator<<` of a byte vector. -/
def pushData (b : Bytes) : Bytes := pushHeader b.length ++ b

def pushInt64 (n : ℤ) : Bytes :=
  if n = -1 ∨ (1 ≤ n ∧ n ≤ 16) then [UInt8.ofNat (n + (op1.toNat - 1)).toNat]
  else if n = 0 then [op0]
  else pushData (serialize n)

/-- One operation read by `GetOp`: the opcode, the pushed data and the position after it. -/
structure ScriptOp where
  opcode : UInt8
  data : Bytes
  rest : Bytes
  deriving DecidableEq, Repr

/-- The number of data bytes an immediate push announces, and the position after its length bytes. -/
def readPushSize? (opcode : UInt8) (pc : Bytes) : Option (ℕ × Bytes) :=
  if opcode < opPushData1 then some (opcode.toNat, pc)
  else if opcode = opPushData1 then readLe? 1 pc
  else if opcode = opPushData2 then readLe? 2 pc
  else readLe? 4 pc

/-- `CScript::GetOp2`. A failed read leaves the iterator where the error value says. -/
def getOp : Bytes → Except Bytes ScriptOp
  | [] => .error []
  | opcode :: pc =>
    if opcode ≤ opPushData4 then
      match readPushSize? opcode pc with
      | none => .error pc
      | some (size, pc) => if pc.length < size then .error pc else .ok ⟨opcode, pc.take size, pc.drop size⟩
    else .ok ⟨opcode, [], pc⟩

def getOp? (pc : Bytes) : Option ScriptOp := (getOp pc).toOption

def pushOpcode (size : ℕ) : UInt8 :=
  if size < opPushData1.toNat then UInt8.ofNat size
  else if size ≤ 0xff then opPushData1
  else if size ≤ 0xffff then opPushData2
  else opPushData4

def decodeOpN? (opcode : UInt8) : Option ℕ :=
  if opcode = op0 then some 0
  else if op1 ≤ opcode ∧ opcode ≤ op16 then some (opcode.toNat - (op1.toNat - 1))
  else none

theorem getOp_nil : getOp [] = .error [] := rfl

variable {opcode : UInt8}

theorem getOp_of_gt (pc : Bytes) (h : ¬ opcode ≤ opPushData4) :
    getOp (opcode :: pc) = .ok ⟨opcode, [], pc⟩ := by
  simp [getOp, h]

theorem toNat_opPushData1 : opPushData1.toNat = 0x4c := rfl

theorem toNat_ofNat {n : ℕ} (h : n < 256) : (UInt8.ofNat n).toNat = n := by
  simp [Nat.mod_eq_of_lt h]

theorem pushOpcode_le (size : ℕ) : pushOpcode size ≤ opPushData4 := by
  unfold pushOpcode
  rw [toNat_opPushData1]
  split_ifs with h
  · rw [UInt8.le_iff_toNat_le, toNat_ofNat (by omega)]
    change size ≤ 0x4e
    omega
  all_goals decide

theorem push_cases (h : opcode ≤ opPushData4) :
    opcode < opPushData1 ∨ opcode = opPushData1 ∨ opcode = opPushData2 ∨ opcode = opPushData4 := by
  rw [UInt8.le_iff_toNat_le] at h
  rw [UInt8.lt_iff_toNat_lt, ← UInt8.toNat_inj, ← UInt8.toNat_inj, ← UInt8.toNat_inj]
  change _ ≤ 0x4e at h
  change _ < 0x4c ∨ _ = 0x4c ∨ _ = 0x4d ∨ _ = 0x4e
  omega

theorem ne_of_lt_opPushData1 {c : UInt8} (h : opcode < opPushData1) (hc : opPushData1 ≤ c) :
    opcode ≠ c := by
  intro heq
  exact absurd (heq ▸ h) (UInt8.not_lt.mpr hc)

variable {size : ℕ}

theorem readPushSize?_pushHeader (rest : Bytes) (h : size < 2 ^ 32) :
    ∃ tail, pushHeader size = pushOpcode size :: tail ∧
      readPushSize? (pushOpcode size) (tail ++ rest) = some (size, rest) := by
  unfold pushHeader pushOpcode
  rw [toNat_opPushData1]
  split_ifs with h1 h2 h3
  · have hn : (UInt8.ofNat size).toNat = size := toNat_ofNat (by omega)
    have hlt : UInt8.ofNat size < opPushData1 := by
      rw [UInt8.lt_iff_toNat_lt, hn]
      exact h1
    refine ⟨[], rfl, ?_⟩
    simp [readPushSize?, hlt, hn]
  · have hread := readLe?_append (w := 1) rest (n := size) (by omega)
    have hlow : ¬ opPushData1 < opPushData1 := by decide
    refine ⟨[UInt8.ofNat size], rfl, ?_⟩
    simp only [readPushSize?, hlow, if_false, if_true]
    exact hread
  · have hread := readLe?_append (w := 2) rest (n := size) (by omega)
    have hlow : ¬ opPushData2 < opPushData1 := by decide
    have hne : opPushData2 ≠ opPushData1 := by decide
    refine ⟨leBytes 2 size, rfl, ?_⟩
    simp only [readPushSize?, hlow, hne, if_false, if_true]
    exact hread
  · have hread := readLe?_append (w := 4) rest (n := size) (by omega)
    have hlow : ¬ opPushData4 < opPushData1 := by decide
    have hne : opPushData4 ≠ opPushData1 := by decide
    have hne' : opPushData4 ≠ opPushData2 := by decide
    refine ⟨leBytes 4 size, rfl, ?_⟩
    simp only [readPushSize?, hlow, hne, hne', if_false]
    exact hread

variable {data : Bytes}

theorem getOp_pushData (rest : Bytes) (h : data.length < 2 ^ 32) :
    getOp (pushData data ++ rest) = .ok ⟨pushOpcode data.length, data, rest⟩ := by
  obtain ⟨tail, hheader, hread⟩ := readPushSize?_pushHeader (data ++ rest) h
  have hlen : ¬ (data ++ rest).length < data.length := by simp
  rw [pushData, hheader, List.append_assoc, List.cons_append, getOp, if_pos (pushOpcode_le _), hread]
  simp only [hlen, if_false, List.take_left, List.drop_left]

/-- `CheckMinimalPush`: is `opcode` the canonical way to push `data`? -/
def checkMinimalPush (data : Bytes) (opcode : UInt8) : Bool :=
  if data.length = 0 then opcode == op0
  else if data.length = 1 ∧ 1 ≤ data.headD 0 ∧ data.headD 0 ≤ 16 then opcode == op1 + (data.headD 0 - 1)
  else if data.length = 1 ∧ data.headD 0 = 0x81 then opcode == op1Negate
  else if data.length ≤ 75 then opcode.toNat == data.length
  else if data.length ≤ 255 then opcode == opPushData1
  else if data.length ≤ 65535 then opcode == opPushData2
  else true

/-- Data with a one-byte opcode of its own, `OP_1NEGATE` or `OP_1` to `OP_16`. -/
def HasSmallIntOpcode (data : Bytes) : Prop :=
  data.length = 1 ∧ ((1 ≤ data.headD 0 ∧ data.headD 0 ≤ 16) ∨ data.headD 0 = 0x81)

theorem not_hasSmallIntOpcode_of_length (h : data.length ≠ 1) : ¬ HasSmallIntOpcode data :=
  fun hs => h hs.1

/-- A data push passes the minimality test exactly when it uses the opcode of `operator<<` and no
one-byte opcode pushes the same value. -/
theorem checkMinimalPush_iff (hop : opcode ≤ opPushData4) (hlen : data.length ≤ 65535) :
    checkMinimalPush data opcode = true ↔ opcode = pushOpcode data.length ∧ ¬ HasSmallIntOpcode data := by
  have hop' : opcode.toNat ≤ 0x4e := UInt8.le_iff_toNat_le.mp hop
  have hsize (hsmall : data.length < 0x4c) : opcode.toNat = data.length ↔ opcode = UInt8.ofNat data.length := by
    rw [← UInt8.toNat_inj, toNat_ofNat (by omega)]
  unfold checkMinimalPush pushOpcode HasSmallIntOpcode
  rw [toNat_opPushData1]
  by_cases h0 : data.length = 0
  · simp [h0, op0]
  by_cases h1 : data.length = 1 ∧ 1 ≤ data.headD 0 ∧ data.headD 0 ≤ 16
  · have hne : opcode ≠ op1 + (data.headD 0 - 1) := by
      rintro rfl
      obtain ⟨-, hlo, hhi⟩ := h1
      rw [UInt8.toNat_add, UInt8.toNat_sub_of_le _ _ hlo] at hop'
      rw [UInt8.le_iff_toNat_le] at hlo hhi
      change (0x51 + (_ - 1)) % 256 ≤ _ at hop'
      change _ ≤ 16 at hhi
      omega
    rw [if_neg h0, if_pos h1, beq_iff_eq]
    exact ⟨fun h => absurd h hne, fun h => absurd ⟨h1.1, Or.inl h1.2⟩ h.2⟩
  by_cases h2 : data.length = 1 ∧ data.headD 0 = 0x81
  · have hne : opcode ≠ op1Negate := by
      rintro rfl
      exact absurd hop (by decide)
    rw [if_neg h0, if_neg h1, if_pos h2, beq_iff_eq]
    exact ⟨fun h => absurd h hne, fun h => absurd ⟨h2.1, Or.inr h2.2⟩ h.2⟩
  have hnot : ¬ (data.length = 1 ∧ ((1 ≤ data.headD 0 ∧ data.headD 0 ≤ 16) ∨ data.headD 0 = 0x81)) := by
    rintro ⟨hone, h⟩
    exact h.elim (fun h => h1 ⟨hone, h⟩) (fun h => h2 ⟨hone, h⟩)
  rw [if_neg h0, if_neg h1, if_neg h2]
  split_ifs
  all_goals first | omega | skip
  · rw [beq_iff_eq, hsize (by omega), and_iff_left hnot]
  all_goals rw [beq_iff_eq, and_iff_left hnot]

variable {pc tail : Bytes}

theorem cons_eq_pushHeader
    (hread : readPushSize? opcode pc = some (size, tail)) (hop : opcode = pushOpcode size) :
    opcode :: pc = pushHeader size ++ tail ∧ size < 2 ^ 32 := by
  unfold readPushSize? at hread
  unfold pushOpcode at hop
  unfold pushHeader
  rw [toNat_opPushData1] at hop ⊢
  split_ifs at hop ⊢ with h1 h2 h3
  · have hlt : opcode < opPushData1 := by
      rw [UInt8.lt_iff_toNat_lt, hop, toNat_ofNat (by omega)]
      exact h1
    rw [if_pos hlt, Option.some.injEq, Prod.mk.injEq] at hread
    rw [hop, hread.2]
    exact ⟨rfl, by omega⟩
  · subst hop
    obtain ⟨-, rfl⟩ := readLe?_eq_some (w := 1) hread
    exact ⟨rfl, by omega⟩
  · subst hop
    obtain ⟨-, rfl⟩ := readLe?_eq_some (w := 2) hread
    exact ⟨rfl, by omega⟩
  · subst hop
    obtain ⟨hlt, rfl⟩ := readLe?_eq_some (w := 4) hread
    exact ⟨rfl, by omega⟩

theorem eq_opPushData4_of_readPushSize?
    (hop : opcode ≤ opPushData4) (hread : readPushSize? opcode pc = some (size, tail))
    (hsize : 65535 < size) : opcode = opPushData4 := by
  rcases push_cases hop with h | rfl | rfl | rfl
  · have hlt := opcode.toNat_lt
    obtain ⟨hn, -⟩ : opcode.toNat = size ∧ pc = tail := by simpa [readPushSize?, h] using hread
    omega
  · have hlt := (readLe?_eq_some (w := 1) hread).1
    omega
  · have hlt := (readLe?_eq_some (w := 2) hread).1
    omega
  · rfl

variable {op : ScriptOp}

theorem getOp_opcode (h : getOp (opcode :: pc) = .ok op) :
    op.opcode = opcode := by
  simp only [getOp] at h
  split at h
  · split at h
    · cases h
    · split_ifs at h
      obtain rfl : _ = op := by simpa using h
      rfl
  · obtain rfl : _ = op := by simpa using h
    rfl

theorem readPushSize?_of_getOp (hop : opcode ≤ opPushData4) (h : getOp (opcode :: pc) = .ok op) :
    readPushSize? opcode pc = some (op.data.length, op.data ++ op.rest) := by
  rw [getOp, if_pos hop] at h
  cases hsize : readPushSize? opcode pc with
  | none => simp [hsize] at h
  | some r =>
    obtain ⟨size, tail⟩ := r
    simp only [hsize] at h
    split_ifs at h with hlen
    obtain rfl : _ = op := by simpa using h
    have hmin : min size tail.length = size := by omega
    simp [hmin]

theorem readPushSize?_suffix (h : readPushSize? opcode pc = some (size, tail)) : ∃ used, pc = used ++ tail := by
  unfold readPushSize? at h
  split_ifs at h
  · obtain ⟨-, rfl⟩ : opcode.toNat = size ∧ pc = tail := by simpa using h
    exact ⟨[], rfl⟩
  all_goals exact ⟨_, (readLe?_eq_some h).2⟩

theorem getOp_rest_lt (h : getOp pc = .ok op) : op.rest.length < pc.length := by
  cases pc with
  | nil => cases h
  | cons opcode pc =>
    by_cases hle : opcode ≤ opPushData4
    · obtain ⟨used, rfl⟩ := readPushSize?_suffix (readPushSize?_of_getOp hle h)
      simp
      omega
    · rw [getOp_of_gt pc hle] at h
      obtain rfl : _ = op := by simpa using h
      simp

theorem getOp_minimal (h : getOp pc = .ok op) (hop : op.opcode ≤ opPushData4)
    (hmin : checkMinimalPush op.data op.opcode = true) :
    op.data.length < 2 ^ 32 ∧ op.opcode = pushOpcode op.data.length ∧ pc = pushData op.data ++ op.rest := by
  cases pc with
  | nil => cases h
  | cons opcode pc =>
    rw [getOp_opcode h] at hop hmin ⊢
    have hread := readPushSize?_of_getOp hop h
    have hcode : opcode = pushOpcode op.data.length := by
      by_cases hlen : op.data.length ≤ 65535
      · exact ((checkMinimalPush_iff hop hlen).mp hmin).1
      · rw [eq_opPushData4_of_readPushSize? hop hread (by omega), pushOpcode, toNat_opPushData1,
          if_neg (by omega), if_neg (by omega), if_neg (by omega)]
    obtain ⟨hheader, hlt⟩ := cons_eq_pushHeader hread hcode
    refine ⟨hlt, hcode, ?_⟩
    rw [hheader, pushData, List.append_assoc]

end Whippet.Script
