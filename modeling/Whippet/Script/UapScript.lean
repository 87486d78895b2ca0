import Whippet.Script.CScript

/-! Mint and mint-transfer output scripts: the parser and the covenants it recognises. -/
namespace Whippet.Script
open Lib

def maxUapMultiplier : ℤ := 2 ^ 31 - 1

def uapOriginSize : ℕ := 32

/-- What `ParseUapOutputScript` hands back. The origin of a mint is empty. -/
structure UapOutput where
  pubkey : Bytes
  multiplier : ℤ
  origin : Bytes
  isMint : Bool
  deriving DecidableEq, Repr

/-- `GetUapDataPush`: the next element as a canonically encoded data push. -/
def getUapDataPush? (pc : Bytes) : Option (Bytes × Bytes) := do
  let op ← getOp? pc
  if op.opcode ≤ opPushData4 ∧ checkMinimalPush op.data op.opcode then some (op.data, op.rest) else none

/-- The number an element denotes, a small-integer opcode or a minimal push of a minimal number. -/
def uapMultiplier? (op : ScriptOp) : Option ℤ :=
  if op1 ≤ op.opcode ∧ op.opcode ≤ op16 then some ((op.opcode.toNat : ℤ) - (op1.toNat - 1))
  else if op.opcode ≤ opPushData4 ∧ checkMinimalPush op.data op.opcode then
    scriptNum? op.data true defaultMaxNumSize
  else none

/-- The multiplier field of the script and the position after it. -/
def getUapMultiplier? (pc : Bytes) : Option (ℤ × Bytes) := do
  let op ← getOp? pc
  let multiplier ← uapMultiplier? op
  if 0 ≤ multiplier ∧ multiplier ≤ maxUapMultiplier then some (multiplier, op.rest) else none

/-- What follows the multiplier: `OP_MINT`, or the origin and `OP_MINT_TRANSFER`, and nothing more. -/
def getUapTail? (pc : Bytes) : Option (Bytes × Bool) := do
  let op ← getOp? pc
  if op.opcode = opMint then
    if op.rest = [] then some ([], true) else none
  else if op.opcode ≤ opPushData4 ∧ op.data.length = uapOriginSize ∧ checkMinimalPush op.data op.opcode then do
    let op2 ← getOp? op.rest
    if op2.opcode = opMintTransfer ∧ op2.rest = [] then some (op.data, false) else none
  else none

def parseUapOutputScript? (script : Bytes) : Option UapOutput := do
  let (pubkey, pc) ← getUapDataPush? script
  if pubkey.length = 33 ∨ pubkey.length = 65 then do
    let (multiplier, pc) ← getUapMultiplier? pc
    let (origin, isMint) ← getUapTail? pc
    some ⟨pubkey, multiplier, origin, isMint⟩
  else none

/-- The script that pushes the given fields: `<pubkey> <multiplier> OP_MINT` or
`<pubkey> <multiplier> <origin> OP_MINT_TRANSFER`. -/
def uapScript (f : UapOutput) : Bytes :=
  pushData f.pubkey ++ pushInt64 f.multiplier ++
    if f.isMint then [opMint] else pushData f.origin ++ [opMintTransfer]

/-- The fields a covenant can have. -/
structure UapOutput.WellFormed (f : UapOutput) : Prop where
  pubkey_size : f.pubkey.length = 33 ∨ f.pubkey.length = 65
  multiplier_nonneg : 0 ≤ f.multiplier
  multiplier_le : f.multiplier ≤ maxUapMultiplier
  origin_mint : f.isMint = true → f.origin = []
  origin_size : f.isMint = false → f.origin.length = uapOriginSize

variable {pc : Bytes}

theorem getOp?_eq_some {op : ScriptOp} : getOp? pc = some op ↔ getOp pc = .ok op := by
  unfold getOp?
  cases getOp pc <;> simp [Except.toOption]

theorem setVch_singleton {b : UInt8} (h : b.toNat < 128) : setVch [b] = b.toNat := by
  simpa using setVch_concat_nonneg [] h

variable {data : Bytes}

theorem setVch_of_hasSmallIntOpcode (h : HasSmallIntOpcode data) :
    setVch data = -1 ∨ (1 ≤ setVch data ∧ setVch data ≤ 16) := by
  obtain ⟨hlen, h⟩ := h
  obtain ⟨b, rfl⟩ := List.length_eq_one_iff.mp hlen
  rcases h with ⟨hlo, hhi⟩ | hb
  · right
    have hlo' : 1 ≤ b.toNat := UInt8.le_iff_toNat_le.mp hlo
    have hhi' : b.toNat ≤ 16 := UInt8.le_iff_toNat_le.mp hhi
    rw [setVch_singleton (by omega)]
    omega
  · left
    obtain rfl : b = 0x81 := hb
    decide

variable {n : ℤ}

theorem hasSmallIntOpcode_serialize (h : 1 ≤ n ∧ n ≤ 16) : HasSmallIntOpcode (serialize n) := by
  obtain ⟨lo, hi⟩ := h
  interval_cases n <;> exact ⟨by decide, Or.inl ⟨by decide, by decide⟩⟩

theorem checkMinimalPush_pushOpcode (h : ¬ HasSmallIntOpcode data) :
    checkMinimalPush data (pushOpcode data.length) = true := by
  by_cases hlen : data.length ≤ 65535
  · exact (checkMinimalPush_iff (pushOpcode_le _) hlen).mpr ⟨rfl, h⟩
  · simp only [checkMinimalPush]
    rw [if_neg (by omega), if_neg (by omega), if_neg (by omega), if_neg (by omega), if_neg (by omega),
      if_neg (by omega)]

theorem not_hasSmallIntOpcode {opcode : UInt8} (hop : opcode ≤ opPushData4)
    (hmin : checkMinimalPush data opcode = true) : ¬ HasSmallIntOpcode data := by
  intro hs
  have hlen := hs.1
  exact ((checkMinimalPush_iff hop (by omega)).mp hmin).2 hs

theorem getUapDataPush?_eq_some {rest : Bytes} :
    getUapDataPush? pc = some (data, rest) ↔
      data.length < 2 ^ 32 ∧ ¬ HasSmallIntOpcode data ∧ pc = pushData data ++ rest := by
  constructor
  · intro h
    obtain ⟨op, hop, ⟨hle, hmin⟩, rfl, rfl⟩ : ∃ op, getOp? pc = some op ∧ (op.opcode ≤ opPushData4 ∧
        checkMinimalPush op.data op.opcode = true) ∧ op.data = data ∧ op.rest = rest := by
      simpa [getUapDataPush?, Option.bind_eq_some_iff] using h
    obtain ⟨hlt, -, hpc⟩ := getOp_minimal (getOp?_eq_some.mp hop) hle hmin
    exact ⟨hlt, not_hasSmallIntOpcode hle hmin, hpc⟩
  · rintro ⟨hlt, hsmall, rfl⟩
    have hop := getOp?_eq_some.mpr (getOp_pushData rest hlt)
    simp [getUapDataPush?, hop, pushOpcode_le, checkMinimalPush_pushOpcode hsmall]

theorem pushInt64_small (h : 1 ≤ n ∧ n ≤ 16) : pushInt64 n = [UInt8.ofNat (n.toNat + 0x50)] := by
  obtain ⟨lo, hi⟩ := h
  interval_cases n <;> rfl

theorem pushInt64_zero : pushInt64 0 = pushData [] := rfl

theorem pushInt64_large (h : 16 < n) : pushInt64 n = pushData (serialize n) := by
  rw [pushInt64, if_neg (by omega), if_neg (by omega)]

theorem pushInt64_setVch (hmin : isMinimalNum data = true)
    (hsmall : ¬ HasSmallIntOpcode data) (hnonneg : 0 ≤ setVch data) :
    pushInt64 (setVch data) = pushData data := by
  have hdata := serialize_setVch hmin
  rcases lt_trichotomy (setVch data) 0 with h | h | h
  · omega
  · rw [h] at hdata ⊢
    rw [pushInt64_zero, ← hdata, serialize_zero]
  · have hbig : 16 < setVch data := by
      by_contra hle
      exact hsmall (hdata ▸ hasSmallIntOpcode_serialize ⟨by omega, by omega⟩)
    rw [pushInt64_large hbig, hdata]

theorem not_op1_le_of_le {opcode : UInt8} (h : opcode ≤ opPushData4) : ¬ op1 ≤ opcode := by
  intro hge
  rw [UInt8.le_iff_toNat_le] at h hge
  change 0x51 ≤ _ at hge
  change _ ≤ 0x4e at h
  omega

variable {m : ℤ}

theorem getUapMultiplier?_pushInt64 (rest : Bytes) (h0 : 0 ≤ m) (h1 : m ≤ maxUapMultiplier) :
    getUapMultiplier? (pushInt64 m ++ rest) = some (m, rest) := by
  by_cases hsmall : 1 ≤ m ∧ m ≤ 16
  · rw [pushInt64_small hsmall]
    obtain ⟨lo, hi⟩ := hsmall
    interval_cases m <;> rfl
  have hlen : (serialize m).length ≤ 4 := serialize_length_le (by unfold maxUapMultiplier at h1; omega)
  have hno : ¬ HasSmallIntOpcode (serialize m) := by
    intro hs
    have hval := setVch_of_hasSmallIntOpcode hs
    rw [setVch_serialize] at hval
    omega
  have hpush : pushInt64 m = pushData (serialize m) := by
    have hset := pushInt64_setVch (isMinimalNum_serialize m) hno
    rw [setVch_serialize] at hset
    exact hset h0
  have hop : getOp? (pushData (serialize m) ++ rest) = some ⟨_, _, rest⟩ :=
    getOp?_eq_some.mpr (getOp_pushData rest (by omega))
  have hcode : pushOpcode (serialize m).length ≤ opPushData4 := pushOpcode_le _
  have hnum : scriptNum? (serialize m) true defaultMaxNumSize = some m := by
    have hle : ¬ (serialize m).length > defaultMaxNumSize := by
      unfold defaultMaxNumSize
      omega
    simp [scriptNum?, hle, isMinimalNum_serialize, setVch_serialize]
  rw [hpush]
  simp [getUapMultiplier?, uapMultiplier?, hop, not_op1_le_of_le hcode, hcode,
    checkMinimalPush_pushOpcode hno, hnum, h0, h1]

theorem setVch_length_le (hmin : isMinimalNum data = true) (hval : setVch data = m)
    (h0 : 0 ≤ m) (h1 : m ≤ maxUapMultiplier) : data.length ≤ 4 := by
  have habs : m.natAbs < 2 ^ 31 := by
    unfold maxUapMultiplier at h1
    omega
  have hlen := serialize_length_le habs
  rw [← hval, serialize_setVch hmin] at hlen
  exact hlen

theorem scriptNum?_eq_some {vch : Bytes} {requireMinimal : Bool} {size : ℕ} :
    scriptNum? vch requireMinimal size = some m ↔
      vch.length ≤ size ∧ (requireMinimal = true → isMinimalNum vch = true) ∧ setVch vch = m := by
  unfold scriptNum?
  split_ifs with h1 h2
  · simp
    omega
  · simp_all
  · simp_all

theorem getUapMultiplier?_eq_some {rest : Bytes} :
    getUapMultiplier? pc = some (m, rest) ↔
      0 ≤ m ∧ m ≤ maxUapMultiplier ∧ pc = pushInt64 m ++ rest := by
  constructor
  · intro h
    obtain ⟨op, hop, hnum, ⟨h0, h1⟩, rfl⟩ : ∃ op, getOp? pc = some op ∧ uapMultiplier? op = some m ∧
        (0 ≤ m ∧ m ≤ maxUapMultiplier) ∧ op.rest = rest := by
      simpa [getUapMultiplier?, Option.bind_eq_some_iff] using h
    rw [getOp?_eq_some] at hop
    refine ⟨h0, h1, ?_⟩
    unfold uapMultiplier? at hnum
    split_ifs at hnum with hsmall hpush
    · obtain ⟨hlo, hhi⟩ := hsmall
      cases pc with
      | nil => cases hop
      | cons opcode pc =>
        have hcode := getOp_opcode hop
        rw [hcode] at hlo hhi hnum
        rw [getOp_of_gt pc (fun hle => not_op1_le_of_le hle hlo)] at hop
        obtain rfl : _ = op := by simpa using hop
        rw [UInt8.le_iff_toNat_le] at hlo hhi
        change 0x51 ≤ _ at hlo
        change _ ≤ 0x60 at hhi
        obtain rfl : (opcode.toNat : ℤ) - 0x50 = m := by simpa [op1] using hnum
        have hsum : ((opcode.toNat : ℤ) - 0x50).toNat + 0x50 = opcode.toNat := by omega
        rw [pushInt64_small (by omega), hsum]
        simp
    · obtain ⟨hle, hmin⟩ := hpush
      obtain ⟨-, hnumMin, rfl⟩ := scriptNum?_eq_some.mp hnum
      obtain ⟨-, -, hpc⟩ := getOp_minimal hop hle hmin
      rw [pushInt64_setVch (hnumMin rfl) (not_hasSmallIntOpcode hle hmin) h0, hpc]
  · rintro ⟨h0, h1, rfl⟩
    exact getUapMultiplier?_pushInt64 rest h0 h1

theorem getOp_last {op : ScriptOp} (h : getOp pc = .ok op) (hop : ¬ op.opcode ≤ opPushData4)
    (hrest : op.rest = []) : pc = [op.opcode] := by
  cases pc with
  | nil => cases h
  | cons opcode pc =>
    rw [getOp_opcode h] at hop ⊢
    rw [getOp_of_gt pc hop] at h
    obtain rfl : _ = op := by simpa using h
    rw [show pc = [] from hrest]

theorem getUapTail?_eq_some {origin : Bytes} {isMint : Bool} :
    getUapTail? pc = some (origin, isMint) ↔
      (isMint = true ∧ origin = [] ∧ pc = [opMint]) ∨
      (isMint = false ∧ origin.length = uapOriginSize ∧ pc = pushData origin ++ [opMintTransfer]) := by
  constructor
  · intro h
    obtain ⟨op, hop, h⟩ := Option.bind_eq_some_iff.mp h
    rw [getOp?_eq_some] at hop
    split_ifs at h with hmint hrest hpush
    · obtain ⟨rfl, rfl⟩ : [] = origin ∧ true = isMint := by simpa using h
      refine Or.inl ⟨rfl, rfl, ?_⟩
      rw [getOp_last hop (by rw [hmint]; decide) hrest, hmint]
    · obtain ⟨hle, hsize, hmin⟩ := hpush
      obtain ⟨op2, hop2, ⟨hcode, hrest⟩, rfl, rfl⟩ : ∃ op2, getOp? op.rest = some op2 ∧
          (op2.opcode = opMintTransfer ∧ op2.rest = []) ∧ op.data = origin ∧ isMint = false := by
        simpa [Option.bind_eq_some_iff] using h
      obtain ⟨-, -, hpc⟩ := getOp_minimal hop hle hmin
      rw [getOp?_eq_some] at hop2
      refine Or.inr ⟨rfl, hsize, ?_⟩
      rw [hpc, getOp_last hop2 (by rw [hcode]; decide) hrest, hcode]
  · rintro (⟨rfl, rfl, rfl⟩ | ⟨rfl, hsize, rfl⟩)
    · rfl
    · have hsize' : origin.length = 32 := hsize
      have hop : getOp? (pushData origin ++ [opMintTransfer]) = some ⟨_, _, [opMintTransfer]⟩ :=
        getOp?_eq_some.mpr (getOp_pushData _ (by omega))
      have hmin := checkMinimalPush_pushOpcode
        (not_hasSmallIntOpcode_of_length (show origin.length ≠ 1 by omega))
      have hne : pushOpcode uapOriginSize ≠ opMint := by decide
      rw [hsize] at hmin
      have hlast : getOp? [opMintTransfer] = some ⟨opMintTransfer, [], []⟩ := by decide
      simp [getUapTail?, hop, hne, pushOpcode_le, hsize, hmin, hlast]

/-- The parser accepts exactly the scripts that push well-formed fields, and returns those fields. -/
theorem parseUapOutputScript?_eq_some {script : Bytes} {f : UapOutput} :
    parseUapOutputScript? script = some f ↔ f.WellFormed ∧ script = uapScript f := by
  obtain ⟨pubkey, multiplier, origin, isMint⟩ := f
  constructor
  · intro h
    obtain ⟨pc, hkey, hsize, pc', hmult, htail⟩ : ∃ pc, getUapDataPush? script = some (pubkey, pc) ∧
        (pubkey.length = 33 ∨ pubkey.length = 65) ∧ ∃ pc', getUapMultiplier? pc = some (multiplier, pc') ∧
          getUapTail? pc' = some (origin, isMint) := by
      simp only [parseUapOutputScript?, Option.bind_eq_bind, Option.bind_eq_some_iff, Prod.exists,
        Option.ite_none_right_eq_some, Option.some.injEq, UapOutput.mk.injEq] at h
      obtain ⟨_, pc, hkey, hsize, _, pc', hmult, _, _, htail, rfl, rfl, rfl, rfl⟩ := h
      exact ⟨pc, hkey, hsize, pc', hmult, htail⟩
    obtain ⟨-, -, rfl⟩ := getUapDataPush?_eq_some.mp hkey
    obtain ⟨h0, h1, rfl⟩ := getUapMultiplier?_eq_some.mp hmult
    rcases getUapTail?_eq_some.mp htail with ⟨rfl, rfl, rfl⟩ | ⟨rfl, horigin, rfl⟩
    · exact ⟨⟨hsize, h0, h1, fun _ => rfl, by simp⟩, by simp [uapScript]⟩
    · exact ⟨⟨hsize, h0, h1, by simp, fun _ => horigin⟩, by simp [uapScript]⟩
  · rintro ⟨⟨hsize, h0, h1, hmint, horigin⟩, rfl⟩
    have hkey : ∀ rest, getUapDataPush? (pushData pubkey ++ rest) = some (pubkey, rest) := fun rest =>
      getUapDataPush?_eq_some.mpr ⟨by dsimp only at hsize; omega,
        not_hasSmallIntOpcode_of_length (by dsimp only at hsize; omega), rfl⟩
    have hmult : ∀ rest, getUapMultiplier? (pushInt64 multiplier ++ rest) = some (multiplier, rest) :=
      fun rest => getUapMultiplier?_pushInt64 rest h0 h1
    have htail : getUapTail? (if isMint then [opMint] else pushData origin ++ [opMintTransfer]) =
        some (origin, isMint) := by
      cases isMint with
      | true => exact getUapTail?_eq_some.mpr (Or.inl ⟨rfl, hmint rfl, rfl⟩)
      | false => exact getUapTail?_eq_some.mpr (Or.inr ⟨rfl, horigin rfl, rfl⟩)
    simp only [parseUapOutputScript?, uapScript, List.append_assoc, hkey, hmult, Option.bind_eq_bind,
      Option.bind_some, htail]
    exact if_pos hsize

/-- One byte string per covenant. Parsing what pushes the fields returns the fields, an accepted script
is rebuilt byte for byte from its fields, and so no two scripts have the same fields. -/
theorem parseUapOutputScript_canonical :
    (∀ (pubkey : Bytes) (multiplier : ℤ), (pubkey.length = 33 ∨ pubkey.length = 65) →
      0 ≤ multiplier → multiplier ≤ 2 ^ 31 - 1 →
      parseUapOutputScript? (pushData pubkey ++ pushInt64 multiplier ++ [opMint]) =
        some ⟨pubkey, multiplier, [], true⟩) ∧
    (∀ (pubkey origin : Bytes) (multiplier : ℤ), (pubkey.length = 33 ∨ pubkey.length = 65) →
      0 ≤ multiplier → multiplier ≤ 2 ^ 31 - 1 → origin.length = 32 →
      parseUapOutputScript?
          (pushData pubkey ++ pushInt64 multiplier ++ pushData origin ++ [opMintTransfer]) =
        some ⟨pubkey, multiplier, origin, false⟩) ∧
    (∀ (script : Bytes) (f : UapOutput), parseUapOutputScript? script = some f →
      script = pushData f.pubkey ++ pushInt64 f.multiplier ++
        if f.isMint then [opMint] else pushData f.origin ++ [opMintTransfer]) ∧
    (∀ (script script' : Bytes) (f : UapOutput), parseUapOutputScript? script = some f →
      parseUapOutputScript? script' = some f → script = script') := by
  refine ⟨?_, ?_, ?_, ?_⟩
  · intro pubkey multiplier hkey h0 h1
    exact parseUapOutputScript?_eq_some.mpr ⟨⟨hkey, h0, h1, fun _ => rfl, by simp⟩, rfl⟩
  · intro pubkey origin multiplier hkey h0 h1 horigin
    refine parseUapOutputScript?_eq_some.mpr ⟨⟨hkey, h0, h1, by simp, fun _ => horigin⟩, ?_⟩
    simp [uapScript]
  · intro script f h
    exact (parseUapOutputScript?_eq_some.mp h).2
  · intro script script' f h h'
    rw [(parseUapOutputScript?_eq_some.mp h).2, (parseUapOutputScript?_eq_some.mp h').2]

theorem parseUapOutputScript_canonical_transfer :
    parseUapOutputScript?
        (pushData (2 :: List.replicate 32 0x11) ++ pushInt64 1000 ++ pushData (List.replicate 32 0xab) ++
          [opMintTransfer]) =
      some ⟨2 :: List.replicate 32 0x11, 1000, List.replicate 32 0xab, false⟩ :=
  parseUapOutputScript_canonical.2.1 _ _ 1000 (Or.inl (by decide)) (by decide) (by decide) (by decide)

end Whippet.Script
