import Whippet.Lib.Double
import Whippet.Lib.Hex
import Whippet.Ports.Pushes

/-! The covenant parsers of the indexer (`ParseUAPScript`), the wallet library (`parseUapScript`) and the
web wallet (`parseUapCovenant`). -/
namespace Whippet.Ports
open Lib Script

/-- The loop of `scriptNumToInt64` in both languages, over at most eight bytes. -/
def wideScriptNum? (data : Bytes) : Option ℤ :=
  if data.length = 0 then some 0
  else if data.length > 8 then none
  else if signBit (data.getLastD 0) then some (-((leNat data - 0x80 * 256 ^ (data.length - 1) : ℕ) : ℤ))
  else some (leNat data)

def Indexer.scriptNumToInt64? (data : Bytes) : Option ℤ := wideScriptNum? data

/-- The JavaScript `scriptNumToInt64`, which computes with `BigInt` and returns a `Number`. -/
def UapJs.scriptNumToInt64? (data : Bytes) : Option ℤ := (wideScriptNum? data).map intToDouble

/-- `ParseUAPScript` of the indexer. The outer error is the one for invalid hex, `none` is no covenant. -/
def Indexer.parseUAPScript (scriptHex : List Char) : Except String (Option UapOutput) :=
  match hexDecode? scriptHex with
  | none => .error "invalid script hex"
  | some raw => .ok (parsePushes? Indexer.scriptNumToInt64? raw)

def UapJs.parseUapScript? (scriptPubKey : Bytes) : Option UapOutput :=
  parsePushes? UapJs.scriptNumToInt64? scriptPubKey

def UapJs.pushData (data : Bytes) : Except String Bytes :=
  if data.length < 0x4c then .ok ([UInt8.ofNat data.length] ++ data)
  else if data.length ≤ 0xff then .ok ([0x4c, UInt8.ofNat data.length] ++ data)
  else if data.length ≤ 0xffff then
    .ok ([0x4d, UInt8.ofNat (data.length % 256), UInt8.ofNat (data.length / 256 % 256)] ++ data)
  else .error "push too large for this helper"

def UapJs.scriptNumBytes (n : ℤ) : Bytes :=
  if n = 0 then []
  else
    let out := minimalBytes n.natAbs
    if signBit (out.getLastD 0) then out ++ [if n < 0 then 0x80 else 0x00]
    else if n < 0 then out.dropLast ++ [out.getLastD 0 ||| 0x80]
    else out

def UapJs.pushMultiplier (n : ℤ) : Except String Bytes :=
  if n < 0 ∨ n > 2147483647 then .error "multiplier must be an integer in [0, 2147483647]"
  else if n = 0 then .ok [0x00]
  else if n ≤ 16 then .ok [UInt8.ofNat (0x51 + (n - 1)).toNat]
  else UapJs.pushData (UapJs.scriptNumBytes n)

def UapJs.buildMintScript (pubkey : Bytes) (multiplier : ℤ) : Except String Bytes := do
  let key ← UapJs.pushData pubkey
  let mult ← UapJs.pushMultiplier multiplier
  return key ++ mult ++ [0xb5]

def UapJs.buildTransferScript (pubkey : Bytes) (multiplier : ℤ) (origin : Bytes) : Except String Bytes :=
  if origin.length ≠ 32 then .error ("origin must be exactly 32 bytes, got " ++ toString origin.length)
  else do
    let key ← UapJs.pushData pubkey
    let mult ← UapJs.pushMultiplier multiplier
    let org ← UapJs.pushData origin
    return key ++ mult ++ org ++ [0xba]

namespace UapWeb

/-- An instruction read by `readOp`; a bare opcode has no data. -/
structure WebOp where
  opcode : UInt8
  data : Option Bytes
  next : Bytes
  deriving DecidableEq, Repr

structure WebCovenant where
  pubkey : Bytes
  multiplier : ℤ
  isMint : Bool
  deriving DecidableEq, Repr

def readSize? (opcode : UInt8) (pc : Bytes) : Option (ℕ × Bytes) :=
  if opcode = 0x4c then readLe? 1 pc
  else if opcode = 0x4d then readLe? 2 pc
  else if opcode = 0x4e then readLe? 4 pc
  else some (opcode.toNat, pc)

def readOp? : Bytes → Option WebOp
  | [] => none
  | opcode :: pc =>
    if opcode > 0x4e then some ⟨opcode, none, pc⟩
    else do
      let (size, pc) ← readSize? opcode pc
      if pc.length < size then none else some ⟨opcode, some (pc.take size), pc.drop size⟩

def scriptNum? (bytes : Bytes) : Option ℤ :=
  if bytes.length = 0 then some 0
  else if bytes.length > 4 then none
  else if signBit (bytes.getLastD 0) then
    some (-((leNat bytes : ℤ) - 0x80 * 256 ^ (bytes.length - 1)))
  else some (leNat bytes)

def multiplierOf? (op : WebOp) : Option ℤ :=
  if op.opcode = 0x00 then some 0
  else if 0x51 ≤ op.opcode ∧ op.opcode ≤ 0x60 then some ((op.opcode.toNat : ℤ) - (0x51 - 1))
  else op.data.bind scriptNum?

/-- The end of `parseUapCovenant`, which accepts a script only if it rebuilds to itself. -/
def matchTail (script pubkey : Bytes) (multiplier : ℤ) (third : WebOp) : Except String (Option WebCovenant) :=
  match third.data.filter (·.length == 32) with
  | some origin =>
    match readOp? third.next with
    | none => .ok none
    | some mintOp =>
      if mintOp.opcode ≠ 0xba ∨ mintOp.next ≠ [] then .ok none
      else do
        let built ← UapJs.buildTransferScript pubkey multiplier origin
        return if script = built then some ⟨pubkey, multiplier, false⟩ else none
  | none =>
    if third.opcode ≠ 0xb5 then .ok none
    else if third.next ≠ [] then .ok none
    else do
      let built ← UapJs.buildMintScript pubkey multiplier
      return if script = built then some ⟨pubkey, multiplier, true⟩ else none

/-- `parseUapCovenant` of the web wallet. An error is an exception out of the script builders. -/
def parseUapCovenant (script : Bytes) : Except String (Option WebCovenant) :=
  match readOp? script with
  | none => .ok none
  | some keyOp =>
    match keyOp.data with
    | none => .ok none
    | some pubkey =>
      if pubkey.length ≠ 33 ∧ pubkey.length ≠ 65 then .ok none
      else
        match readOp? keyOp.next with
        | none => .ok none
        | some multOp =>
          match multiplierOf? multOp with
          | none => .ok none
          | some multiplier =>
            if multiplier < 0 ∨ multiplier > 2147483647 then .ok none
            else
              match readOp? multOp.next with
              | none => .ok none
              | some third => matchTail script pubkey multiplier third

end UapWeb

theorem wideScriptNum?_eq (data : Bytes) :
    wideScriptNum? data = if data.length > 8 then none else some (setVch data) := by
  rcases List.eq_nil_or_concat data with rfl | ⟨lo, back, rfl⟩
  · rfl
  · rw [List.concat_eq_append]
    have hlen : (lo ++ [back]).length ≠ 0 := by simp
    have hlast : (lo ++ [back]).getLastD 0 = back := by simp [List.getLastD_eq_getLast?]
    simp only [wideScriptNum?, if_neg hlen, hlast, setVch, List.getLast?_concat]
    split_ifs <;> rfl

theorem Indexer.decodesScriptNum : DecodesScriptNum Indexer.scriptNumToInt64? := by
  intro data m hmin h0 h1
  rw [Indexer.scriptNumToInt64?, wideScriptNum?_eq]
  constructor
  · intro h
    split_ifs at h
    simpa using h
  · intro h
    have hlen := setVch_length_le hmin h h0 h1
    rw [if_neg (by omega), h]

theorem UapJs.decodesScriptNum : DecodesScriptNum UapJs.scriptNumToInt64? := by
  intro data m hmin h0 h1
  have hsmall : m.natAbs < 2 ^ 53 := by
    unfold maxUapMultiplier at h1
    omega
  rw [UapJs.scriptNumToInt64?, wideScriptNum?_eq]
  constructor
  · intro h
    split_ifs at h
    · simp at h
    · rw [Option.map_some, Option.some.injEq, intToDouble_eq hsmall] at h
      exact h
  · intro h
    have hlen := setVch_length_le hmin h h0 h1
    rw [if_neg (by omega), Option.map_some, (intToDouble_eq hsmall).mpr h]

theorem UapJs.pushData_eq {data : Bytes} (h : data.length ≤ 0xffff) :
    UapJs.pushData data = .ok (Script.pushData data) := by
  unfold UapJs.pushData Script.pushData pushHeader
  rw [toNat_opPushData1]
  split_ifs with h1 h2
  · rfl
  · rfl
  · have hmod : UInt8.ofNat (data.length % 256) = UInt8.ofNat data.length := by
      apply UInt8.toNat_inj.mp
      simp
    have hmod' : UInt8.ofNat (data.length / 256 % 256) = UInt8.ofNat (data.length / 256) := by
      apply UInt8.toNat_inj.mp
      simp
    rw [hmod, hmod']
    rfl

theorem UapJs.scriptNumBytes_eq (n : ℤ) : UapJs.scriptNumBytes n = serialize n := by
  by_cases hn : n = 0
  · simp [UapJs.scriptNumBytes, hn]
  · obtain ⟨lo, back, hbytes, -⟩ := minimalBytes_concat (n := n.natAbs) (by omega)
    simp [UapJs.scriptNumBytes, serialize, hn, hbytes, List.getLastD_eq_getLast?]

variable {m : ℤ}

theorem UapJs.pushMultiplier_eq (h0 : 0 ≤ m) (h1 : m ≤ maxUapMultiplier) :
    UapJs.pushMultiplier m = .ok (pushInt64 m) := by
  unfold maxUapMultiplier at h1
  unfold UapJs.pushMultiplier
  rw [if_neg (by omega)]
  split_ifs with hz hs
  · subst hz
    rfl
  · rw [pushInt64_small ⟨by omega, hs⟩]
    congr 3
    omega
  · have hlen := serialize_length_le (show m.natAbs < 2 ^ 31 by omega)
    rw [UapJs.scriptNumBytes_eq, UapJs.pushData_eq (by omega), pushInt64_large (by omega)]

theorem UapJs.buildMintScript_eq {pubkey : Bytes} (hkey : pubkey.length = 33 ∨ pubkey.length = 65)
    (h0 : 0 ≤ m) (h1 : m ≤ maxUapMultiplier) :
    UapJs.buildMintScript pubkey m = .ok (uapScript ⟨pubkey, m, [], true⟩) := by
  simp only [UapJs.buildMintScript, UapJs.pushData_eq (show pubkey.length ≤ 0xffff by omega),
    UapJs.pushMultiplier_eq h0 h1]
  rfl

theorem UapJs.buildTransferScript_eq {pubkey origin : Bytes}
    (hkey : pubkey.length = 33 ∨ pubkey.length = 65) (h0 : 0 ≤ m) (h1 : m ≤ maxUapMultiplier)
    (horigin : origin.length = 32) :
    UapJs.buildTransferScript pubkey m origin = .ok (uapScript ⟨pubkey, m, origin, false⟩) := by
  simp only [UapJs.buildTransferScript, if_neg (not_not.mpr horigin),
    UapJs.pushData_eq (show pubkey.length ≤ 0xffff by omega), UapJs.pushMultiplier_eq h0 h1,
    UapJs.pushData_eq (show origin.length ≤ 0xffff by omega), uapScript]
  change Except.ok _ = Except.ok _
  simp
  rfl

namespace UapWeb

def webOpOf (op : ScriptOp) : WebOp :=
  ⟨op.opcode, if op.opcode ≤ opPushData4 then some op.data else none, op.rest⟩

@[simp] theorem webOpOf_opcode (op : ScriptOp) : (webOpOf op).opcode = op.opcode := rfl

@[simp] theorem webOpOf_next (op : ScriptOp) : (webOpOf op).next = op.rest := rfl

variable {op : ScriptOp}

theorem webOpOf_data (h : op.opcode ≤ opPushData4) : (webOpOf op).data = some op.data :=
  if_pos h

theorem webOpOf_data_none (h : ¬ op.opcode ≤ opPushData4) : (webOpOf op).data = none :=
  if_neg h

theorem readSize?_eq {opcode : UInt8} (pc : Bytes) (hle : opcode ≤ opPushData4) :
    readSize? opcode pc = readPushSize? opcode pc := by
  rcases push_cases hle with h | rfl | rfl | rfl
  · rw [readSize?, readPushSize?, if_pos h, if_neg (ne_of_lt_opPushData1 h (by decide)),
      if_neg (ne_of_lt_opPushData1 h (by decide)), if_neg (ne_of_lt_opPushData1 h (by decide))]
  all_goals rfl

theorem readOp?_eq (script : Bytes) : readOp? script = (getOp? script).map webOpOf := by
  cases script with
  | nil => rfl
  | cons opcode pc =>
    by_cases hle : opcode ≤ opPushData4
    · have hgt : ¬ opcode > 0x4e := UInt8.not_lt.mpr hle
      simp only [readOp?, if_neg hgt, readSize?_eq pc hle, getOp?, getOp, if_pos hle]
      cases readPushSize? opcode pc with
      | none => rfl
      | some r =>
        simp only [Option.bind_eq_bind, Option.bind_some]
        split_ifs
        · rfl
        · simp [Except.toOption, webOpOf, hle]
    · have hgt : opcode > 0x4e := UInt8.not_le.mp hle
      rw [readOp?, if_pos hgt, getOp?, getOp_of_gt pc hle]
      simp [Except.toOption, webOpOf, hle]

variable {script : Bytes}

theorem readOp?_eq_some (h : getOp? script = some op) :
    readOp? script = some (webOpOf op) := by
  rw [readOp?_eq, h, Option.map_some]

theorem scriptNum?_eq {bytes : Bytes} (h : bytes.length ≤ 4) : scriptNum? bytes = some (setVch bytes) := by
  rcases List.eq_nil_or_concat bytes with rfl | ⟨lo, back, rfl⟩
  · rfl
  · rw [List.concat_eq_append] at h ⊢
    have hlen : (lo ++ [back]).length ≠ 0 := by simp
    have hlast : (lo ++ [back]).getLastD 0 = back := by simp [List.getLastD_eq_getLast?]
    have hfour : ¬ (lo ++ [back]).length > 4 := by omega
    simp only [scriptNum?, if_neg hlen, if_neg hfour, hlast, setVch, List.getLast?_concat]
    split_ifs with hs
    · have hge := (signBit_iff back).mp hs
      have hle : 0x80 * 256 ^ ((lo ++ [back]).length - 1) ≤ leNat (lo ++ [back]) := by
        rw [leNat_concat, List.length_append, List.length_singleton, Nat.add_sub_cancel, Nat.mul_comm]
        exact (Nat.mul_le_mul_left _ hge).trans (Nat.le_add_left _ _)
      rw [Nat.cast_sub hle]
      push_cast
      rfl
    · rfl

variable {m : ℤ}

theorem multiplierOf?_webOpOf (h : uapMultiplier? op = some m) :
    multiplierOf? (webOpOf op) = some m := by
  unfold uapMultiplier? at h
  split_ifs at h with hsmall hpush
  · have hne : op.opcode ≠ 0x00 := by
      intro heq
      exact absurd (heq ▸ hsmall.1) (by decide)
    have hsmall' : (0x51 : UInt8) ≤ op.opcode ∧ op.opcode ≤ (0x60 : UInt8) := hsmall
    rw [multiplierOf?, webOpOf_opcode, if_neg hne, if_pos hsmall']
    exact h
  · obtain ⟨hlen, -, hval⟩ := scriptNum?_eq_some.mp h
    have hlen' : op.data.length ≤ 4 := hlen
    obtain ⟨hcode, -⟩ := (checkMinimalPush_iff hpush.1 (by omega)).mp hpush.2
    have hnot : ¬ ((0x51 : UInt8) ≤ op.opcode ∧ op.opcode ≤ (0x60 : UInt8)) := hsmall
    by_cases hzero : op.opcode = 0x00
    · have hnil : op.data = [] := by
        rw [hzero, pushOpcode, toNat_opPushData1, if_pos (by omega)] at hcode
        have hnat := congrArg UInt8.toNat hcode
        rw [toNat_ofNat (by omega)] at hnat
        exact List.length_eq_zero_iff.mp hnat.symm
      rw [hnil] at hval
      rw [multiplierOf?, webOpOf_opcode, if_pos hzero, ← hval]
      rfl
    · rw [multiplierOf?, webOpOf_opcode, if_neg hzero, if_neg hnot, webOpOf_data hpush.1, Option.bind_some,
        scriptNum?_eq hlen', hval]

def webCovenantOf (f : UapOutput) : WebCovenant := ⟨f.pubkey, f.multiplier, f.isMint⟩

variable {pubkey : Bytes}

theorem matchTail_of_mint
    (hkey : pubkey.length = 33 ∨ pubkey.length = 65) (h0 : 0 ≤ m) (h1 : m ≤ maxUapMultiplier)
    (hcode : op.opcode = opMint) (hrest : op.rest = []) (hscript : script = uapScript ⟨pubkey, m, [], true⟩) :
    matchTail script pubkey m (webOpOf op) = .ok (some ⟨pubkey, m, true⟩) := by
  have hnot : ¬ op.opcode ≤ opPushData4 := by
    rw [hcode]
    decide
  simp only [matchTail, webOpOf_data_none hnot, Option.filter_none, webOpOf_opcode, hcode, webOpOf_next,
    hrest, UapJs.buildMintScript_eq hkey h0 h1, ← hscript]
  simp [opMint, bind, Except.bind, pure, Except.pure]

theorem matchTail_of_transfer {last : ScriptOp}
    (hkey : pubkey.length = 33 ∨ pubkey.length = 65) (h0 : 0 ≤ m) (h1 : m ≤ maxUapMultiplier)
    (hpush : op.opcode ≤ opPushData4) (hsize : op.data.length = uapOriginSize)
    (hlast : getOp? op.rest = some last) (hcode : last.opcode = opMintTransfer) (hrest : last.rest = [])
    (hscript : script = uapScript ⟨pubkey, m, op.data, false⟩) :
    matchTail script pubkey m (webOpOf op) = .ok (some ⟨pubkey, m, false⟩) := by
  have hfilter : (webOpOf op).data.filter (·.length == 32) = some op.data := by
    rw [webOpOf_data hpush, Option.filter_some, hsize]
    rfl
  simp only [matchTail, hfilter, webOpOf_next, readOp?_eq_some hlast, webOpOf_opcode, hcode, hrest,
    UapJs.buildTransferScript_eq hkey h0 h1 hsize, ← hscript]
  simp [opMintTransfer, bind, Except.bind, pure, Except.pure]

theorem parseUapCovenant_of_parse {f : UapOutput} (h : parseUapOutputScript? script = some f) :
    parseUapCovenant script = .ok (some (webCovenantOf f)) := by
  obtain ⟨hwf, hscript⟩ := parseUapOutputScript?_eq_some.mp h
  obtain ⟨op0, op1, hop0, hop1, hpush, hkey, hsize, hmult, hrange, htail⟩ := parseUapOutputScript?_ops.mp h
  have hdata : (webOpOf op0).data = some f.pubkey := by rw [webOpOf_data hpush.1, hkey]
  have hsize' : ¬ (f.pubkey.length ≠ 33 ∧ f.pubkey.length ≠ 65) := by omega
  have hrange' : ¬ (f.multiplier < 0 ∨ f.multiplier > 2147483647) := by
    unfold maxUapMultiplier at hrange
    omega
  simp only [parseUapCovenant, readOp?_eq_some hop0, hdata, if_neg hsize', webOpOf_next,
    readOp?_eq_some hop1, multiplierOf?_webOpOf hmult, if_neg hrange']
  obtain ⟨pubkey, multiplier, origin, isMint⟩ := f
  cases isMint with
  | true =>
    obtain ⟨op2, hop2, hcode, hrest, rfl⟩ := getUapTail?_mint.mp htail
    rw [readOp?_eq_some hop2]
    exact matchTail_of_mint hsize hrange.1 hrange.2 hcode hrest hscript
  | false =>
    obtain ⟨op2, op3, hop2, hop3, ⟨hpush2, hsize2, -⟩, rfl, hcode, hrest⟩ := getUapTail?_transfer.mp htail
    rw [readOp?_eq_some hop2]
    exact matchTail_of_transfer hsize hrange.1 hrange.2 hpush2 hsize2 hop3 hcode hrest hscript

/-- The builders never throw on the fields read so far, and a covenant is only returned for a script that
rebuilds to itself. -/
theorem matchTail_sound (third : WebOp)
    (hkey : pubkey.length = 33 ∨ pubkey.length = 65) (h0 : 0 ≤ m) (h1 : m ≤ maxUapMultiplier) :
    ∃ r, matchTail script pubkey m third = .ok r ∧
      ∀ c, r = some c → ∃ f, parseUapOutputScript? script = some f ∧ c = webCovenantOf f := by
  unfold matchTail
  cases hfilter : third.data.filter (·.length == 32) with
  | some origin =>
    have horigin : origin.length = 32 := by
      simpa using (Option.filter_eq_some_iff.mp hfilter).2
    dsimp only
    cases readOp? third.next with
    | none => exact ⟨none, rfl, by simp⟩
    | some mintOp =>
      dsimp only
      split_ifs
      · exact ⟨none, rfl, by simp⟩
      · rw [UapJs.buildTransferScript_eq hkey h0 h1 horigin]
        refine ⟨_, rfl, ?_⟩
        intro c hc
        split_ifs at hc with hscript
        have hwf : UapOutput.WellFormed ⟨pubkey, m, origin, false⟩ :=
          ⟨hkey, h0, h1, by simp, fun _ => horigin⟩
        exact ⟨_, parseUapOutputScript?_eq_some.mpr ⟨hwf, hscript⟩, (Option.some.inj hc).symm⟩
  | none =>
    dsimp only
    split_ifs
    · exact ⟨none, rfl, by simp⟩
    · exact ⟨none, rfl, by simp⟩
    · rw [UapJs.buildMintScript_eq hkey h0 h1]
      refine ⟨_, rfl, ?_⟩
      intro c hc
      split_ifs at hc with hscript
      have hwf : UapOutput.WellFormed ⟨pubkey, m, [], true⟩ := ⟨hkey, h0, h1, fun _ => rfl, by simp⟩
      exact ⟨_, parseUapOutputScript?_eq_some.mpr ⟨hwf, hscript⟩, (Option.some.inj hc).symm⟩

theorem parseUapCovenant_sound (script : Bytes) :
    ∃ r, parseUapCovenant script = .ok r ∧
      ∀ c, r = some c → ∃ f, parseUapOutputScript? script = some f ∧ c = webCovenantOf f := by
  have hreject : ∃ r, Except.ok none = (Except.ok r : Except String (Option WebCovenant)) ∧
      ∀ c, r = some c → ∃ f, parseUapOutputScript? script = some f ∧ c = webCovenantOf f :=
    ⟨none, rfl, by simp⟩
  unfold parseUapCovenant
  cases readOp? script with
  | none => exact hreject
  | some keyOp =>
    dsimp only
    cases keyOp.data with
    | none => exact hreject
    | some pubkey =>
      dsimp only
      split_ifs with hsize
      · exact hreject
      cases readOp? keyOp.next with
      | none => exact hreject
      | some multOp =>
        dsimp only
        cases multiplierOf? multOp with
        | none => exact hreject
        | some m =>
          dsimp only
          split_ifs with hrange
          · exact hreject
          cases readOp? multOp.next with
          | none => exact hreject
          | some third =>
            have hmax : m ≤ maxUapMultiplier := by
              unfold maxUapMultiplier
              omega
            exact matchTail_sound third (by omega) (by omega) hmax

theorem parseUapCovenant_eq (script : Bytes) :
    parseUapCovenant script = .ok ((parseUapOutputScript? script).map webCovenantOf) := by
  cases h : parseUapOutputScript? script with
  | some f => exact parseUapCovenant_of_parse h
  | none =>
    obtain ⟨r, hr, hsound⟩ := parseUapCovenant_sound script
    cases r with
    | none => exact hr
    | some c =>
      obtain ⟨f, hf, -⟩ := hsound c rfl
      rw [h] at hf
      cases hf

end UapWeb

/-- All covenant parsers are the same function of the script bytes. -/
theorem covenant_parsers_agree (script : Bytes) :
    (∀ scriptHex, hexDecode? scriptHex = some script →
      Indexer.parseUAPScript scriptHex = .ok (parseUapOutputScript? script)) ∧
    Indexer.parseUAPScript (hexEncode script) = .ok (parseUapOutputScript? script) ∧
    UapJs.parseUapScript? script = parseUapOutputScript? script ∧
    UapWeb.parseUapCovenant script =
      .ok ((parseUapOutputScript? script).map fun f => ⟨f.pubkey, f.multiplier, f.isMint⟩) := by
  have hgo : ∀ scriptHex, hexDecode? scriptHex = some script →
      Indexer.parseUAPScript scriptHex = .ok (parseUapOutputScript? script) := by
    intro scriptHex hhex
    rw [Indexer.parseUAPScript, hhex]
    dsimp only
    rw [parsePushes?_eq Indexer.decodesScriptNum]
  refine ⟨hgo, hgo _ (hexDecode?_hexEncode script), ?_, UapWeb.parseUapCovenant_eq script⟩
  exact parsePushes?_eq UapJs.decodesScriptNum script

theorem covenant_parsers_agree_mint :
    Indexer.parseUAPScript (hexEncode (uapScript ⟨2 :: List.replicate 32 0x11, 40, [], true⟩)) =
      .ok (some ⟨2 :: List.replicate 32 0x11, 40, [], true⟩) :=
  ((covenant_parsers_agree (uapScript ⟨2 :: List.replicate 32 0x11, 40, [], true⟩)).1 _ (by decide +kernel)).trans
    (by decide +kernel)

end Whippet.Ports
