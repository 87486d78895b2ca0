import Whippet.Script.UapScript

/-! Script elements as the Go indexer and the JavaScript wallet library decode them. The two languages
share one reading loop, one pair of minimality tests and one covenant match over the decoded elements. -/
namespace Whippet.Ports
open Lib Script

/-- `scriptPush`: pushed data, or a bare opcode. -/
structure ScriptPush where
  isPush : Bool
  opcode : UInt8
  data : Bytes
  deriving DecidableEq, Repr

def takePush? (opcode : UInt8) (n : ℕ) (script : Bytes) : Option (ScriptPush × Bytes) :=
  if n > script.length then none else some (⟨true, opcode, script.take n⟩, script.drop n)

def readPush? : Bytes → Option (ScriptPush × Bytes)
  | [] => none
  | b :: script =>
    if 1 ≤ b ∧ b ≤ 0x4b then takePush? b b.toNat script
    else if b = 0x4c then do
      let (n, script) ← readLe? 1 script
      takePush? b n script
    else if b = 0x4d then do
      let (n, script) ← readLe? 2 script
      takePush? b n script
    else if b = 0x4e then do
      let (n, script) ← readLe? 4 script
      takePush? b n script
    else if b = 0x00 then some (⟨true, b, []⟩, script)
    else some (⟨false, b, []⟩, script)

def readPushesLoop? : ℕ → Bytes → Option (List ScriptPush)
  | _, [] => some []
  | 0, _ :: _ => none
  | fuel + 1, b :: script => do
    let (p, rest) ← readPush? (b :: script)
    let out ← readPushesLoop? fuel rest
    some (p :: out)

/-- `readPushes`; `none` is a truncated push. -/
def readPushes? (script : Bytes) : Option (List ScriptPush) := readPushesLoop? script.length script

def isMinimalPush (p : ScriptPush) : Bool :=
  if p.data.length = 0 then p.opcode == 0x00
  else if p.data.length = 1 ∧ 1 ≤ p.data.headD 0 ∧ p.data.headD 0 ≤ 16 then p.opcode == 0x50 + p.data.headD 0
  else if p.data.length = 1 ∧ p.data.headD 0 = 0x81 then p.opcode == 0x4f
  else if p.data.length ≤ 75 then p.opcode.toNat == p.data.length
  else if p.data.length ≤ 255 then p.opcode == 0x4c
  else if p.data.length ≤ 65535 then p.opcode == 0x4d
  else true

def isMinimalScriptNum (data : Bytes) : Bool :=
  match data.reverse with
  | [] => true
  | back :: below =>
    if back &&& 0x7f == 0 then
      match below with
      | [] => false
      | next :: _ => next &&& 0x80 != 0
    else true

def multiplierOf? (scriptNumToInt64 : Bytes → Option ℤ) (mult : ScriptPush) : Option ℤ :=
  if !mult.isPush ∧ 0x51 ≤ mult.opcode ∧ mult.opcode ≤ 0x60 then some (mult.opcode - 0x50).toNat
  else if mult.isPush ∧ isMinimalPush mult ∧ isMinimalScriptNum mult.data then scriptNumToInt64 mult.data
  else none

/-- The match over the decoded elements, after the last byte has said mint or transfer. -/
def matchPushes? (scriptNumToInt64 : Bytes → Option ℤ) (isMint : Bool) (pushes : List ScriptPush) :
    Option UapOutput :=
  match pushes with
  | pk :: mult :: third :: more =>
    if ¬ (pk.isPush ∧ isMinimalPush pk ∧ (pk.data.length = 33 ∨ pk.data.length = 65)) then none
    else do
      let multiplier ← multiplierOf? scriptNumToInt64 mult
      if multiplier < 0 ∨ multiplier > 2147483647 then none
      else if isMint then
        if third.isPush ∨ third.opcode ≠ 0xb5 then none else some ⟨pk.data, multiplier, [], true⟩
      else if ¬ (third.isPush ∧ isMinimalPush third ∧ third.data.length = 32) then none
      else do
        let last ← more.head?
        if last.isPush ∨ last.opcode ≠ 0xba then none
        else some ⟨pk.data, multiplier, third.data, false⟩
  | _ => none

/-- The covenant parser of both languages over script bytes. -/
def parsePushes? (scriptNumToInt64 : Bytes → Option ℤ) (raw : Bytes) : Option UapOutput :=
  if raw.length < 2 then none
  else
    let last := raw.getLastD 0
    if last ≠ 0xb5 ∧ last ≠ 0xba then none
    else do
      let isMint := last == 0xb5
      let pushes ← readPushes? raw
      if pushes.length ≠ (if isMint then 3 else 4) then none
      else matchPushes? scriptNumToInt64 isMint pushes

theorem isMinimalPush_eq (p : ScriptPush) : isMinimalPush p = checkMinimalPush p.data p.opcode := by
  have hop : ∀ b : UInt8, op1 + (b - 1) = 0x50 + b :=
    forall_uint8 (P := fun b => op1 + (b - 1) = 0x50 + b) (by decide +kernel)
  simp only [isMinimalPush, checkMinimalPush, hop]
  rfl

theorem isMinimalScriptNum_eq (data : Bytes) : isMinimalScriptNum data = isMinimalNum data := by
  unfold isMinimalScriptNum isMinimalNum signBit
  rcases data.reverse with _ | ⟨back, _ | ⟨next, below⟩⟩
  · rfl
  · cases h : back &&& 0x7f == 0 <;> simp [bne, h]
  · cases h : back &&& 0x7f == 0 <;> simp [bne, h]

def pushOf (op : ScriptOp) : ScriptPush := ⟨decide (op.opcode ≤ opPushData4), op.opcode, op.data⟩

theorem getOp?_push {b : UInt8} (script : Bytes) (h : b ≤ opPushData4) :
    (getOp? (b :: script)).map (fun op => (pushOf op, op.rest)) =
      (readPushSize? b script).bind fun r => takePush? b r.1 r.2 := by
  rw [getOp?, getOp, if_pos h]
  cases readPushSize? b script with
  | none => rfl
  | some r =>
    simp only [Option.bind_some, takePush?]
    split_ifs with hlen
    · rfl
    · simp [Except.toOption, pushOf, h]

theorem readPush?_eq (script : Bytes) :
    readPush? script = (getOp? script).map fun op => (pushOf op, op.rest) := by
  cases script with
  | nil => rfl
  | cons b script =>
    by_cases hle : b ≤ opPushData4
    · rw [getOp?_push script hle]
      rcases push_cases hle with hlt | rfl | rfl | rfl
      · have hdirect : readPushSize? b script = some (b.toNat, script) := by simp [readPushSize?, hlt]
        rw [hdirect, Option.bind_some]
        by_cases h0 : b = 0x00
        · subst h0
          simp [readPush?, takePush?]
        · have hrange : 1 ≤ b ∧ b ≤ 0x4b := by
            rw [UInt8.lt_iff_toNat_lt, toNat_opPushData1] at hlt
            rw [← UInt8.toNat_inj] at h0
            rw [UInt8.le_iff_toNat_le, UInt8.le_iff_toNat_le]
            change _ ≠ 0 at h0
            change 1 ≤ _ ∧ _ ≤ 0x4b
            omega
          rw [readPush?, if_pos hrange]
      all_goals rfl
    · rw [getOp?, getOp_of_gt script hle]
      have h1 : ¬ (1 ≤ b ∧ b ≤ 0x4b) := by
        intro h
        apply hle
        exact UInt8.le_iff_toNat_le.mpr ((UInt8.le_iff_toNat_le.mp h.2).trans (by decide))
      have hne : ∀ c : UInt8, c ≤ opPushData4 → b ≠ c := by
        intro c hc hbc
        exact hle (hbc ▸ hc)
      simp [readPush?, h1, hne 0x4c (by decide), hne 0x4d (by decide), hne 0x4e (by decide),
        hne 0x00 (by decide), Except.toOption, pushOf, hle]

variable {script : Bytes}

theorem readPushesLoop?_fuel {fuel : ℕ} (h : script.length ≤ fuel) :
    readPushesLoop? fuel script = readPushes? script := by
  induction fuel using Nat.strong_induction_on generalizing script with
  | _ fuel ih =>
    cases script with
    | nil => cases fuel <;> rfl
    | cons b script =>
      cases fuel with
      | zero => simp at h
      | succ fuel =>
        simp only [readPushes?, List.length_cons, readPushesLoop?]
        cases hread : readPush? (b :: script) with
        | none => rfl
        | some r =>
          obtain ⟨p, rest⟩ := r
          rw [readPush?_eq, Option.map_eq_some_iff] at hread
          obtain ⟨op, hop, hr⟩ := hread
          have hlt := getOp_rest_lt (getOp?_eq_some.mp hop)
          obtain ⟨-, rfl⟩ : pushOf op = p ∧ op.rest = rest := by simpa using hr
          simp only [List.length_cons] at h hlt
          simp only [Option.bind_eq_bind, Option.bind_some]
          rw [ih fuel (by omega) (by omega), ih script.length (by omega) (by omega)]

theorem readPushes?_nil : readPushes? [] = some [] := rfl

theorem readPushes?_ne_nil (h : script ≠ []) :
    readPushes? script = (getOp? script).bind fun op => (readPushes? op.rest).map (pushOf op :: ·) := by
  cases script with
  | nil => exact absurd rfl h
  | cons b script =>
    rw [readPushes?, List.length_cons, readPushesLoop?, readPush?_eq]
    cases hop : getOp? (b :: script) with
    | none => rfl
    | some op =>
      have hlt := getOp_rest_lt (getOp?_eq_some.mp hop)
      simp only [List.length_cons] at hlt
      simp only [Option.map_some, Option.bind_eq_bind, Option.bind_some]
      rw [readPushesLoop?_fuel (by omega)]
      cases readPushes? op.rest <;> rfl

theorem readPushes?_eq_cons {p : ScriptPush} {ps : List ScriptPush} :
    readPushes? script = some (p :: ps) ↔
      ∃ op, getOp? script = some op ∧ pushOf op = p ∧ readPushes? op.rest = some ps := by
  cases script with
  | nil =>
    constructor
    · intro h
      simp [readPushes?_nil] at h
    · rintro ⟨op, hop, -⟩
      simp [getOp?, getOp, Except.toOption] at hop
  | cons b script =>
    rw [readPushes?_ne_nil (by simp), Option.bind_eq_some_iff]
    simp only [Option.map_eq_some_iff, List.cons.injEq]
    constructor
    · rintro ⟨op, hop, ps', hps, rfl, rfl⟩
      exact ⟨op, hop, rfl, hps⟩
    · rintro ⟨op, hop, rfl, hps⟩
      exact ⟨op, hop, ps, hps, rfl, rfl⟩

theorem readPushes?_eq_nil : readPushes? script = some [] ↔ script = [] := by
  constructor
  · intro h
    by_contra hne
    rw [readPushes?_ne_nil hne, Option.bind_eq_some_iff] at h
    obtain ⟨op, -, hmap⟩ := h
    simp at hmap
  · rintro rfl
    rfl

/-- What the node's parser needs of a port's number decoder: it reads minimal bytes as the node does,
as far as the value is a multiplier. -/
def DecodesScriptNum (scriptNumToInt64 : Bytes → Option ℤ) : Prop :=
  ∀ (data : Bytes) (m : ℤ), isMinimalNum data = true → 0 ≤ m → m ≤ maxUapMultiplier →
    (scriptNumToInt64 data = some m ↔ setVch data = m)

theorem multiplierOf?_pushOf {scriptNumToInt64 : Bytes → Option ℤ} (hnum : DecodesScriptNum scriptNumToInt64)
    (op : ScriptOp) {m : ℤ} (h0 : 0 ≤ m) (h1 : m ≤ maxUapMultiplier) :
    multiplierOf? scriptNumToInt64 (pushOf op) = some m ↔ uapMultiplier? op = some m := by
  unfold multiplierOf? uapMultiplier?
  rw [isMinimalPush_eq, isMinimalScriptNum_eq]
  by_cases hle : op.opcode ≤ opPushData4
  · have hnot := not_op1_le_of_le hle
    have hnot' : ¬ (0x51 : UInt8) ≤ op.opcode := hnot
    simp only [pushOf, hle, hnot, hnot', decide_true, Bool.not_true, false_and, and_false, if_false, true_and]
    by_cases hmin : checkMinimalPush op.data op.opcode = true
    · by_cases hminNum : isMinimalNum op.data = true
      · rw [if_pos ⟨hmin, hminNum⟩, if_pos hmin, hnum op.data m hminNum h0 h1, scriptNum?_eq_some]
        constructor
        · intro hval
          exact ⟨setVch_length_le hminNum hval h0 h1, fun _ => hminNum, hval⟩
        · intro h
          exact h.2.2
      · rw [if_neg (fun h => hminNum h.2), if_pos hmin, scriptNum?_eq_some]
        simp [hminNum]
    · rw [if_neg (fun h => hmin h.1), if_neg hmin]
  · have hsub (hge : op1 ≤ op.opcode) : ((op.opcode - 0x50).toNat : ℤ) = op.opcode.toNat - (op1.toNat - 1) := by
      have hge' : 0x51 ≤ op.opcode.toNat := UInt8.le_iff_toNat_le.mp hge
      rw [UInt8.toNat_sub_of_le]
      · change ((op.opcode.toNat - 0x50 : ℕ) : ℤ) = op.opcode.toNat - ((0x51 : ℕ) - 1)
        omega
      · exact UInt8.le_iff_toNat_le.mpr (Nat.le_trans (by decide) hge')
    by_cases hsmall : op1 ≤ op.opcode ∧ op.opcode ≤ op16
    · have hsmall' : (0x51 : UInt8) ≤ op.opcode ∧ op.opcode ≤ (0x60 : UInt8) := hsmall
      simp [pushOf, hle, hsmall, hsmall', hsub hsmall.1]
    · have hsmall' : ¬ ((0x51 : UInt8) ≤ op.opcode ∧ op.opcode ≤ (0x60 : UInt8)) := hsmall
      simp only [pushOf, hle, hsmall, hsmall', decide_false, Bool.not_false, Bool.false_eq_true, and_false,
        false_and, if_false]

theorem getLastD_uapScript (f : UapOutput) :
    (uapScript f).getLastD 0 = if f.isMint then opMint else opMintTransfer := by
  cases hm : f.isMint <;> simp [uapScript, hm, List.getLastD_eq_getLast?, List.getLast?_append]

theorem parseUapOutputScript?_ops {f : UapOutput} :
    parseUapOutputScript? script = some f ↔
      ∃ pk mult, getOp? script = some pk ∧ getOp? pk.rest = some mult ∧
        (pk.opcode ≤ opPushData4 ∧ checkMinimalPush pk.data pk.opcode = true) ∧ pk.data = f.pubkey ∧
        (f.pubkey.length = 33 ∨ f.pubkey.length = 65) ∧
        uapMultiplier? mult = some f.multiplier ∧ (0 ≤ f.multiplier ∧ f.multiplier ≤ maxUapMultiplier) ∧
        getUapTail? mult.rest = some (f.origin, f.isMint) := by
  obtain ⟨pubkey, multiplier, origin, isMint⟩ := f
  simp only [parseUapOutputScript?, getUapDataPush?, getUapMultiplier?, Option.bind_eq_bind,
    Option.bind_eq_some_iff, Prod.exists, Option.ite_none_right_eq_some, Option.some.injEq,
    UapOutput.mk.injEq, Prod.mk.injEq]
  constructor
  · rintro ⟨_, _, ⟨pk, hpk, hpush, rfl, rfl⟩, hsize, _, _, ⟨mult, hmult, _, hval, hrange, rfl, rfl⟩,
      _, _, htail, rfl, rfl, rfl, rfl⟩
    exact ⟨pk, mult, hpk, hmult, hpush, rfl, hsize, hval, hrange, htail⟩
  · rintro ⟨pk, mult, hpk, hmult, hpush, rfl, hsize, hval, hrange, htail⟩
    exact ⟨_, _, ⟨pk, hpk, hpush, rfl, rfl⟩, hsize, _, _, ⟨mult, hmult, _, hval, hrange, rfl, rfl⟩,
      _, _, htail, rfl, rfl, rfl, rfl⟩

theorem getUapTail?_mint {pc origin : Bytes} :
    getUapTail? pc = some (origin, true) ↔
      ∃ op, getOp? pc = some op ∧ op.opcode = opMint ∧ op.rest = [] ∧ origin = [] := by
  simp only [getUapTail?, Option.bind_eq_bind, Option.bind_eq_some_iff]
  constructor
  · rintro ⟨op, hop, h⟩
    split_ifs at h with hmint hrest hpush
    · exact ⟨op, hop, hmint, hrest, by simpa using h.symm⟩
    · simp [Option.bind_eq_some_iff] at h
  · rintro ⟨op, hop, hmint, hrest, rfl⟩
    exact ⟨op, hop, by simp [hmint, hrest]⟩

theorem getUapTail?_transfer {pc origin : Bytes} :
    getUapTail? pc = some (origin, false) ↔
      ∃ op last, getOp? pc = some op ∧ getOp? op.rest = some last ∧
        (op.opcode ≤ opPushData4 ∧ op.data.length = uapOriginSize ∧
          checkMinimalPush op.data op.opcode = true) ∧ op.data = origin ∧
        last.opcode = opMintTransfer ∧ last.rest = [] := by
  simp only [getUapTail?, Option.bind_eq_bind, Option.bind_eq_some_iff]
  constructor
  · rintro ⟨op, hop, h⟩
    split_ifs at h with hmint hrest hpush
    · simp at h
    · obtain ⟨last, hlast, ⟨hcode, hrest⟩, hdata⟩ : ∃ last, getOp? op.rest = some last ∧
          (last.opcode = opMintTransfer ∧ last.rest = []) ∧ op.data = origin := by
        simpa [Option.bind_eq_some_iff] using h
      exact ⟨op, last, hop, hlast, hpush, hdata, hcode, hrest⟩
  · rintro ⟨op, last, hop, hlast, hpush, rfl, hcode, hrest⟩
    have hne : op.opcode ≠ opMint := by
      intro heq
      exact absurd (heq ▸ hpush.1) (by decide)
    exact ⟨op, hop, by simp [hne, hpush, hlast, hcode, hrest]⟩

section
variable {scriptNumToInt64 : Bytes → Option ℤ}

variable {f : UapOutput}

theorem matchPushes?_mint {pk mult third : ScriptPush} :
    matchPushes? scriptNumToInt64 true [pk, mult, third] = some f ↔
      (pk.isPush = true ∧ isMinimalPush pk = true ∧ (pk.data.length = 33 ∨ pk.data.length = 65)) ∧
      multiplierOf? scriptNumToInt64 mult = some f.multiplier ∧
      (0 ≤ f.multiplier ∧ f.multiplier ≤ maxUapMultiplier) ∧
      third.isPush = false ∧ third.opcode = opMint ∧ pk.data = f.pubkey ∧ f.origin = [] ∧ f.isMint = true := by
  obtain ⟨pubkey, multiplier, origin, isMint⟩ := f
  have hmax : maxUapMultiplier = 2147483647 := rfl
  simp only [matchPushes?, Option.ite_none_left_eq_some, Option.bind_eq_bind, Option.bind_eq_some_iff,
    not_not, not_or, not_lt, if_true, Option.some.injEq, UapOutput.mk.injEq, hmax, gt_iff_lt, opMint, ne_eq,
    Bool.not_eq_true]
  constructor
  · rintro ⟨hpk, m, hm, hr, ⟨h1, h2⟩, rfl, rfl, rfl, rfl⟩
    exact ⟨hpk, hm, hr, h1, h2, rfl, rfl, rfl⟩
  · rintro ⟨hpk, hm, hr, h1, h2, rfl, rfl, rfl⟩
    exact ⟨hpk, _, hm, hr, ⟨h1, h2⟩, rfl, rfl, rfl, rfl⟩

theorem matchPushes?_transfer {pk mult third last : ScriptPush} :
    matchPushes? scriptNumToInt64 false [pk, mult, third, last] = some f ↔
      (pk.isPush = true ∧ isMinimalPush pk = true ∧ (pk.data.length = 33 ∨ pk.data.length = 65)) ∧
      multiplierOf? scriptNumToInt64 mult = some f.multiplier ∧
      (0 ≤ f.multiplier ∧ f.multiplier ≤ maxUapMultiplier) ∧
      (third.isPush = true ∧ isMinimalPush third = true ∧ third.data.length = uapOriginSize) ∧
      last.isPush = false ∧ last.opcode = opMintTransfer ∧ pk.data = f.pubkey ∧ third.data = f.origin ∧
      f.isMint = false := by
  obtain ⟨pubkey, multiplier, origin, isMint⟩ := f
  have hmax : maxUapMultiplier = 2147483647 := rfl
  simp only [matchPushes?, Option.ite_none_left_eq_some, Option.bind_eq_bind, Option.bind_eq_some_iff,
    not_not, not_or, not_lt, Bool.false_eq_true, if_false, Option.some.injEq, UapOutput.mk.injEq, hmax,
    gt_iff_lt, opMintTransfer, ne_eq, Bool.not_eq_true, List.head?_cons, Option.bind_some, uapOriginSize]
  constructor
  · rintro ⟨hpk, m, hm, hr, h3, ⟨h1, h2⟩, rfl, rfl, rfl, rfl⟩
    exact ⟨hpk, hm, hr, h3, h1, h2, rfl, rfl, rfl⟩
  · rintro ⟨hpk, hm, hr, h3, h1, h2, rfl, rfl, rfl⟩
    exact ⟨hpk, _, hm, hr, h3, ⟨h1, h2⟩, rfl, rfl, rfl, rfl⟩

theorem pushOf_isPush (op : ScriptOp) : (pushOf op).isPush = true ↔ op.opcode ≤ opPushData4 := by
  simp [pushOf]

theorem parse_of_matchPushes? (hnum : DecodesScriptNum scriptNumToInt64) {raw : Bytes} {isMint : Bool}
    {pushes : List ScriptPush} (hread : readPushes? raw = some pushes)
    (hlen : pushes.length = if isMint then 3 else 4)
    (h : matchPushes? scriptNumToInt64 isMint pushes = some f) : parseUapOutputScript? raw = some f := by
  rw [parseUapOutputScript?_ops]
  cases isMint with
  | true =>
    obtain ⟨pk, mult, third, rfl⟩ := List.length_eq_three.mp hlen
    simp only [readPushes?_eq_cons, readPushes?_eq_nil] at hread
    obtain ⟨op0, hop0, rfl, op1, hop1, rfl, op2, hop2, rfl, hrest⟩ := hread
    obtain ⟨⟨hpush, hmin, hsize⟩, hmult, hrange, -, hcode, hkey, horigin, hmint⟩ := matchPushes?_mint.mp h
    rw [isMinimalPush_eq] at hmin
    rw [multiplierOf?_pushOf hnum op1 hrange.1 hrange.2] at hmult
    refine ⟨op0, op1, hop0, hop1, ⟨(pushOf_isPush op0).mp hpush, hmin⟩, hkey, hkey ▸ hsize, hmult, hrange, ?_⟩
    rw [hmint, getUapTail?_mint]
    exact ⟨op2, hop2, hcode, hrest, horigin⟩
  | false =>
    obtain ⟨pk, mult, third, last, rfl⟩ : ∃ pk mult third last, pushes = [pk, mult, third, last] := by
      match pushes, hlen with
      | [pk, mult, third, last], _ => exact ⟨pk, mult, third, last, rfl⟩
    simp only [readPushes?_eq_cons, readPushes?_eq_nil] at hread
    obtain ⟨op0, hop0, rfl, op1, hop1, rfl, op2, hop2, rfl, op3, hop3, rfl, hrest⟩ := hread
    obtain ⟨⟨hpush, hmin, hsize⟩, hmult, hrange, ⟨hpush2, hmin2, hsize2⟩, -, hcode, hkey, horigin, hmint⟩ :=
      matchPushes?_transfer.mp h
    rw [isMinimalPush_eq] at hmin hmin2
    rw [multiplierOf?_pushOf hnum op1 hrange.1 hrange.2] at hmult
    refine ⟨op0, op1, hop0, hop1, ⟨(pushOf_isPush op0).mp hpush, hmin⟩, hkey, hkey ▸ hsize, hmult, hrange, ?_⟩
    rw [hmint, getUapTail?_transfer]
    exact ⟨op2, op3, hop2, hop3, ⟨(pushOf_isPush op2).mp hpush2, hsize2, hmin2⟩, horigin, hcode, hrest⟩

theorem matchPushes?_of_parse (hnum : DecodesScriptNum scriptNumToInt64) {raw : Bytes}
    (h : parseUapOutputScript? raw = some f) :
    ∃ pushes, readPushes? raw = some pushes ∧ (pushes.length = if f.isMint then 3 else 4) ∧
      matchPushes? scriptNumToInt64 f.isMint pushes = some f := by
  obtain ⟨op0, op1, hop0, hop1, ⟨hpush, hmin⟩, hkey, hsize, hmult, hrange, htail⟩ :=
    parseUapOutputScript?_ops.mp h
  rw [← multiplierOf?_pushOf hnum op1 hrange.1 hrange.2] at hmult
  rw [← hkey] at hsize
  have hkeyPush : (pushOf op0).isPush = true ∧ isMinimalPush (pushOf op0) = true ∧
      ((pushOf op0).data.length = 33 ∨ (pushOf op0).data.length = 65) :=
    ⟨(pushOf_isPush op0).mpr hpush, by rw [isMinimalPush_eq]; exact hmin, hsize⟩
  cases hm : f.isMint with
  | true =>
    rw [hm, getUapTail?_mint] at htail
    obtain ⟨op2, hop2, hcode, hrest, horigin⟩ := htail
    refine ⟨[pushOf op0, pushOf op1, pushOf op2], ?_, rfl, ?_⟩
    · simp only [readPushes?_eq_cons, readPushes?_eq_nil]
      exact ⟨op0, hop0, rfl, op1, hop1, rfl, op2, hop2, rfl, hrest⟩
    · have hnot : (pushOf op2).isPush = false := by simp [pushOf, hcode, opMint, opPushData4]
      exact matchPushes?_mint.mpr ⟨hkeyPush, hmult, hrange, hnot, hcode, hkey, horigin, hm⟩
  | false =>
    rw [hm, getUapTail?_transfer] at htail
    obtain ⟨op2, op3, hop2, hop3, ⟨hpush2, hsize2, hmin2⟩, horigin, hcode, hrest⟩ := htail
    refine ⟨[pushOf op0, pushOf op1, pushOf op2, pushOf op3], ?_, rfl, ?_⟩
    · simp only [readPushes?_eq_cons, readPushes?_eq_nil]
      exact ⟨op0, hop0, rfl, op1, hop1, rfl, op2, hop2, rfl, op3, hop3, rfl, hrest⟩
    · have hnot : (pushOf op3).isPush = false := by simp [pushOf, hcode, opMintTransfer, opPushData4]
      have horiginPush : (pushOf op2).isPush = true ∧ isMinimalPush (pushOf op2) = true ∧
          (pushOf op2).data.length = uapOriginSize :=
        ⟨(pushOf_isPush op2).mpr hpush2, by rw [isMinimalPush_eq]; exact hmin2, hsize2⟩
      exact matchPushes?_transfer.mpr
        ⟨hkeyPush, hmult, hrange, horiginPush, hnot, hcode, hkey, horigin, hm⟩

/-- Over any number decoder that agrees with the node's, the ports' parser is the node's parser. -/
theorem parsePushes?_eq (hnum : DecodesScriptNum scriptNumToInt64) (raw : Bytes) :
    parsePushes? scriptNumToInt64 raw = parseUapOutputScript? raw := by
  apply Option.ext
  intro f
  constructor
  · intro h
    unfold parsePushes? at h
    simp only [Option.ite_none_left_eq_some, Option.bind_eq_bind, Option.bind_eq_some_iff, not_not] at h
    obtain ⟨-, -, pushes, hread, hlen, hmatch⟩ := h
    exact parse_of_matchPushes? hnum hread hlen hmatch
  · intro h
    obtain ⟨pushes, hread, hlen, hmatch⟩ := matchPushes?_of_parse hnum h
    obtain ⟨hwf, hraw⟩ := parseUapOutputScript?_eq_some.mp h
    have hlast := getLastD_uapScript f
    rw [← hraw] at hlast
    have htwo : ¬ raw.length < 2 := by
      have hsize := hwf.pubkey_size
      rw [hraw, uapScript, pushData]
      simp only [List.length_append]
      omega
    have hmint : (raw.getLastD 0 == 0xb5) = f.isMint := by
      rw [hlast]
      cases f.isMint <;> rfl
    have hcode : ¬ (raw.getLastD 0 ≠ 0xb5 ∧ raw.getLastD 0 ≠ 0xba) := by
      rw [hlast]
      cases f.isMint <;> decide
    simp only [parsePushes?, if_neg htwo, if_neg hcode, hmint, hread, Option.bind_eq_bind, Option.bind_some]
    rw [if_neg (not_not.mpr hlen), hmatch]

end

end Whippet.Ports
