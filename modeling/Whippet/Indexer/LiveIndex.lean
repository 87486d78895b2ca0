import Whippet.Indexer.Statements

/-! The index over a database whose calls may fail: a call does the whole of its work or nothing that is
persisted. -/
namespace Whippet.Indexer
open Lib Primitives

inductive MetaKey
  | tipHeight
  | tipHash
  | prunedBelow
  | schemaVersion
  deriving DecidableEq

/-- What is persisted: the tables of the index, and `meta`. -/
abbrev Database := Store × Table MetaKey Text

def currentSchemaVersion : ℤ := 4

/-- `fmt.Sscan` of a decimal number. -/
def scanInt? : Text → Option ℤ
  | '-' :: digits => if digits ≠ [] ∧ digits.all Char.isDigit then some (-(Nat.ofDigitChars 10 digits 0 : ℤ)) else none
  | digits => if digits ≠ [] ∧ digits.all Char.isDigit then some (Nat.ofDigitChars 10 digits 0 : ℤ) else none

/-- `loadMeta`. Without rows the tip is that of an empty index. -/
def loadMeta (rows : Table MetaKey Text) : Meta where
  tipHeight := ((rows.lookup .tipHeight).bind scanInt?).getD (-1)
  tipHash := (rows.lookup .tipHash).getD []
  prunedBelow := ((rows.lookup .prunedBelow).bind scanInt?).getD 0

def putMetaRow (key : MetaKey) (value : Text) : Statements Database String Unit :=
  .exec fun db => (db.1, db.2.insert key value)

def putMeta (md : Meta) : Statements Database String Unit := do
  putMetaRow .tipHeight (decimal md.tipHeight)
  putMetaRow .tipHash md.tipHash
  putMetaRow .prunedBelow (decimal md.prunedBelow)

def truncateTables : Statements Database String Unit := do
  .exec fun db => ({ db.1 with positions := ∅ }, db.2)
  .exec fun db => ({ db.1 with utxos := ∅ }, db.2)
  .exec fun db => ({ db.1 with heights := ∅ }, db.2)
  .exec fun db => ({ db.1 with orders := ∅ }, db.2)
  .exec fun db => (db.1, ∅)
  .exec fun db => ({ db.1 with lineage.lineages := ∅ }, db.2)
  .exec fun db => ({ db.1 with lineage.holders := ∅ }, db.2)
  putMetaRow .schemaVersion (decimal currentSchemaVersion)

def StoreTx.checkOrder (o : Order) (fromMirror : Bool) : StoreTx Position := do
  let pos ← .check (orFail ("unknown position " ++ o.key.text) (← position o.key))
  let withdrawn ← if fromMirror then tombstone o.key else pure none
  .check (failIf (fromMirror = true ∧ withdrawn = some o.scriptSig) ("order for " ++ o.key.text ++ " was withdrawn here"))
  .check (failIf (pos.spent = true) ("position " ++ o.key.text ++ " is already spent"))
  .check (failIf (pos.multiplier ≠ o.multiplier)
    ("multiplier mismatch: position has " ++ toString pos.multiplier ++ ", order claims " ++ toString o.multiplier))
  pure pos

def StoreTx.storeOrder (o : Order) (fromMirror : Bool) : StoreTx Unit := do
  .exec (Store.putOrder · o)
  if fromMirror then pure () else .exec (Store.delTombstone · o.key)

def StoreTx.withdrawOrder (k : Outpoint) (scriptSig : Text) (time : ℤ) : StoreTx Unit := do
  .exec (Store.delOrder · k)
  .exec (Store.putTombstone · k scriptSig time)

/-- The index in memory, over the database as it is persisted. -/
structure LiveIndex where
  db : Database
  storeErr : Option String := none
  tipHeight : ℤ
  tipHash : Text
  reorgWindow : ℤ
  prunedBelow : ℤ
  lastCancelNonce : ℤ := 0

def loadIndex (db : Database) (reorgWindow : ℤ) : LiveIndex where
  db := db
  tipHeight := (loadMeta db.2).tipHeight
  tipHash := (loadMeta db.2).tipHash
  reorgWindow := reorgWindow
  prunedBelow := (loadMeta db.2).prunedBelow

namespace LiveIndex

def index (s : LiveIndex) : Index where
  store := s.db.1
  storeErr := s.storeErr
  tipHeight := s.tipHeight
  tipHash := s.tipHash
  reorgWindow := s.reorgWindow
  prunedBelow := s.prunedBelow
  lastCancelNonce := s.lastCancelNonce

def md (s : LiveIndex) : Meta := ⟨s.tipHeight, s.tipHash, s.prunedBelow⟩

def writeTx (s : LiveIndex) (fn : Meta → StoreTx Meta) : Statements Database String Meta := do
  let md ← (fn s.md).onFst
  putMeta md
  pure md

/-- `write`: what is in memory changes only after the commit. -/
def write (s : LiveIndex) (fn : Meta → StoreTx Meta) (faults : Faults String) : LiveIndex :=
  match s.storeErr with
  | some _ => s
  | none =>
    match transact (s.writeTx fn) faults 0 s.db with
    | .error e => { s with storeErr := some e }
    | .ok (md, db) =>
      { s with db := db, tipHeight := md.tipHeight, tipHash := md.tipHash, prunedBelow := md.prunedBelow }

def applyBlock (crypto : Crypto) (s : LiveIndex) (block : RPCBlock) (faults : Faults String) : LiveIndex :=
  s.write (StoreTx.applyBlock crypto s.reorgWindow block) faults

def undoBlock (s : LiveIndex) (height : ℤ) (faults : Faults String) : LiveIndex :=
  s.write (StoreTx.undoBlock height) faults

def reset (s : LiveIndex) (faults : Faults String) : LiveIndex :=
  match s.storeErr with
  | some _ => s
  | none =>
    match transact truncateTables faults 0 s.db with
    | .error e => { s with storeErr := some e }
    | .ok (_, db) => { s with db := db, tipHeight := -1, tipHash := [], prunedBelow := 0 }

def admitOrder (s : LiveIndex) (o : Order) : Except String Unit := do
  validateScriptSig o.scriptSig
  failIf (o.paymentValue ≤ 0) "payment_value must be positive"
  failIf (hexDecode? o.paymentScript = none) "invalid payment_script hex"
  match s.storeErr with
  | some e => .error e
  | none => .ok ()

/-- `publishOrder`. The nonce is taken in memory before the writes, and stays taken if they fail. -/
def publishOrder (s : LiveIndex) (o : Order) (fromMirror : Bool) (clock : Clock) (faults : Faults String) :
    LiveIndex × Bool :=
  let checked : Except String (Position × ℕ × Store) := do
    s.admitOrder o
    let n ← beginTx faults 0
    StoreTx.checkOrder o fromMirror faults n s.db.1
  match checked with
  | .error _ => (s, false)
  | .ok (pos, n, t) =>
    let nonce := s.index.nextCancelNonce clock
    let s := { s with lastCancelNonce := nonce }
    let stored : Except String Store := do
      let (_, n, t) ← StoreTx.storeOrder (o.complete pos clock.unix nonce) fromMirror faults n t
      commitTx faults n
      .ok t
    match stored with
    | .error _ => (s, false)
    | .ok t => ({ s with db := (t, s.db.2) }, true)

/-- `CancelOrder`. The stored order is read before the transaction. -/
def cancelOrder (crypto : Crypto) (ec : Btcec) (s : LiveIndex) (txid : Text) (vout : UInt32) (cancelSigHex : Text)
    (clock : Clock) (faults : Faults String) : LiveIndex × Bool :=
  let k := positionKey txid vout
  let cancelled : Except String Store := do
    match s.storeErr with
    | some e => .error e
    | none => do
      let (o, n, _) ← StoreTx.order k faults 0 s.db.1
      let o ← orFail "no such order" o
      verifyCancelSignature crypto ec o.pubKey txid vout o.scriptSig o.cancelNonce cancelSigHex
      let (_, t) ← transact (StoreTx.withdrawOrder k o.scriptSig clock.unix) faults n s.db.1
      .ok t
  match cancelled with
  | .error _ => (s, false)
  | .ok t => ({ s with db := (t, s.db.2) }, true)

/-- A call under faults, and whether it succeeded. Block calls say so by the error they latch. -/
def step (crypto : Crypto) (ec : Btcec) (s : LiveIndex) : Event × Faults String → LiveIndex × Bool
  | (.applyBlock block, faults) => (s.applyBlock crypto block faults, (s.applyBlock crypto block faults).storeErr = none)
  | (.undoBlock height, faults) => (s.undoBlock height faults, (s.undoBlock height faults).storeErr = none)
  | (.reset, faults) => (s.reset faults, (s.reset faults).storeErr = none)
  | (.publishOrder o clock, faults) => s.publishOrder o false clock faults
  | (.adoptMirroredOrder o clock, faults) => s.publishOrder o true clock faults
  | (.cancelOrder txid vout cancelSigHex clock, faults) => s.cancelOrder crypto ec txid vout cancelSigHex clock faults

end LiveIndex

theorem scanDigits (m : ℕ) : Nat.toDigits 10 m ≠ [] ∧ (Nat.toDigits 10 m).all Char.isDigit = true ∧
    Nat.ofDigitChars 10 (Nat.toDigits 10 m) 0 = m := by
  refine ⟨Nat.toDigits_ne_nil, ?_, Nat.ofDigitChars_ten_toDigits⟩
  rw [List.all_eq_true]
  intro c hc
  exact Nat.isDigit_of_mem_toDigits (by decide) (by decide) hc

theorem scanInt?_decimal (n : ℤ) : scanInt? (decimal n) = some n := by
  obtain ⟨hne, hdigits, hvalue⟩ := scanDigits n.natAbs
  unfold decimal
  split_ifs with hneg
  · simp only [scanInt?, ne_eq, hne, not_false_eq_true, hdigits, and_self, if_true, hvalue, Option.some.injEq]
    omega
  · unfold scanInt?
    split
    · next digits heq =>
      have hminus : ('-').isDigit = true := List.all_eq_true.mp hdigits '-' (by simp [heq])
      exact absurd hminus (by decide)
    · rw [if_pos ⟨hne, hdigits⟩, hvalue, Option.some.injEq]
      omega

def metaRows (md : Meta) (rows : Table MetaKey Text) : Table MetaKey Text :=
  ((rows.insert .tipHeight (decimal md.tipHeight)).insert .tipHash md.tipHash).insert .prunedBelow (decimal md.prunedBelow)

theorem loadMeta_metaRows (md : Meta) (rows : Table MetaKey Text) : loadMeta (metaRows md rows) = md := by
  simp [loadMeta, metaRows, scanInt?_decimal]

section
variable {faults : Faults String} {n : ℕ} {db : Database}

theorem putMeta_follows (md : Meta) :
    Follows faults (fun _ db => db) (putMeta md faults n db) (.ok (db.1, metaRows md db.2)) :=
  .exec_bind fun _ => .exec_bind fun _ => .exec

theorem truncateTables_follows : Follows faults (fun _ db => db) (truncateTables faults n db)
    (.ok (db.1.truncate, (∅ : Table MetaKey Text).insert .schemaVersion (decimal currentSchemaVersion))) :=
  .exec_bind fun _ => .exec_bind fun _ => .exec_bind fun _ => .exec_bind fun _ => .exec_bind fun _ =>
    .exec_bind fun _ => .exec_bind fun _ => .exec

end

def Store.checkOrder (t : Store) (o : Order) (fromMirror : Bool) : Except String Position := do
  let pos ← orFail ("unknown position " ++ o.key.text) (t.positions.lookup o.key)
  failIf (fromMirror = true ∧ t.tombstone? o.key = some o.scriptSig) ("order for " ++ o.key.text ++ " was withdrawn here")
  failIf (pos.spent = true) ("position " ++ o.key.text ++ " is already spent")
  failIf (pos.multiplier ≠ o.multiplier)
    ("multiplier mismatch: position has " ++ toString pos.multiplier ++ ", order claims " ++ toString o.multiplier)
  .ok pos

theorem StoreTx.checkOrder_follows (o : Order) (fromMirror : Bool) (faults : Faults String) (n : ℕ) (t : Store) :
    Follows faults (fun pos t => (pos, t)) (checkOrder o fromMirror faults n t)
      (t.checkOrder o fromMirror >>= fun pos => .ok (pos, t)) := by
  unfold checkOrder Store.checkOrder
  simp only [bind_assoc, Whippet.Lib.ok_bind]
  refine .query_bind fun n => .check_bind fun pos _ => ?_
  cases fromMirror with
  | false =>
    -- a local order does not read the tombstone
    have hsame : failIf (false = true ∧ t.tombstone? o.key = some o.scriptSig)
          ("order for " ++ o.key.text ++ " was withdrawn here") =
        (failIf (false = true ∧ none = some o.scriptSig) ("order for " ++ o.key.text ++ " was withdrawn here") :
          Except String PUnit) := by
      rw [failIf_neg (by simp), failIf_neg (by simp)]
    rw [hsame]
    refine .pure_bind (.check_bind fun _ _ => .check_bind fun _ _ => .check_bind fun _ _ => ?_)
    exact .pure pos
  | true =>
    refine .query_bind fun n => .check_bind fun _ _ => .check_bind fun _ _ => .check_bind fun _ _ => ?_
    exact .pure pos

theorem StoreTx.storeOrder_follows (o : Order) (fromMirror : Bool) (faults : Faults String) (n : ℕ) (t : Store) :
    Follows faults written (storeOrder o fromMirror faults n t) (.ok (t.accept o fromMirror)) := by
  unfold storeOrder Store.accept
  refine .exec_bind fun n => ?_
  split_ifs
  · exact .pure ()
  · exact .exec

theorem StoreTx.order_follows (k : Outpoint) (faults : Faults String) (n : ℕ) (t : Store) :
    Follows faults (fun o _ => o) (order k faults n t) (.ok (t.orders.lookup k)) :=
  .query

theorem StoreTx.withdrawOrder_follows (k : Outpoint) (scriptSig : Text) (time : ℤ) (faults : Faults String) (n : ℕ)
    (t : Store) : Follows faults written (withdrawOrder k scriptSig time faults n t) (.ok (t.withdraw k scriptSig time)) :=
  .exec_bind fun _ => .exec

namespace LiveIndex
section
variable {crypto : Crypto} {ec : Btcec} {s : LiveIndex} {faults : Faults String} {fn : Meta → StoreTx Meta}
  {F : Store → Meta → Except String (Store × Meta)}

theorem writeTx_follows (h : ∀ n t md, Follows faults StoreTx.returned (fn md faults n t) (F t md)) (n : ℕ) :
    Follows faults (fun md (db : Database) => (db, md)) (s.writeTx fn faults n s.db)
      ((F s.db.1 s.md).map (fun r => (r, s.db.2)) >>= fun r => .ok ((r.1.1, metaRows r.1.2 r.2), r.1.2)) := by
  unfold writeTx
  refine .bind ((h n s.db.1 s.md).onFst s.db.2) ?_
  intro md n db
  refine .ok_bind (putMeta_follows md) ?_
  rintro - n - rfl
  exact .pure md

theorem write_cases (h : ∀ n t md, Follows faults StoreTx.returned (fn md faults n t) (F t md)) :
    (∃ e, (s.write fn faults) = { s with storeErr := some e }) ∨
      s.storeErr = none ∧ ∃ t md, F s.db.1 s.md = .ok (t, md) ∧ s.write fn faults = { s with
        db := (t, metaRows md s.db.2), tipHeight := md.tipHeight, tipHash := md.tipHash,
        prunedBelow := md.prunedBelow } := by
  unfold write
  cases herr : s.storeErr with
  | some e => exact Or.inl ⟨e, congrArg (fun err => { s with storeErr := err }) herr⟩
  | none =>
    cases hrun : transact (s.writeTx fn) faults 0 s.db with
    | error e => exact Or.inl ⟨e, rfl⟩
    | ok r =>
      obtain ⟨md', db'⟩ := r
      obtain ⟨k, m, hp⟩ := transact_eq_ok hrun
      have hfollows := writeTx_follows (s := s) h k
      rw [hp] at hfollows
      obtain ⟨⟨⟨t, md⟩, rows⟩, hF, heq⟩ := bind_eq_ok.mp hfollows.eq_ok
      cases hpure : F s.db.1 s.md with
      | error e => simp [hpure, Except.map] at hF
      | ok q =>
        simp only [hpure, Except.map, Except.ok.injEq, Prod.mk.injEq] at hF heq
        obtain ⟨rfl, rfl⟩ := hF
        obtain ⟨rfl, rfl⟩ := heq
        exact Or.inr ⟨rfl, t, md, rfl, rfl⟩

theorem write_commits (h : ∀ n t md, Follows faults StoreTx.returned (fn md faults n t) (F t md))
    (hnone : ∀ k, faults k = none) (herr : s.storeErr = none) {r : Store × Meta} (hF : F s.db.1 s.md = .ok r) :
    (s.write fn faults).storeErr = none := by
  have hfollows : ∀ n, Follows faults (fun md (db : Database) => (db, md)) (s.writeTx fn faults n s.db)
      (.ok ((r.1, metaRows r.2 s.db.2), r.2)) := by
    intro n
    have hrun := writeTx_follows (s := s) h n
    rwa [hF] at hrun
  obtain ⟨md, db, hrun, -⟩ := transact_of_follows hnone hfollows 0
  unfold write
  rw [herr, hrun]

/-- What a call that fails leaves: the database and the tip as they were, and a latched error latched. -/
structure Failed (s s' : LiveIndex) : Prop where
  db : s'.db = s.db
  md : s'.md = s.md
  reorgWindow : s'.reorgWindow = s.reorgWindow
  latched : s.storeErr ≠ none → s'.storeErr ≠ none


/-- A call that does what it does without faults. -/
structure Performed (crypto : Crypto) (ec : Btcec) (s : LiveIndex) (e : Event) (s' : LiveIndex) : Prop where
  storeErr : s.storeErr = none
  storeErr' : s'.storeErr = none
  index : s'.index = Index.step crypto ec s.index e
  loaded : loadMeta s.db.2 = s.md → loadMeta s'.db.2 = s'.md

def blockCall : Event → Bool
  | .applyBlock _ | .undoBlock _ | .reset => true
  | _ => false

/-- A call does the whole of what it does without faults, or nothing that is persisted. -/
structure Atomic (crypto : Crypto) (ec : Btcec) (s : LiveIndex) (e : Event) (r : LiveIndex × Bool) : Prop where
  performed : r.2 = true → Performed crypto ec s e r.1
  failed : r.2 = false → Failed s r.1
  latches : r.2 = false → blockCall e = true → r.1.storeErr ≠ none

theorem write_atomic {e : Event}
    (h : ∀ n t md, Follows faults StoreTx.returned (fn md faults n t) (F t md))
    (hstep : Index.step crypto ec s.index e = s.index.write F) :
    Atomic crypto ec s e (s.write fn faults, (s.write fn faults).storeErr = none) := by
  rcases write_cases (s := s) h with ⟨err, hw⟩ | ⟨herr, t, md, hF, hw⟩
  · rw [hw]
    exact ⟨by simp, fun _ => ⟨rfl, rfl, rfl, by simp⟩, by simp⟩
  · rw [hw]
    refine ⟨fun _ => ⟨herr, herr, ?_, ?_⟩, by simp [herr], by simp [herr]⟩
    · have hF' : F s.index.store ⟨s.index.tipHeight, s.index.tipHash, s.index.prunedBelow⟩ = .ok (t, md) := hF
      rw [hstep, Index.write]
      simp only [hF']
      simp [index, herr]
    · intro _
      exact loadMeta_metaRows md s.db.2

theorem reset_atomic : Atomic crypto ec s .reset (s.reset faults, (s.reset faults).storeErr = none) := by
  unfold reset
  cases herr : s.storeErr with
  | some e => exact ⟨by simp [herr], fun _ => ⟨rfl, rfl, rfl, id⟩, fun _ _ => by simp [herr]⟩
  | none =>
    cases hrun : transact truncateTables faults 0 s.db with
    | error e => exact ⟨by simp, fun _ => ⟨rfl, rfl, rfl, by simp⟩, by simp⟩
    | ok r =>
      obtain ⟨_, db⟩ := r
      obtain ⟨k, m, hp⟩ := transact_eq_ok hrun
      have hfollows := @truncateTables_follows faults k s.db
      rw [hp] at hfollows
      obtain rfl := Except.ok.inj hfollows.eq_ok
      refine ⟨fun _ => ⟨herr, rfl, ?_, fun _ => rfl⟩, by simp, by simp⟩
      simp [Index.step, Index.reset, index, herr]

theorem index_publishOrder {o : Order} {fromMirror : Bool} {pos : Position} (clock : Clock)
    (hallowed : s.admitOrder o = .ok ()) (hcheck : s.db.1.checkOrder o fromMirror = .ok pos) :
    let nonce := s.index.nextCancelNonce clock
    s.storeErr = none ∧ s.index.publishOrder o fromMirror clock =
      .ok ({ s.index with
        store := s.db.1.accept (o.complete pos clock.unix nonce) fromMirror, lastCancelNonce := nonce },
        o.complete pos clock.unix nonce) := by
  cases herr : s.storeErr with
  | some e => simp [admitOrder, herr] at hallowed
  | none =>
    refine ⟨rfl, ?_⟩
    have herr' : s.index.storeErr = none := herr
    simp only [admitOrder, herr, bind_eq_ok, failIf_eq_ok, and_true, exists_const] at hallowed
    simp only [Store.checkOrder, bind_eq_ok, failIf_eq_ok, orFail_eq_ok, Except.ok.injEq, exists_const] at hcheck
    obtain ⟨⟨⟩, hvalid, hpay, hscript⟩ := hallowed
    obtain ⟨pos, hpos, htomb, hspent, hmult, rfl⟩ := hcheck
    have hpos' : s.index.store.positions.lookup o.key = some pos := hpos
    have htomb' : ¬ (fromMirror = true ∧ s.index.store.tombstone? o.key = some o.scriptSig) := htomb
    simp only [Index.publishOrder, hvalid, failIf_neg hpay, failIf_neg hscript, herr', hpos', orFail,
      failIf_neg htomb', failIf_neg hspent, failIf_neg hmult, Whippet.Lib.ok_bind]
    rfl

theorem publishOrder_atomic (o : Order) (fromMirror : Bool) (clock : Clock) {e : Event}
    (hstep : ∀ idx, Index.step crypto ec idx e = match idx.publishOrder o fromMirror clock with
      | .ok (idx, _) => idx
      | .error _ => idx) (hcall : blockCall e = false) :
    Atomic crypto ec s e (s.publishOrder o fromMirror clock faults) := by
  have hnone : ∀ b : LiveIndex × Bool, b.2 = false → blockCall e = true → b.1.storeErr ≠ none := by
    intro b _ hblock
    rw [hcall] at hblock
    cases hblock
  unfold publishOrder
  dsimp only
  split
  · exact ⟨by simp, fun _ => ⟨rfl, rfl, rfl, id⟩, hnone _⟩
  · next pos n t hchecked =>
    simp only [bind_eq_ok] at hchecked
    obtain ⟨⟨⟩, hallowed, k, -, hcheck⟩ := hchecked
    have hfollows := StoreTx.checkOrder_follows o fromMirror faults k s.db.1
    rw [hcheck] at hfollows
    obtain ⟨pos', hpure, heq⟩ := bind_eq_ok.mp hfollows.eq_ok
    obtain ⟨rfl, rfl⟩ : pos' = pos ∧ s.db.1 = t := by simpa using heq
    obtain ⟨herr, hpublish⟩ := index_publishOrder clock hallowed hpure
    split
    · exact ⟨by simp, fun _ => ⟨rfl, rfl, rfl, id⟩, hnone _⟩
    · next t' hstored =>
      simp only [bind_eq_ok, Except.ok.injEq] at hstored
      obtain ⟨⟨_, m, t''⟩, hstore, -, -, rfl⟩ := hstored
      have hfollows' := StoreTx.storeOrder_follows (o.complete pos' clock.unix (s.index.nextCancelNonce clock)) fromMirror
        faults n s.db.1
      rw [hstore] at hfollows'
      obtain rfl := Except.ok.inj hfollows'.eq_ok
      refine ⟨fun _ => ⟨herr, herr, ?_, id⟩, by simp, hnone _⟩
      rw [hstep, hpublish]
      rfl

theorem cancelOrder_atomic (txid : Text) (vout : UInt32) (sig : Text) (clock : Clock) :
    Atomic crypto ec s (.cancelOrder txid vout sig clock) (s.cancelOrder crypto ec txid vout sig clock faults) := by
  unfold cancelOrder
  dsimp only
  split
  · exact ⟨by simp, fun _ => ⟨rfl, rfl, rfl, id⟩, by simp [blockCall]⟩
  · next t hcancelled =>
    cases herr : s.storeErr with
    | some e => simp [herr] at hcancelled
    | none =>
      simp only [herr, bind_eq_ok, orFail_eq_ok, Except.ok.injEq] at hcancelled
      obtain ⟨⟨o?, n, t₀⟩, hread, o, ho, ⟨⟩, hsig, ⟨_, t'⟩, hrun, rfl⟩ := hcancelled
      obtain ⟨k, m, hp⟩ := transact_eq_ok hrun
      have hlookup : s.index.store.orders.lookup (positionKey txid vout) = some o := by
        have hfollows := StoreTx.order_follows (positionKey txid vout) faults 0 s.db.1
        rw [hread] at hfollows
        rw [← ho]
        exact Except.ok.inj hfollows.eq_ok
      have hwrite := StoreTx.withdrawOrder_follows (positionKey txid vout) o.scriptSig clock.unix faults k s.db.1
      rw [hp] at hwrite
      obtain rfl := Except.ok.inj hwrite.eq_ok
      refine ⟨fun _ => ⟨herr, rfl, ?_, id⟩, by simp, by simp [blockCall]⟩
      have herr' : s.index.storeErr = none := herr
      simp only [Index.step, Index.cancelOrder, herr', hlookup, orFail, hsig, Whippet.Lib.ok_bind]
      rfl

theorem step_atomic (s : LiveIndex) (call : Event × Faults String) :
    Atomic crypto ec s call.1 (s.step crypto ec call) := by
  obtain ⟨e, faults⟩ := call
  cases e with
  | applyBlock block =>
    exact write_atomic (F := Store.applyBlock crypto s.reorgWindow block) (fun n t md => StoreTx.applyBlock_follows _ _ _) rfl
  | undoBlock height =>
    exact write_atomic (F := fun t md => .ok (t.undoBlock height md)) (fun n t md => StoreTx.undoBlock_follows _) rfl
  | reset => exact reset_atomic
  | publishOrder o clock => exact publishOrder_atomic o false clock (fun _ => rfl) rfl
  | adoptMirroredOrder o clock => exact publishOrder_atomic o true clock (fun _ => rfl) rfl
  | cancelOrder txid vout sig clock => exact cancelOrder_atomic txid vout sig clock

end

end LiveIndex

end Whippet.Indexer
