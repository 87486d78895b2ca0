import Whippet.Indexer.Blocks
import Whippet.Lib.Run

/-! The order relay: publishing, mirroring, cancelling and listing signed sell orders. -/
namespace Whippet.Indexer
open Lib Primitives

def sighashOrderType : UInt8 := 0x83

/-- `validateScriptSig`, a check of the shape only: one push of something like a DER signature. -/
def validateScriptSig (scriptSigHex : Text) : Except String Unit :=
  match hexDecode? scriptSigHex with
  | none => .error "invalid script_sig hex"
  | some raw => do
    failIf (raw.length < 9) "script_sig too short to be a signature push"
    let pushLen := (raw.headD 0).toNat
    failIf (pushLen < 1 ∨ pushLen > 0x4b ∨ raw.length ≠ 1 + pushLen) "script_sig must be a single minimal data push"
    let hashType := raw.getLastD 0
    failIf (hashType ≠ sighashOrderType)
      ("expected SIGHASH_SINGLE|ANYONECANPAY (0x83), got 0x" ++ String.ofList (hexEncode [hashType]))
    let der := raw.tail.dropLast
    failIf (der.length < 8 ∨ der.headD 0 ≠ 0x30) "does not look like a DER-encoded ECDSA signature"

/-- What the wall clock reads, in seconds and in nanoseconds. -/
structure Clock where
  unix : ℤ
  unixNano : ℤ

/-- `nextCancelNonce`: above every nonce before it, whatever the clock does. -/
def Index.nextCancelNonce (idx : Index) (clock : Clock) : ℤ :=
  if clock.unixNano ≤ idx.lastCancelNonce then idx.lastCancelNonce + 1 else clock.unixNano

def Order.complete (o : Order) (pos : Position) (createdAt cancelNonce : ℤ) : Order :=
  { o with
    pubKey := pos.pubKey, backingValue := pos.value, origin := pos.origin, createdAt := createdAt,
    cancelNonce := cancelNonce }

/-- The fragment a withdrawal remembers for the outpoint. -/
def Store.tombstone? (t : Store) (key : Outpoint) : Option Text := (t.tombstones.lookup key).map Prod.fst

/-- `publishOrder`. A mirrored order honours the tombstone of the outpoint, a local one clears it. -/
def Index.publishOrder (idx : Index) (o : Order) (fromMirror : Bool) (clock : Clock) : Except String (Index × Order) := do
  validateScriptSig o.scriptSig
  failIf (o.paymentValue ≤ 0) "payment_value must be positive"
  failIf (hexDecode? o.paymentScript = none) "invalid payment_script hex"
  match idx.storeErr with
  | some e => .error e
  | none =>
    let pos ← orFail ("unknown position " ++ o.key.text) (idx.store.positions.lookup o.key)
    failIf (fromMirror = true ∧ idx.store.tombstone? o.key = some o.scriptSig)
      ("order for " ++ o.key.text ++ " was withdrawn here")
    failIf (pos.spent = true) ("position " ++ o.key.text ++ " is already spent")
    failIf (pos.multiplier ≠ o.multiplier)
      ("multiplier mismatch: position has " ++ toString pos.multiplier ++ ", order claims " ++ toString o.multiplier)
    let nonce := idx.nextCancelNonce clock
    let o := o.complete pos clock.unix nonce
    let t := idx.store.putOrder o
    let t := if fromMirror then t else t.delTombstone o.key
    return ({ idx with store := t, lastCancelNonce := nonce }, o)

/-- The functions of the `btcec` library that a cancellation is checked with. -/
structure Btcec where
  parsePubKey : Bytes → Bool
  parseDERSignature : Bytes → Bool
  verify : Bytes → Uint256 → Bytes → Bool

/-- The library as far as one run uses it: the signatures that verify in the run, each with its key and the
hash it signs. -/
def Btcec.recorded (signatures : List (Bytes × Bytes × Bytes)) : Btcec where
  parsePubKey key := signatures.any fun r => r.1 = key
  parseDERSignature sig := signatures.any fun r => r.2.2 = sig
  verify := (Crypto.recorded signatures).verify

def decimal (n : ℤ) : Text := if n < 0 then '-' :: Nat.toDigits 10 n.natAbs else Nat.toDigits 10 n.natAbs

def cancelDomain : Text := "whippet-uap-cancel-order-v1".toList

/-- `cancelMessage`: the text a maker signs to withdraw an order. -/
def cancelMessage (txid : Text) (vout : UInt32) (scriptSigHex : Text) (cancelNonce : ℤ) : Bytes :=
  (cancelDomain ++ ['\n'] ++ txid ++ ['\n'] ++ decimal vout.toNat ++ ['\n'] ++ scriptSigHex ++ ['\n'] ++
    decimal cancelNonce).flatMap String.utf8EncodeChar

def verifyCancelSignature (crypto : Crypto) (ec : Btcec) (pubKeyHex txid : Text) (vout : UInt32) (scriptSigHex : Text)
    (cancelNonce : ℤ) (sigHex : Text) : Except String Unit := do
  let pubKey ← orFail "invalid pubkey hex on file" (hexDecode? pubKeyHex)
  failIf (ec.parsePubKey pubKey = false) "invalid pubkey on file"
  let sig ← orFail "invalid signature hex" (hexDecode? sigHex)
  failIf (ec.parseDERSignature sig = false) "invalid signature encoding"
  let digest := crypto.hash256 (cancelMessage txid vout scriptSigHex cancelNonce)
  failIf (ec.verify pubKey digest sig = false) "signature does not authorize cancelling this order"

def Index.cancelOrder (crypto : Crypto) (ec : Btcec) (idx : Index) (txid : Text) (vout : UInt32) (cancelSigHex : Text)
    (clock : Clock) : Except String Index :=
  match idx.storeErr with
  | some e => .error e
  | none => do
    let k := positionKey txid vout
    let o ← orFail "no such order" (idx.store.orders.lookup k)
    verifyCancelSignature crypto ec o.pubKey txid vout o.scriptSig o.cancelNonce cancelSigHex
    return { idx with store := (idx.store.delOrder k).putTombstone k o.scriptSig clock.unix }

/-- The order as it is served: backing value and lineage come from the position, not from the stored order. -/
def Store.openOrder? (t : Store) (multiplier : Option ℤ) (excluded : Outpoint → Bool) (k : Outpoint) (o : Order) :
    Option Order :=
  match t.positions.lookup k with
  | none => none
  | some pos =>
    if pos.spent = true ∨ (∃ m ∈ multiplier, pos.multiplier ≠ m) ∨ excluded k = true then none
    else some { o with backingValue := pos.value, origin := pos.origin }

/-- `ListOrders`: the open orders, without those whose position an unconfirmed transaction spends. -/
def Index.listOrders (idx : Index) (multiplier : Option ℤ) : Multiset Order :=
  idx.store.orders.entries.filterMap fun e =>
    idx.store.openOrder? multiplier (fun k => (idx.pendingSpends.lookup k).isSome) e.1 e.2

/-- Everything that writes the index. A refused order or cancellation leaves it as it is. -/
inductive Event
  | applyBlock (block : RPCBlock)
  | undoBlock (height : ℤ)
  | reset
  | publishOrder (o : Order) (clock : Clock)
  | adoptMirroredOrder (o : Order) (clock : Clock)
  | cancelOrder (txid : Text) (vout : UInt32) (cancelSigHex : Text) (clock : Clock)

def Index.step (crypto : Crypto) (ec : Btcec) (idx : Index) : Event → Index
  | .applyBlock block => idx.applyBlock crypto block
  | .undoBlock height => idx.undoBlock height
  | .reset => idx.reset
  | .publishOrder o clock =>
    match idx.publishOrder o false clock with
    | .ok (idx, _) => idx
    | .error _ => idx
  | .adoptMirroredOrder o clock =>
    match idx.publishOrder o true clock with
    | .ok (idx, _) => idx
    | .error _ => idx
  | .cancelOrder txid vout cancelSigHex clock =>
    match idx.cancelOrder crypto ec txid vout cancelSigHex clock with
    | .ok idx => idx
    | .error _ => idx

section
variable {crypto : Crypto} {ec : Btcec} {s s' : Index} {o o' : Order} {fromMirror : Bool} {clock : Clock}
  {txid sig : Text} {vout : UInt32}

def Store.accept (t : Store) (o : Order) (fromMirror : Bool) : Store :=
  if fromMirror then t.putOrder o else (t.putOrder o).delTombstone o.key

def Store.withdraw (t : Store) (k : Outpoint) (scriptSig : Text) (time : ℤ) : Store :=
  (t.delOrder k).putTombstone k scriptSig time

theorem publishOrder_ok (h : s.publishOrder o fromMirror clock = .ok (s', o')) :
    ∃ pos, s.storeErr = none ∧ s.store.positions.lookup o.key = some pos ∧ pos.spent = false ∧
      pos.multiplier = o.multiplier ∧ (fromMirror = true → s.store.tombstone? o.key ≠ some o.scriptSig) ∧
      o' = o.complete pos clock.unix (s.nextCancelNonce clock) ∧
      s' = { s with store := s.store.accept o' fromMirror, lastCancelNonce := s.nextCancelNonce clock } := by
  unfold Index.publishOrder at h
  cases herr : s.storeErr with
  | some e => simp [herr] at h
  | none =>
    simp only [herr, bind_eq_ok, failIf_eq_ok, orFail_eq_ok, pure_eq_ok, Prod.mk.injEq] at h
    obtain ⟨-, -, -, -, -, -, pos, hpos, -, htomb, -, hspent, -, hmult, hstore, rfl⟩ := h
    refine ⟨pos, rfl, hpos, by simpa using hspent, by simpa using hmult, ?_, rfl, hstore.symm⟩
    intro hmirror heq
    exact htomb ⟨hmirror, heq⟩

theorem cancelOrder_ok (h : s.cancelOrder crypto ec txid vout sig clock = .ok s') :
    ∃ o, s.storeErr = none ∧ s.store.orders.lookup (positionKey txid vout) = some o ∧
      verifyCancelSignature crypto ec o.pubKey txid vout o.scriptSig o.cancelNonce sig = .ok () ∧
      s' = { s with store := s.store.withdraw (positionKey txid vout) o.scriptSig clock.unix } := by
  unfold Index.cancelOrder at h
  cases herr : s.storeErr with
  | some e => simp [herr] at h
  | none =>
    simp only [herr, bind_eq_ok, orFail_eq_ok, pure_eq_ok] at h
    obtain ⟨o, ho, ⟨⟩, hsig, rfl⟩ := h
    exact ⟨o, rfl, ho, hsig, rfl⟩

end

end Whippet.Indexer
