import Whippet.Indexer.LiveIndex
import Whippet.Indexer.Withdrawals
import Whippet.Lib.Text

/-! A cancellation is signed for one publication: nonces never repeat, and the signed text determines them. -/
namespace Whippet.Indexer
open Lib Primitives Script

theorem decimal_injective : Function.Injective decimal := by
  intro n n' h
  have hread := congrArg scanInt? h
  rwa [scanInt?_decimal, scanInt?_decimal, Option.some.injEq] at hread

theorem newline_notMem_decimal (n : ℤ) : '\n' ∉ decimal n := by
  have hdigits : '\n' ∉ Nat.toDigits 10 n.natAbs := by
    intro hmem
    have hdigit := Nat.isDigit_of_mem_toDigits (by decide) (by decide) hmem
    revert hdigit
    decide
  unfold decimal
  split_ifs
  · simpa using hdigits
  · exact hdigits

/-- The signed text determines what it is about. Only the transaction id may hold anything, so it is read from
the end. -/
theorem cancelMessage_inj {txid txid' scriptSig scriptSig' : Text} {vout vout' : UInt32} {nonce nonce' : ℤ}
    (hscript : '\n' ∉ scriptSig) (hscript' : '\n' ∉ scriptSig')
    (h : cancelMessage txid vout scriptSig nonce = cancelMessage txid' vout' scriptSig' nonce') :
    txid = txid' ∧ vout = vout' ∧ scriptSig = scriptSig' ∧ nonce = nonce' := by
  have htext := flatMap_utf8EncodeChar_injective h
  obtain ⟨htext, hnonce⟩ := append_separator_inj (newline_notMem_decimal _) (newline_notMem_decimal _) htext
  obtain ⟨htext, hsame⟩ := append_separator_inj hscript hscript' htext
  obtain ⟨htext, hvout⟩ := append_separator_inj (newline_notMem_decimal _) (newline_notMem_decimal _) htext
  refine ⟨List.append_cancel_left htext, ?_, hsame, decimal_injective hnonce⟩
  apply UInt32.toNat_inj.mp
  exact_mod_cast decimal_injective hvout

def Order.cancelText (o : Order) : Bytes := cancelMessage o.txid o.vout o.scriptSig o.cancelNonce

def published? (s : Index) : Event → Option Order
  | .publishOrder o clock => (s.publishOrder o false clock).toOption.map Prod.snd
  | .adoptMirroredOrder o clock => (s.publishOrder o true clock).toOption.map Prod.snd
  | .applyBlock _ | .undoBlock _ | .reset | .cancelOrder .. => none

section
variable (crypto : Crypto) (ec : Btcec)

def publications : Index → List Event → List Order
  | _, [] => []
  | s, e :: events => (published? s e).toList ++ publications (Index.step crypto ec s e) events

/-- `CancelOrder` accepts the signature for this publication, which is the stored order of its outpoint. -/
def CancelsWith (s : Index) (sig : Text) (p : Order) : Prop :=
  s.store.orders.lookup p.key = some p ∧
    ∃ clock s', s.cancelOrder crypto ec p.txid p.vout sig clock = .ok s'

end

def Event.ClockBelow (bound : ℤ) : Event → Prop
  | .publishOrder _ clock | .adoptMirroredOrder _ clock | .cancelOrder _ _ _ clock => clock.unixNano < bound
  | .applyBlock _ | .undoBlock _ | .reset => True

section
variable {crypto : Crypto} {ec : Btcec} {s : Index} {e : Event} {events : List Event} {p : Order}

theorem Index.lastCancelNonce_write (s : Index) (fn : Store → Meta → Except String (Store × Meta)) :
    (s.write fn).lastCancelNonce = s.lastCancelNonce := by
  unfold Index.write
  cases s.storeErr with
  | some e => rfl
  | none => cases fn s.store ⟨s.tipHeight, s.tipHash, s.prunedBelow⟩ <;> rfl

theorem Index.lastCancelNonce_reset (s : Index) : s.reset.lastCancelNonce = s.lastCancelNonce := by
  unfold Index.reset
  cases s.storeErr <;> rfl

/-- What a publication is: the nonce is new, and the order has passed the check of its signature push. -/
structure Publication (s s' : Index) (clock : Clock) (p : Order) : Prop where
  nonce : p.cancelNonce = s.nextCancelNonce clock
  last : s'.lastCancelNonce = p.cancelNonce
  scriptSig : validateScriptSig p.scriptSig = .ok ()

variable {o : Order}

theorem publication_of_publishOrder {fromMirror : Bool} {clock : Clock} {s' : Index}
    (h : s.publishOrder o fromMirror clock = .ok (s', p)) : Publication s s' clock p := by
  have hscript : validateScriptSig o.scriptSig = .ok () := by
    unfold Index.publishOrder at h
    simp only [bind_eq_ok] at h
    obtain ⟨⟨⟩, hscript, -⟩ := h
    exact hscript
  obtain ⟨pos, -, -, -, -, -, rfl, rfl⟩ := publishOrder_ok h
  exact ⟨rfl, rfl, hscript⟩

theorem published?_cases : (published? s e = none ∧ (Index.step crypto ec s e).lastCancelNonce = s.lastCancelNonce) ∨
    ∃ p clock, published? s e = some p ∧ Publication s (Index.step crypto ec s e) clock p ∧
      ∀ bound, e.ClockBelow bound → clock.unixNano < bound := by
  cases e with
  | applyBlock block => exact Or.inl ⟨rfl, Index.lastCancelNonce_write _ _⟩
  | undoBlock height => exact Or.inl ⟨rfl, Index.lastCancelNonce_write _ _⟩
  | reset => exact Or.inl ⟨rfl, Index.lastCancelNonce_reset _⟩
  | cancelOrder txid vout sig clock =>
    refine Or.inl ⟨rfl, ?_⟩
    dsimp only [Index.step]
    cases h : s.cancelOrder crypto ec txid vout sig clock with
    | error e => rfl
    | ok s' =>
      obtain ⟨o, -, -, -, rfl⟩ := cancelOrder_ok h
      rfl
  | publishOrder o clock =>
    dsimp only [published?, Index.step]
    cases h : s.publishOrder o false clock with
    | error e => exact Or.inl ⟨rfl, rfl⟩
    | ok r => exact Or.inr ⟨r.2, clock, rfl, publication_of_publishOrder h, fun _ hclock => hclock⟩
  | adoptMirroredOrder o clock =>
    dsimp only [published?, Index.step]
    cases h : s.publishOrder o true clock with
    | error e => exact Or.inl ⟨rfl, rfl⟩
    | ok r => exact Or.inr ⟨r.2, clock, rfl, publication_of_publishOrder h, fun _ hclock => hclock⟩

theorem nextCancelNonce_gt (s : Index) (clock : Clock) : s.lastCancelNonce < s.nextCancelNonce clock := by
  unfold Index.nextCancelNonce
  split_ifs <;> omega

theorem nextCancelNonce_le {s : Index} {clock : Clock} {bound : ℤ} (hclock : clock.unixNano < bound)
    (hlast : s.lastCancelNonce < bound) : s.nextCancelNonce clock ≤ bound := by
  unfold Index.nextCancelNonce
  split_ifs <;> omega

theorem lastCancelNonce_lt_publications (hp : p ∈ publications crypto ec s events) :
    s.lastCancelNonce < p.cancelNonce := by
  induction events generalizing s with
  | nil => simp [publications] at hp
  | cons e events ih =>
    rw [publications, List.mem_append] at hp
    rcases @published?_cases crypto ec s e with ⟨hnone, hlast⟩ | ⟨q, clock, hsome, hpub, -⟩
    · rw [hnone] at hp
      rw [← hlast]
      exact ih (by simpa using hp)
    · have hnew : s.lastCancelNonce < q.cancelNonce := hpub.nonce ▸ nextCancelNonce_gt s clock
      rw [hsome, Option.toList_some, List.mem_singleton] at hp
      rcases hp with rfl | hp
      · exact hnew
      · exact hnew.trans (hpub.last ▸ ih hp)

/-- Nonces grow, whatever the clock does. -/
theorem publications_increasing (crypto : Crypto) (ec : Btcec) (s : Index) (events : List Event) :
    (publications crypto ec s events).Pairwise fun p q => p.cancelNonce < q.cancelNonce := by
  induction events generalizing s with
  | nil => exact List.Pairwise.nil
  | cons e events ih =>
    unfold publications
    rcases @published?_cases crypto ec s e with ⟨hnone, -⟩ | ⟨p, clock, hsome, hpub, -⟩
    · rw [hnone]
      exact ih _
    · rw [hsome]
      refine List.Pairwise.cons ?_ (ih _)
      intro q hq
      exact hpub.last ▸ lastCancelNonce_lt_publications hq

theorem publications_bounded {bound : ℤ} (hclock : ∀ e ∈ events, e.ClockBelow bound) (hlast : s.lastCancelNonce < bound)
    {i : ℕ} (hp : (publications crypto ec s events)[i]? = some p) : p.cancelNonce ≤ bound + i := by
  induction events generalizing s bound i with
  | nil => simp [publications] at hp
  | cons e events ih =>
    rw [List.forall_mem_cons] at hclock
    unfold publications at hp
    rcases @published?_cases crypto ec s e with ⟨hnone, hkept⟩ | ⟨q, clock, hsome, hpub, hnow⟩
    · rw [hnone] at hp
      exact ih hclock.2 (hkept ▸ hlast) hp
    · have hle : q.cancelNonce ≤ bound := hpub.nonce ▸ nextCancelNonce_le (hnow bound hclock.1) hlast
      rw [hsome, Option.toList_some, List.singleton_append] at hp
      cases i with
      | zero =>
        obtain rfl : q = p := by simpa using hp
        simpa using hle
      | succ i =>
        -- the clock stays below the larger bound too
        have hstill : ∀ e ∈ events, e.ClockBelow (bound + 1) := by
          intro e he
          have := hclock.2 e he
          cases e <;> simp only [Event.ClockBelow] at this ⊢ <;> omega
        have := ih hstill (by rw [hpub.last]; omega) (by simpa using hp)
        push_cast
        omega

theorem publications_scriptSig (hp : p ∈ publications crypto ec s events) : validateScriptSig p.scriptSig = .ok () := by
  induction events generalizing s with
  | nil => simp [publications] at hp
  | cons e events ih =>
    rw [publications, List.mem_append] at hp
    rcases @published?_cases crypto ec s e with ⟨hnone, -⟩ | ⟨q, clock, hsome, hpub, -⟩
    · rw [hnone] at hp
      exact ih (by simpa using hp)
    · rw [hsome, Option.toList_some, List.mem_singleton] at hp
      rcases hp with rfl | hp
      · exact hpub.scriptSig
      · exact ih hp

theorem newline_notMem_of_validateScriptSig {scriptSig : Text} (h : validateScriptSig scriptSig = .ok ()) :
    '\n' ∉ scriptSig := by
  unfold validateScriptSig at h
  cases hraw : hexDecode? scriptSig with
  | none => simp [hraw] at h
  | some raw => exact newline_notMem_of_hexDecode? hraw

theorem publications_append (crypto : Crypto) (ec : Btcec) (s : Index) (events events' : List Event) :
    publications crypto ec s (events ++ events') =
      publications crypto ec s events ++ publications crypto ec (run (Index.step crypto ec) s events) events' := by
  induction events generalizing s with
  | nil => rfl
  | cons e events ih => rw [List.cons_append, publications, publications, ih, run_cons, List.append_assoc]

/-- The order is on the book, or a rollback can put it back there. -/
def Store.Holds (t : Store) (o : Order) : Prop :=
  (∃ k, t.orders.lookup k = some o) ∨ ∃ h ch, t.undoLog? h = some ch ∧ o ∈ ch.ordersPruned

/-- The same inside the transaction of a block. -/
def BlockState.Holds (t : BlockState) (o : Order) : Prop :=
  (∃ k, t.store.orders.lookup k = some o) ∨ o ∈ t.change.ordersPruned

variable {height : ℤ} {t : BlockState}

theorem spendPosition_holds {txid : Text} {k : Outpoint}
    (h : (spendPosition height txid k t).Holds o) : t.Holds o := by
  unfold spendPosition at h
  cases hpos : t.store.positions.lookup k with
  | none => simpa only [hpos] using h
  | some pos =>
    simp only [hpos] at h
    split_ifs at h with hspent
    · exact h
    · have horders : ((t.store.putPosition (pos.markSpent txid height)).removeFromLineage
          (pos.markSpent txid height)).orders = t.store.orders := rfl
      rw [horders] at h
      cases horder : t.store.orders.lookup k with
      | none =>
        simp only [horder] at h
        exact h
      | some order =>
        simp only [horder] at h
        rcases h with ⟨k', hk'⟩ | hlogged
        · left
          refine ⟨k', ?_⟩
          change (t.store.orders.erase k).lookup k' = some o at hk'
          rw [Table.lookup_erase_eq] at hk'
          split_ifs at hk'
          exact hk'
        · change o ∈ t.change.ordersPruned ++ [order] at hlogged
          rw [List.mem_append, List.mem_singleton] at hlogged
          rcases hlogged with hlogged | rfl
          · exact Or.inr hlogged
          · exact Or.inl ⟨k, horder⟩

theorem applyVin_holds {txid : Text} {vin : RPCVin} (h : (applyVin height txid t vin).Holds o) : t.Holds o := by
  unfold applyVin at h
  split_ifs at h
  · exact h
  · apply spendPosition_holds
    dsimp only at h
    unfold spendUTXO at h
    split at h <;> exact h

theorem applyVout_holds {tx : RPCTx} {vout : RPCVout} {t' : BlockState}
    (hrun : applyVout crypto height tx t vout = .ok t') (h : t'.Holds o) : t.Holds o := by
  unfold applyVout at hrun
  dsimp only at hrun
  split at hrun
  · simp only [bind_eq_ok, pure_eq_ok] at hrun
    obtain ⟨pos, -, rfl⟩ := hrun
    exact h
  · split at hrun
    · obtain rfl := Except.ok.inj hrun
      exact h
    · obtain rfl := Except.ok.inj hrun
      exact h

theorem applyTxs_holds {txs : List RPCTx} {t' : BlockState}
    (hrun : applyTxs crypto height t txs = .ok t') (h : t'.Holds o) : t.Holds o := by
  refine foldlM_ok (P := fun _ t' => t'.Holds o → t.Holds o) hrun id ?_ h
  intro _ tx t₁ t₂ _ ih htx h₂
  have hvins : (tx.vin.foldl (applyVin height tx.txid) t₁).Holds o → t₁.Holds o :=
    List.foldlRecOn (motive := fun t₃ : BlockState => t₃.Holds o → t₁.Holds o) tx.vin _ id
      fun _ ih _ _ h => ih (applyVin_holds h)
  refine ih (hvins (foldlM_ok (P := fun _ t' => t'.Holds o → _) htx id ?_ h₂))
  intro _ vout t₃ t₄ _ ih hvout h₄
  exact ih (applyVout_holds hvout h₄)

theorem published?_submit (s : Index) (fromMirror : Bool) (o : Order) (clock : Clock) :
    published? s (.submit fromMirror o clock) = (s.publishOrder o fromMirror clock).toOption.map Prod.snd := by
  cases fromMirror <;> rfl

theorem holds_step (h : (Index.step crypto ec s e).store.Holds o) :
    s.store.Holds o ∨ published? s e = some o := by
  have hstep := @storeStep crypto ec s e
  generalize (Index.step crypto ec s e).store = t at h hstep
  cases hstep with
  | refused => exact Or.inl h
  | @applied block t heights hrun hrecorded =>
    left
    have hbefore : ∀ o, t.Holds o → s.store.Holds o := by
      intro o ho
      rcases applyTxs_holds hrun ho with hbook | hlogged
      · exact Or.inl hbook
      · simp at hlogged
    rcases h with hbook | ⟨height, ch, hlog, ho⟩
    · exact hbefore o (Or.inl hbook)
    · have hlog' : ({ t.store with heights := heights } : Store).undoLog? height = some ch := hlog
      rcases hrecorded.undoLog hlog' with rfl | hold
      · exact hbefore o (Or.inr ho)
      · exact Or.inr ⟨height, ch, hold, ho⟩
  | @undone height ch hlog =>
    left
    rcases h with ⟨k, hk⟩ | ⟨height', ch', hlog', ho⟩
    · rcases Store.undoChange_orders_some hk with hold | ⟨hmem, -, -⟩
      · exact Or.inl ⟨k, hold⟩
      · exact Or.inr ⟨height, ch, hlog, hmem⟩
    · have hkept := undoLog_delHeight hlog'
      rw [undoLog_undoChange] at hkept
      exact Or.inr ⟨height', ch', hkept, ho⟩
  | reset => simp [Store.Holds, Store.truncate, Store.undoLog?] at h
  | @taken o' fromMirror clock pos haccepted hpos =>
    rcases h with ⟨k, hk⟩ | ⟨height, ch, hlog, ho⟩
    · rw [Store.accept_orders, Table.lookup_insert_eq] at hk
      split_ifs at hk with hkey
      · right
        cases hpub : s.publishOrder o' fromMirror clock with
        | error e => simp [hpub, Except.isOk, Except.toBool] at haccepted
        | ok r =>
          obtain ⟨pos', -, hpos', -, -, -, hr, -⟩ := publishOrder_ok hpub
          rw [hpos, Option.some.injEq] at hpos'
          rw [published?_submit, hpub, ← Option.some.inj hk, hpos', ← hr]
          rfl
      · exact Or.inl (Or.inl ⟨k, hk⟩)
    · rw [Store.accept_undoLog] at hlog
      exact Or.inl (Or.inr ⟨height, ch, hlog, ho⟩)
  | withdrawn =>
    left
    rcases h with ⟨k, hk⟩ | hlogs
    · simp only [Store.withdraw, Store.putTombstone, Store.delOrder, Table.lookup_erase_eq] at hk
      split_ifs at hk
      exact Or.inl ⟨k, hk⟩
    · exact Or.inr hlogs

theorem holds_run (h : (run (Index.step crypto ec) s events).store.Holds o) :
    s.store.Holds o ∨ o ∈ publications crypto ec s events := by
  induction events generalizing s with
  | nil => exact Or.inl h
  | cons e events ih =>
    rw [publications, List.mem_append]
    rcases ih h with hstep | hlater
    · rcases holds_step hstep with hbefore | hnow
      · exact Or.inl hbefore
      · exact Or.inr (Or.inl (by simp [hnow]))
    · exact Or.inr (Or.inr hlater)

/-- What an accepted cancellation was signed for. -/
theorem CancelsWith.verified {sig : Text} (h : CancelsWith crypto ec s sig p) : ∃ key raw,
    hexDecode? sig = some raw ∧ ec.verify key (crypto.hash256 p.cancelText) raw = true := by
  obtain ⟨hstored, clock, s', hcancel⟩ := h
  obtain ⟨o, -, ho, hverify, -⟩ := cancelOrder_ok hcancel
  obtain rfl : p = o := Option.some.inj (hstored.symm.trans ho)
  unfold verifyCancelSignature at hverify
  simp only [bind_eq_ok, orFail_eq_ok, failIf_eq_ok] at hverify
  obtain ⟨key, -, -, -, raw, hraw, -, -, hverify⟩ := hverify
  exact ⟨key, raw, hraw, by simpa [Order.cancelText] using hverify⟩

end

/-- From a process start on, whatever the clock does: nonces are new (and stay in 64 bits for the first 2^62
publications), the signed text determines the publication, orders come from publications, and a signature that
is accepted for one publication is accepted for no other. -/
theorem cancel_signature_for_one_publication (crypto : Crypto) (ec : Btcec) (s₀ : Index) (hstart : s₀.lastCancelNonce = 0)
    (events : List Event) (hclock : ∀ e ∈ events, e.ClockBelow (2 ^ 62))
    (hhash : ∀ p ∈ publications crypto ec s₀ events, ∀ q ∈ publications crypto ec s₀ events,
      crypto.hash256 p.cancelText = crypto.hash256 q.cancelText → p.cancelText = q.cancelText)
    (hsigned : ∀ key key' digest digest' sig, ec.verify key digest sig = true → ec.verify key' digest' sig = true →
      digest = digest') :
    let pubs := publications crypto ec s₀ events
    let state := run (Index.step crypto ec) s₀
    (∀ (i : ℕ) p, pubs[i]? = some p → 0 < p.cancelNonce ∧ p.cancelNonce ≤ 2 ^ 62 + i) ∧
      (∀ (i j : ℕ) p q, pubs[i]? = some p → pubs[j]? = some q → p.cancelNonce = q.cancelNonce → i = j) ∧
      (∀ p ∈ pubs, ∀ q ∈ pubs, p.cancelText = q.cancelText →
        p.txid = q.txid ∧ p.vout = q.vout ∧ p.scriptSig = q.scriptSig ∧ p.cancelNonce = q.cancelNonce) ∧
      (∀ done, done <+: events → ∀ o, (state done).store.Holds o → s₀.store.Holds o ∨ o ∈ pubs) ∧
      ∀ done done', done <+: events → done' <+: events → ∀ sig sig' (i j : ℕ) p q, hexDecode? sig = hexDecode? sig' →
        pubs[i]? = some p → pubs[j]? = some q → CancelsWith crypto ec (state done) sig p →
        CancelsWith crypto ec (state done') sig' q → i = j := by
  intro pubs state
  have hnonces : ∀ (i j : ℕ) p q, pubs[i]? = some p → pubs[j]? = some q → p.cancelNonce = q.cancelNonce → i = j := by
    intro i j p q hp hq heq
    have hincreasing := List.pairwise_iff_getElem.mp (publications_increasing crypto ec s₀ events)
    obtain ⟨hi, rfl⟩ := List.getElem?_eq_some_iff.mp hp
    obtain ⟨hj, rfl⟩ := List.getElem?_eq_some_iff.mp hq
    rcases lt_trichotomy i j with hlt | rfl | hgt
    · exact absurd heq (hincreasing i j hi hj hlt).ne
    · rfl
    · exact absurd heq (hincreasing j i hj hi hgt).ne'
  have htexts : ∀ p ∈ pubs, ∀ q ∈ pubs, p.cancelText = q.cancelText →
      p.txid = q.txid ∧ p.vout = q.vout ∧ p.scriptSig = q.scriptSig ∧ p.cancelNonce = q.cancelNonce := by
    intro p hp q hq heq
    exact cancelMessage_inj (newline_notMem_of_validateScriptSig (publications_scriptSig hp))
      (newline_notMem_of_validateScriptSig (publications_scriptSig hq)) heq
  refine ⟨?_, hnonces, htexts, ?_, ?_⟩
  · intro i p hp
    refine ⟨?_, publications_bounded hclock (by omega) hp⟩
    rw [← hstart]
    exact lastCancelNonce_lt_publications (List.mem_of_getElem? hp)
  · rintro done ⟨rest, rfl⟩ o ho
    rcases holds_run ho with hbefore | hpub
    · exact Or.inl hbefore
    · refine Or.inr ?_
      change o ∈ publications crypto ec s₀ (done ++ rest)
      rw [publications_append]
      exact List.mem_append_left _ hpub
  · intro done done' _ _ sig sig' i j p q hsame hp hq hcancel hcancel'
    obtain ⟨key, raw, hraw, hverify⟩ := hcancel.verified
    obtain ⟨key', raw', hraw', hverify'⟩ := hcancel'.verified
    obtain rfl : raw = raw' := Option.some.inj (hraw.symm.trans (hsame.trans hraw'))
    have hdigest := hsigned key key' _ _ raw hverify hverify'
    have hmemp := List.mem_of_getElem? hp
    have hmemq := List.mem_of_getElem? hq
    exact hnonces i j p q hp hq (htexts p hmemp q hmemq (hhash p hmemp q hmemq hdigest)).2.2.2

def sampleReoffer : List Event :=
  sampleOffer ++ [.cancelOrder (sampleTxid 'a') 0 (hexEncode sampleCancelSig) sampleClock, .publishOrder sampleOrder sampleClock]

def sampleOffered (cancelNonce : ℤ) : Order :=
  { sampleOrder with
    pubKey := hexEncode sampleKey, createdAt := 1700000000, backingValue := 100, origin := hexEncode sampleOrigin,
    cancelNonce := cancelNonce }

theorem sampleReoffer_publications : publications (Crypto.recorded []) sampleEc (newIndex 15000) sampleReoffer =
    [sampleOffered 1700000000000000000, sampleOffered 1700000000000000001] := by decide +kernel

theorem sampleOffered_hashes : (Crypto.recorded []).hash256 (sampleOffered 1700000000000000000).cancelText ≠
    (Crypto.recorded []).hash256 (sampleOffered 1700000000000000001).cancelText := by decide +kernel

theorem sampleEc_signed (key key' : Bytes) (digest digest' : Uint256) (sig : Bytes)
    (h : sampleEc.verify key digest sig = true) (h' : sampleEc.verify key' digest' sig = true) : digest = digest' := by
  simp only [sampleEc, Btcec.recorded, Crypto.recorded, List.mem_singleton, decide_eq_true_eq, Prod.mk.injEq] at h h'
  obtain ⟨bytes, hsize⟩ := digest
  obtain ⟨bytes', hsize'⟩ := digest'
  obtain rfl : bytes = bytes' := h.2.1.trans h'.2.1.symm
  rfl

theorem sampleOffer_cancels : CancelsWith (Crypto.recorded []) sampleEc
    (run (Index.step (Crypto.recorded []) sampleEc) (newIndex 15000) sampleOffer) (hexEncode sampleCancelSig)
    (sampleOffered 1700000000000000000) := by
  refine ⟨by decide +kernel, sampleClock, ?_⟩
  have hok : ((run (Index.step (Crypto.recorded []) sampleEc) (newIndex 15000) sampleOffer).cancelOrder (Crypto.recorded [])
      sampleEc (sampleTxid 'a') 0 (hexEncode sampleCancelSig) sampleClock).isOk = true := by decide +kernel
  cases hcancel : (run (Index.step (Crypto.recorded []) sampleEc) (newIndex 15000) sampleOffer).cancelOrder
      (Crypto.recorded []) sampleEc (sampleTxid 'a') 0 (hexEncode sampleCancelSig) sampleClock with
  | error e => simp [hcancel, Except.isOk, Except.toBool] at hok
  | ok s => exact ⟨s, hcancel⟩

/-- The signature that withdrew the first publication does not withdraw the second. -/
theorem cancel_signature_for_one_publication_reoffer :
    CancelsWith (Crypto.recorded []) sampleEc (run (Index.step (Crypto.recorded []) sampleEc) (newIndex 15000) sampleOffer)
        (hexEncode sampleCancelSig) (sampleOffered 1700000000000000000) ∧
      ¬ CancelsWith (Crypto.recorded []) sampleEc
        (run (Index.step (Crypto.recorded []) sampleEc) (newIndex 15000) sampleReoffer) (hexEncode sampleCancelSig)
        (sampleOffered 1700000000000000001) := by
  refine ⟨sampleOffer_cancels, fun hagain => ?_⟩
  have hclock : ∀ e ∈ sampleReoffer, e.ClockBelow (2 ^ 62) := by
    simp [sampleReoffer, sampleOffer, Event.ClockBelow, sampleClock]
  have hhash : ∀ p ∈ publications (Crypto.recorded []) sampleEc (newIndex 15000) sampleReoffer,
      ∀ q ∈ publications (Crypto.recorded []) sampleEc (newIndex 15000) sampleReoffer,
      (Crypto.recorded []).hash256 p.cancelText = (Crypto.recorded []).hash256 q.cancelText → p.cancelText = q.cancelText := by
    rw [sampleReoffer_publications]
    intro p hp q hq hsame
    rw [List.mem_pair] at hp hq
    rcases hp with rfl | rfl <;> rcases hq with rfl | rfl
    · rfl
    · exact absurd hsame sampleOffered_hashes
    · exact absurd hsame.symm sampleOffered_hashes
    · rfl
  obtain ⟨-, -, -, -, hone⟩ := cancel_signature_for_one_publication (Crypto.recorded []) sampleEc (newIndex 15000) rfl
    sampleReoffer hclock hhash sampleEc_signed
  rw [sampleReoffer_publications] at hone
  exact absurd (hone sampleOffer sampleReoffer (List.prefix_append _ _) (List.prefix_refl _) _ _ 0 1 _ _ rfl rfl rfl
    sampleOffer_cancels hagain) (by decide)

end Whippet.Indexer
