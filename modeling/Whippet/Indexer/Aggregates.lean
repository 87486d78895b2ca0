import Whippet.Indexer.Survival

/-! The lineage summaries along a run of the index, and the index as a whole against the surviving chain. -/
namespace Whippet.Indexer
open Lib Primitives Script

variable (crypto : Crypto) (ec : Btcec) (reorgWindow : ℤ)

/-- The summaries of an index whose surviving chain is `chain`. -/
structure LineageInv (chain : List RPCBlock) (s : Index) : Prop where
  summarised : s.store.Summarised
  sound : ∀ n, LineagesSound (unspent (replay crypto ec reorgWindow (chain.take n)).store.positions)
  replayable : Admissible (Index.step crypto ec) (SoundEvent crypto) (newIndex reorgWindow) (chain.map .applyBlock)

variable {crypto ec reorgWindow} {chain : List RPCBlock} {s : Index} {block : RPCBlock}

theorem soundBlock_congr {height : ℤ} {t u : BlockState} {txs : List RPCTx} (h : t.store.core = u.store.core)
    (hsound : SoundBlock crypto height t txs) : SoundBlock crypto height u txs := by
  intro done hdone u' hrun
  obtain ⟨t', hrun', hcore⟩ := applyTxs_congr h.symm hrun
  rw [(Core.mk.inj hcore).1]
  exact hsound done hdone t' hrun'

theorem LineageInv.applyBlock (h : LineageInv crypto ec reorgWindow chain s)
    (hchain : ChainInv crypto ec reorgWindow chain s) (hev : ChainEvent crypto s (.applyBlock block))
    (hsound : SoundEvent crypto s (.applyBlock block)) :
    LineageInv crypto ec reorgWindow (chain ++ [block]) (s.applyBlock crypto block) := by
  have hcore := (hchain.applyBlock hev).core
  obtain ⟨-, hfresh, hok⟩ := hev
  obtain ⟨t, heights, prunedBelow, -, hrun, -, heq⟩ := applyBlock_ok hok
  have ht : t.store.Summarised := summarised_txs hchain.rowsOk rfl hfresh hsound h.summarised hrun
  have hsummarised : (s.applyBlock crypto block).store.Summarised := by
    rw [heq]
    exact ⟨ht.recomputed, ht.sound⟩
  refine ⟨hsummarised, ?_, ?_⟩
  · apply forall_take_concat (P := fun c => LineagesSound (unspent (replay crypto ec reorgWindow c).store.positions))
    · exact h.sound
    · rw [← (Core.mk.inj hcore).1]
      exact hsummarised.sound
  · rw [List.map_append, admissible_append]
    exact ⟨h.replayable, soundBlock_congr hchain.core hsound, trivial⟩

theorem LineageInv.undoBlock (h : LineageInv crypto ec reorgWindow chain s)
    (hchain : ChainInv crypto ec reorgWindow chain s) (hundo : s.canUndo s.tipHeight = true) :
    LineageInv crypto ec reorgWindow chain.dropLast (s.undoBlock s.tipHeight) := by
  obtain ⟨pre, last, ch, rfl, -, hlog, hlogged⟩ := hchain.tipLog hundo
  have hsound : ∀ n, LineagesSound (unspent (replay crypto ec reorgWindow (pre.take n)).store.positions) := by
    intro n
    have := h.sound (min n pre.length)
    rwa [List.take_append_of_le_length (min_le_right _ _), ← List.take_take, List.take_length] at this
  have hpre : LineagesSound (unspent (replay crypto ec reorgWindow pre).store.core.positions) := by
    have := hsound pre.length
    rwa [List.take_length] at this
  have hundone := h.summarised.undoChange hlogged hchain.rowsOk hpre
  rw [undoBlock_tip hchain.storeErr hlog, List.dropLast_concat]
  refine ⟨⟨hundone.recomputed, hundone.sound⟩, hsound, ?_⟩
  have := h.replayable
  rw [List.map_append, admissible_append] at this
  exact this.1

theorem Store.Summarised.empty {t : Store} (hpos : t.positions = ∅) (hlineage : t.lineage = {}) : t.Summarised := by
  have hunspent : unspent t.positions = 0 := by rw [hpos]; rfl
  refine ⟨?_, ?_⟩ <;> rw [hunspent]
  · rw [hlineage]
    refine ⟨?_, ?_, ?_⟩ <;> simp [groupCount, memberCount, groupRows]
  · refine ⟨by simp, ?_, by simp⟩
    simp [groupTotal, groupRows]

theorem LineageInv.sameChain {s' : Index} (h : LineageInv crypto ec reorgWindow chain s) (hsame : s.SameChain s') :
    LineageInv crypto ec reorgWindow chain s' := by
  obtain ⟨orders, tombstones, nonce, rfl⟩ := hsame
  exact ⟨⟨h.summarised.recomputed, h.summarised.sound⟩, h.sound, h.replayable⟩

theorem LineageInv.empty (hpos : s.store.positions = ∅) (hlineage : s.store.lineage = {}) :
    LineageInv crypto ec reorgWindow [] s := by
  refine ⟨Store.Summarised.empty hpos hlineage, ?_, trivial⟩
  intro n
  rw [List.take_nil]
  exact (Store.Summarised.empty (t := (newIndex reorgWindow).store) rfl rfl).sound

theorem LineageInv.step {e : Event} (h : LineageInv crypto ec reorgWindow chain s)
    (hchain : ChainInv crypto ec reorgWindow chain s) (hev : ChainEvent crypto s e) (hsound : SoundEvent crypto s e) :
    LineageInv crypto ec reorgWindow (survive chain e) (Index.step crypto ec s e) := by
  cases e with
  | applyBlock block => exact h.applyBlock hchain hev hsound
  | undoBlock height =>
    obtain ⟨rfl, hundo⟩ := hev
    exact h.undoBlock hchain hundo
  | reset => apply LineageInv.empty <;> simp [Index.step, Index.reset, hchain.storeErr, Store.truncate]
  | publishOrder o clock => exact h.sameChain (sameChain_publishOrder s o false clock)
  | adoptMirroredOrder o clock => exact h.sameChain (sameChain_publishOrder s o true clock)
  | cancelOrder txid vout sig clock => exact h.sameChain (sameChain_cancelOrder s txid vout sig clock)

theorem lineageInv_run {events : List Event}
    (h : Admissible (Index.step crypto ec) (ChainEvent crypto) (newIndex reorgWindow) events)
    (hsound : Admissible (Index.step crypto ec) (SoundEvent crypto) (newIndex reorgWindow) events) :
    LineageInv crypto ec reorgWindow (survivors events) (indexAfter crypto ec reorgWindow events) := by
  refine (run_invariant (P := fun done s => ChainInv crypto ec reorgWindow (survivors done) s ∧
    LineageInv crypto ec reorgWindow (survivors done) s) ?_ ?_ (h.and hsound)).2
  · exact ⟨ChainInv.empty rfl ⟨∅, rfl⟩ rfl, LineageInv.empty rfl rfl⟩
  · rintro done s e ⟨hchain, hinv⟩ ⟨hev, hsev⟩
    rw [survivors, List.foldl_append]
    exact ⟨hchain.step hev, hinv.step hchain hev hsev⟩

/-- In every state of every run the summaries are the recomputation from the unspent positions. -/
theorem lineage_aggregates_recomputed (crypto : Crypto) (ec : Btcec) (reorgWindow : ℤ) (events : List Event)
    (h : Admissible (Index.step crypto ec) (ChainEvent crypto) (newIndex reorgWindow) events)
    (hsound : Admissible (Index.step crypto ec) (SoundEvent crypto) (newIndex reorgWindow) events) :
    (indexAfter crypto ec reorgWindow events).store.lineage.Recomputed
      (unspent (indexAfter crypto ec reorgWindow events).store.positions) :=
  (lineageInv_run h hsound).summarised.recomputed

def sampleKey : Bytes := beBytes 33 0x0279be667ef9dcbbac55a06295ce870b07029bfcdb2dce28d959f2815b16f81798

def sampleTxid (c : Char) : Text := List.replicate 64 c

def sampleOrigin : Bytes := beBytes 32 0xd60f3f6d3f69ddc7993fa92fbf93350c7b95c2ee25e8f80223865154857d5f25

def sampleCovenant (f : UapOutput) (value : ℕ) (n : UInt32) : RPCVout := ⟨value, n, hexEncode (uapScript f)⟩

def sampleMint : RPCTx :=
  ⟨sampleTxid 'a', [⟨sampleTxid 'e', 0, []⟩], [sampleCovenant ⟨sampleKey, 40, [], true⟩ 100 0], by decide⟩

def sampleSplit : RPCTx :=
  ⟨sampleTxid 'b', [⟨sampleTxid 'a', 0, []⟩],
    [sampleCovenant ⟨sampleKey, 40, sampleOrigin, false⟩ 60 0, sampleCovenant ⟨sampleKey, 40, sampleOrigin, false⟩ 40 1],
    by decide⟩

def sampleMove : RPCTx :=
  ⟨sampleTxid 'c', [⟨sampleTxid 'a', 0, []⟩], [sampleCovenant ⟨sampleKey, 40, sampleOrigin, false⟩ 100 0], by decide⟩

def sampleBlock (c : Char) (height : ℤ) (previous : Text) (tx : List RPCTx) : RPCBlock :=
  ⟨sampleTxid c, height, previous, tx⟩

def sampleReorg : List Event :=
  [.applyBlock (sampleBlock '0' 0 [] [sampleMint]), .applyBlock (sampleBlock '1' 1 (sampleTxid '0') [sampleSplit]),
    .undoBlock 1, .applyBlock (sampleBlock '2' 1 (sampleTxid '0') [sampleMove])]

abbrev SampleAdmissible (ok : Index → Event → Prop) (events : List Event) : Prop :=
  Admissible (Index.step (Crypto.recorded []) (Btcec.recorded [])) ok (newIndex 15000) events

theorem sampleReorg_chain : SampleAdmissible (ChainEvent (Crypto.recorded [])) sampleReorg := by decide +kernel

theorem sampleReorg_sound : SampleAdmissible (SoundEvent (Crypto.recorded [])) sampleReorg := by decide +kernel

theorem lineage_aggregates_recomputed_reorg :
    SampleAdmissible (ChainEvent (Crypto.recorded [])) sampleReorg ∧
      SampleAdmissible (SoundEvent (Crypto.recorded [])) sampleReorg ∧
      (indexAfter (Crypto.recorded []) (Btcec.recorded []) 15000 sampleReorg).store.lineage.Recomputed
        (unspent (indexAfter (Crypto.recorded []) (Btcec.recorded []) 15000 sampleReorg).store.positions) :=
  ⟨sampleReorg_chain, sampleReorg_sound, lineage_aggregates_recomputed (Crypto.recorded []) (Btcec.recorded []) 15000
    sampleReorg sampleReorg_chain sampleReorg_sound⟩

theorem ChainInv.tip_eq_replay (h : ChainInv crypto ec reorgWindow chain s) (hne : chain ≠ []) :
    s.tipHeight = (replay crypto ec reorgWindow chain).tipHeight ∧
      (s.store.heights.lookup s.tipHeight ≠ none → s.tipHash = (replay crypto ec reorgWindow chain).tipHash) := by
  obtain ⟨pre, last, rfl⟩ := (List.eq_nil_or_concat' chain).resolve_left hne
  obtain ⟨-, hheight, hhash⟩ := replay_tip (replayable_append.mp h.replayable).2
  rw [hheight, hhash]
  exact ⟨(h.getLast List.getLast?_concat).1.symm, h.tipHash last List.getLast?_concat⟩

theorem LineageInv.eq_replay (h : LineageInv crypto ec reorgWindow chain s)
    (hchain : ChainInv crypto ec reorgWindow chain s) :
    s.store.lineage = (replay crypto ec reorgWindow chain).store.lineage := by
  have hreplay := (lineageInv_run hchain.replayable h.replayable).summarised.recomputed
  exact h.summarised.recomputed.unique ((Core.mk.inj hchain.core).1 ▸ hreplay)

def sampleMultiplied (c : Char) (vin : List RPCVin) (multiplier : ℤ) (value : ℕ) : RPCTx :=
  ⟨sampleTxid c, vin, [sampleCovenant ⟨sampleKey, multiplier, sampleOrigin, false⟩ value 0], List.nodup_singleton _⟩

def sampleMixed : List Event :=
  [.applyBlock (sampleBlock '0' 0 [] [sampleMultiplied 'b' [] 40 60]),
    .applyBlock (sampleBlock '1' 1 (sampleTxid '0') [sampleMultiplied 'c' [] 41 40]),
    .undoBlock 1]

end Whippet.Indexer
