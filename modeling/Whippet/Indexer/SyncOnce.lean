import Whippet.Indexer.SyncRun

/-! One call of `syncOnce` as a whole: what it leaves when it returns. -/
namespace Whippet.Indexer
open Lib Primitives Script

section
variable (crypto : Crypto) (startHeight : ℤ)

def syncOnce? : ℕ → SyncState → Option SyncState
  | 0, _ => none
  | fuel + 1, s =>
    let s := syncTick crypto startHeight s {}
    match s.pc with
    | .idle _ => some s
    | _ => syncOnce? fuel s

theorem syncTick_node (s : SyncState) (m : Moment) : (syncTick crypto startHeight s m).node = s.node := by
  unfold syncTick
  cases s.pc with
  | idle ok =>
    dsimp only
    split_ifs <;> rfl
  | walk nodeHeight =>
    dsimp only [syncWalk]
    generalize (if m.rpcOk then s.node.getBlockHash? s.idx.tipHeight else none) = nodeHash
    cases nodeHash <;> split_ifs <;> rfl
  | compare nodeHeight tip nodeHash =>
    dsimp only [syncCompare]
    generalize (if m.hashReadOk then s.idx.hashAtHeight? tip else none) = ourHash
    split_ifs <;> rfl
  | fetch nodeHeight next =>
    dsimp only [syncFetch]
    generalize (if m.rpcOk then s.node.getBlockHash? next else none) = hash
    cases hash <;> split_ifs <;> rfl
  | block nodeHeight next hash =>
    dsimp only [syncBlock]
    generalize (if m.rpcOk then s.node.getBlockVerbose? hash else none) = block
    cases block with
    | none => rfl
    | some block =>
      dsimp only
      split_ifs <;> rfl

end

section
variable {crypto : Crypto} {startHeight : ℤ} {s : SyncState}

/-- With a negative start height, no run gets past its first question, for the hash below the genesis block. -/
structure NeverStarts (s : SyncState) : Prop where
  tip : s.idx.tipHeight = -1
  pc : (∃ ok, s.pc = .idle ok) ∨ ∃ nodeHeight, s.pc = .walk nodeHeight

theorem syncWalk_of_neg (hneg : startHeight < 0) (htip : s.idx.tipHeight = -1) (m : Moment) (nodeHeight : ℤ) :
    syncWalk startHeight m nodeHeight s = { s with pc := .idle false } := by
  have hnone : (if m.rpcOk then s.node.getBlockHash? (-1) else none) = none := by simp [Node.getBlockHash?]
  unfold syncWalk
  rw [htip, if_neg (by omega), hnone]

theorem NeverStarts.step (hneg : startHeight < 0) (h : NeverStarts s) (e : SyncEvent) :
    NeverStarts (syncStep crypto startHeight s e) := by
  cases e with
  | reorganise chain => exact ⟨h.tip, h.pc⟩
  | tick m =>
    unfold syncStep syncTick
    rcases h.pc with ⟨ok, hpc⟩ | ⟨nodeHeight, hpc⟩
    · simp only [hpc]
      split_ifs
      · exact ⟨h.tip, Or.inr ⟨_, rfl⟩⟩
      · exact ⟨h.tip, Or.inl ⟨_, rfl⟩⟩
    · simp only [hpc, syncWalk_of_neg hneg h.tip]
      exact ⟨h.tip, Or.inl ⟨_, rfl⟩⟩

theorem neverStarts_run (hneg : startHeight < 0) (reorgWindow : ℤ) (events : List SyncEvent) :
    NeverStarts (run (syncStep crypto startHeight) { idx := newIndex reorgWindow } events) := by
  have hall : Admissible (syncStep crypto startHeight) (fun _ _ => True) { idx := newIndex reorgWindow } events :=
    admissible_of_forall (fun _ _ => trivial) _
  refine run_invariant (P := fun _ s => NeverStarts s) ⟨rfl, Or.inl ⟨_, rfl⟩⟩ ?_ hall
  intro _ s e hs _
  exact hs.step hneg e

theorem syncTick_idle (hidle : ∃ ok, s.pc = .idle ok) :
    syncTick crypto startHeight s {} = { s with pc := .walk s.node.getBlockCount } := by
  obtain ⟨ok, hpc⟩ := hidle
  simp only [syncTick, hpc, if_true]

theorem returns_error_of_walk (hidle : ∃ ok, s.pc = .idle ok)
    (hwalk : syncTick crypto startHeight { s with pc := .walk s.node.getBlockCount } {} = { s with pc := .idle false })
    {fuel : ℕ} {t : SyncState} (hrun : syncOnce? crypto startHeight fuel s = some t) : t.pc = .idle false := by
  have hbegins : syncTick crypto startHeight s {} = _ := syncTick_idle hidle
  obtain - | - | fuel := fuel
  · simp [syncOnce?] at hrun
  · simp [syncOnce?, hbegins] at hrun
  · simp only [syncOnce?, hbegins, hwalk, Option.some.injEq] at hrun
    rw [← hrun]

theorem NeverStarts.returns_error (hneg : startHeight < 0) (h : NeverStarts s) (hidle : ∃ ok, s.pc = .idle ok) {fuel : ℕ}
    {t : SyncState} (hrun : syncOnce? crypto startHeight fuel s = some t) : t.pc = .idle false :=
  returns_error_of_walk hidle (syncWalk_of_neg (s := { s with pc := .walk s.node.getBlockCount }) hneg h.tip {} _) hrun

end

section
variable {crypto : Crypto} {ec : Btcec} {reorgWindow : ℤ} {startHeight : ℕ} {known : RPCBlock → Prop}
  {indexed : List RPCBlock} {s t : SyncState}

/-- When a call returns without error, the last of its steps found the node's whole chain indexed. -/
theorem SyncInv.syncOnce (hknown : ConsistentHashes known)
    (h : SyncInv crypto ec reorgWindow startHeight known indexed s) {fuel : ℕ}
    (hrun : syncOnce? crypto startHeight fuel s = some t) (hreturn : t.pc = .idle true) : t.node = s.node ∧
    Indexed crypto ec reorgWindow startHeight known (s.node.chain.drop startHeight) t.idx ∧
    (s.node.chain.drop startHeight ≠ [] → t.idx.store.heights.lookup t.idx.tipHeight ≠ none) := by
  induction fuel generalizing s indexed with
  | zero => simp [syncOnce?] at hrun
  | succ fuel ih =>
    have hnode := syncTick_node crypto startHeight s {}
    unfold syncOnce? at hrun
    dsimp only at hrun
    split at hrun
    · next ok hpc =>
      obtain rfl := Option.some.inj hrun
      have hbusy : ∀ ok, s.pc ≠ .idle ok := by
        intro ok' hidle
        simp [syncTick, hidle] at hpc
      obtain ⟨hidx, -, rfl, hrecorded⟩ := h.returned (e := .tick {}) hbusy hreturn
      rw [syncStep] at hidx
      rw [hidx]
      exact ⟨hnode, h.idx, hrecorded⟩
    · obtain ⟨indexed', hinv⟩ := h.step hknown (e := .tick {}) rfl
      rw [← hnode]
      exact ih hinv hrun

end

def sampleForked (b : RPCBlock) : Prop := b ∈ sampleMintBlock :: sampleBranch

theorem sampleForked_consistent : ConsistentHashes sampleForked := by
  have hnodup : ((sampleMintBlock :: sampleBranch).map RPCBlock.hash).Nodup := by decide +kernel
  exact fun b b' hb hb' => List.inj_on_of_nodup_map hnodup hb hb'

theorem sampleForked_mint_ok :
    NodeOk (Crypto.recorded []) (Btcec.recorded []) 15000 0 sampleForked [sampleGenesis, sampleMintBlock] := by
  refine ⟨?_, sampleNode_ok.linked, sampleNode_ok.numbered, sampleNode_ok.indexable⟩
  simp [sampleForked, sampleBranch]

theorem sampleBranch_ok : NodeOk (Crypto.recorded []) (Btcec.recorded []) 15000 0 sampleForked sampleBranch := by
  have hchain : SampleAdmissible (ChainEvent (Crypto.recorded [])) (sampleBranch.map .applyBlock) := by decide +kernel
  have hsound : SampleAdmissible (SoundEvent (Crypto.recorded [])) (sampleBranch.map .applyBlock) := by decide +kernel
  refine ⟨fun b hb => List.mem_cons_of_mem _ hb, ?_, ?_, hchain.and hsound⟩
  · rintro (- | - | - | i) b b' hb hb'
    all_goals simp [sampleBranch] at hb hb'
    all_goals rw [← hb, ← hb']; rfl
  · rintro (- | - | - | i) b hb
    all_goals simp [sampleBranch] at hb
    all_goals rw [← hb]; rfl

theorem sampleForked_steady : Admissible (syncStep (Crypto.recorded []) 0)
    (Steady (Crypto.recorded []) (Btcec.recorded []) 15000 (Int.toNat 0) sampleForked) { idx := newIndex 15000 }
    (sampleSync ++ [.tick {}]) :=
  ⟨⟨⟨false, rfl⟩, sampleForked_mint_ok⟩, rfl, rfl, rfl, rfl, rfl, rfl, rfl, trivial⟩

def sampleForkedState : SyncState :=
  syncStep (Crypto.recorded []) 0 (run (syncStep (Crypto.recorded []) 0) { idx := newIndex 15000 } (sampleSync ++ [.tick {}]))
    (.reorganise sampleBranch)

def sampleMixedChain : List RPCBlock :=
  [sampleGenesis,
    sampleBlock '1' 1 (sampleTxid '0') [sampleMultiplied 'b' [⟨sampleTxid 'e', 0, []⟩] 40 60],
    sampleBlock '2' 2 (sampleTxid '1') [sampleMultiplied 'c' [⟨sampleTxid 'e', 1, []⟩] 41 40]]

end Whippet.Indexer
