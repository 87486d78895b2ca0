import Whippet.Validation.Mining

/-! What the UAP rules keep true of every lineage along a chain that enforces them from its first block. -/
namespace Whippet.Validation
open Lib Primitives Script

/-- A spent mint output whose outpoint is the origin of the lineage. -/
structure SpentMint (crypto : Crypto) (txs : List (ℕ × CTransaction)) (key : UapLineage) (p : COutPoint)
    (out : CTxOut) : Prop where
  created : CreatedAt crypto txs p out
  mint : ∃ f, parseUapOutputScript? out.scriptPubKey = some f ∧ f.isMint = true ∧ f.multiplier = key.1
  origin : uapOriginFromOutpoint crypto p = key.2
  spent : SpentIn txs p

def HasPosition (view : CCoinsView) (key : UapLineage) : Prop :=
  ∃ q out v, view.output? q = some out ∧ transferPosition? out = some (key, v)

/-- A chain that starts without coins and enforces the UAP rules on every block it connects. -/
structure UapFromStart (node : Node) (s₀ : ChainState) : Prop where
  empty : s₀.coins = ∅
  active : (node.params.getConsensus 0).uapMintHeight ≤ s₀.nextHeight
  scripts : ∀ chain header, node.fScriptChecks chain header = true

/-- What holds of the coins after the transactions `hist`. -/
structure UapInvariant (crypto : Crypto) (hist : List (ℕ × CTransaction)) (view : CCoinsView) : Prop where
  stored : Stored crypto hist view
  lineages : (uapModel crypto).Lineages hist view.output?
  capped : (uapModel crypto).Capped (fun out => out.nValue.toInt) hist (fun key => supply key view)

section
variable {crypto : Crypto} {node : Node} {s₀ s s' : ChainState} {hist later : List (ℕ × CTransaction)}
  {view view' : CCoinsView} {chain : List CBlockIndex} {tx : CTransaction} {key : UapLineage} {p : COutPoint}
  {out : CTxOut} {block : CBlock} {blocks : List CBlock}

theorem rootsDistinct_of_collisionFree (h : CollisionFree crypto hist) : (uapModel crypto).RootsDistinct hist := by
  rintro k p o p' o' ⟨t, hmem, hc⟩ ⟨t', hmem', hc'⟩ hroot hroot'
  obtain ⟨f, hf⟩ := parse_of_belongs (Or.inl hroot)
  obtain ⟨f', hf'⟩ := parse_of_belongs (Or.inl hroot')
  have hkey := (isMint_of_root hf hroot).2
  have hkey' := (isMint_of_root hf' hroot').2
  apply h p p' o o' (createdAt_of_creates hmem hc) (createdAt_of_creates hmem' hc')
  exact (congrArg Prod.snd hkey).symm.trans (congrArg Prod.snd hkey')

theorem uapInvariant_empty : UapInvariant crypto [] ∅ where
  stored := by
    constructor
    · intro txid coins h
      simp at h
    · intro txid coins h
      simp at h
    · simp
  lineages := LineageModel.lineages_nil ledger_empty
  capped := fun _ _ _ hroot => absurd hroot LineageModel.not_spentRoot_nil

theorem UapInvariant.step (h : UapInvariant node.crypto hist view) (hfresh : Fresh node.crypto hist tx)
    (hcol : CollisionFree node.crypto hist) (hactive : uapMintActive node chain.length = true)
    (hc : Connected node chain true view tx view') :
    UapInvariant node.crypto (hist ++ [(chain.length, tx)]) view' ∧
      ∀ key p out, (uapModel node.crypto).SpentRoot hist key p out → supply key view' ≤ supply key view := by
  obtain ⟨undo, hupdate⟩ := hc.updated
  have hflags : (getBlockScriptFlags node chain).uapMint = true := hactive
  have hchecks := basicChecks_of_checkTransaction hc.checked
  have hcreation := hc.creation hactive
  have hconserves := conserves_of_checks hflags hcreation (hc.scripts rfl)
  have hadmissible := admissible_of_updates chain.length hfresh (updates_of_updateCoins? hupdate)
  have hview := output?_of_updates chain.length h.lineages.toLedger hfresh
    (updates_of_updateCoins? hupdate)
  have hmoves := moves_of_conserves hchecks h.stored hfresh hupdate hconserves
  have hroots := rootsDistinct_of_collisionFree hcol
  constructor
  · refine ⟨h.stored.step hchecks hupdate, ?_, h.capped.step h.lineages hroots hadmissible hmoves⟩
    rw [hview]
    exact h.lineages.step hadmissible (backed_of_creation hcreation)
      (admitted_of_scripts hflags (hc.scripts rfl)) (continued_of_conserves hchecks hconserves)
  · intro key p out hroot
    exact h.lineages.total_le hroots hmoves hroot

theorem UapFromStart.uapMintActive (h : UapFromStart node s₀) (hlen : s₀.nextHeight ≤ chain.length) :
    uapMintActive node chain.length = true := by
  have hactive := h.active
  simp only [Validation.uapMintActive, decide_eq_true_eq]
  omega

theorem uapInvariant_of_run (hstart : UapFromStart node s₀) (run : connectBlocks node s₀ blocks = .ok s)
    (hdistinct : DistinctTxids node.crypto (chainTxs node s₀.nextHeight blocks))
    (hcol : CollisionFree node.crypto (chainTxs node s₀.nextHeight blocks)) :
    UapInvariant node.crypto (chainTxs node s₀.nextHeight blocks) s.coins := by
  refine chain_run (P := fun hist view => DistinctTxids node.crypto hist → CollisionFree node.crypto hist →
    UapInvariant node.crypto hist view) run ?_ ?_ hdistinct hcol
  · intro _ _
    rw [hstart.empty]
    exact uapInvariant_empty
  · intro hist chain header tx view view' hlen hinv hconn hd hc
    rw [hstart.scripts] at hconn
    exact ((hinv hd.of_append hc.of_append).step hd.fresh hc.of_append (hstart.uapMintActive hlen) hconn).1

theorem supply_le_of_connect (hstart : UapFromStart node s₀) (hlen : s₀.nextHeight ≤ s.nextHeight)
    (hinv : UapInvariant node.crypto hist s.coins) (h : connect node s block = .ok s')
    (hdistinct : DistinctTxids node.crypto (hist ++ blockTxs node s.nextHeight block))
    (hcol : CollisionFree node.crypto (hist ++ blockTxs node s.nextHeight block))
    (hroot : (uapModel node.crypto).SpentRoot hist key p out) : supply key s'.coins ≤ supply key s.coins := by
  have hrun := connect_run (P := fun hist view => DistinctTxids node.crypto hist → CollisionFree node.crypto hist →
    UapInvariant node.crypto hist view ∧ (uapModel node.crypto).SpentRoot hist key p out ∧
      supply key view ≤ supply key s.coins) h (fun _ _ => ⟨hinv, hroot, le_refl _⟩) ?_ hdistinct hcol
  · exact hrun.2.2
  · intro hist tx view view' hP hconn hd hc
    obtain ⟨hinv, hroot, hle⟩ := hP hd.of_append hc.of_append
    rw [hstart.scripts] at hconn
    obtain ⟨hinv', hkept⟩ := hinv.step hd.fresh hc.of_append (hstart.uapMintActive hlen) hconn
    exact ⟨hinv', hroot.mono _, (hkept key p out hroot).trans hle⟩

theorem SpentMint.of_spentRoot (h : (uapModel crypto).SpentRoot hist key p out) : SpentMint crypto hist key p out := by
  obtain ⟨f, hf⟩ := parse_of_belongs (Or.inl h.root)
  obtain ⟨hmint, rfl⟩ := isMint_of_root hf h.root
  obtain ⟨t, hmem, hc⟩ := h.created
  exact ⟨createdAt_of_creates hmem hc, ⟨f, hf, hmint, rfl⟩, rfl, h.spent⟩

theorem SpentMint.spentRoot (h : SpentMint crypto hist key p out) (hd : DistinctTxids crypto hist)
    (hl : (uapModel crypto).Ledger hist view.output?) : (uapModel crypto).SpentRoot hist key p out := by
  obtain ⟨t, hmem, htxid, hout⟩ := h.created
  obtain ⟨t', hmem', hspent⟩ := h.spent
  obtain ⟨t'', hmem'', o, hc⟩ := hl.known t' hmem' p hspent
  obtain rfl : t'' = t := hd.eq_of_txid hmem'' hmem ((txid_of_creates hc).symm.trans htxid)
  obtain rfl : o = out := Option.some.inj ((mem_vout_of_creates hc).symm.trans hout)
  obtain ⟨f, hf, hmint, hmult⟩ := h.mint
  refine ⟨?_, ⟨t'', hmem, hc⟩, ⟨t', hmem', hspent⟩⟩
  simp only [uapModel, mintLineage?, hf, Option.bind_eq_bind, Option.bind_some, hmint, if_true, hmult, h.origin]

theorem connectBlocks_take (run : connectBlocks node s₀ blocks = .ok s) (n : ℕ) :
    ∃ sₙ, connectBlocks node s₀ (blocks.take n) = .ok sₙ := by
  rw [← List.take_append_drop n blocks, connectBlocks, List.foldlM_append, bind_eq_ok] at run
  obtain ⟨sₙ, hrun, -⟩ := run
  exact ⟨sₙ, hrun⟩

theorem chainTxs_take_append (node : Node) (nHeight : ℕ) (blocks : List CBlock) (n : ℕ) :
    ∃ later, chainTxs node nHeight blocks = chainTxs node nHeight (blocks.take n) ++ later := by
  refine ⟨chainTxs node (nHeight + (blocks.take n).length) (blocks.drop n), ?_⟩
  rw [← chainTxs_append, List.take_append_drop]

theorem UapInvariant.value_nonneg (h : UapInvariant crypto hist view) {q : COutPoint} (hq : view.output? q = some out) :
    0 ≤ out.nValue.toInt := by
  obtain ⟨t, hmem, hc⟩ := h.lineages.created q out hq
  exact (h.stored.checks t hmem).value_nonneg out (List.mem_of_getElem? (mem_vout_of_creates hc))

/-- A position is worth at most its lineage's mint, which met the bound when it was spent. -/
theorem UapInvariant.virtualBalance_le (h : UapInvariant crypto hist view) {q : COutPoint} {f : UapOutput}
    (hq : view.output? q = some out) (hf : parseUapOutputScript? out.scriptPubKey = some f)
    (hm : f.isMint = false) : out.nValue.toInt / coin * f.multiplier ≤ 2 ^ 48 := by
  have hpos : transferPosition? out = some ((f.multiplier, f.origin), out.nValue.toInt) := by
    simp [transferPosition?_of_parse hf, hm]
  obtain ⟨t, hmem, hc⟩ := h.lineages.created q out hq
  obtain ⟨p, mint, hroot⟩ := h.lineages.backed t hmem q out _ hc (holds_eq_some.mpr ⟨_, hpos⟩)
  obtain ⟨fm, hfm⟩ := parse_of_belongs (Or.inl hroot.root)
  have hmult : f.multiplier = fm.multiplier := congrArg Prod.fst (isMint_of_root hfm hroot.root).2
  have hle : out.nValue.toInt ≤ mint.nValue.toInt :=
    (le_supply h.stored.addressable (fun _ _ => h.value_nonneg) hq hpos).trans (h.capped _ p mint hroot)
  calc out.nValue.toInt / coin * f.multiplier
      ≤ mint.nValue.toInt / coin * f.multiplier :=
        mul_le_mul_of_nonneg_right (Int.ediv_le_ediv (by decide) hle) (wellFormed_of_parse hf).multiplier_nonneg
    _ ≤ 2 ^ 48 := by
        rw [hmult]
        exact (h.lineages.admitted _ p mint hroot).2 fm hfm

theorem uapInvariant_take (hstart : UapFromStart node s₀) {n : ℕ}
    (run : connectBlocks node s₀ (blocks.take n) = .ok s)
    (hdistinct : DistinctTxids node.crypto (chainTxs node s₀.nextHeight blocks))
    (hcol : CollisionFree node.crypto (chainTxs node s₀.nextHeight blocks)) :
    DistinctTxids node.crypto (chainTxs node s₀.nextHeight (blocks.take n)) ∧
      UapInvariant node.crypto (chainTxs node s₀.nextHeight (blocks.take n)) s.coins := by
  obtain ⟨later, hlater⟩ := chainTxs_take_append node s₀.nextHeight blocks n
  rw [hlater] at hdistinct hcol
  exact ⟨hdistinct.of_append, uapInvariant_of_run hstart run hdistinct.of_append hcol.of_append⟩

end

/-- The unspent supply of a lineage never exceeds the one mint output it comes from, and does not grow
after the block that spends the mint. -/
theorem lineage_supply_capped (node : Node) (s₀ s : ChainState) (blocks : List CBlock)
    (hstart : UapFromStart node s₀) (hrun : connectBlocks node s₀ blocks = .ok s)
    (hdistinct : DistinctTxids node.crypto (chainTxs node s₀.nextHeight blocks))
    (hcol : CollisionFree node.crypto (chainTxs node s₀.nextHeight blocks)) :
    ∀ n ≤ blocks.length, ∃ sₙ, connectBlocks node s₀ (blocks.take n) = .ok sₙ ∧
      (∀ key, HasPosition sₙ.coins key → ∃ p out,
        SpentMint node.crypto (chainTxs node s₀.nextHeight (blocks.take n)) key p out ∧
        1000 * coin ≤ out.nValue.toInt ∧
        (∀ q out', CreatedAt node.crypto (chainTxs node s₀.nextHeight blocks) q out' →
          uapOriginFromOutpoint node.crypto q = key.2 → q = p) ∧
        supply key sₙ.coins ≤ out.nValue.toInt) ∧
      (∀ key p out, SpentMint node.crypto (chainTxs node s₀.nextHeight (blocks.take n)) key p out →
        ∀ sₙ', connectBlocks node s₀ (blocks.take (n + 1)) = .ok sₙ' → supply key sₙ'.coins ≤ supply key sₙ.coins) := by
  intro n hn
  obtain ⟨sₙ, hrunₙ⟩ := connectBlocks_take hrun n
  obtain ⟨hdistinctₙ, hinv⟩ := uapInvariant_take hstart hrunₙ hdistinct hcol
  refine ⟨sₙ, hrunₙ, ?_, ?_⟩
  · rintro key ⟨q, out, v, hq, hpos⟩
    obtain ⟨t, hmem, hc⟩ := hinv.lineages.created q out hq
    obtain ⟨p, out', hroot⟩ := hinv.lineages.backed t hmem q out key hc (holds_eq_some.mpr ⟨v, hpos⟩)
    have hmint := SpentMint.of_spentRoot hroot
    refine ⟨p, out', hmint, (hinv.lineages.admitted key p out' hroot).1, ?_, hinv.capped key p out' hroot⟩
    intro r out'' hcreated horigin
    obtain ⟨later, hlater⟩ := chainTxs_take_append node s₀.nextHeight blocks n
    exact hcol r p out'' out' hcreated (hlater ▸ hmint.created.mono) (horigin.trans hmint.origin.symm)
  · intro key p out hmint sₙ' hrunₙ'
    have hroot := hmint.spentRoot hdistinctₙ hinv.lineages.toLedger
    rcases lt_or_eq_of_le hn with hlt | heq
    · -- the next block is connected on top of the first `n`
      have hsplit : blocks.take (n + 1) = blocks.take n ++ [blocks[n]] := (List.take_append_getElem hlt).symm
      have hheight := nextHeight_of_connectBlocks hrunₙ
      rw [hsplit, connectBlocks, List.foldlM_append, bind_eq_ok] at hrunₙ'
      obtain ⟨t, ht, hstep⟩ := hrunₙ'
      obtain rfl : t = sₙ := Except.ok.inj (ht.symm.trans hrunₙ)
      have hconnect : connect node t blocks[n] = .ok sₙ' := by simpa using hstep
      have hnext : chainTxs node s₀.nextHeight (blocks.take (n + 1)) =
          chainTxs node s₀.nextHeight (blocks.take n) ++ blockTxs node t.nextHeight blocks[n] := by
        rw [hsplit, chainTxs_append, chainTxs, chainTxs, List.append_nil, ← hheight]
      obtain ⟨later, hlater⟩ := chainTxs_take_append node s₀.nextHeight blocks (n + 1)
      rw [hlater, hnext] at hdistinct hcol
      exact supply_le_of_connect hstart (by omega) hinv hconnect hdistinct.of_append hcol.of_append hroot
    · have hall : blocks.take (n + 1) = blocks.take n := by
        rw [List.take_of_length_le (by omega), List.take_of_length_le (by omega)]
      rw [hall] at hrunₙ'
      obtain rfl : sₙ = sₙ' := Except.ok.inj (hrunₙ.symm.trans hrunₙ')
      exact le_refl _

theorem uapFromStart_regTest (signatures : List (Bytes × Bytes × Bytes)) :
    UapFromStart (regTestNode signatures 0) ⟨[], ∅⟩ :=
  ⟨rfl, Nat.zero_le _, fun _ _ => rfl⟩

theorem lineage_supply_capped_run : ∃ s,
    connectBlocks (regTestNode runSignatures 0) ⟨[], ∅⟩ (runBlocks ++ [runSpendBlock]) = .ok s ∧
      HasPosition s.coins runLineage ∧
      ∃ p out, SpentMint runCrypto (chainTxs (regTestNode runSignatures 0) 0 (runBlocks ++ [runSpendBlock])) runLineage p out ∧
        1000 * coin ≤ out.nValue.toInt ∧ supply runLineage s.coins ≤ out.nValue.toInt := by
  obtain ⟨s, haccept, hposition⟩ := acceptBlocks_spend
  have hrun := connectBlocks_of_acceptBlocks haccept
  have hsub := chainTxs_spend_sublist 0
  have hcap := lineage_supply_capped (regTestNode runSignatures 0) ⟨[], ∅⟩ s (runBlocks ++ [runSpendBlock])
    (uapFromStart_regTest runSignatures) hrun (runTxs_distinct.sublist hsub) (runTxs_collisionFree.subset (hsub.map _).subset)
    (runBlocks ++ [runSpendBlock]).length (le_refl _)
  rw [List.take_length] at hcap
  obtain ⟨s', hrun', hlineages, -⟩ := hcap
  obtain rfl : s' = s := Except.ok.inj (hrun'.symm.trans hrun)
  have hkey : transferPosition? runPosition = some (runLineage, 1000 * coin) := by decide +kernel
  have hhas : HasPosition s'.coins runLineage := ⟨_, runPosition, _, hposition, hkey⟩
  obtain ⟨p, out, hmint, hfee, -, hsupply⟩ := hlineages runLineage hhas
  exact ⟨s', hrun, hhas, p, out, hmint, hfee, hsupply⟩

/-- The lineage of a spent mint keeps an unspent position, and no position grows past the bound at which
spending it is refused. -/
theorem lineage_never_stranded (node : Node) (s₀ s : ChainState) (blocks : List CBlock)
    (hstart : UapFromStart node s₀) (hrun : connectBlocks node s₀ blocks = .ok s)
    (hdistinct : DistinctTxids node.crypto (chainTxs node s₀.nextHeight blocks))
    (hcol : CollisionFree node.crypto (chainTxs node s₀.nextHeight blocks)) :
    ∀ n ≤ blocks.length, ∃ sₙ, connectBlocks node s₀ (blocks.take n) = .ok sₙ ∧
      (∀ key p out, SpentMint node.crypto (chainTxs node s₀.nextHeight (blocks.take n)) key p out →
        HasPosition sₙ.coins key) ∧
      (∀ q out f, sₙ.coins.output? q = some out → parseUapOutputScript? out.scriptPubKey = some f →
        f.isMint = false →
        out.nValue.toInt / coin * f.multiplier ≤ 2 ^ 48 ∧
        ∀ (checker : TransactionSignatureChecker) (sigversion : SigVersion) (scriptCode sig : Bytes),
          checker.amount = out.nValue →
          ∀ e, e = ScriptError.uapMultiplierRange ∨ e = ScriptError.uapVirtualBalanceBound →
            checkCovenant node.crypto checker sigversion false scriptCode sig f.pubkey f.multiplier f.origin ≠
              .error e) := by
  intro n _
  obtain ⟨sₙ, hrunₙ⟩ := connectBlocks_take hrun n
  obtain ⟨hdistinctₙ, hinv⟩ := uapInvariant_take hstart hrunₙ hdistinct hcol
  refine ⟨sₙ, hrunₙ, ?_, ?_⟩
  · intro key p out hmint
    obtain ⟨q, out', hq, hhold⟩ :=
      hinv.lineages.alive key p out (hmint.spentRoot hdistinctₙ hinv.lineages.toLedger)
    obtain ⟨v, hv⟩ := holds_eq_some.mp hhold
    exact ⟨q, out', v, hq, hv⟩
  · intro q out f hq hf hm
    have hbound := hinv.virtualBalance_le hq hf hm
    refine ⟨hbound, ?_⟩
    intro checker sigversion scriptCode sig hamount e he
    exact checkCovenant_not_refused (wellFormed_of_parse hf) (by rwa [hamount]) sigversion scriptCode sig he

theorem lineage_never_stranded_run : ∃ s,
    connectBlocks (regTestNode runSignatures 0) ⟨[], ∅⟩ (runBlocks ++ [runSpendBlock]) = .ok s ∧
      (∀ key p out, SpentMint runCrypto (chainTxs (regTestNode runSignatures 0) 0 (runBlocks ++ [runSpendBlock])) key p out →
        HasPosition s.coins key) ∧
      s.coins.output? ⟨runCrypto.txid runMintSpend, 0⟩ = some runPosition ∧
      runPosition.nValue.toInt / coin * runLineage.1 ≤ 2 ^ 48 := by
  obtain ⟨s, haccept, hposition⟩ := acceptBlocks_spend
  have hrun := connectBlocks_of_acceptBlocks haccept
  have hsub := chainTxs_spend_sublist 0
  have hnever := lineage_never_stranded (regTestNode runSignatures 0) ⟨[], ∅⟩ s (runBlocks ++ [runSpendBlock])
    (uapFromStart_regTest runSignatures) hrun (runTxs_distinct.sublist hsub) (runTxs_collisionFree.subset (hsub.map _).subset)
    (runBlocks ++ [runSpendBlock]).length (le_refl _)
  rw [List.take_length] at hnever
  obtain ⟨s', hrun', halive, hbound⟩ := hnever
  obtain rfl : s' = s := Except.ok.inj (hrun'.symm.trans hrun)
  have hparse : parseUapOutputScript? runPosition.scriptPubKey = some ⟨mintKey, 5, runLineage.2, false⟩ := by
    decide +kernel
  exact ⟨s', hrun, halive, hposition, (hbound _ _ _ hposition hparse rfl).1⟩

end Whippet.Validation
