/-
# Crashes and restarts

However the handlers interleave, and whenever the node is restarted or fails to save, its chain and
the one on disk are valid chains of the network it was set up for.  So every restart comes up with the
saved chain, and saving before a restart loses nothing: the final height is recomputed.
-/
import Mathlib.Tactic
import Hikmalayer.Node.Sync
import Hikmalayer.Node.Boot

open Outcome Blockchain NodeState

/-! ## Healthy chains -/

/-- A valid chain of the network and root of another one, with a final height between its root and
its tip. -/
structure Blockchain.Healthy (E : Node) (start chain : Blockchain) : Prop where
  grounded : Grounded E start chain
  settled : Settled chain
  fits : chain.blocks.length < 2 ^ 63

namespace Blockchain

variable {E : Node} {start chain chain' mid remote : Blockchain} {now : DateTime} {depth : UInt64}

/-- An accepted block leaves the final height, which stays below the tip. -/
theorem Settled.accept {block : Block} (hs : Settled chain) (hlen : chain.blocks.length < 2 ^ 63)
    (h : Blockchain.accept E now chain block = ok mid) : Settled mid := by
  rw [Blockchain.accept, Outcome.bind_eq_ok] at h
  obtain ⟨post, -, hcommit⟩ := h
  obtain ⟨index, difficulty, hindex, hretarget, rfl⟩ := (commitBlock_eq_ok (by omega)).mp hcommit
  have hroom := retarget_room hretarget
  rw [Word.checkedAdd_eq_some, Word.toNat_ofNat_of_lt (by omega)] at hindex
  have hne : (chain.extended block ⟨post,
      Vrf.nextRandomness E chain.randomness (block.vrfOutput.getD ""), difficulty⟩).blocks ≠ [] :=
    List.append_ne_nil_of_left_ne_nil hs.nonempty _
  have hlength : (chain.blocks ++ [block]).length = chain.blocks.length + 1 := by
    rw [List.length_append, List.length_singleton]
  obtain ⟨tip, htip, hbase, hfinal⟩ := hs.tip
  have htip := tipIndex_eq_ok htip
  rw [tipHeight_of_lt (by omega)] at htip
  refine ⟨hne, _, tipIndex_of_lt hne ?_, hbase, ?_⟩
  · show chain.baseHeight.toNat + (chain.blocks ++ [block]).length < 2 ^ 64
    omega
  · rw [UInt64.le_iff_toNat_le] at hfinal ⊢
    show _ ≤ (UInt64.ofNat (chain.baseHeight.toNat + (chain.blocks ++ [block]).length - 1)).toNat
    rw [hlength, Word.toNat_ofNat_of_lt (by omega)]
    show chain.finalizedHeight.toNat ≤ _
    omega

theorem Settled.acceptAll {arrivals : List (DateTime × Block)} : ∀ {chain : Blockchain},
    Settled chain → Blockchain.acceptAll E chain arrivals = ok mid → mid.blocks.length < 2 ^ 63 →
      Settled mid := by
  induction arrivals with
  | nil =>
    intro chain hs h _
    rw [Blockchain.acceptAll, ok.injEq] at h
    exact h ▸ hs
  | cons arrival rest ih =>
    intro chain hs h hlen
    rw [Blockchain.acceptAll, Outcome.bind_eq_ok] at h
    obtain ⟨next, haccept, hall⟩ := h
    have hlength := congrArg List.length (acceptAll_fields hall).1
    rw [List.length_append, accept_blocks haccept, List.length_append] at hlength
    exact ih (hs.accept (by omega) haccept) hall hlen

/-- Finality moves the final height only. -/
theorem Healthy.of_applyFinality (hmid : Grounded E start mid) (hlen : mid.blocks.length < 2 ^ 63)
    (hfinal : (mid.applyFinality depth : Outcome String Blockchain) = ok chain) :
    Healthy E start chain := by
  refine ⟨?_, settled_applyFinality hmid.derived.blocks_ne_nil hlen hfinal, ?_⟩
  · rw [applyFinality_fields hfinal]
    exact ⟨hmid.derived, hmid.network, hmid.root⟩
  · rw [applyFinality_blocks hfinal]
    exact hlen

/-- Accepted blocks keep the root and the network. -/
theorem Healthy.acceptAll {arrivals : List (DateTime × Block)} (h : Healthy E start chain)
    (hall : Blockchain.acceptAll E chain arrivals = ok mid) (hlen : mid.blocks.length < 2 ^ 63) :
    Grounded E start mid := by
  obtain ⟨hblocks, hfields⟩ := acceptAll_fields hall
  have hnetwork : mid.network = chain.network := by
    rw [hfields]
    rfl
  refine ⟨h.grounded.derived.acceptAll hall hlen, hnetwork.trans h.grounded.network, ?_⟩
  rw [hblocks, List.head?_append_of_ne_nil _ h.settled.nonempty]
  exact h.grounded.root

theorem Healthy.appendFinal {block : Block} (h : Healthy E start chain)
    (happend : Blockchain.appendFinal E now depth chain block = ok chain') :
    Healthy E start chain' := by
  obtain ⟨mid, haccept, hlen, hfinal⟩ := appendFinal_eq_ok.mp happend
  have hall : Blockchain.acceptAll E chain [(now, block)] = ok mid := by
    rw [Blockchain.acceptAll, haccept]
    rfl
  exact .of_applyFinality (h.acceptAll hall hlen) hlen hfinal

theorem Healthy.adoptFinal (h : Healthy E start chain)
    (hadopt : Blockchain.adoptFinal E now depth chain remote = ok (some chain')) :
    Healthy E start chain' := by
  obtain ⟨mid, htry, hlen, hfinal⟩ := Sync.adoptFinal_eq_some.mp hadopt
  have hadopted := tryAdoptChain_true htry
  have hnetwork : mid.network = chain.network := by
    rw [hadopted.own]
    rfl
  exact .of_applyFinality ⟨hadopted.derived, hnetwork.trans h.grounded.network,
    hadopted.root.trans h.grounded.root⟩ hlen hfinal

/-- What the server appends, the syncer does when no time passes within the batch. -/
theorem applyBatch_of_appendAll {blocks : List Block} : ∀ {chain : Blockchain}
    {accepted accepted' : List Block} {diverged : Bool},
    appendAll E now accepted chain blocks = ok (mid, accepted', diverged) →
      Sync.applyBatch E (fun _ => now) chain accepted blocks =
        (mid, accepted', if diverged then .diverged else .served) := by
  induction blocks with
  | nil =>
    intro chain accepted accepted' diverged h
    simp only [appendAll, ok.injEq, Prod.mk.injEq] at h
    obtain ⟨rfl, rfl, rfl⟩ := h
    rfl
  | cons block rest ih =>
    intro chain accepted accepted' diverged h
    rw [appendAll] at h
    rw [Sync.applyBatch]
    -- Both loops look at the same append.
    cases happend : append E now chain block with
    | ok chain' =>
      simp only [happend] at h ⊢
      exact ih h
    | err e =>
      simp only [happend, ok.injEq, Prod.mk.injEq] at h
      obtain ⟨rfl, rfl, rfl⟩ := h
      simp only [if_true]
    | panicked =>
      simp only [happend, reduceCtorEq] at h

/-- What was saved of a healthy chain is rebuilt. -/
theorem Healthy.rebuildState (h : Healthy E start chain) :
    Blockchain.rebuildState E chain.persisted = ok chain := by
  have hfull : validateFull E chain.persisted =
      ok ⟨chain.state, chain.randomness, chain.currentDifficulty⟩ := h.grounded.derived
  unfold Blockchain.rebuildState
  rw [hfull]
  rfl

end Blockchain

namespace Settings

variable {cfg : Settings} {i : Surroundings} {a : ServerAction} {s t : AppState}
  {Allowed : ServerConfig → ServerEvent → Prop} {c : ServerConfig}

/-! ## The invariant -/

/-- What is on disk was saved of a healthy chain. -/
def Saved (cfg : Settings) (disk : Option AppSnapshot) : Prop :=
  ∀ saved, disk = some saved → ∃ chain, Healthy cfg.node cfg.initialChain chain ∧
    saved.chain = chain.persisted

/-- The chain of the node is healthy, and so is the one on disk. -/
structure Sound (cfg : Settings) (s : AppState) : Prop where
  chain : Healthy cfg.node cfg.initialChain s.chain
  disk : Saved cfg s.disk

/-- Every action keeps both. -/
theorem Sound.effect (hs : Sound cfg s) (h : Effect cfg i s a t) : Sound cfg t := by
  obtain ⟨hchain, hdisk⟩ := hs
  cases h with
  | saved =>
    refine ⟨hchain, fun saved hsaved => ⟨s.chain, hchain, ?_⟩⟩
    rw [← Option.some.inj hsaved]
    rfl
  | appended a block depth chain happend => exact ⟨hchain.appendFinal happend, hdisk⟩
  | mined key plan built block depth chain pending hfinish hheld =>
    obtain ⟨mid, -, -, haccept, hfinal, -⟩ := finishMine_eq_ok hfinish
    have hlen : mid.blocks.length < 2 ^ 63 := by
      rw [← applyFinality_blocks hfinal]
      exact hheld
    exact ⟨hchain.appendFinal (appendFinal_eq_ok.mpr ⟨mid, haccept, hlen, hfinal⟩), hdisk⟩
  | fetched a blocks accepted appended chain depth diverged happend hfinal =>
    obtain ⟨arrivals, -, hall, hfits⟩ := Sync.applyBatch_accepted (applyBatch_of_appendAll happend)
    refine ⟨?_, hdisk⟩
    by_cases hne : arrivals = []
    · rw [hne, acceptAll, ok.injEq] at hall
      subst hall
      rcases hfinal with rfl | hfinal
      · exact hchain
      · exact .of_applyFinality hchain.grounded hchain.fits hfinal
    · have hgrounded := hchain.acceptAll hall (hfits hne)
      rcases hfinal with rfl | hfinal
      · exact ⟨hgrounded, hchain.settled.acceptAll hall (hfits hne), hfits hne⟩
      · exact .of_applyFinality hgrounded (hfits hne) hfinal
  | adopted a remote chain depth hadopt => exact ⟨hchain.adoptFinal hadopt, hdisk⟩
  | _ => exact ⟨hchain, hdisk⟩

/-! ## Starting -/

/-- The node comes up from a disk with this chain, finality recomputed, and with all else that is on
the disk. -/
structure Restored (cfg : Settings) (disk : Option AppSnapshot) (chain : Blockchain) (s : AppState) :
    Prop where
  rebuilt : s.chain = { chain with finalizedHeight := s.chain.finalizedHeight }
  final : (chain.applyFinality ((disk.map AppSnapshot.finalityDepth).getD cfg.defaultDepth) :
    Outcome String Blockchain) = ok s.chain
  pool : s.pendingTransactions = (disk.map AppSnapshot.pendingTransactions).getD []
  depth : s.finalityDepth = (disk.map AppSnapshot.finalityDepth).getD cfg.defaultDepth
  peers : s.peers = addPeers ((disk.map AppSnapshot.peers).getD []) cfg.bootnodes
  disk : s.disk = disk

theorem boot_rebuilt {disk : Option AppSnapshot} {chain : Blockchain}
    (h : Healthy cfg.node cfg.initialChain chain) (hrebuild : Blockchain.rebuildState cfg.node
      ((disk.map AppSnapshot.chain).getD cfg.initialChain) = ok chain) :
    ∃ s, cfg.boot disk = some s ∧ Restored cfg disk chain s := by
  obtain ⟨_, htip, -⟩ := h.settled.tip
  obtain ⟨final, hfinal⟩ := Sync.applyFinality_returns htip
    ((disk.map AppSnapshot.finalityDepth).getD cfg.defaultDepth)
  have hboot : cfg.boot disk = some
      { chain := final
        pendingTransactions := (disk.map AppSnapshot.pendingTransactions).getD []
        peers := addPeers ((disk.map AppSnapshot.peers).getD []) cfg.bootnodes
        finalityDepth := (disk.map AppSnapshot.finalityDepth).getD cfg.defaultDepth
        seenMessages := .new seenCapacity
        peerBook := .withAllowList cfg.allowList
        disk := disk } := by
    unfold boot bootChain
    rw [hrebuild]
    simp only [Option.bind_eq_bind, Option.bind_some, hfinal]
    rfl
  exact ⟨_, hboot, applyFinality_fields hfinal, hfinal, rfl, rfl, rfl, rfl⟩

/-- A snapshot of a healthy chain restores it. -/
theorem boot_snapshot {saved : AppSnapshot} {chain : Blockchain}
    (h : Healthy cfg.node cfg.initialChain chain) (hsaved : saved.chain = chain.persisted) :
    ∃ s, cfg.boot (some saved) = some s ∧ Restored cfg (some saved) chain s := by
  refine boot_rebuilt h ?_
  show Blockchain.rebuildState cfg.node saved.chain = ok chain
  rw [hsaved]
  exact h.rebuildState

/-- A disk with a snapshot of a healthy chain, or none, restores a healthy chain. -/
theorem Saved.boots {disk : Option AppSnapshot} (hdisk : Saved cfg disk)
    (hinitial : Healthy cfg.node cfg.initialChain cfg.initialChain) :
    ∃ chain s, Healthy cfg.node cfg.initialChain chain ∧
      (∀ saved, disk = some saved → saved.chain = chain.persisted) ∧
      cfg.boot disk = some s ∧ Restored cfg disk chain s := by
  cases disk with
  | none =>
    obtain ⟨s, hboot, hrestored⟩ := @boot_rebuilt cfg none _ hinitial
      hinitial.grounded.derived.rebuildState
    refine ⟨cfg.initialChain, s, hinitial, fun saved hsaved => ?_, hboot, hrestored⟩
    cases hsaved
  | some saved =>
    obtain ⟨chain, hchain, hsaved⟩ := hdisk saved rfl
    obtain ⟨s, hboot, hrestored⟩ := boot_snapshot hchain hsaved
    refine ⟨chain, s, hchain, fun saved' hsaved' => ?_, hboot, hrestored⟩
    rw [← Option.some.inj hsaved']
    exact hsaved

/-- The node comes up healthy. -/
theorem Saved.sound {disk : Option AppSnapshot} (hdisk : Saved cfg disk)
    (hinitial : Healthy cfg.node cfg.initialChain cfg.initialChain) (hboot : cfg.boot disk = some s) :
    Sound cfg s := by
  obtain ⟨chain, s', hchain, -, hboot', hrestored⟩ := hdisk.boots hinitial
  rw [hboot, Option.some.injEq] at hboot'
  subst hboot'
  refine ⟨.of_applyFinality hchain.grounded hchain.fits hrestored.final, ?_⟩
  rw [hrestored.disk]
  exact hdisk

/-! ## Runs -/

/-- Whatever happens to the node, restarts included, it stays healthy. -/
theorem Runs.sound {start : ServerConfig}
    (hinitial : Healthy cfg.node cfg.initialChain cfg.initialChain) (hstart : Sound cfg start.state)
    (h : cfg.Runs Allowed start c) : Sound cfg c.state := by
  refine h.invariant (P := fun c => Sound cfg c.state) hstart fun c c' e _ ih _ hstep => ?_
  rcases System.step_cases hstep with ⟨_, -, rfl⟩ | ⟨_, i, a, _, turn, -, -, hrun, rfl⟩ |
    ⟨state, -, hrestart, rfl⟩
  · exact ih
  · exact ih.effect (run_effect hrun)
  · exact ih.disk.sound hinitial hrestart

/-- In every run the chain is valid and settled, a restart comes up with the chain that is on disk,
and a restart after a save with the chain that the node has, up to the final height, which is
recomputed, and with its pool, depth and peers. -/
theorem restart_lossless {disk : Option AppSnapshot} {state : AppState}
    (hinitial : Healthy cfg.node cfg.initialChain cfg.initialChain) (hdisk : Saved cfg disk)
    (hboot : cfg.boot disk = some state) (h : cfg.Runs Allowed ⟨state, [], [], []⟩ c) :
    Healthy cfg.node cfg.initialChain c.state.chain ∧
      (∃ chain s, Healthy cfg.node cfg.initialChain chain ∧
        (∀ saved, c.state.disk = some saved → saved.chain = chain.persisted) ∧
        cfg.boot c.state.disk = some s ∧ Restored cfg c.state.disk chain s) ∧
      ∃ s, cfg.boot (some c.state.snapshot) = some s ∧
        Restored cfg (some c.state.snapshot) c.state.chain s := by
  have hsound := h.sound hinitial (hdisk.sound hinitial hboot)
  exact ⟨hsound.chain, hsound.disk.boots hinitial, boot_snapshot hsound.chain rfl⟩

end Settings

/-! ## A toy node -/

/-- The toy node is set up with a healthy chain. -/
theorem Sample.initial_healthy (pool : List Transaction) :
    Healthy (settings pool).node (settings pool).initialChain (settings pool).initialChain := by
  have hrooted : Rooted (node pool) (root pool 1000000000000000000) :=
    .genesis (E := node pool) newWithGenesisOnChain_root
  exact ⟨.refl hrooted.derived, hrooted.settled, by show 1 < 2 ^ 63; norm_num⟩

/-- The toy node comes back from a snapshot of its first state. -/
theorem Settings.restart_lossless_sample :
    ∃ s, (Sample.settings []).boot (some (Sample.firstState []).snapshot) = some s ∧
      (Sample.settings []).Restored (some (Sample.firstState []).snapshot)
        (Sample.firstState []).chain s :=
  (@restart_lossless _ Unrestricted _ _ _ (Sample.initial_healthy [])
    (fun _ h => absurd h (Option.some_ne_none _).symm) (Sample.boot_settings []) .start).2.2
