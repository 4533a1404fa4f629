/-
# Incremental execution and replay

A chain that a node has built, block by block and by adopting other chains, is its own
replay, from the root it started with.  A fresh node with the same genesis that pulls the
blocks range by range comes to the same tip and the same derived fields.
-/
import Mathlib.Tactic
import Hikmalayer.Consensus.Finality
import Hikmalayer.Consensus.Header

open Outcome

namespace Blockchain

variable {E : Node} {start chain chain' candidate : Blockchain} {now now' : DateTime.Reading}

/-! ## Built chains -/

/-- The network parameters and the checkpoint of a chain. -/
def network (chain : Blockchain) : Blockchain :=
  { chain with
    blocks := []
    finalizedHeight := 0
    state := .empty
    randomness := ""
    currentDifficulty := 0 }

theorem baseHeight_of_network {chain chain' : Blockchain} (h : chain.network = chain'.network) :
    chain.baseHeight = chain'.baseHeight := by
  have hsame : chain.network.baseHeight = chain'.network.baseHeight := by rw [h]
  exact hsame

/-- A chain that a node has built by some time, from the chain it started with.  A vector
holds fewer than `2 ^ 63` blocks. -/
inductive Built (E : Node) (start : Blockchain) : DateTime.Reading → Blockchain → Prop
  | start (now : DateTime.Reading) : Built E start now start
  | wait {now now' : DateTime.Reading} {chain : Blockchain} (h : Built E start now chain)
      (hlater : ¬ now'.time.before now.time) : Built E start now' chain
  | commit {now : DateTime.Reading} {chain chain' : Blockchain} {block : Block}
      (h : Built E start now chain) (haccept : accept E now.time chain block = ok chain')
      (fits : chain'.blocks.length < 2 ^ 63) : Built E start now chain'
  | adopt {now : DateTime.Reading} {chain candidate chain' : Blockchain}
      (h : Built E start now chain)
      (hadopt : tryAdopt E candidate now.time chain = ok (true, chain'))
      (fits : chain'.blocks.length < 2 ^ 63) : Built E start now chain'
  | settle {now : DateTime.Reading} {chain chain' : Blockchain} {depth : UInt64}
      (h : Built E start now chain)
      (hfinal : (chain.applyFinality depth : Outcome String Blockchain) = ok chain') :
      Built E start now chain'

/-- No block past the root is too far in the future. -/
def Timely (now : DateTime.Reading) (chain : Blockchain) : Prop :=
  ∀ tip, chain.blocks.tail.getLast? = some tip →
    ¬ (now.time.addSeconds maxTimestampSkewSeconds).before tip.timestamp

/-- What stays true of a built chain: its derived fields are those of its replay, and
network and root hash are those of the chain it started with. -/
structure Grounded (E : Node) (start chain : Blockchain) : Prop where
  derived : Derived E chain
  network : chain.network = start.network
  root : chain.blocks.head?.map Block.hash = start.blocks.head?.map Block.hash

/-- What is tolerated now is tolerated later. -/
theorem tolerated_later {t : DateTime}
    (h : ¬ (now.time.addSeconds maxTimestampSkewSeconds).before t)
    (hlater : ¬ now'.time.before now.time) :
    ¬ (now'.time.addSeconds maxTimestampSkewSeconds).before t := by
  rw [DateTime.before_iff, DateTime.key_addSeconds now.regular] at h
  rw [DateTime.before_iff] at hlater
  rw [DateTime.before_iff, DateTime.key_addSeconds now'.regular]
  omega

theorem applyFinality_fields {depth : UInt64}
    (h : (chain.applyFinality depth : Outcome String Blockchain) = ok chain') :
    chain' = { chain with finalizedHeight := chain'.finalizedHeight } := by
  by_cases hne : chain.blocks = []
  · rw [applyFinality, if_pos hne, pure_eq, ok.injEq] at h
    rw [← h]
  · obtain ⟨_, -, _, -, rfl⟩ := (applyFinality_eq_ok hne).mp h
    rfl

/-- An adopted chain's tip is not from the future. -/
theorem tryAdoptChain_tip {now : DateTime} {tip : Block}
    (h : tryAdoptChain E chain candidate now = ok (true, chain'))
    (htip : chain'.blocks.getLast? = some tip) :
    ¬ (now.addSeconds maxTimestampSkewSeconds).before tip.timestamp := by
  rw [(tryAdoptChain_true h).blocks] at htip
  simp only [tryAdoptChain, Outcome.bind_eq_ok, ensure_eq_ok] at h
  obtain ⟨_, -, _, -, _, -, _, -, _, -, _, hfuture, -⟩ := h
  rw [htip] at hfuture
  simpa using hfuture

theorem accept_room {block : Block} {now : DateTime} (h : accept E now chain block = ok chain')
    (fits : chain'.blocks.length < 2 ^ 63) : chain.blocks.length + 1 < 2 ^ 64 := by
  obtain ⟨r, rfl⟩ := accept_extended h
  have hlength : (chain.extended block r).blocks.length = chain.blocks.length + 1 := by
    simp [extended]
  omega

theorem Built.grounded (hstart : Derived E start) (h : Built E start now chain) :
    Grounded E start chain := by
  induction h with
  | start now => exact ⟨hstart, rfl, rfl⟩
  | wait _ _ ih => exact ih
  | @commit now chain chain' block _ haccept fits ih =>
    have hderived := ih.derived.accept (accept_room haccept fits) haccept
    obtain ⟨r, rfl⟩ := accept_extended haccept
    refine ⟨hderived, ih.network, ?_⟩
    show (chain.blocks ++ [block]).head?.map Block.hash = _
    rw [List.head?_append_of_ne_nil _ ih.derived.blocks_ne_nil, ih.root]
  | @adopt now chain candidate chain' _ hadopt _ ih =>
    have hadopted := tryAdoptChain_true (tryAdopt_eq_ok.mp hadopt)
    refine ⟨hadopted.derived, ?_, hadopted.root.trans ih.root⟩
    rw [← ih.network, hadopted.own]
    rfl
  | settle _ hfinal ih =>
    rw [applyFinality_fields hfinal]
    exact ⟨ih.derived, ih.network, ih.root⟩

/-- A chain built from a root alone has no tip from the future. -/
theorem Built.timely (hstart : Derived E start) (hroot : start.blocks.length = 1)
    (h : Built E start now chain) : Timely now chain := by
  induction h with
  | start now =>
    intro tip htip
    obtain ⟨root, hblocks⟩ := List.length_eq_one_iff.mp hroot
    rw [hblocks] at htip
    cases htip
  | wait _ hlater ih => exact fun tip htip => tolerated_later (ih tip htip) hlater
  | @commit now chain chain' block h haccept fits _ =>
    intro tip htip
    have hne := (h.grounded hstart).derived.blocks_ne_nil
    obtain ⟨htime, parent, r, -, -, rfl⟩ := (accept_eq_ok (accept_room haccept fits)).mp haccept
    have htail : (chain.extended block r).blocks.tail = chain.blocks.tail ++ [block] :=
      List.tail_append_of_ne_nil hne
    rw [htail, List.getLast?_concat, Option.some.injEq] at htip
    rw [← htip]
    exact htime
  | @adopt now chain candidate chain' _ hadopt _ _ =>
    intro tip htip
    have hadopted := tryAdoptChain_true (tryAdopt_eq_ok.mp hadopt)
    refine tryAdoptChain_tip (tryAdopt_eq_ok.mp hadopt) ?_
    obtain ⟨root, rest, hblocks⟩ := List.exists_cons_of_ne_nil hadopted.derived.blocks_ne_nil
    rw [hblocks] at htip ⊢
    rw [List.getLast?_cons, show rest.getLast? = some tip from htip]
    rfl
  | settle _ hfinal ih =>
    rw [applyFinality_fields hfinal]
    exact ih

/-! ## Another root with the same hash -/

/-- From genesis on, the retarget does not look at the root. -/
theorem retarget_root {ε : Type} (root root' : Block) (blocks : List Block)
    (index current : UInt64) :
    (retarget (root :: blocks) index 0 current : Outcome ε UInt64) =
      retarget (root' :: blocks) index 0 current := by
  obtain ⟨start, hstart⟩ : ∃ start, max ((root :: blocks).length - retargetInterval.toNat) 1 =
      start + 1 := ⟨_, (Nat.sub_add_cancel (le_max_right _ 1)).symm⟩
  have hlen : (root' :: blocks).length = (root :: blocks).length := rfl
  simp only [retarget, hlen, hstart, if_true, sliceFrom, List.drop_succ_cons]

/-- From genesis on, a replay needs of the root its hash and time alone. -/
theorem replayFrom_root {root root' previous previous' : Block} {l : List Block} {r t : Replay} :
    ∀ {seen : List Block}, previous'.hash = previous.hash →
      previous'.timestamp = previous.timestamp →
      replayFrom E 0 (root :: seen) previous r l = ok t →
      replayFrom E 0 (root' :: seen) previous' r l = ok t := by
  induction l generalizing previous previous' r with
  | nil => exact fun _ _ h => h
  | cons block rest ih =>
    intro seen hhash htime h
    obtain ⟨r', hstep, hrest⟩ := (replayFrom_cons rest).mp h
    refine (replayFrom_cons rest).mpr ⟨r', ?_, ih rfl rfl hrest⟩
    rw [← hstep]
    simp only [advance, hhash, htime, List.length_cons, List.cons_append,
      retarget_root root root']

/-- Replays start alike on one network at roots of one hash. -/
theorem replaySeed_network {root root' : Block} {seed seed' : Replay}
    (hnetwork : chain'.network = chain.network) (hhash : root'.hash = root.hash)
    (hseed : replaySeed E chain root = ok seed) (hseed' : replaySeed E chain' root' = ok seed') :
    seed' = seed := by
  have hseed : replaySeed E chain.network root = ok seed := hseed
  have hseed' : replaySeed E chain'.network root' = ok seed' := hseed'
  rw [hnetwork] at hseed'
  exact @replaySeed_unique E chain.network root root' seed seed' _ _ _ _ hhash hseed' hseed

/-! ## Accepting the blocks of a replay -/

/-- Along a replay the times do not fall. -/
theorem replayFrom_times {baseHeight : UInt64} {l : List Block} {t : Replay} :
    ∀ {seen : List Block} {previous : Block} {r : Replay},
      replayFrom E baseHeight seen previous r l = ok t →
      ∀ b ∈ previous :: l, b.timestamp.key ≤ (lastOr previous l).timestamp.key := by
  induction l with
  | nil =>
    intro seen previous r _ b hb
    rw [List.mem_singleton.mp hb]
    exact le_rfl
  | cons block rest ih =>
    intro seen previous r h b hb
    obtain ⟨r', hstep, hrest⟩ := (replayFrom_cons rest).mp h
    have hle := ih hrest
    rw [lastOr_cons]
    rcases List.mem_cons.mp hb with rfl | hb
    · obtain ⟨index, -, hvalid, -, -⟩ := advance_eq_ok.mp hstep
      simp only [validateBlockAt, checkPosition, Outcome.bind_eq_ok, ensure_eq_ok] at hvalid
      obtain ⟨_, ⟨_, -, _, htime, -⟩, -⟩ := hvalid
      rw [DateTime.before_iff, not_lt] at htime
      exact htime.trans (hle block List.mem_cons_self)
    · exact hle b hb

theorem getLast?_append_lastOr {blocks l : List Block} {previous : Block}
    (h : blocks.getLast? = some previous) :
    (blocks ++ l).getLast? = some (lastOr previous l) := by
  rw [List.getLast?_append, h, lastOr]
  cases l.getLast? <;> rfl

/-- A node accepts the blocks of a replay that starts at its tip. -/
theorem acceptAll_of_replayFrom {clock : Block → DateTime} {l : List Block} :
    ∀ {chain : Blockchain} {previous : Block} {r : Replay},
      chain.blocks.getLast? = some previous → chain.blocks.length + l.length < 2 ^ 64 →
      (∀ b ∈ l, ¬ ((clock b).addSeconds maxTimestampSkewSeconds).before b.timestamp) →
      replayFrom E chain.baseHeight chain.blocks previous
        ⟨chain.state, chain.randomness, chain.currentDifficulty⟩ l = ok r →
      acceptAll E chain (l.map fun b => (clock b, b)) = ok { chain with
        blocks := chain.blocks ++ l
        state := r.state
        randomness := r.randomness
        currentDifficulty := r.difficulty } := by
  induction l with
  | nil =>
    intro chain previous r _ _ _ h
    rw [replayFrom, ok.injEq] at h
    rw [← h, List.append_nil]
    rfl
  | cons block rest ih =>
    intro chain previous r hlast hlen htime h
    obtain ⟨r', hstep, hrest⟩ := (replayFrom_cons rest).mp h
    rw [List.length_cons] at hlen
    have haccept : accept E (clock block) chain block = ok (chain.extended block r') :=
      (accept_eq_ok (by omega)).mpr
        ⟨htime block List.mem_cons_self, previous, r', hlast, hstep, rfl⟩
    have hlength : (chain.extended block r').blocks.length = chain.blocks.length + 1 := by
      simp [extended]
    rw [List.map_cons, acceptAll, haccept, ok_bind,
      @ih (chain.extended block r') block r (List.getLast?_concat)
        (by omega) (fun b hb => htime b (List.mem_cons_of_mem _ hb)) hrest]
    simp only [extended, List.append_assoc, List.singleton_append]

/-! ## Pulling ranges -/

/-- Ask for the blocks after the tip and commit them, until none are left.  The clock gives
the time at which each block is validated. -/
def pull (E : Node) (source : Blockchain) (batch : ℕ) (clock : Block → DateTime.Reading) :
    ℕ → Blockchain → Outcome String (Option Blockchain)
  | 0, _ => ok none
  | requests + 1, chain => do
    let next ← chain.nextIndex
    let blocks := source.blocksFrom next batch
    if blocks = [] then return some chain
    let chain ← acceptAll E chain (blocks.map fun b => ((clock b).time, b))
    pull E source batch clock requests chain

/-- A node on the source's network that has some of its blocks pulls the others, with at
most one request more than there are blocks missing. -/
theorem pull_eq {source : Blockchain} {batch requests : ℕ} {clock : Block → DateTime.Reading}
    (hbatch : 1 ≤ batch) (hsource : source.baseHeight = 0) (hroom : source.blocks.length < 2 ^ 64) :
    ∀ {chain : Blockchain} {previous root : Block} {seen l : List Block} {r : Replay},
      chain.baseHeight = 0 → chain.blocks.getLast? = some previous →
      source.blocks = root :: (seen ++ l) → chain.blocks.length = seen.length + 1 →
      (∀ b ∈ l, ¬ ((clock b).time.addSeconds maxTimestampSkewSeconds).before b.timestamp) →
      replayFrom E 0 chain.blocks previous
        ⟨chain.state, chain.randomness, chain.currentDifficulty⟩ l = ok r →
      l.length < requests →
      pull E source batch clock requests chain = ok (some { chain with
        blocks := chain.blocks ++ l
        state := r.state
        randomness := r.randomness
        currentDifficulty := r.difficulty }) := by
  induction requests with
  | zero => exact fun _ _ _ _ _ _ h => absurd h (Nat.not_lt_zero _)
  | succ requests ih =>
    intro chain previous root seen l r hbase hlast hblocks hlen htime h hrequests
    have hlength : source.blocks.length = seen.length + l.length + 1 := by
      rw [hblocks, List.length_cons, List.length_append]
    have hnext : Word.checkedAdd chain.baseHeight (UInt64.ofNat chain.blocks.length) =
        some (UInt64.ofNat chain.blocks.length) := by
      rw [hbase, Word.checkedAdd_eq_some]
      exact (Nat.zero_add _).symm
    have hrange : source.blocksFrom (UInt64.ofNat chain.blocks.length) batch = l.take batch := by
      have hstart : (UInt64.ofNat chain.blocks.length - source.baseHeight).toNat =
          seen.length + 1 := by
        rw [hsource, UInt64.sub_zero, Word.toNat_ofNat_of_lt (by omega), hlen]
      rw [blocksFrom, if_neg (by rw [hsource]; exact UInt64.not_lt.mpr (UInt64.zero_le)), hstart,
        hblocks, List.drop_succ_cons, List.drop_left]
    rw [pull, nextIndex, hnext, plain_some, ok_bind, hrange]
    by_cases hl : l = []
    · subst hl
      rw [replayFrom, ok.injEq] at h
      rw [List.take_nil, if_pos rfl, ← h, List.append_nil]
      rfl
    · have htake : l.take batch ≠ [] := by
        rw [Ne, List.take_eq_nil_iff, not_or]
        exact ⟨by omega, hl⟩
      have hsplit : l.take batch ++ l.drop batch = l := List.take_append_drop batch l
      have htakeLength : (l.take batch).length ≤ l.length := List.length_take_le' _ _
      rw [← hsplit, replayFrom_append] at h
      obtain ⟨mid, hmid, h⟩ := h
      rw [if_neg htake, acceptAll_of_replayFrom hlast (by omega)
        (fun b hb => htime b (List.mem_of_mem_take hb)) (by rw [hbase]; exact hmid), ok_bind]
      have hdrop : (l.drop batch).length < l.length := by
        have hpos : 0 < l.length := List.length_pos_iff.mpr hl
        rw [List.length_drop]
        omega
      have hstep := @ih
        { chain with
          blocks := chain.blocks ++ l.take batch
          state := mid.state
          randomness := mid.randomness
          currentDifficulty := mid.difficulty }
        (lastOr previous (l.take batch)) root (seen ++ l.take batch) (l.drop batch) r hbase
        ?_ ?_ ?_ (fun b hb => htime b (List.mem_of_mem_drop hb)) h (by omega)
      · rw [hstep]
        simp only [List.append_assoc, hsplit]
      · exact getLast?_append_lastOr hlast
      · rw [List.append_assoc, hsplit, hblocks]
      · show (chain.blocks ++ l.take batch).length = _
        rw [List.length_append, List.length_append]
        omega

/-! ## Incremental execution equals replay -/

/-- The header text of a chain's root, as hashed. -/
def rootText (E : Env) (chain : Blockchain) : Set (List UInt8) :=
  {text | ∃ root, chain.blocks.head? = some root ∧ text = utf8 (root.preimage E)}

/-- A replay from genesis starts at the genesis state. -/
theorem replaySeed_eq_ok {root : Block} {seed : Replay} (hcp : chain.checkpoint = none)
    (h : replaySeed E chain root = ok seed) :
    (chain.genesisState E).stateRoot E = root.stateRoot := by
  unfold replaySeed at h
  rw [hcp] at h
  simp only [Outcome.bind_eq_ok, ensure_eq_ok] at h
  obtain ⟨_, hroot, -⟩ := h
  exact hroot

/-- Two roots of one genesis with the same hash carry the same time. -/
theorem root_timestamp {root root' : Block} {seed seed' : Replay}
    (hfree : E.CollisionFree (rootText E chain ∪ rootText E chain'))
    (hroot : chain.blocks.head? = some root) (hroot' : chain'.blocks.head? = some root')
    (hvalid : root.hasValidPow E = true ∧ root.hasValidMerkleRoot E = true)
    (hvalid' : root'.hasValidPow E = true ∧ root'.hasValidMerkleRoot E = true)
    (hseed : replaySeed E chain root = ok seed) (hseed' : replaySeed E chain' root' = ok seed')
    (hcp : chain.checkpoint = none) (hcp' : chain'.checkpoint = none)
    (hhash : root'.hash = root.hash) : root'.timestamp.debugText = root.timestamp.debugText := by
  have hstate : IsDigestText root.stateRoot := by
    rw [← replaySeed_eq_ok hcp hseed]
    exact isDigestText_sha256Hex E _
  have hstate' : IsDigestText root'.stateRoot := by
    rw [← replaySeed_eq_ok hcp' hseed']
    exact isDigestText_sha256Hex E _
  have htext : root'.preimage E = root.preimage E :=
    Block.preimage_eq_of_hash hfree (Or.inr ⟨root', hroot', rfl⟩) (Or.inl ⟨root, hroot, rfl⟩)
      (Block.hash_of_hasValidPow hvalid'.1) (Block.hash_of_hasValidPow hvalid.1) hhash
  exact (Block.header_determined (Block.isDigestText_merkleRoot hvalid'.2) hstate'
    (Block.isDigestText_merkleRoot hvalid.2) hstate htext).2.2.2

section Genesis

variable {chainId treasury : String} {difficulty supply : UInt64}
  {publicKey vrfPublicKey pqPublicKey : Option String} {allowlist : List String} {hybrid : Bool}
  {genesis : Blockchain}

/-- What a genesis chain looks like. -/
theorem genesis_fields
    (hg : (newWithGenesisOnChain E chainId difficulty treasury publicKey vrfPublicKey supply
      allowlist hybrid pqPublicKey : Outcome String Blockchain) = ok genesis) :
    ∃ root, genesis.blocks = [root] ∧ genesis.baseHeight = 0 ∧ genesis.checkpoint = none ∧
      root.timestamp = DateTime.ofTimestamp genesisTimestamp := by
  obtain ⟨root, state, -, hroot, rfl⟩ := newWithGenesisOnChain_eq_ok.mp hg
  refine ⟨root, rfl, rfl, rfl, ?_⟩
  simp only [Block.genesis, Block.newAt, Outcome.bind_eq_ok, pure_eq, ok.injEq] at hroot
  obtain ⟨_, _, rfl⟩ := hroot
  rfl

/-- Pulling from a chain of the same genesis ends at its tip with its derived fields. -/
theorem Grounded.pull_eq {batch requests : ℕ} {clock : Block → DateTime.Reading}
    (hg : (newWithGenesisOnChain E chainId difficulty treasury publicKey vrfPublicKey supply
      allowlist hybrid pqPublicKey : Outcome String Blockchain) = ok genesis)
    (h : Grounded E genesis chain) (htimely : Timely now chain) (hbatch : 1 ≤ batch)
    (hclock : ∀ b, ¬ (clock b).time.before now.time)
    (hfree : E.CollisionFree (rootText E genesis ∪ rootText E chain))
    (hrequests : chain.blocks.length ≤ requests) :
    ∃ synced, pull E chain batch clock requests genesis = ok (some synced) ∧
      synced.blocks.tail = chain.blocks.tail ∧ synced.blocks.head?.map Block.hash =
        chain.blocks.head?.map Block.hash ∧ synced.baseHeight = chain.baseHeight ∧
      synced.state = chain.state ∧ synced.randomness = chain.randomness ∧
      synced.currentDifficulty = chain.currentDifficulty := by
  obtain ⟨root, hroot, hbase, hcp, htimestamp⟩ := genesis_fields hg
  have hbase' : chain.baseHeight = 0 := (congrArg Blockchain.baseHeight h.network).trans hbase
  have hcp' : chain.checkpoint = none := (congrArg Blockchain.checkpoint h.network).trans hcp
  obtain ⟨root₁, rest₁, seed, hblocks₁, hvalid, -, hseed, hreplay₁⟩ :=
    validateFull_eq_ok.mp (derived_genesis hg)
  obtain ⟨root', rest, seed', hblocks, hvalid', -, hseed', hreplay⟩ :=
    validateFull_eq_ok.mp h.derived
  rw [hroot, List.cons.injEq] at hblocks₁
  obtain ⟨rfl, rfl⟩ := hblocks₁
  rw [replayFrom, ok.injEq] at hreplay₁
  have hhead : genesis.blocks.head? = some root := by rw [hroot]; rfl
  have hhead' : chain.blocks.head? = some root' := by rw [hblocks]; rfl
  have hhash : root'.hash = root.hash := by
    have hsame := h.root
    rw [hhead, hhead'] at hsame
    exact Option.some.inj hsame
  have htime : root'.timestamp = root.timestamp := by
    rw [htimestamp]
    refine DateTime.eq_genesis_of_text ?_
    rw [← htimestamp]
    exact root_timestamp hfree hhead hhead' hvalid hvalid' hseed hseed' hcp hcp' hhash
  obtain rfl : seed' = seed := replaySeed_network h.network hhash hseed hseed'
  -- the source's replay, from our own root
  have hours : replayFrom E 0 genesis.blocks root
      ⟨genesis.state, genesis.randomness, genesis.currentDifficulty⟩ rest =
      ok ⟨chain.state, chain.randomness, chain.currentDifficulty⟩ := by
    rw [hbase'] at hreplay
    rw [hroot, ← hreplay₁]
    exact replayFrom_root hhash.symm htime.symm hreplay
  have hlength : chain.blocks.length = rest.length + 1 := by rw [hblocks, List.length_cons]
  have hroom := h.derived.room (by rw [hbase']; rfl)
  rw [hbase'] at hroom
  have htolerated : ∀ b ∈ rest,
      ¬ ((clock b).time.addSeconds maxTimestampSkewSeconds).before b.timestamp := by
    intro b hb
    refine tolerated_later ?_ (hclock b)
    obtain ⟨tip, htip⟩ : ∃ tip, rest.getLast? = some tip :=
      ⟨_, List.getLast?_eq_some_getLast (List.ne_nil_of_mem hb)⟩
    have hlast : lastOr root' rest = tip := by
      rw [lastOr, htip]
      rfl
    have hle := replayFrom_times hreplay b (List.mem_cons_of_mem _ hb)
    have hnow := htimely tip (by rw [hblocks]; exact htip)
    rw [hlast] at hle
    rw [DateTime.before_iff] at hnow ⊢
    omega
  have hmany : rest.length < requests := by omega
  have hpull := Blockchain.pull_eq hbatch hbase'
    (by rw [hlength]; rw [hlength] at hroom; exact (Nat.le_add_left _ _).trans_lt hroom) hbase
    (by rw [hroot]; rfl) (show chain.blocks = root' :: ([] ++ rest) from hblocks)
    (by rw [hroot]; rfl) htolerated hours hmany
  refine ⟨_, hpull, ?_, ?_, hbase.trans hbase'.symm, rfl, rfl, rfl⟩
  · rw [hroot, hblocks]
    rfl
  · rw [hroot, hblocks]
    exact congrArg some hhash.symm

/-- A chain built from genesis is its own replay, and a fresh node of the same genesis that
pulls it range by range, at no earlier time, comes to the same tip and derived fields. -/
theorem incremental_eq_replay
    (hg : (newWithGenesisOnChain E chainId difficulty treasury publicKey vrfPublicKey supply
      allowlist hybrid pqPublicKey : Outcome String Blockchain) = ok genesis)
    (h : Built E genesis now chain) :
    rebuildState E chain = ok chain ∧
    ∀ (batch : ℕ) (clock : Block → DateTime.Reading), 1 ≤ batch →
      (∀ b, ¬ (clock b).time.before now.time) →
      E.CollisionFree (rootText E genesis ∪ rootText E chain) →
      ∀ requests, chain.blocks.length ≤ requests →
        ∃ synced, pull E chain batch clock requests genesis = ok (some synced) ∧
          (synced.tipIndex : Outcome String UInt64) = chain.tipIndex ∧
          synced.latestHash = chain.latestHash ∧ synced.state = chain.state ∧
          synced.randomness = chain.randomness ∧
          synced.currentDifficulty = chain.currentDifficulty := by
  have hderived := derived_genesis hg
  have hgrounded := h.grounded hderived
  refine ⟨hgrounded.derived.rebuildState, fun batch clock hbatch hclock hfree requests hrequests => ?_⟩
  obtain ⟨root, hroot, -⟩ := genesis_fields hg
  obtain ⟨synced, hpull, htail, hhead, hbase, hstate, hrandomness, hdifficulty⟩ :=
    hgrounded.pull_eq hg (h.timely hderived (by rw [hroot]; rfl)) hbatch hclock hfree hrequests
  obtain ⟨root', rest, hblocks⟩ := List.exists_cons_of_ne_nil hgrounded.derived.blocks_ne_nil
  rw [hblocks] at htail hhead
  obtain ⟨root'', hsynced, hhash⟩ : ∃ root'', synced.blocks = root'' :: rest ∧
      root''.hash = root'.hash := by
    cases hs : synced.blocks with
    | nil => rw [hs] at hhead; cases hhead
    | cons root'' rest'' =>
      rw [hs] at htail hhead
      exact ⟨root'', congrArg (root'' :: ·) htail, Option.some.inj hhead⟩
  refine ⟨synced, hpull, ?_, ?_, hstate, hrandomness, hdifficulty⟩
  · rw [tipIndex, tipIndex, nextIndex, nextIndex, hbase, hblocks, hsynced]
    rfl
  · rw [latestHash, latestHash, hblocks, hsynced, List.getLast?_cons, List.getLast?_cons]
    cases hlast : rest.getLast? with
    | none => exact hhash
    | some tip => rfl

end Genesis

/-- A fresh node pulls the first block of a toy chain. -/
theorem incremental_eq_replay_sample :
    rebuildState (Sample.node [Sample.reward]) (Sample.chainOf [Sample.reward] 1000000000000000 1) =
        ok (Sample.chainOf [Sample.reward] 1000000000000000 1) ∧
      ∃ synced, pull (Sample.node [Sample.reward])
          (Sample.chainOf [Sample.reward] 1000000000000000 1) 1 (fun _ => ⟨Sample.morning, rfl⟩) 2
          (Sample.root [Sample.reward] 1000000000000000) = ok (some synced) ∧
        synced.state = (Sample.chainOf [Sample.reward] 1000000000000000 1).state := by
  have hbuilt : Built (Sample.node [Sample.reward]) (Sample.root [Sample.reward] 1000000000000000)
      ⟨Sample.morning, rfl⟩ (Sample.chainOf [Sample.reward] 1000000000000000 1) :=
    .commit (.start _) (Sample.accept_chainOf (n := 0) (by decide) (by decide) rfl)
      (by rw [Sample.chainOf_length]; decide)
  have hroots : rootText (Sample.node [Sample.reward])
      (Sample.chainOf [Sample.reward] 1000000000000000 1) =
      rootText (Sample.node [Sample.reward]) (Sample.root [Sample.reward] 1000000000000000) := rfl
  have hfree : (Sample.node [Sample.reward]).CollisionFree
      (rootText (Sample.node [Sample.reward]) (Sample.root [Sample.reward] 1000000000000000) ∪
        rootText (Sample.node [Sample.reward])
          (Sample.chainOf [Sample.reward] 1000000000000000 1)) := by
    rw [hroots, Set.union_self]
    rintro _ ⟨root, hroot, rfl⟩ _ ⟨root', hroot', rfl⟩ _
    rw [hroot, Option.some.injEq] at hroot'
    rw [hroot']
  obtain ⟨hrebuild, hsync⟩ := incremental_eq_replay (E := Sample.node [Sample.reward])
    Sample.newWithGenesisOnChain_root hbuilt
  obtain ⟨synced, hpull, -, -, hstate, -⟩ := hsync 1 (fun _ => ⟨Sample.morning, rfl⟩) le_rfl
    (fun _ => by decide) hfree 2 (by rw [Sample.chainOf_length])
  exact ⟨hrebuild, synced, hpull, hstate⟩

end Blockchain
