/-
# What a candidate chain can abort

Fork choice adds up the work that a candidate claims before anything of the candidate is verified,
in a plain sum of saturated powers.  On every chain of a node, considering a candidate aborts
exactly where that sum leaves 128 bits at equal height, or where the replay of a better candidate
comes to a transaction that aborts.
-/
import Mathlib.Tactic
import Hikmalayer.Consensus.Bundle
import Hikmalayer.Consensus.Panics

open Outcome ChainState

namespace Blockchain

variable {E : Node} {start chain chain' candidate : Blockchain} {root root' : Block} {seed : Replay}
  {now : DateTime}

/-! ## What a node's chain replays from -/

/-- Accepting blocks keeps the derived fields derived. -/
theorem Derived.acceptAll {arrivals : List (DateTime × Block)} :
    ∀ {chain : Blockchain}, Derived E chain → Blockchain.acceptAll E chain arrivals = ok chain' →
      chain'.blocks.length < 2 ^ 63 → Derived E chain' := by
  induction arrivals with
  | nil =>
    intro chain h hall _
    rw [Blockchain.acceptAll, ok.injEq] at hall
    exact hall ▸ h
  | cons arrival rest ih =>
    intro chain h hall fits
    simp only [Blockchain.acceptAll, Outcome.bind_eq_ok] at hall
    obtain ⟨mid, hmid, hall⟩ := hall
    have hblocks := congrArg List.length (acceptAll_fields hall).1
    rw [List.length_append] at hblocks
    exact ih (h.accept (accept_room hmid (by omega)) hmid) hall fits

/-- Every replay of the chain starts at a reachable state and a difficulty within the bounds. -/
def SaneSeed (E : Node) (chain : Blockchain) : Prop :=
  ∀ root seed, chain.blocks.head? = some root → replaySeed E chain root = ok seed → Sane E seed

/-- On one network, replays from a root of the same hash start alike. -/
theorem SaneSeed.of_network (hs : SaneSeed E start) (hstart : Derived E start)
    (hnetwork : chain.network = start.network)
    (hhash : some root.hash = start.blocks.head?.map Block.hash)
    (hseed : replaySeed E chain root = ok seed) : Sane E seed := by
  obtain ⟨anchor, rest, first, hblocks, -, -, hfirst, -⟩ := validateFull_eq_ok.mp hstart
  have hhead : start.blocks.head? = some anchor := by
    rw [hblocks]
    rfl
  rw [hhead, Option.map_some, Option.some.injEq] at hhash
  have hsame : seed = first := replaySeed_network hnetwork hhash hfirst hseed
  exact hsame ▸ hs anchor first hhead hfirst

/-- The derived fields of such a chain are sane. -/
theorem SaneSeed.derived (hE : E.saturation = .clamp) (hs : SaneSeed E chain)
    (h : Derived E chain) : Sane E ⟨chain.state, chain.randomness, chain.currentDifficulty⟩ := by
  obtain ⟨anchor, rest, first, hblocks, -, -, hfirst, hreplay⟩ := validateFull_eq_ok.mp h
  exact (hs anchor first (by rw [hblocks]; rfl) hfirst).replayFrom hE hreplay

theorem SaneSeed.grounded (hs : SaneSeed E start) (hstart : Derived E start)
    (h : Grounded E start chain) : SaneSeed E chain := by
  intro root seed hroot hseed
  refine hs.of_network hstart h.network ?_ hseed
  rw [← h.root, hroot]
  rfl

theorem Grounded.refl (h : Derived E chain) : Grounded E chain chain := ⟨h, rfl, rfl⟩

theorem Grounded.trans (h : Grounded E start chain) (h' : Grounded E chain chain') :
    Grounded E start chain' :=
  ⟨h'.derived, h'.network.trans h.network, h'.root.trans h.root⟩

end Blockchain

open Blockchain NodeState

/-- A step of a node leaves its network and the hash of its root. -/
theorem NodeState.Step.grounded {E : Node} {s s' : NodeState} {e : Event} (h : Step E s e s')
    (hs : Derived E s.chain) : Grounded E s.chain s'.chain := by
  cases h with
  | govern h => exact .refl hs
  | @refuse candidate now chain h fits =>
    have hsame : chain = s.chain := by
      rcases h with h | ⟨_, h⟩
      · exact tryAdoptChain_false (tryAdopt_eq_ok.mp h)
      · exact tryAdopt_err h
    show Grounded E s.chain chain
    rw [hsame]
    exact .refl hs
  | @extend arrivals depth mid chain hne hdepth haccept hfinal fits =>
    obtain ⟨hblocks, hfields⟩ := acceptAll_fields haccept
    have hlen : mid.blocks.length < 2 ^ 63 := by
      rw [← applyFinality_blocks hfinal]
      exact fits
    have hmid := hs.acceptAll haccept hlen
    have hnetwork : mid.network = s.chain.network := by
      rw [hfields]
      rfl
    have hroot : mid.blocks.head?.map Block.hash = s.chain.blocks.head?.map Block.hash := by
      rw [hblocks, List.head?_append_of_ne_nil _ hs.blocks_ne_nil]
    show Grounded E s.chain chain
    rw [applyFinality_fields hfinal]
    exact ⟨hmid, hnetwork, hroot⟩
  | @adopt candidate now depth mid chain hdepth hadopt hfinal fits =>
    have hadopted := tryAdoptChain_true (tryAdopt_eq_ok.mp hadopt)
    have hnetwork : mid.network = s.chain.network := by
      rw [hadopted.own]
      rfl
    show Grounded E s.chain chain
    rw [applyFinality_fields hfinal]
    exact ⟨hadopted.derived, hnetwork, hadopted.root⟩

theorem NodeState.Run.grounded {E : Node} {P : NodeState → Event → Prop} {s s' : NodeState}
    (hs : Derived E s.chain) (h : Run E P s s') : Grounded E s.chain s'.chain := by
  induction h with
  | refl => exact .refl hs
  | tail _ _ hstep ih => exact ih.trans (hstep.grounded ih.derived)

namespace Blockchain

variable {E : Node} {start chain chain' candidate : Blockchain} {root root' : Block} {seed : Replay}
  {now : DateTime}

/-- A chain as a node of the network starts with it: from a genesis with a well-formed treasury, or
imported from what another node has exported. -/
inductive Joined (E : Node) : Blockchain → Prop
  | genesis {chainId treasury : String} {difficulty supply : UInt64}
      {publicKey vrfPublicKey pqPublicKey : Option String} {allowlist : List String}
      {hybrid : Bool} {chain : Blockchain} (htreasury : isValidAddress treasury = true)
      (h : (newWithGenesisOnChain E chainId difficulty treasury publicKey vrfPublicKey supply
        allowlist hybrid pqPublicKey : Outcome String Blockchain) = ok chain) : Joined E chain
  | bundle {first s : NodeState} {bundle : CheckpointBundle} {chain : Blockchain}
      (h : Joined E first.chain) (hrun : Run E (fun _ _ => True) first s)
      (hexport : exportBundle E s.chain = ok bundle) (h : fromBundle E bundle = ok chain) :
      Joined E chain

theorem Joined.rooted (h : Joined E chain) : Rooted E chain := by
  cases h with
  | genesis _ h => exact .genesis h
  | bundle _ _ _ h => exact .checkpoint h

/-- What a node exports is sane when its own replays are. -/
theorem SaneSeed.exportBundle {bundle : CheckpointBundle} (hE : E.saturation = .clamp)
    (hs : SaneSeed E chain) (h : Derived E chain)
    (hexport : Blockchain.exportBundle E chain = ok bundle) :
    Sane E ⟨bundle.checkpoint.state, bundle.checkpoint.randomness, bundle.checkpoint.difficulty⟩ := by
  simp only [Blockchain.exportBundle, exportCheckpoint, Outcome.bind_eq_ok, ensure_eq_ok, plain_eq_ok,
    okOr_eq_ok, pure_eq, ok.injEq, Prod.exists, Prod.mk.injEq] at hexport
  obtain ⟨tip, -, _, -, boundary, -, trunc, htrunc, anchor, checkpoint,
    ⟨cutTip, -, _, -, last, -, rfl, rfl⟩, forward, -, rfl⟩ := hexport
  obtain ⟨hderived, hfields⟩ := derived_of_rebuildState htrunc
  obtain ⟨root, rest, seed, hblocks, -, -, hseed, hreplay⟩ := validateFull_eq_ok.mp hderived
  have hhead : chain.blocks.head? = some root := by
    have hcut : trunc.blocks = chain.blocks.take (boundary.toNat + 1) := by
      rw [hfields]
    have hcutHead := congrArg List.head? hcut
    rw [List.head?_take, if_neg (Nat.succ_ne_zero _), hblocks] at hcutHead
    exact hcutHead.symm
  refine (hs.of_network h ?_ ?_ hseed).replayFrom hE hreplay
  · rw [hfields]
    rfl
  · rw [hhead]
    rfl

/-- Every replay of a node's first chain starts sane. -/
theorem Joined.saneSeed (hE : E.saturation = .clamp) (h : Joined E chain) : SaneSeed E chain := by
  induction h with
  | @genesis chainId treasury difficulty supply publicKey vrfPublicKey pqPublicKey allowlist hybrid
      chain htreasury h =>
    have hsane := Built.genesis_sane hE htreasury h (.start ⟨DateTime.ofTimestamp 0, by decide⟩)
    obtain ⟨root, rest, first, hblocks, -, -, hfirst, hreplay⟩ :=
      validateFull_eq_ok.mp (derived_genesis h)
    obtain ⟨only, honly, -⟩ := genesis_fields h
    rw [honly, List.cons.injEq] at hblocks
    obtain ⟨rfl, rfl⟩ := hblocks
    rw [replayFrom, ok.injEq] at hreplay
    intro root seed hroot hseed
    rw [honly, List.head?_cons, Option.some.injEq] at hroot
    subst hroot
    rw [hfirst, ok.injEq] at hseed
    rw [← hseed, hreplay]
    exact hsane
  | @bundle first s bundle chain h hrun hexport himport ih =>
    have hderived := h.rooted.derived
    have hgrounded := hrun.grounded hderived
    obtain ⟨hhead, hanchor, -⟩ := fromBundle_eq_ok himport
    intro root seed hroot hseed
    rw [hhead, Option.some.injEq] at hroot
    subst hroot
    rw [hanchor, ok.injEq] at hseed
    rw [← hseed]
    exact (ih.grounded hderived hgrounded).exportBundle hE hgrounded.derived hexport

/-! ## Work -/

theorem wideSum_eq_none {l : List ℕ} : ∀ {acc : ℕ}, acc < 2 ^ 128 →
    (wideSum acc l = none ↔ 2 ^ 128 ≤ acc + l.sum) := by
  induction l with
  | nil =>
    intro acc hacc
    rw [wideSum, List.sum_nil]
    simp only [reduceCtorEq, false_iff]
    omega
  | cons a rest ih =>
    intro acc hacc
    rw [wideSum, List.sum_cons]
    by_cases hadd : acc + a < 2 ^ 128
    · rw [Word.wideAdd_of_lt hadd, Option.bind_some, ih hadd, Nat.add_assoc]
    · have hnone : Word.wideAdd acc a = none := if_neg hadd
      rw [hnone, Option.bind_none]
      exact iff_of_true rfl (by omega)

/-- The work of a chain is computed as long as it fits 128 bits. -/
theorem cumulativeWork_eq_panicked {ε : Type} :
    (chain.cumulativeWork : Outcome ε ℕ) = panicked ↔ 2 ^ 128 ≤ work chain.blocks := by
  rw [cumulativeWork, plain_eq_panicked, wideSum_eq_none (by decide), Nat.zero_add, work]

theorem cumulativeWork_of_lt {ε : Type} (h : work chain.blocks < 2 ^ 128) :
    (chain.cumulativeWork : Outcome ε ℕ) = ok (work chain.blocks) := by
  have hsome : (wideSum 0 (chain.blocks.map fun b => Pow.workForDifficulty b.difficulty)).isSome := by
    rw [Option.isSome_iff_ne_none]
    intro hnone
    rw [wideSum_eq_none (by decide), Nat.zero_add] at hnone
    exact absurd h (not_lt.mpr hnone)
  obtain ⟨n, hn⟩ := Option.isSome_iff_exists.mp hsome
  have hwork := wideSum_eq_some hn
  rw [Nat.zero_add] at hwork
  rw [cumulativeWork, hn, plain_some, hwork, work]

theorem workForDifficulty_le {difficulty : UInt64} (h : Pow.isDifficultyInBounds difficulty = true) :
    Pow.workForDifficulty difficulty ≤ 2 ^ 20 := by
  have hfive : (5 : UInt64).toNat = 5 := rfl
  simp only [Pow.isDifficultyInBounds, Pow.maxDifficulty, Bool.and_eq_true, decide_eq_true_eq,
    UInt64.le_iff_toNat_le, hfive] at h
  have hle : difficulty.toNat % 2 ^ 32 ≤ 5 := (Nat.mod_le _ _).trans h.2
  rw [Pow.workForDifficulty, if_pos (by omega)]
  exact Nat.pow_le_pow_right (by decide) hle

/-- Replayed blocks have a difficulty within the bounds. -/
theorem replayFrom_inBounds {baseHeight : UInt64} {l : List Block} {t : Replay} :
    ∀ {seen : List Block} {previous : Block} {r : Replay},
      replayFrom E baseHeight seen previous r l = ok t →
      ∀ b ∈ l, Pow.isDifficultyInBounds b.difficulty = true := by
  induction l with
  | nil => exact fun _ b hb => absurd hb List.not_mem_nil
  | cons block rest ih =>
    intro seen previous r h b hb
    obtain ⟨r', hstep, hrest⟩ := (replayFrom_cons rest).mp h
    rcases List.mem_cons.mp hb with rfl | hb
    · obtain ⟨index, -, hvalid, -⟩ := advance_eq_ok.mp hstep
      simp only [validateBlockAt, checkPosition, Outcome.bind_eq_ok, ensure_eq_ok] at hvalid
      obtain ⟨_, ⟨_, -, _, -, _, -, _, -, _, hbounds, -⟩, -⟩ := hvalid
      exact hbounds
    · exact ih hrest b hb

/-- The work of a node's own chain fits 128 bits. -/
theorem Derived.work_lt (h : Derived E chain) (fits : chain.blocks.length < 2 ^ 63) :
    work chain.blocks < 2 ^ 128 := by
  obtain ⟨anchor, rest, seed, hblocks, ⟨hpow, -⟩, -, -, hreplay⟩ := validateFull_eq_ok.mp h
  have hbounds : ∀ b ∈ chain.blocks, Pow.isDifficultyInBounds b.difficulty = true := by
    intro b hb
    rw [hblocks] at hb
    rcases List.mem_cons.mp hb with rfl | hb
    · simp only [Block.hasValidPow, Bool.and_eq_true] at hpow
      exact hpow.1.1
    · exact replayFrom_inBounds hreplay b hb
  have hsum := List.sum_le_card_nsmul (chain.blocks.map fun b => Pow.workForDifficulty b.difficulty)
    (2 ^ 20) (by
      intro w hw
      obtain ⟨b, hb, rfl⟩ := List.mem_map.mp hw
      exact workForDifficulty_le (hbounds b hb))
  rw [List.length_map, smul_eq_mul] at hsum
  have hlt : chain.blocks.length * 2 ^ 20 < 2 ^ 128 := by omega
  exact hsum.trans_lt hlt

/-! ## Comparing with a candidate -/

/-- The candidate ends at our height, and the work that it claims leaves 128 bits. -/
def WorkOverflows (chain candidate : Blockchain) : Prop :=
  tipHeight chain.baseHeight candidate.blocks = tipHeight chain.baseHeight chain.blocks ∧
    2 ^ 128 ≤ work candidate.blocks

theorem tipHeight_of_lt {baseHeight : UInt64} {blocks : List Block}
    (h : baseHeight.toNat + blocks.length < 2 ^ 64) :
    tipHeight baseHeight blocks = baseHeight.toNat + blocks.length - 1 := by
  rw [tipHeight, Word.toNat_ofNat_of_lt (by omega)]

/-- A chain that fits the words of the code, with work to compare to. -/
structure Comparable (chain : Blockchain) : Prop where
  nonempty : chain.blocks ≠ []
  room : chain.baseHeight.toNat + chain.blocks.length < 2 ^ 64
  work : work chain.blocks < 2 ^ 128

section Comparing

variable (h : Comparable chain) (hne : candidate.blocks ≠ [])
  (hbase : candidate.baseHeight = chain.baseHeight)
  (hroom : chain.baseHeight.toNat + candidate.blocks.length < 2 ^ 64)

include h hne hbase hroom

theorem keepsOurs_eq : keepsOurs chain candidate =
    if tipHeight chain.baseHeight candidate.blocks < tipHeight chain.baseHeight chain.blocks then
      ok true
    else if tipHeight chain.baseHeight candidate.blocks = tipHeight chain.baseHeight chain.blocks then
      candidate.cumulativeWork >>= fun theirWork => ok (theirWork ≤ work chain.blocks)
    else ok false := by
  have hlt : chain.baseHeight.toNat + chain.blocks.length - 1 < 2 ^ 64 := by
    have := h.room
    omega
  have hlt' : chain.baseHeight.toNat + candidate.blocks.length - 1 < 2 ^ 64 := by omega
  rw [keepsOurs, tipIndex_of_lt h.nonempty h.room, ok_bind,
    tipIndex_of_lt hne (by rw [hbase]; exact hroom), ok_bind, hbase, tipHeight_of_lt hroom,
    tipHeight_of_lt h.room, cumulativeWork_of_lt h.work]
  simp only [UInt64.lt_iff_toNat_lt, ← UInt64.toNat_inj, Word.toNat_ofNat_of_lt hlt,
    Word.toNat_ofNat_of_lt hlt', ok_bind, pure_eq]

theorem keepsOurs_eq_panicked :
    keepsOurs chain candidate = panicked ↔ WorkOverflows chain candidate := by
  rw [keepsOurs_eq h hne hbase hroom, WorkOverflows]
  split_ifs with hlow heq
  · simp only [false_iff, not_and]
    intro heq
    omega
  · simp only [Outcome.bind_eq_panicked, cumulativeWork_eq_panicked, reduceCtorEq, and_false,
      exists_false, or_false, heq, true_and]
  · simp only [false_iff, not_and]
    exact fun h' => absurd h' heq

/-- A higher-ranked candidate is not kept out, unless its work cannot be computed. -/
theorem keepsOurs_eq_false (hwork : ¬ WorkOverflows chain candidate) :
    keepsOurs chain candidate = ok false ↔ chain.rank < rankOf chain.baseHeight candidate.blocks := by
  refine ⟨fun hkeep => keepsOurs_false hkeep hbase.symm, fun hrank => ?_⟩
  rw [rank, rankOf, rankOf, Prod.Lex.toLex_lt_toLex] at hrank
  rw [WorkOverflows, not_and, not_le] at hwork
  rw [keepsOurs_eq h hne hbase hroom]
  rcases hrank with hhigher | ⟨heq, hmore⟩
  · rw [if_neg (not_lt.mpr hhigher.le), if_neg hhigher.ne']
  · have heq' : tipHeight chain.baseHeight candidate.blocks =
        tipHeight chain.baseHeight chain.blocks := heq.symm
    rw [if_neg (not_lt.mpr heq'.ge), if_pos heq', cumulativeWork_of_lt (hwork heq'), ok_bind,
      ok.injEq, decide_eq_false_iff_not, not_le]
    exact hmore

end Comparing

/-! ## Replaying a candidate -/

/-- The root of the chain starts a replay that comes to a block which aborts. -/
def ReplaysIntoAbort (E : Node) (chain : Blockchain) : Prop :=
  ∃ anchor rest seed, chain.blocks = anchor :: rest ∧
    (anchor.hasValidPow E = true ∧ anchor.hasValidMerkleRoot E = true) ∧
    anchor.index = chain.baseHeight ∧ replaySeed E chain anchor = ok seed ∧
    ReplayAborts E chain.baseHeight [anchor] anchor seed rest

theorem replaySeed_ne_panicked {E : Env} {anchor : Block} : replaySeed E chain anchor ≠ panicked := by
  unfold replaySeed
  split <;>
    simp only [ne_eq, Outcome.bind_eq_panicked, ensure_ne_panicked, pure_eq, reduceCtorEq, and_false,
      exists_false, or_self, not_false_eq_true]

theorem rebuildState_eq_panicked (hE : E.saturation = .clamp)
    (hsane : ∀ root seed, chain.blocks.head? = some root → replaySeed E chain root = ok seed →
      Sane E seed)
    (hroom : chain.baseHeight.toNat + chain.blocks.length < 2 ^ 63) :
    rebuildState E chain = panicked ↔ ReplaysIntoAbort E chain := by
  have hreplay : ∀ anchor rest seed, chain.blocks = anchor :: rest →
      replaySeed E chain anchor = ok seed →
      (replayFrom E chain.baseHeight [anchor] anchor seed rest = panicked ↔
        ReplayAborts E chain.baseHeight [anchor] anchor seed rest) := by
    intro anchor rest seed hblocks hseed
    have hs := hsane anchor seed (by rw [hblocks]; rfl) hseed
    rw [hblocks, List.length_cons] at hroom
    exact replayFrom_eq_panicked hE hs (by rw [List.length_singleton]; omega)
  simp only [rebuildState, validateFull, Outcome.bind_eq_panicked, mapErr_eq_panicked,
    okOr_ne_panicked, okOr_eq_ok, ensure_ne_panicked, ensure_eq_ok, replaySeed_ne_panicked, pure_eq,
    reduceCtorEq, and_false, exists_false, or_false, false_or]
  constructor
  · rintro ⟨anchor, hhead, _, hvalid, _, hindex, seed, hseed, h⟩
    obtain ⟨rest, hblocks⟩ := List.head?_eq_some_iff.mp hhead
    rw [hblocks, List.tail_cons] at h
    exact ⟨anchor, rest, seed, hblocks, hvalid, hindex, hseed,
      (hreplay anchor rest seed hblocks hseed).mp h⟩
  · rintro ⟨anchor, rest, seed, hblocks, hvalid, hindex, hseed, h⟩
    refine ⟨anchor, by rw [hblocks]; rfl, (), hvalid, (), hindex, seed, hseed, ?_⟩
    rw [hblocks, List.tail_cons]
    exact (hreplay anchor rest seed hblocks hseed).mpr h

/-! ## Considering a candidate -/

/-- The candidate shares our root, repeats our final blocks and does not end in the future. -/
def Considers (chain candidate : Blockchain) (now : DateTime) : Prop :=
  (∃ ours theirs, chain.blocks.head? = some ours ∧ candidate.blocks.head? = some theirs ∧
    ours.hash = theirs.hash) ∧
  candidate.baseHeight = chain.baseHeight ∧
  (∀ i, chain.baseHeight.toNat + i ≤ chain.finalizedHeight.toNat →
    ∃ ours theirs, chain.blocks[i]? = some ours ∧ candidate.blocks[i]? = some theirs ∧
      ours.hash = theirs.hash) ∧
  ∀ tip, candidate.blocks.getLast? = some tip →
    ¬ (now.addSeconds maxTimestampSkewSeconds).before tip.timestamp

/-- The final blocks are there to compare with. -/
theorem checkFinalizedPrefix_ne_panicked {ours theirs : List Block} {l : List ℕ}
    (h : ∀ i ∈ l, i < ours.length) : checkFinalizedPrefix ours theirs l ≠ panicked := by
  induction l with
  | nil => simp only [checkFinalizedPrefix, ne_eq, reduceCtorEq, not_false_eq_true]
  | cons i rest ih =>
    have hi := List.getElem?_eq_getElem (h i List.mem_cons_self)
    have hrest := ih fun j hj => h j (List.mem_cons_of_mem _ hj)
    simp only [checkFinalizedPrefix, hi, plain_some, ok_bind, ne_eq, Outcome.bind_eq_panicked,
      okOr_ne_panicked, ensure_ne_panicked, hrest, and_false, exists_false, or_self,
      not_false_eq_true]

/-- A candidate aborts the node when its work cannot be computed, or when it is better and its
replay aborts. -/
def CandidateAborts (E : Node) (chain candidate : Blockchain) (now : DateTime) : Prop :=
  Considers chain candidate now ∧ (WorkOverflows chain candidate ∨
    chain.rank < rankOf chain.baseHeight candidate.blocks ∧
      ReplaysIntoAbort E (replayOf chain candidate))

/-- What is decided about a candidate that is considered. -/
theorem Considers.verdict (h : Considers chain candidate now) (hE : E.saturation = .clamp)
    (hcomparable : Comparable chain) (hsane : SaneSeed E chain) (hderived : Derived E chain)
    (hroom : chain.baseHeight.toNat + candidate.blocks.length < 2 ^ 63) {adopt : Blockchain → Blockchain} :
    (keepsOurs chain candidate = panicked ∨ ∃ keep, keepsOurs chain candidate = ok keep ∧
      (if keep = true then ok (false, chain) else
        (rebuildState E (replayOf chain candidate)).mapErr
          (fun err => "Candidate chain failed replay: " ++ err) >>= fun replay =>
            ok (true, adopt replay)) = panicked) ↔
    WorkOverflows chain candidate ∨ chain.rank < rankOf chain.baseHeight candidate.blocks ∧
      ReplaysIntoAbort E (replayOf chain candidate) := by
  obtain ⟨⟨ours, theirs, hours, htheirs, hroot⟩, hbase, -, -⟩ := h
  have hne : candidate.blocks ≠ [] := by
    intro hnil
    rw [hnil] at htheirs
    cases htheirs
  have hseeds : ∀ root seed, (replayOf chain candidate).blocks.head? = some root →
      replaySeed E (replayOf chain candidate) root = ok seed → Sane E seed := by
    intro root seed hhead hseed
    have hsame : root = theirs := by
      rw [show (replayOf chain candidate).blocks = candidate.blocks from rfl, htheirs,
        Option.some.injEq] at hhead
      exact hhead.symm
    refine hsane.of_network hderived rfl ?_ hseed
    rw [hours, hsame, Option.map_some, hroot]
  have hreplay := rebuildState_eq_panicked hE hseeds hroom
  have hoverflow := keepsOurs_eq_panicked hcomparable hne hbase (by omega)
  rw [hoverflow]
  by_cases hwork : WorkOverflows chain candidate
  · exact iff_of_true (.inl hwork) (.inl hwork)
  · rw [or_iff_right hwork, or_iff_right hwork,
      ← keepsOurs_eq_false hcomparable hne hbase (by omega) hwork]
    constructor
    · rintro ⟨keep, hkeep, h⟩
      cases keep with
      | true => cases h
      | false =>
        simp only [Bool.false_eq_true, if_false, Outcome.bind_eq_panicked, mapErr_eq_panicked,
          reduceCtorEq, and_false, exists_false, or_false] at h
        exact ⟨hkeep, hreplay.mp h⟩
    · rintro ⟨hkeep, h⟩
      refine ⟨false, hkeep, ?_⟩
      simp only [Bool.false_eq_true, if_false, Outcome.bind_eq_panicked, mapErr_eq_panicked,
        reduceCtorEq, and_false, exists_false, or_false]
      exact hreplay.mpr h

/-- A settled chain leaves room for its height. -/
theorem Settled.room (h : Settled chain) (hlen : chain.blocks.length < 2 ^ 63) :
    chain.baseHeight.toNat + chain.blocks.length < 2 ^ 64 := by
  obtain ⟨tip, htip, -⟩ := h.tip
  simp only [tipIndex, nextIndex, Outcome.bind_eq_ok, plain_eq_ok, Word.checkedAdd_eq_some] at htip
  obtain ⟨next, hnext, -⟩ := htip
  rw [Word.toNat_ofNat_of_lt (by omega)] at hnext
  have hlt := Word.toNat_lt next
  omega

/-- The final height lies at or above the root. -/
theorem Settled.finalizedLocal (h : Settled chain) :
    ∃ local', Word.checkedSub chain.finalizedHeight chain.baseHeight = some local' ∧
      chain.baseHeight.toNat + local'.toNat = chain.finalizedHeight.toNat := by
  obtain ⟨tip, -, hbase, -⟩ := h.tip
  refine ⟨_, if_pos hbase, ?_⟩
  rw [UInt64.toNat_sub_of_le _ _ hbase]
  rw [UInt64.le_iff_toNat_le] at hbase
  omega

theorem tryAdoptChain_eq_panicked (hE : E.saturation = .clamp) (hs : Settled chain)
    (h : Derived E chain) (hsane : SaneSeed E chain) (hlen : chain.blocks.length < 2 ^ 63)
    (hroom : chain.baseHeight.toNat + candidate.blocks.length < 2 ^ 63) :
    tryAdoptChain E chain candidate now = panicked ↔ CandidateAborts E chain candidate now := by
  obtain ⟨depth, hlocal, hdepth⟩ := hs.finalizedLocal
  have hcomparable : Comparable chain := ⟨hs.nonempty, hs.room hlen, h.work_lt hlen⟩
  have hprefix : checkFinalizedPrefix chain.blocks candidate.blocks
      (List.range (depth.toNat + 1)) ≠ panicked := by
    refine checkFinalizedPrefix_ne_panicked fun i hi => ?_
    rw [List.mem_range] at hi
    have hle : chain.baseHeight.toNat + i ≤ chain.finalizedHeight.toNat := by omega
    have hlt := hs.lt_length hlen hle
    omega
  simp only [tryAdoptChain, Outcome.bind_eq_panicked, okOr_ne_panicked, okOr_eq_ok,
    ensure_ne_panicked, ensure_eq_ok, plain_eq_panicked, plain_eq_ok, hlocal, hprefix, pure_eq,
    reduceCtorEq, false_or, Option.some.injEq, exists_eq_left', CandidateAborts]
  constructor
  · rintro ⟨ours, hours, theirs, htheirs, _, hroot, _, hfinal, _, hnow, hverdict⟩
    rw [not_or, not_not, not_not] at hroot
    have hconsiders : Considers chain candidate now := by
      refine ⟨⟨ours, theirs, hours, htheirs, hroot.1⟩, hroot.2.symm, fun i hi => ?_, fun tip htip => ?_⟩
      · exact checkFinalizedPrefix_eq_ok.mp hfinal i (List.mem_range.mpr (by omega))
      · rw [htip, Option.any_some, decide_eq_true_eq] at hnow
        exact hnow
    exact ⟨hconsiders, (hconsiders.verdict hE hcomparable hsane h hroom).mp hverdict⟩
  · rintro ⟨hconsiders, hverdict⟩
    obtain ⟨⟨ours, theirs, hours, htheirs, hroot⟩, hbase, hfinal, hnow⟩ := hconsiders
    refine ⟨ours, hours, theirs, htheirs, (), not_or.mpr ⟨not_not.mpr hroot, not_not.mpr hbase.symm⟩,
      (), checkFinalizedPrefix_eq_ok.mpr fun i hi => hfinal i ?_, (), ?_,
      (Considers.verdict ⟨⟨ours, theirs, hours, htheirs, hroot⟩, hbase, hfinal, hnow⟩ hE hcomparable
        hsane h hroom).mpr hverdict⟩
    · rw [List.mem_range] at hi
      omega
    · cases htip : candidate.blocks.getLast? with
      | none => simp only [Option.any_none, Bool.false_eq_true, not_false_eq_true]
      | some tip =>
        rw [Option.any_some, decide_eq_true_eq]
        exact hnow tip htip

end Blockchain

namespace Sample

open Blockchain NodeState

theorem started_joined : Joined (node [reward]) started.chain :=
  .genesis (E := node [reward]) address_valid newWithGenesisOnChain_root

/-- The root of the toy network. -/
def rootBlock : Block := genesisBlock [reward] 1000000000000000

/-- The root, and once more the root with a claim of difficulty 32. -/
def boast : Blockchain :=
  { started.chain with blocks := [rootBlock, { rootBlock with difficulty := 32 }] }

/-- The work of the root and the saturated work of the claim leave 128 bits. -/
theorem le_work_boast : 2 ^ 128 ≤ work boast.blocks := by
  show 2 ^ 128 ≤ [Pow.workForDifficulty 1, Pow.workForDifficulty 32].sum
  decide

end Sample

namespace Blockchain

open NodeState

/-- A node considers a candidate without aborting, whatever the candidate holds, unless the
candidate's claimed work leaves 128 bits at equal height or a better candidate's replay comes to a
transaction that aborts. -/
theorem candidate_safe_iff {E : Node} {start s : NodeState} {candidate : Blockchain}
    (hE : E.saturation = .clamp) (hjoined : Joined E start.chain)
    (hrun : Run E (fun _ _ => True) start s)
    (hroom : s.chain.baseHeight.toNat + candidate.blocks.length < 2 ^ 63) (now : DateTime) :
    tryAdoptChain E s.chain candidate now ≠ panicked ↔ ¬ CandidateAborts E s.chain candidate now := by
  have hrooted := hjoined.rooted
  have hgrounded := hrun.grounded hrooted.derived
  have hsane := (hjoined.saneSeed hE).grounded hrooted.derived hgrounded
  exact not_congr (tryAdoptChain_eq_panicked hE (hrun.settled hrooted.settled) hgrounded.derived hsane
    s.fits hroom)

/-- A fresh node that is offered its own chain. -/
theorem candidate_safe_iff_sample :
    tryAdoptChain (Sample.node [Sample.reward]) Sample.started.chain Sample.started.chain
      Sample.morning ≠ panicked := by
  refine (candidate_safe_iff rfl Sample.started_joined .refl (by decide) Sample.morning).mpr ?_
  have hwork := Sample.started_joined.rooted.derived.work_lt (by decide)
  rintro ⟨-, ⟨-, hover⟩ | ⟨hrank, -⟩⟩
  · exact absurd hwork (not_lt.mpr hover)
  · exact lt_irrefl _ hrank

/-- A node with one block on its genesis aborts on two blocks nobody has mined. -/
theorem candidate_unsafe :
    ∃ s, Joined (Sample.node [Sample.reward]) Sample.started.chain ∧
      Run (Sample.node [Sample.reward]) (fun _ _ => True) Sample.started s ∧
      Sample.boast.blocks.length = 2 ∧
      tryAdoptChain (Sample.node [Sample.reward]) s.chain Sample.boast Sample.morning = panicked := by
  obtain ⟨s, hstep, halone, hzero, hlen, -⟩ := Sample.exists_step_extend _ 1 0
    Sample.started_alone (by decide) (by decide) (by decide)
  have hlen : s.chain.blocks.length = 2 := hlen
  have hjoined := Sample.started_joined
  have hrun : Run (Sample.node [Sample.reward]) (fun _ _ => True) Sample.started s :=
    .tail .refl trivial hstep
  have hgrounded := hrun.grounded hjoined.rooted.derived
  have hsane := (hjoined.saneSeed rfl).grounded hjoined.rooted.derived hgrounded
  obtain ⟨ours, rest, hblocks⟩ := List.exists_cons_of_ne_nil halone.nonempty
  have hroot : ours.hash = Sample.rootBlock.hash := by
    have hhead := hgrounded.root
    rw [hblocks, List.head?_cons, Option.map_some] at hhead
    exact Option.some.inj hhead
  refine ⟨s, hjoined, hrun, rfl, (tryAdoptChain_eq_panicked rfl (hrun.settled hjoined.rooted.settled)
    hgrounded.derived hsane s.fits (by rw [halone.base]; decide)).mpr ⟨?_, .inl ⟨?_, ?_⟩⟩⟩
  · refine ⟨⟨ours, Sample.rootBlock, by rw [hblocks]; rfl, rfl, hroot⟩, halone.base.symm,
      fun i hi => ?_, fun tip htip => ?_⟩
    · rw [halone.base, hzero] at hi
      obtain rfl : i = 0 := by simpa using hi
      exact ⟨ours, Sample.rootBlock, by rw [hblocks]; rfl, rfl, hroot⟩
    · obtain rfl : { Sample.rootBlock with difficulty := 32 } = tip := Option.some.inj htip
      show ¬ (Sample.morning.addSeconds _).before (DateTime.ofTimestamp genesisTimestamp)
      decide
  · rw [halone.base, tipHeight, tipHeight, hlen]
    rfl
  · exact Sample.le_work_boast

end Blockchain
