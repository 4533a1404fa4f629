/-
# Fork choice

`try_adopt_chain` either leaves the chain alone or replaces its blocks by a replayed, strictly
better list with the same final prefix.  Chains are ranked by tip height and then by work, so
that a finite set of chains allows finitely many adoptions.
-/
import Mathlib.Tactic
import Hikmalayer.Consensus.Growth

open Outcome

namespace Blockchain

variable {E : Node} {chain chain' candidate : Blockchain} {now : DateTime}

/-! ## In place -/

/-- Fork choice in place: the chain is read, and written only when the decision is made. -/
def tryAdopt (E : Node) (candidate : Blockchain) (now : DateTime) :
    Exec String Blockchain Bool := do
  let r ← Exec.read fun chain => tryAdoptChain E chain candidate now
  Exec.modify fun _ => r.2
  return r.1

theorem tryAdopt_eq_ok {adopted : Bool} :
    tryAdopt E candidate now chain = ok (adopted, chain') ↔
      tryAdoptChain E chain candidate now = ok (adopted, chain') := by
  simp only [tryAdopt, Exec.bind_eq_ok, Exec.read_eq_ok, Exec.modify_apply, ok.injEq,
    Prod.mk.injEq, Exec.pure_apply]
  constructor
  · rintro ⟨⟨b, c⟩, _, ⟨h, rfl⟩, _, _, ⟨-, rfl⟩, rfl, rfl⟩
    exact h
  · intro h
    exact ⟨_, _, ⟨h, rfl⟩, (), _, ⟨trivial, rfl⟩, rfl, rfl⟩

theorem tryAdopt_err {e : String} (h : tryAdopt E candidate now chain = err (e, chain')) :
    chain' = chain := by
  simp only [tryAdopt, Exec.bind_eq_err, Exec.read_eq_err, Exec.modify_apply, Exec.pure_apply,
    reduceCtorEq, and_false, exists_false, or_false] at h
  exact h.2.symm

/-! ## The rank of a chain -/

/-- The height of the last block, as `tip_index` computes it. -/
def tipHeight (baseHeight : UInt64) (blocks : List Block) : ℕ :=
  baseHeight.toNat + (UInt64.ofNat blocks.length).toNat - 1

/-- The expected work behind some blocks. -/
def work (blocks : List Block) : ℕ :=
  (blocks.map fun b => Pow.workForDifficulty b.difficulty).sum

/-- Tip height first, then work. -/
def rankOf (baseHeight : UInt64) (blocks : List Block) : ℕ ×ₗ ℕ :=
  toLex (tipHeight baseHeight blocks, work blocks)

def rank (chain : Blockchain) : ℕ ×ₗ ℕ := rankOf chain.baseHeight chain.blocks

theorem tipIndex_eq_ok {ε : Type} {tip : UInt64} (h : (chain.tipIndex : Outcome ε UInt64) = ok tip) :
    tip.toNat = tipHeight chain.baseHeight chain.blocks := by
  simp only [tipIndex, nextIndex, Outcome.bind_eq_ok, plain_eq_ok, pure_eq, ok.injEq,
    Word.checkedAdd_eq_some] at h
  obtain ⟨next, hnext, rfl⟩ := h
  rw [Word.saturatingSub_toNat, hnext]
  rfl

theorem wideSum_eq_some {l : List ℕ} : ∀ {acc n : ℕ}, wideSum acc l = some n → n = acc + l.sum := by
  induction l with
  | nil =>
    intro acc n h
    rw [wideSum, Option.some.injEq] at h
    rw [List.sum_nil, Nat.add_zero, h]
  | cons a rest ih =>
    intro acc n h
    rw [wideSum, Option.bind_eq_some_iff] at h
    obtain ⟨acc', hadd, h⟩ := h
    rw [Word.wideAdd_eq_some] at hadd
    rw [ih h, hadd.1, List.sum_cons, Nat.add_assoc]

theorem cumulativeWork_eq_ok {ε : Type} {n : ℕ} (h : (chain.cumulativeWork : Outcome ε ℕ) = ok n) :
    n = work chain.blocks := by
  rw [cumulativeWork, plain_eq_ok] at h
  rw [wideSum_eq_some h, Nat.zero_add, work]

/-- A candidate that is not kept out is ranked higher. -/
theorem keepsOurs_false (h : keepsOurs chain candidate = ok false)
    (hbase : chain.baseHeight = candidate.baseHeight) :
    chain.rank < rankOf chain.baseHeight candidate.blocks := by
  simp only [keepsOurs, Outcome.bind_eq_ok] at h
  obtain ⟨ourTip, hour, theirTip, htheir, h⟩ := h
  have hours := tipIndex_eq_ok hour
  have htheirs := tipIndex_eq_ok htheir
  rw [← hbase] at htheirs
  rw [rank, rankOf, rankOf, Prod.Lex.toLex_lt_toLex]
  show tipHeight _ _ < tipHeight _ _ ∨ tipHeight _ _ = tipHeight _ _ ∧ work _ < work _
  rw [← hours, ← htheirs]
  split at h
  · rw [pure_eq, ok.injEq] at h
    cases h
  · rename_i hlt
    rw [UInt64.lt_iff_toNat_lt, not_lt] at hlt
    split at h
    · rename_i htip
      simp only [Outcome.bind_eq_ok, pure_eq, ok.injEq, decide_eq_false_iff_not, not_le] at h
      obtain ⟨theirWork, hw', ourWork, hw, hwork⟩ := h
      right
      rw [← cumulativeWork_eq_ok hw', ← cumulativeWork_eq_ok hw]
      exact ⟨by rw [htip], hwork⟩
    · rename_i htip
      left
      have hne : ourTip.toNat ≠ theirTip.toNat := fun heq => htip (UInt64.toNat_inj.mp heq.symm)
      omega

/-! ## The final prefix -/

/-- The check passes exactly when the candidate repeats the hashes at all the positions. -/
theorem checkFinalizedPrefix_eq_ok {ours theirs : List Block} {l : List ℕ} :
    checkFinalizedPrefix ours theirs l = ok () ↔
      ∀ i ∈ l, ∃ b b', ours[i]? = some b ∧ theirs[i]? = some b' ∧ b.hash = b'.hash := by
  induction l with
  | nil => exact ⟨fun _ i hi => absurd hi List.not_mem_nil, fun _ => rfl⟩
  | cons j rest ih =>
    simp only [checkFinalizedPrefix, Outcome.bind_eq_ok, plain_eq_ok, okOr_eq_ok, ensure_eq_ok, ih]
    constructor
    · rintro ⟨b, hb, b', hb', _, hhash, hrest⟩ i hi
      rcases List.mem_cons.mp hi with rfl | hi
      · exact ⟨b, b', hb, hb', hhash⟩
      · exact hrest i hi
    · intro h
      obtain ⟨b, b', hb, hb', hhash⟩ := h j List.mem_cons_self
      exact ⟨b, hb, b', hb', (), hhash, fun i hi => h i (List.mem_cons_of_mem _ hi)⟩

/-! ## Adoption -/

/-- A replay under the same parameters starts alike at every root of one hash. -/
theorem replaySeed_unique {root root' : Block} {seed seed' : Replay} {blocks : List Block}
    {state : ChainState} {randomness : String} {difficulty : UInt64}
    (hhash : root'.hash = root.hash)
    (hseed' : replaySeed E { chain with
      blocks := blocks
      state := state
      randomness := randomness
      currentDifficulty := difficulty } root' = ok seed')
    (hseed : replaySeed E chain root = ok seed) : seed' = seed := by
  unfold replaySeed at hseed hseed'
  cases hcp : chain.checkpoint with
  | some cp =>
    simp only [hcp, Outcome.bind_eq_ok, ensure_eq_ok, pure_eq, ok.injEq] at hseed hseed'
    obtain ⟨_, _, rfl⟩ := hseed
    obtain ⟨_, _, rfl⟩ := hseed'
    rfl
  | none =>
    simp only [hcp, Outcome.bind_eq_ok, ensure_eq_ok, pure_eq, ok.injEq] at hseed hseed'
    obtain ⟨_, _, rfl⟩ := hseed
    obtain ⟨_, _, rfl⟩ := hseed'
    rw [hhash]
    rfl

/-- How an adopted chain relates to the one before and to the candidate. -/
structure Adopted (E : Node) (chain candidate chain' : Blockchain) : Prop where
  /-- The blocks are the candidate's. -/
  blocks : chain'.blocks = candidate.blocks
  /-- Every parameter of the network and the root are our own. -/
  own : chain' = { chain with
    blocks := chain'.blocks
    state := chain'.state
    randomness := chain'.randomness
    currentDifficulty := chain'.currentDifficulty }
  /-- The blocks replay from our root to exactly the derived fields. -/
  derived : Derived E chain'
  /-- The root carries the same hash. -/
  root : chain'.blocks.head?.map Block.hash = chain.blocks.head?.map Block.hash
  /-- The replay starts where a replay of our own blocks does. -/
  seed : ∀ root root' seed seed', chain.blocks.head? = some root →
    chain'.blocks.head? = some root' → replaySeed E chain root = ok seed →
    replaySeed E chain' root' = ok seed' → seed' = seed
  /-- Up to the finalized height the hashes are the same. -/
  finalized : chain.baseHeight ≤ chain.finalizedHeight ∧
    ∀ i, chain.baseHeight.toNat + i ≤ chain.finalizedHeight.toNat →
      ∃ b b', chain.blocks[i]? = some b ∧ chain'.blocks[i]? = some b' ∧ b.hash = b'.hash
  /-- The rank grows. -/
  better : chain.rank < chain'.rank

theorem tryAdoptChain_false (h : tryAdoptChain E chain candidate now = ok (false, chain')) :
    chain' = chain := by
  simp only [tryAdoptChain, Outcome.bind_eq_ok] at h
  obtain ⟨_, -, _, -, _, -, _, -, _, -, _, -, keep, -, h⟩ := h
  split at h
  · rw [pure_eq, ok.injEq, Prod.mk.injEq] at h
    exact h.2.symm
  · simp only [Outcome.bind_eq_ok, pure_eq, ok.injEq, Prod.mk.injEq, Bool.true_eq_false, false_and,
      and_false, exists_false] at h

theorem tryAdoptChain_true (h : tryAdoptChain E chain candidate now = ok (true, chain')) :
    Adopted E chain candidate chain' := by
  simp only [tryAdoptChain, Outcome.bind_eq_ok, okOr_eq_ok, ensure_eq_ok, plain_eq_ok,
    Word.checkedSub_eq_some, not_or, not_not] at h
  obtain ⟨ourRoot, hours, theirRoot, htheirs, _, ⟨hroot, hbase⟩, finalizedLocal, hfinal, _, hprefix,
    _, -, keep, hkeep, h⟩ := h
  split at h
  · rw [pure_eq, ok.injEq, Prod.mk.injEq] at h
    cases h.1
  · rename_i hk
    rw [Bool.not_eq_true] at hk
    subst hk
    simp only [Outcome.bind_eq_ok, mapErr_eq_ok, pure_eq, ok.injEq, Prod.mk.injEq, true_and] at h
    obtain ⟨replay, hreplay, rfl⟩ := h
    obtain ⟨hderived, hfields⟩ := derived_of_rebuildState hreplay
    have hblocks : replay.blocks = candidate.blocks := by rw [hfields]; rfl
    have hsame : { chain with
        blocks := replay.blocks
        state := replay.state
        randomness := replay.randomness
        currentDifficulty := replay.currentDifficulty } =
        { replay with finalizedHeight := chain.finalizedHeight } := by
      rw [hfields]
      rfl
    constructor
    case blocks => exact hblocks
    case own => rfl
    case derived =>
      rw [hsame]
      exact hderived
    case root =>
      show replay.blocks.head?.map Block.hash = _
      rw [hblocks, htheirs, hours, Option.map_some, Option.map_some, hroot]
    case seed =>
      intro root root' seed seed' hhead hhead' hseed hseed'
      rw [hours, Option.some.injEq] at hhead
      rw [show replay.blocks.head? = candidate.blocks.head? by rw [hblocks], htheirs,
        Option.some.injEq] at hhead'
      subst hhead hhead'
      exact replaySeed_unique hroot.symm hseed' hseed
    case finalized =>
      refine ⟨UInt64.le_iff_toNat_le.mpr (by omega), fun i hi => ?_⟩
      obtain ⟨b, b', hb, hb', hhash⟩ := checkFinalizedPrefix_eq_ok.mp hprefix i
        (List.mem_range.mpr (by omega))
      refine ⟨b, b', hb, ?_, hhash⟩
      show replay.blocks[i]? = _
      rw [hblocks]
      exact hb'
    case better =>
      have hrank := keepsOurs_false hkeep hbase
      rw [← hblocks] at hrank
      exact hrank

/-- Of the candidate only the blocks and the base height matter. -/
theorem tryAdoptChain_congr {candidate' : Blockchain} (hblocks : candidate'.blocks = candidate.blocks)
    (hbase : candidate'.baseHeight = candidate.baseHeight) :
    tryAdoptChain E chain candidate' now = tryAdoptChain E chain candidate now := by
  simp only [tryAdoptChain, keepsOurs, tipIndex, nextIndex, cumulativeWork, replayOf, hblocks, hbase]

/-! ## Exchanging chains -/

/-- The candidates of a finite set that would still rank above a chain. -/
def above (pool : Finset (List Block)) (chain : Blockchain) : Finset (List Block) :=
  pool.filter fun blocks => chain.rank < rankOf chain.baseHeight blocks

/-- An adoption leaves fewer candidates above. -/
theorem Adopted.above_lt {pool : Finset (List Block)} (h : Adopted E chain candidate chain')
    (hpool : candidate.blocks ∈ pool) : (above pool chain').card < (above pool chain).card := by
  have hbase : chain'.baseHeight = chain.baseHeight := by rw [h.own]
  have hrank : chain'.rank = rankOf chain.baseHeight candidate.blocks := by
    rw [rank, hbase, h.blocks]
  have hsub : above pool chain' ⊆ above pool chain := by
    intro blocks hb
    rw [above, Finset.mem_filter] at hb ⊢
    rw [hbase] at hb
    exact ⟨hb.1, h.better.trans hb.2⟩
  refine Finset.card_lt_card ⟨hsub, fun hback => ?_⟩
  have hmem : candidate.blocks ∈ above pool chain := by
    rw [above, Finset.mem_filter, ← hrank]
    exact ⟨hpool, h.better⟩
  have hself := hback hmem
  rw [above, Finset.mem_filter, hbase, ← hrank] at hself
  exact lt_irrefl _ hself.2

section Exchange

variable {ι : Type}

/-- A chain that reaches one of the nodes. -/
structure Offer (ι : Type) where
  node : ι
  candidate : Blockchain
  now : DateTime

variable [DecidableEq ι]

/-- Whether an offer is adopted, and the chains of the nodes after it. -/
def offer (E : Node) (nodes : ι → Blockchain) (o : Offer ι) : Bool × (ι → Blockchain) :=
  match tryAdopt E o.candidate o.now (nodes o.node) with
  | ok (adopted, chain) => (adopted, Function.update nodes o.node chain)
  | err (_, chain) => (false, Function.update nodes o.node chain)
  | panicked => (false, nodes)

/-- The number of adoptions while offers arrive one after the other. -/
def adoptions (E : Node) : (ι → Blockchain) → List (Offer ι) → ℕ
  | _, [] => 0
  | nodes, o :: rest =>
    (if (offer E nodes o).1 then 1 else 0) + adoptions E (offer E nodes o).2 rest

/-- An offer is an adoption by its node, or leaves every node alone. -/
theorem offer_cases (nodes : ι → Blockchain) (o : Offer ι) :
    (∃ chain, Adopted E (nodes o.node) o.candidate chain ∧
      offer E nodes o = (true, Function.update nodes o.node chain)) ∨
    offer E nodes o = (false, nodes) := by
  rcases h : tryAdopt E o.candidate o.now (nodes o.node) with ⟨adopted, chain⟩ | ⟨e, chain⟩ | _
  · cases adopted with
    | true =>
      left
      exact ⟨chain, tryAdoptChain_true (tryAdopt_eq_ok.mp h), by rw [offer, h]⟩
    | false =>
      right
      rw [offer, h, tryAdoptChain_false (tryAdopt_eq_ok.mp h)]
      show (false, Function.update nodes o.node (nodes o.node)) = _
      rw [Function.update_eq_self]
  · right
    rw [offer, h, tryAdopt_err h]
    show (false, Function.update nodes o.node (nodes o.node)) = _
    rw [Function.update_eq_self]
  · right
    rw [offer, h]

variable [Fintype ι]

/-- However often the chains of a finite set are offered, the adoptions are at most the
candidates that rank above the nodes at the start. -/
theorem adoptions_le_above (pool : Finset (List Block)) (offers : List (Offer ι)) :
    ∀ nodes : ι → Blockchain, (∀ o ∈ offers, o.candidate.blocks ∈ pool) →
      adoptions E nodes offers ≤ ∑ i, (above pool (nodes i)).card := by
  induction offers with
  | nil => intro nodes _; exact Nat.zero_le _
  | cons o rest ih =>
    intro nodes hpool
    have hrest := fun nodes' => ih nodes' fun o' ho' => hpool o' (List.mem_cons_of_mem _ ho')
    rcases offer_cases (E := E) nodes o with ⟨chain, hadopted, ho⟩ | ho
    · have hlt := hadopted.above_lt (hpool o List.mem_cons_self)
      have hsum : ∑ i, (above pool (Function.update nodes o.node chain i)).card <
          ∑ i, (above pool (nodes i)).card := by
        refine Finset.sum_lt_sum (fun i _ => ?_) ⟨o.node, Finset.mem_univ _, ?_⟩
        · by_cases hi : i = o.node
          · subst hi
            rw [Function.update_self]
            exact hlt.le
          · rw [Function.update_of_ne hi]
        · rw [Function.update_self]
          exact hlt
      have hle := hrest (Function.update nodes o.node chain)
      rw [adoptions, ho]
      show 1 + adoptions E (Function.update nodes o.node chain) rest ≤ _
      omega
    · rw [adoptions, ho]
      show 0 + adoptions E nodes rest ≤ _
      rw [Nat.zero_add]
      exact hrest nodes

/-- Nodes that exchange a finite set of chains adopt finitely often. -/
theorem adoptions_le (pool : Finset (List Block)) (offers : List (Offer ι))
    (nodes : ι → Blockchain) (hpool : ∀ o ∈ offers, o.candidate.blocks ∈ pool) :
    adoptions E nodes offers ≤ Fintype.card ι * pool.card := by
  calc adoptions E nodes offers
      ≤ ∑ i, (above pool (nodes i)).card := adoptions_le_above pool offers nodes hpool
    _ ≤ ∑ _i : ι, pool.card := Finset.sum_le_sum fun i _ => Finset.card_filter_le _ _
    _ = Fintype.card ι * pool.card := by
      rw [Finset.sum_const, Finset.card_univ, smul_eq_mul]

end Exchange

/-! ## A child is adopted -/

theorem tipIndex_of_lt {ε : Type} (hne : chain.blocks ≠ [])
    (h : chain.baseHeight.toNat + chain.blocks.length < 2 ^ 64) :
    (chain.tipIndex : Outcome ε UInt64) =
      ok (UInt64.ofNat (chain.baseHeight.toNat + chain.blocks.length - 1)) := by
  have hpos : 0 < chain.blocks.length := List.length_pos_iff.mpr hne
  have hone : (1 : UInt64).toNat = 1 := rfl
  have hnext : Word.checkedAdd chain.baseHeight (UInt64.ofNat chain.blocks.length) =
      some (UInt64.ofNat (chain.baseHeight.toNat + chain.blocks.length)) := by
    rw [Word.checkedAdd_eq_some, Word.toNat_ofNat_of_lt h, Word.toNat_ofNat_of_lt (by omega)]
  rw [tipIndex, nextIndex, hnext, plain_some, ok_bind, pure_eq, ok.injEq]
  refine Word.toNat_ext ?_
  rw [Word.saturatingSub_toNat, hone, Word.toNat_ofNat_of_lt h, Word.toNat_ofNat_of_lt (by omega)]

/-- A chain is replaced by one with another valid block on top. -/
theorem tryAdopt_child {block : Block} (h : Derived E chain)
    (hroom : chain.blocks.length + 1 < 2 ^ 64) (hbase : chain.baseHeight ≤ chain.finalizedHeight)
    (hfinal : chain.finalizedHeight.toNat < chain.baseHeight.toNat + chain.blocks.length)
    (ha : accept E now chain block = ok chain') :
    tryAdopt E chain' now chain = ok (true, chain') := by
  have hderived := h.accept hroom ha
  obtain ⟨htime, parent, r, hparent, hstep, rfl⟩ := (accept_eq_ok hroom).mp ha
  obtain ⟨index, hindex, -, -, hretarget⟩ := advance_eq_ok.mp hstep
  have hlt := retarget_room hretarget
  rw [Word.checkedAdd_eq_some, Word.toNat_ofNat_of_lt (by omega)] at hindex
  have hlen : (chain.extended block r).blocks.length = chain.blocks.length + 1 := by
    simp [extended]
  obtain ⟨root, rest, hblocks⟩ := List.exists_cons_of_ne_nil h.blocks_ne_nil
  have hsub : Word.checkedSub chain.finalizedHeight chain.baseHeight =
      some (chain.finalizedHeight - chain.baseHeight) :=
    Word.checkedSub_of_le (UInt64.le_iff_toNat_le.mp hbase)
  have hkeep : keepsOurs chain (chain.extended block r) = ok false := by
    have hours : (chain.tipIndex : Outcome String UInt64) = _ :=
      tipIndex_of_lt h.blocks_ne_nil (by omega)
    have htheirs : ((chain.extended block r).tipIndex : Outcome String UInt64) = _ :=
      tipIndex_of_lt hderived.blocks_ne_nil
        (show chain.baseHeight.toNat + _ < _ by rw [hlen]; omega)
    have hpos : 0 < chain.blocks.length := List.length_pos_iff.mpr h.blocks_ne_nil
    have hgt : UInt64.ofNat (chain.baseHeight.toNat + chain.blocks.length - 1) <
        UInt64.ofNat ((chain.extended block r).baseHeight.toNat +
          (chain.extended block r).blocks.length - 1) := by
      rw [UInt64.lt_iff_toNat_lt, hlen, Word.toNat_ofNat_of_lt (by omega)]
      show _ < (UInt64.ofNat (chain.baseHeight.toNat + _ - 1)).toNat
      rw [Word.toNat_ofNat_of_lt (by omega)]
      omega
    rw [keepsOurs, hours, ok_bind, htheirs, ok_bind, if_neg (UInt64.not_lt.mpr (UInt64.le_of_lt hgt)),
      if_neg (UInt64.ne_of_lt hgt).symm, pure_eq]
  rw [tryAdopt_eq_ok]
  simp only [tryAdoptChain, Outcome.bind_eq_ok, okOr_eq_ok, ensure_eq_ok, plain_eq_ok]
  refine ⟨root, by rw [hblocks]; rfl, root, ?_, (), by simp [extended], _, hsub, (), ?_, (), ?_,
    false, hkeep, ?_⟩
  · show (chain.blocks ++ [block]).head? = some root
    rw [hblocks]
    rfl
  · refine checkFinalizedPrefix_eq_ok.mpr fun i hi => ?_
    have hdiff := Word.checkedSub_eq_some.mp hsub
    have hi : i < chain.blocks.length := by
      have hrange := List.mem_range.mp hi
      omega
    refine ⟨chain.blocks[i], chain.blocks[i], List.getElem?_eq_getElem hi, ?_, rfl⟩
    show (chain.blocks ++ [block])[i]? = _
    rw [List.getElem?_append_left hi, List.getElem?_eq_getElem hi]
  · show ¬ ((chain.blocks ++ [block]).getLast?.any _) = true
    rw [List.getLast?_concat]
    simpa using htime
  · have hrebuild : Blockchain.rebuildState E (replayOf chain (chain.extended block r)) =
        ok { chain.extended block r with finalizedHeight := chain.baseHeight } :=
      Derived.rebuildState (show Derived E { chain.extended block r with
        finalizedHeight := chain.baseHeight } from hderived)
    rw [if_neg Bool.false_ne_true, hrebuild]
    rfl

/-- Fork choice is safe, strict and atomic. -/
theorem fork_choice (E : Node) :
    (∀ chain candidate now e chain',
      tryAdopt E candidate now chain = err (e, chain') → chain' = chain) ∧
    (∀ chain candidate now chain',
      tryAdopt E candidate now chain = ok (false, chain') → chain' = chain) ∧
    (∀ chain candidate now chain',
      tryAdopt E candidate now chain = ok (true, chain') → Adopted E chain candidate chain') ∧
    (∀ chain candidate candidate' now, candidate'.blocks = candidate.blocks →
      candidate'.baseHeight = candidate.baseHeight →
      tryAdopt E candidate' now chain = tryAdopt E candidate now chain) ∧
    (∀ (ι : Type) [Fintype ι] [DecidableEq ι] (pool : Finset (List Block))
      (offers : List (Offer ι)) (nodes : ι → Blockchain),
      (∀ o ∈ offers, o.candidate.blocks ∈ pool) →
      adoptions E nodes offers ≤ Fintype.card ι * pool.card) := by
  refine ⟨?_, ?_, ?_, ?_, ?_⟩
  · intro chain candidate now e chain' h
    exact tryAdopt_err h
  · intro chain candidate now chain' h
    exact tryAdoptChain_false (tryAdopt_eq_ok.mp h)
  · intro chain candidate now chain' h
    exact tryAdoptChain_true (tryAdopt_eq_ok.mp h)
  · intro chain candidate candidate' now hblocks hbase
    simp only [tryAdopt, tryAdoptChain_congr hblocks hbase]
  · intro ι _ _ pool offers nodes hpool
    exact adoptions_le pool offers nodes hpool

/-- A genesis node adopts the chain with one block. -/
theorem fork_choice_sample :
    ∃ chain', tryAdopt (Sample.node [Sample.reward])
        (Sample.chainOf [Sample.reward] 1000000000000000 1) Sample.morning
        (Sample.root [Sample.reward] 1000000000000000) = ok (true, chain') ∧
      Adopted (Sample.node [Sample.reward]) (Sample.root [Sample.reward] 1000000000000000)
        (Sample.chainOf [Sample.reward] 1000000000000000 1) chain' := by
  have hderived : Derived (Sample.node [Sample.reward])
      (Sample.root [Sample.reward] 1000000000000000) :=
    derived_genesis (E := Sample.node [Sample.reward]) Sample.newWithGenesisOnChain_root
  have haccept := Sample.accept_chainOf (show genesisValidatorStake ≤ 1000000000000000 by decide)
    (show 0 < 18 by decide)
    (show (Sample.env [Sample.reward]).parseTx "reward" = some Sample.reward from rfl)
  have hadopt := tryAdopt_child hderived (by decide) (by decide) (by decide) haccept
  exact ⟨_, hadopt, (fork_choice (Sample.node [Sample.reward])).2.2.1 _ _ _ _ hadopt⟩

end Blockchain
