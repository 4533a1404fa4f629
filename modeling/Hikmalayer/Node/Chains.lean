/-
# The chain under the handlers

What appending a block, a batch or a mined block does to the chain that the handlers share, and
what a plan for a block holds of the pool.
-/
import Mathlib.Tactic
import Hikmalayer.Model.Server
import Hikmalayer.Consensus.Extension
import Hikmalayer.Consensus.Finality

open Outcome

namespace Blockchain

variable {E : Node} {now : DateTime} {chain chain' : Blockchain} {block : Block} {depth : UInt64}

/-! ## Appending -/

theorem held_eq_ok : chain.held = ok chain' ↔ chain.blocks.length < 2 ^ 63 ∧ chain' = chain := by
  by_cases h : chain.blocks.length < 2 ^ 63
  · rw [held, if_pos h, ok.injEq]
    exact ⟨fun heq => ⟨h, heq.symm⟩, fun heq => heq.2.symm⟩
  · rw [held, if_neg h]
    exact ⟨fun heq => absurd heq (by simp), fun heq => absurd heq.1 h⟩

/-- Appending is accepting, while the chain can be held. -/
theorem append_eq_ok : append E now chain block = ok chain' ↔
    accept E now chain block = ok chain' ∧ chain'.blocks.length < 2 ^ 63 := by
  simp only [append, accept, Outcome.bind_eq_ok, held_eq_ok]
  constructor
  · rintro ⟨post, hpost, mid, hmid, hheld, rfl⟩
    exact ⟨⟨post, hpost, hmid⟩, hheld⟩
  · rintro ⟨⟨post, hpost, hmid⟩, hheld⟩
    exact ⟨post, hpost, _, hmid, hheld, rfl⟩

theorem accept_blocks (h : accept E now chain block = ok chain') :
    chain'.blocks = chain.blocks ++ [block] := by
  obtain ⟨r, rfl⟩ := accept_extended h
  rfl

theorem appendFinal_eq_ok : appendFinal E now depth chain block = ok chain' ↔
    ∃ mid, accept E now chain block = ok mid ∧ mid.blocks.length < 2 ^ 63 ∧
      (mid.applyFinality depth : Outcome String Blockchain) = ok chain' := by
  simp only [appendFinal, Outcome.bind_eq_ok, append_eq_ok, and_assoc]

theorem appendFinal_blocks (h : appendFinal E now depth chain block = ok chain') :
    chain'.blocks = chain.blocks ++ [block] := by
  obtain ⟨mid, haccept, -, hfinal⟩ := appendFinal_eq_ok.mp h
  rw [applyFinality_blocks hfinal, accept_blocks haccept]

/-- A fetched batch is appended up to the first block that fails. -/
theorem appendAll_blocks {blocks : List Block} : ∀ {chain : Blockchain} {accepted accepted' : List Block}
    {diverged : Bool}, appendAll E now accepted chain blocks = ok (chain', accepted', diverged) →
      ∃ new, accepted' = accepted ++ new ∧ chain'.blocks = chain.blocks ++ new := by
  induction blocks with
  | nil =>
    intro chain accepted accepted' diverged h
    simp only [appendAll, ok.injEq, Prod.mk.injEq] at h
    obtain ⟨rfl, rfl, -⟩ := h
    exact ⟨[], (List.append_nil _).symm, (List.append_nil _).symm⟩
  | cons block rest ih =>
    intro chain accepted accepted' diverged h
    rw [appendAll] at h
    split at h
    · next mid happend =>
      obtain ⟨new, hnew, hblocks⟩ := ih h
      rw [accept_blocks (append_eq_ok.mp happend).1] at hblocks
      exact ⟨block :: new, by rw [hnew, List.append_assoc]; rfl,
        by rw [hblocks, List.append_assoc]; rfl⟩
    · simp only [ok.injEq, Prod.mk.injEq] at h
      obtain ⟨rfl, rfl, -⟩ := h
      exact ⟨[], (List.append_nil _).symm, (List.append_nil _).symm⟩
    · cases h

theorem finalAfter_blocks {accepted : List Block}
    (h : finalAfter depth accepted chain = ok chain') : chain'.blocks = chain.blocks := by
  rw [finalAfter] at h
  split at h
  · rw [ok.inj h]
  · exact applyFinality_blocks h

/-! ## Mining -/

theorem tipIndex_ok_iff {ε ε' : Type} {tip : UInt64} :
    (chain.tipIndex : Outcome ε UInt64) = ok tip ↔ (chain.tipIndex : Outcome ε' UInt64) = ok tip := by
  simp only [tipIndex, nextIndex, Outcome.bind_eq_ok, plain_eq_ok, pure_eq, ok.injEq]

/-- Committing succeeds alike under every type of errors. -/
theorem commitBlock_ok_iff {ε ε' : Type} {post : ChainState} :
    (commitBlock E chain block post : Outcome ε Blockchain) = ok chain' ↔
      (commitBlock E chain block post : Outcome ε' Blockchain) = ok chain' := by
  simp only [commitBlock, Outcome.bind_eq_ok, pure_eq, ok.injEq]
  exact exists_congr fun tip => and_congr tipIndex_ok_iff
    (exists_congr fun difficulty => and_congr_left fun _ => retarget_ok_iff)

theorem applyFinality_ok_iff {ε ε' : Type} :
    (chain.applyFinality depth : Outcome ε Blockchain) = ok chain' ↔
      (chain.applyFinality depth : Outcome ε' Blockchain) = ok chain' := by
  by_cases hne : chain.blocks = []
  · simp only [applyFinality, if_pos hne, pure_eq, ok.injEq]
  · simp only [applyFinality, if_neg hne, Outcome.bind_eq_ok]
    refine exists_congr fun tip => and_congr tipIndex_ok_iff ?_
    by_cases hdepth : depth = 0
    · simp only [if_pos hdepth, pure_eq, ok.injEq]
    · simp only [if_neg hdepth, pure_eq, ok.injEq]

/-- A sealed block is the built one with its proof and signatures. -/
theorem sealMined_fields {key : LocalValidatorKey} {plan : BlockPlan} {built block : Block}
    (h : sealMined key chain plan built = ok block) : ∃ output proof signature pqSignature,
    block = { built with
      vrfOutput := output
      vrfProof := proof
      validatorSignature := signature
      validatorPqSignature := pqSignature } := by
  simp only [sealMined, Outcome.bind_eq_ok, mapErr_eq_ok] at h
  obtain ⟨_, -, _, -, h⟩ := h
  split at h
  · rw [pure_eq, ok.injEq] at h
    exact ⟨_, _, _, built.validatorPqSignature, h.symm⟩
  · simp only [Outcome.bind_eq_ok, mapErr_eq_ok, pure_eq, ok.injEq] at h
    obtain ⟨_, -, h⟩ := h
    exact ⟨_, _, _, _, h.symm⟩

/-- What finishing a mined block does: the sealed block is accepted, and the planned transactions
leave the pool. -/
theorem finishMine_eq_ok {key : LocalValidatorKey} {m : MinePlan} {built : Block}
    {pending pending' : List Transaction}
    (h : finishMine E key m built depth now chain pending = ok (block, chain', pending')) :
    ∃ mid, chain.latestHash = m.previousHash ∧ sealMined key chain m.plan built = ok block ∧
      accept E now chain block = ok mid ∧
      (mid.applyFinality depth : Outcome String Blockchain) = ok chain' ∧
      pending' = pending.filter fun tx => tx.id ∉ m.plan.includedIds := by
  simp only [finishMine, Outcome.bind_eq_ok, ensure_eq_ok, mapErr_eq_ok, pure_eq, ok.injEq,
    Prod.mk.injEq] at h
  obtain ⟨_, htip, _, hseal, post, hvalid, mid, hcommit, _, hfinal, rfl, rfl, rfl⟩ := h
  refine ⟨mid, htip, hseal, ?_, applyFinality_ok_iff.mp hfinal, rfl⟩
  rw [accept, Outcome.bind_eq_ok]
  exact ⟨post, hvalid, commitBlock_ok_iff.mp hcommit⟩

theorem finishMine_blocks {key : LocalValidatorKey} {m : MinePlan} {built : Block}
    {pending pending' : List Transaction}
    (h : finishMine E key m built depth now chain pending = ok (block, chain', pending')) :
    chain'.blocks = chain.blocks ++ [block] := by
  obtain ⟨mid, -, -, haccept, hfinal, -⟩ := finishMine_eq_ok h
  rw [applyFinality_blocks hfinal, accept_blocks haccept]

/-! ## Plans -/

/-- What is kept of the pending transactions was kept before or is one of them. -/
theorem collect_subset {validator : String} {index : UInt64} {pending : List Transaction} :
    ∀ {state state' : ChainState} {kept kept' : List Transaction},
      collect E validator index state kept pending = ok (state', kept') →
        ∀ tx ∈ kept', tx ∈ kept ∨ tx ∈ pending := by
  induction pending with
  | nil =>
    intro state state' kept kept' h tx htx
    simp only [collect, ok.injEq, Prod.mk.injEq] at h
    rw [← h.2] at htx
    exact Or.inl htx
  | cons queued rest ih =>
    intro state state' kept kept' h tx htx
    rw [collect] at h
    split at h
    · simp only [ok.injEq, Prod.mk.injEq] at h
      rw [← h.2] at htx
      exact Or.inl htx
    · rw [Outcome.bind_eq_ok] at h
      obtain ⟨⟨next, keep⟩, -, h⟩ := h
      rcases ih h tx htx with hkept | hrest
      · split at hkept
        · rcases List.mem_append.mp hkept with hkept | hkept
          · exact Or.inl hkept
          · exact Or.inr (List.mem_singleton.mp hkept ▸ List.mem_cons_self)
        · exact Or.inl hkept
      · exact Or.inr (List.mem_cons_of_mem _ hrest)

/-- A plan holds the texts of pending transactions, whose ids it names, and a reward. -/
theorem planBlock_kept {pending : List Transaction} {producer : Option String} {rewardId : String}
    {rewardTime : DateTime} {plan : BlockPlan}
    (h : planBlock E chain pending producer now rewardId rewardTime = ok plan) :
    ∃ kept reward, (∀ tx ∈ kept, tx ∈ pending) ∧
      plan.transactions = (kept ++ [reward]).map E.txJson ∧
      plan.includedIds = kept.map Transaction.id := by
  simp only [planBlock, Outcome.bind_eq_ok, pure_eq, ok.injEq] at h
  obtain ⟨index, -, ⟨validator, slotInput⟩, -, publicKey, -, ⟨state, kept⟩, hcollect, _, -, _, -,
    rfl⟩ := h
  refine ⟨kept, _, fun tx htx => ?_, rfl, rfl⟩
  rcases collect_subset hcollect tx htx with hnone | hpending
  · exact absurd hnone List.not_mem_nil
  · exact hpending

theorem planMine_kept {key : LocalValidatorKey} {pending : List Transaction} {rewardId : String}
    {rewardTime : DateTime} {m : MinePlan}
    (h : planMine E key chain pending now rewardId rewardTime = ok m) :
    ∃ kept reward, (∀ tx ∈ kept, tx ∈ pending) ∧
      m.plan.transactions = (kept ++ [reward]).map E.txJson ∧
      m.plan.includedIds = kept.map Transaction.id := by
  simp only [planMine, Outcome.bind_eq_ok, mapErr_eq_ok, pure_eq, ok.injEq] at h
  obtain ⟨plan, hplan, _, -, _, -, rfl⟩ := h
  exact planBlock_kept hplan

end Blockchain
