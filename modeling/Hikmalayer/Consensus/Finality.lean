/-
# Finality

A node's chain under block arrivals, chain offers and governance changes of the finality
depth, each followed by `apply_finality` where the handlers call it.  A handler reads the
depth before it takes the chain, so it may apply any depth that the governance has held.
-/
import Mathlib.Tactic
import Hikmalayer.Consensus.ForkChoice

open Outcome

/-! ## Governance -/

/-- `GovernanceConfig`. -/
structure GovernanceConfig where
  slashPercent : UInt64
  finalityDepth : UInt64

/-- `update_governance`, past the check of the admin token. -/
def updateGovernance (slashPercent finalityDepth : UInt64) (_ : GovernanceConfig) :
    Outcome String GovernanceConfig := do
  ensure (¬ (slashPercent = 0 ∨ 100 < slashPercent)) "slash_percent must be between 1 and 100"
  ensure (¬ (finalityDepth = 0 ∨ 10000 < finalityDepth))
    "finality_depth must be between 1 and 10,000"
  return ⟨slashPercent, finalityDepth⟩

namespace Blockchain

variable {E : Node} {chain chain' : Blockchain}

/-! ## Applying finality -/

/-- The height that becomes final at a tip. -/
def finalAt (baseHeight tip depth : ℕ) : ℕ := if depth = 0 then tip else max (tip - depth) baseHeight

theorem applyFinality_eq_ok {depth : UInt64} (hne : chain.blocks ≠ []) :
    (chain.applyFinality depth : Outcome String Blockchain) = ok chain' ↔
      ∃ tip, (chain.tipIndex : Outcome String UInt64) = ok tip ∧
        ∃ finalized, finalized.toNat = finalAt chain.baseHeight.toNat tip.toNat depth.toNat ∧
          chain' = { chain with finalizedHeight := finalized } := by
  rw [applyFinality, if_neg hne, Outcome.bind_eq_ok]
  refine exists_congr fun tip => and_congr_right fun _ => ?_
  by_cases hdepth : depth = 0
  · rw [if_pos hdepth, pure_eq, ok.injEq, hdepth]
    constructor
    · rintro rfl
      exact ⟨tip, rfl, rfl⟩
    · rintro ⟨finalized, hfinalized, rfl⟩
      rw [Word.toNat_ext (show finalized.toNat = tip.toNat from hfinalized)]
  · have hnat : depth.toNat ≠ 0 := fun h => hdepth (Word.toNat_ext h)
    rw [if_neg hdepth, pure_eq, ok.injEq, finalAt, if_neg hnat]
    constructor
    · rintro rfl
      refine ⟨_, ?_, rfl⟩
      rw [Word.max_toNat, Word.saturatingSub_toNat]
    · rintro ⟨finalized, hfinalized, rfl⟩
      have hsame : finalized = max (Word.saturatingSub tip depth) chain.baseHeight := by
        refine Word.toNat_ext ?_
        rw [hfinalized, Word.max_toNat, Word.saturatingSub_toNat]
      rw [hsame]

theorem applyFinality_blocks {depth : UInt64}
    (h : (chain.applyFinality depth : Outcome String Blockchain) = ok chain') :
    chain'.blocks = chain.blocks := by
  by_cases hne : chain.blocks = []
  · rw [applyFinality, if_pos hne, pure_eq, ok.injEq] at h
    rw [← h]
  · obtain ⟨_, -, _, -, rfl⟩ := (applyFinality_eq_ok hne).mp h
    rfl

/-- A chain whose final height lies between its root and its tip. -/
structure Settled (chain : Blockchain) : Prop where
  nonempty : chain.blocks ≠ []
  tip : ∃ tip, (chain.tipIndex : Outcome String UInt64) = ok tip ∧
    chain.baseHeight ≤ chain.finalizedHeight ∧ chain.finalizedHeight ≤ tip

/-- Applying finality settles a chain, whatever the depth. -/
theorem settled_applyFinality {depth : UInt64} (hne : chain.blocks ≠ [])
    (hlen : chain.blocks.length < 2 ^ 63)
    (h : (chain.applyFinality depth : Outcome String Blockchain) = ok chain') : Settled chain' := by
  obtain ⟨tip, htip, finalized, hfinalized, rfl⟩ := (applyFinality_eq_ok hne).mp h
  have hheight := tipIndex_eq_ok htip
  have hpos : 0 < chain.blocks.length := List.length_pos_iff.mpr hne
  rw [tipHeight, Word.toNat_ofNat_of_lt (by omega)] at hheight
  refine ⟨hne, tip, htip, ?_⟩
  rw [UInt64.le_iff_toNat_le, UInt64.le_iff_toNat_le]
  show chain.baseHeight.toNat ≤ finalized.toNat ∧ finalized.toNat ≤ tip.toNat
  rw [hfinalized, finalAt]
  split <;> omega

end Blockchain

namespace Blockchain

variable {E : Node} {chain chain' mid : Blockchain}

/-! ## Final blocks -/

/-- The hash of the block at a height. -/
def hashAt (chain : Blockchain) (height : ℕ) : Option String :=
  chain.blocks[height - chain.baseHeight.toNat]?.map Block.hash

/-- The second chain has the final blocks of the first, from the same root on. -/
def FinalKept (chain chain' : Blockchain) : Prop :=
  chain'.baseHeight = chain.baseHeight ∧
    ∀ height, chain.baseHeight.toNat ≤ height → height ≤ chain.finalizedHeight.toNat →
      ∃ hash, chain.hashAt height = some hash ∧ chain'.hashAt height = some hash

/-- In a settled chain of bounded length every final height has a block. -/
theorem Settled.lt_length (h : Settled chain) (hlen : chain.blocks.length < 2 ^ 63) {height : ℕ}
    (hle : height ≤ chain.finalizedHeight.toNat) :
    height - chain.baseHeight.toNat < chain.blocks.length := by
  obtain ⟨tip, htip, -, hfinal⟩ := h.tip
  have hpos : 0 < chain.blocks.length := List.length_pos_iff.mpr h.nonempty
  have hheight := tipIndex_eq_ok htip
  rw [tipHeight, Word.toNat_ofNat_of_lt (by omega)] at hheight
  rw [UInt64.le_iff_toNat_le] at hfinal
  omega

/-- Appending blocks keeps the final ones. -/
theorem FinalKept.append (h : Settled chain) (hlen : chain.blocks.length < 2 ^ 63)
    {blocks : List Block} (hbase : chain'.baseHeight = chain.baseHeight)
    (hblocks : chain'.blocks = chain.blocks ++ blocks) : FinalKept chain chain' := by
  refine ⟨hbase, fun height _ hle => ?_⟩
  have hlt := h.lt_length hlen hle
  refine ⟨(chain.blocks[height - chain.baseHeight.toNat]).hash, ?_, ?_⟩
  · rw [hashAt, List.getElem?_eq_getElem hlt, Option.map_some]
  · rw [hashAt, hbase, hblocks, List.getElem?_append_left hlt, List.getElem?_eq_getElem hlt,
      Option.map_some]

/-- Adoption keeps the final blocks. -/
theorem FinalKept.adopted {candidate : Blockchain} (h : Adopted E chain candidate chain') :
    FinalKept chain chain' := by
  have hbase : chain'.baseHeight = chain.baseHeight := by rw [h.own]
  refine ⟨hbase, fun height hroot hle => ?_⟩
  obtain ⟨b, b', hb, hb', hhash⟩ := h.finalized.2 (height - chain.baseHeight.toNat) (by omega)
  refine ⟨b.hash, ?_, ?_⟩
  · rw [hashAt, hb, Option.map_some]
  · rw [hashAt, hbase, hb', Option.map_some, hhash]

/-- Two steps keep the final blocks when the final height does not fall in between. -/
theorem FinalKept.trans (h : FinalKept chain mid) (h' : FinalKept mid chain')
    (hle : chain.finalizedHeight ≤ mid.finalizedHeight) : FinalKept chain chain' := by
  rw [UInt64.le_iff_toNat_le] at hle
  refine ⟨h'.1.trans h.1, fun height hroot hfinal => ?_⟩
  obtain ⟨hash, hchain, hmid⟩ := h.2 height hroot hfinal
  obtain ⟨hash', hmid', hchain'⟩ := h'.2 height (by rw [h.1]; exact hroot) (hfinal.trans hle)
  rw [hmid, Option.some.injEq] at hmid'
  exact ⟨hash, hchain, by rw [hmid']; exact hchain'⟩

end Blockchain

/-! ## A node -/

open Blockchain

/-- What finality depends on at a node. -/
structure NodeState where
  chain : Blockchain
  governance : GovernanceConfig
  /-- The depths a handler may hold: all that the governance has had. -/
  held : List UInt64
  /-- A vector holds fewer elements than this. -/
  fits : chain.blocks.length < 2 ^ 63

/-- What happens to a node. -/
inductive Event
  /-- The governance is changed. -/
  | govern (slashPercent finalityDepth : UInt64)
  /-- Blocks arrive and are accepted, under a depth read before. -/
  | extend (arrivals : List (DateTime × Block)) (depth : UInt64)
  /-- A peer's chain is adopted, under a depth read before. -/
  | adopt (candidate : Blockchain) (now : DateTime) (depth : UInt64)
  /-- A peer's chain is not adopted. -/
  | refuse (candidate : Blockchain) (now : DateTime)

/-- The height of the tip that an event leaves, and the depth it applies. -/
def Event.finality (s : NodeState) : Event → Option (ℕ × ℕ)
  | .govern _ _ => none
  | .extend arrivals depth => some
      (s.chain.baseHeight.toNat + (s.chain.blocks.length + arrivals.length) - 1, depth.toNat)
  | .adopt candidate _ depth => some
      (s.chain.baseHeight.toNat + candidate.blocks.length - 1, depth.toNat)
  | .refuse _ _ => none

namespace NodeState

variable {E : Node} {s s' : NodeState} {e : Event}

/-- One step of a node. -/
inductive Step (E : Node) (s : NodeState) : Event → NodeState → Prop
  | govern {slashPercent finalityDepth : UInt64} {governance : GovernanceConfig}
      (h : updateGovernance slashPercent finalityDepth s.governance = ok governance) :
      Step E s (.govern slashPercent finalityDepth)
        { s with governance, held := governance.finalityDepth :: s.held }
  | extend {arrivals : List (DateTime × Block)} {depth : UInt64} {mid chain : Blockchain}
      (hne : arrivals ≠ []) (hdepth : depth ∈ s.held) (haccept : acceptAll E s.chain arrivals = ok mid)
      (hfinal : (mid.applyFinality depth : Outcome String Blockchain) = ok chain)
      (fits : chain.blocks.length < 2 ^ 63) :
      Step E s (.extend arrivals depth) { s with chain, fits }
  | adopt {candidate : Blockchain} {now : DateTime} {depth : UInt64} {mid chain : Blockchain}
      (hdepth : depth ∈ s.held) (hadopt : tryAdopt E candidate now s.chain = ok (true, mid))
      (hfinal : (mid.applyFinality depth : Outcome String Blockchain) = ok chain)
      (fits : chain.blocks.length < 2 ^ 63) :
      Step E s (.adopt candidate now depth) { s with chain, fits }
  | refuse {candidate : Blockchain} {now : DateTime} {chain : Blockchain}
      (h : tryAdopt E candidate now s.chain = ok (false, chain) ∨
        ∃ e, tryAdopt E candidate now s.chain = err (e, chain)) (fits : chain.blocks.length < 2 ^ 63) :
      Step E s (.refuse candidate now) { s with chain, fits }

/-- The height that the event makes final is not below the final one, unless that is the root. -/
def ReachesFinal (s : NodeState) (e : Event) : Prop :=
  ∀ tip depth, e.finality s = some (tip, depth) →
    s.chain.finalizedHeight = s.chain.baseHeight ∨
      s.chain.finalizedHeight.toNat + depth ≤ tip

/-- What a step does: nothing to the chain, or new blocks on the same final ones and then
finality at the depth of the event. -/
theorem Step.inversion (hs : Settled s.chain) (h : Step E s e s') :
    (e.finality s = none ∧ s'.chain = s.chain) ∨
    ∃ mid depth, e.finality s =
        some (s.chain.baseHeight.toNat + mid.blocks.length - 1, UInt64.toNat depth) ∧
      mid.blocks ≠ [] ∧ mid.blocks.length < 2 ^ 63 ∧ FinalKept s.chain mid ∧
      (mid.applyFinality depth : Outcome String Blockchain) = ok s'.chain := by
  cases h with
  | govern h =>
    left
    exact ⟨rfl, rfl⟩
  | @refuse candidate now chain h fits =>
    left
    refine ⟨rfl, ?_⟩
    rcases h with h | ⟨_, h⟩
    · exact tryAdoptChain_false (tryAdopt_eq_ok.mp h)
    · exact tryAdopt_err h
  | @extend arrivals depth mid chain hne hdepth haccept hfinal fits =>
    right
    obtain ⟨hblocks, hfields⟩ := acceptAll_fields haccept
    have hlen : chain.blocks.length = mid.blocks.length := by
      rw [applyFinality_blocks hfinal]
    refine ⟨mid, depth, ?_, ?_, by rw [← hlen]; exact fits,
      FinalKept.append hs s.fits (by rw [hfields]) hblocks, hfinal⟩
    · rw [Event.finality, hblocks, List.length_append, List.length_map]
    · rw [hblocks]
      exact List.append_ne_nil_of_left_ne_nil hs.nonempty _
  | @adopt candidate now depth mid chain hdepth hadopt hfinal fits =>
    right
    have hadopted := tryAdoptChain_true (tryAdopt_eq_ok.mp hadopt)
    have hlen : chain.blocks.length = mid.blocks.length := by
      rw [applyFinality_blocks hfinal]
    refine ⟨mid, depth, ?_, hadopted.derived.blocks_ne_nil, by rw [← hlen]; exact fits,
      FinalKept.adopted hadopted, hfinal⟩
    rw [Event.finality, hadopted.blocks]

/-- The final height that a step leaves. -/
theorem Step.finalized (hs : Settled s.chain) (h : Step E s e s') :
    s'.chain.finalizedHeight.toNat = match e.finality s with
      | none => s.chain.finalizedHeight.toNat
      | some (tip, depth) => finalAt s.chain.baseHeight.toNat tip depth := by
  rcases h.inversion hs with ⟨he, hsame⟩ | ⟨mid, depth, he, hne, hlen, hkept, hfinal⟩
  · rw [he, hsame]
  · obtain ⟨tip, htip, finalized, hfinalized, hchain⟩ := (applyFinality_eq_ok hne).mp hfinal
    have hheight := tipIndex_eq_ok htip
    rw [tipHeight, Word.toNat_ofNat_of_lt (by omega)] at hheight
    rw [he, hchain]
    show finalized.toNat = finalAt s.chain.baseHeight.toNat (_ - 1) depth.toNat
    rw [hfinalized, hheight, hkept.1]

/-- A step keeps a chain settled. -/
theorem Step.settled (hs : Settled s.chain) (h : Step E s e s') : Settled s'.chain := by
  rcases h.inversion hs with ⟨-, hsame⟩ | ⟨mid, depth, -, hne, hlen, -, hfinal⟩
  · rw [hsame]
    exact hs
  · exact settled_applyFinality hne hlen hfinal

/-- A step keeps the final blocks. -/
theorem Step.finalKept (hs : Settled s.chain) (h : Step E s e s') : FinalKept s.chain s'.chain := by
  rcases h.inversion hs with ⟨-, hsame⟩ | ⟨mid, depth, -, hne, -, hkept, hfinal⟩
  · rw [hsame]
    exact FinalKept.append hs s.fits rfl (List.append_nil _).symm
  · obtain ⟨-, -, finalized, -, hchain⟩ := (applyFinality_eq_ok hne).mp hfinal
    rw [hchain]
    exact hkept

/-- The final height falls in a step exactly when the depth reaches below it. -/
theorem Step.finalized_le_iff (hs : Settled s.chain) (h : Step E s e s') :
    s.chain.finalizedHeight ≤ s'.chain.finalizedHeight ↔ ReachesFinal s e := by
  have hfinalized := h.finalized hs
  obtain ⟨-, -, hbase, -⟩ := hs.tip
  rw [UInt64.le_iff_toNat_le] at hbase ⊢
  rw [hfinalized]
  rcases h.inversion hs with ⟨he, -⟩ | ⟨mid, depth, he, hne, -⟩
  · rw [he]
    exact ⟨fun _ tip depth h => absurd (he.symm.trans h) (Option.some_ne_none _).symm,
      fun _ => le_rfl⟩
  · have hpos : 0 < mid.blocks.length := List.length_pos_iff.mpr hne
    rw [he]
    show _ ≤ finalAt _ _ _ ↔ _
    constructor
    · intro hle tip' depth' he'
      rw [he, Option.some.injEq, Prod.mk.injEq] at he'
      obtain ⟨rfl, rfl⟩ := he'
      by_cases hroot : s.chain.finalizedHeight = s.chain.baseHeight
      · exact Or.inl hroot
      · right
        have hlt : s.chain.baseHeight.toNat ≠ s.chain.finalizedHeight.toNat := fun h =>
          hroot (Word.toNat_ext h.symm)
        rw [finalAt] at hle
        split at hle <;> omega
    · intro hreach
      rw [finalAt]
      rcases hreach _ _ he with hroot | hle
      · rw [hroot]
        split <;> omega
      · split <;> omega

/-! ## Runs -/

/-- A run whose steps meet a condition. -/
inductive Run (E : Node) (P : NodeState → Event → Prop) (s : NodeState) : NodeState → Prop
  | refl : Run E P s s
  | tail {s' s'' : NodeState} {e : Event} (h : Run E P s s') (hP : P s' e) (hstep : Step E s' e s'') :
      Run E P s s''

variable {P : NodeState → Event → Prop}

theorem Run.settled (hs : Settled s.chain) (h : Run E P s s') : Settled s'.chain := by
  induction h with
  | refl => exact hs
  | tail _ _ hstep ih => exact hstep.settled ih

/-- While no depth reaches below the final height, the final blocks stay and grow. -/
theorem Run.finalKept (hs : Settled s.chain) (h : Run E ReachesFinal s s') :
    s.chain.finalizedHeight ≤ s'.chain.finalizedHeight ∧ FinalKept s.chain s'.chain := by
  induction h with
  | refl => exact ⟨UInt64.le_refl _, FinalKept.append hs s.fits rfl (List.append_nil _).symm⟩
  | tail h hP hstep ih =>
    have hmid := h.settled hs
    obtain ⟨hle, hkept⟩ := ih
    exact ⟨UInt64.le_trans hle ((hstep.finalized_le_iff hmid).mpr hP),
      hkept.trans (hstep.finalKept hmid) hle⟩

end NodeState

open NodeState

/-- A root is settled. -/
theorem Blockchain.Rooted.settled {E : Node} {chain : Blockchain} (h : Rooted E chain) :
    Settled chain := by
  have hne := h.derived.blocks_ne_nil
  obtain ⟨hbase, hfinal⟩ := h.base
  have hroom := h.derived.room hbase
  have hpos : 0 < chain.blocks.length := List.length_pos_iff.mpr hne
  refine ⟨hne, _, tipIndex_of_lt hne hroom, ?_⟩
  rw [hfinal, UInt64.le_iff_toNat_le, UInt64.le_iff_toNat_le, Word.toNat_ofNat_of_lt (by omega)]
  omega

/-! ## A toy node one block ahead -/

namespace Sample

open Blockchain NodeState

/-- A node at its genesis, with finality depth one. -/
def started : NodeState where
  chain := root [reward] 1000000000000000
  governance := ⟨10, 1⟩
  held := [1]
  fits := by decide

theorem started_rooted : Rooted (node [reward]) started.chain :=
  Rooted.genesis (E := node [reward]) newWithGenesisOnChain_root

theorem started_alone : Alone started.chain := Alone.root (by decide)

/-- Holder 7's next block arrives, and finality is applied at a depth. -/
theorem exists_step_extend (s : NodeState) (depth finalized : UInt64) (h : Alone s.chain)
    (hlen : s.chain.blocks.length < 19) (hdepth : depth ∈ s.held)
    (hfinalized : finalized.toNat = finalAt 0 s.chain.blocks.length depth.toNat) :
    ∃ s', Step (node [reward]) s (.extend [(morning, nextBlock [reward] s.chain)] depth) s' ∧
      Alone s'.chain ∧ s'.chain.finalizedHeight = finalized ∧
      s'.chain.blocks.length = s.chain.blocks.length + 1 ∧ s'.held = s.held := by
  have hpos : 0 < s.chain.blocks.length := List.length_pos_iff.mpr h.nonempty
  have hgrown : Alone (grown [reward] s.chain) := h.grown hlen
  have hlength : (grown [reward] s.chain).blocks.length = s.chain.blocks.length + 1 := by
    simp [grown, extended]
  have hall : acceptAll (node [reward]) s.chain [(morning, nextBlock [reward] s.chain)] =
      ok (grown [reward] s.chain) := by
    rw [acceptAll, h.accept_grown hlen rfl]
    rfl
  have hzero : (grown [reward] s.chain).baseHeight.toNat = 0 := by rw [hgrown.base]; rfl
  have hroom : (grown [reward] s.chain).baseHeight.toNat +
      (grown [reward] s.chain).blocks.length < 2 ^ 64 := by omega
  have hfinal : ((grown [reward] s.chain).applyFinality depth : Outcome String Blockchain) =
      ok { grown [reward] s.chain with finalizedHeight := finalized } := by
    refine (applyFinality_eq_ok hgrown.nonempty).mpr
      ⟨_, tipIndex_of_lt hgrown.nonempty hroom, finalized, ?_, rfl⟩
    rw [Word.toNat_ofNat_of_lt (by omega), hzero, hlength, hfinalized]
    congr 1
    omega
  refine ⟨_, Step.extend (by simp) hdepth hall hfinal ?_, ⟨hgrown.base, hgrown.nonempty,
    hgrown.timely, hgrown.stamped, hgrown.difficulty, hgrown.quiet, hgrown.validators,
    hgrown.registered⟩, rfl, hlength, rfl⟩
  show (grown [reward] s.chain).blocks.length < 2 ^ 63
  omega

end Sample

/-! ## Irreversibility -/

/-- From any root, as long as no depth that is applied reaches below the final height, that
height never falls, lies between root and tip, and the blocks up to it stay. -/
theorem finality_irreversible (E : Node) (start s s' : NodeState) (hroot : Rooted E start.chain)
    (h : Run E ReachesFinal start s) (h' : Run E ReachesFinal s s') :
    s.chain.finalizedHeight ≤ s'.chain.finalizedHeight ∧ Settled s'.chain ∧
      FinalKept s.chain s'.chain := by
  have hs : Settled s.chain := h.settled hroot.settled
  obtain ⟨hle, hkept⟩ := h'.finalKept hs
  exact ⟨hle, h'.settled hs, hkept⟩

/-- At finality depth one the first block is final when the second arrives. -/
theorem finality_irreversible_sample :
    ∃ s s', Run (Sample.node [Sample.reward]) ReachesFinal Sample.started s ∧
      Run (Sample.node [Sample.reward]) ReachesFinal s s' ∧ s'.chain.finalizedHeight = 1 ∧
      Settled s'.chain ∧ FinalKept s.chain s'.chain := by
  obtain ⟨s, hstep, halone, hzero, hlen, hheld⟩ := Sample.exists_step_extend _ 1 0
    Sample.started_alone (by decide) (by decide) (by decide)
  have hlen : s.chain.blocks.length = 2 := hlen
  obtain ⟨s', hstep', -, hone, -, -⟩ := Sample.exists_step_extend s 1 1
    halone (by omega) (by rw [hheld]; decide) (by rw [hlen]; decide)
  have hrun : Run (Sample.node [Sample.reward]) ReachesFinal Sample.started s :=
    .tail .refl (fun _ _ _ => Or.inl rfl) hstep
  have hrun' : Run (Sample.node [Sample.reward]) ReachesFinal s s' :=
    .tail .refl (fun _ _ _ => Or.inl (by rw [hzero, halone.base])) hstep'
  obtain ⟨-, hsettled, hkept⟩ := finality_irreversible _ _ _ _ Sample.started_rooted hrun hrun'
  exact ⟨s, s', hrun, hrun', hone, hsettled, hkept⟩

/-- Raising the depth takes the finality of the first block back. -/
theorem finality_falls :
    ∃ s s', Run (Sample.node [Sample.reward]) (fun _ _ => True) Sample.started s ∧
      Run (Sample.node [Sample.reward]) (fun _ _ => True) s s' ∧
      s.chain.finalizedHeight = 1 ∧ s'.chain.finalizedHeight = 0 := by
  obtain ⟨s₁, hstep₁, halone₁, -, hlen₁, hheld₁⟩ := Sample.exists_step_extend _ 1 0
    Sample.started_alone (by decide) (by decide) (by decide)
  have hlen₁ : s₁.chain.blocks.length = 2 := hlen₁
  obtain ⟨s₂, hstep₂, halone₂, hone, hlen₂, -⟩ := Sample.exists_step_extend s₁ 1 1
    halone₁ (by omega) (by rw [hheld₁]; decide) (by rw [hlen₁]; decide)
  have hgovern : Step (Sample.node [Sample.reward]) s₂ (.govern 10 10000)
      { s₂ with governance := ⟨10, 10000⟩, held := 10000 :: s₂.held } := Step.govern rfl
  obtain ⟨s₃, hstep₃, -, hzero, -, -⟩ := Sample.exists_step_extend
    { s₂ with governance := ⟨10, 10000⟩, held := 10000 :: s₂.held } 10000 0 halone₂ (show s₂.chain.blocks.length < 19 by omega) List.mem_cons_self
    (show _ = finalAt 0 s₂.chain.blocks.length _ by rw [hlen₂, hlen₁]; decide)
  exact ⟨s₂, s₃, .tail (.tail .refl trivial hstep₁) trivial hstep₂,
    .tail (.tail .refl trivial hgovern) trivial hstep₃, hone, hzero⟩
