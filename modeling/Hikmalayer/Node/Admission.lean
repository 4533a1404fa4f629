/-
# What is admitted and what is included

Gossip is admitted by the rules of the next block.  A submitted transaction is tried at the height
that the number of blocks says, which is another one on a chain that does not begin at genesis, and
the anchor of a certificate is not tried at all and names no network.
-/
import Mathlib.Tactic
import Hikmalayer.Consensus.Eligibility
import Hikmalayer.Consensus.Extension
import Hikmalayer.Ledger.Heights
import Hikmalayer.Node.Inclusion

open Outcome Exec ServerTurn

/-! ## Leaders are registered -/

namespace Blockchain

variable {E : Node} {chain : Blockchain} {now : DateTime} {v : String} {tx : Transaction}
  {next : UInt64}

theorem mem_of_scanStakers {ε : Type} {set : List Staker} :
    ∀ {point : UInt64}, (Pos.scanStakers point set : Outcome ε _) = ok (some v) →
      ∃ x ∈ set, x.address = v := by
  induction set with
  | nil => exact fun h => by cases h
  | cons x rest ih =>
    intro point h
    rw [Pos.scanStakers] at h
    split at h
    · rw [pure_eq, ok.injEq, Option.some.injEq] at h
      exact ⟨x, List.mem_cons_self, h⟩
    · simp only [Outcome.bind_eq_ok, plain_eq_ok] at h
      obtain ⟨_, -, h⟩ := h
      obtain ⟨y, hy, hv⟩ := ih h
      exact ⟨y, List.mem_cons_of_mem x hy, hv⟩

theorem mem_of_selectStakerWithSeed {ε : Type} {E : Env} {seed : String} {set : List Staker}
    (h : (Pos.selectStakerWithSeed E seed set : Outcome ε _) = ok (some v)) :
    ∃ x ∈ set, x.address = v := by
  simp only [Pos.selectStakerWithSeed, Outcome.bind_eq_ok, plain_eq_ok] at h
  obtain ⟨total, -, h⟩ := h
  split at h
  · cases h
  · exact mem_of_scanStakers h

theorem mem_stakers_of_mem_validatorSet {s : ChainState} {x : Staker} (h : x ∈ s.validatorSet) :
    x.address ∈ s.stakers := by
  rw [ChainState.validatorSet, List.mem_map] at h
  obtain ⟨e, he, rfl⟩ := h
  exact ChainState.mem_of_lookup
    (Std.ExtTreeMap.mem_toList_iff_getElem?_eq_some.mp (List.mem_filter.mp he).1)

/-- A search finds only registered producers. -/
theorem eligibleRound_registered {E : Env} {randomness : String} {index : UInt64}
    {slot : UInt64 × String} {rounds : List UInt64} {s : ChainState}
    (h : eligibleRound E randomness index s.validatorSet v rounds = ok (some slot)) :
    v ∈ s.stakers := by
  induction rounds with
  | nil => cases h
  | cons round rest ih =>
    unfold eligibleRound at h
    rw [Outcome.bind_eq_ok] at h
    obtain ⟨leader, hleader, h⟩ := h
    split at h
    · rename_i heq
      obtain ⟨x, hx, rfl⟩ := mem_of_selectStakerWithSeed (heq ▸ hleader)
      exact mem_stakers_of_mem_validatorSet hx
    · exact ih h

theorem eligibleSlotFor_registered {E : Env} {slot : UInt64 × String}
    (h : eligibleSlotFor E chain now v = ok (some slot)) :
    v ∈ chain.state.stakers ∧ ∃ index, chain.nextIndex = (ok index : Outcome String _) := by
  unfold eligibleSlotFor at h
  split at h
  · cases h
  · obtain ⟨index, hindex, h⟩ := Outcome.bind_eq_ok.mp h
    exact ⟨eligibleRound_registered h, index, hindex⟩

/-- Whoever a block is planned for is registered. -/
theorem planLeader_registered {producer : Option String} {slotInput : String}
    (h : planLeader E.toEnv chain now producer = ok (v, slotInput)) :
    v ∈ chain.state.stakers ∧ ∃ index, chain.nextIndex = (ok index : Outcome String _) := by
  unfold planLeader at h
  split at h
  · obtain ⟨slot, hslot, h⟩ := Outcome.bind_eq_ok.mp h
    split at h
    · rw [pure_eq, ok.injEq, Prod.mk.injEq] at h
      rw [← h.1]
      exact eligibleSlotFor_registered hslot
    · simp only [Outcome.bind_eq_ok] at h
      obtain ⟨_, -, _, -, h⟩ := h
      cases h
  · simp only [Outcome.bind_eq_ok, okOr_eq_ok, pure_eq, ok.injEq, Prod.mk.injEq] at h
    obtain ⟨leaders, hleaders, ⟨r, w, input⟩, hhead, rfl, rfl⟩ := h
    exact eligibleSlotFor_registered
      (((openLeaders_lists hleaders).mem_iff r w input).mp (List.mem_of_mem_head? hhead))

/-! ## Planning a block with one transaction -/

/-- The producer comes into the verification of rewards only. -/
theorem verifyForBlock_producer {E : Env} {w : String}
    (hkind : tx.transactionType ≠ .reward) : tx.verifyForBlock E v = tx.verifyForBlock E w := by
  unfold Transaction.verifyForBlock
  cases ht : tx.transactionType <;> first | rfl | exact absurd ht hkind

/-- The plan of the next block for a producer, made from the pending transaction alone, takes it. -/
def Plans (E : Node) (chain : Blockchain) (tx : Transaction) (producer : Option String)
    (now : DateTime) (rewardId : String) (rewardTime : DateTime) : Prop :=
  ∃ plan, planBlock E chain [tx] producer now rewardId rewardTime = ok plan ∧
    tx.id ∈ plan.includedIds ∧ E.txJson tx ∈ plan.transactions

theorem collect_single {state t : ChainState} (hverify : tx.verifyForBlock E v = ok ())
    (h : ChainState.applyVerified E tx next state = ok ((), t)) :
    collect E v next state [] [tx] = ok (t, [tx]) := by
  rw [collect, if_neg (by decide), consider, hverify]
  dsimp only
  rw [h]
  rfl

theorem collect_single_keeps {state t : ChainState} {kept : List Transaction}
    (h : collect E v next state [] [tx] = ok (t, kept)) (hkept : kept ≠ []) :
    ∃ t, ChainState.applyVerified E tx next state = ok ((), t) := by
  rw [collect, if_neg (by decide), Outcome.bind_eq_ok] at h
  obtain ⟨⟨mid, keep⟩, hconsider, h⟩ := h
  cases keep with
  | false =>
    have h : (ok (mid, []) : Outcome String _) = ok (t, kept) := h
    rw [ok.injEq, Prod.mk.injEq] at h
    exact absurd h.2.symm hkept
  | true =>
    unfold consider at hconsider
    split at hconsider
    · cases hconsider
    · cases hconsider
    · split at hconsider
      · cases hconsider
      · cases hconsider
      · rename_i r hr
        exact ⟨r.2, hr⟩

/-- On a sound ledger a verified transaction is planned exactly when it applies at the next
height. -/
theorem plans_iff (hE : E.saturation = .clamp) (hs : chain.state.Sound) {producer : Option String}
    {slotInput rewardId : String} {rewardTime : DateTime}
    (hleader : planLeader E.toEnv chain now producer = ok (v, slotInput))
    (hnext : chain.nextIndex = (ok next : Outcome String _))
    (hverify : tx.verifyForBlock E v = ok ()) :
    Plans E chain tx producer now rewardId rewardTime ↔
      ∃ t, ChainState.applyVerified E tx next chain.state = ok ((), t) := by
  obtain ⟨hmem, -⟩ := planLeader_registered hleader
  have hv := hs.addressed.staker v hmem
  constructor
  · rintro ⟨plan, hplan, hincluded, -⟩
    simp only [planBlock, Outcome.bind_eq_ok, pure_eq, ok.injEq] at hplan
    obtain ⟨index, hindex, ⟨w, input⟩, hw, _, -, ⟨state, kept⟩, hcollect, _, -, _, -, rfl⟩ := hplan
    rw [hnext, ok.injEq] at hindex
    rw [hleader, ok.injEq, Prod.mk.injEq] at hw
    obtain ⟨rfl, -⟩ := hw
    refine collect_single_keeps (hindex ▸ hcollect) fun hnil => ?_
    rw [hnil] at hincluded
    cases hincluded
  · rintro ⟨t, ht⟩
    set reward := Transaction.newReward rewardId rewardTime v next
    have hpaid : ChainState.applyVerified E reward next t =
        ok ((), t.rewarded v (blockReward next)) := ChainState.applyVerified_reward hE rfl
    obtain ⟨last, hclose⟩ := (hs.applyVerified hv hverify ht).rewarded_closes hE hv next
    obtain ⟨info, hinfo⟩ := Option.isSome_iff_exists.mp
      (Std.ExtTreeMap.mem_iff_isSome_getElem?.mp hmem)
    refine ⟨⟨v, info.publicKey, slotInput, ([tx] ++ [reward]).map E.txJson, last.stateRoot E,
      [tx].map Transaction.id⟩, ?_, List.mem_singleton_self _, List.mem_cons_self⟩
    simp only [planBlock, Outcome.bind_eq_ok, pure_eq, ok.injEq, okOr_eq_ok, mapErr_eq_ok,
      finalState_eq_ok]
    exact ⟨next, hnext, (v, slotInput), hleader, info.publicKey, by rw [hinfo]; rfl, (t, [tx]),
      collect_single hverify ht, _, hpaid, last, hclose, rfl⟩

end Blockchain

/-! ## The ways into the pool -/

namespace Settings

variable {cfg : Settings} {s : AppState} {tx : Transaction}

/-- `queue_transaction`: the request went on to queue the transaction, and it came into the empty
pool. -/
inductive Submitted (cfg : Settings) (s : AppState) (original tx : Transaction) : Prop
  | intro {i i' : Surroundings} {before : AppState} {first turn : ServerTurn}
      (hbegin : cfg.run i before (.begin (.queueTransaction original)) = some first)
      (hadds : first.Adds (.enqueue tx)) (henqueue : cfg.run i' s (.enqueue tx) = some turn)
      (hin : turn.state.pendingTransactions = [tx])

/-- `submit_equivocation`: a slash made from a proof that holds is submitted. -/
def ProvesOffense (cfg : Settings) (original : Transaction) : Prop :=
  ∃ id stamp proof offender, SlashProof.verify cfg.node.toEnv proof = ok offender ∧ original =
    { Transaction.newCertificate id stamp offender with
      transactionType := .slash, slashProof := some proof }

/-- `issue_certificate`: the anchor of a certificate came into the empty pool. -/
inductive Certified (cfg : Settings) (s : AppState) (tx : Transaction) : Prop
  | intro {i : Surroundings} {authorized : Bool} {id issuedTo : String} {turn : ServerTurn}
      (hrun : cfg.run i s (.begin (.issueCertificate authorized id issuedTo)) = some turn)
      (hin : turn.state.pendingTransactions = [tx])

/-- A gossiped transaction was looked at and came into the empty pool. -/
inductive Gossiped (cfg : Settings) (s : AppState) (tx : Transaction) : Prop
  | intro {i i' : Surroundings} {before : AppState} {e : P2PEnvelope} {first turn : ServerTurn}
      (hlook : cfg.run i before (.payload e) = some first)
      (hadds : first.Adds (.admitGossip e tx)) (hrun : cfg.run i' s (.admitGossip e tx) = some turn)
      (hin : turn.state.pendingTransactions = [tx])

/-- A way of the node to admit a transaction. -/
inductive Admission (cfg : Settings) (s : AppState) (tx : Transaction) : Prop
  | queued {original : Transaction} (h : Submitted cfg s original tx)
  | equivocation {original : Transaction} (hproof : cfg.ProvesOffense original)
      (h : Submitted cfg s original tx)
  | certified (h : Certified cfg s tx)
  | gossiped (h : Gossiped cfg s tx)

/-! ## What each way in has checked -/

theorem admits_empty {state : ChainState} {height : UInt64}
    (h : state.admits cfg.node [] height tx = ok ()) :
    ∃ t, ChainState.applyVerified cfg.node tx height state = ok ((), t) := by
  simp only [ChainState.admits, ChainState.projectPendingState, Outcome.bind_eq_ok, ok.injEq,
    finalState_eq_ok] at h
  obtain ⟨_, rfl, t, ht, -⟩ := h
  exact ⟨t, ht⟩

/-- A submitted transaction verifies, and applies at the height that the number of blocks says. -/
theorem Submitted.checked {original : Transaction} (h : cfg.Submitted s original tx)
    (hempty : s.pendingTransactions = []) : (∀ v, tx.verifyForBlock cfg.node v = ok ()) ∧
      ∃ t, ChainState.applyVerified cfg.node tx (UInt64.ofNat s.chain.blocks.length)
        s.chain.state = ok ((), t) := by
  obtain @⟨i, i', before, first, turn, hbegin, hadds, henqueue, hin⟩ := h
  constructor
  · intro v
    cases run_follows hbegin hadds with
    | enqueue _ hkind hverify =>
      rw [← hverify]
      exact Blockchain.verifyForBlock_producer hkind
    | sync _ _ hb => simp at hb
  · have heffect := run_effect henqueue
    generalize turn.state = after at heffect hin
    cases heffect with
    | admitted _ _ _ hadmits =>
      rw [hempty] at hadmits
      exact admits_empty hadmits
    | _ => exact absurd (hempty.symm.trans hin) (List.cons_ne_nil _ _).symm

/-- A gossiped transaction verifies, and applies at the height of the next block. -/
theorem Gossiped.checked (h : cfg.Gossiped s tx) (hempty : s.pendingTransactions = []) :
    (∀ v, tx.verifyForBlock cfg.node v = ok ()) ∧
      ∃ next, s.chain.nextIndex = (ok next : Outcome String _) ∧
        ∃ t, ChainState.applyVerified cfg.node tx next s.chain.state = ok ((), t) := by
  obtain @⟨i, i', before, e, first, turn, hlook, hadds, hrun, hin⟩ := h
  constructor
  · intro v
    cases run_follows hlook hadds with
    | gossiped _ _ _ _ hverify hkind =>
      rw [← hverify]
      exact Blockchain.verifyForBlock_producer hkind
    | sync _ _ hb => simp at hb
  · have heffect := run_effect hrun
    generalize turn.state = after at heffect hin
    cases heffect with
    | gossiped _ _ hadmits =>
      rw [hempty, Outcome.bind_eq_ok] at hadmits
      obtain ⟨next, hnext, hadmits⟩ := hadmits
      exact ⟨next, hnext, admits_empty hadmits⟩
    | _ => exact absurd (hempty.symm.trans hin) (List.cons_ne_nil _ _).symm

/-- The anchor of a certificate has no sender and names no network. -/
theorem Certified.anchor (h : cfg.Certified s tx) (hempty : s.pendingTransactions = []) :
    tx.Anchor "" := by
  obtain @⟨i, authorized, id, issuedTo, turn, hrun, hin⟩ := h
  have heffect := run_effect hrun
  generalize turn.state = after at heffect hin
  cases heffect with
  | certified id issuedTo =>
    have htx : s.pendingTransactions ++ [.newCertificate _ _ issuedTo] = [tx] := hin
    rw [hempty, List.nil_append, List.cons.injEq] at htx
    rw [← htx.1]
    exact ⟨rfl, rfl, rfl, rfl, rfl⟩
  | _ => exact absurd (hempty.symm.trans hin) (List.cons_ne_nil _ _).symm

/-- Whichever way it came, an admitted transaction verifies, and on its network it has been applied
at some height. -/
theorem Admission.checked (h : cfg.Admission s tx) (hempty : s.pendingTransactions = []) :
    (∀ v, tx.verifyForBlock cfg.node v = ok ()) ∧
      (s.chain.state.verifyChainScope tx = ok () →
        ∃ height t, ChainState.applyVerified cfg.node tx height s.chain.state = ok ((), t)) := by
  cases h with
  | queued h =>
    obtain ⟨hverify, ht⟩ := h.checked hempty
    exact ⟨hverify, fun _ => ⟨_, ht⟩⟩
  | equivocation _ h =>
    obtain ⟨hverify, ht⟩ := h.checked hempty
    exact ⟨hverify, fun _ => ⟨_, ht⟩⟩
  | gossiped h =>
    obtain ⟨hverify, next, -, ht⟩ := h.checked hempty
    exact ⟨hverify, fun _ => ⟨next, ht⟩⟩
  | certified h =>
    have hanchor := h.anchor hempty
    refine ⟨fun _ => hanchor.verifyForBlock, fun hscope => ⟨0, s.chain.state, ?_⟩⟩
    rw [ChainState.verifyChainScope, hanchor.kind, if_neg (by simp), ensure_eq_ok,
      hanchor.chainId] at hscope
    exact (hscope ▸ hanchor).applyVerified

/-! ## Inclusion -/

/-- A transaction that some way in has put into the empty pool is in the plan of the next block
exactly when it names the network of the chain and is timely at the next height.  Gossip checks
both, and the routes for submitted transactions do on a chain as high as it has blocks. -/
theorem admission_included_iff (hE : cfg.node.saturation = .clamp)
    (hreach : ChainState.Reachable cfg.node s.chain.state) (hempty : s.pendingTransactions = [])
    (hadmission : cfg.Admission s tx) {now : DateTime} {producer : Option String}
    {leader : String × String} {rewardId : String} {rewardTime : DateTime}
    (hleader : Blockchain.planLeader cfg.node.toEnv s.chain now producer = ok leader) :
    ∃ next, s.chain.nextIndex = (ok next : Outcome String UInt64) ∧
      (s.chain.Plans cfg.node tx producer now rewardId rewardTime ↔
        s.chain.state.verifyChainScope tx = ok () ∧ tx.Timely next) ∧
      (cfg.Gossiped s tx → s.chain.state.verifyChainScope tx = ok () ∧ tx.Timely next) ∧
      ∀ original, cfg.Submitted s original tx → s.chain.state.verifyChainScope tx = ok () ∧
        (next = UInt64.ofNat s.chain.blocks.length → tx.Timely next) := by
  obtain ⟨v, slotInput⟩ := leader
  obtain ⟨-, next, hnext⟩ := Blockchain.planLeader_registered hleader
  refine ⟨next, hnext, ?_, ?_, ?_⟩
  · obtain ⟨hverify, happlies⟩ := hadmission.checked hempty
    rw [Blockchain.plans_iff hE (hreach.sound hE) hleader hnext (hverify v)]
    constructor
    · rintro ⟨t, ht⟩
      exact ⟨(ChainState.applyVerified_applied ht).1,
        (ChainState.applyVerified_at ht).mp ⟨t, ht⟩⟩
    · rintro ⟨hscope, htimely⟩
      obtain ⟨height, t, ht⟩ := happlies hscope
      exact (ChainState.applyVerified_at ht).mpr htimely
  · intro h
    obtain ⟨-, next', hnext', t, ht⟩ := h.checked hempty
    rw [hnext, ok.injEq] at hnext'
    subst hnext'
    exact ⟨(ChainState.applyVerified_applied ht).1, (ChainState.applyVerified_at ht).mp ⟨t, ht⟩⟩
  · intro original h
    obtain ⟨-, t, ht⟩ := h.checked hempty
    exact ⟨(ChainState.applyVerified_applied ht).1,
      fun heq => heq ▸ (ChainState.applyVerified_at ht).mp ⟨t, ht⟩⟩

end Settings

/-! ## On the first chain -/

namespace Sample

theorem firstState_reachable : ChainState.Reachable (node []) (firstState []).chain.state :=
  genesis_reachable _

/-- Holder 7 produces the first block. -/
theorem planLeader_first : ∃ leader, Blockchain.planLeader (node []).toEnv (firstState []).chain
    morning (some (address 7)) = ok leader := by
  have hleads : Blockchain.Leads (node []) (firstState []).chain 1 (address 7) :=
    leads_sole (by decide) (genesis_validatorSet (by decide))
  have hnext : (firstState []).chain.nextIndex = (ok 1 : Outcome String UInt64) := rfl
  have hslot : Blockchain.eligibleSlotFor (node []).toEnv (firstState []).chain morning (address 7) = _ :=
    hleads.eligibleSlotFor rfl hnext
  refine ⟨(address 7, Vrf.slotInput (firstState []).chain.randomness 1), ?_⟩
  simp only [Blockchain.planLeader, hslot, ok_bind, pure_eq]

/-- The anchor of a certificate that the operator issues. -/
def issued : Transaction := .newCertificate "fresh" morning "graduate"

end Sample

namespace Settings

/-- An anchor that comes by gossip is in the next block. -/
theorem admission_included_sample :
    (Sample.firstState []).chain.Plans (Sample.node []) (Sample.note 0) (some (Sample.address 7))
      Sample.morning "reward" Sample.morning := by
  obtain ⟨leader, hleader⟩ := Sample.planLeader_first
  have hanchor : (Sample.note 0).Anchor defaultChainId := Sample.note_anchor 0
  have hlook : (Sample.settings []).run Sample.quietMorning (Sample.firstState [])
      (.payload (Sample.noteEnvelope 0)) = _ :=
    run_take rfl (fun _ h => nomatch h) hanchor.verifyForBlock (by simp [hanchor.kind])
  have hadmits : (Sample.firstState []).chain.state.admits (Sample.node []) [] 1 (Sample.note 0) =
      ok () := Transaction.Anchor.admits hanchor fun _ h => nomatch h
  have hrun : (Sample.settings []).run Sample.quietMorning (Sample.firstState [])
      (.admitGossip (Sample.noteEnvelope 0) (Sample.note 0)) = _ := run_admitGossip rfl hadmits
  have hgossiped : Gossiped (Sample.settings []) (Sample.firstState []) (Sample.note 0) :=
    .intro hlook (Or.inl (List.mem_singleton_self _)) hrun rfl
  obtain ⟨next, -, hiff, hgood, -⟩ : ∃ next, _ ∧ ((Sample.firstState []).chain.Plans (Sample.node [])
      (Sample.note 0) (some (Sample.address 7)) Sample.morning "reward" Sample.morning ↔ _) ∧ _ ∧ _ :=
    admission_included_iff rfl Sample.firstState_reachable rfl (.gossiped hgossiped) hleader
  exact hiff.mpr (hgood hgossiped)

/-- The anchor of a certificate that the operator issues names no network, and the producer of the
next block leaves it out. -/
theorem certificate_left_out :
    ChainState.Reachable (Sample.node []) (Sample.firstState []).chain.state ∧
    (Sample.firstState []).pendingTransactions = [] ∧
    (Sample.settings []).Admission (Sample.firstState []) Sample.issued ∧
    (∃ leader, Blockchain.planLeader (Sample.node []).toEnv (Sample.firstState []).chain
      Sample.morning (some (Sample.address 7)) = ok leader) ∧
    ∀ rewardId rewardTime, ¬ (Sample.firstState []).chain.Plans (Sample.node []) Sample.issued
      (some (Sample.address 7)) Sample.morning rewardId rewardTime := by
  have hrun : (Sample.settings []).run Sample.quietMorning (Sample.firstState [])
      (.begin (.issueCertificate true "c" "graduate")) = _ := rfl
  have hissued : Certified (Sample.settings []) (Sample.firstState []) Sample.issued :=
    .intro hrun rfl
  refine ⟨Sample.firstState_reachable, rfl, .certified hissued, Sample.planLeader_first,
    fun rewardId rewardTime hplans => ?_⟩
  obtain ⟨leader, hleader⟩ := Sample.planLeader_first
  obtain ⟨next, -, hiff, -⟩ := admission_included_iff rfl Sample.firstState_reachable rfl
    (.certified hissued) hleader
  obtain ⟨hscope, -⟩ := hiff.mp hplans
  rw [ChainState.verifyChainScope, if_neg (by decide), ensure_eq_ok] at hscope
  exact absurd hscope (by decide)

end Settings
