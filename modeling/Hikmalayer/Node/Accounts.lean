/-
# Nonces over the pool

While transactions are only queued, whatever queues them and in whatever order, the node answers each
account with the nonce that its next transaction has to carry: the admitted transactions of an account
carry the answered nonces, one after another.
-/
import Mathlib.Tactic
import Hikmalayer.Model.Accounts
import Hikmalayer.Ledger.Nonces
import Hikmalayer.Node.Inclusion

open Outcome Exec ChainState OrderedMap ServerTurn

/-! ## The state over the pool -/

namespace ChainState

variable {E : Node} {s p : ChainState} {height : UInt64} {tx : Transaction}

/-- What transactions do not touch: the network, the signature policy and the fee in force. -/
structure Rules where
  chainId : String
  requireHybridSignatures : Bool
  baseFee : UInt64

def rules (s : ChainState) : Rules := ⟨s.chainId, s.requireHybridSignatures, s.baseFee⟩

/-- Applying a transaction leaves the rules, also when it fails on the way. -/
theorem applyVerified_rules : Leaves rules (applyVerified E tx height) := by
  refine (Leaves.read _ _).bind fun _ => (Leaves.read _ _).bind fun _ => ?_
  unfold applyBranch
  cases tx.transactionType
  case transfer =>
    exact guarded_leaves (fun _ _ _ => rfl) fun _ =>
      transferEffects_leaves (fun _ _ _ => rfl) (fun _ _ => rfl) _
  case stake =>
    exact guarded_leaves (fun _ _ _ => rfl) fun _ =>
      stakeEffects_leaves (fun _ _ _ => rfl) (fun _ _ => rfl) (fun _ _ _ => rfl) _
  case withdraw =>
    exact guarded_leaves (fun _ _ _ => rfl) fun _ => withdrawEffects_leaves
      (fun _ _ _ => rfl) (fun _ _ => rfl) (fun _ _ _ => rfl) (fun _ _ => rfl) _
  case vest =>
    exact guarded_leaves (fun _ _ _ => rfl) fun _ =>
      vestEffects_leaves (fun _ _ _ => rfl) (fun _ _ => rfl) (fun _ _ => rfl) _
  case reward => exact applyReward_leaves (fun _ _ _ => rfl) (fun _ _ _ => rfl)
  case certificate =>
    show Leaves rules (applyCertificate tx)
    unfold applyCertificate
    split
    · exact Leaves.pure _ ()
    · exact guarded_leaves (fun _ _ _ => rfl) fun _ =>
        certificateEffects_leaves (fun _ _ _ => rfl) _ _
  case slash =>
    exact (Leaves.read _ _).bind fun _ => slashEffects_leaves (fun _ _ _ => rfl)
      (fun _ _ _ => rfl) (fun _ _ _ => rfl) (fun _ _ => rfl) (fun _ _ _ => rfl) _ _
  case tokenCreate =>
    exact guarded_leaves (fun _ _ _ => rfl) fun _ => tokenCreateEffects_leaves
      (fun _ _ _ => rfl) (fun _ _ => rfl) (fun _ _ _ => rfl) (fun _ _ _ => rfl) _
  case tokenTransfer =>
    exact guarded_leaves (fun _ _ _ => rfl) fun _ => tokenTransferEffects_leaves
      (fun _ _ _ => rfl) (fun _ _ => rfl) (fun _ _ _ => rfl) _
  case tokenBurn =>
    exact guarded_leaves (fun _ _ _ => rfl) fun _ => tokenBurnEffects_leaves
      (fun _ _ _ => rfl) (fun _ _ => rfl) (fun _ _ _ => rfl) (fun _ _ _ => rfl) _
  case addLiquidity =>
    exact guarded_leaves (fun _ _ _ => rfl) fun _ => addLiquidityEffects_leaves (fun _ _ _ => rfl)
      (fun _ _ => rfl) (fun _ _ _ => rfl) (fun _ _ _ => rfl) (fun _ _ _ => rfl) _
  case removeLiquidity =>
    exact guarded_leaves (fun _ _ _ => rfl) fun _ => removeLiquidityEffects_leaves (fun _ _ _ => rfl)
      (fun _ _ => rfl) (fun _ _ _ => rfl) (fun _ _ _ => rfl) (fun _ _ _ => rfl) _
  case swap =>
    exact guarded_leaves (fun _ _ _ => rfl) fun _ => swapEffects_leaves
      (fun _ _ _ => rfl) (fun _ _ => rfl) (fun _ _ _ => rfl) (fun _ _ _ => rfl) _

theorem projectPendingState_rules {pending : List Transaction} : ∀ {s : ChainState},
    s.projectPendingState E height pending = ok p → p.rules = s.rules := by
  induction pending with
  | nil =>
    intro s h
    rw [projectPendingState, ok.injEq] at h
    rw [h]
  | cons tx rest ih =>
    intro s h
    rw [projectPendingState] at h
    split at h
    · next r hr => exact (ih h).trans ((applyVerified_rules s).1 _ _ hr)
    · next e he => exact (ih h).trans ((applyVerified_rules s).2 _ _ he)
    · cases h

theorem projectPendingState_append (l l' : List Transaction) : ∀ {s : ChainState},
    s.projectPendingState E height (l ++ l') =
      s.projectPendingState E height l >>= fun mid => mid.projectPendingState E height l' := by
  induction l with
  | nil => exact fun {s} => rfl
  | cons tx rest ih =>
    intro s
    rw [List.cons_append, projectPendingState, projectPendingState]
    cases applyVerified E tx height s with
    | ok r => exact ih
    | err e => exact ih
    | panicked => rfl

/-- A certificate that nobody signed is projected without a trace. -/
theorem projectPendingState_unsigned (hkind : tx.transactionType = .certificate)
    (hsender : tx.sender = none) (hcredential : tx.credential = none) :
    s.projectPendingState E height [tx] = ok s := by
  have hpolicy : s.verifySignaturePolicy tx = ok () := by
    rw [verifySignaturePolicy, hsender]
    split_ifs <;> rfl
  have hbranch : applyBranch E tx height = pure () := by
    rw [applyBranch, hkind]
    show applyCertificate tx = pure ()
    rw [applyCertificate, hcredential]
  have hnext : applyVerified E tx height s = ok ((), s) ∨
      ∃ e, applyVerified E tx height s = err (e, s) := by
    by_cases hscope : tx.chainId = s.chainId
    · left
      have hpass : s.verifyChainScope tx = ok () := by
        rw [verifyChainScope, if_neg (by rw [hkind]; decide), ensure_pos hscope]
      simp only [applyVerified, Exec.bind_eq_ok, read_eq_ok, hbranch]
      exact ⟨(), s, ⟨hpass, rfl⟩, (), s, ⟨hpolicy, rfl⟩, rfl⟩
    · right
      have hscoped : s.verifyChainScope tx = ensure (tx.chainId = s.chainId)
          ("Transaction is for network '" ++ tx.chainId ++ "', this chain is '" ++ s.chainId ++ "'") :=
        if_neg (by rw [hkind]; decide)
      obtain ⟨e, hrefuse⟩ : ∃ e, s.verifyChainScope tx = err e :=
        ⟨_, hscoped.trans (ensure_neg hscope)⟩
      refine ⟨e, ?_⟩
      rw [applyVerified, Exec.bind_apply, Exec.read, hrefuse]
  rw [projectPendingState]
  rcases hnext with h | ⟨e, h⟩
  · rw [h]
    rfl
  · rw [h]
    rfl

/-- A transaction is admitted when it applies to the state over the pool. -/
theorem admits_eq_ok {pending : List Transaction} :
    s.admits E pending height tx = ok () ↔
      ∃ p p', s.projectPendingState E height pending = ok p ∧
        applyVerified E tx height p = ok ((), p') := by
  simp only [admits, Outcome.bind_eq_ok, finalState_eq_ok]
  constructor
  · rintro ⟨p, hp, p', hp', -⟩
    exact ⟨p, p', hp, hp'⟩
  · rintro ⟨p, p', hp, hp'⟩
    exact ⟨p, hp, p', hp', rfl⟩

/-- A sender's transaction on the network applies when its account is allowed and its branch runs. -/
theorem applies_iff_branch {a : String} (hpaid : tx.transactionType ≠ .reward)
    (hslash : tx.transactionType ≠ .slash) (hsender : tx.sender = some a)
    (hchain : tx.chainId = p.chainId) : (∃ p', applyVerified E tx height p = ok ((), p')) ↔
      (p.requireHybridSignatures = true → Hybrid.isHybridAddress a = true) ∧
        ∃ p', applyBranch E tx height p = ok ((), p') := by
  have hother : ¬ (tx.transactionType = .reward ∨ tx.transactionType = .slash) :=
    not_or.mpr ⟨hpaid, hslash⟩
  have hscope : p.verifyChainScope tx = ok () := by
    rw [verifyChainScope, if_neg hother, ensure_pos hchain]
  have hpolicy : p.verifySignaturePolicy tx = ok () ↔
      (p.requireHybridSignatures = true → Hybrid.isHybridAddress a = true) := by
    rw [verifySignaturePolicy, if_neg hother, hsender]
    cases p.requireHybridSignatures <;> simp [ensure_eq_ok]
  simp only [applyVerified, Exec.bind_eq_ok, read_eq_ok, hscope, ← hpolicy]
  constructor
  · rintro ⟨p', _, _, ⟨-, rfl⟩, _, _, ⟨hallowed, rfl⟩, hbranch⟩
    exact ⟨hallowed, p', hbranch⟩
  · rintro ⟨hallowed, p', hbranch⟩
    exact ⟨p', (), p, ⟨trivial, rfl⟩, (), p, ⟨hallowed, rfl⟩, hbranch⟩

/-- When a transfer on the network applies. -/
theorem transfer_applies_iff {a : String} (hE : E.saturation = .clamp)
    (ht : tx.transactionType = .transfer) (hsender : tx.sender = some a)
    (hchain : tx.chainId = p.chainId) : (∃ p', applyVerified E tx height p = ok ((), p')) ↔
      (p.requireHybridSignatures = true → Hybrid.isHybridAddress a = true) ∧
      isValidAddress tx.recipient = true ∧ p.NextNonce a tx.nonce ∧
      tx.amount.toNat + p.baseFee.toNat ≤ (valueAt p.balances a).toNat ∧
      (a ≠ tx.recipient →
        (valueAt p.balances tx.recipient).toNat + tx.amount.toNat < 2 ^ 64) := by
  have hbranch : applyBranch E tx height =
      guarded (transferChecks tx) id tx.nonce (transferEffects E tx) := by
    rw [applyBranch, ht]
    rfl
  rw [applies_iff_branch (by rw [ht]; decide) (by rw [ht]; decide) hsender hchain, hbranch]
  simp only [guarded_eq_ok, transferChecks_eq_ok, hsender, Option.some.injEq, id_eq]
  refine and_congr_right fun _ => ?_
  have hbalance := Word.toNat_lt (valueAt p.balances a)
  constructor
  · rintro ⟨p', _, ⟨rfl, hvalid⟩, hnonce, heffects⟩
    refine ⟨hvalid, hnonce, ?_⟩
    simp only [transferEffects, Exec.bind_eq_ok, read_eq_ok, ok.injEq, totalDebit_eq_ok, debit_eq_ok,
      tryCredit_eq_ok] at heffects
    obtain ⟨_, _, ⟨rfl, rfl⟩, total, _, ⟨htotal, rfl⟩, _, _, ⟨rest, hrest, rfl⟩, _, _,
      ⟨balance, hcredit, rfl⟩, -⟩ := heffects
    have hrest : rest.toNat + total.toNat = (valueAt p.balances a).toNat := hrest
    have htotal : total.toNat = tx.amount.toNat + p.baseFee.toNat := htotal
    refine ⟨by omega, fun hne => ?_⟩
    have hread : valueAt (((p.setNonce a tx.nonce).setBalance a rest).balances) tx.recipient =
        valueAt p.balances tx.recipient := valueAt_insert_of_ne rest hne
    rw [hread] at hcredit
    have hlt := Word.toNat_lt balance
    omega
  · rintro ⟨hvalid, hnonce, hfunds, hroom⟩
    obtain ⟨total, htotal⟩ : ∃ total : UInt64,
        total.toNat = tx.amount.toNat + p.baseFee.toNat :=
      ⟨_, Word.toNat_ofNat_of_lt (by omega)⟩
    obtain ⟨rest, hrest⟩ : ∃ rest : UInt64,
        rest.toNat + total.toNat = (valueAt p.balances a).toNat :=
      ⟨_, Word.checkedSub_eq_some.mp (Word.checkedSub_of_le (by omega))⟩
    have hcredit : (valueAt (((p.setNonce a tx.nonce).setBalance a rest).balances)
        tx.recipient).toNat + tx.amount.toNat < 2 ^ 64 := by
      rw [setBalance_balances]
      by_cases hself : a = tx.recipient
      · rw [← hself, valueAt_insert_self]
        omega
      · rw [valueAt_insert_of_ne _ hself]
        exact hroom hself
    obtain ⟨pot, hpot⟩ : ∃ pot, E.saturation.add p.feePot p.baseFee = some pot := by
      rw [hE]
      exact ⟨_, rfl⟩
    simp only [transferEffects, Exec.bind_eq_ok, read_eq_ok, ok.injEq, totalDebit_eq_ok, debit_eq_ok,
      tryCredit_eq_ok, collectFee_eq_ok]
    exact ⟨_, a, ⟨rfl, hvalid⟩, hnonce, _, _, ⟨rfl, rfl⟩, total, _, ⟨htotal, rfl⟩, (), _,
      ⟨rest, hrest, rfl⟩, (), _, ⟨_, Word.toNat_ofNat_of_lt hcredit, rfl⟩, pot, hpot, rfl⟩

end ChainState

/-! ## Queueing -/

namespace Settings

variable {cfg : Settings} {i i' : Surroundings} {a : ServerAction} {s t : AppState}
  {added : List Transaction} {p : ChainState}

/-- An action of some handler that neither changes the chain nor takes anything out of the pool. -/
def Queues (cfg : Settings) (s t : AppState) : Prop :=
  ∃ i a turn, cfg.run i s a = some turn ∧ turn.state = t ∧ t.chain = s.chain ∧
    s.pendingTransactions <+: t.pendingTransactions

/-- What such an action puts into the pool: nothing, a certificate that nobody signed, or a
transaction that was admitted. -/
inductive Queued (cfg : Settings) (s : AppState) : List Transaction → Prop
  | nothing : Queued cfg s []
  | certificate (id : String) (stamp : DateTime) (issuedTo : String) :
    Queued cfg s [.newCertificate id stamp issuedTo]
  | admitted {tx : Transaction} {height : UInt64}
    (hheight : s.chain.nextIndex = (ok height : Outcome String _) ∨
      height = UInt64.ofNat s.chain.blocks.length)
    (hadmits : s.chain.state.admits cfg.node s.pendingTransactions height tx = ok ()) :
    Queued cfg s [tx]

/-- Nothing new is in a pool that was only filtered. -/
theorem eq_of_prefix_filter {l : List Transaction} {keep : Transaction → Bool}
    (h : l <+: l.filter keep) : l.filter keep = l :=
  List.filter_sublist.antisymm h.sublist

theorem Queues.queued (h : cfg.Queues s t) :
    ∃ added, t.pendingTransactions = s.pendingTransactions ++ added ∧ cfg.Queued s added := by
  obtain ⟨i, a, turn, hrun, rfl, -, hprefix⟩ := h
  have heffect := run_effect hrun
  generalize turn.state = t at heffect hprefix
  cases heffect with
  | certified id issuedTo => exact ⟨_, rfl, .certificate _ _ _⟩
  | gossiped e tx hadmits =>
    obtain ⟨height, hheight, hadmits⟩ := Outcome.bind_eq_ok.mp hadmits
    exact ⟨_, rfl, .admitted (.inl hheight) hadmits⟩
  | admitted tx _ _ hadmits => exact ⟨_, rfl, .admitted (.inr rfl) hadmits⟩
  | pruned accepted =>
    refine ⟨[], ?_, .nothing⟩
    rw [List.append_nil]
    exact eq_of_prefix_filter hprefix
  | mined key plan built block depth chain pending hfinish _ =>
    obtain ⟨_, -, -, -, -, rfl⟩ := Blockchain.finishMine_eq_ok hfinish
    refine ⟨[], ?_, .nothing⟩
    rw [List.append_nil]
    exact eq_of_prefix_filter hprefix
  | _ => exact ⟨[], (List.append_nil _).symm, .nothing⟩

/-- On a chain from genesis the next height is the number of blocks. -/
theorem nextIndex_of_genesis {chain : Blockchain} (hbase : chain.baseHeight = 0) :
    chain.nextIndex = (ok (UInt64.ofNat chain.blocks.length) : Outcome String _) := by
  rw [Blockchain.nextIndex, plain_eq_ok, Word.checkedAdd_eq_some, hbase, UInt64.toNat_zero,
    Nat.zero_add]

/-- What the queued transactions of an account do to its nonce over the pool. -/
def Counts (p p' : ChainState) (added : List Transaction) : Prop :=
  ∀ account, spentNonces account added =
      List.range' ((p.nonceOf account).toNat + 1) (spentNonces account added).length ∧
    (p'.nonceOf account).toNat = (p.nonceOf account).toNat + (spentNonces account added).length

theorem Counts.nothing (p : ChainState) : Counts p p [] := fun _ => ⟨rfl, rfl⟩

/-- One applied transaction. -/
theorem counts_of_nonceStep {p p' : ChainState} {tx : Transaction}
    (h : NonceStep p p' tx tx.signer) : Counts p p' [tx] := by
  intro account
  rw [spentNonces_singleton]
  cases hsigner : tx.signer with
  | none =>
    rw [hsigner] at h
    rw [if_neg (Option.some_ne_none account).symm, nonceOf, nonceOf, h]
    exact ⟨rfl, rfl⟩
  | some signer =>
    rw [hsigner] at h
    obtain ⟨hnext, hnonces⟩ := h
    by_cases heq : signer = account
    · subst heq
      have hnonce : p'.nonceOf signer = tx.nonce := by
        rw [nonceOf, hnonces, valueAt_insert_self]
      rw [if_pos rfl, hnonce]
      exact ⟨congrArg (fun n => [n]) hnext, hnext⟩
    · have hnonce : p'.nonceOf account = p.nonceOf account := by
        rw [nonceOf, hnonces, valueAt_insert_of_ne _ heq]
        rfl
      rw [if_neg fun h => heq (Option.some.inj h), hnonce]
      exact ⟨rfl, rfl⟩

theorem Counts.trans {p p' p'' : ChainState} {more : List Transaction} (h : Counts p p' added)
    (h' : Counts p' p'' more) : Counts p p'' (added ++ more) := by
  intro account
  obtain ⟨hspent, hnonce⟩ := h account
  obtain ⟨hspent', hnonce'⟩ := h' account
  rw [spentNonces_append, List.length_append]
  refine ⟨?_, by omega⟩
  rw [hnonce] at hspent'
  conv_lhs => rw [hspent, hspent']
  rw [← List.range'_append_1]
  congr 2
  omega

/-- An action that queues. -/
theorem Queues.counts (hbase : s.chain.baseHeight = 0) (h : cfg.Queues s t)
    (hp : s.projected cfg.node = ok p) :
    ∃ added p', t.pendingTransactions = s.pendingTransactions ++ added ∧
      t.projected cfg.node = ok p' ∧ Counts p p' added := by
  obtain ⟨added, hpool, hadded⟩ := h.queued
  obtain ⟨_, _, _, -, -, hchain, -⟩ := h
  have hnext := nextIndex_of_genesis hbase
  have hs : s.chain.state.projectPendingState cfg.node (UInt64.ofNat s.chain.blocks.length)
      s.pendingTransactions = ok p := by
    rw [AppState.projected, hnext, ok_bind] at hp
    exact hp
  have ht : t.projected cfg.node =
      p.projectPendingState cfg.node (UInt64.ofNat s.chain.blocks.length) added := by
    rw [AppState.projected, hchain, hnext, ok_bind, hpool, projectPendingState_append, hs, ok_bind]
  rw [ht]
  cases hadded with
  | nothing => exact ⟨[], p, hpool, rfl, .nothing p⟩
  | certificate id stamp issuedTo =>
    refine ⟨_, p, hpool, projectPendingState_unsigned rfl rfl rfl, ?_⟩
    exact counts_of_nonceStep rfl
  | @admitted tx height hheight hadmits =>
    have heq : height = UInt64.ofNat s.chain.blocks.length := by
      rcases hheight with hheight | hheight
      · rw [hnext, ok.injEq] at hheight
        exact hheight.symm
      · exact hheight
    subst heq
    obtain ⟨q, p', hq, happly⟩ := admits_eq_ok.mp hadmits
    rw [hs, ok.injEq] at hq
    subst hq
    refine ⟨_, p', hpool, ?_, counts_of_nonceStep (applyVerified_applied happly).2.2.nonceStep⟩
    rw [projectPendingState, happly]
    rfl

/-- However the handlers interleave, while they only queue. -/
theorem queues_count (hbase : s.chain.baseHeight = 0)
    (hrun : Relation.ReflTransGen cfg.Queues s t) (hp : s.projected cfg.node = ok p) :
    ∃ added p', t.pendingTransactions = s.pendingTransactions ++ added ∧ t.chain = s.chain ∧
      t.projected cfg.node = ok p' ∧ Counts p p' added := by
  induction hrun with
  | refl => exact ⟨[], p, (List.append_nil _).symm, rfl, hp, .nothing p⟩
  | tail _ hlast ih =>
    obtain ⟨added, mid, hpool, hchain, hmid, hcounts⟩ := ih
    obtain ⟨more, p', hpool', hp', hcounts'⟩ := hlast.counts (hchain ▸ hbase) hmid
    obtain ⟨_, _, _, -, -, hchain', -⟩ := hlast
    refine ⟨added ++ more, p', ?_, hchain'.trans hchain, hp', hcounts.trans hcounts'⟩
    rw [hpool', hpool, List.append_assoc]

theorem queues_grow (hrun : Relation.ReflTransGen cfg.Queues s t) :
    ∃ added, t.pendingTransactions = s.pendingTransactions ++ added := by
  induction hrun with
  | refl => exact ⟨[], (List.append_nil _).symm⟩
  | tail _ hlast ih =>
    obtain ⟨added, hpool⟩ := ih
    obtain ⟨more, hpool', -⟩ := hlast.queued
    exact ⟨added ++ more, by rw [hpool', hpool, List.append_assoc]⟩

/-- On a chain from genesis, while handlers only queue transactions: the transactions of an account
that come into the pool carry, in order, the nonce that the node has answered and the ones after it,
and the node then answers the nonce after those. -/
theorem nonces_answered (hbase : s.chain.baseHeight = 0)
    (hrun : Relation.ReflTransGen cfg.Queues s t) :
    ∃ added, t.pendingTransactions = s.pendingTransactions ++ added ∧
      ∀ account answer, s.getAccountNonce cfg.node account = ok answer →
        spentNonces account added =
            List.range' answer.nextNonce.toNat (spentNonces account added).length ∧
          ∀ next : UInt64, next.toNat =
              answer.nextNonce.toNat + (spentNonces account added).length →
            t.getAccountNonce cfg.node account = ok { answer with nextNonce := next } := by
  obtain ⟨added, hpool⟩ := queues_grow hrun
  refine ⟨added, hpool, fun account answer hanswer => ?_⟩
  simp only [AppState.getAccountNonce, Outcome.bind_eq_ok, plain_eq_ok, Word.checkedAdd_eq_some,
    pure_eq, ok.injEq] at hanswer ⊢
  obtain ⟨p, hp, nonce, hnonce, rfl⟩ := hanswer
  obtain ⟨added', p', hpool', hchain, hp', hcounts⟩ := queues_count hbase hrun hp
  rw [hpool] at hpool'
  obtain rfl := List.append_cancel_left hpool'
  obtain ⟨hspent, hlast⟩ := hcounts account
  have hone : (1 : UInt64).toNat = 1 := rfl
  dsimp only
  refine ⟨?_, fun next hnext => ⟨p', hp', next, ?_, ?_⟩⟩
  · rw [hnonce]
    exact hspent
  · omega
  · rw [hchain]

/-! ## Transfers -/

/-- The action that queues a submitted transaction puts it into the pool. -/
def Enqueues (cfg : Settings) (i : Surroundings) (s : AppState) (tx : Transaction) : Prop :=
  ∃ turn, cfg.run i s (.enqueue tx) = some turn ∧
    turn.state.pendingTransactions = s.pendingTransactions ++ [tx]

theorem enqueues_iff {tx : Transaction} : cfg.Enqueues i s tx ↔
    s.pendingTransactions.length < maxPendingTxs ∧
      (∀ queued ∈ s.pendingTransactions, queued.id ≠ tx.id) ∧
      s.chain.state.admits cfg.node s.pendingTransactions (UInt64.ofNat s.chain.blocks.length) tx =
        ok () := by
  have hstays : ∀ {l : List Transaction}, ¬ l = l ++ [tx] := fun {l} h => by
    have hlength := congrArg List.length h
    rw [List.length_append, List.length_singleton] at hlength
    omega
  constructor
  · rintro ⟨turn, hrun, hpool⟩
    have hrun : runEnqueue cfg s tx = some turn := hrun
    unfold runEnqueue at hrun
    split at hrun
    · cases hrun
      exact absurd hpool hstays
    · next hroom =>
      split at hrun
      · cases hrun
        exact absurd hpool hstays
      · next hnew =>
        rcases settle_eq_some.mp hrun with ⟨_, hadmits, rfl⟩ | ⟨_, -, rfl⟩
        · refine ⟨not_le.mp hroom, fun queued hqueued hid => hnew ?_, hadmits⟩
          exact List.any_eq_true.mpr ⟨queued, hqueued, decide_eq_true hid⟩
        · exact absurd hpool hstays
  · rintro ⟨hroom, hnew, hadmits⟩
    have hany : ¬ (s.pendingTransactions.any fun queued => queued.id = tx.id) = true := by
      rw [List.any_eq_true]
      rintro ⟨queued, hqueued, hid⟩
      exact hnew queued hqueued (of_decide_eq_true hid)
    show ∃ turn, runEnqueue cfg s tx = some turn ∧
      turn.state.pendingTransactions = s.pendingTransactions ++ [tx]
    rw [runEnqueue, if_neg (not_le.mpr hroom), if_neg hany, hadmits]
    exact ⟨_, rfl, rfl⟩

/-- The request goes on to queue what was submitted, on the network of the node, when it verifies. -/
theorem queueTransaction_adds_iff {tx sent : Transaction} (hkind : tx.transactionType ≠ .reward)
    (hsent : sent = { tx with chainId := s.chain.state.chainId }) :
    (∃ turn, cfg.run i s (.begin (.queueTransaction tx)) = some turn ∧ turn.Adds (.enqueue sent)) ↔
      sent.verifyForBlock cfg.node "__queue__" = ok () := by
  have hrun : cfg.run i s (.begin (.queueTransaction tx)) =
      settle (sent.verifyForBlock cfg.node "__queue__") (fun _ => goOn s [.enqueue sent])
        fun message => finish s [.submitted sent (.refused ("Invalid transaction: " ++ message))] := by
    rw [hsent]
    exact if_neg hkind
  rw [hrun]
  cases sent.verifyForBlock cfg.node "__queue__" with
  | ok u => exact iff_of_true ⟨_, rfl, adds_goOn.mpr (List.mem_singleton_self _)⟩ rfl
  | err message =>
    refine iff_of_false ?_ (by simp only [reduceCtorEq, not_false_eq_true])
    rintro ⟨turn, hturn, hadds⟩
    rw [← Option.some.inj hturn] at hadds
    exact adds_finish hadds
  | panicked =>
    refine iff_of_false ?_ (by simp only [reduceCtorEq, not_false_eq_true])
    rintro ⟨turn, hturn, -⟩
    cases hturn

theorem projectPendingState_of_projected (hbase : s.chain.baseHeight = 0)
    (hp : s.projected cfg.node = ok p) : s.chain.state.projectPendingState cfg.node
      (UInt64.ofNat s.chain.blocks.length) s.pendingTransactions = ok p := by
  rw [AppState.projected, nextIndex_of_genesis hbase, ok_bind] at hp
  exact hp

/-- The node answers for an account what is next over the pool. -/
theorem nextNonce_iff {sender : String} {nonce : UInt64} (hp : s.projected cfg.node = ok p) :
    (∃ answer, s.getAccountNonce cfg.node sender = ok answer ∧ nonce = answer.nextNonce) ↔
      p.NextNonce sender nonce := by
  simp only [AppState.getAccountNonce, hp, ok_bind, Outcome.bind_eq_ok, plain_eq_ok,
    Word.checkedAdd_eq_some, pure_eq, ok.injEq]
  constructor
  · rintro ⟨_, ⟨next, hnext, rfl⟩, rfl⟩
    exact hnext
  · exact fun h => ⟨_, ⟨nonce, h, rfl⟩, rfl⟩

/-- On a chain from genesis a transaction is queued exactly when there is room for it, its id is new
and it applies over the pool. -/
theorem enqueues_over_iff (hbase : s.chain.baseHeight = 0) (hp : s.projected cfg.node = ok p)
    {tx : Transaction} : cfg.Enqueues i s tx ↔ s.pendingTransactions.length < maxPendingTxs ∧
      (∀ queued ∈ s.pendingTransactions, queued.id ≠ tx.id) ∧
      ∃ p', applyVerified cfg.node tx (UInt64.ofNat s.chain.blocks.length) p = ok ((), p') := by
  have hproject := projectPendingState_of_projected hbase hp
  have hadmits : s.chain.state.admits cfg.node s.pendingTransactions
      (UInt64.ofNat s.chain.blocks.length) tx = ok () ↔ ∃ p', applyVerified cfg.node tx
        (UInt64.ofNat s.chain.blocks.length) p = ok ((), p') := by
    rw [admits_eq_ok]
    constructor
    · rintro ⟨q, p', hq, happly⟩
      rw [hproject, ok.injEq] at hq
      exact ⟨p', hq ▸ happly⟩
    · rintro ⟨p', happly⟩
      exact ⟨p, p', hproject, happly⟩
  rw [enqueues_iff, hadmits]

/-- On a chain from genesis a transfer on the network is queued exactly when there is room for it and
its id is new, its sender and recipient are allowed, it carries the nonce that the node answers for
its sender, and over the pool the sender can pay it with the fee and the recipient can hold it. -/
theorem enqueues_transfer_iff (hE : cfg.node.saturation = .clamp) (hbase : s.chain.baseHeight = 0)
    (hp : s.projected cfg.node = ok p) {tx : Transaction} {sender : String}
    (hkind : tx.transactionType = .transfer) (hsender : tx.sender = some sender)
    (hchain : tx.chainId = s.chain.state.chainId) : cfg.Enqueues i s tx ↔
      s.pendingTransactions.length < maxPendingTxs ∧
      (∀ queued ∈ s.pendingTransactions, queued.id ≠ tx.id) ∧
      (s.chain.state.requireHybridSignatures = true → Hybrid.isHybridAddress sender = true) ∧
      isValidAddress tx.recipient = true ∧
      (∃ answer, s.getAccountNonce cfg.node sender = ok answer ∧ tx.nonce = answer.nextNonce) ∧
      tx.amount.toNat + s.chain.state.baseFee.toNat ≤ (valueAt p.balances sender).toNat ∧
      (sender ≠ tx.recipient →
        (valueAt p.balances tx.recipient).toNat + tx.amount.toNat < 2 ^ 64) := by
  have hrules := projectPendingState_rules (projectPendingState_of_projected hbase hp)
  have hnetwork : p.chainId = s.chain.state.chainId := congrArg Rules.chainId hrules
  have hpolicy : p.requireHybridSignatures = s.chain.state.requireHybridSignatures :=
    congrArg Rules.requireHybridSignatures hrules
  have hfee : p.baseFee = s.chain.state.baseFee := congrArg Rules.baseFee hrules
  rw [enqueues_over_iff hbase hp, transfer_applies_iff hE hkind hsender (hchain.trans hnetwork.symm),
    nextNonce_iff hp, hpolicy, hfee]

/-- On a chain from genesis a submitted transfer gets into the pool exactly when it is signed for the
network of the node, there is room for it and its id is new, its sender and recipient are allowed,
it carries the nonce that the node answers for its sender, and over the pool the sender can pay it
with the fee and the recipient can hold it. -/
theorem transfer_queued_iff (hE : cfg.node.saturation = .clamp) (hbase : s.chain.baseHeight = 0)
    (hp : s.projected cfg.node = ok p) {tx sent : Transaction} {sender : String}
    (hkind : tx.transactionType = .transfer) (hsender : tx.sender = some sender)
    (hsent : sent = { tx with chainId := s.chain.state.chainId }) :
    ((∃ turn, cfg.run i s (.begin (.queueTransaction tx)) = some turn ∧ turn.Adds (.enqueue sent)) ∧
      cfg.Enqueues i' s sent) ↔
      sent.verifySenderSignature cfg.node sender
        (Transaction.transferSigningMessage sender tx.recipient tx.amount tx.nonce) = ok () ∧
      s.pendingTransactions.length < maxPendingTxs ∧
      (∀ queued ∈ s.pendingTransactions, queued.id ≠ tx.id) ∧
      (s.chain.state.requireHybridSignatures = true → Hybrid.isHybridAddress sender = true) ∧
      isValidAddress tx.recipient = true ∧
      (∃ answer, s.getAccountNonce cfg.node sender = ok answer ∧ tx.nonce = answer.nextNonce) ∧
      tx.amount.toNat + s.chain.state.baseFee.toNat ≤ (valueAt p.balances sender).toNat ∧
      (sender ≠ tx.recipient →
        (valueAt p.balances tx.recipient).toNat + tx.amount.toNat < 2 ^ 64) := by
  have hverify : sent.verifyForBlock cfg.node "__queue__" =
      sent.verifySenderSignature cfg.node sender
        (Transaction.transferSigningMessage sender tx.recipient tx.amount tx.nonce) := by
    unfold Transaction.verifyForBlock
    simp only [hsent, hkind, hsender, okOr_some, ok_bind]
  have hchain : sent.chainId = s.chain.state.chainId := by rw [hsent]
  rw [queueTransaction_adds_iff (by rw [hkind]; decide) hsent, hverify,
    enqueues_transfer_iff hE hbase hp (by rw [hsent]; exact hkind) (by rw [hsent]; exact hsender)
      hchain]
  rw [hsent]

end Settings

/-! ## The faucet -/

/-- A key of an address, which the library derives if it is classical, with signatures that verify. -/
structure TreasuryKey.Genuine (E : Env) (key : TreasuryKey) : Prop where
  derives : Hybrid.schemeOf key.address = some .classical →
    Pos.deriveAddress E key.publicKey = ok key.address
  signs : ∀ message signature, key.signMessage message = ok signature →
    Pos.verifyMessage E message key.publicKey signature = true

namespace Settings

variable {cfg : Settings} {i i' : Surroundings} {s : AppState} {p : ChainState}
  {treasury : TreasuryKey} {authorized : Bool} {recipient id : String} {amount : UInt64}
  {stamp : DateTime} {tx : Transaction}

/-- What the faucet puts into its transfer: the answered nonce and a classical signature. -/
structure FaucetTransfer (cfg : Settings) (s : AppState) (treasury : TreasuryKey)
    (recipient id : String) (amount : UInt64) (tx : Transaction) : Prop where
  id : tx.id = id
  kind : tx.transactionType = .transfer
  sender : tx.sender = some treasury.address
  recipient : tx.recipient = recipient
  amount : tx.amount = amount
  nonce : ∃ answer, s.getAccountNonce cfg.node treasury.address = ok answer ∧
    tx.nonce = answer.nextNonce
  publicKey : tx.publicKey = some treasury.publicKey
  signature : ∃ signature, tx.signature = some signature ∧
    treasury.signMessage (Transaction.scopedSigningMessage s.chain.state.chainId
      (Transaction.transferSigningMessage treasury.address tx.recipient tx.amount tx.nonce)) =
        ok signature
  classical : tx.pqPublicKey = none ∧ tx.pqSignature = none

theorem faucetTokens_ok (h : s.faucetTokens cfg.node authorized (some treasury) recipient amount id
    stamp = ok tx) : FaucetTransfer cfg s treasury recipient id amount tx := by
  simp only [AppState.faucetTokens, okOr_some, ok_bind, Outcome.bind_eq_ok, ensure_eq_ok,
    plain_eq_ok, mapErr_eq_ok, pure_eq, ok.injEq] at h
  obtain ⟨_, -, _, -, p, hp, nonce, hnonce, signature, hsign, rfl⟩ := h
  have hanswer : s.getAccountNonce cfg.node treasury.address =
      ok ⟨treasury.address, nonce, s.chain.state.baseFee⟩ := by
    simp only [AppState.getAccountNonce, hp, ok_bind, hnonce, plain_some, pure_eq]
  exact ⟨rfl, rfl, rfl, rfl, rfl, ⟨_, hanswer, rfl⟩, rfl, ⟨signature, rfl, hsign⟩, rfl, rfl⟩

/-- The transfer of the faucet verifies on the network of the node exactly when the treasury is a
classical account: it carries no post-quantum keys. -/
theorem FaucetTransfer.verifies_iff (h : FaucetTransfer cfg s treasury recipient id amount tx)
    (hkey : treasury.Genuine cfg.node) (hchain : tx.chainId = s.chain.state.chainId)
    (validator : String) : tx.verifyForBlock cfg.node validator = ok () ↔
      Hybrid.schemeOf treasury.address = some .classical := by
  obtain ⟨signature, hsignature, hsign⟩ := h.signature
  have hverify := hkey.signs _ _ hsign
  have hmessage : tx.verifyForBlock cfg.node validator =
      tx.verifySenderSignature cfg.node treasury.address
        (Transaction.transferSigningMessage treasury.address tx.recipient tx.amount tx.nonce) := by
    unfold Transaction.verifyForBlock
    simp only [h.kind, h.sender, okOr_some, ok_bind]
  rw [hmessage]
  unfold Transaction.verifySenderSignature
  simp only [h.publicKey, hsignature, h.classical.1, h.classical.2, okOr_some, ok_bind, hchain]
  rcases hscheme : Hybrid.schemeOf treasury.address with _ | _ | _
  · simp only [reduceCtorEq]
  · simp only [and_self, ensure_pos, ok_bind, hkey.derives hscheme, hverify]
  · simp only [okOr_none, err_bind, reduceCtorEq, Option.some.injEq]

/-- On a chain from genesis a submitted transfer of the faucet gets into the pool exactly when the
treasury is a classical account and the network admits those, there is room and the id is new, the
recipient is an address, and over the pool the treasury can pay. -/
theorem faucet_queued_iff (hE : cfg.node.saturation = .clamp) (hbase : s.chain.baseHeight = 0)
    (hp : s.projected cfg.node = ok p) (hkey : treasury.Genuine cfg.node)
    (h : s.faucetTokens cfg.node authorized (some treasury) recipient amount id stamp = ok tx)
    {sent : Transaction} (hsent : sent = { tx with chainId := s.chain.state.chainId }) :
    ((∃ turn, cfg.run i s (.begin (.queueTransaction tx)) = some turn ∧ turn.Adds (.enqueue sent)) ∧
      cfg.Enqueues i' s sent) ↔
      Hybrid.schemeOf treasury.address = some .classical ∧
      s.chain.state.requireHybridSignatures = false ∧
      s.pendingTransactions.length < maxPendingTxs ∧
      (∀ queued ∈ s.pendingTransactions, queued.id ≠ id) ∧
      isValidAddress recipient = true ∧
      amount.toNat + s.chain.state.baseFee.toNat ≤ (valueAt p.balances treasury.address).toNat ∧
      (treasury.address ≠ recipient →
        (valueAt p.balances recipient).toNat + amount.toNat < 2 ^ 64) := by
  have htx := faucetTokens_ok h
  have hfaucet : FaucetTransfer cfg s treasury recipient id amount sent := by
    rw [hsent]
    exact ⟨htx.id, htx.kind, htx.sender, htx.recipient, htx.amount, htx.nonce, htx.publicKey,
      htx.signature, htx.classical⟩
  have hchain : sent.chainId = s.chain.state.chainId := by rw [hsent]
  have hbegin : (∃ turn, cfg.run i s (.begin (.queueTransaction tx)) = some turn ∧
      turn.Adds (.enqueue sent)) ↔ Hybrid.schemeOf treasury.address = some .classical := by
    rw [← hfaucet.verifies_iff hkey hchain "__queue__"]
    have hkind : tx.transactionType ≠ .reward := by
      rw [htx.kind]
      decide
    exact queueTransaction_adds_iff hkind hsent
  rw [hbegin, enqueues_transfer_iff hE hbase hp hfaucet.kind hfaucet.sender hchain, hfaucet.id,
    hfaucet.recipient, hfaucet.amount]
  have hnonce := hfaucet.nonce
  constructor
  · rintro ⟨hclassical, hroom, hnew, hpolicy, hvalid, -, hfunds, hcredit⟩
    refine ⟨hclassical, ?_, hroom, hnew, hvalid, hfunds, hcredit⟩
    rw [← Bool.not_eq_true]
    intro hrequired
    have hhybrid := hpolicy hrequired
    rw [Hybrid.isHybridAddress, hclassical] at hhybrid
    exact absurd hhybrid (by decide)
  · rintro ⟨hclassical, hpolicy, hroom, hnew, hvalid, hfunds, hcredit⟩
    refine ⟨hclassical, hroom, hnew, fun hrequired => ?_, hvalid, hnonce, hfunds, hcredit⟩
    rw [hpolicy] at hrequired
    cases hrequired

end Settings

/-! ## A toy treasury -/

namespace Sample

open Settings

/-- Holder 7 is the treasury of the toy genesis. -/
def treasuryKey : TreasuryKey := ⟨address 7, publicKey 7, fun message => ok (signMessage 7 message)⟩

theorem treasuryKey_genuine (pool : List Transaction) : treasuryKey.Genuine (node pool) where
  derives _ := deriveAddress_publicKey pool 7
  signs message signature h := by
    rw [← ok.inj h]
    exact verifyDigest_signDigest pool 7 (digest _).length_bytes

theorem projected_firstState :
    (firstState []).projected (node []) = ok (genesis 1000000000000000000) := rfl

/-- The node answers the first nonce. -/
theorem getAccountNonce_firstState :
    ∃ answer, (firstState []).getAccountNonce (node []) (address 7) = ok answer ∧
      answer.nextNonce = 1 := by
  have hrun : ((firstState []).getAccountNonce (node []) (address 7)).returns
      (fun answer => answer.nextNonce = 1) = true := by decide +kernel
  obtain ⟨answer, hanswer, hnonce⟩ := exists_of_returns hrun
  exact ⟨answer, hanswer, of_decide_eq_true hnonce⟩

/-- The payment of holder 7 is queued. -/
theorem queues_payment : (settings []).Queues (firstState [])
    { firstState [] with pendingTransactions := [payment] } := by
  refine ⟨quietMorning, .enqueue payment, ⟨{ firstState [] with pendingTransactions := [payment] },
    [.persistState, .gossipTransaction payment], [], [.submitted payment .queued]⟩, ?_, rfl, rfl,
    List.nil_prefix⟩
  have hadmits : (firstState []).chain.state.admits (settings []).node
      (firstState []).pendingTransactions (UInt64.ofNat (firstState []).chain.blocks.length)
      payment = ok () := payment_admits fun queued hqueued => absurd hqueued List.not_mem_nil
  show runEnqueue (settings []) (firstState []) payment = some _
  rw [runEnqueue, if_neg (by decide), if_neg (by decide), hadmits]
  rfl

end Sample

namespace Settings

/-- Once the payment of holder 7 is queued, the node answers the second nonce. -/
theorem nonces_answered_sample : ∃ answer,
    (Sample.firstState []).getAccountNonce (Sample.node []) (Sample.address 7) = ok answer ∧
    ({ Sample.firstState [] with pendingTransactions := [Sample.payment] }).getAccountNonce
      (Sample.node []) (Sample.address 7) = ok { answer with nextNonce := 2 } := by
  obtain ⟨answer, hanswer, hnonce⟩ := Sample.getAccountNonce_firstState
  obtain ⟨added, hpool, hall⟩ := @nonces_answered (Sample.settings []) _ _ rfl
    (.single Sample.queues_payment)
  obtain rfl : added = [Sample.payment] := hpool.symm
  obtain ⟨-, hlater⟩ := hall (Sample.address 7) answer hanswer
  refine ⟨answer, hanswer, hlater 2 ?_⟩
  rw [hnonce]
  decide

/-- The payment of holder 7 is admitted. -/
theorem transfer_queued_sample :
    (Sample.settings []).Enqueues Sample.quietMorning (Sample.firstState []) Sample.payment := by
  obtain ⟨answer, hanswer, hnonce⟩ := Sample.getAccountNonce_firstState
  have hiff := @transfer_queued_iff (Sample.settings []) Sample.quietMorning Sample.quietMorning
    (Sample.firstState []) _ rfl rfl Sample.projected_firstState Sample.payment Sample.payment
    (Sample.address 7) rfl rfl rfl
  refine (hiff.mpr ⟨?_, by decide, ?_, ?_, by decide, ⟨answer, hanswer, ?_⟩, ?_, ?_⟩).2
  · exact Sample.verifySenderSignature_signed Sample.schemeOf_seven rfl rfl ⟨rfl, rfl⟩
  · exact fun queued hqueued => absurd hqueued List.not_mem_nil
  · exact fun hrequired => absurd hrequired (by decide)
  · rw [hnonce]
    rfl
  · decide +kernel
  · exact fun _ => by decide +kernel

/-- The toy treasury gives holder 8 five units. -/
theorem faucet_queued_sample : ∃ tx, (Sample.firstState []).faucetTokens (Sample.node []) true
      (some Sample.treasuryKey) (Sample.address 8) 5 "drip" Sample.morning = ok tx ∧
    (Sample.settings []).Enqueues Sample.quietMorning (Sample.firstState [])
      { tx with chainId := defaultChainId } := by
  have hrun : ((Sample.firstState []).faucetTokens (Sample.node []) true (some Sample.treasuryKey)
      (Sample.address 8) 5 "drip" Sample.morning).returns (fun _ => true) = true := by
    decide +kernel
  obtain ⟨tx, htx, -⟩ := exists_of_returns hrun
  have hiff := @faucet_queued_iff (Sample.settings []) Sample.quietMorning Sample.quietMorning
    (Sample.firstState []) _ Sample.treasuryKey true (Sample.address 8) "drip" 5 Sample.morning tx rfl
    rfl Sample.projected_firstState (Sample.treasuryKey_genuine []) htx
    { tx with chainId := defaultChainId } rfl
  refine ⟨tx, htx, (hiff.mpr ⟨Sample.schemeOf_seven, rfl, by decide, ?_, by decide, ?_, ?_⟩).2⟩
  · exact fun queued hqueued => absurd hqueued List.not_mem_nil
  · decide +kernel
  · exact fun _ => by decide +kernel

end Settings
