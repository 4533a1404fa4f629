/-
# Nonces count the signed transactions

A branch that takes a nonce takes exactly one, that of its sender, and nothing else writes
nonces.  So the nonces an account's executed transactions carry are 1, 2, 3, ... up to the
one the state stores, and no signed transaction is executed twice.
-/
import Mathlib.Tactic
import Hikmalayer.Ledger.Conservation
import Hikmalayer.Ledger.Frames

open Outcome Exec OrderedMap

namespace Transaction

/-- The account whose nonce the transaction takes: its sender, except for rewards, slashes
and anchors without a credential. -/
def signer (tx : Transaction) : Option String :=
  match tx.transactionType with
  | .reward | .slash => none
  | .certificate => if tx.credential = none then none else tx.sender
  | _ => tx.sender

/-- The signer together with the nonce. -/
def signedAs (tx : Transaction) : Option (String × UInt64) := tx.signer.map fun a => (a, tx.nonce)

end Transaction

namespace ChainState

variable {E : Node} {s s' : ChainState} {tx : Transaction} {height : UInt64}

/-! ## What a branch ran -/

/-- The mutations of the branch of a signed transaction, after checks that passed. -/
inductive Mutation (E : Node) (tx : Transaction) (height : UInt64) (s : ChainState) :
    String → StateAction → Prop
  | transfer {sender : String} (ht : tx.transactionType = .transfer)
      (hc : transferChecks tx s = ok sender) :
      Mutation E tx height s sender (transferEffects E tx sender)
  | stake {r : StakeRequest} (ht : tx.transactionType = .stake)
      (hc : stakeChecks E tx s = ok r) : Mutation E tx height s r.sender (stakeEffects E tx r)
  | withdraw {r : WithdrawRequest} (ht : tx.transactionType = .withdraw)
      (hc : withdrawChecks E tx s = ok r) :
      Mutation E tx height s r.sender (withdrawEffects E tx height r)
  | vest {r : VestRequest} (ht : tx.transactionType = .vest) (hc : vestChecks tx s = ok r) :
      Mutation E tx height s r.sender (vestEffects E tx height r)
  | tokenCreate {r : TokenRequest} (ht : tx.transactionType = .tokenCreate)
      (hc : tokenCreateChecks E tx s = ok r) :
      Mutation E tx height s r.sender (tokenCreateEffects E tx height r)
  | tokenTransfer {r : TokenRequest} (ht : tx.transactionType = .tokenTransfer)
      (hc : tokenTransferChecks tx s = ok r) :
      Mutation E tx height s r.sender (tokenTransferEffects E tx r)
  | tokenBurn {r : TokenRequest} (ht : tx.transactionType = .tokenBurn)
      (hc : tokenBurnChecks tx s = ok r) :
      Mutation E tx height s r.sender (tokenBurnEffects E tx r)
  | addLiquidity {r : AddRequest} (ht : tx.transactionType = .addLiquidity)
      (hc : addLiquidityChecks tx s = ok r) :
      Mutation E tx height s r.sender (addLiquidityEffects E r)
  | removeLiquidity {r : RemoveRequest} (ht : tx.transactionType = .removeLiquidity)
      (hc : removeLiquidityChecks tx s = ok r) :
      Mutation E tx height s r.sender (removeLiquidityEffects E r)
  | swap {r : SwapRequest} (ht : tx.transactionType = .swap) (hc : swapChecks tx s = ok r) :
      Mutation E tx height s r.sender (swapEffects E r)
  | certificate {issuer : String} {action : CredentialAction}
      (ht : tx.transactionType = .certificate) (ha : tx.credential = some action)
      (hc : tx.sender = some issuer) :
      Mutation E tx height s issuer (certificateEffects tx action issuer)

/-- The account of a mutation is the sender the transaction names. -/
theorem Mutation.sender {account : String} {effects : StateAction}
    (h : Mutation E tx height s account effects) : tx.sender = some account := by
  cases h with
  | transfer _ hc => exact (transferChecks_eq_ok.mp hc).1
  | stake _ hc => exact (stakeChecks_ok hc).1
  | withdraw _ hc =>
    obtain ⟨_, hs, -⟩ := withdrawChecks_ok hc
    exact hs
  | vest _ hc => exact (vestChecks_ok hc).1
  | tokenCreate _ hc => exact (tokenCreateChecks_ok hc).1
  | tokenTransfer _ hc => exact (tokenTransferChecks_ok hc).1
  | tokenBurn _ hc => exact (tokenBurnChecks_ok hc).1
  | addLiquidity _ hc =>
    obtain ⟨_, hs, -⟩ := addLiquidityChecks_ok hc
    exact hs
  | removeLiquidity _ hc =>
    obtain ⟨_, _, hs, -⟩ := removeLiquidityChecks_ok hc
    exact hs
  | swap _ hc =>
    obtain ⟨_, _, hs, -⟩ := swapChecks_ok hc
    exact hs
  | certificate _ _ hc => exact hc

/-- The sender signs. -/
theorem Mutation.signer {account : String} {effects : StateAction}
    (h : Mutation E tx height s account effects) : tx.signer = some account := by
  rw [← h.sender]
  unfold Transaction.signer
  cases h with
  | certificate ht ha _ => rw [ht, ha]; rfl
  | _ ht => rw [ht]

/-- A reading of the state that does not see what most branches write. -/
structure Ignores {α : Type} (g : ChainState → α) : Prop where
  balance : ∀ s a v, g (setBalance s a v) = g s
  feePot : ∀ s v, g (setFeePot s v) = g s
  holders : ∀ s t m, g (setHolders s t m) = g s
  pool : ∀ s t p, g (setPool s t p) = g s
  providers : ∀ s t m, g (setProviders s t m) = g s

/-- The mutations of a signed transaction leave what does not see them.  Only stakes and
withdrawals write staker entries, only withdrawals unbonding entries, only vests schedules, only
creations and burns tokens, only certificates credentials. -/
theorem Mutation.leaves {α : Type} {g : ChainState → α} {account : String} {effects : StateAction}
    (hm : Mutation E tx height s account effects) (hg : Ignores g)
    (hk : tx.transactionType = .stake ∨ tx.transactionType = .withdraw →
      ∀ s a i, g (setStaker s a i) = g s)
    (hu : tx.transactionType = .withdraw → ∀ s m, g (setUnbonding s m) = g s)
    (hv : tx.transactionType = .vest → ∀ s m, g (setVesting s m) = g s)
    (ht : tx.transactionType = .tokenCreate ∨ tx.transactionType = .tokenBurn →
      ∀ s t i, g (setToken s t i) = g s)
    (hc : tx.transactionType = .certificate → ∀ s i r, g (setCredential s i r) = g s) :
    Leaves g effects := by
  cases hm with
  | transfer => exact transferEffects_leaves hg.balance hg.feePot _
  | stake h => exact stakeEffects_leaves hg.balance hg.feePot (hk (Or.inl h)) _
  | withdraw h => exact withdrawEffects_leaves hg.balance hg.feePot (hk (Or.inr h)) (hu h) _
  | vest h => exact vestEffects_leaves hg.balance hg.feePot (hv h) _
  | tokenCreate h =>
    exact tokenCreateEffects_leaves hg.balance hg.feePot hg.holders (ht (Or.inl h)) _
  | tokenTransfer => exact tokenTransferEffects_leaves hg.balance hg.feePot hg.holders _
  | tokenBurn h =>
    exact tokenBurnEffects_leaves hg.balance hg.feePot hg.holders (ht (Or.inr h)) _
  | addLiquidity =>
    exact addLiquidityEffects_leaves hg.balance hg.feePot hg.holders hg.pool hg.providers _
  | removeLiquidity =>
    exact removeLiquidityEffects_leaves hg.balance hg.feePot hg.holders hg.pool hg.providers _
  | swap => exact swapEffects_leaves hg.balance hg.feePot hg.holders hg.pool _
  | certificate h => exact certificateEffects_leaves (hc h) _ _

theorem Mutation.nonces {account : String} {effects : StateAction}
    (h : Mutation E tx height s account effects) : Leaves nonces effects :=
  h.leaves ⟨fun _ _ _ => rfl, fun _ _ => rfl, fun _ _ _ => rfl, fun _ _ _ => rfl,
    fun _ _ _ => rfl⟩ (fun _ _ _ _ => rfl) (fun _ _ _ => rfl) (fun _ _ _ => rfl)
    (fun _ _ _ _ => rfl) fun _ _ _ _ => rfl

/-- What applying a transaction came to: mutations of its signer after the next nonce, or one
of the three types that nobody signs. -/
inductive Applied (E : Node) (tx : Transaction) (height : UInt64) (s s' : ChainState) : Prop
  | signed {account : String} {effects : StateAction}
      (hm : Mutation E tx height s account effects) (hn : s.NextNonce account tx.nonce)
      (he : effects (s.setNonce account tx.nonce) = ok ((), s'))
  | reward (ht : tx.transactionType = .reward) (he : applyReward E tx s = ok ((), s'))
  | slash (ht : tx.transactionType = .slash) (he : applySlash E tx height s = ok ((), s'))
  | anchor (ht : tx.transactionType = .certificate) (hc : tx.credential = none) (he : s' = s)

theorem guarded_applied {α : Type} {checks : ChainState → Outcome String α}
    {sender : α → String} {effects : α → StateAction}
    (hm : ∀ a, checks s = ok a → Mutation E tx height s (sender a) (effects a))
    (h : guarded checks sender tx.nonce effects s = ok ((), s')) : Applied E tx height s s' := by
  obtain ⟨a, ha, hn, he⟩ := guarded_eq_ok.mp h
  exact .signed (hm a ha) hn he

theorem applyBranch_applied (h : applyBranch E tx height s = ok ((), s')) :
    Applied E tx height s s' := by
  unfold applyBranch at h
  cases ht : tx.transactionType <;> rw [ht] at h
  case transfer => exact guarded_applied (fun _ hc => .transfer ht hc) h
  case stake => exact guarded_applied (fun _ hc => .stake ht hc) h
  case withdraw => exact guarded_applied (fun _ hc => .withdraw ht hc) h
  case vest => exact guarded_applied (fun _ hc => .vest ht hc) h
  case reward => exact .reward ht h
  case slash => exact .slash ht h
  case tokenCreate => exact guarded_applied (fun _ hc => .tokenCreate ht hc) h
  case tokenTransfer => exact guarded_applied (fun _ hc => .tokenTransfer ht hc) h
  case tokenBurn => exact guarded_applied (fun _ hc => .tokenBurn ht hc) h
  case addLiquidity => exact guarded_applied (fun _ hc => .addLiquidity ht hc) h
  case removeLiquidity => exact guarded_applied (fun _ hc => .removeLiquidity ht hc) h
  case swap => exact guarded_applied (fun _ hc => .swap ht hc) h
  case certificate =>
    change applyCertificate tx s = ok ((), s') at h
    unfold applyCertificate at h
    cases hc : tx.credential with
    | none =>
      simp only [hc, pure_apply, ok.injEq, Prod.mk.injEq] at h
      exact .anchor ht hc h.2.symm
    | some action =>
      rw [hc] at h
      exact guarded_applied (fun _ ha => .certificate ht hc (okOr_eq_ok.mp ha)) h

/-- Applying a verified transaction runs its branch, on the network it names. -/
theorem applyVerified_applied (h : applyVerified E tx height s = ok ((), s')) :
    s.verifyChainScope tx = ok () ∧ s.verifySignaturePolicy tx = ok () ∧
      Applied E tx height s s' := by
  simp only [applyVerified, Exec.bind_eq_ok, read_eq_ok] at h
  obtain ⟨_, _, ⟨hscope, rfl⟩, _, _, ⟨hpolicy, rfl⟩, h⟩ := h
  exact ⟨hscope, hpolicy, applyBranch_applied h⟩

/-! ## One transaction -/

/-- What applying a transaction does to the nonces: those of the signer step by one, the
others stay; without a signer all stay. -/
def NonceStep (s s' : ChainState) (tx : Transaction) (signer : Option String) : Prop :=
  match signer with
  | some account => s.NextNonce account tx.nonce ∧ s'.nonces = s.nonces.insert account tx.nonce
  | none => s'.nonces = s.nonces

theorem Applied.nonceStep (h : Applied E tx height s s') : NonceStep s s' tx tx.signer := by
  cases h with
  | signed hm hn he =>
    rw [hm.signer]
    exact ⟨hn, (hm.nonces _).1 _ _ he⟩
  | reward ht he =>
    rw [Transaction.signer, ht]
    exact (applyReward_nonces s).1 _ _ he
  | slash ht he =>
    rw [Transaction.signer, ht]
    exact (applySlash_nonces s).1 _ _ he
  | anchor ht hc he =>
    rw [Transaction.signer, ht, hc, he]
    rfl

/-! ## Executed transactions -/

/-- The nonces an account spends in a list of transactions, in order. -/
def spentNonces (account : String) (txs : List Transaction) : List ℕ :=
  (txs.filter fun tx => tx.signer = some account).map fun tx => tx.nonce.toNat

/-- The nonces spent so far are 1, 2, ... up to the stored one, for every account. -/
def Counted (s : ChainState) (txs : List Transaction) : Prop :=
  ∀ account, spentNonces account txs = List.range' 1 (s.nonceOf account).toNat

theorem spentNonces_append (account : String) (txs txs' : List Transaction) :
    spentNonces account (txs ++ txs') = spentNonces account txs ++ spentNonces account txs' := by
  rw [spentNonces, List.filter_append, List.map_append]
  rfl

theorem spentNonces_singleton (account : String) (tx : Transaction) :
    spentNonces account [tx] = if tx.signer = some account then [tx.nonce.toNat] else [] := by
  unfold spentNonces
  by_cases h : tx.signer = some account
  · rw [List.filter_cons_of_pos (by simpa using h), if_pos h]
    rfl
  · rw [List.filter_cons_of_neg (by simpa using h), if_neg h]
    rfl

/-- One more transaction keeps the count. -/
theorem Counted.step {txs : List Transaction} (h : Counted s txs)
    (hstep : NonceStep s s' tx tx.signer) : Counted s' (txs ++ [tx]) := by
  intro account
  rw [spentNonces_append, spentNonces_singleton, h account]
  cases hsig : tx.signer with
  | none =>
    rw [hsig] at hstep
    have hsame : s'.nonces = s.nonces := hstep
    rw [if_neg (by simp), List.append_nil, nonceOf, nonceOf, hsame]
  | some signer =>
    rw [hsig] at hstep
    obtain ⟨hnext, hset⟩ : s.NextNonce signer tx.nonce ∧
      s'.nonces = s.nonces.insert signer tx.nonce := hstep
    have hread : s'.nonceOf account = if signer = account then tx.nonce else s.nonceOf account := by
      rw [nonceOf, hset, valueAt_insert, nonceOf]
    rw [hread]
    by_cases hacc : signer = account
    · -- The nonce taken is the one after the last.
      rw [NextNonce, hacc] at hnext
      rw [if_pos (by rw [hacc]), if_pos hacc, hnext, List.range'_1_concat, Nat.add_comm 1]
    · rw [if_neg (by simpa using hacc), if_neg hacc, List.append_nil]

/-- The transactions of a block, as the execution loop parses them. -/
def executedIn (E : Env) (txStrs : List String) : List Transaction := txStrs.filterMap E.parseTx

theorem executeTransactions_counted {validator : String} {index : UInt64} {txStrs : List String} :
    ∀ {s s' : ChainState} {n n' : ℕ} {txs : List Transaction}, Counted s txs →
      executeTransactions E validator index s n txStrs = ok (s', n') →
        Counted s' (txs ++ executedIn E txStrs) := by
  induction txStrs with
  | nil =>
    intro s s' n n' txs hs h
    rw [executeTransactions, ok.injEq, Prod.mk.injEq] at h
    rw [executedIn, List.filterMap_nil, List.append_nil, ← h.1]
    exact hs
  | cons txStr rest ih =>
    intro s s' n n' txs hs h
    obtain ⟨mid, tx, h₁, h₂⟩ := executeTransactions_cons_eq_ok.mp h
    obtain ⟨hparse, -, ha, -⟩ := executeTransaction_eq_ok.mp h₁
    have hmid : Counted mid (txs ++ [tx]) := hs.step (applyVerified_applied ha).2.2.nonceStep
    have hlist : txs ++ executedIn E (txStr :: rest) = txs ++ [tx] ++ executedIn E rest := by
      rw [executedIn, List.filterMap_cons_some hparse, List.append_assoc]
      rfl
    rw [hlist]
    exact ih hmid h₂

/-- All transactions executed by a run of blocks, in order. -/
def executed (E : Env) (blocks : List Block) : List Transaction :=
  blocks.flatMap fun block => executedIn E block.transactions

theorem Accepted.counted {supply : UInt64} {blocks : List Block} (h : Accepted E supply s blocks) :
    Counted s (executed E blocks) := by
  induction h with
  | genesis h =>
    intro account
    rw [nonceOf, h.fresh.nonces, valueAt_empty]
    rfl
  | block h hb ih =>
    obtain ⟨validator, -, -, he⟩ := validateBlockAt_ok hb
    obtain ⟨mid, htx, hend, -⟩ := executeBlock_eq_ok.mp he
    have hmid := executeTransactions_counted ih htx
    have hnonces := (endBlock_nonces mid).1 _ _ hend
    intro account
    rw [executed, List.flatMap_append, List.flatMap_singleton, nonceOf, hnonces]
    exact hmid account

/-! ## No replay -/

/-- Pairs are distinct when the second parts of every first part are. -/
theorem nodup_of_fibres {l : List (String × UInt64)}
    (h : ∀ a, ((l.filter fun p => p.1 = a).map fun p => p.2.toNat).Nodup) : l.Nodup := by
  induction l with
  | nil => exact List.nodup_nil
  | cons p rest ih =>
    refine List.nodup_cons.mpr ⟨fun hp => ?_, ih fun a => ?_⟩
    · have hfibre := h p.1
      rw [List.filter_cons_of_pos (by simp), List.map_cons, List.nodup_cons] at hfibre
      exact hfibre.1 (List.mem_map.mpr ⟨p, List.mem_filter.mpr ⟨hp, by simp⟩, rfl⟩)
    · refine (h a).sublist (List.Sublist.map _ (List.Sublist.filter _ ?_))
      exact List.sublist_cons_self p rest

/-- The fibre of an account among the signed pairs. -/
theorem signedAs_fibre (txs : List Transaction) (account : String) :
    ((txs.filterMap Transaction.signedAs).filter fun p => p.1 = account).map
      (fun p => p.2.toNat) = spentNonces account txs := by
  induction txs with
  | nil => rfl
  | cons tx rest ih =>
    have hsplit : spentNonces account (tx :: rest) =
        spentNonces account [tx] ++ spentNonces account rest := spentNonces_append account [tx] rest
    rw [hsplit, spentNonces_singleton, ← ih]
    cases hsig : tx.signer with
    | none =>
      rw [List.filterMap_cons_none (by rw [Transaction.signedAs, hsig]; rfl), if_neg (by simp),
        List.nil_append]
    | some signer =>
      rw [List.filterMap_cons_some (by rw [Transaction.signedAs, hsig]; rfl)]
      by_cases hacc : signer = account
      · rw [List.filter_cons_of_pos (by simpa using hacc), if_pos (by rw [hacc])]
        rfl
      · rw [List.filter_cons_of_neg (by simpa using hacc), if_neg (by simpa using hacc)]
        rfl

/-- Inputs with distinct outputs are distinct. -/
theorem nodup_of_filterMap {α β : Type} {f : α → Option β} {l : List α}
    (h : (l.filterMap f).Nodup) : (l.filter fun a => (f a).isSome).Nodup := by
  induction l with
  | nil => exact List.nodup_nil
  | cons a rest ih =>
    cases ha : f a with
    | none =>
      rw [List.filterMap_cons_none ha] at h
      rw [List.filter_cons_of_neg (by rw [ha]; simp)]
      exact ih h
    | some b =>
      rw [List.filterMap_cons_some ha, List.nodup_cons] at h
      rw [List.filter_cons_of_pos (by rw [ha]; rfl), List.nodup_cons]
      refine ⟨fun hmem => h.1 ?_, ih h.2⟩
      exact List.mem_filterMap.mpr ⟨a, (List.mem_filter.mp hmem).1, ha⟩

/-- No replay.  Along every run of accepted blocks from a genesis, the nonces of an account's
executed signed transactions are 1, 2, 3, ... up to the stored nonce, so no pair of a sender
and a nonce, and no signed transaction, takes effect twice. -/
theorem nonces_never_repeat {supply : UInt64} {blocks : List Block}
    (h : Accepted E supply s blocks) :
    (∀ account, ((executed E blocks).filter fun tx => tx.signer = some account).map
        (fun tx => tx.nonce.toNat) = List.range' 1 (s.nonceOf account).toNat) ∧
      ((executed E blocks).filterMap Transaction.signedAs).Nodup ∧
      ((executed E blocks).filter fun tx => tx.signer.isSome).Nodup := by
  have hcounted := h.counted
  have hpairs : ((executed E blocks).filterMap Transaction.signedAs).Nodup := by
    refine nodup_of_fibres fun account => ?_
    rw [signedAs_fibre, hcounted account]
    exact List.nodup_range' 1
  refine ⟨hcounted, hpairs, ?_⟩
  have hsame : (fun tx : Transaction => tx.signedAs.isSome) = fun tx => tx.signer.isSome := by
    funext tx
    exact Option.isSome_map
  rw [← hsame]
  exact nodup_of_filterMap hpairs

/-- A block in which the treasury creates a token spends its nonce 1. -/
theorem nonces_never_repeat_sample :
    ∃ s, Accepted (Sample.node [Sample.tokenCreation, Sample.reward]) 1000000000000000000 s
        [Sample.firstBlock [Sample.tokenCreation, Sample.reward] 7
          (Sample.genesis 1000000000000000000) [Sample.tokenCreation.id, "reward"]] ∧
      s.nonceOf (Sample.address 7) = 1 ∧
      ((executed (Sample.node [Sample.tokenCreation, Sample.reward])
        [Sample.firstBlock [Sample.tokenCreation, Sample.reward] 7
          (Sample.genesis 1000000000000000000) [Sample.tokenCreation.id, "reward"]]).filter
            fun tx => tx.signer = some (Sample.address 7)).map (fun tx => tx.nonce.toNat) = [1] := by
  obtain ⟨s, hs, hn⟩ := exists_of_returns (p := fun s => s.nonceOf (Sample.address 7) = 1)
    (x := executeBlock (Sample.node [Sample.tokenCreation, Sample.reward]) (Sample.address 7)
      (Sample.firstBlock [Sample.tokenCreation, Sample.reward] 7
        (Sample.genesis 1000000000000000000) [Sample.tokenCreation.id, "reward"])
      (Sample.genesis 1000000000000000000)) (by decide +kernel)
  have hacc := Accepted.block
    (.genesis (.built defaultChainId (Sample.address 7) _ _ [] Sample.address_valid))
    (Sample.validateBlockAt_firstBlock (by decide) hs)
  have hnonce : s.nonceOf (Sample.address 7) = 1 := of_decide_eq_true hn
  have hspent := (nonces_never_repeat hacc).1 (Sample.address 7)
  rw [hnonce] at hspent
  exact ⟨s, hacc, hnonce, hspent⟩

end ChainState
