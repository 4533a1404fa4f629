/-
# Running blocks on the toy node

The signatures of toy transactions verify by construction.  What remains of executing a block is
to apply its transactions, and only that is evaluated.
-/
import Mathlib.Tactic
import Hikmalayer.Model.Sample
import Hikmalayer.Ledger.Runs

open Outcome ChainState

namespace Sample

variable {pool : List Transaction} {n : UInt8} {tx : Transaction} {message validator : String}
  {index : UInt64} {s s' : ChainState} {count count' : ℕ} {txs : List Transaction}

/-! ## Signatures that verify -/

/-- The address of holder 7 is a classical one. -/
theorem schemeOf_seven : Hybrid.schemeOf (address 7) = some .classical := by decide +kernel

/-- The address of holder 8 is a classical one. -/
theorem schemeOf_eight : Hybrid.schemeOf (address 8) = some .classical := by decide +kernel

/-- The signature of a holder passes the check on the sender. -/
theorem verifySenderSignature_signed (hs : Hybrid.schemeOf (address n) = some .classical)
    (hkey : tx.publicKey = some (publicKey n))
    (hsig : tx.signature =
      some (signMessage n (Transaction.scopedSigningMessage tx.chainId message)))
    (hpq : tx.pqPublicKey = none ∧ tx.pqSignature = none) :
    tx.verifySenderSignature (env pool) (address n) message = ok () := by
  have hverify : Pos.verifyMessage (env pool) (Transaction.scopedSigningMessage tx.chainId message)
      (publicKey n) (signMessage n (Transaction.scopedSigningMessage tx.chainId message)) = true :=
    verifyDigest_signDigest pool n (digest _).length_bytes
  simp only [Transaction.verifySenderSignature, hkey, hsig, hs, okOr_some, ok_bind]
  rw [ensure_pos hpq, ok_bind, deriveAddress_publicKey, ok_bind, ensure_pos rfl, ok_bind,
    ensure_pos hverify]

theorem verifySenderSignature_order {transactionType : TransactionType} {recipient : String}
    {amount nonce : UInt64} {token : Option TokenAction} {amm : Option AmmAction}
    (hs : Hybrid.schemeOf (address n) = some .classical) :
    (order n transactionType recipient amount nonce token amm message).verifySenderSignature
      (env pool) (address n) message = ok () :=
  verifySenderSignature_signed hs rfl rfl ⟨rfl, rfl⟩

theorem verifyForBlock_reward (htype : tx.transactionType = .reward) (hsender : tx.sender = none)
    (hrecipient : tx.recipient = validator) : tx.verifyForBlock (env pool) validator = ok () := by
  simp only [Transaction.verifyForBlock, htype, Outcome.bind_eq_ok, ensure_eq_ok]
  exact ⟨(), hsender, hrecipient⟩

/-- Two sealed blocks of one height and validator are evidence against it. -/
theorem verify_sealBlock {place : Position} {ids ids' : List String} {root root' : String}
    (hne : (sealBlock pool n place ids root).hash ≠ (sealBlock pool n place ids' root').hash) :
    SlashProof.verify (env pool)
      ⟨sealBlock pool n place ids root, sealBlock pool n place ids' root'⟩ = ok (address n) := by
  have hown : ∀ {l r}, (sealBlock pool n place l r).hash =
      (sealBlock pool n place l r).calculateHash (env pool) := rfl
  have hsig : ∀ {l r}, SlashProof.checkSignature (env pool) (publicKey n)
      (sealBlock pool n place l r) = ok () := by
    intro l r
    exact ensure_eq_ok.mpr verifyBlockSignature_sealBlock
  simp only [SlashProof.verify, Outcome.bind_eq_ok, ensure_eq_ok, okOr_eq_ok, pure_eq, ok.injEq]
  exact ⟨(), rfl, (), hne, address n, rfl, (), rfl, publicKey n, rfl, publicKey n, rfl, (), rfl, (),
    ⟨hown, hown⟩, (), hsig, (), hsig, rfl⟩

/-- A transaction that a block of the validator may carry, under its id. -/
def Admitted (pool : List Transaction) (validator : String) (tx : Transaction) : Prop :=
  (env pool).parseTx tx.id = some tx ∧ tx.verifyForBlock (env pool) validator = ok ()

/-- In a pool without double ids every transaction is found by its id. -/
theorem parseTx_of_mem (hids : (pool.map Transaction.id).Nodup) (htx : tx ∈ pool) :
    (env pool).parseTx tx.id = some tx := by
  have hsome : ((env pool).parseTx tx.id).isSome = true :=
    List.find?_isSome.mpr ⟨tx, htx, by simp⟩
  obtain ⟨found, hfound⟩ := Option.isSome_iff_exists.mp hsome
  have hid := List.find?_some hfound
  rw [decide_eq_true_eq] at hid
  rw [hfound, List.inj_on_of_nodup_map hids (List.mem_of_find?_eq_some hfound) htx hid]

/-! ## The genesis -/

theorem genesis_state {E : Env} (supply : UInt64) : GenesisState E supply (genesis supply) :=
  .built defaultChainId (address 7) _ _ [] address_valid

theorem genesis_reachable {E : Node} (supply : UInt64) : Reachable E (genesis supply) :=
  .genesis (genesis_state supply)

/-! ## Executing without verifying -/

/-- The state after some transactions, and the number of rewards. -/
def applyAll (pool : List Transaction) (index : UInt64) :
    ChainState → ℕ → List Transaction → Option (ChainState × ℕ)
  | s, count, [] => some (s, count)
  | s, count, tx :: rest =>
    match s.applyVerified (node pool) tx index with
    | ok (_, s') =>
      if tx.transactionType = .reward → tx.amount = blockReward index then
        applyAll pool index s' (count + rewardsOf tx) rest
      else none
    | _ => none

/-- The state after a block of validator `n` with these transactions. -/
def executed (pool : List Transaction) (n : UInt8) (index : UInt64) (s : ChainState)
    (txs : List Transaction) : Option ChainState :=
  match applyAll pool index s 0 txs with
  | some (s', 1) =>
    match endBlock (node pool) index (address n) s' with
    | ok (_, last) => some last
    | _ => none
  | _ => none

theorem executeTransactions_of_applyAll (htxs : ∀ tx ∈ txs, Admitted pool validator tx) :
    ∀ {s count}, applyAll pool index s count txs = some (s', count') →
      executeTransactions (node pool) validator index s count (txs.map Transaction.id) =
        ok (s', count') := by
  induction txs with
  | nil =>
    intro s count h
    rw [applyAll, Option.some.injEq] at h
    rw [← h]
    rfl
  | cons tx rest ih =>
    intro s count h
    obtain ⟨hparse, hverify⟩ := htxs tx List.mem_cons_self
    rw [applyAll] at h
    split at h
    · rename_i mid happly
      split at h
      · rename_i hreward
        refine executeTransactions_cons_eq_ok.mpr ⟨mid, tx,
          executeTransaction_eq_ok.mpr ⟨hparse, hverify, happly, hreward⟩, ?_⟩
        exact ih (fun tx htx => htxs tx (List.mem_cons_of_mem _ htx)) h
      · cases h
    · cases h

/-- A block with the state root of its execution executes. -/
theorem executeBlock_of_executed {block : Block} (htxs : ∀ tx ∈ txs, Admitted pool (address n) tx)
    (hindex : block.index = index) (hids : block.transactions = txs.map Transaction.id)
    (hroot : block.stateRoot = rootAfter pool n index s (txs.map Transaction.id))
    (h : executed pool n index s txs = some s') :
    executeBlock (node pool) (address n) block s = ok s' := by
  unfold executed at h
  split at h
  · rename_i mid happly
    split at h
    · rename_i last hend
      rw [Option.some.injEq] at h
      subst h
      have hrun := executeTransactions_of_applyAll htxs happly
      refine executeBlock_eq_ok.mpr ⟨mid, ?_, ?_, ?_⟩
      · rw [hindex, hids]
        exact hrun
      · rw [hindex]
        exact hend
      · have hfinal : Exec.finalState (endBlock (node pool) index (address n)) mid = ok last :=
          Exec.finalState_eq_ok.mpr hend
        rw [hroot, rootAfter, hrun]
        simp only [hfinal]
        rfl
    · cases h
  · cases h

end Sample
