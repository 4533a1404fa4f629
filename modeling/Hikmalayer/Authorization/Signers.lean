/-
# Who a transaction was signed by

What `verify_sender_signature` and the checks of a withdrawal say about the signatures a
transaction carries: over its own message on its own network, under keys the sender's
address derives from, or, for a withdrawal, under the keys the staker registered.  Every
transaction that mutates the state on behalf of an account is signed in one of these ways.
-/
import Mathlib.Tactic
import Hikmalayer.Authorization.Messages
import Hikmalayer.Ledger.Nonces

open Outcome Exec

namespace Transaction

variable {E : Env} {tx : Transaction} {account message text publicKey pqPublicKey : String}

/-- The canonical message, bound to the transaction's network. -/
def signedText (tx : Transaction) : Option String :=
  tx.canonicalMessage.map (scopedSigningMessage tx.chainId)

/-- The transaction's ECDSA signature verifies over a text. -/
def SignedUnder (E : Env) (tx : Transaction) (text publicKey : String) : Prop :=
  ∃ signature, tx.signature = some signature ∧ Pos.verifyMessage E text publicKey signature = true

/-- The transaction's ML-DSA signature verifies over a text. -/
def PqSignedUnder (E : Env) (tx : Transaction) (text pqPublicKey : String) : Prop :=
  ∃ signature, tx.pqSignature = some signature ∧ Pq.verifyMessage E text pqPublicKey signature = true

/-- Signed under the embedded keys, from which the address derives. -/
inductive SignedByKeys (E : Env) (tx : Transaction) (text account : String) : Prop
  | classical {publicKey : String} (hs : Hybrid.schemeOf account = some .classical)
      (hkey : tx.publicKey = some publicKey) (hk : Pos.deriveAddress E publicKey = ok account)
      (hsig : SignedUnder E tx text publicKey) (hnone : tx.pqPublicKey = none ∧ tx.pqSignature = none)
  | hybrid {publicKey pqPublicKey : String} (hs : Hybrid.schemeOf account = some .hybrid)
      (hkey : tx.publicKey = some publicKey) (hpqkey : tx.pqPublicKey = some pqPublicKey)
      (hk : Hybrid.deriveHybridAddress E publicKey pqPublicKey = ok account)
      (hsig : SignedUnder E tx text publicKey) (hpq : PqSignedUnder E tx text pqPublicKey)

/-- The sender check passes exactly on transactions signed under the embedded keys. -/
theorem verifySenderSignature_eq_ok :
    verifySenderSignature E tx account message = ok () ↔
      SignedByKeys E tx (scopedSigningMessage tx.chainId message) account := by
  unfold verifySenderSignature
  constructor
  · intro h
    simp only [Outcome.bind_eq_ok, okOr_eq_ok] at h
    obtain ⟨publicKey, hkey, signature, hsig, h⟩ := h
    cases hs : Hybrid.schemeOf account with
    | none =>
      rw [hs] at h
      cases h
    | some scheme =>
      rw [hs] at h
      cases scheme with
      | classical =>
        simp only [Outcome.bind_eq_ok, ensure_eq_ok] at h
        obtain ⟨_, hnone, derived, hd, _, rfl, hv⟩ := h
        exact .classical hs hkey hd ⟨signature, hsig, hv⟩ hnone
      | hybrid =>
        simp only [Hybrid.verifyHybrid, Outcome.bind_eq_ok, okOr_eq_ok, ensure_eq_ok] at h
        obtain ⟨pqPublicKey, hpqkey, pqSignature, hpqsig, derived, hd, _, rfl, _, hv, hpqv⟩ := h
        exact .hybrid hs hkey hpqkey hd ⟨signature, hsig, hv⟩ ⟨pqSignature, hpqsig, hpqv⟩
  · rintro (⟨hs, hkey, hk, ⟨signature, hsig, hv⟩, hnone⟩ |
      ⟨hs, hkey, hpqkey, hk, ⟨signature, hsig, hv⟩, pqSignature, hpqsig, hpqv⟩)
    · simp only [hkey, hsig, hs, hk, okOr_some, ok_bind]
      rw [ensure_pos hnone, ok_bind, ensure_pos trivial, ok_bind, ensure_pos hv]
    · simp only [hkey, hsig, hs, hpqkey, hpqsig, okOr_some, ok_bind, Hybrid.verifyHybrid, hk]
      rw [ensure_pos trivial, ok_bind, ensure_pos hv, ok_bind, ensure_pos hpqv]

/-- Signed under the keys a staker registered; the ML-DSA half only counts when one is
registered. -/
structure SignedByRegistered (E : Env) (tx : Transaction) (text : String) (info : StakeInfo) :
    Prop where
  classical : SignedUnder E tx text info.publicKey
  postQuantum : info.pqPublicKey ≠ "" → PqSignedUnder E tx text info.pqPublicKey

/-- The transaction names the account as its sender and carries its signature: a withdrawal
under the registered keys, any other transaction under keys the address derives from. -/
def Authenticated (E : Env) (s : ChainState) (tx : Transaction) (account : String) : Prop :=
  tx.sender = some account ∧ ∃ text, tx.signedText = some text ∧
    if tx.transactionType = .withdraw then
      ∃ info, s.stakers[account]? = some info ∧ SignedByRegistered E tx text info
    else SignedByKeys E tx text account

end Transaction

namespace ChainState

open Transaction

variable {E : Node} {s s' : ChainState} {tx : Transaction} {height : UInt64}
  {account validator : String}

/-- What the checks of a withdrawal say about its signatures. -/
theorem withdrawChecks_signed {r : WithdrawRequest} (h : withdrawChecks E tx s = ok r) :
    tx.sender = some r.sender ∧ ∃ info, s.stakers[r.sender]? = some info ∧
      SignedByRegistered E tx (scopedSigningMessage tx.chainId
        (withdrawSigningMessage r.sender tx.amount tx.nonce)) info := by
  simp only [withdrawChecks, Outcome.bind_eq_ok, okOr_eq_ok, ensure_eq_ok, pure_eq, ok.injEq] at h
  obtain ⟨sender, hs, signature, hsig, info, hi, _, hv, _, hpq, _, -, _, -, _, -, rfl⟩ := h
  refine ⟨hs, info, hi, ⟨signature, hsig, hv⟩, fun hne => ?_⟩
  simp only [checkRegisteredPqKey, if_neg hne, Outcome.bind_eq_ok, okOr_eq_ok, ensure_eq_ok] at hpq
  exact hpq

/-- A signer's type has a canonical message, once it is verified. -/
theorem canonicalMessage_of_signer (hver : tx.verifyForBlock E validator = ok ())
    (hsig : tx.signer = some account) : ∃ message, tx.canonicalMessage = some message := by
  cases ht : tx.transactionType <;>
    simp only [verifyForBlock, signer, canonicalMessage, ht, Outcome.bind_eq_ok, okOr_eq_ok,
      ensure_eq_ok, Option.bind_eq_bind, Option.pure_def, reduceCtorEq] at hver hsig ⊢
  case certificate =>
    cases hc : tx.credential with
    | none => rw [if_pos hc] at hsig; cases hsig
    | some action => exact ⟨_, rfl⟩
  all_goals grind

/-- A verified transaction that mutates the state for an account is authenticated for it. -/
theorem Mutation.authenticated {effects : StateAction} (hver : tx.verifyForBlock E validator = ok ())
    (h : Mutation E tx height s account effects) : Authenticated E s tx account := by
  refine ⟨h.sender, ?_⟩
  by_cases hw : tx.transactionType = .withdraw
  · simp only [if_pos hw]
    cases h with
    | withdraw ht hc =>
      obtain ⟨hs, info, hi, hsigned⟩ := withdrawChecks_signed hc
      refine ⟨_, ?_, info, hi, hsigned⟩
      simp only [signedText, canonicalMessage, ht, hs]
      rfl
    | _ ht => rw [ht] at hw; cases hw
  · simp only [if_neg hw]
    obtain ⟨message, hm⟩ := canonicalMessage_of_signer hver h.signer
    obtain ⟨sender, hs, hv⟩ := verifyForBlock_signed hver hw hm
    rw [h.sender, Option.some.injEq] at hs
    subst hs
    refine ⟨_, ?_, verifySenderSignature_eq_ok.mp hv⟩
    rw [signedText, hm]
    rfl

/-- Whoever signs a verified transaction that was applied is authenticated. -/
theorem Applied.authenticated (hver : tx.verifyForBlock E validator = ok ())
    (h : Applied E tx height s s') (hsig : tx.signer = some account) :
    Authenticated E s tx account := by
  cases h with
  | signed hm _ _ =>
    rw [hm.signer, Option.some.injEq] at hsig
    exact hsig ▸ hm.authenticated hver
  | reward ht _ => rw [signer, ht] at hsig; cases hsig
  | slash ht _ => rw [signer, ht] at hsig; cases hsig
  | anchor ht hc _ => rw [signer, ht, hc] at hsig; cases hsig

end ChainState
