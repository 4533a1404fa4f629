/-
# What a transaction is signed over

The canonical message of each sender-signed type, and what `verify_for_block` says about
it: the sender is an address and its signature verifies over exactly that message.
-/
import Mathlib.Tactic
import Hikmalayer.Model.Transaction

open Outcome

namespace Transaction

/-- The canonical message the sender signs.  Rewards, slashes and anchors without a
credential have none. -/
def canonicalMessage (tx : Transaction) : Option String :=
  match tx.transactionType with
  | .transfer => do
    let sender ← tx.sender
    return transferSigningMessage sender tx.recipient tx.amount tx.nonce
  | .stake => do
    let sender ← tx.sender
    let vrfPublicKey ← tx.vrfPublicKey
    return stakeSigningMessage sender tx.amount tx.nonce vrfPublicKey
  | .withdraw => do
    let sender ← tx.sender
    return withdrawSigningMessage sender tx.amount tx.nonce
  | .certificate => do
    let action ← tx.credential
    return credentialSigningMessage action tx.nonce
  | .vest => do
    let sender ← tx.sender
    let cliff ← tx.vestingCliffBlocks
    let duration ← tx.vestingDurationBlocks
    return vestSigningMessage sender tx.recipient tx.amount cliff duration tx.nonce
  | .tokenCreate => do
    let action ← tx.token
    return tokenCreateSigningMessage action.symbol action.name action.decimals tx.amount tx.nonce
  | .tokenTransfer => do
    let action ← tx.token
    return tokenTransferSigningMessage action.tokenId tx.recipient tx.amount tx.nonce
  | .tokenBurn => do
    let action ← tx.token
    return tokenBurnSigningMessage action.tokenId tx.amount tx.nonce
  | .addLiquidity => do
    let action ← tx.amm
    return ammAddSigningMessage action.tokenId action.amountHkm action.amountToken
      action.minShares tx.nonce
  | .removeLiquidity => do
    let action ← tx.amm
    return ammRemoveSigningMessage action.tokenId action.shares action.minHkm action.minToken
      tx.nonce
  | .swap => do
    let action ← tx.amm
    return ammSwapSigningMessage action.tokenId action.hkmToToken action.amountIn action.minOut
      tx.nonce
  | .reward => none
  | .slash => none

variable {E : Env} {tx : Transaction} {validator sender message : String}

/-- Only addresses pass the sender check. -/
theorem verifySenderSignature_valid (h : verifySenderSignature E tx sender message = ok ()) :
    isValidAddress sender = true := by
  simp only [verifySenderSignature, Outcome.bind_eq_ok] at h
  obtain ⟨_, -, _, -, h⟩ := h
  cases hs : Hybrid.schemeOf sender with
  | none => simp [hs] at h
  | some scheme => simp [isValidAddress, hs]

/-- A verified transaction with a canonical message carries its sender's signature over it.
Withdrawals are left to the state machine. -/
theorem verifyForBlock_signed (h : tx.verifyForBlock E validator = ok ())
    (hw : tx.transactionType ≠ .withdraw) (hm : tx.canonicalMessage = some message) :
    ∃ sender, tx.sender = some sender ∧ verifySenderSignature E tx sender message = ok () := by
  cases ht : tx.transactionType <;>
    simp only [verifyForBlock, canonicalMessage, ht, Outcome.bind_eq_ok, okOr_eq_ok,
      ensure_eq_ok, Option.bind_eq_bind, Option.bind_eq_some_iff, Option.pure_def, Option.some.injEq,
      reduceCtorEq] at h hm
  case withdraw => exact absurd ht hw
  case certificate =>
    obtain ⟨action, hc, rfl⟩ := hm
    simp only [hc, Outcome.bind_eq_ok, okOr_eq_ok] at h
    obtain ⟨_, -, issuer, hs, _, -, _, -, hv⟩ := h
    exact ⟨issuer, hs, hv⟩
  all_goals grind

/-- The sender of a verified transaction is an address; withdrawals and certificates are
checked elsewhere. -/
theorem sender_valid (h : tx.verifyForBlock E validator = ok ())
    (hw : tx.transactionType ≠ .withdraw) (hc : tx.transactionType ≠ .certificate) :
    ∀ a, tx.sender = some a → isValidAddress a = true := by
  intro a ha
  cases ht : tx.transactionType <;>
    simp only [verifyForBlock, ht, Outcome.bind_eq_ok, okOr_eq_ok, ensure_eq_ok, ha] at h
  case withdraw => exact absurd ht hw
  case certificate => exact absurd ht hc
  all_goals grind [verifySenderSignature_valid]

/-- A verified slash carries a proof that names its target. -/
theorem verifyForBlock_slash {producer : String}
    (ht : tx.transactionType = .slash) :
    tx.verifyForBlock E producer = ok () ↔ (tx.sender = none ∧ tx.amount = 0) ∧
      ∃ proof, tx.slashProof = some proof ∧ proof.verify E = ok tx.recipient := by
  simp only [verifyForBlock, ht, Outcome.bind_eq_ok, okOr_eq_ok, ensure_eq_ok]
  constructor
  · rintro ⟨_, hcarry, proof, hproof, offender, hoffender, hrec⟩
    exact ⟨hcarry, proof, hproof, by rw [hoffender, hrec]⟩
  · rintro ⟨hcarry, proof, hproof, hverify⟩
    exact ⟨(), hcarry, proof, hproof, _, hverify, rfl⟩

end Transaction
