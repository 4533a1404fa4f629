/-
# Accounts of a node

`get_account_nonce` and `faucet_tokens` of `api/routes.rs`.  What the library computes from the
private key of the treasury is a field of its key; the fresh id and timestamp of the transfer are
parameters.
-/
import Mathlib.Tactic
import Hikmalayer.Model.Server

open Outcome

structure NonceStateResponse where
  account : String
  nextNonce : UInt64
  baseFee : UInt64
  deriving DecidableEq, Repr

/-- The `LocalValidatorKey` of the treasury, with what the library computes from its private key. -/
structure TreasuryKey where
  address : String
  publicKey : String
  /-- `pos::sign_message`. -/
  signMessage : String → Outcome String String

/-- `Transaction::new`: no nonce, no keys, no payload, no network yet. -/
def Transaction.new (id : String) (timestamp : DateTime) (sender : Option String)
    (recipient : String) (amount : UInt64) (kind : TransactionType) : Transaction where
  id := id
  sender := sender
  recipient := recipient
  amount := amount
  transactionType := kind
  timestamp := timestamp
  nonce := 0
  publicKey := none
  signature := none
  slashProof := none
  vrfPublicKey := none
  credential := none
  vestingCliffBlocks := none
  vestingDurationBlocks := none
  token := none
  amm := none
  pqPublicKey := none
  pqSignature := none
  chainId := ""

namespace AppState

/-- The chain state with everything queued applied, at the height of the next block. -/
def projected (E : Node) (s : AppState) : Outcome String ChainState := do
  let nextHeight ← s.chain.nextIndex
  s.chain.state.projectPendingState E nextHeight s.pendingTransactions

/-- The nonce that the next transaction of an account has to carry, and the base fee. -/
def getAccountNonce (E : Node) (s : AppState) (account : String) :
    Outcome String NonceStateResponse := do
  let projected ← s.projected E
  let nextNonce ← plain (Word.checkedAdd (projected.nonceOf account) 1)
  return ⟨account, nextNonce, s.chain.state.baseFee⟩

/-- The transfer that the faucet submits: signed with the key of the treasury, for the network of the
node, with the next nonce. -/
def faucetTokens (E : Node) (s : AppState) (authorized : Bool) (treasury : Option TreasuryKey)
    (recipient : String) (amount : UInt64) (id : String) (timestamp : DateTime) :
    Outcome String Transaction := do
  ensure authorized "Unauthorized: faucet requires the admin token"
  ensure (¬ (amount = 0 ∨ blank recipient)) "Faucet requires a recipient and a non-zero amount"
  let treasury ← okOr treasury ("Faucet disabled: this node holds no treasury key " ++
    "(set TREASURY_PRIVATE_KEY on dev networks)")
  let projected ← s.projected E
  let nonce ← plain (Word.checkedAdd (projected.nonceOf treasury.address) 1)
  let message := Transaction.scopedSigningMessage s.chain.state.chainId
    (Transaction.transferSigningMessage treasury.address recipient amount nonce)
  let signature ← (treasury.signMessage message).mapErr fun error =>
    "Failed to sign faucet transfer: " ++ error
  return { Transaction.new id timestamp (some treasury.address) recipient amount .transfer with
    nonce := nonce
    publicKey := some treasury.publicKey
    signature := some signature }

end AppState
