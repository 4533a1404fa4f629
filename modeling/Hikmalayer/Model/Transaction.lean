/-
# Transactions: signing messages and stateless verification

`blockchain/transaction.rs`: the canonical message of every signed transaction
type, the equivocation proof of a slash, and `verify_for_block` with its error
texts.
-/
import Mathlib.Tactic
import Hikmalayer.Model.Keys
import Hikmalayer.Model.Block

open Outcome

/-- Deterministic token id of a creator, symbol and nonce. -/
def deriveTokenId (E : Env) (creator symbol : String) (nonce : UInt64) : String :=
  let seed := creator ++ ":" ++ symbol ++ ":" ++ toString nonce
  "hkt" ++ hexEncode ((E.sha256 (utf8 seed)).bytes.take 20)

/-! ## Equivocation proofs -/

namespace SlashProof

/-- One block of a proof must carry a signature that verifies under the key. -/
def checkSignature (E : Env) (key : String) (block : Block) : Outcome String Unit := do
  let signature ← okOr block.validatorSignature "Proof block missing signature"
  ensure (Pos.verifyBlockSignature E block.hash key signature)
    "Proof block signature verification failed"

/-- Stateless verification of the equivocation; returns the offender. -/
def verify (E : Env) (proof : SlashProof) : Outcome String String := do
  let a := proof.blockA
  let b := proof.blockB
  ensure (a.index = b.index) "Equivocation proof blocks are at different heights"
  ensure (a.hash ≠ b.hash) "Equivocation proof blocks are identical"
  let validator ← okOr a.validator "Proof block missing validator"
  ensure (b.validator = some validator) "Proof blocks have different validators"
  let keyA ← okOr a.validatorPublicKey "Proof block missing public key"
  let keyB ← okOr b.validatorPublicKey "Proof block missing public key"
  ensure (keyA = keyB) "Proof blocks signed with different keys"
  ensure (a.hash = a.calculateHash E ∧ b.hash = b.calculateHash E)
    "Proof block hash does not match its header"
  checkSignature E keyA a
  checkSignature E keyA b
  return validator

end SlashProof

namespace Transaction

/-! ## Canonical signing messages -/

def transferSigningMessage (sender recipient : String) (amount nonce : UInt64) : String :=
  "hikmalayer-transfer:" ++ sender ++ ":" ++ recipient ++ ":" ++ toString amount ++ ":" ++
    toString nonce

def stakeSigningMessage (address : String) (amount nonce : UInt64) (vrfPublicKey : String) :
    String :=
  "hikmalayer-stake:" ++ address ++ ":" ++ toString amount ++ ":" ++ toString nonce ++ ":" ++
    vrfPublicKey

def credentialSigningMessage (action : CredentialAction) (nonce : UInt64) : String :=
  "hikmalayer-credential:" ++ action.id ++ ":" ++ action.subject ++ ":" ++ action.dataHash ++
    ":" ++ toString action.revoke ++ ":" ++ toString nonce

def withdrawSigningMessage (address : String) (amount nonce : UInt64) : String :=
  "hikmalayer-withdraw:" ++ address ++ ":" ++ toString amount ++ ":" ++ toString nonce

def tokenCreateSigningMessage (symbol name : String) (decimals : UInt32)
    (initialSupply nonce : UInt64) : String :=
  "hikmalayer-token-create:" ++ symbol ++ ":" ++ name ++ ":" ++ toString decimals ++ ":" ++
    toString initialSupply ++ ":" ++ toString nonce

def tokenTransferSigningMessage (tokenId recipient : String) (amount nonce : UInt64) : String :=
  "hikmalayer-token-transfer:" ++ tokenId ++ ":" ++ recipient ++ ":" ++ toString amount ++ ":" ++
    toString nonce

def tokenBurnSigningMessage (tokenId : String) (amount nonce : UInt64) : String :=
  "hikmalayer-token-burn:" ++ tokenId ++ ":" ++ toString amount ++ ":" ++ toString nonce

def ammAddSigningMessage (tokenId : String) (amountHkm amountToken minShares nonce : UInt64) :
    String :=
  "hikmalayer-amm-add:" ++ tokenId ++ ":" ++ toString amountHkm ++ ":" ++
    toString amountToken ++ ":" ++ toString minShares ++ ":" ++ toString nonce

def ammRemoveSigningMessage (tokenId : String) (shares minHkm minToken nonce : UInt64) : String :=
  "hikmalayer-amm-remove:" ++ tokenId ++ ":" ++ toString shares ++ ":" ++ toString minHkm ++
    ":" ++ toString minToken ++ ":" ++ toString nonce

def ammSwapSigningMessage (tokenId : String) (hkmToToken : Bool)
    (amountIn minOut nonce : UInt64) : String :=
  "hikmalayer-amm-swap:" ++ tokenId ++ ":" ++ toString hkmToToken ++ ":" ++
    toString amountIn ++ ":" ++ toString minOut ++ ":" ++ toString nonce

def vestSigningMessage (sender recipient : String)
    (amount cliffBlocks durationBlocks nonce : UInt64) : String :=
  "hikmalayer-vest:" ++ sender ++ ":" ++ recipient ++ ":" ++ toString amount ++ ":" ++
    toString cliffBlocks ++ ":" ++ toString durationBlocks ++ ":" ++ toString nonce

/-- Bind a canonical message to a network. -/
def scopedSigningMessage (chainId message : String) : String := chainId ++ ":" ++ message

/-! ## Stateless verification -/

/-- The embedded keys must derive to the sender's address and the signatures
must verify over the scoped message.  The address decides the scheme. -/
def verifySenderSignature (E : Env) (tx : Transaction) (sender message : String) :
    Outcome String Unit := do
  let message := scopedSigningMessage tx.chainId message
  let publicKey ← okOr tx.publicKey "Transaction missing public key"
  let signature ← okOr tx.signature "Transaction missing signature"
  match Hybrid.schemeOf sender with
  | some .hybrid =>
    let pqPublicKey ← okOr tx.pqPublicKey "Hybrid account requires a post-quantum public key"
    let pqSignature ← okOr tx.pqSignature "Hybrid account requires a post-quantum signature"
    Hybrid.verifyHybrid E sender message publicKey pqPublicKey signature pqSignature
  | some .classical =>
    ensure (tx.pqPublicKey = none ∧ tx.pqSignature = none)
      "Classical account must not carry post-quantum fields"
    let derived ← Pos.deriveAddress E publicKey
    ensure (derived = sender) "Sender address does not match the signing key"
    ensure (Pos.verifyMessage E message publicKey signature)
      "Transaction signature verification failed"
  | none => err ("Sender '" ++ sender ++ "' is not a valid Hikmalayer address")

/-- Stateless consensus verification inside a block produced by `validator`. -/
def verifyForBlock (E : Env) (tx : Transaction) (validator : String) : Outcome String Unit :=
  match tx.transactionType with
  | .transfer => do
    let sender ← okOr tx.sender "Transfer transaction missing sender"
    verifySenderSignature E tx sender
      (transferSigningMessage sender tx.recipient tx.amount tx.nonce)
  | .stake => do
    let sender ← okOr tx.sender "Stake transaction missing sender"
    ensure (tx.recipient = stakingPoolAccount) "Stake transaction must pay the staking pool"
    ensure (tx.amount ≠ 0) "Stake amount must be greater than zero"
    let vrfPublicKey ← okOr tx.vrfPublicKey "Stake transaction missing VRF public key"
    verifySenderSignature E tx sender
      (stakeSigningMessage sender tx.amount tx.nonce vrfPublicKey)
  | .withdraw => do
    ensure (tx.sender ≠ none) "Withdraw transaction missing sender"
    ensure (tx.signature ≠ none) "Withdraw transaction missing signature"
    ensure (tx.amount ≠ 0) "Withdraw amount must be greater than zero"
  | .reward => do
    ensure (tx.sender = none) "Reward transaction must not have a sender"
    ensure (tx.recipient = validator) "Reward transaction must pay the block validator"
  | .certificate => do
    ensure (tx.amount = 0) "Certificate transaction must not carry value"
    match tx.credential with
    | some action =>
      let issuer ← okOr tx.sender "Credential action missing issuer"
      ensure (¬ (blank action.id ∨ 128 < byteLen action.id))
        "Credential id must be 1-128 characters"
      ensure (¬ (256 < byteLen action.subject ∨ 128 < byteLen action.dataHash))
        "Credential fields exceed size limits"
      verifySenderSignature E tx issuer (credentialSigningMessage action tx.nonce)
    | none => return ()
  | .vest => do
    let sender ← okOr tx.sender "Vest transaction missing sender"
    ensure (tx.amount ≠ 0) "Vest amount must be greater than zero"
    ensure (¬ blank tx.recipient) "Vest transaction missing recipient"
    let cliff ← okOr tx.vestingCliffBlocks "Vest transaction missing cliff"
    let duration ← okOr tx.vestingDurationBlocks "Vest transaction missing duration"
    ensure (¬ (duration = 0 ∨ maxVestingDurationBlocks < duration))
      ("Vest duration must be 1..=" ++ toString maxVestingDurationBlocks ++ " blocks")
    ensure (¬ duration < cliff) "Vest cliff cannot exceed the duration"
    verifySenderSignature E tx sender
      (vestSigningMessage sender tx.recipient tx.amount cliff duration tx.nonce)
  | .slash => do
    ensure (tx.sender = none ∧ tx.amount = 0) "Slash transaction must carry no sender or value"
    let proof ← okOr tx.slashProof "Slash transaction missing proof"
    let offender ← proof.verify E
    ensure (tx.recipient = offender) "Slash transaction target does not match proof"
  | .tokenCreate => do
    let sender ← okOr tx.sender "TokenCreate missing creator"
    let action ← okOr tx.token "TokenCreate missing token action"
    let symbol := trim action.symbol
    ensure (¬ (symbol = "" ∨ maxTokenSymbolLen < byteLen symbol))
      ("Token symbol must be 1..=" ++ toString maxTokenSymbolLen ++ " characters")
    ensure (¬ maxTokenNameLen < byteLen action.name)
      ("Token name must be at most " ++ toString maxTokenNameLen ++ " characters")
    ensure (¬ maxTokenDecimals < action.decimals)
      ("Token decimals must be at most " ++ toString maxTokenDecimals)
    ensure (tx.amount ≠ 0) "Token initial supply must be greater than zero"
    verifySenderSignature E tx sender
      (tokenCreateSigningMessage action.symbol action.name action.decimals tx.amount tx.nonce)
  | .tokenTransfer => do
    let sender ← okOr tx.sender "TokenTransfer missing sender"
    let action ← okOr tx.token "TokenTransfer missing token action"
    ensure (¬ blank action.tokenId) "TokenTransfer missing token id"
    ensure (¬ blank tx.recipient) "TokenTransfer missing recipient"
    ensure (tx.amount ≠ 0) "TokenTransfer amount must be greater than zero"
    verifySenderSignature E tx sender
      (tokenTransferSigningMessage action.tokenId tx.recipient tx.amount tx.nonce)
  | .tokenBurn => do
    let sender ← okOr tx.sender "TokenBurn missing sender"
    let action ← okOr tx.token "TokenBurn missing token action"
    ensure (¬ blank action.tokenId) "TokenBurn missing token id"
    ensure (tx.amount ≠ 0) "TokenBurn amount must be greater than zero"
    verifySenderSignature E tx sender
      (tokenBurnSigningMessage action.tokenId tx.amount tx.nonce)
  | .addLiquidity => do
    let sender ← okOr tx.sender "AddLiquidity missing sender"
    let action ← okOr tx.amm "AddLiquidity missing amm action"
    ensure (¬ blank action.tokenId) "AddLiquidity missing token id"
    ensure (¬ (action.amountHkm = 0 ∨ action.amountToken = 0))
      "AddLiquidity requires non-zero HKM and token amounts"
    verifySenderSignature E tx sender
      (ammAddSigningMessage action.tokenId action.amountHkm action.amountToken action.minShares
        tx.nonce)
  | .removeLiquidity => do
    let sender ← okOr tx.sender "RemoveLiquidity missing sender"
    let action ← okOr tx.amm "RemoveLiquidity missing amm action"
    ensure (¬ blank action.tokenId) "RemoveLiquidity missing token id"
    ensure (action.shares ≠ 0) "RemoveLiquidity requires a non-zero share amount"
    verifySenderSignature E tx sender
      (ammRemoveSigningMessage action.tokenId action.shares action.minHkm action.minToken
        tx.nonce)
  | .swap => do
    let sender ← okOr tx.sender "Swap missing sender"
    let action ← okOr tx.amm "Swap missing amm action"
    ensure (¬ blank action.tokenId) "Swap missing token id"
    ensure (action.amountIn ≠ 0) "Swap requires a non-zero input amount"
    verifySenderSignature E tx sender
      (ammSwapSigningMessage action.tokenId action.hkmToToken action.amountIn action.minOut
        tx.nonce)

/-- Verify a transaction without block context; rewards and slashes carry no
sender signature. -/
def verifyAuthorization (E : Env) (tx : Transaction) : Outcome String Unit :=
  match tx.transactionType with
  | .reward | .slash => ok ()
  | _ => verifyForBlock E tx ""

end Transaction
