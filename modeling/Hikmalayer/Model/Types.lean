/-
# Blocks, transactions and the replicated state

The data types of `blockchain/block.rs`, `blockchain/transaction.rs` and
`blockchain/state.rs`, with their consensus constants.  `u64` fields are `UInt64`,
`usize` is taken on a 64-bit target, and every `BTreeMap` is an ordered map whose
equality is equality of lookups.
-/
import Mathlib.Tactic
import Hikmalayer.Model.Time

/-! ## Constants -/

/-- Base units of one HKM. -/
def unitsPerHkm : UInt64 := 1000000

/-- Initial block reward: 3,700 HKM. -/
def blockRewardInitial : UInt64 := 3700000000

/-- Blocks between reward halvings. -/
def halvingInterval : UInt64 := 9500000

/-- Tail emission floor: 50 HKM per block. -/
def tailEmission : UInt64 := 50000000

/-- Upper bound on a vesting schedule's duration. -/
def maxVestingDurationBlocks : UInt64 := 100000000

def maxTokenSymbolLen : ℕ := 12
def maxTokenNameLen : ℕ := 64
def maxTokenDecimals : UInt32 := 18

/-- AMM swap fee in basis points, and its denominator. -/
def swapFeeBps : UInt64 := 30
def ammFeeDenom : UInt64 := 10000

/-- Internal account holding all staked funds. -/
def stakingPoolAccount : String := "__staking_pool__"

/-- Internal account holding all unvested funds. -/
def vestingPoolAccount : String := "__vesting_pool__"

/-- Internal account custodying all AMM pool reserves. -/
def ammPoolAccount : String := "__amm_pool__"

/-- LP shares permanently locked on first liquidity provision. -/
def minimumLiquidity : UInt64 := 1000

/-- Default network identifier. -/
def defaultChainId : String := "hikmalayer-dev"

/-- Percentage of stake burned for a proven equivocation. -/
def slashPercent : UInt64 := 10

/-- Stake registered at genesis for the genesis validator. -/
def genesisValidatorStake : UInt64 := 1000000000000

/-- Minimum total stake to be, or remain, a validator. -/
def minValidatorStake : UInt64 := 10000000000

/-- Minimum (and genesis) base fee. -/
def txFee : UInt64 := 1000

/-- Fee-paying transactions per block at which the base fee stands still. -/
def baseFeeTargetTxs : UInt64 := 50

/-- Upper bound on the base fee. -/
def baseFeeMax : UInt64 := 100000000

/-- Blocks a withdrawn stake stays locked before release. -/
def unbondingBlocks : UInt64 := 20

/-- How far back an equivocation proof is accepted. -/
def slashingWindowBlocks : UInt64 := 20

/-- Deterministic block reward for the block at `height`. -/
def blockReward (height : UInt64) : UInt64 :=
  if height = 0 then 0
  else
    let halvings := (height - 1) / halvingInterval
    let halved := if halvings ≥ 63 then 0 else blockRewardInitial >>> halvings
    max halved tailEmission

/-! ## Blocks -/

structure Block where
  index : UInt64
  timestamp : DateTime
  transactions : List String
  merkleRoot : String
  stateRoot : String
  previousHash : String
  difficulty : UInt64
  nonce : UInt64
  hash : String
  validator : Option String
  validatorPublicKey : Option String
  validatorSignature : Option String
  validatorPqSignature : Option String
  vrfOutput : Option String
  vrfProof : Option String
  deriving DecidableEq, Repr

/-! ## Transactions -/

inductive TransactionType where
  | transfer
  | reward
  | certificate
  | stake
  | withdraw
  | slash
  | vest
  | tokenCreate
  | tokenTransfer
  | tokenBurn
  | addLiquidity
  | removeLiquidity
  | swap
  deriving DecidableEq, Repr

/-- Extra fields of the native-token transactions. -/
structure TokenAction where
  tokenId : String
  symbol : String
  name : String
  decimals : UInt32
  deriving DecidableEq, Repr

/-- Extra fields of the AMM transactions. -/
structure AmmAction where
  tokenId : String
  amountHkm : UInt64
  amountToken : UInt64
  shares : UInt64
  amountIn : UInt64
  hkmToToken : Bool
  minShares : UInt64
  minHkm : UInt64
  minToken : UInt64
  minOut : UInt64
  deriving DecidableEq, Repr

/-- Two blocks one validator is said to have signed at the same height. -/
structure SlashProof where
  blockA : Block
  blockB : Block
  deriving DecidableEq, Repr

/-- Issue or revoke a credential. -/
structure CredentialAction where
  id : String
  subject : String
  dataHash : String
  revoke : Bool
  deriving DecidableEq, Repr

/-- A transaction.  The fields `from` and `to` of the source are `sender` and
`recipient`. -/
structure Transaction where
  id : String
  sender : Option String
  recipient : String
  amount : UInt64
  transactionType : TransactionType
  timestamp : DateTime
  nonce : UInt64
  publicKey : Option String
  signature : Option String
  slashProof : Option SlashProof
  vrfPublicKey : Option String
  credential : Option CredentialAction
  vestingCliffBlocks : Option UInt64
  vestingDurationBlocks : Option UInt64
  token : Option TokenAction
  amm : Option AmmAction
  pqPublicKey : Option String
  pqSignature : Option String
  chainId : String
  deriving DecidableEq, Repr

/-! ## The replicated state -/

/-- `BTreeMap<String, β>`. -/
abbrev BTreeMap (β : Type) := Std.ExtTreeMap String β compare

/-- Stake in the process of unbonding. -/
structure UnbondingEntry where
  amount : UInt64
  releaseHeight : UInt64
  deriving DecidableEq, Repr

/-- Funds locked for a recipient on a cliff and linear schedule. -/
structure VestingEntry where
  total : UInt64
  released : UInt64
  startHeight : UInt64
  cliffHeight : UInt64
  endHeight : UInt64
  deriving DecidableEq, Repr

structure StakeInfo where
  stake : UInt64
  publicKey : String
  vrfPublicKey : String
  pqPublicKey : String
  deriving DecidableEq, Repr

/-- `StakeInfo::default()`. -/
def StakeInfo.empty : StakeInfo := ⟨0, "", "", ""⟩

structure TokenInfo where
  tokenId : String
  symbol : String
  name : String
  decimals : UInt32
  totalSupply : UInt64
  creator : String
  createdAtHeight : UInt64
  deriving DecidableEq, Repr

/-- A constant-product pool pairing a token with HKM. -/
structure Pool where
  tokenId : String
  reserveHkm : UInt64
  reserveToken : UInt64
  totalShares : UInt64
  deriving DecidableEq, Repr

/-- `Pool::default()`. -/
def Pool.empty : Pool := ⟨"", 0, 0, 0⟩

structure CredentialRecord where
  issuer : String
  subject : String
  dataHash : String
  issuedAt : String
  revoked : Bool
  deriving DecidableEq, Repr

/-- The replicated chain state. -/
@[ext]
structure ChainState where
  balances : BTreeMap UInt64
  stakers : BTreeMap StakeInfo
  nonces : BTreeMap UInt64
  credentials : BTreeMap CredentialRecord
  slashedOffenses : BTreeMap UInt64
  unbonding : BTreeMap (List UnbondingEntry)
  vesting : BTreeMap (List VestingEntry)
  tokens : BTreeMap TokenInfo
  tokenBalances : BTreeMap (BTreeMap UInt64)
  pools : BTreeMap Pool
  lpShares : BTreeMap (BTreeMap UInt64)
  validatorAllowlist : BTreeMap Unit
  chainId : String
  requireHybridSignatures : Bool
  feePot : UInt64
  baseFee : UInt64
  totalSupply : UInt64
  burned : UInt64

/-- `ChainState::default()`. -/
def ChainState.empty : ChainState where
  balances := ∅
  stakers := ∅
  nonces := ∅
  credentials := ∅
  slashedOffenses := ∅
  unbonding := ∅
  vesting := ∅
  tokens := ∅
  tokenBalances := ∅
  pools := ∅
  lpShares := ∅
  validatorAllowlist := ∅
  chainId := ""
  requireHybridSignatures := false
  feePot := 0
  baseFee := 0
  totalSupply := 0
  burned := 0

/-- A registered validator as leader selection sees it. -/
structure Staker where
  address : String
  stake : UInt64
  publicKey : Option String
  deriving DecidableEq, Repr
