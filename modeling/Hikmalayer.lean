import Hikmalayer.Foundations.Outcome
import Hikmalayer.Foundations.Word
import Hikmalayer.Foundations.OrderedMap
import Hikmalayer.Foundations.Text
import Hikmalayer.Foundations.Base64
import Hikmalayer.Foundations.Decimal
import Hikmalayer.Foundations.ConstantProduct
import Hikmalayer.Foundations.Gossip
import Hikmalayer.Foundations.Locks
import Hikmalayer.Foundations.PairTree
import Hikmalayer.Foundations.Json
import Hikmalayer.Foundations.Handlers
import Hikmalayer.Foundations.Rotation
import Hikmalayer.Foundations.Schedule
import Hikmalayer.Model.Time
import Hikmalayer.Model.Types
import Hikmalayer.Model.Wire
import Hikmalayer.Model.Env
import Hikmalayer.Model.Hex
import Hikmalayer.Model.Keys
import Hikmalayer.Model.Protocol
import Hikmalayer.Model.Block
import Hikmalayer.Model.Transaction
import Hikmalayer.Model.State
import Hikmalayer.Model.Amm
import Hikmalayer.Model.Quotes
import Hikmalayer.Model.Javascript
import Hikmalayer.Model.Keyring
import Hikmalayer.Model.Units
import Hikmalayer.Model.Apply
import Hikmalayer.Model.Chain
import Hikmalayer.Model.Producer
import Hikmalayer.Model.Mining
import Hikmalayer.Model.Proposal
import Hikmalayer.Model.Integrity
import Hikmalayer.Model.Accounts
import Hikmalayer.Model.Credentials
import Hikmalayer.Model.Server
import Hikmalayer.Model.Sync
import Hikmalayer.Model.Discovery
import Hikmalayer.Model.Handlers
import Hikmalayer.Model.Sample
import Hikmalayer.Model.Auth
import Hikmalayer.Model.Token
import Hikmalayer.Ledger.Totals
import Hikmalayer.Ledger.Primitives
import Hikmalayer.Ledger.Branches
import Hikmalayer.Authorization.Messages
import Hikmalayer.Authorization.Login
import Hikmalayer.Ledger.Sound
import Hikmalayer.Ledger.Steps
import Hikmalayer.Ledger.EndBlock
import Hikmalayer.Ledger.Genesis
import Hikmalayer.Ledger.Runs
import Hikmalayer.Ledger.SampleRun
import Hikmalayer.Ledger.Backing
import Hikmalayer.Ledger.Supply
import Hikmalayer.Ledger.Conservation
import Hikmalayer.Ledger.BaseFee
import Hikmalayer.Ledger.Fees
import Hikmalayer.Ledger.Frames
import Hikmalayer.Ledger.Nonces
import Hikmalayer.Authorization.Signers
import Hikmalayer.Ledger.Ownership
import Hikmalayer.Ledger.Credentials
import Hikmalayer.Ledger.Registry
import Hikmalayer.Ledger.Timeline
import Hikmalayer.Ledger.Vesting
import Hikmalayer.Ledger.Validators
import Hikmalayer.Ledger.Unbonding
import Hikmalayer.Ledger.Heights
import Hikmalayer.Ledger.Slashing
import Hikmalayer.Ledger.Window
import Hikmalayer.Ledger.Panics
import Hikmalayer.Ledger.Deduction
import Hikmalayer.Authorization.Hybrid
import Hikmalayer.Authorization.Registered
import Hikmalayer.Ledger.Limits
import Hikmalayer.Authorization.Encoding
import Hikmalayer.Authorization.Forger
import Hikmalayer.Authorization.Networks
import Hikmalayer.Authorization.Envelope
import Hikmalayer.Ledger.Roots
import Hikmalayer.Ledger.Pools
import Hikmalayer.Ledger.Liquidity
import Hikmalayer.Ledger.Proportion
import Hikmalayer.Ledger.SwapQuotes
import Hikmalayer.Ledger.Trading
import Hikmalayer.Ledger.LiquidityQuotes
import Hikmalayer.Ledger.Tokens
import Hikmalayer.Ledger.Atomicity
import Hikmalayer.Consensus.Equivocation
import Hikmalayer.Consensus.Header
import Hikmalayer.Authorization.Timestamps
import Hikmalayer.Authorization.Tokens
import Hikmalayer.Consensus.Merkle
import Hikmalayer.Consensus.Replay
import Hikmalayer.Consensus.Growth
import Hikmalayer.Consensus.ForkChoice
import Hikmalayer.Consensus.Finality
import Hikmalayer.Consensus.Incremental
import Hikmalayer.Consensus.Checkpoint
import Hikmalayer.Consensus.Bundle
import Hikmalayer.Consensus.Beacon
import Hikmalayer.Consensus.Commitment
import Hikmalayer.Consensus.Rounds
import Hikmalayer.Consensus.Extension
import Hikmalayer.Consensus.Eligibility
import Hikmalayer.Consensus.Stall
import Hikmalayer.Consensus.Panics
import Hikmalayer.Consensus.Candidates
import Hikmalayer.Consensus.Planning
import Hikmalayer.Consensus.Adoption
import Hikmalayer.Consensus.Capable
import Hikmalayer.Node.Chains
import Hikmalayer.Node.Sync
import Hikmalayer.Node.Discovery
import Hikmalayer.Node.History
import Hikmalayer.Node.Convergence
import Hikmalayer.Node.Effects
import Hikmalayer.Node.Turns
import Hikmalayer.Node.Boot
import Hikmalayer.Node.Recovery
import Hikmalayer.Node.Integrity
import Hikmalayer.Node.Replays
import Hikmalayer.Node.Duplicates
import Hikmalayer.Node.Pool
import Hikmalayer.Node.Production
import Hikmalayer.Node.Proposal
import Hikmalayer.Node.Inclusion
import Hikmalayer.Node.Accounts
import Hikmalayer.Node.Credentials
import Hikmalayer.Node.Admission
import Hikmalayer.Node.Reputation
import Hikmalayer.Node.Relay
import Hikmalayer.Node.Forks
import Hikmalayer.Node.Deadlock
import Hikmalayer.Clients.Keyring
import Hikmalayer.Clients.Units
