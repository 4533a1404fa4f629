/-
# Planning over a pool

A producer tries the pending transactions one by one and keeps those that apply.  As long as none of
them aborts, is refused after it has written, or is a reward, what it keeps executes to the state it
has reached, so that its block is as good as one over an empty pool.
-/
import Mathlib.Tactic
import Hikmalayer.Ledger.Atomicity
import Hikmalayer.Consensus.Extension
import Hikmalayer.Consensus.Eligibility
import Hikmalayer.Consensus.Panics

open Outcome Exec ChainState

namespace Blockchain

variable {E : Node} {s : ChainState} {tx : Transaction} {validator : String} {index : UInt64}
  {pending : List Transaction}

/-! ## Trying a transaction -/

section Plan

variable {chain : Blockchain} {key : LocalValidatorKey} {info : StakeInfo} {round : UInt64}
  {slot rewardId : String} {planned rewardTime : DateTime} {tip : Block}

end Plan

end Blockchain
