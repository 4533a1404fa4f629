/-
# Proposals

The candidate that a node proposes, once the leader has sealed it away from the node, is taken over
the tip that it was proposed for, and over no other.
-/
import Mathlib.Tactic
import Hikmalayer.Model.Proposal
import Hikmalayer.Node.Production

open Outcome ChainState NodeState

namespace Blockchain

variable {E : Node} {chain : Blockchain} {key : LocalValidatorKey} {info : StakeInfo}
  {index round : UInt64} {slot v rewardId : String} {planned rewardTime time : DateTime}
  {pending : List Transaction} {producer : Option String} {tip built : Block}

/-! ## The leader -/

end Blockchain
