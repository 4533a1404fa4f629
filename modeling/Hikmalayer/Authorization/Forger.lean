/-
# What an ECDSA forger can take from a hybrid validator

A transaction that carries no ML-DSA signature of a hybrid account takes nothing from it, with
one exception: the proof of a slash is checked by its ECDSA signatures alone, so a forger of
secp256k1 signatures can slash a hybrid validator that signed nothing.
-/
import Mathlib.Tactic
import Hikmalayer.Authorization.Hybrid
import Hikmalayer.Ledger.Ownership

open Outcome Exec OrderedMap

namespace ChainState

variable {E : Node} {s s' : ChainState} {tx : Transaction} {height : UInt64} {x validator : String}

/-- Bonded stake of an account. -/
def bondedOf (s : ChainState) (x : String) : UInt64 := (s.stakers[x]?.getD .empty).stake

/-- Unbonding stake of an account. -/
def unbondingOf (s : ChainState) (x : String) : ℕ := entriesSum (s.entriesOf x)

/-- From `s` to `s'` the account has lost no balance, no bonded and no unbonding stake. -/
structure Spared (s s' : ChainState) (x : String) : Prop where
  balance : s.balanceOf x ≤ s'.balanceOf x
  bonded : s.bondedOf x ≤ s'.bondedOf x
  unbonding : s.unbondingOf x ≤ s'.unbondingOf x

/-! ## The registry of others -/

/-- A transaction that an account neither signs nor is slashed by leaves its staker entry and
its unbonding entries alone. -/
theorem BondStep.others (h : BondStep E tx height s s') (hx : tx.signer ≠ some x)
    (hslash : ¬ (tx.transactionType = .slash ∧ tx.recipient = x)) :
    s'.stakers[x]? = s.stakers[x]? ∧ s'.entriesOf x = s.entriesOf x := by
  cases h with
  | @stake r _ _ ht hc _ _ hb =>
    have hne : r.sender ≠ x := by
      rintro rfl
      have hm : Mutation E tx height s r.sender (stakeEffects E tx r) := .stake ht hc
      exact hx hm.signer
    have hk := congrArg Bonds.stakers hb
    have hu := congrArg Bonds.unbonding hb
    dsimp only [bonds] at hk hu
    rw [hk, lookup_insert_of_ne _ _ hne, entriesOf, hu]
    exact ⟨rfl, rfl⟩
  | @withdraw r _ _ ht hc _ _ _ hb =>
    have hne : r.sender ≠ x := by
      rintro rfl
      have hm : Mutation E tx height s r.sender (withdrawEffects E tx height r) := .withdraw ht hc
      exact hx hm.signer
    have hk := congrArg Bonds.stakers hb
    have hu := congrArg Bonds.unbonding hb
    dsimp only [bonds] at hk hu
    rw [hk, lookup_insert_of_ne _ _ hne, entriesOf, hu, lookup_insert_of_ne _ _ hne]
    exact ⟨rfl, rfl⟩
  | slash ht _ _ hk hothers =>
    have hne : tx.recipient ≠ x := fun hrec => hslash ⟨ht, hrec⟩
    rw [hk, lookup_insert_of_ne _ _ hne]
    exact ⟨rfl, hothers x hne⟩
  | other _ hb =>
    have hk := congrArg Bonds.stakers hb
    have hu := congrArg Bonds.unbonding hb
    dsimp only [bonds] at hk hu
    rw [hk, entriesOf, hu]
    exact ⟨rfl, rfl⟩

/-- A slash does not spare its target. -/
theorem BondStep.not_spared (h : BondStep E tx height s s') (ht : tx.transactionType = .slash) :
    ¬ Spared s s' tx.recipient := by
  cases h with
  | stake ht' => rw [ht] at ht'; cases ht'
  | withdraw ht' => rw [ht] at ht'; cases ht'
  | other ht' => exact absurd ht ht'.2.2
  | @slash r info stake _ hc hi hk _ hloss =>
    rintro ⟨-, hbonded, hunbonding⟩
    have hpos := slashChecks_pos hc
    unfold bondedOf at hbonded
    unfold unbondingOf at hunbonding
    rw [hk, lookup_insert_self, hi, Option.getD_some, Option.getD_some,
      UInt64.le_iff_toNat_le] at hbonded
    change info.stake.toNat ≤ stake.toNat at hbonded
    omega

/-! ## Without the post-quantum half -/

/-- The transaction carries no ML-DSA signature over its message that verifies under a key of
the account. -/
def PqUnsigned (E : Env) (tx : Transaction) (account : String) : Prop :=
  ∀ text publicKey pqPublicKey, tx.signedText = some text →
    Hybrid.deriveHybridAddress E publicKey pqPublicKey = ok account →
    ¬ tx.PqSignedUnder E text pqPublicKey

/-- A hybrid account signs nothing that is not signed by its ML-DSA key. -/
theorem Applied.signer_ne (h : Applied E tx height s s') (hs : Keyed E .hybrid s)
    (hver : tx.verifyForBlock E validator = ok ())
    (hscheme : Hybrid.schemeOf x = some .hybrid) (hforge : PqUnsigned E tx x) :
    tx.signer ≠ some x := by
  intro hsig
  obtain ⟨hsender, -⟩ := h.authenticated hver hsig
  rcases h.dualSigned hs hver hsender hscheme with ⟨ht, hc, -⟩ | ⟨text, pk, pq, htext, hd, -, hpq⟩
  · rw [Transaction.signer, ht, hc] at hsig
    cases hsig
  · exact hforge text pk pq htext hd hpq

/-- A forger of ECDSA signatures takes nothing from a hybrid account, except by a slash that
names it: an accepted transaction without an ML-DSA signature of the account spares its
balance, its bonded stake and its unbonding stake exactly when it is no such slash. -/
theorem forger_spares_iff {chain : Blockchain}
    (hrun : Relation.ReflTransGen (Executes E) (chain.genesisState E) s)
    (hscheme : Hybrid.schemeOf x = some .hybrid) (hver : tx.verifyForBlock E validator = ok ())
    (h : applyVerified E tx height s = ok ((), s')) (hforge : PqUnsigned E tx x) :
    Spared s s' x ↔ ¬ (tx.transactionType = .slash ∧ tx.recipient = x) := by
  have hs := keyed_of_run hrun (chain.genesisState_keyed E)
  have happ := (applyVerified_applied h).2.2
  have hvalid : isValidAddress x = true := by rw [isValidAddress, hscheme]; rfl
  have ho : Ordinary x :=
    ⟨(ne_stakingPool hvalid).symm, (ne_vestingPool hvalid).symm, (ne_ammPool hvalid).symm⟩
  constructor
  · rintro hspared ⟨ht, rfl⟩
    exact happ.bondStep.not_spared ht hspared
  · intro hslash
    have hsigner := happ.signer_ne hs hver hscheme hforge
    obtain ⟨hk, hu⟩ := happ.bondStep.others hsigner hslash
    refine ⟨(happ.keeps ho hsigner).balance, ?_, ?_⟩
    · rw [bondedOf, bondedOf, hk]
      exact UInt64.le_refl _
    · rw [unbondingOf, unbondingOf, hu]

end ChainState

/-! ## A forged slash -/

namespace Sample

/-- The node on which nobody has ever made an ML-DSA signature. -/
def forgerNode : Node := { node [] with verifyMlDsa := fun _ _ _ => false }

/-- The genesis of the hybrid network before the rule on hybrid validators. -/
def hybridBuilt : ChainState :=
  ChainState.genesisForChain defaultChainId (hybridAddress 9) (some (publicKey 9))
    (some (publicKey 9)) 1000000000000000000 []

/-- The genesis of the hybrid network, with its validator seated. -/
def hybridGenesis : ChainState :=
  hybridBuilt.setStaker (hybridAddress 9)
    ⟨genesisValidatorStake, publicKey 9, publicKey 9, pqPublicKey 9⟩

theorem hybridChain_genesisState : hybridChain.genesisState forgerNode = hybridGenesis := by
  have hhybrid : Hybrid.isHybridAddress (hybridAddress 9) = true :=
    decide_eq_true schemeOf_hybridAddress
  have hstaker : hybridBuilt.stakers[hybridAddress 9]? =
      some ⟨genesisValidatorStake, publicKey 9, publicKey 9, ""⟩ := by
    have hmin : min genesisValidatorStake 1000000000000000000 = genesisValidatorStake := by
      decide +kernel
    rw [hybridBuilt, ChainState.genesisForChain_stakers, hmin, OrderedMap.lookup_insert_self,
      Option.getD_some]
  have hseat : ChainState.completesTreasury forgerNode (hybridAddress 9) (publicKey 9)
      (some (pqPublicKey 9)) = true :=
    ChainState.completesTreasury_some.mpr (deriveHybridAddress_keys rfl rfl 9)
  change hybridBuilt.seatGenesisValidatorPqKey forgerNode (hybridAddress 9)
    (some (pqPublicKey 9)) = _
  unfold ChainState.seatGenesisValidatorPqKey
  rw [if_neg (not_not.mpr hhybrid), hstaker]
  dsimp only
  rw [if_pos hseat]
  rfl

/-- A header of the hybrid validator with an ECDSA signature only. -/
def forgedBlock (stateRoot : String) : Block :=
  let merkleRoot := computeMerkleRoot (env []) []
  let payload := Block.hashPayload (env []) 1 merkleRoot stateRoot morning
    (some (hybridAddress 9)) (some (publicKey 9)) "0"
  let hash := digest (utf8 (payload ++ toString (0 : UInt64)))
  { index := 1
    timestamp := morning
    transactions := []
    merkleRoot := merkleRoot
    stateRoot := stateRoot
    previousHash := "0"
    difficulty := 1
    nonce := 0
    hash := hexEncode hash.bytes
    validator := some (hybridAddress 9)
    validatorPublicKey := some (publicKey 9)
    validatorSignature := some (signDigest 9 hash.bytes)
    validatorPqSignature := none
    vrfOutput := none
    vrfProof := none }

/-- The slash made of two of them. -/
def forgedSlash : Transaction :=
  { reward with
    recipient := hybridAddress 9
    amount := 0
    transactionType := .slash
    slashProof := some ⟨forgedBlock "a", forgedBlock "b"⟩ }

theorem forgedSlash_verified : forgedSlash.verifyForBlock forgerNode "" = ok () := by
  decide +kernel

/-- The slash takes a tenth of the validator's stake. -/
theorem forgedSlash_applied :
    ∃ s', (hybridChain.genesisState forgerNode).applyVerified forgerNode forgedSlash 1 =
        ok ((), s') ∧
      s'.bondedOf (hybridAddress 9) <
        (hybridChain.genesisState forgerNode).bondedOf (hybridAddress 9) := by
  rw [hybridChain_genesisState]
  obtain ⟨⟨_, s'⟩, happ, hless⟩ := exists_of_returns
    (p := fun r => decide
      (r.2.bondedOf (hybridAddress 9) < hybridGenesis.bondedOf (hybridAddress 9)))
    (x := hybridGenesis.applyVerified forgerNode forgedSlash 1) (by decide +kernel)
  exact ⟨s', happ, of_decide_eq_true hless⟩

/-- Nobody has signed it, or anything else, with an ML-DSA key. -/
theorem pqUnsigned_forgerNode (tx : Transaction) (account : String) :
    ChainState.PqUnsigned forgerNode tx account := by
  rintro text publicKey pqPublicKey - - ⟨signature, -, hv⟩
  unfold Pq.verifyMessage at hv
  split at hv
  · simp [forgerNode] at hv
  · cases hv

end Sample

namespace ChainState

/-- The forged slash does not spare the validator it names. -/
theorem forger_spares_iff_sample :
    ∃ s', (Sample.hybridChain.genesisState Sample.forgerNode).applyVerified Sample.forgerNode
        Sample.forgedSlash 1 = ok ((), s') ∧
      ¬ Spared (Sample.hybridChain.genesisState Sample.forgerNode) s' (Sample.hybridAddress 9) := by
  obtain ⟨s', happ, -⟩ := Sample.forgedSlash_applied
  refine ⟨s', happ, fun hspared => ?_⟩
  exact (forger_spares_iff .refl Sample.schemeOf_hybridAddress Sample.forgedSlash_verified happ
    (Sample.pqUnsigned_forgerNode _ _)).mp hspared ⟨rfl, rfl⟩

/-- A hybrid genesis validator that signed nothing loses stake to a slash whose headers carry
ECDSA signatures only. -/
theorem forged_slash_takes_stake :
    Hybrid.schemeOf (Sample.hybridAddress 9) = some .hybrid ∧
      (∀ message key signature, Sample.forgerNode.verifyMlDsa message key signature = false) ∧
      PqUnsigned Sample.forgerNode Sample.forgedSlash (Sample.hybridAddress 9) ∧
      Sample.forgedSlash.verifyForBlock Sample.forgerNode "" = ok () ∧
      ∃ s', (Sample.hybridChain.genesisState Sample.forgerNode).applyVerified Sample.forgerNode
          Sample.forgedSlash 1 = ok ((), s') ∧
        s'.bondedOf (Sample.hybridAddress 9) <
          (Sample.hybridChain.genesisState Sample.forgerNode).bondedOf (Sample.hybridAddress 9) :=
  ⟨Sample.schemeOf_hybridAddress, fun _ _ _ => rfl, Sample.pqUnsigned_forgerNode _ _,
    Sample.forgedSlash_verified, Sample.forgedSlash_applied⟩

end ChainState
