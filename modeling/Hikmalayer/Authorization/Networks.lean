/-
# Two networks with the same keys

A signed transaction names its network and is refused on every other one.  A block header does
not: a validator that signs one block per height on each of two networks has made, whenever
the two blocks of a height differ, a proof of equivocation that either network accepts.
-/
import Mathlib.Tactic
import Hikmalayer.Consensus.Equivocation
import Hikmalayer.Ledger.Slashing

open Outcome Exec

namespace ChainState

variable {E : Node} {s s' : ChainState} {tx : Transaction} {height : UInt64}
  {validator key foreign : String} {signed there here : Set Block}

/-! ## Transactions -/

/-- A transaction of another network is refused, block-scoped types aside. -/
theorem foreign_refused (hne : tx.chainId ≠ s.chainId) (hr : tx.transactionType ≠ .reward)
    (hs : tx.transactionType ≠ .slash) : applyVerified E tx height s ≠ ok ((), s') := by
  intro h
  obtain ⟨hscope, -⟩ := applyVerified_applied h
  unfold verifyChainScope at hscope
  rw [if_neg (not_or.mpr ⟨hr, hs⟩), ensure_eq_ok] at hscope
  exact hne hscope

/-! ## Headers -/

/-- The block names the validator and its key. -/
def Names (b : Block) (validator key : String) : Prop :=
  b.validator = some validator ∧ b.validatorPublicKey = some key

/-- The headers that validators signed on one network: each names its validator, is sealed by
the key it names, and no validator has two of one height. -/
structure SignedOn (E : Env) (signed : Set Block) : Prop where
  sealed : ∀ b ∈ signed, ∃ validator key, Names b validator key ∧ b.Sealed E key
  one_per_height : ∀ b ∈ signed, ∀ c ∈ signed, b.validator = c.validator → b.index = c.index →
    b.hash = c.hash

/-- The transaction is a slash whose proof is made of these headers. -/
def SlashFrom (signed : Set Block) (tx : Transaction) : Prop :=
  tx.transactionType = .slash ∧ ∃ proof, tx.slashProof = some proof ∧
    proof.blockA ∈ signed ∧ proof.blockB ∈ signed

/-- Stake, supply and the record of offenses are as before. -/
structure Untouched (s s' : ChainState) : Prop where
  bonds : s'.bonds = s.bonds
  supply : s'.totalSupply = s.totalSupply ∧ s'.burned = s.burned
  offenses : s'.slashedOffenses = s.slashedOffenses

/-- Nothing signed for the network `foreign` has an effect on `s`: no transaction that names it
is applied, and no slash made of headers signed there, alone or together with headers signed
here, touches stake, supply or the record of offenses. -/
structure Separated (E : Node) (s : ChainState) (height : UInt64) (foreign : String)
    (there here : Set Block) : Prop where
  transactions : ∀ tx s', tx.chainId = foreign → tx.transactionType ≠ .reward →
    tx.transactionType ≠ .slash → applyVerified E tx height s ≠ ok ((), s')
  headers : ∀ tx producer s', SlashFrom (there ∪ here) tx →
    tx.verifyForBlock E producer = ok () → applyVerified E tx height s = ok ((), s') →
      Untouched s s'

/-- A validator, still slashable for it, signed different headers of one height on the two
networks. -/
def CrossEvidence (s : ChainState) (height : UInt64) (there here : Set Block) : Prop :=
  ∃ a ∈ there, ∃ b ∈ here, ∃ validator key, Names a validator key ∧ Names b validator key ∧
    a.index = b.index ∧ a.hash ≠ b.hash ∧ Slashable s height a.index validator key

/-- A slash with this proof. -/
def slashWith (validator : String) (proof : SlashProof) : Transaction :=
  { Transaction.newReward "slash" proof.blockA.timestamp validator 0 with
    amount := 0
    transactionType := .slash
    slashProof := some proof }

/-- Two sealed headers of one height and validator make a verified slash. -/
theorem slashWith_verified {producer : String} {a b : Block} (hindex : a.index = b.index)
    (hhash : a.hash ≠ b.hash) (ha : Names a validator key) (hb : Names b validator key)
    (hsa : a.Sealed E key) (hsb : b.Sealed E key) :
    (slashWith validator ⟨a, b⟩).verifyForBlock E producer = ok () :=
  (Transaction.verifyForBlock_slash rfl).mpr ⟨⟨rfl, rfl⟩, _, rfl,
    SlashProof.verify_eq_ok.mpr ⟨hindex, hhash, ha.1, hb.1, key, ha.2, hb.2, hsa, hsb⟩⟩

/-- A signed header is sealed by the key it names. -/
theorem SignedOn.sealed_by (h : SignedOn E signed) {b : Block} (hb : b ∈ signed)
    (hn : Names b validator key) : b.Sealed E key := by
  obtain ⟨_, key', hn', hsealed⟩ := h.sealed b hb
  have hkey : some key' = some key := hn'.2.symm.trans hn.2
  rw [Option.some.injEq] at hkey
  exact hkey ▸ hsealed

/-- An applied slash adds to the record of offenses. -/
theorem slash_touches (ht : tx.transactionType = .slash)
    (h : applyVerified E tx height s = ok ((), s')) : ¬ Untouched s s' := by
  rintro ⟨-, -, hsame⟩
  have hstep := (applyVerified_applied h).2.2.bondStep
  cases hstep with
  | stake ht' => rw [ht] at ht'; cases ht'
  | withdraw ht' => rw [ht] at ht'; cases ht'
  | other ht' => exact absurd ht ht'.2.2
  | @slash r _ _ _ hc _ _ _ _ _ hrecord =>
    have hnew : ¬ r.offenseKey ∈ s.slashedOffenses := by
      simp only [slashChecks, Outcome.bind_eq_ok, okOr_eq_ok, ensure_eq_ok, plain_eq_ok, pure_eq,
        ok.injEq] at hc
      obtain ⟨_, -, _, -, _, -, _, -, _, -, _, hnew, _, -, _, -, _, -, rfl⟩ := hc
      exact hnew
    rw [hrecord] at hsame
    exact hnew (hsame ▸ Std.ExtTreeMap.mem_insert_self)

/-- A slash made of honest headers that is accepted needs one from each network. -/
theorem crossEvidence_of_slash (hE : E.saturation = .clamp) (hs : Sound s)
    (hthere : SignedOn E there) (hhere : SignedOn E here) {producer : String}
    (hfrom : SlashFrom (there ∪ here) tx) (hver : tx.verifyForBlock E producer = ok ())
    (h : applyVerified E tx height s = ok ((), s')) : CrossEvidence s height there here := by
  obtain ⟨ht, proof, hp, ha, hb⟩ := hfrom
  obtain ⟨-, proof', hp', hverify⟩ := (Transaction.verifyForBlock_slash ht).mp hver
  rw [hp, Option.some.injEq] at hp'
  subst hp'
  obtain ⟨hindex, hhash, hva, hvb, key, hka, hkb, -, -⟩ := SlashProof.verify_eq_ok.mp hverify
  have hslashable := (slash_accepted_iff hE hs ht hp).mp ⟨s', h⟩
  rw [hka, Option.getD_some] at hslashable
  have hsame : proof.blockA.validator = proof.blockB.validator := hva.trans hvb.symm
  rcases ha with ha | ha <;> rcases hb with hb | hb
  · exact absurd (hthere.one_per_height _ ha _ hb hsame hindex) hhash
  · exact ⟨_, ha, _, hb, _, key, ⟨hva, hka⟩, ⟨hvb, hkb⟩, hindex, hhash, hslashable⟩
  · exact ⟨_, hb, _, ha, _, key, ⟨hvb, hkb⟩, ⟨hva, hka⟩, hindex.symm, hhash.symm,
      hindex ▸ hslashable⟩
  · exact absurd (hhere.one_per_height _ ha _ hb hsame hindex) hhash

/-- The networks are separated exactly as long as no validator, still slashable for it, has
signed different headers of one height on both. -/
theorem separated_iff (hE : E.saturation = .clamp) (hr : Reachable E s) (hne : foreign ≠ s.chainId)
    (hthere : SignedOn E there) (hhere : SignedOn E here) :
    Separated E s height foreign there here ↔ ¬ CrossEvidence s height there here := by
  have hs := hr.sound hE
  constructor
  · rintro hsep ⟨a, ha, b, hb, validator, key, hna, hnb, hindex, hhash, hslashable⟩
    have hver : (slashWith validator ⟨a, b⟩).verifyForBlock E "" = ok () :=
      slashWith_verified hindex hhash hna hnb (hthere.sealed_by ha hna) (hhere.sealed_by hb hnb)
    have hkey : (slashWith validator ⟨a, b⟩).slashProof = some ⟨a, b⟩ := rfl
    have hslashable' : Slashable s height a.index validator (a.validatorPublicKey.getD "") := by
      rw [hna.2]
      exact hslashable
    obtain ⟨s', happ⟩ := (slash_accepted_iff hE hs rfl hkey).mpr hslashable'
    exact slash_touches rfl happ
      (hsep.headers _ "" s' ⟨rfl, _, rfl, Or.inl ha, Or.inr hb⟩ hver happ)
  · intro hnone
    refine ⟨fun tx s' hchain hreward hslash => ?_, fun tx producer s' hfrom hver h => ?_⟩
    · exact foreign_refused (by rw [hchain]; exact hne) hreward hslash
    · exact absurd (crossEvidence_of_slash hE hs hthere hhere hfrom hver h) hnone

end ChainState

/-! ## A testnet and its mainnet -/

namespace Sample

/-- The genesis of a network on which holder 7 is the validator. -/
def networkGenesis (chainId : String) : ChainState :=
  ChainState.genesisForChain chainId (address 7) (some (publicKey 7)) (some (publicKey 7))
    1000000000000000000 []

/-- The position of the first block after a genesis block with this hash. -/
def firstPlaceAfter (genesisHash : String) : Position := ⟨1, genesisHash, "beacon", morning, 1⟩

/-- The first block of holder 7 on a network. -/
def firstBlockOn (chainId genesisHash : String) : Block :=
  sealBlock [reward] 7 (firstPlaceAfter genesisHash) ["reward"]
    (rootAfter [reward] 7 1 (networkGenesis chainId) ["reward"])

/-- The block is accepted on its network, when it executes. -/
theorem firstBlockOn_accepted {chainId genesisHash : String} {s' : ChainState}
    (hexec : executeBlock (node [reward]) (address 7) (firstBlockOn chainId genesisHash)
      (networkGenesis chainId) = ok s') :
    validateBlockAt (node [reward]) (firstBlockOn chainId genesisHash)
      (firstPlaceAfter genesisHash) (networkGenesis chainId) = ok s' := by
  have hstakers : (networkGenesis chainId).stakers = (genesis 1000000000000000000).stakers := rfl
  have hset : (networkGenesis chainId).validatorSet =
      [⟨address 7, genesisValidatorStake, some (publicKey 7)⟩] := by
    unfold ChainState.validatorSet
    rw [hstakers]
    exact genesis_validatorSet (by decide)
  have htime : ¬ morning.before morning := by decide
  refine validateBlockAt_sealBlock (Or.inl rfl) htime (by decide) hset ?_ hexec
  rw [hstakers, genesis_stakers (by decide), OrderedMap.lookup_insert_self]

theorem firstBlockOn_names (chainId genesisHash : String) :
    ChainState.Names (firstBlockOn chainId genesisHash) (address 7) (publicKey 7) := ⟨rfl, rfl⟩

/-- Signing that one block is honest. -/
theorem firstBlockOn_signed (chainId genesisHash : String) :
    ChainState.SignedOn (node [reward]) {firstBlockOn chainId genesisHash} where
  sealed := by
    rintro b rfl
    exact ⟨_, _, firstBlockOn_names _ _, rfl, _, rfl, verifyBlockSignature_sealBlock⟩
  one_per_height := by
    rintro b rfl c rfl - -
    rfl

/-- The two networks' blocks of height 1 differ. -/
theorem firstBlockOn_hash_ne :
    (firstBlockOn "hikmalayer-testnet" "1").hash ≠ (firstBlockOn defaultChainId "0").hash := by
  decide +kernel

theorem networkGenesis_reachable (chainId : String) :
    ChainState.Reachable (node [reward]) (networkGenesis chainId) :=
  .genesis (.built chainId _ _ _ _ address_valid)

end Sample

namespace ChainState

/-- Past the window the two networks are separated again. -/
theorem separated_iff_sample :
    Separated (Sample.node [Sample.reward]) (Sample.networkGenesis defaultChainId) 22
      "hikmalayer-testnet" {Sample.firstBlockOn "hikmalayer-testnet" "1"}
      {Sample.firstBlockOn defaultChainId "0"} := by
  refine (separated_iff rfl (Sample.networkGenesis_reachable _) (by decide)
    (Sample.firstBlockOn_signed _ _) (Sample.firstBlockOn_signed _ _)).mpr ?_
  rintro ⟨a, rfl, b, rfl, _, _, -, -, -, -, hslashable⟩
  exact absurd hslashable.window (by decide)

/-- Holder 7 validates honestly on a testnet and on its mainnet, one block on each.  A slash
made of the two blocks is verified and applied on the mainnet, and burns stake there. -/
theorem slashed_across_networks :
    (∃ s₁, validateBlockAt (Sample.node [Sample.reward])
        (Sample.firstBlockOn "hikmalayer-testnet" "1") (Sample.firstPlaceAfter "1")
        (Sample.networkGenesis "hikmalayer-testnet") = ok s₁) ∧
      ∃ s₂ s', validateBlockAt (Sample.node [Sample.reward])
          (Sample.firstBlockOn defaultChainId "0") (Sample.firstPlaceAfter "0")
          (Sample.networkGenesis defaultChainId) = ok s₂ ∧
        (slashWith (Sample.address 7) ⟨Sample.firstBlockOn "hikmalayer-testnet" "1",
          Sample.firstBlockOn defaultChainId "0"⟩).verifyForBlock (Sample.node [Sample.reward])
            (Sample.address 7) = ok () ∧
        applyVerified (Sample.node [Sample.reward]) (slashWith (Sample.address 7)
          ⟨Sample.firstBlockOn "hikmalayer-testnet" "1", Sample.firstBlockOn defaultChainId "0"⟩)
            2 s₂ = ok ((), s') ∧
        s'.totalSupply < s₂.totalSupply := by
  obtain ⟨s₁, h₁, -⟩ := exists_of_returns
    (p := fun _ => true)
    (x := executeBlock (Sample.node [Sample.reward]) (Sample.address 7)
      (Sample.firstBlockOn "hikmalayer-testnet" "1")
      (Sample.networkGenesis "hikmalayer-testnet")) (by decide +kernel)
  obtain ⟨s₂, h₂, hslash⟩ := exists_of_returns
    (p := fun s => (applyVerified (Sample.node [Sample.reward]) (slashWith (Sample.address 7)
      ⟨Sample.firstBlockOn "hikmalayer-testnet" "1", Sample.firstBlockOn defaultChainId "0"⟩)
        2 s).returns fun r => decide (r.2.totalSupply < s.totalSupply))
    (x := executeBlock (Sample.node [Sample.reward]) (Sample.address 7)
      (Sample.firstBlockOn defaultChainId "0") (Sample.networkGenesis defaultChainId))
    (by decide +kernel)
  obtain ⟨⟨_, s'⟩, happ, hless⟩ := exists_of_returns hslash
  refine ⟨⟨s₁, Sample.firstBlockOn_accepted h₁⟩, s₂, s', Sample.firstBlockOn_accepted h₂, ?_, happ,
    of_decide_eq_true hless⟩
  exact slashWith_verified rfl Sample.firstBlockOn_hash_ne (Sample.firstBlockOn_names _ _)
    (Sample.firstBlockOn_names _ _)
    ((Sample.firstBlockOn_signed _ _).sealed_by rfl (Sample.firstBlockOn_names _ _))
    ((Sample.firstBlockOn_signed _ _).sealed_by rfl (Sample.firstBlockOn_names _ _))

end ChainState
