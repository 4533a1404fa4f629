/-
# Hybrid accounts are never downgraded

Every staker with a hybrid address has registered both keys, and the address derives from
them: genesis seats its validator only so, a stake carries the keys it is signed with, and
nothing else writes a key.  So whatever is accepted in the name of a hybrid account is signed
under both schemes, bare anchors aside, which change nothing.
-/
import Mathlib.Tactic
import Hikmalayer.Authorization.Signers
import Hikmalayer.Ledger.Registry

open Outcome Exec OrderedMap

/-! ## Both signatures -/

/-- A transaction signed for its network under both schemes, by keys the address derives
from. -/
def Transaction.DualSigned (E : Env) (tx : Transaction) (account : String) : Prop :=
  ∃ text publicKey pqPublicKey, tx.signedText = some text ∧
    Hybrid.deriveHybridAddress E publicKey pqPublicKey = ok account ∧
    tx.SignedUnder E text publicKey ∧ tx.PqSignedUnder E text pqPublicKey

/-- A block whose hash is that of its header, signed under both schemes by keys the address
derives from. -/
def Block.DualSigned (E : Env) (block : Block) (account : String) : Prop :=
  block.hash = block.calculateHash E ∧ ∃ publicKey pqPublicKey signature pqSignature,
    Hybrid.deriveHybridAddress E publicKey pqPublicKey = ok account ∧
    block.validatorSignature = some signature ∧
    Pos.verifyBlockSignature E block.hash publicKey signature = true ∧
    block.validatorPqSignature = some pqSignature ∧
    Pq.verifyBlockSignature E block.hash pqPublicKey pqSignature = true

/-- No address derives from an empty post-quantum key. -/
theorem Hybrid.pqPublicKey_ne_empty {E : Env} {publicKey pqPublicKey account : String}
    (h : deriveHybridAddress E publicKey pqPublicKey = ok account) : pqPublicKey ≠ "" := by
  rintro rfl
  simp only [deriveHybridAddress, Outcome.bind_eq_ok] at h
  obtain ⟨_, -, bytes, hpq, -⟩ := h
  have hempty : trim "" = "" := by decide
  simp only [hempty, Pq.canonicalPqPublicKey, Pq.decodeHex, Outcome.bind_eq_ok, okOr_eq_ok,
    ensure_eq_ok] at hpq
  obtain ⟨_, hb, _, hlen, -⟩ := hpq
  have hnil : hexDecode "" = some [] := by decide
  rw [hnil, Option.some.injEq] at hb
  rw [← hb] at hlen
  exact absurd hlen (by decide)

namespace ChainState

variable {E : Node} {s s' : ChainState} {tx : Transaction} {height : UInt64}
  {account validator : String} {scheme : Hybrid.AccountScheme}

/-! ## Registered keys -/

/-- The keys of a staker entry derive to the address, under a scheme. -/
def KeysDerive (E : Env) (account : String) (info : StakeInfo) : Hybrid.AccountScheme → Prop
  | .classical => Pos.deriveAddress E info.publicKey = ok account
  | .hybrid => Hybrid.deriveHybridAddress E info.publicKey info.pqPublicKey = ok account

/-- Changing the stake leaves the keys. -/
theorem KeysDerive.withStake {info : StakeInfo} (h : KeysDerive E account info scheme)
    (stake : UInt64) : KeysDerive E account { info with stake } scheme := by
  cases scheme <;> exact h

/-- Every staker whose address commits to a scheme registered keys its address derives from. -/
def Keyed (E : Env) (scheme : Hybrid.AccountScheme) (s : ChainState) : Prop :=
  ∀ account info, s.stakers[account]? = some info →
    Hybrid.schemeOf account = some scheme → KeysDerive E account info scheme

/-- Writing an entry whose keys derive. -/
theorem Keyed.insert (h : Keyed E scheme s) {info : StakeInfo}
    (hi : Hybrid.schemeOf account = some scheme → KeysDerive E account info scheme)
    (hs : s'.stakers = s.stakers.insert account info) : Keyed E scheme s' := by
  have hall : All (fun k i => Hybrid.schemeOf k = some scheme → KeysDerive E k i scheme) s.stakers := h
  unfold Keyed
  rw [hs]
  exact hall.insert hi

/-- A stake is signed by the keys it registers. -/
theorem stakeChecks_signed {r : StakeRequest} (hver : tx.verifyForBlock E validator = ok ())
    (ht : tx.transactionType = .stake) (hc : stakeChecks E tx s = ok r) :
    ∃ text, Transaction.SignedByKeys E tx text r.sender := by
  have hm : Mutation E tx 0 s r.sender (stakeEffects E tx r) := .stake ht hc
  obtain ⟨-, text, -, hsigned⟩ := hm.authenticated hver
  rw [if_neg (by rw [ht]; exact nofun)] at hsigned
  exact ⟨text, hsigned⟩

/-- The keys a stake registers derive to its sender. -/
theorem stake_keysDerive {r : StakeRequest} {stake : UInt64} {vrfPublicKey pqPublicKey : String}
    (hver : tx.verifyForBlock E validator = ok ()) (ht : tx.transactionType = .stake)
    (hc : stakeChecks E tx s = ok r)
    (hpq : Hybrid.schemeOf r.sender = some .hybrid → tx.pqPublicKey = some pqPublicKey)
    (hscheme : Hybrid.schemeOf r.sender = some scheme) :
    KeysDerive E r.sender ⟨stake, r.publicKey, vrfPublicKey, pqPublicKey⟩ scheme := by
  obtain ⟨text, hsigned⟩ := stakeChecks_signed hver ht hc
  obtain ⟨-, hkey, -⟩ := stakeChecks_ok hc
  cases hsigned with
  | classical hs hk hd =>
    rw [hs, Option.some.injEq] at hscheme
    rw [hkey, Option.some.injEq] at hk
    subst hscheme hk
    exact hd
  | hybrid hs hk hpqk hd =>
    rw [hpq hs, Option.some.injEq] at hpqk
    rw [hs, Option.some.injEq] at hscheme
    rw [hkey, Option.some.injEq] at hk
    subst hscheme hk hpqk
    exact hd

/-- An applied transaction keeps the keys derived. -/
theorem BondStep.keyed (h : BondStep E tx height s s')
    (hver : tx.verifyForBlock E validator = ok ()) (hs : Keyed E scheme s) : Keyed E scheme s' := by
  cases h with
  | stake ht hc _ hpq hb =>
    exact hs.insert (stake_keysDerive hver ht hc hpq) (congrArg Bonds.stakers hb)
  | withdraw ht hc hi _ _ hb =>
    exact hs.insert (fun hscheme => (hs _ _ hi hscheme).withStake _) (congrArg Bonds.stakers hb)
  | slash ht hc hi hk =>
    exact hs.insert (fun hscheme => (hs _ _ hi hscheme).withStake _) hk
  | other _ hb =>
    have hk : s'.stakers = s.stakers := congrArg Bonds.stakers hb
    intro k i hi
    rw [hk] at hi
    exact hs k i hi

/-- Closing a block writes no key. -/
theorem Released.keyed (h : Released height s s') (hs : Keyed E scheme s) : Keyed E scheme s' := by
  intro k i hi hscheme
  rcases h.stakers k with heq | ⟨hnone, -⟩
  · exact hs k i (heq ▸ hi) hscheme
  · rw [hnone] at hi
    cases hi

/-! ## Runs -/

/-- One step of execution: a verified transaction is applied, or a block is closed. -/
inductive Executes (E : Node) : ChainState → ChainState → Prop
  | apply {s s' : ChainState} {tx : Transaction} {height : UInt64} {validator : String}
      (hver : tx.verifyForBlock E validator = ok ())
      (h : applyVerified E tx height s = ok ((), s')) : Executes E s s'
  | close {s s' : ChainState} {height : UInt64} {validator : String}
      (h : endBlock E height validator s = ok ((), s')) : Executes E s s'

theorem Executes.keyed (h : Executes E s s') (hs : Keyed E scheme s) : Keyed E scheme s' := by
  cases h with
  | apply hver h => exact (applyVerified_applied h).2.2.bondStep.keyed hver hs
  | close h => exact (endBlock_released h).keyed hs

/-- Along a run the keys stay derived. -/
theorem keyed_of_run (hrun : Relation.ReflTransGen (Executes E) s s') (hs : Keyed E scheme s) :
    Keyed E scheme s' := by
  induction hrun with
  | refl => exact hs
  | tail _ h ih => exact h.keyed ih

/-- An accepted block is a run. -/
theorem validateBlockAt_executes {block : Block} {place : Position}
    (h : validateBlockAt E block place s = ok s') : Relation.ReflTransGen (Executes E) s s' := by
  obtain ⟨validator, -, -, he⟩ := validateBlockAt_ok h
  obtain ⟨mid, htx, hend, -⟩ := executeBlock_eq_ok.mp he
  have hmid : Relation.ReflTransGen (Executes E) s mid := by
    refine executeTransactions_induct (P := fun t _ => Relation.ReflTransGen (Executes E) s t) ?_
      .refl htx
    intro t t' n txStr tx ht h₁
    obtain ⟨-, hver, ha, -⟩ := executeTransaction_eq_ok.mp h₁
    exact ht.tail (.apply hver ha)
  exact hmid.tail (.close hend)

/-! ## Genesis -/

/-- The treasury is the only staker of a genesis that knows its key. -/
theorem genesisForChain_stakers (chainId treasury publicKey : String)
    (vrfPublicKey : Option String) (supply : UInt64) (allowlist : List String) :
    (genesisForChain chainId treasury (some publicKey) vrfPublicKey supply allowlist).stakers =
      (∅ : BTreeMap StakeInfo).insert treasury
        ⟨min genesisValidatorStake supply, publicKey, vrfPublicKey.getD "", ""⟩ := rfl

theorem completesTreasury_some {E : Env} {treasury publicKey pqPublicKey : String} :
    completesTreasury E treasury publicKey (some pqPublicKey) = true ↔
      Hybrid.deriveHybridAddress E publicKey pqPublicKey = ok treasury :=
  decide_eq_true_iff

/-- Seating leaves a hybrid treasury with derived keys or without an entry. -/
theorem seat_keyed {treasury : String} {pqPublicKey : Option String}
    (hs : ∀ k, k ∈ s.stakers → k = treasury) :
    Keyed E .hybrid (seatGenesisValidatorPqKey E s treasury pqPublicKey) := by
  intro k info hk hscheme
  unfold seatGenesisValidatorPqKey at hk
  split at hk
  · rename_i hclassical
    have hkt := hs k (mem_of_lookup hk)
    subst hkt
    exact absurd (decide_eq_true hscheme) hclassical
  · split at hk
    · rename_i hnone
      have hkt := hs k (mem_of_lookup hk)
      subst hkt
      rw [hnone] at hk
      cases hk
    · rename_i old hold
      split at hk
      · rename_i hseated
        rw [setStaker_stakers, lookup_insert] at hk
        split at hk
        · rename_i ha
          rw [Option.some.injEq] at hk
          subst ha hk
          cases pqPublicKey with
          | none => cases hseated
          | some pq => exact completesTreasury_some.mp hseated
        · rename_i hne
          exact absurd (hs k (mem_of_lookup hk)).symm hne
      · -- the unseated treasury was the only entry
        have herase : (s.unseat treasury old).stakers = s.stakers.erase treasury := by
          unfold unseat
          split <;> rfl
        rw [herase, lookup_erase] at hk
        split at hk
        · cases hk
        · rename_i hne
          exact absurd (hs k (mem_of_lookup hk)).symm hne

end ChainState

/-- Genesis seats no hybrid validator without both keys. -/
theorem Blockchain.genesisState_keyed (E : Node) (chain : Blockchain) :
    ChainState.Keyed E .hybrid (chain.genesisState E) := by
  refine ChainState.seat_keyed fun k hk => ?_
  cases hkey : chain.genesisValidatorPublicKey with
  | none =>
    rw [hkey] at hk
    exact absurd hk Std.ExtTreeMap.not_mem_empty
  | some publicKey =>
    rw [hkey, ChainState.genesisForChain_stakers] at hk
    have hlook := Std.ExtTreeMap.mem_iff_isSome_getElem?.mp hk
    rw [lookup_insert] at hlook
    split at hlook
    · rename_i ha
      exact ha.symm
    · simp at hlook

/-- Genesis carries the network's name and signature policy. -/
theorem Blockchain.genesisState_network (E : Env) (chain : Blockchain) :
    (chain.genesisState E).chainId = chain.genesisChainId ∧
      (chain.genesisState E).requireHybridSignatures = chain.genesisRequireHybridSignatures := by
  have hseat : ∀ (s : ChainState) (treasury : String) (pq : Option String),
      (s.seatGenesisValidatorPqKey E treasury pq).chainId = s.chainId ∧
        (s.seatGenesisValidatorPqKey E treasury pq).requireHybridSignatures =
          s.requireHybridSignatures := by
    intro s treasury pq
    unfold ChainState.seatGenesisValidatorPqKey
    split
    · exact ⟨rfl, rfl⟩
    · split
      · exact ⟨rfl, rfl⟩
      · split
        · exact ⟨rfl, rfl⟩
        · unfold ChainState.unseat
          dsimp only
          split <;> exact ⟨rfl, rfl⟩
  obtain ⟨hchain, hpolicy⟩ := hseat { ChainState.genesisForChain chain.genesisChainId
    chain.genesisTreasury chain.genesisValidatorPublicKey chain.genesisValidatorVrfPublicKey
    chain.genesisSupply chain.genesisValidatorAllowlist with
      requireHybridSignatures := chain.genesisRequireHybridSignatures } chain.genesisTreasury
    chain.genesisValidatorPqPublicKey
  refine ⟨hchain.trans ?_, hpolicy⟩
  unfold ChainState.genesisForChain
  cases chain.genesisValidatorPublicKey <;> rfl

/-! ## The law -/

namespace ChainState

variable {E : Node} {s s' : ChainState} {tx : Transaction} {height : UInt64}
  {account validator : String}

/-- What is applied in the name of a hybrid account is a bare anchor or signed under both
schemes. -/
theorem Applied.dualSigned (h : Applied E tx height s s') (hs : Keyed E .hybrid s)
    (hver : tx.verifyForBlock E validator = ok ()) (hsender : tx.sender = some account)
    (hscheme : Hybrid.schemeOf account = some .hybrid) :
    tx.transactionType = .certificate ∧ tx.credential = none ∧ s' = s ∨
      tx.DualSigned E account := by
  cases h with
  | @signed signer effects hm hn he =>
    right
    have hsame := hm.sender
    rw [hsender, Option.some.injEq] at hsame
    subst hsame
    obtain ⟨-, text, htext, hsigned⟩ := hm.authenticated hver
    by_cases hw : tx.transactionType = .withdraw
    · rw [if_pos hw] at hsigned
      obtain ⟨info, hi, hreg⟩ := hsigned
      have hd := hs account info hi hscheme
      exact ⟨text, _, _, htext, hd, hreg.classical,
        hreg.postQuantum (Hybrid.pqPublicKey_ne_empty hd)⟩
    · rw [if_neg hw] at hsigned
      cases hsigned with
      | classical hclassical =>
        rw [hscheme] at hclassical
        cases hclassical
      | hybrid _ _ _ hd hsig hpq => exact ⟨text, _, _, htext, hd, hsig, hpq⟩
  | reward ht _ =>
    simp only [Transaction.verifyForBlock, ht, Outcome.bind_eq_ok, ensure_eq_ok] at hver
    obtain ⟨_, hnone, -⟩ := hver
    rw [hnone] at hsender
    cases hsender
  | slash ht _ =>
    simp only [Transaction.verifyForBlock, ht, Outcome.bind_eq_ok, ensure_eq_ok] at hver
    obtain ⟨_, ⟨hnone, -⟩, -⟩ := hver
    rw [hnone] at hsender
    cases hsender
  | anchor ht hc he => exact Or.inl ⟨ht, hc, he⟩

/-- An accepted block of a hybrid validator is signed under both schemes. -/
theorem validateBlockAt_dualSigned {block : Block} {place : Position} (hs : Keyed E .hybrid s)
    (hb : block.validator = some account) (hscheme : Hybrid.schemeOf account = some .hybrid)
    (h : validateBlockAt E block place s = ok s') : block.DualSigned E account := by
  simp only [validateBlockAt, Outcome.bind_eq_ok, ensure_eq_ok] at h
  obtain ⟨_, -, producer, hp, _, -, _, hpow, -⟩ := h
  simp only [checkProducer, Outcome.bind_eq_ok, ensure_eq_ok, plain_eq_ok, okOr_eq_ok, pure_eq,
    ok.injEq, hb, Option.some.injEq] at hp
  obtain ⟨_, -, _, -, _, rfl, _, -, _, -, key, -, _, hkey, signature, hsig, _, hv, _, hpq, -⟩ := hp
  obtain ⟨info, hi, rfl⟩ := Option.map_eq_some_iff.mp hkey
  have hd := hs account info hi hscheme
  rw [hi, Option.map_some, Option.getD_some, checkPqSignature,
    if_neg (Hybrid.pqPublicKey_ne_empty hd)] at hpq
  simp only [Outcome.bind_eq_ok, okOr_eq_ok, ensure_eq_ok] at hpq
  obtain ⟨pqSignature, hpqsig, hpqv⟩ := hpq
  simp only [Block.hasValidPow, Bool.and_eq_true, decide_eq_true_eq] at hpow
  exact ⟨by grind, _, _, signature, pqSignature, hd, hsig, hv, hpqsig, hpqv⟩

/-- Hybrid accounts are never downgraded.  In every state a run from genesis reaches, a hybrid
staker has registered keys its address derives from; a transaction that is accepted with a
hybrid sender is signed under both schemes, or is a bare anchor and changes nothing; and an
accepted block of a hybrid validator is signed under both schemes. -/
theorem hybrid_never_downgraded {chain : Blockchain}
    (hrun : Relation.ReflTransGen (Executes E) (chain.genesisState E) s)
    (hscheme : Hybrid.schemeOf account = some .hybrid) :
    (∀ info, s.stakers[account]? = some info →
      Hybrid.deriveHybridAddress E info.publicKey info.pqPublicKey = ok account) ∧
    (∀ tx validator height s', tx.sender = some account → tx.verifyForBlock E validator = ok () →
      applyVerified E tx height s = ok ((), s') →
      tx.transactionType = .certificate ∧ tx.credential = none ∧ s' = s ∨
        tx.DualSigned E account) ∧
    ∀ block place s', block.validator = some account → validateBlockAt E block place s = ok s' →
      block.DualSigned E account := by
  have hs := keyed_of_run hrun (chain.genesisState_keyed E)
  refine ⟨fun info hi => hs account info hi hscheme, fun tx validator height s' hsender hver h => ?_,
    fun block place s' hb h => validateBlockAt_dualSigned hs hb hscheme h⟩
  exact (applyVerified_applied h).2.2.dualSigned hs hver hsender hscheme

end ChainState

/-! ## A hybrid network -/

namespace Sample

/-- The ML-DSA key bytes of holder `n`. -/
def pqKeyBytes (n : UInt8) : List UInt8 := List.replicate Pq.publicKeyLen n

def pqPublicKey (n : UInt8) : String := hexEncode (pqKeyBytes n)

/-- The hybrid address of holder `n`. -/
def hybridAddress (n : UInt8) : String :=
  Hybrid.addressPrefix ++
    hexEncode ((digest (utf8 Hybrid.addressDomain ++ keyBytes n ++ pqKeyBytes n)).bytes.take 20)

/-- The network whose treasury and validator is the hybrid account of holder 9. -/
def hybridChain : Blockchain where
  blocks := []
  difficulty := 1
  finalizedHeight := 0
  genesisTreasury := hybridAddress 9
  genesisValidatorPublicKey := some (publicKey 9)
  genesisValidatorVrfPublicKey := some (publicKey 9)
  genesisSupply := 1000000000000000000
  genesisValidatorAllowlist := []
  genesisChainId := defaultChainId
  genesisRequireHybridSignatures := false
  genesisValidatorPqPublicKey := some (pqPublicKey 9)
  state := .empty
  randomness := ""
  currentDifficulty := 1
  baseHeight := 0
  checkpoint := none

/-- A bare anchor in the name of that account, without any signature. -/
def anchor : Transaction :=
  { reward with
    sender := some (hybridAddress 9)
    recipient := ""
    amount := 0
    transactionType := .certificate
    chainId := defaultChainId }

variable {E : Env} (hsha : E.sha256 = digest) (hparse : E.parsePublicKey = parsePublicKey)

include hsha hparse in
/-- The holder's keys derive to its hybrid address. -/
theorem deriveHybridAddress_keys (n : UInt8) :
    Hybrid.deriveHybridAddress E (publicKey n) (pqPublicKey n) = ok (hybridAddress n) := by
  have hpq : Pq.canonicalPqPublicKey (pqPublicKey n) = ok (pqKeyBytes n) := by
    unfold Pq.canonicalPqPublicKey Pq.decodeHex pqPublicKey
    rw [trim_hexEncode, hexDecode_hexEncode, okOr_some, ok_bind,
      ensure_pos (show (pqKeyBytes n).length = _ from List.length_replicate), ok_bind,
      ensure_pos rfl, ok_bind]
    rfl
  have htrim : trim (publicKey n) = publicKey n := trim_hexEncode _
  have htrimpq : trim (pqPublicKey n) = pqPublicKey n := trim_hexEncode _
  unfold Hybrid.deriveHybridAddress
  rw [htrim, htrimpq, canonicalPublicKey_publicKey hparse, hpq, hsha]
  rfl

/-- The anchor is applied without effect on a network of its name. -/
theorem applyVerified_anchor_of {s : ChainState} (hchain : s.chainId = defaultChainId)
    (hpolicy : s.requireHybridSignatures = false) :
    s.applyVerified (node []) anchor 1 = ok ((), s) := by
  have hscope : s.verifyChainScope anchor = ok () := by
    unfold ChainState.verifyChainScope
    rw [if_neg (by decide)]
    exact ensure_eq_ok.mpr hchain.symm
  have hsigs : s.verifySignaturePolicy anchor = ok () := by
    unfold ChainState.verifySignaturePolicy
    rw [hpolicy]
    rfl
  simp only [ChainState.applyVerified, Exec.bind_eq_ok, read_eq_ok]
  exact ⟨(), _, ⟨hscope, rfl⟩, (), _, ⟨hsigs, rfl⟩, rfl⟩

theorem applyVerified_anchor :
    (hybridChain.genesisState (node [])).applyVerified (node []) anchor 1 =
      ok ((), hybridChain.genesisState (node [])) :=
  applyVerified_anchor_of (hybridChain.genesisState_network (node [])).1
    (hybridChain.genesisState_network (node [])).2

theorem schemeOf_hybridAddress : Hybrid.schemeOf (hybridAddress 9) = some .hybrid := by
  decide +kernel

end Sample

namespace ChainState

/-- The hybrid treasury is seated; an unsigned anchor in its name is accepted and changes
nothing. -/
theorem hybrid_never_downgraded_sample :
    ∃ s', (Sample.hybridChain.genesisState (Sample.node [])).applyVerified (Sample.node [])
        Sample.anchor 1 = ok ((), s') ∧
      (s' = Sample.hybridChain.genesisState (Sample.node []) ∨
        Sample.anchor.DualSigned (Sample.node []) (Sample.hybridAddress 9)) := by
  have hver : Sample.anchor.verifyForBlock (Sample.node []) "" = ok () := by decide +kernel
  refine ⟨_, Sample.applyVerified_anchor, ?_⟩
  rcases (hybrid_never_downgraded .refl Sample.schemeOf_hybridAddress).2.1 _ _ _ _ rfl hver
    Sample.applyVerified_anchor with ⟨-, -, h⟩ | h
  · exact Or.inl h
  · exact Or.inr h

/-- That anchor carries neither signature. -/
theorem unsigned_anchor_accepted :
    Hybrid.schemeOf (Sample.hybridAddress 9) = some .hybrid ∧
      Sample.anchor.sender = some (Sample.hybridAddress 9) ∧
      Sample.anchor.verifyForBlock (Sample.node []) "" = ok () ∧
      (∃ s', (Sample.hybridChain.genesisState (Sample.node [])).applyVerified (Sample.node [])
        Sample.anchor 1 = ok ((), s')) ∧
      ¬ Sample.anchor.DualSigned (Sample.node []) (Sample.hybridAddress 9) := by
  refine ⟨Sample.schemeOf_hybridAddress, rfl, by decide +kernel,
    ⟨_, Sample.applyVerified_anchor⟩, ?_⟩
  rintro ⟨_, _, _, -, -, ⟨_, hsig, -⟩, -⟩
  cases hsig

end ChainState
