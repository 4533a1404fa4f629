/-
# Electable validators and the keys to produce

Blocks are checked against the keys that a stake registers.  Its ECDSA key and, for a hybrid
account, its ML-DSA key have signed the stake; its VRF key is taken as it is sent.  So as long as
stakes register a VRF key, and ML-DSA keys without blanks around them, every staker has
well-formed keys and can seal a block for each slot that it wins; and else it cannot.
-/
import Mathlib.Tactic
import Hikmalayer.Authorization.Encoding
import Hikmalayer.Consensus.Stall

open Outcome Exec OrderedMap

/-! ## The three signature schemes -/

/-- Who holds a key signs with it: an ECDSA point has a signature of every digest, a VRF key a
proof of every input, and an ML-DSA key of which one signature verifies has one of every message.
`vrfKey` tells the byte strings that are sr25519 keys. -/
structure Env.Signers (E : Env) (vrfKey : List UInt8 → Bool) : Prop where
  ecdsa : ∀ bytes point, E.parsePublicKey bytes = some point → ∀ digest : List UInt8,
    digest.length = 32 → ∃ signature, E.verifyEcdsa digest signature point = true
  vrf : ∀ key, vrfKey key = true → key ≠ [] ∧
    ∀ input, ∃ output proof, E.verifyVrf input key output proof = true
  mlDsa : ∀ key message signature, E.verifyMlDsa message key signature = true →
    ∀ message', ∃ signature', signature'.length = Pq.signatureLen ∧
      E.verifyMlDsa message' key signature' = true

/-- The text decodes to a VRF key. -/
def Vrf.IsKey (vrfKey : List UInt8 → Bool) (text : String) : Prop :=
  ∃ key, hexDecode text = some key ∧ vrfKey key = true

/-- A signature verifies under this ML-DSA key. -/
def Pq.Used (E : Env) (text : String) : Prop :=
  ∃ message signature, Pq.verifyMessage E message text signature = true

namespace Env.Signers

variable {E : Env} {vrfKey : List UInt8 → Bool} {text : String}

/-- A canonical ECDSA key signs every block hash. -/
theorem signs (hE : E.Signers vrfKey) (hkey : Pos.isCanonicalPublicKey E text = true)
    (data : String) :
    ∃ signature, Pos.verifyBlockSignature E (sha256Hex E data) text signature = true := by
  unfold Pos.isCanonicalPublicKey at hkey
  split at hkey
  · rename_i hc
    simp only [Pos.canonicalPublicKey, Outcome.bind_eq_ok, okOr_eq_ok] at hc
    obtain ⟨bytes, hb, point, hpoint, -⟩ := hc
    have hlen := (E.sha256 (utf8 data)).length_bytes
    obtain ⟨signature, hv⟩ := hE.ecdsa bytes point hpoint _ hlen
    refine ⟨hexEncode signature, ?_⟩
    unfold Pos.verifyBlockSignature sha256Hex
    rw [hexDecode_hexEncode]
    dsimp only
    unfold Pos.verifyDigest
    rw [if_neg (not_not.mpr hlen), hexDecode_hexEncode, hb]
    dsimp only
    rw [hpoint]
    exact hv
  · cases hkey

/-- A VRF key proves every slot input. -/
theorem proves (hE : E.Signers vrfKey) (hkey : Vrf.IsKey vrfKey text) (input : String) :
    ∃ output proof, Vrf.verify E input text output proof = true := by
  obtain ⟨key, hdecode, hvalid⟩ := hkey
  obtain ⟨output, proof, hv⟩ := (hE.vrf key hvalid).2 (utf8 input)
  refine ⟨hexEncode output, hexEncode proof, ?_⟩
  unfold Vrf.verify
  rw [hdecode, hexDecode_hexEncode, hexDecode_hexEncode]
  exact hv

theorem vrfKey_ne_empty (hE : E.Signers vrfKey) (hkey : Vrf.IsKey vrfKey text) : text ≠ "" := by
  rintro rfl
  obtain ⟨key, hdecode, hvalid⟩ := hkey
  have hnil : hexDecode "" = some [] := by decide
  rw [hnil, Option.some.injEq] at hdecode
  exact (hE.vrf key hvalid).1 hdecode.symm

/-- An ML-DSA key that has signed signs every message. -/
theorem pqSigns (hE : E.Signers vrfKey) (hused : Pq.Used E text) (message : String) :
    ∃ signature, Pq.verifyMessage E message text signature = true := by
  obtain ⟨message₀, signature₀, hv⟩ := hused
  unfold Pq.verifyMessage at hv
  split at hv
  · rename_i key bytes hkey _
    simp only [Bool.and_eq_true, decide_eq_true_eq] at hv
    obtain ⟨⟨hlen, -⟩, hv⟩ := hv
    obtain ⟨signature, hsize, hverify⟩ := hE.mlDsa key _ _ hv (utf8 message)
    have hdecode : Pq.decodeHex (hexEncode signature) "signature" = ok signature := by
      rw [Pq.decodeHex, trim_hexEncode, hexDecode_hexEncode, okOr_some]
    refine ⟨hexEncode signature, ?_⟩
    unfold Pq.verifyMessage
    rw [hkey, hdecode]
    simp only [Bool.and_eq_true, decide_eq_true_eq]
    exact ⟨⟨hlen, hsize⟩, hverify⟩
  · cases hv

end Env.Signers

/-! ## Keys of a staker -/

/-- The keys of a staker in the form in which blocks are checked against them. -/
structure StakeInfo.WellFormedKeys (E : Env) (vrfKey : List UInt8 → Bool) (account : String)
    (info : StakeInfo) : Prop where
  canonical : Pos.isCanonicalPublicKey E info.publicKey = true
  derives : Hybrid.schemeOf account ≠ some .hybrid →
    Pos.deriveAddress E info.publicKey = ok account
  nonempty : info.vrfPublicKey ≠ ""
  vrf : Vrf.IsKey vrfKey info.vrfPublicKey
  pqCanonical : Hybrid.schemeOf account = some .hybrid →
    ∃ key, Pq.canonicalPqPublicKey info.pqPublicKey = ok key

/-- Well-formed keys, of which an ML-DSA key has signed. -/
structure StakeInfo.Ready (E : Env) (vrfKey : List UInt8 → Bool) (account : String)
    (info : StakeInfo) : Prop extends info.WellFormedKeys E vrfKey account where
  pqUsed : info.pqPublicKey ≠ "" → Pq.Used E info.pqPublicKey

/-- A stake registers a VRF key, and an ML-DSA key without blanks around it. -/
def Transaction.RegistersKeys (vrfKey : List UInt8 → Bool) (tx : Transaction) : Prop :=
  (∀ vrf, tx.vrfPublicKey = some vrf → Vrf.IsKey vrfKey vrf) ∧
    ∀ pq, tx.pqPublicKey = some pq → trim pq = pq

namespace StakeInfo

variable {E : Env} {vrfKey : List UInt8 → Bool} {account : String} {info : StakeInfo}

/-- Changing the stake leaves the keys. -/
theorem Ready.withStake (h : info.Ready E vrfKey account) (stake : UInt64) :
    ({ info with stake } : StakeInfo).Ready E vrfKey account :=
  ⟨⟨h.canonical, h.derives, h.nonempty, h.vrf, h.pqCanonical⟩, h.pqUsed⟩

/-- Whoever has its keys ready seals every block that it is named in. -/
theorem Ready.seals (hE : E.Signers vrfKey) (h : info.Ready E vrfKey account) {built : Block}
    (hhash : built.hash = built.calculateHash E) (slot : String) :
    ∃ sealed, Blockchain.SealedFor E info slot built sealed := by
  obtain ⟨signature, hsig⟩ := hE.signs h.canonical (built.preimage E)
  obtain ⟨output, proof, hvrf⟩ := hE.proves h.vrf slot
  rw [← Block.calculateHash, ← hhash] at hsig
  by_cases hclassical : info.pqPublicKey = ""
  · refine ⟨{ built with
      validatorSignature := some signature
      validatorPqSignature := none
      vrfOutput := some output
      vrfProof := some proof }, rfl, ⟨signature, rfl, hsig⟩, ?_, output, proof, rfl, rfl, hvrf⟩
    rw [checkPqSignature, if_pos hclassical]
    exact ensure_pos rfl
  · obtain ⟨pqSignature, hpq⟩ := hE.pqSigns (h.pqUsed hclassical) (Pq.blockDomain ++ built.hash)
    refine ⟨{ built with
      validatorSignature := some signature
      validatorPqSignature := some pqSignature
      vrfOutput := some output
      vrfProof := some proof }, rfl, ⟨signature, rfl, hsig⟩, ?_, output, proof, rfl, rfl, hvrf⟩
    rw [checkPqSignature, if_neg hclassical, okOr_some, ok_bind]
    exact ensure_pos hpq

end StakeInfo

namespace ChainState

variable {E : Node} {s s' : ChainState} {tx : Transaction} {height : UInt64}
  {account validator : String} {vrfKey : List UInt8 → Bool}

/-! ## What a stake registers -/

/-- An applied stake writes the keys that it carries. -/
theorem applyVerified_stake (ht : tx.transactionType = .stake)
    (h : applyVerified E tx height s = ok ((), s')) :
    ∃ (r : StakeRequest) (stake : UInt64) (pq : String), stakeChecks E tx s = ok r ∧
      (Hybrid.schemeOf r.sender = some .hybrid → tx.pqPublicKey = some pq) ∧
      (Hybrid.schemeOf r.sender ≠ some .hybrid → pq = "") ∧
      s'.stakers = s.stakers.insert r.sender ⟨stake, r.publicKey, r.vrfPublicKey, pq⟩ := by
  cases (applyVerified_applied h).2.2 with
  | reward ht' => rw [ht] at ht'; cases ht'
  | slash ht' => rw [ht] at ht'; cases ht'
  | anchor ht' => rw [ht] at ht'; cases ht'
  | @signed signer effects hm hn he =>
    cases hm with
    | @stake r _ hc =>
      obtain ⟨_, _, _, stake, pq, -, -, -, -, ⟨hhybrid, hclassical⟩, hs'⟩ := stakeEffects_ok he
      exact ⟨r, stake, pq, hc, hhybrid, hclassical, by rw [hs']; rfl⟩
    | _ ht' => rw [ht] at ht'; cases ht'

/-- The keys of an applied stake are ready exactly when it registers keys. -/
theorem stake_ready_iff {r : StakeRequest} {stake : UInt64} {pq : String} (hE : E.Signers vrfKey)
    (hver : tx.verifyForBlock E validator = ok ()) (ht : tx.transactionType = .stake)
    (hc : stakeChecks E tx s = ok r)
    (hhybrid : Hybrid.schemeOf r.sender = some .hybrid → tx.pqPublicKey = some pq)
    (hclassical : Hybrid.schemeOf r.sender ≠ some .hybrid → pq = "") :
    (tx.RegistersKeys vrfKey →
      (⟨stake, r.publicKey, r.vrfPublicKey, pq⟩ : StakeInfo).Ready E vrfKey r.sender) ∧
    ((⟨stake, r.publicKey, r.vrfPublicKey, pq⟩ : StakeInfo).WellFormedKeys E vrfKey r.sender →
      tx.RegistersKeys vrfKey) := by
  obtain ⟨text, hsigned⟩ := stakeChecks_signed hver ht hc
  obtain ⟨-, hkey, hvrf, -⟩ := stakeChecks_ok hc
  obtain ⟨key, point, hread, hpoint⟩ := hsigned.canonical
  obtain rfl : r.publicKey = key := Option.some.inj (hkey.symm.trans hread)
  have hcanonical : Pos.isCanonicalPublicKey E r.publicKey = true := by
    rw [Pos.isCanonicalPublicKey, hpoint]
  constructor
  · rintro ⟨hisKey, htrim⟩
    have hvrfKey := hisKey _ hvrf
    cases hsigned with
    | classical hscheme hk hd hsig hnone =>
      obtain rfl : r.publicKey = _ := Option.some.inj (hkey.symm.trans hk)
      have hne : Hybrid.schemeOf r.sender ≠ some .hybrid := by
        rw [hscheme]
        decide
      exact ⟨⟨hcanonical, fun _ => hd, hE.vrfKey_ne_empty hvrfKey, hvrfKey,
        fun hs => absurd hs hne⟩, fun hpq => absurd (hclassical hne) hpq⟩
    | @hybrid key' pq' hscheme hk hpqkey hd hsig hpq =>
      obtain rfl : pq = pq' := Option.some.inj ((hhybrid hscheme).symm.trans hpqkey)
      obtain ⟨signature, -, hverify⟩ := hpq
      refine ⟨⟨hcanonical, fun hs => absurd hscheme hs, hE.vrfKey_ne_empty hvrfKey, hvrfKey,
        fun _ => ?_⟩, fun _ => ⟨_, signature, hverify⟩⟩
      simp only [Hybrid.deriveHybridAddress, Outcome.bind_eq_ok] at hd
      obtain ⟨_, -, bytes, hbytes, -⟩ := hd
      rw [htrim pq hpqkey] at hbytes
      exact ⟨bytes, hbytes⟩
  · intro hkeys
    refine ⟨fun vrf hv => ?_, fun pq' hpq' => ?_⟩
    · rw [hvrf, Option.some.injEq] at hv
      exact hv ▸ hkeys.vrf
    · cases hsigned with
      | classical _ _ _ _ hnone =>
        rw [hnone.1] at hpq'
        cases hpq'
      | hybrid hscheme _ _ _ _ _ =>
        obtain rfl : pq = pq' := Option.some.inj ((hhybrid hscheme).symm.trans hpq')
        obtain ⟨bytes, hbytes⟩ := hkeys.pqCanonical hscheme
        have hspell : pq = hexEncode bytes := (Pq.canonicalPqPublicKey_iff.mp hbytes).2
        rw [hspell]
        exact trim_hexEncode bytes

/-- An applied stake leaves its sender with well-formed keys exactly when it registers keys. -/
theorem stake_wellFormed_iff (hE : E.Signers vrfKey) (hver : tx.verifyForBlock E validator = ok ())
    (ht : tx.transactionType = .stake) (hsender : tx.sender = some account)
    (h : applyVerified E tx height s = ok ((), s')) :
    (∃ info, s'.stakers[account]? = some info ∧ info.WellFormedKeys E vrfKey account) ↔
      tx.RegistersKeys vrfKey := by
  obtain ⟨r, stake, pq, hc, hhybrid, hclassical, hs'⟩ := applyVerified_stake ht h
  obtain rfl : account = r.sender := Option.some.inj (hsender.symm.trans (stakeChecks_ok hc).1)
  have hentry := lookup_insert_self s.stakers r.sender
    ⟨stake, r.publicKey, r.vrfPublicKey, pq⟩
  rw [hs', hentry]
  constructor
  · rintro ⟨info, hi, hkeys⟩
    rw [Option.some.injEq] at hi
    subst hi
    exact (stake_ready_iff hE hver ht hc hhybrid hclassical).2 hkeys
  · intro hregs
    have hready : (⟨stake, r.publicKey, r.vrfPublicKey, pq⟩ : StakeInfo).Ready E vrfKey r.sender :=
      (stake_ready_iff hE hver ht hc hhybrid hclassical).1 hregs
    exact ⟨_, rfl, hready.toWellFormedKeys⟩

/-! ## Runs -/

/-- Every staker has its keys ready. -/
def KeysReady (E : Env) (vrfKey : List UInt8 → Bool) (s : ChainState) : Prop :=
  ∀ (account : String) (info : StakeInfo), s.stakers[account]? = some info →
    info.Ready E vrfKey account

/-- A step of execution whose stakes register keys. -/
inductive ExecutesKeyed (E : Node) (vrfKey : List UInt8 → Bool) : ChainState → ChainState → Prop
  | apply {s s' : ChainState} {tx : Transaction} {height : UInt64} {validator : String}
      (hver : tx.verifyForBlock E validator = ok ())
      (hkeys : tx.transactionType = .stake → tx.RegistersKeys vrfKey)
      (h : applyVerified E tx height s = ok ((), s')) : ExecutesKeyed E vrfKey s s'
  | close {s s' : ChainState} {height : UInt64} {validator : String}
      (h : endBlock E height validator s = ok ((), s')) : ExecutesKeyed E vrfKey s s'

/-- Writing an entry whose keys are ready. -/
theorem KeysReady.insert (h : KeysReady E vrfKey s) {info : StakeInfo}
    (hi : info.Ready E vrfKey account) (hs : s'.stakers = s.stakers.insert account info) :
    KeysReady E vrfKey s' := by
  have hall : All (fun k i => i.Ready E vrfKey k) s.stakers := h
  unfold KeysReady
  rw [hs]
  exact hall.insert hi

/-- An applied transaction keeps the keys ready. -/
theorem KeysReady.apply (hE : E.Signers vrfKey) (hs : KeysReady E vrfKey s)
    (hver : tx.verifyForBlock E validator = ok ())
    (hkeys : tx.transactionType = .stake → tx.RegistersKeys vrfKey)
    (h : applyVerified E tx height s = ok ((), s')) : KeysReady E vrfKey s' := by
  cases (applyVerified_applied h).2.2.bondStep with
  | stake ht _ _ _ _ =>
    obtain ⟨r, stake, pq, hc, hhybrid, hclassical, hs'⟩ := applyVerified_stake ht h
    exact hs.insert ((stake_ready_iff hE hver ht hc hhybrid hclassical).1 (hkeys ht)) hs'
  | withdraw _ _ hi _ _ hb => exact hs.insert ((hs _ _ hi).withStake _) (congrArg Bonds.stakers hb)
  | slash _ _ hi hk => exact hs.insert ((hs _ _ hi).withStake _) hk
  | other _ hb =>
    have hk : s'.stakers = s.stakers := congrArg Bonds.stakers hb
    intro k i hi
    rw [hk] at hi
    exact hs k i hi

theorem ExecutesKeyed.keysReady (hE : E.Signers vrfKey) (h : ExecutesKeyed E vrfKey s s')
    (hs : KeysReady E vrfKey s) : KeysReady E vrfKey s' := by
  cases h with
  | apply hver hkeys h => exact hs.apply hE hver hkeys h
  | close h =>
    intro k i hi
    rcases (endBlock_released h).stakers k with heq | ⟨hnone, -⟩
    · exact hs k i (heq ▸ hi)
    · rw [hnone] at hi
      cases hi

/-- Along a run the keys stay ready. -/
theorem KeysReady.run (hE : E.Signers vrfKey) (hs : KeysReady E vrfKey s)
    (hrun : Relation.ReflTransGen (ExecutesKeyed E vrfKey) s s') : KeysReady E vrfKey s' := by
  induction hrun with
  | refl => exact hs
  | tail _ h ih => exact h.keysReady hE ih

end ChainState

/-! ## Genesis -/

namespace Blockchain

variable {E : Node} {chain : Blockchain} {vrfKey : List UInt8 → Bool}

/-- The keys of the genesis validator are well formed. -/
structure GenesisKeysReady (E : Env) (vrfKey : List UInt8 → Bool) (chain : Blockchain) :
    Prop where
  derives : chain.GenesisKeyDerives E
  vrf : ∃ vrf, chain.genesisValidatorVrfPublicKey = some vrf ∧ Vrf.IsKey vrfKey vrf
  pq : Hybrid.schemeOf chain.genesisTreasury = some .hybrid → ∀ pq,
    chain.genesisValidatorPqPublicKey = some pq → trim pq = pq ∧ Pq.Used E pq

/-- Genesis leaves the keys of its validator ready. -/
theorem genesisState_keysReady (hE : E.Signers vrfKey) (h : chain.GenesisKeysReady E vrfKey) :
    ChainState.KeysReady E vrfKey (chain.genesisState E) := by
  intro account info hi
  obtain ⟨⟨key, hkey, hcanonical, hderives⟩, ⟨vrf, hvrf, hisKey⟩, hpq⟩ := h
  obtain ⟨rfl, rfl, hinfo, hseat⟩ := genesisState_entry hkey hi
  rw [hvrf, Option.getD_some] at hinfo
  subst hinfo
  rcases hseat with ⟨hempty, hclassical⟩ | ⟨hpqkey, hd⟩
  · have hone : Pos.deriveAddress E info.publicKey = ok chain.genesisTreasury := by
      rcases hderives with hk | ⟨pq, hk⟩
      · exact hk
      · exact absurd (Hybrid.schemeOf_of_hybrid hk) hclassical
    exact ⟨⟨hcanonical, fun _ => hone, hE.vrfKey_ne_empty hisKey, hisKey,
      fun hs => absurd hs hclassical⟩, fun hpq => absurd hempty hpq⟩
  · have hscheme := Hybrid.schemeOf_of_hybrid hd
    obtain ⟨htrim, hused⟩ := hpq hscheme _ hpqkey
    simp only [Hybrid.deriveHybridAddress, Outcome.bind_eq_ok] at hd
    obtain ⟨_, -, bytes, hbytes, -⟩ := hd
    rw [htrim] at hbytes
    exact ⟨⟨hcanonical, fun hs => absurd hscheme hs, hE.vrfKey_ne_empty hisKey, hisKey,
      fun _ => ⟨bytes, hbytes⟩⟩, fun _ => hused⟩

/-! ## Slots -/

/-- Where a slot is found, the primary round has a leader. -/
theorem primary_of_findSlot {ε : Type} {E : Env} {randomness account slot : String} {index : UInt64}
    {set : List Staker} {rounds : ℕ}
    (h : (findSlot E randomness index set account (roundList rounds) : Outcome ε _) =
      ok (some slot)) :
    ∃ primary, (Pos.selectStakerWithSeed E (Vrf.slotInput randomness index) set : Outcome ε _) =
      ok (some primary) := by
  obtain ⟨round, -, -, hleads⟩ := findSlot_round h
  obtain ⟨total, hsum⟩ := sum_of_selectStakerWithSeed hleads
  have htotal := checkedSum_stakes.mp hsum
  have hfits : stakeOf set < 2 ^ 64 := by
    rw [← htotal]
    exact Word.toNat_lt total
  have hpos : 0 < stakeOf set := by
    by_contra hnone
    have hzero : total = 0 := Word.toNat_ext (by rw [htotal, UInt64.toNat_zero]; omega)
    unfold Pos.selectStakerWithSeed at hleads
    rw [hsum, plain_some, ok_bind, if_pos hzero] at hleads
    cases hleads
  -- the ticket of the primary round has a holder
  obtain ⟨primary, -, hholder⟩ := Rotation.holder_of_lt (l := candidates set)
    (Nat.mod_lt (Pos.seedToU64 E (Vrf.slotInputAtRound randomness index 0)).toNat hpos)
  have hdrawn : drawnAt E set randomness index 0 = some primary :=
    (drawnAt_eq hfits hpos 0).trans hholder
  refine ⟨primary, ?_⟩
  rw [selectStakerWithSeed_drawn hsum]
  exact congrArg ok hdrawn

end Blockchain

/-! ## Main results -/

namespace ChainState

open Blockchain

/-- In every run from genesis whose stakes register keys, each staker has well-formed keys, and for
every slot that it is picked for, a block that names it can be sealed and passes the checks on its
producer; and a stake leaves well-formed keys exactly when it registers keys. -/
theorem electable_can_produce {E : Node} {chain : Blockchain} {s : ChainState}
    {vrfKey : List UInt8 → Bool} (hE : E.Signers vrfKey)
    (hgenesis : chain.GenesisKeysReady E vrfKey)
    (hrun : Relation.ReflTransGen (ExecutesKeyed E vrfKey) (chain.genesisState E) s) :
    (∀ account info, s.stakers[account]? = some info → 0 < info.stake →
      info.WellFormedKeys E vrfKey account ∧
      ∀ (place : Position) (built : Block) (slot : String),
        built.hash = built.calculateHash E → built.validator = some account →
        built.validatorPublicKey = some info.publicKey →
        findSlot E place.randomness built.index s.validatorSet account
          (roundList (openRounds place.parentTimestamp built.timestamp)) =
            (ok (some slot) : Outcome BlockError _) →
        ∃ sealed, SealedFor E info slot built sealed ∧
          checkProducer E sealed place s = ok account) ∧
    ∀ account tx height validator s', tx.transactionType = .stake → tx.sender = some account →
      tx.verifyForBlock E validator = ok () → applyVerified E tx height s = ok ((), s') →
      ((∃ info, s'.stakers[account]? = some info ∧ info.WellFormedKeys E vrfKey account) ↔
        tx.RegistersKeys vrfKey) := by
  have hready : KeysReady E vrfKey s := (genesisState_keysReady hE hgenesis).run hE hrun
  refine ⟨fun account info hi _ => ?_, fun account tx height validator s' ht hsender hver h =>
    stake_wellFormed_iff hE hver ht hsender h⟩
  have hkeys := hready account info hi
  refine ⟨hkeys.toWellFormedKeys, fun place built slot hhash hvalidator hpublicKey hslot => ?_⟩
  obtain ⟨sealed, hseal⟩ := hkeys.seals hE hhash slot
  obtain ⟨primary, hprimary⟩ := primary_of_findSlot hslot
  exact ⟨sealed, hseal,
    hseal.passes hi hprimary hslot hkeys.nonempty hvalidator hpublicKey⟩

end ChainState

/-! ## A validator without a VRF key -/

namespace Sample

open ChainState Blockchain

/-- The toy VRF keys are the toy points. -/
def isVrfKey (key : List UInt8) : Bool := (parsePublicKey key).isSome

theorem signers (pool : List Transaction) : (env pool).Signers isVrfKey where
  ecdsa _ point _ digest _ := ⟨ecdsa digest point, decide_eq_true rfl⟩
  vrf key hkey := by
    refine ⟨?_, fun input => ⟨vrf input key, vrf input key ++ vrf input key, ?_⟩⟩
    · rintro rfl
      exact absurd hkey (by decide)
    · simp [env]
  mlDsa key _ _ _ message := by
    refine ⟨mlDsa message key, ?_, decide_eq_true rfl⟩
    rw [mlDsa, List.length_append, List.length_append, (digest message).length_bytes,
      (digest key).length_bytes, List.length_replicate]
    rfl

theorem isKey_publicKey (n : UInt8) : Vrf.IsKey isVrfKey (publicKey n) :=
  ⟨keyBytes n, hexDecode_hexEncode _, rfl⟩

theorem classicalChain_keysReady : classicalChain.GenesisKeysReady (node []) isVrfKey where
  derives := classicalChain_key []
  vrf := ⟨publicKey 7, rfl, isKey_publicKey 7⟩
  pq _ := nofun

/-- Holder 8 bonds with a text that is no key. -/
def keylessBond : Transaction :=
  { order 8 .stake stakingPoolAccount 1000000000000 1 none none
      (Transaction.stakeSigningMessage (address 8) 1000000000000 1 "zz") with
    vrfPublicKey := some "zz" }

theorem keylessBond_verified : keylessBond.verifyForBlock (node []) "" = ok () := by
  change keylessBond.verifySenderSignature (env []) (address 8)
    (Transaction.stakeSigningMessage (address 8) 1000000000000 1 "zz") = ok ()
  exact verifySenderSignature_signed schemeOf_eight rfl rfl ⟨rfl, rfl⟩

/-- What a bond of holder 8 leads to, after it has been paid. -/
def bondedRun (bond : Transaction) (p : ChainState → Bool) : Bool :=
  (applyVerified (node []) payment 1 (genesis 1000000000000000000)).returns fun r =>
    (applyVerified (node []) bond 1 r.2).returns fun r' => p r'.2

theorem exists_of_bondedRun {bond : Transaction} {p : ChainState → Bool}
    (h : bondedRun bond p = true) : ∃ s s',
      applyVerified (node []) payment 1 (classicalChain.genesisState (node [])) = ok ((), s) ∧
      applyVerified (node []) bond 1 s = ok ((), s') ∧ p s' = true := by
  obtain ⟨⟨⟨⟩, s⟩, hpay, h⟩ := exists_of_returns h
  obtain ⟨⟨⟨⟩, s'⟩, hbond, hp⟩ := exists_of_returns h
  rw [classicalChain_genesisState]
  exact ⟨s, s', hpay, hbond, hp⟩

end Sample

namespace ChainState

open Blockchain

/-- Holder 8 bonds with a VRF key, and its keys are well formed. -/
theorem electable_can_produce_sample :
    ∃ s info, Relation.ReflTransGen (ExecutesKeyed (Sample.node []) Sample.isVrfKey)
        (Sample.classicalChain.genesisState (Sample.node [])) s ∧
      s.stakers[Sample.address 8]? = some info ∧ 0 < info.stake ∧
      info.WellFormedKeys (Sample.node []) Sample.isVrfKey (Sample.address 8) := by
  have hrun : Sample.bondedRun Sample.bonding (fun s =>
      decide (s.stakers[Sample.address 8]? =
        some ⟨1000000000000, Sample.publicKey 8, Sample.publicKey 8, ""⟩)) = true := by
    decide +kernel
  obtain ⟨s, s', hpay, hbond, hi⟩ := Sample.exists_of_bondedRun hrun
  rw [decide_eq_true_eq] at hi
  have hpaid : Sample.payment.verifyForBlock (Sample.node []) "" = ok () := Sample.payment_verified
  have hbonded : Sample.bonding.verifyForBlock (Sample.node []) "" = ok () :=
    Sample.bonding_verified
  have hkeys : Sample.bonding.RegistersKeys Sample.isVrfKey := by
    refine ⟨fun vrf hvrf => ?_, nofun⟩
    exact Option.some.inj hvrf ▸ Sample.isKey_publicKey 8
  have hkeyed : Relation.ReflTransGen (ExecutesKeyed (Sample.node []) Sample.isVrfKey)
      (Sample.classicalChain.genesisState (Sample.node [])) s' :=
    (Relation.ReflTransGen.single (.apply hpaid nofun hpay)).tail
      (.apply hbonded (fun _ => hkeys) hbond)
  refine ⟨s', _, hkeyed, hi, by decide, ?_⟩
  exact ((electable_can_produce (Sample.signers []) Sample.classicalChain_keysReady hkeyed).1 _ _ hi
    (by decide)).1

/-- A stake with a text that is no key wins slots; every block that names its sender is refused. -/
theorem electable_without_key :
    ∃ s info, Relation.ReflTransGen (Executes (Sample.node []))
        (Sample.classicalChain.genesisState (Sample.node [])) s ∧
      Sample.classicalChain.GenesisKeysReady (Sample.node []) Sample.isVrfKey ∧
      s.stakers[Sample.address 8]? = some info ∧ 0 < info.stake ∧
      hexDecode info.vrfPublicKey = none ∧
      (Pos.selectStakerWithSeed (Sample.node []) (Vrf.slotInput "beacon0" 1) s.validatorSet =
        (ok (some (Sample.address 8)) : Outcome BlockError _)) ∧
      ∀ place block v, block.validator = some (Sample.address 8) →
        checkProducer (Sample.node []) block place s ≠ ok v := by
  have hrun : Sample.bondedRun Sample.keylessBond (fun s =>
      decide (s.stakers[Sample.address 8]? = some ⟨1000000000000, Sample.publicKey 8, "zz", ""⟩) &&
      decide (Word.checkedSum (s.validatorSet.map Staker.stake) = some 2000000000000) &&
      decide (drawn (Sample.node []) s.validatorSet (Vrf.slotInput "beacon0" 1) =
        some (Sample.address 8))) = true := by
    decide +kernel
  obtain ⟨s, s', hpay, hbond, hp⟩ := Sample.exists_of_bondedRun hrun
  simp only [Bool.and_eq_true, decide_eq_true_eq] at hp
  obtain ⟨⟨hi, hsum⟩, hdrawn⟩ := hp
  have hnone : hexDecode "zz" = none := by decide
  have hpaid : Sample.payment.verifyForBlock (Sample.node []) "" = ok () := Sample.payment_verified
  refine ⟨s', _, ?_, Sample.classicalChain_keysReady, hi, by decide, hnone, ?_, ?_⟩
  · exact (Relation.ReflTransGen.single (.apply hpaid hpay)).tail
      (.apply Sample.keylessBond_verified hbond)
  · rw [selectStakerWithSeed_drawn hsum, hdrawn]
  · intro place block v hvalidator h
    obtain ⟨slot, output, proof, hv, -, -, -, hverify⟩ := checkProducer_vrf h
    rw [hvalidator, Option.some.injEq] at hv
    rw [← hv, hi, Option.map_some, Option.getD_some] at hverify
    unfold Vrf.verify at hverify
    rw [hnone] at hverify
    cases hverify

end ChainState
