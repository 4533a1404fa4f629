/-
# Credentials across nodes

What one node says of a credential at its tip, every node that has the tip among its blocks finds
when it replays up to there: the hash of a block commits to the state after it, and through it to the
registry.  From there on the credential can only be revoked, by its issuer, and an id that was free
can only be taken by a certificate.  A request to issue or to revoke gets into the pool of a node
exactly when the registry over the pool allows it.
-/
import Mathlib.Tactic
import Hikmalayer.Ledger.Credentials
import Hikmalayer.Consensus.Candidates
import Hikmalayer.Consensus.Checkpoint
import Hikmalayer.Model.Credentials
import Hikmalayer.Node.Accounts
import Hikmalayer.Node.Sync

open Outcome Exec OrderedMap

namespace ChainState

open Transaction

variable {E : Node} {s s' : ChainState} {tx : Transaction} {height : UInt64}
  {validator id issuer : String} {record record' : CredentialRecord}

/-! ## Issuing -/

/-- An applied certificate with which an account issues a credential. -/
def IssuesCredential (E : Node) (id issuer : String) (s s' : ChainState) : Prop :=
  ∃ (tx : Transaction) (action : CredentialAction) (height : UInt64) (validator : String),
    tx.verifyForBlock E validator = ok () ∧ applyVerified E tx height s = ok ((), s') ∧
      tx.transactionType = .certificate ∧ tx.credential = some action ∧ action.id = id ∧
        action.revoke = false ∧ Authenticated E s tx issuer

/-- Somewhere between two states of a run an account issues a credential. -/
def IssuedBetween (E : Node) (id issuer : String) (s s' : ChainState) : Prop :=
  ∃ t t', Relation.ReflTransGen (Step E) s t ∧ IssuesCredential E id issuer t t' ∧
    Relation.ReflTransGen (Step E) t' s'

/-- The mutations of a certificate that bring a new record are an issue by their account. -/
theorem certificateEffects_issues {action : CredentialAction} {account : String} {nonce : UInt64}
    (h : certificateEffects tx action account (s.setNonce account nonce) = ok ((), s'))
    (hfree : s.credentials[id]? = none) (hr : s'.credentials[id]? = some record) :
    action.id = id ∧ action.revoke = false ∧ record.issuer = account := by
  have hother : ∀ r : CredentialRecord, action.id ≠ id →
      ((s.setNonce account nonce).setCredential action.id r).credentials[id]? = none := by
    intro r hne
    show (s.credentials.insert action.id r)[id]? = none
    rw [lookup_insert_of_ne _ _ hne]
    exact hfree
  rw [certificateEffects, update_eq_ok] at h
  split at h
  · simp only [Outcome.bind_eq_ok, okOr_eq_ok, ensure_eq_ok, pure_eq, ok.injEq] at h
    obtain ⟨found, hfound, _, -, rfl⟩ := h
    have hne : action.id ≠ id := by
      rintro rfl
      have hsame : s.credentials[action.id]? = some found := hfound
      rw [hfree] at hsame
      cases hsame
    rw [hother _ hne] at hr
    cases hr
  · rename_i hissue
    simp only [Outcome.bind_eq_ok, ensure_eq_ok, pure_eq, ok.injEq] at h
    obtain ⟨_, -, rfl⟩ := h
    by_cases hid : action.id = id
    · subst hid
      have hself : (s.credentials.insert action.id ⟨account, action.subject, action.dataHash,
          tx.timestamp.toRfc3339, false⟩)[action.id]? = some record := hr
      rw [lookup_insert_self, Option.some.injEq] at hself
      exact ⟨rfl, Bool.eq_false_iff.mpr hissue, by rw [← hself]⟩
    · rw [hother _ hid] at hr
      cases hr

/-- A step that brings a record under a free id is an issue by its issuer. -/
theorem Step.issues (h : Step E s s') (hfree : s.credentials[id]? = none)
    (hr : s'.credentials[id]? = some record) : IssuesCredential E id record.issuer s s' := by
  have hchanged : s'.credentials ≠ s.credentials := by
    intro he
    rw [he, hfree] at hr
    cases hr
  cases h with
  | close _ hend => exact absurd (endBlock_credentials hend) hchanged
  | @apply tx height validator _ hver ha =>
    have happlied := (applyVerified_applied ha).2.2
    have ht : tx.transactionType = .certificate := by
      by_contra hother
      exact hchanged ((applyVerified_credentialStep ha).same hother)
    cases happlied with
    | reward ht' => rw [ht] at ht'; cases ht'
    | slash ht' => rw [ht] at ht'; cases ht'
    | anchor _ _ he => exact absurd (by rw [he]) hchanged
    | @signed account effects hm hn he =>
      have hsigner := hm.signer
      cases hm with
      | certificate _ haction _ =>
        obtain ⟨hid, hissue, hissuer⟩ := certificateEffects_issues he hfree hr
        refine ⟨tx, _, height, validator, hver, ha, ht, haction, hid, hissue, ?_⟩
        rw [hissuer]
        exact (applyVerified_applied ha).2.2.authenticated hver hsigner
      | _ ht' => rw [ht] at ht'; cases ht'

/-- What a run brings under an id that was free, its issuer has issued. -/
theorem issued_of_run (hrun : Relation.ReflTransGen (Step E) s s')
    (hfree : s.credentials[id]? = none) :
    s'.credentials[id]? = none ∨ ∃ record, s'.credentials[id]? = some record ∧
      IssuedBetween E id record.issuer s s' := by
  induction hrun with
  | refl => exact .inl hfree
  | @tail t s' hrun hstep ih =>
    rcases ih with hnone | ⟨record, hr, u, u', hbefore, hissues, hafter⟩
    · rcases hlast : s'.credentials[id]? with _ | record
      · exact .inl rfl
      · exact .inr ⟨record, rfl, t, s', hrun, hstep.issues hnone hlast, .refl⟩
    · obtain ⟨record', hr', hcontinues, -⟩ := hstep.credential hr
      refine .inr ⟨record', hr', u, u', hbefore, ?_, hafter.tail hstep⟩
      rw [hcontinues.issuer]
      exact hissues

/-! ## Blocks are steps -/

theorem steps_of_executeTransactions {index : UInt64} {txs : List String} {n n' : ℕ}
    (hv : isValidAddress validator = true)
    (h : executeTransactions E validator index s n txs = ok (s', n')) :
    Relation.ReflTransGen (Step E) s s' := by
  refine executeTransactions_induct (P := fun t _ => Relation.ReflTransGen (Step E) s t) ?_ .refl h
  intro t t' n txStr tx ht hexecute
  obtain ⟨-, hver, ha, -⟩ := executeTransaction_eq_ok.mp hexecute
  exact ht.tail (.apply hv hver ha)

theorem steps_of_validateBlockAt (hs : Sound s) {block : Block} {place : Position}
    (h : validateBlockAt E block place s = ok s') : Relation.ReflTransGen (Step E) s s' := by
  obtain ⟨validator, -, hm, he⟩ := validateBlockAt_ok h
  have hv := hs.addressed.staker validator hm
  obtain ⟨mid, htx, hend, -⟩ := executeBlock_eq_ok.mp he
  exact (steps_of_executeTransactions hv htx).tail (.close hv hend)

end ChainState

namespace Blockchain

open ChainState NodeState

variable {E : Node} {chain : Blockchain} {block tip : Block} {r t : Replay} {k : ℕ}

/-- A replay goes through the states of a run. -/
theorem steps_of_replayFrom (hE : E.saturation = .clamp) {baseHeight : UInt64} {l : List Block} :
    ∀ {r : Replay} {seen : List Block} {previous : Block}, Sane E r →
      replayFrom E baseHeight seen previous r l = ok t →
      Relation.ReflTransGen (ChainState.Step E) r.state t.state := by
  induction l with
  | nil =>
    intro r seen previous _ h
    rw [replayFrom, ok.injEq] at h
    rw [h]
  | cons block rest ih =>
    intro r seen previous hr h
    obtain ⟨mid, hstep, hrest⟩ := (replayFrom_cons rest).mp h
    obtain ⟨_, -, hvalid, -⟩ := advance_eq_ok.mp hstep
    exact (steps_of_validateBlockAt (hr.reachable.sound hE) hvalid).trans
      (ih (hr.advance hE hstep) hrest)

/-! ## One hash, one state -/

/-- What two blocks and the states after them are hashed from. -/
def provenTexts (E : Env) (b c : Block) (s t : ChainState) : Set (List UInt8) :=
  {utf8 (b.preimage E), utf8 (c.preimage E), utf8 (E.stateJson s), utf8 (E.stateJson t)}

/-- Blocks of one hash stand at one height, and one state is after them. -/
theorem Stands.committed {E : Env} {b c : Block} {h h' : ℕ} (hb : Stands E h b r)
    (hc : Stands E h' c t) (hhash : b.hash = c.hash)
    (hfree : E.CollisionFree (provenTexts E b c r.state t.state))
    (hjson : Set.InjOn E.stateJson {r.state, t.state}) :
    h = h' ∧ b.stateRoot = c.stateRoot ∧ r.state = t.state := by
  have htext : b.preimage E = c.preimage E :=
    Block.preimage_eq_of_hash hfree (by simp [provenTexts]) (by simp [provenTexts])
      (Block.hash_of_hasValidPow hb.pow) (Block.hash_of_hasValidPow hc.pow) hhash
  obtain ⟨hindex, -, hroots, -⟩ := Block.header_determined (Block.isDigestText_merkleRoot hb.merkle)
    (by rw [hb.stateRoot]; exact isDigestText_sha256Hex E _)
    (Block.isDigestText_merkleRoot hc.merkle)
    (by rw [hc.stateRoot]; exact isDigestText_sha256Hex E _) htext
  refine ⟨by rw [← hb.index, ← hc.index, hindex], hroots, ?_⟩
  rw [hb.stateRoot, hc.stateRoot] at hroots
  refine hjson (by simp) (by simp) (sha256Hex_inj hfree ?_ ?_ hroots)
  · simp [provenTexts]
  · simp [provenTexts]

/-- The tip of a valid chain stands at its end, with what is derived from the chain. -/
theorem Derived.tip_stands (h : Derived E chain) (hfits : chain.blocks.length < 2 ^ 64)
    (htip : chain.blocks.getLast? = some tip) :
    Stands E (chain.baseHeight.toNat + (chain.blocks.length - 1)) tip
      ⟨chain.state, chain.randomness, chain.currentDifficulty⟩ := by
  have hpos : 0 < chain.blocks.length := List.length_pos_iff.mpr h.blocks_ne_nil
  obtain ⟨mid, pre, anchor, htake, -, -, hstands, hrest⟩ :=
    h.cut hfits (show chain.blocks.length - 1 < chain.blocks.length by omega)
  rw [Nat.sub_add_cancel hpos, List.take_length] at htake
  rw [Nat.sub_add_cancel hpos, List.drop_length, replayFrom, ok.injEq] at hrest
  rw [htake, List.getLast?_concat, Option.some.injEq] at htip
  rw [← htip, ← hrest]
  exact hstands

/-- A chain that has the tip of another one among its blocks replays to the state of the other there,
and its own state is reached from that by a run. -/
theorem Derived.replays_to_tip {a b : Blockchain} (hE : E.saturation = .clamp) (ha : Derived E a)
    (hb : Derived E b) (hseed : SaneSeed E b) (hfits : a.blocks.length < 2 ^ 64)
    (hfits' : b.blocks.length < 2 ^ 64) (htip : a.blocks.getLast? = some tip)
    (hblock : b.blocks[k]? = some block) (hhash : block.hash = tip.hash)
    (hfree : ∀ mid, validateFull E (b.upTo k) = ok mid →
      E.CollisionFree (provenTexts E tip block a.state mid.state))
    (hjson : ∀ mid, validateFull E (b.upTo k) = ok mid →
      Set.InjOn E.stateJson {a.state, mid.state}) :
    ∃ mid, validateFull E (b.upTo k) = ok mid ∧
      block.index.toNat = a.baseHeight.toNat + (a.blocks.length - 1) ∧
      block.stateRoot = a.state.stateRoot E ∧ mid.state = a.state ∧
      Relation.ReflTransGen (ChainState.Step E) a.state b.state := by
  obtain ⟨hk, -⟩ := List.getElem?_eq_some_iff.mp hblock
  obtain ⟨mid, pre, anchor, htake, hpre, hfull, hstands, hrest⟩ := hb.cut hfits' hk
  have hanchor : anchor = block := by
    have hlast : (b.blocks.take (k + 1))[k]? = some anchor := by
      rw [htake, ← hpre, List.getElem?_concat_length]
    rw [List.getElem?_take_of_lt (Nat.lt_succ_self k), hblock, Option.some.injEq] at hlast
    exact hlast.symm
  rw [hanchor] at hstands hrest
  have htipStands := ha.tip_stands hfits htip
  obtain ⟨hheight, hroot, hstate⟩ := htipStands.committed hstands hhash.symm (hfree mid hfull)
    (hjson mid hfull)
  have hstate : a.state = mid.state := hstate
  have hmid : Sane E mid := by
    obtain ⟨root, rest, seed, hblocks, -, -, hstart, hreplay⟩ := validateFull_eq_ok.mp hfull
    refine (hseed root seed ?_ hstart).replayFrom hE hreplay
    have hhead := congrArg List.head? hblocks
    rw [List.head?_take, if_neg (Nat.succ_ne_zero k)] at hhead
    exact hhead
  refine ⟨mid, hfull, hstands.index.trans hheight.symm, ?_, hstate.symm, ?_⟩
  · rw [← hroot]
    exact htipStands.stateRoot
  · rw [hstate]
    exact steps_of_replayFrom hE hmid hrest

/-- A chain that stands where another one once stood is the replay of the other up to there. -/
theorem Derived.upTo {chain' : Blockchain} (h : Derived E chain')
    (hblocks : chain'.blocks = chain.blocks.take (k + 1)) (hnetwork : chain'.network = chain.network) :
    validateFull E (chain.upTo k) =
      ok ⟨chain'.state, chain'.randomness, chain'.currentDifficulty⟩ := by
  obtain ⟨anchor, rest, seed, hsplit, hvalid, hindex, hseed, hreplay⟩ := validateFull_eq_ok.mp h
  have hbase := baseHeight_of_network hnetwork
  have hseed' : replaySeed E chain anchor = ok seed := by
    have hsame : replaySeed E chain'.network anchor = ok seed := hseed
    rw [hnetwork] at hsame
    exact hsame
  rw [hbase] at hindex hreplay
  rw [hblocks] at hsplit
  exact validateFull_eq_ok.mpr ⟨anchor, rest, seed, hsplit, hvalid, hindex, hseed', hreplay⟩

/-! ## Proofs -/

theorem getCredentialProof_eq_ok {ε : Type} {E : Env} {id : String} {proof : CredentialProofResponse} :
    (chain.getCredentialProof E id : Outcome ε _) = ok proof ↔
      ∃ height, (chain.tipIndex : Outcome ε _) = ok height ∧
        ⟨if chain.state.credentials[id]?.isSome then "success" else "error",
          chain.state.credentials[id]?, height, chain.state.stateRoot E, chain.latestHash⟩ =
            proof := by
  simp only [getCredentialProof, Outcome.bind_eq_ok, pure_eq, ok.injEq]

/-- A chain with room hands out a proof. -/
theorem exists_proof {ε : Type} (E : Env) (id : String) (hne : chain.blocks ≠ [])
    (hroom : chain.baseHeight.toNat + chain.blocks.length < 2 ^ 64) :
    ∃ proof, (chain.getCredentialProof E id : Outcome ε _) = ok proof ∧
      proof.credential = chain.state.credentials[id]? ∧ proof.blockHash = chain.latestHash :=
  ⟨_, getCredentialProof_eq_ok.mpr ⟨_, tipIndex_of_lt hne hroom, rfl⟩, rfl, rfl⟩

/-- A node that has the block of another node's credential proof finds, replaying up to that block,
the height, the root and the record of the proof.  Since then a credential has at most been revoked
by its issuer, and a free id has at most been taken by a certificate of the new issuer; once the
proof shows the credential revoked, the node says so. -/
theorem credential_proof_portable {start a start' b : NodeState} {id : String}
    {proof proof' : CredentialProofResponse} (hE : E.saturation = .clamp)
    (hjoined : Joined E start.chain) (hrun : Run E (fun _ _ => True) start a)
    (hjoined' : Joined E start'.chain) (hrun' : Run E (fun _ _ => True) start' b)
    (hproof : (a.chain.getCredentialProof E.toEnv id : Outcome String _) = ok proof)
    (hproof' : (b.chain.getCredentialProof E.toEnv id : Outcome String _) = ok proof')
    (htip : a.chain.blocks.getLast? = some tip) (hblock : b.chain.blocks[k]? = some block)
    (hhash : block.hash = proof.blockHash)
    (hfree : ∀ mid, validateFull E (b.chain.upTo k) = ok mid →
      E.CollisionFree (provenTexts E tip block a.chain.state mid.state))
    (hjson : ∀ mid, validateFull E (b.chain.upTo k) = ok mid →
      Set.InjOn E.stateJson {a.chain.state, mid.state}) :
    (block.index = proof.height ∧ block.stateRoot = proof.stateRoot ∧
      ∃ mid, validateFull E (b.chain.upTo k) = ok mid ∧ mid.state.stateRoot E = proof.stateRoot ∧
        mid.state.credentials[id]? = proof.credential) ∧
    (∀ record, proof.credential = some record →
      ∃ record', proof'.credential = some record' ∧ ChainState.Continues record record' ∧
        (record'.revoked ≠ record.revoked →
          RevokedBetween E id record.issuer a.chain.state b.chain.state) ∧
        (record.revoked = true → b.chain.getCredential id =
          ⟨"success", "Credential " ++ id ++ " is REVOKED", some record'⟩)) ∧
    (proof.credential = none → proof'.credential = none ∨
      ∃ record', proof'.credential = some record' ∧
        IssuedBetween E id record'.issuer a.chain.state b.chain.state) := by
  have hgrounded := hrun.grounded hjoined.rooted.derived
  have hgrounded' := hrun'.grounded hjoined'.rooted.derived
  have hseed := (hjoined'.saneSeed hE).grounded hjoined'.rooted.derived hgrounded'
  have hfits := a.fits
  have hfits' := b.fits
  obtain ⟨height, hheight, rfl⟩ := getCredentialProof_eq_ok.mp hproof
  obtain ⟨height', -, rfl⟩ := getCredentialProof_eq_ok.mp hproof'
  rw [latestHash, htip] at hhash
  obtain ⟨mid, hfull, hindex, hroot, hstate, hsteps⟩ := Derived.replays_to_tip hE
    hgrounded.derived hgrounded'.derived hseed (by omega) (by omega) htip hblock hhash hfree hjson
  refine ⟨⟨?_, hroot, mid, hfull, by rw [hstate], by rw [hstate]⟩, fun record hr => ?_,
    fun hnone => issued_of_run hsteps hnone⟩
  · have hpos : 0 < a.chain.blocks.length := List.length_pos_iff.mpr hgrounded.derived.blocks_ne_nil
    refine Word.toNat_ext ?_
    rw [hindex, tipIndex_eq_ok hheight, tipHeight, Word.toNat_ofNat_of_lt (by omega)]
    omega
  · obtain ⟨record', hr', hcontinues, hmark⟩ := credential_of_run hsteps hr
    refine ⟨record', hr', hcontinues, hmark, fun hrevoked => ?_⟩
    rw [getCredential, hr']
    show (⟨"success", if record'.revoked then _ else _, some record'⟩ : CredentialResponse) = _
    rw [if_pos (hcontinues.revoked hrevoked)]

end Blockchain

/-! ## A credential on two toy nodes -/

namespace Sample

open Blockchain NodeState

/-- Holder 7 issues a credential. -/
def issuance : Transaction := { ChainState.certificate ChainState.diploma 1 with id := "issuance" }

/-- Holder 7 revokes it. -/
def revocation : Transaction :=
  { ChainState.certificate { ChainState.diploma with revoke := true } 2 with id := "revocation" }

/-- The texts that the two nodes read. -/
def registry : List Transaction := [issuance, revocation, reward]

/-- A certificate of holder 7 verifies on every toy node, under every id. -/
theorem verifyForBlock_filed {pool : List Transaction} {action : CredentialAction} {nonce : UInt64}
    {validator id : String} (hid : blank action.id = false) (hlen : byteLen action.id ≤ 128)
    (hsubject : byteLen action.subject ≤ 256) (hhash : byteLen action.dataHash ≤ 128) :
    ({ ChainState.certificate action nonce with id := id } : Transaction).verifyForBlock (env pool)
      validator = ok () := by
  simp only [Transaction.verifyForBlock, ChainState.certificate, order, Outcome.bind_eq_ok,
    ensure_eq_ok, okOr_some, ok.injEq]
  refine ⟨(), trivial, _, rfl, (), ?_, (), ?_, ?_⟩
  · rintro (h | h)
    · rw [hid] at h
      cases h
    · omega
  · omega
  · exact verifySenderSignature_signed schemeOf_seven rfl rfl ⟨rfl, rfl⟩

theorem registry_admitted : ∀ tx ∈ registry, Admitted registry (address 7) tx := by
  intro tx htx
  refine ⟨parseTx_of_mem (by decide) htx, ?_⟩
  simp only [registry, List.mem_cons, List.not_mem_nil, or_false] at htx
  rcases htx with rfl | rfl | rfl
  · exact verifyForBlock_filed (by decide) (by decide) (by decide) (by decide)
  · exact verifyForBlock_filed (by decide) (by decide) (by decide) (by decide)
  · exact verifyForBlock_reward rfl rfl rfl

/-- The block that holder 7 seals on a chain whose tip is dated `parent`. -/
def certifying (chain : Blockchain) (parent : DateTime) (transactions : List String) : Block :=
  sealWith registry 7 7 morning 0 (nextPlace chain parent) transactions
    (rootAfter registry 7 (UInt64.ofNat chain.blocks.length) chain.state transactions)

/-- The chain with that block, and the state after it. -/
def certified (chain : Blockchain) (parent : DateTime) (transactions : List String)
    (s : ChainState) : Blockchain :=
  chain.extended (certifying chain parent transactions) ⟨s, Vrf.nextRandomness (env registry)
    chain.randomness (hexEncode (vrfOutput 7 (Vrf.slotInputAtRound chain.randomness
      (UInt64.ofNat chain.blocks.length) 0))), chain.currentDifficulty⟩

theorem certified_fields {chain : Blockchain} {parent : DateTime} {transactions : List String}
    {s : ChainState} : (certified chain parent transactions s).network = chain.network ∧
      (certified chain parent transactions s).blocks =
        chain.blocks ++ [certifying chain parent transactions] ∧
      (certified chain parent transactions s).state = s := ⟨rfl, rfl, rfl⟩

/-- The block of the issue, on the toy genesis. -/
def issueBlock : Block :=
  certifying (root registry 1000000000000000) (genesisBlock registry 1000000000000000).timestamp
    ["issuance", "reward"]

/-- The chain after it. -/
def issuedChain (s : ChainState) : Blockchain :=
  certified (root registry 1000000000000000) (genesisBlock registry 1000000000000000).timestamp
    ["issuance", "reward"] s

/-- The issue and the revocation execute, and keep the one validator; the header of the first block
and the state after it have different digests. -/
theorem registry_executes :
    ((executed registry 7 1 (genesis 1000000000000000) [issuance, reward]).any fun s =>
      decide (s.validatorSet = [⟨address 7, genesisValidatorStake, some (publicKey 7)⟩]) &&
      decide (s.stakers[address 7]? =
        some ⟨genesisValidatorStake, publicKey 7, publicKey 7, ""⟩) &&
      decide (s.credentials["diploma"]?.map CredentialRecord.revoked = some false) &&
      decide ((digest (utf8 (issueBlock.preimage (env registry)))).bytes ≠
        (digest (utf8 (stateText s))).bytes) &&
      (executed registry 7 2 s [revocation, reward]).any fun s' =>
        decide (s'.credentials["diploma"]?.map CredentialRecord.revoked = some true)) = true := by
  decide +kernel

/-- What holder 7 seals while it is the one validator is accepted, when it executes. -/
theorem accept_certified {chain : Blockchain} {parent : Block} {txs : List Transaction}
    {s : ChainState} (hbase : chain.baseHeight = 0) (hlen : chain.blocks.length < 9)
    (hparent : chain.blocks.getLast? = some parent) (hdiff : chain.currentDifficulty = 1)
    (htime : ¬ morning.before parent.timestamp)
    (hset : chain.state.validatorSet = [⟨address 7, genesisValidatorStake, some (publicKey 7)⟩])
    (hreg : chain.state.stakers[address 7]? =
      some ⟨genesisValidatorStake, publicKey 7, publicKey 7, ""⟩)
    (htxs : ∀ tx ∈ txs, tx ∈ registry)
    (hs : executed registry 7 (UInt64.ofNat chain.blocks.length) chain.state txs = some s) :
    accept (node registry) morning chain
      (certifying chain parent.timestamp (txs.map Transaction.id)) =
        ok (certified chain parent.timestamp (txs.map Transaction.id) s) := by
  have hexecute : executeBlock (node registry) (address 7) (certifying chain parent.timestamp
      (txs.map Transaction.id)) chain.state = ok s := by
    refine executeBlock_of_executed (fun tx htx => registry_admitted tx (htxs tx htx)) ?_ rfl rfl hs
    show chain.baseHeight + UInt64.ofNat chain.blocks.length = _
    rw [hbase, UInt64.zero_add]
  exact accept_sole hbase hlen hparent (Or.inl hdiff) (by decide) htime hreg (by decide) hset
    hexecute

/-- A node at the toy genesis. -/
def clerk : NodeState := ⟨root registry 1000000000000000, ⟨10, 1⟩, [1], by decide⟩

theorem clerk_chain : clerk.chain = root registry 1000000000000000 := rfl

theorem clerk_joined : Joined (node registry) clerk.chain :=
  .genesis address_valid newWithGenesisOnChain_root

/-- A node takes blocks that its chain accepts, and only its final height moves besides. -/
theorem exists_extended {s : NodeState} {arrivals : List (DateTime × Block)} {mid : Blockchain}
    (hne : arrivals ≠ []) (hdepth : (1 : UInt64) ∈ s.held)
    (hall : acceptAll (node registry) s.chain arrivals = ok mid) (hmid : mid.blocks ≠ [])
    (hroom : mid.baseHeight.toNat + mid.blocks.length < 2 ^ 63) :
    ∃ s' finalized, Run (node registry) (fun _ _ => True) s s' ∧
      s'.chain = { mid with finalizedHeight := finalized } := by
  obtain ⟨finalized, hfinal⟩ := @Sync.applyFinality_moves mid String _
    (tipIndex_of_lt hmid (by omega)) 1
  exact ⟨_, finalized, .tail .refl trivial (.extend hne hdepth hall hfinal (by
    show mid.blocks.length < 2 ^ 63
    omega)), rfl⟩

theorem issuedChain_blocks (s : ChainState) : (issuedChain s).blocks =
    [genesisBlock registry 1000000000000000, issueBlock] := rfl

/-- The chain after the revocation. -/
def revokedChain (s s' : ChainState) : Blockchain :=
  certified (issuedChain s) issueBlock.timestamp ["revocation", "reward"] s'

theorem accept_issue {s : ChainState}
    (hs : executed registry 7 1 (genesis 1000000000000000) [issuance, reward] = some s) :
    accept (node registry) morning (root registry 1000000000000000) issueBlock =
      ok (issuedChain s) := by
  have halone : Alone (root registry 1000000000000000) := Alone.root (by decide)
  exact @accept_certified (root registry 1000000000000000) (genesisBlock registry 1000000000000000)
    [issuance, reward] s rfl (by decide) rfl rfl (halone.timely _ (List.mem_singleton_self _))
    halone.validators halone.registered (by simp [registry]) hs

theorem accept_revocation {s s' : ChainState}
    (hset : s.validatorSet = [⟨address 7, genesisValidatorStake, some (publicKey 7)⟩])
    (hreg : s.stakers[address 7]? = some ⟨genesisValidatorStake, publicKey 7, publicKey 7, ""⟩)
    (hs' : executed registry 7 2 s [revocation, reward] = some s') :
    accept (node registry) morning (issuedChain s) (certifying (issuedChain s)
      issueBlock.timestamp ["revocation", "reward"]) = ok (revokedChain s s') := by
  have hlen : (issuedChain s).blocks.length < 9 := by
    rw [issuedChain_blocks]
    decide
  have htime : ¬ morning.before issueBlock.timestamp := by
    show ¬ morning.before morning
    decide
  exact @accept_certified (issuedChain s) issueBlock [revocation, reward] s' rfl hlen rfl rfl htime
    hset hreg (by simp [registry]) hs'

/-- On the way to the revocation, a replay has the state after the issue. -/
theorem state_of_upTo {s s' : ChainState} {chain : Blockchain} {mid : Replay}
    (haccept : accept (node registry) morning (root registry 1000000000000000) issueBlock =
      ok (issuedChain s)) (hblocks : chain.blocks = (revokedChain s s').blocks)
    (hnetwork : chain.network = (revokedChain s s').network)
    (h : validateFull (node registry) (chain.upTo 1) = ok mid) : mid.state = s := by
  have hroom : (root registry 1000000000000000).blocks.length + 1 < 2 ^ 64 := by
    show 1 + 1 < 2 ^ 64
    norm_num
  have hderived : Derived (node registry) (issuedChain s) :=
    clerk_joined.rooted.derived.accept hroom haccept
  have hkept : (issuedChain s).blocks = chain.blocks.take (1 + 1) := by
    rw [hblocks, revokedChain, certified_fields.2.1, issuedChain_blocks]
    rfl
  have hsame : (issuedChain s).network = chain.network := by
    rw [hnetwork, revokedChain, certified_fields.1]
  rw [hderived.upTo hkept hsame, ok.injEq] at h
  rw [← h]
  rw [issuedChain, certified_fields.2.2]

/-- Two nodes: one has the issue, the other one the revocation as well. -/
theorem exists_registries : ∃ (a b : NodeState) (s : ChainState),
    (Run (node registry) (fun _ _ => True) clerk a ∧ a.chain.blocks =
      [genesisBlock registry 1000000000000000, issueBlock] ∧ a.chain.state = s) ∧
    (Run (node registry) (fun _ _ => True) clerk b ∧ (∃ block, b.chain.blocks =
        [genesisBlock registry 1000000000000000, issueBlock, block]) ∧
      ∀ mid, validateFull (node registry) (b.chain.upTo 1) = ok mid → mid.state = s) ∧
    (digest (utf8 (issueBlock.preimage (env registry)))).bytes ≠ (digest (utf8 (stateText s))).bytes ∧
    s.credentials["diploma"]?.map CredentialRecord.revoked = some false ∧
    b.chain.state.credentials["diploma"]?.map CredentialRecord.revoked = some true := by
  obtain ⟨s, hs, hrest⟩ := (Option.any_eq_true _ _).mp registry_executes
  simp only [Bool.and_eq_true, decide_eq_true_eq] at hrest
  obtain ⟨⟨⟨⟨hset, hreg⟩, hissued⟩, hdigests⟩, hlast⟩ := hrest
  obtain ⟨s', hs', hrevoked⟩ := (Option.any_eq_true _ _).mp hlast
  rw [decide_eq_true_eq] at hrevoked
  have hfirst := accept_issue hs
  have hsecond := accept_revocation hset hreg hs'
  obtain ⟨block, hblocks⟩ : ∃ block, (revokedChain s s').blocks =
      [genesisBlock registry 1000000000000000, issueBlock, block] :=
    ⟨_, by rw [revokedChain, certified_fields.2.1, issuedChain_blocks]; rfl⟩
  have hfinal : ∀ (chain : Blockchain) (finalized : UInt64),
      { chain with finalizedHeight := finalized }.network = chain.network := fun _ _ => rfl
  have hbase : (issuedChain s).baseHeight = 0 := baseHeight_of_network certified_fields.1
  have hbase' : (revokedChain s s').baseHeight = 0 :=
    (baseHeight_of_network certified_fields.1).trans hbase
  have hissue : acceptAll (node registry) clerk.chain [(morning, issueBlock)] =
      ok (issuedChain s) := by
    rw [acceptAll, clerk_chain, hfirst, ok_bind, acceptAll]
  have hrevoke : acceptAll (node registry) clerk.chain [(morning, issueBlock), (morning,
      certifying (issuedChain s) issueBlock.timestamp ["revocation", "reward"])] =
        ok (revokedChain s s') := by
    rw [acceptAll, clerk_chain, hfirst, ok_bind, acceptAll, hsecond, ok_bind, acceptAll]
  obtain ⟨a, fa, hruna, ha⟩ := exists_extended (by simp) (by decide) hissue
    (by rw [issuedChain_blocks]; simp) (by rw [hbase, issuedChain_blocks]; decide)
  obtain ⟨b, fb, hrunb, hb⟩ := exists_extended (by simp) (by decide) hrevoke
    (by rw [hblocks]; simp) (by rw [hbase', hblocks, List.length_cons, List.length_cons]; simp)
  have hstate : (issuedChain s).state = s := by rw [issuedChain, certified_fields.2.2]
  have hstate' : (revokedChain s s').state = s' := by rw [revokedChain, certified_fields.2.2]
  refine ⟨a, b, s, ⟨hruna, by rw [ha]; exact issuedChain_blocks s, by rw [ha]; exact hstate⟩,
    ⟨hrunb, ⟨_, by rw [hb]; exact hblocks⟩, fun mid h => ?_⟩, hdigests, hissued, ?_⟩
  · exact state_of_upTo hfirst (by rw [hb]) (by rw [hb, hfinal]) h
  · rw [hb]
    show (revokedChain s s').state.credentials["diploma"]?.map _ = _
    rw [hstate']
    exact hrevoked

end Sample

namespace Blockchain

open NodeState

/-- The proof of the first toy node shows the credential valid; the second node has its block, and
has seen the revocation since. -/
theorem credential_proof_portable_sample : ∃ (a b : NodeState) (proof proof' : CredentialProofResponse)
    (record record' : CredentialRecord),
    (a.chain.getCredentialProof (Sample.env Sample.registry) "diploma" : Outcome String _) =
      ok proof ∧
    (b.chain.getCredentialProof (Sample.env Sample.registry) "diploma" : Outcome String _) =
      ok proof' ∧
    proof.credential = some record ∧ record.revoked = false ∧
    proof'.credential = some record' ∧ record'.revoked = true ∧
    Sample.issueBlock.index = proof.height ∧
    ChainState.RevokedBetween (Sample.node Sample.registry) "diploma" record.issuer a.chain.state
      b.chain.state := by
  obtain ⟨a, b, s, ⟨hruna, hblocks, hstate⟩, ⟨hrunb, ⟨block, hblocks'⟩, hmid⟩, hdigests, hissued,
    hrevoked⟩ := Sample.exists_registries
  have hbase : ∀ {s : NodeState}, Run (Sample.node Sample.registry) (fun _ _ => True) Sample.clerk s →
      s.chain.baseHeight.toNat = 0 := fun hrun => congrArg UInt64.toNat
    (baseHeight_of_network (hrun.grounded Sample.clerk_joined.rooted.derived).network)
  obtain ⟨proof, hproof, hcredential, hhash⟩ := @exists_proof a.chain String
    (Sample.env Sample.registry) "diploma" (by rw [hblocks]; simp) (by rw [hbase hruna, hblocks]; simp)
  obtain ⟨proof', hproof', hcredential', -⟩ := @exists_proof b.chain String
    (Sample.env Sample.registry) "diploma" (by rw [hblocks']; simp)
    (by rw [hbase hrunb, hblocks']; simp)
  have htip : a.chain.blocks.getLast? = some Sample.issueBlock := by
    rw [hblocks]
    rfl
  have hlatest : Sample.issueBlock.hash = proof.blockHash := by
    rw [hhash, latestHash, htip]
    rfl
  have hsecond : b.chain.blocks[1]? = some Sample.issueBlock := by
    rw [hblocks']
    rfl
  obtain ⟨⟨hindex, -, -⟩, hkept, -⟩ := @credential_proof_portable (Sample.node Sample.registry)
    Sample.issueBlock Sample.issueBlock 1 Sample.clerk a Sample.clerk b "diploma" proof proof' rfl
    Sample.clerk_joined hruna Sample.clerk_joined hrunb hproof hproof' htip hsecond hlatest
    (fun mid h => by
      rw [hmid mid h, hstate, provenTexts, Set.insert_idem, Set.pair_eq_singleton]
      exact Set.injOn_pair.mpr fun hsame => absurd (congrArg Digest.bytes hsame) hdigests)
    fun mid h => by
      rw [hmid mid h, hstate, Set.pair_eq_singleton]
      exact Set.injOn_singleton _ _
  rw [hstate] at hcredential
  obtain ⟨record, hrecord, hmark⟩ := Option.map_eq_some_iff.mp hissued
  obtain ⟨record', hrecord', hmark'⟩ := Option.map_eq_some_iff.mp hrevoked
  rw [hrecord] at hcredential
  rw [hrecord'] at hcredential'
  obtain ⟨last, hlast, -, hbetween, -⟩ := hkept record hcredential
  rw [hcredential', Option.some.injEq] at hlast
  subst hlast
  refine ⟨a, b, proof, proof', record, record', hproof, hproof', hcredential, hmark, hcredential',
    hmark', hindex, hbetween ?_⟩
  rw [hmark, hmark']
  decide

end Blockchain

/-! ## Requests -/

namespace ChainState

open Transaction

variable {E : Node} {s : ChainState} {tx : Transaction} {height : UInt64}

/-- When a certificate on the network applies. -/
theorem credential_applies_iff {action : CredentialAction} {a : String}
    (ht : tx.transactionType = .certificate) (hsender : tx.sender = some a)
    (haction : tx.credential = some action) (hchain : tx.chainId = s.chainId) :
    (∃ s', applyVerified E tx height s = ok ((), s')) ↔
      (s.requireHybridSignatures = true → Hybrid.isHybridAddress a = true) ∧
      s.NextNonce a tx.nonce ∧
      if action.revoke then ∃ record, s.credentials[action.id]? = some record ∧ record.issuer = a
      else action.id ∉ s.credentials := by
  have hbranch : applyBranch E tx height =
      guarded (certificateChecks tx) id tx.nonce (certificateEffects tx action) := by
    rw [applyBranch, ht]
    show applyCertificate tx = _
    rw [applyCertificate, haction]
  have hchecks : ∀ b, certificateChecks tx s = ok b ↔ a = b := by
    intro b
    rw [certificateChecks, hsender, okOr_some, ok.injEq]
  rw [applies_iff_branch (by rw [ht]; decide) (by rw [ht]; decide) hsender hchain, hbranch]
  simp only [guarded_eq_ok, hchecks, exists_eq_left', id_eq, certificateEffects, update_eq_ok,
    setNonce_credentials]
  refine and_congr_right fun _ => ?_
  rw [exists_and_left]
  refine and_congr_right fun _ => ?_
  by_cases hrevoke : action.revoke = true
  · simp only [if_pos hrevoke, Outcome.bind_eq_ok, okOr_eq_ok, ensure_eq_ok, pure_eq, ok.injEq]
    constructor
    · rintro ⟨_, record, hr, _, hissuer, -⟩
      exact ⟨record, hr, hissuer⟩
    · rintro ⟨record, hr, hissuer⟩
      exact ⟨_, record, hr, (), hissuer, rfl⟩
  · simp only [if_neg hrevoke, Outcome.bind_eq_ok, ensure_eq_ok, pure_eq, ok.injEq]
    constructor
    · rintro ⟨_, _, hnew, -⟩
      exact hnew
    · exact fun hnew => ⟨_, (), hnew, rfl⟩

end ChainState

namespace Settings

open ChainState

variable {cfg : Settings} {i i' : Surroundings} {s : AppState} {p : ChainState}
  {payload : CredentialWriteRequest} {revoke : Bool} {id : String} {stamp : DateTime}
  {sent : Transaction}

/-- A posted action that is sent on a network verifies exactly when its fields have their sizes and
its issuer has signed it. -/
theorem verifyForBlock_request {chainId : String} {E : Env} {validator : String}
    (hsent : sent = { payload.transaction revoke id stamp with chainId := chainId }) :
    sent.verifyForBlock E validator = ok () ↔ ¬ (blank payload.id ∨ 128 < byteLen payload.id) ∧
      ¬ (256 < byteLen payload.subject ∨ 128 < byteLen payload.dataHash) ∧
      sent.verifySenderSignature E payload.issuer (Transaction.credentialSigningMessage
        ⟨payload.id, payload.subject, payload.dataHash, revoke⟩ payload.nonce) = ok () := by
  have hverify : sent.verifyForBlock E validator = (do
      ensure (¬ (blank payload.id ∨ 128 < byteLen payload.id))
        "Credential id must be 1-128 characters"
      ensure (¬ (256 < byteLen payload.subject ∨ 128 < byteLen payload.dataHash))
        "Credential fields exceed size limits"
      sent.verifySenderSignature E payload.issuer (Transaction.credentialSigningMessage
        ⟨payload.id, payload.subject, payload.dataHash, revoke⟩ payload.nonce)) := by
    unfold Transaction.verifyForBlock
    simp only [hsent, CredentialWriteRequest.transaction, Transaction.new, ensure_pos, okOr_some,
      ok_bind]
  rw [hverify]
  simp only [Outcome.bind_eq_ok, ensure_eq_ok]
  constructor
  · rintro ⟨_, hid, _, hfields, hsigned⟩
    exact ⟨hid, hfields, hsigned⟩
  · rintro ⟨hid, hfields, hsigned⟩
    exact ⟨(), hid, (), hfields, hsigned⟩

/-- On a chain from genesis a request to issue or to revoke gets into the pool exactly when its fields
have their sizes, its issuer has signed it for the network of the node and is allowed, there is room
for it and its id is new, it carries the nonce that the node answers for the issuer, and over the
pool the credential is the issuer's, to revoke it, or free, to issue it. -/
theorem credential_queued_iff (hbase : s.chain.baseHeight = 0)
    (hp : s.projected cfg.node = ok p)
    (hsent : sent = { payload.transaction revoke id stamp with chainId := s.chain.state.chainId }) :
    ((∃ turn, cfg.run i s (.begin (.queueTransaction (payload.transaction revoke id stamp))) =
        some turn ∧ turn.Adds (.enqueue sent)) ∧ cfg.Enqueues i' s sent) ↔
      (¬ (blank payload.id ∨ 128 < byteLen payload.id) ∧
        ¬ (256 < byteLen payload.subject ∨ 128 < byteLen payload.dataHash) ∧
        sent.verifySenderSignature cfg.node payload.issuer (Transaction.credentialSigningMessage
          ⟨payload.id, payload.subject, payload.dataHash, revoke⟩ payload.nonce) = ok ()) ∧
      s.pendingTransactions.length < maxPendingTxs ∧
      (∀ queued ∈ s.pendingTransactions, queued.id ≠ id) ∧
      (s.chain.state.requireHybridSignatures = true →
        Hybrid.isHybridAddress payload.issuer = true) ∧
      (∃ answer, s.getAccountNonce cfg.node payload.issuer = ok answer ∧
        payload.nonce = answer.nextNonce) ∧
      if revoke then ∃ record, p.credentials[payload.id]? = some record ∧
        record.issuer = payload.issuer
      else payload.id ∉ p.credentials := by
  have hrules := projectPendingState_rules (projectPendingState_of_projected hbase hp)
  have hnetwork : p.chainId = s.chain.state.chainId := congrArg Rules.chainId hrules
  have hpolicy : p.requireHybridSignatures = s.chain.state.requireHybridSignatures :=
    congrArg Rules.requireHybridSignatures hrules
  have hkind : (payload.transaction revoke id stamp).transactionType ≠ .reward := by
    intro h
    cases h
  have happlies := @credential_applies_iff cfg.node p sent
    (UInt64.ofNat s.chain.blocks.length) ⟨payload.id, payload.subject, payload.dataHash, revoke⟩
    payload.issuer (by rw [hsent]; rfl) (by rw [hsent]; rfl) (by rw [hsent]; rfl)
    (by rw [hsent]; exact hnetwork.symm)
  have hid : sent.id = id := by rw [hsent]; rfl
  have hnonce : sent.nonce = payload.nonce := by rw [hsent]; rfl
  rw [queueTransaction_adds_iff hkind hsent, verifyForBlock_request hsent,
    enqueues_over_iff hbase hp, happlies, hpolicy, hid, hnonce, nextNonce_iff hp]

end Settings

namespace Sample

/-- Holder 7 posts its diploma. -/
def posted : CredentialWriteRequest where
  id := "diploma"
  subject := "student"
  dataHash := "hash"
  issuer := address 7
  nonce := 1
  publicKey := some (publicKey 7)
  signature := some (signMessage 7 (Transaction.scopedSigningMessage defaultChainId
    (Transaction.credentialSigningMessage ChainState.diploma 1)))
  pqPublicKey := none
  pqSignature := none

end Sample

namespace Settings

/-- The first toy node queues what holder 7 posts. -/
theorem credential_queued_sample :
    (Sample.settings []).Enqueues Sample.quietMorning (Sample.firstState [])
      { Sample.posted.transaction false "issuance" Sample.morning with
        chainId := defaultChainId } := by
  obtain ⟨answer, hanswer, hnonce⟩ := Sample.getAccountNonce_firstState
  have hiff := @credential_queued_iff (Sample.settings []) Sample.quietMorning Sample.quietMorning
    (Sample.firstState []) _ Sample.posted false "issuance" Sample.morning
    _ rfl Sample.projected_firstState rfl
  refine (hiff.mpr ⟨⟨by decide, by decide, ?_⟩, by decide, ?_, ?_, ⟨answer, hanswer, ?_⟩, ?_⟩).2
  · exact Sample.verifySenderSignature_signed Sample.schemeOf_seven rfl rfl ⟨rfl, rfl⟩
  · exact fun queued hqueued => absurd hqueued List.not_mem_nil
  · exact fun hrequired => absurd hrequired (by decide)
  · rw [hnonce]
    rfl
  · rw [if_neg Bool.false_ne_true]
    decide +kernel

end Settings
