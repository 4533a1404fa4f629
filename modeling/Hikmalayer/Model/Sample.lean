/-
# A toy node

Concrete third-party functions on which statements can be evaluated.  The digest is a
polynomial in the bytes behind one zero byte, so that the first nonce mines a block of
difficulty one; a signature is the signed digest followed by the digest of the key, so
that only the holder's signatures verify; the VRF output is the digest of key and input.
Transactions are named by their id.
-/
import Mathlib.Tactic
import Hikmalayer.Model.Producer
import Hikmalayer.Model.Hex

open Outcome

namespace Sample

/-! ## Third-party functions -/

/-- A toy digest with one leading zero byte. -/
def digest (bytes : List UInt8) : Digest where
  bytes :=
    let value := bytes.foldl (fun acc b => (acc * 257 + b.toNat + 1) % (2 ^ 248 - 237)) 0
    0 :: (List.range 31).map fun i => UInt8.ofNat (value / 256 ^ i)
  length_bytes := by simp

/-- A toy point: the byte 4 and one more. -/
def parsePublicKey (bytes : List UInt8) : Option (List UInt8) :=
  if bytes.length = 2 ∧ bytes.head? = some 4 then some bytes else none

/-- A toy compact signature. -/
def ecdsa (message key : List UInt8) : List UInt8 := message ++ (digest key).bytes

/-- A toy ML-DSA signature. -/
def mlDsa (message key : List UInt8) : List UInt8 :=
  (digest message).bytes ++ (digest key).bytes ++ List.replicate (Pq.signatureLen - 64) 0

/-- A toy VRF output; its proof repeats it. -/
def vrf (input key : List UInt8) : List UInt8 := (digest (key ++ input)).bytes

/-- The entries of a map of amounts, as text. -/
def amountsText (m : BTreeMap UInt64) : String :=
  String.join (m.toList.map fun e => e.1 ++ "=" ++ toString e.2 ++ ";")

/-- The fields of a state that the sample runs tell apart. -/
def stateText (s : ChainState) : String :=
  amountsText s.balances ++ amountsText s.nonces ++ toString s.feePot ++ ";" ++
    toString s.totalSupply ++ ";" ++ toString s.burned

/-- The toy functions, with a list of transactions to parse. -/
def env (pool : List Transaction) : Env where
  sha256 := digest
  parsePublicKey := parsePublicKey
  verifyEcdsa message signature key := signature = ecdsa message key
  verifyMlDsa message key signature := signature = mlDsa message key
  verifyVrf input key output proof := output = vrf input key && proof = output ++ output
  stateJson := stateText
  txJson tx := tx.id
  parseTx id := pool.find? fun tx => tx.id = id
  escaped _ := false
  hexError _ := "invalid hex"
  keyError _ := "malformed public key"

/-- The node with the toy functions. -/
def node (pool : List Transaction) : Node := { env pool with saturation := .clamp }

/-! ## Keys and signatures -/

/-- The key bytes of holder `n`. -/
def keyBytes (n : UInt8) : List UInt8 := [4, n]

def publicKey (n : UInt8) : String := hexEncode (keyBytes n)

/-- The classical address of holder `n`. -/
def address (n : UInt8) : String :=
  Pos.addressPrefix ++ hexEncode ((digest (keyBytes n)).bytes.take 20)

/-- Holder `n` signs a 32-byte digest. -/
def signDigest (n : UInt8) (message : List UInt8) : String := hexEncode (ecdsa message (keyBytes n))

/-- Holder `n` signs a message in the native domain. -/
def signMessage (n : UInt8) (message : String) : String :=
  signDigest n (Pos.messageDigest (env []) message)

/-- The VRF output of holder `n` on an input. -/
def vrfOutput (n : UInt8) (input : String) : List UInt8 := vrf (utf8 input) (keyBytes n)

/-- The holder's own signatures verify. -/
theorem verifyDigest_signDigest (pool : List Transaction) (n : UInt8) {message : List UInt8}
    (h : message.length = 32) :
    Pos.verifyDigest (env pool) message (publicKey n) (signDigest n message) = true := by
  unfold Pos.verifyDigest signDigest publicKey
  rw [if_neg (not_not.mpr h), hexDecode_hexEncode, hexDecode_hexEncode]
  simp [env, parsePublicKey, keyBytes]

/-- The key of a holder is in its canonical spelling. -/
theorem canonicalPublicKey_publicKey {E : Env} (hparse : E.parsePublicKey = parsePublicKey)
    (n : UInt8) : Pos.canonicalPublicKey E (publicKey n) = ok (keyBytes n) := by
  have hpoint : E.parsePublicKey (keyBytes n) = some (keyBytes n) := by rw [hparse]; rfl
  unfold Pos.canonicalPublicKey publicKey
  rw [hexDecode_hexEncode, okOr_some, ok_bind, hpoint, okOr_some, ok_bind, ensure_pos rfl, ok_bind]
  rfl

/-- The address of a holder is the one of its key. -/
theorem deriveAddress_publicKey (pool : List Transaction) (n : UInt8) :
    Pos.deriveAddress (env pool) (publicKey n) = ok (address n) := by
  rw [Pos.deriveAddress, canonicalPublicKey_publicKey rfl, ok_bind]
  rfl

/-- The holder's own VRF outputs verify. -/
theorem verify_vrfOutput (pool : List Transaction) (n : UInt8) (input : String) :
    Vrf.verify (env pool) input (publicKey n) (hexEncode (vrfOutput n input))
      (hexEncode (vrfOutput n input ++ vrfOutput n input)) = true := by
  unfold Vrf.verify publicKey
  rw [hexDecode_hexEncode, hexDecode_hexEncode, hexDecode_hexEncode]
  simp [env, vrfOutput]

/-! ## Blocks -/

/-- 2026-01-02T00:00:00Z. -/
def morning : DateTime := DateTime.ofTimestamp 1767312000

/-- A block of validator `n` at a position, signed and proved. -/
def sealBlock (pool : List Transaction) (n : UInt8) (place : Position)
    (transactions : List String) (stateRoot : String) : Block :=
  let merkleRoot := computeMerkleRoot (env pool) transactions
  let payload := Block.hashPayload (env pool) place.index merkleRoot stateRoot morning
    (some (address n)) (some (publicKey n)) place.previousHash
  let hash := digest (utf8 (payload ++ toString (0 : UInt64)))
  let output := vrfOutput n (Vrf.slotInput place.randomness place.index)
  { index := place.index
    timestamp := morning
    transactions := transactions
    merkleRoot := merkleRoot
    stateRoot := stateRoot
    previousHash := place.previousHash
    difficulty := place.difficulty
    nonce := 0
    hash := hexEncode hash.bytes
    validator := some (address n)
    validatorPublicKey := some (publicKey n)
    validatorSignature := some (signDigest n hash.bytes)
    validatorPqSignature := none
    vrfOutput := some (hexEncode output)
    vrfProof := some (hexEncode (output ++ output)) }

/-- A block of validator `n` for a round, with the VRF key of holder `m`. -/
def sealWith (pool : List Transaction) (n m : UInt8) (timestamp : DateTime) (round : UInt64)
    (place : Position) (transactions : List String) (stateRoot : String) : Block :=
  let merkleRoot := computeMerkleRoot (env pool) transactions
  let payload := Block.hashPayload (env pool) place.index merkleRoot stateRoot timestamp
    (some (address n)) (some (publicKey n)) place.previousHash
  let hash := digest (utf8 (payload ++ toString (0 : UInt64)))
  let output := vrfOutput m (Vrf.slotInputAtRound place.randomness place.index round)
  { index := place.index
    timestamp := timestamp
    transactions := transactions
    merkleRoot := merkleRoot
    stateRoot := stateRoot
    previousHash := place.previousHash
    difficulty := place.difficulty
    nonce := 0
    hash := hexEncode hash.bytes
    validator := some (address n)
    validatorPublicKey := some (publicKey n)
    validatorSignature := some (signDigest n hash.bytes)
    validatorPqSignature := none
    vrfOutput := some (hexEncode output)
    vrfProof := some (hexEncode (output ++ output)) }

/-- The first round is always open. -/
theorem roundList_eq (rounds : ℕ) :
    roundList rounds = 0 :: (List.range rounds).map fun i => UInt64.ofNat (i + 1) := by
  rw [roundList, List.range_succ_eq_map, List.map_cons, List.map_map]
  rfl

variable {pool : List Transaction} {n m : UInt8} {timestamp : DateTime} {round : UInt64}
  {place : Position} {transactions : List String} {root : String} {s s' : ChainState}
  {stake : UInt64}

/-- A sealed block is one for the primary round. -/
theorem sealBlock_eq : sealBlock pool n place transactions root =
    sealWith pool n n morning 0 place transactions root := rfl

@[simp] theorem sealWith_stateRoot :
    (sealWith pool n m timestamp round place transactions root).stateRoot = root := rfl

/-- Toy digests start with two zeroes. -/
theorem startsWithZeroes_digest {difficulty : UInt64} (h : difficulty = 1 ∨ difficulty = 2)
    (message : List UInt8) :
    Pow.startsWithZeroes difficulty (hexEncode (digest message).bytes) = true := by
  unfold Pow.startsWithZeroes
  rw [toList_hexEncode]
  change decide (_ <+: hexChars (0 :: _)) = true
  rw [hexChars_cons]
  rcases h with rfl | rfl
  · change decide (['0'] <+: _) = true
    simp
  · change decide (['0', '0'] <+: _) = true
    simp

theorem sealWith_pow (hdiff : place.difficulty = 1 ∨ place.difficulty = 2) :
    (sealWith pool n m timestamp round place transactions root).hasValidPow (env pool) = true := by
  unfold Block.hasValidPow
  have hbounds : Pow.isDifficultyInBounds
      (sealWith pool n m timestamp round place transactions root).difficulty = true := by
    change Pow.isDifficultyInBounds place.difficulty = true
    rcases hdiff with h | h <;> rw [h] <;> rfl
  have hzero : Pow.startsWithZeroes
      (sealWith pool n m timestamp round place transactions root).difficulty
      (sealWith pool n m timestamp round place transactions root).hash = true :=
    startsWithZeroes_digest hdiff _
  rw [hbounds, hzero, Bool.true_and, Bool.and_true, decide_eq_true_eq]
  rfl

/-- A sole staker is always drawn. -/
theorem selectStakerWithSeed_single {ε : Type} (E : Env) (seed : String) (staker : Staker)
    (h : 0 < staker.stake) :
    (Pos.selectStakerWithSeed E seed [staker] : Outcome ε _) = ok (some staker.address) := by
  have hsum : Word.checkedSum [staker.stake] = some staker.stake :=
    Word.checkedSum_eq_some.mpr (by simp)
  have hne : staker.stake ≠ 0 := by
    rintro h0
    rw [h0] at h
    exact absurd h (by decide)
  have hlt : Pos.seedToU64 E seed % staker.stake < staker.stake := UInt64.mod_lt _ h
  simp only [Pos.selectStakerWithSeed, List.map_cons, List.map_nil, hsum, plain_some, ok_bind,
    if_neg hne, Pos.scanStakers, if_pos hlt, pure_eq]

/-- The seal of a block verifies. -/
theorem verifyBlockSignature_sealWith : Pos.verifyBlockSignature (env pool)
    (sealWith pool n m timestamp round place transactions root).hash (publicKey n)
    ((sealWith pool n m timestamp round place transactions root).validatorSignature.getD "") =
      true := by
  have hhash : hexDecode (sealWith pool n m timestamp round place transactions root).hash =
      some (digest _).bytes := hexDecode_hexEncode _
  unfold Pos.verifyBlockSignature
  rw [hhash]
  exact verifyDigest_signDigest pool n (digest _).length_bytes

theorem verifyBlockSignature_sealBlock : Pos.verifyBlockSignature (env pool)
    (sealBlock pool n place transactions root).hash (publicKey n)
    ((sealBlock pool n place transactions root).validatorSignature.getD "") = true := by
  rw [sealBlock_eq]
  exact verifyBlockSignature_sealWith

theorem publicKey_ne_empty (n : UInt8) : publicKey n ≠ "" := by
  intro h
  have hchars := congrArg String.toList h
  rw [publicKey, toList_hexEncode, keyBytes, hexChars_cons] at hchars
  cases hchars

/-- A sealed block of a leader with the registered keys passes the checks on its producer. -/
theorem checkProducer_sealWith {primary : String}
    (hprimary : (Pos.selectStakerWithSeed (env pool) (Vrf.slotInput place.randomness place.index)
      s.validatorSet : Outcome BlockError _) = ok (some primary))
    (hslot : (findSlot (env pool) place.randomness place.index s.validatorSet (address n)
      (roundList (openRounds place.parentTimestamp timestamp)) : Outcome BlockError _) =
        ok (some (Vrf.slotInputAtRound place.randomness place.index round)))
    (hreg : s.stakers[address n]? = some ⟨stake, publicKey n, publicKey m, ""⟩) :
    checkProducer (env pool) (sealWith pool n m timestamp round place transactions root) place s =
      ok (address n) := by
  simp only [checkProducer, Outcome.bind_eq_ok, ensure_eq_ok, plain_eq_ok, okOr_eq_ok, pure_eq,
    ok.injEq]
  refine ⟨_, hprimary, (), by simp, address n, rfl, _, hslot, _, rfl, publicKey n, rfl, (), ?_, _, rfl,
    (), verifyBlockSignature_sealWith, (), ?_, (), ?_, _, rfl, _, rfl, (), ?_, rfl⟩
  · rw [hreg]
    rfl
  · rw [hreg]
    rfl
  · rw [hreg]
    exact publicKey_ne_empty m
  · rw [hreg]
    exact verify_vrfOutput pool m _

/-- A sealed block of a leader is accepted when it executes. -/
theorem validateBlockAt_sealWith {primary : String}
    (hdiff : place.difficulty = 1 ∨ place.difficulty = 2)
    (htime : ¬ timestamp.before place.parentTimestamp)
    (hprimary : (Pos.selectStakerWithSeed (env pool) (Vrf.slotInput place.randomness place.index)
      s.validatorSet : Outcome BlockError _) = ok (some primary))
    (hslot : (findSlot (env pool) place.randomness place.index s.validatorSet (address n)
      (roundList (openRounds place.parentTimestamp timestamp)) : Outcome BlockError _) =
        ok (some (Vrf.slotInputAtRound place.randomness place.index round)))
    (hreg : s.stakers[address n]? = some ⟨stake, publicKey n, publicKey m, ""⟩)
    (hexec : executeBlock (node pool) (address n)
      (sealWith pool n m timestamp round place transactions root) s = ok s') :
    validateBlockAt (node pool) (sealWith pool n m timestamp round place transactions root) place s =
      ok s' := by
  have hplace : checkPosition (sealWith pool n m timestamp round place transactions root) place =
      ok () := by
    simp only [checkPosition, Outcome.bind_eq_ok, ensure_eq_ok]
    refine ⟨(), rfl, (), htime, (), rfl, (), rfl, (), ?_, by simp [sealWith]⟩
    change Pow.isDifficultyInBounds place.difficulty = true
    rcases hdiff with h | h <;> rw [h] <;> rfl
  simp only [validateBlockAt, Outcome.bind_eq_ok, ensure_eq_ok]
  refine ⟨(), hplace, address n, checkProducer_sealWith hprimary hslot hreg, (), ?_, (),
    sealWith_pow hdiff, hexec⟩
  unfold Block.hasValidMerkleRoot
  exact decide_eq_true rfl

/-- A sole validator leads the primary round. -/
theorem findSlot_single {ε : Type} {rounds : ℕ} (hstake : 0 < stake)
    (hset : s.validatorSet = [⟨address n, stake, some (publicKey n)⟩]) :
    (findSlot (env pool) place.randomness place.index s.validatorSet (address n)
      (roundList rounds) : Outcome ε _) =
        ok (some (Vrf.slotInputAtRound place.randomness place.index 0)) := by
  rw [roundList_eq, findSlot, hset, selectStakerWithSeed_single _ _ _ hstake, ok_bind, if_pos rfl]
  rfl

/-- A sealed block of the sole validator is accepted when it executes. -/
theorem validateBlockAt_sealBlock (hdiff : place.difficulty = 1 ∨ place.difficulty = 2)
    (htime : ¬ morning.before place.parentTimestamp) (hstake : 0 < stake)
    (hset : s.validatorSet = [⟨address n, stake, some (publicKey n)⟩])
    (hreg : s.stakers[address n]? = some ⟨stake, publicKey n, publicKey n, ""⟩)
    (hexec : executeBlock (node pool) (address n) (sealBlock pool n place transactions root) s =
      ok s') :
    validateBlockAt (node pool) (sealBlock pool n place transactions root) place s = ok s' := by
  rw [sealBlock_eq] at hexec ⊢
  have hprimary : (Pos.selectStakerWithSeed (env pool) (Vrf.slotInput place.randomness place.index)
      s.validatorSet : Outcome BlockError _) = ok (some (address n)) := by
    rw [hset]
    exact selectStakerWithSeed_single _ _ _ hstake
  exact validateBlockAt_sealWith hdiff htime hprimary (findSlot_single hstake hset) hreg hexec

/-! ## A first block -/

/-- A genesis with holder 7 as treasury and validator. -/
def genesis (supply : UInt64) : ChainState :=
  ChainState.genesisForChain defaultChainId (address 7) (some (publicKey 7)) (some (publicKey 7))
    supply []

/-- The reward of the first block. -/
def reward : Transaction := Transaction.newReward "reward" morning (address 7) 1

/-- A transaction of holder `n`, signed over a message of the default network. -/
def order (n : UInt8) (transactionType : TransactionType) (recipient : String)
    (amount nonce : UInt64) (token : Option TokenAction) (amm : Option AmmAction)
    (message : String) : Transaction where
  id := message
  sender := some (address n)
  recipient := recipient
  amount := amount
  transactionType := transactionType
  timestamp := morning
  nonce := nonce
  publicKey := some (publicKey n)
  signature := some (signMessage n (Transaction.scopedSigningMessage defaultChainId message))
  slashProof := none
  vrfPublicKey := none
  credential := none
  vestingCliffBlocks := none
  vestingDurationBlocks := none
  token := token
  amm := amm
  pqPublicKey := none
  pqSignature := none
  chainId := defaultChainId

/-- Holder 7 creates a token. -/
def tokenCreation : Transaction :=
  order 7 .tokenCreate "" 1000000000 1 (some ⟨"", "GOLD", "Gold", 2⟩) none
    (Transaction.tokenCreateSigningMessage "GOLD" "Gold" 2 1000000000 1)

/-- The id of that token. -/
def tokenId : String := deriveTokenId (env []) (address 7) "GOLD" 1

/-- Holder 7 opens the pool of its token. -/
def deposit : Transaction :=
  order 7 .addLiquidity "" 0 2 none (some ⟨tokenId, 2000000, 2000000, 0, 0, false, 0, 0, 0, 0⟩)
    (Transaction.ammAddSigningMessage tokenId 2000000 2000000 0 2)

/-- Holder 7 takes all its shares back. -/
def withdrawal : Transaction :=
  order 7 .removeLiquidity "" 0 3 none (some ⟨tokenId, 0, 0, 1999000, 0, false, 0, 0, 0, 0⟩)
    (Transaction.ammRemoveSigningMessage tokenId 1999000 0 0 3)

/-- The state root after executing a block of validator `n`; empty when it fails. -/
def rootAfter (pool : List Transaction) (n : UInt8) (index : UInt64) (s : ChainState)
    (transactions : List String) : String :=
  match executeTransactions (node pool) (address n) index s 0 transactions with
  | ok r =>
    match Exec.finalState (ChainState.endBlock (node pool) index (address n)) r.1 with
    | ok s' => s'.stateRoot (env pool)
    | _ => ""
  | _ => ""

/-- The position of a first block. -/
def firstPlace : Position := ⟨1, "0", "beacon", morning, 1⟩

/-- A first block of validator `n` on a state. -/
def firstBlock (pool : List Transaction) (n : UInt8) (s : ChainState)
    (transactions : List String) : Block :=
  sealBlock pool n firstPlace transactions (rootAfter pool n 1 s transactions)

theorem address_valid : isValidAddress (address 7) = true := by decide +kernel

/-- A genesis whose supply covers the stake has holder 7 as its only validator. -/
theorem genesis_stakers {supply : UInt64} (h : genesisValidatorStake ≤ supply) :
    (genesis supply).stakers = (∅ : BTreeMap StakeInfo).insert (address 7)
      ⟨genesisValidatorStake, publicKey 7, publicKey 7, ""⟩ := by
  have hmin : min genesisValidatorStake supply = genesisValidatorStake := by
    refine Word.toNat_ext ?_
    rw [Word.min_toNat]
    exact min_eq_left (UInt64.le_iff_toNat_le.mp h)
  change (∅ : BTreeMap StakeInfo).insert (address 7)
    ⟨min genesisValidatorStake supply, publicKey 7, publicKey 7, ""⟩ = _
  rw [hmin]

theorem genesis_validatorSet {supply : UInt64} (h : genesisValidatorStake ≤ supply) :
    (genesis supply).validatorSet = [⟨address 7, genesisValidatorStake, some (publicKey 7)⟩] := by
  unfold ChainState.validatorSet
  rw [genesis_stakers h]
  decide +kernel

/-- A first block of the genesis validator is accepted when it executes. -/
theorem validateBlockAt_firstBlock {supply : UInt64} (h : genesisValidatorStake ≤ supply)
    (hexec : executeBlock (node pool) (address 7)
      (firstBlock pool 7 (genesis supply) transactions) (genesis supply) = ok s') :
    validateBlockAt (node pool) (firstBlock pool 7 (genesis supply) transactions) firstPlace
      (genesis supply) = ok s' := by
  refine validateBlockAt_sealBlock (Or.inl rfl) (by decide) (by decide) (genesis_validatorSet h) ?_ hexec
  rw [genesis_stakers h, OrderedMap.lookup_insert_self]

end Sample
