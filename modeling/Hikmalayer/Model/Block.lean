/-
# Blocks: hashing, Merkle root, proof of work

`blockchain/block.rs` and `consensus/pow.rs`.  The hash preimage is the plain
concatenation that the source formats, with `Debug` texts for the index, the
timestamp and the two optional strings.
-/
import Mathlib.Tactic
import Hikmalayer.Foundations.Outcome
import Hikmalayer.Model.Env

open Outcome

/-! ## Proof of work (`consensus/pow.rs`) -/

namespace Pow

def minDifficulty : UInt64 := 1
def maxDifficulty : UInt64 := 5

def clampDifficulty (difficulty : UInt64) : UInt64 :=
  max minDifficulty (min difficulty maxDifficulty)

def isDifficultyInBounds (difficulty : UInt64) : Bool :=
  minDifficulty ≤ difficulty && difficulty ≤ maxDifficulty

/-- Expected hash attempts for a difficulty: `16u128.saturating_pow(difficulty as u32)`. -/
def workForDifficulty (difficulty : UInt64) : ℕ :=
  let exponent := difficulty.toNat % 2 ^ 32
  if exponent < 32 then 16 ^ exponent else 2 ^ 128 - 1

/-- Whether a hash starts with `difficulty` zeroes. -/
def startsWithZeroes (difficulty : UInt64) (hash : String) : Bool :=
  List.replicate difficulty.toNat '0' <+: hash.toList

/-- Try nonces from `nonce` on, at most `fuel` of them. -/
def search (E : Env) (data : String) (difficulty : UInt64) : ℕ → UInt64 → Option (UInt64 × String)
  | 0, _ => none
  | fuel + 1, nonce =>
    let hash := sha256Hex E (data ++ toString nonce)
    if startsWithZeroes difficulty hash then some (nonce, hash)
    else search E data difficulty fuel (nonce + 1)

/-- A found nonce comes with the hash it gives, which starts with the zeroes asked for. -/
theorem search_spec {E : Env} {data hash : String} {difficulty n : UInt64} {fuel : ℕ} :
    ∀ {nonce}, search E data difficulty fuel nonce = some (n, hash) →
      hash = sha256Hex E (data ++ toString n) ∧ startsWithZeroes difficulty hash = true := by
  induction fuel with
  | zero => intro nonce h; cases h
  | succ fuel ih =>
    intro nonce h
    rw [search] at h
    split at h
    · rename_i hzeroes
      simp only [Option.some.injEq, Prod.mk.injEq] at h
      rw [← h.1, ← h.2]
      exact ⟨rfl, hzeroes⟩
    · exact ih h

theorem clampDifficulty_toNat (difficulty : UInt64) :
    (clampDifficulty difficulty).toNat = max 1 (min difficulty.toNat 5) := by
  rw [clampDifficulty, Word.max_toNat, Word.min_toNat]
  rfl

/-- Clamping twice is clamping once. -/
theorem clampDifficulty_idem (difficulty : UInt64) :
    clampDifficulty (clampDifficulty difficulty) = clampDifficulty difficulty := by
  refine Word.toNat_ext ?_
  rw [clampDifficulty_toNat, clampDifficulty_toNat]
  omega

theorem isDifficultyInBounds_clamp (difficulty : UInt64) :
    isDifficultyInBounds (clampDifficulty difficulty) = true := by
  have h := clampDifficulty_toNat difficulty
  have hmin : minDifficulty ≤ clampDifficulty difficulty := by
    rw [UInt64.le_iff_toNat_le, h]
    exact le_max_left _ _
  have hmax : clampDifficulty difficulty ≤ maxDifficulty := by
    rw [UInt64.le_iff_toNat_le, h]
    exact max_le (by decide) (min_le_right _ _)
  rw [isDifficultyInBounds, decide_eq_true hmin, decide_eq_true hmax, Bool.and_self]

/-- Mine: the first nonce whose hash meets the difficulty.  The nonce counter
overflows once all of them have failed. -/
def mineBlock {ε : Type} (E : Env) (data : String) (difficulty : UInt64) :
    Outcome ε (UInt64 × String) :=
  plain (search E data (clampDifficulty difficulty) (2 ^ 64) 0)

end Pow

/-! ## Merkle root -/

/-- Hash each pair of a layer; an odd last node is paired with itself. -/
def merkleLayer (E : Env) : List String → List String
  | [] => []
  | [left] => [sha256Hex E (left ++ left)]
  | left :: right :: rest => sha256Hex E (left ++ right) :: merkleLayer E rest

theorem merkleLayer_length (E : Env) (layer : List String) :
    (merkleLayer E layer).length = (layer.length + 1) / 2 := by
  induction layer using merkleLayer.induct with
  | case1 => simp [merkleLayer]
  | case2 left => simp [merkleLayer]
  | case3 left right rest ih =>
    rw [merkleLayer, List.length_cons, ih, List.length_cons, List.length_cons]
    omega

/-- Halve the layer until one node is left. -/
def merkleFold (E : Env) : List String → String
  | [] => ""
  | [root] => root
  | left :: right :: rest => merkleFold E (merkleLayer E (left :: right :: rest))
termination_by layer => layer.length
decreasing_by
  rw [merkleLayer_length, List.length_cons, List.length_cons]
  omega

/-- Merkle root of the transaction payloads; an empty list hashes the empty string. -/
def computeMerkleRoot (E : Env) (transactions : List String) : String :=
  if transactions = [] then sha256Hex E ""
  else merkleFold E (transactions.map (sha256Hex E))

/-! ## Blocks (`blockchain/block.rs`) -/

/-- Genesis timestamp, 2026-01-01T00:00:00Z. -/
def genesisTimestamp : ℤ := 1767225600
def genesisData : String := "Hikmalayer Genesis Block"

namespace Block

/-- The text that mining extends by a nonce and hashes. -/
def hashPayload (E : Env) (index : UInt64) (merkleRoot stateRoot : String) (timestamp : DateTime)
    (validator validatorPublicKey : Option String) (previousHash : String) : String :=
  toString index ++ merkleRoot ++ stateRoot ++ timestamp.debugText ++
    debugOption E validator ++ debugOption E validatorPublicKey ++ previousHash

/-- The hash preimage of a block: its payload and nonce. -/
def preimage (E : Env) (b : Block) : String :=
  hashPayload E b.index b.merkleRoot b.stateRoot b.timestamp b.validator b.validatorPublicKey
    b.previousHash ++ toString b.nonce

def calculateHash (E : Env) (b : Block) : String := sha256Hex E (b.preimage E)

/-- Build and mine a block. -/
def newAt {ε : Type} (E : Env) (timestamp : DateTime) (index : UInt64) (transactions : List String)
    (previousHash : String) (difficulty : UInt64)
    (validator validatorPublicKey validatorSignature : Option String) (stateRoot : String) :
    Outcome ε Block := do
  let difficulty := Pow.clampDifficulty difficulty
  let merkleRoot := computeMerkleRoot E transactions
  let data := hashPayload E index merkleRoot stateRoot timestamp validator validatorPublicKey
    previousHash
  let (nonce, hash) ← Pow.mineBlock E data difficulty
  return ⟨index, timestamp, transactions, merkleRoot, stateRoot, previousHash, difficulty, nonce,
    hash, validator, validatorPublicKey, validatorSignature, none, none, none⟩

/-- The genesis block, committing to the genesis state root. -/
def genesis {ε : Type} (E : Env) (difficulty : UInt64) (stateRoot : String) : Outcome ε Block :=
  newAt E (DateTime.ofTimestamp genesisTimestamp) 0 [genesisData] "0" difficulty none none none
    stateRoot

/-- Whether the Merkle root commits to the transaction list. -/
def hasValidMerkleRoot (E : Env) (b : Block) : Bool :=
  b.merkleRoot = computeMerkleRoot E b.transactions

def hasValidPow (E : Env) (b : Block) : Bool :=
  Pow.isDifficultyInBounds b.difficulty && b.hash = b.calculateHash E &&
    Pow.startsWithZeroes b.difficulty b.hash

variable {E : Env} {b : Block}

/-- A block that `new_at` built has a valid proof of work and Merkle root. -/
theorem newAt_valid {ε : Type} {timestamp : DateTime} {index : UInt64} {transactions : List String}
    {previousHash : String} {difficulty : UInt64}
    {validator validatorPublicKey validatorSignature : Option String} {stateRoot : String}
    (h : (newAt E timestamp index transactions previousHash difficulty validator
      validatorPublicKey validatorSignature stateRoot : Outcome ε Block) = ok b) :
    b.hash = b.calculateHash E ∧ b.hasValidPow E = true ∧ b.hasValidMerkleRoot E = true := by
  simp only [newAt, Pow.mineBlock, Outcome.bind_eq_ok, plain_eq_ok, pure_eq, ok.injEq] at h
  obtain ⟨⟨nonce, hash⟩, hmine, rfl⟩ := h
  obtain ⟨hhash, hzeroes⟩ := Pow.search_spec hmine
  rw [Pow.clampDifficulty_idem] at hzeroes
  refine ⟨hhash, ?_, decide_eq_true rfl⟩
  simp only [hasValidPow, Pow.isDifficultyInBounds_clamp, hzeroes, Bool.and_true, Bool.true_and]
  exact decide_eq_true hhash

end Block
