/-
# The wire format

What `serde` writes and reads for the data of `p2p/protocol.rs`, `blockchain/block.rs` and
`blockchain/transaction.rs`: one object for each record, its fields in the order of the
declaration, `null` for an absent optional field, the name of its variant for an enumeration
without data, and an object of type and data for a payload.  Reading ignores unknown members
and fills the defaults.  `parseTime` is the reader of the date library.
-/
import Mathlib.Tactic
import Hikmalayer.Foundations.Json
import Hikmalayer.Model.Types

open Json

/-! ## Scalars -/

namespace UInt64

def toJson (n : UInt64) : Json := .num n.toNat

def ofJson (j : Json) : Option UInt64 := (asNumber (2 ^ 64) j).map UInt64.ofNat

theorem ofJson_toJson (n : UInt64) : ofJson n.toJson = some n := by
  rw [ofJson, toJson, asNumber_num n.toNat_lt]
  exact congrArg some UInt64.ofNat_toNat

end UInt64

namespace UInt32

def toJson (n : UInt32) : Json := .num n.toNat

def ofJson (j : Json) : Option UInt32 := (asNumber (2 ^ 32) j).map UInt32.ofNat

theorem ofJson_toJson (n : UInt32) : ofJson n.toJson = some n := by
  rw [ofJson, toJson, asNumber_num n.toNat_lt]
  exact congrArg some UInt32.ofNat_toNat

end UInt32

namespace DateTime

/-- `Serialize` of a timestamp. -/
def toJson (t : DateTime) : Json := .str t.debugText

def ofJson (parseTime : String → Option DateTime) (j : Json) : Option DateTime :=
  (asText j).bind parseTime

end DateTime

/-! ## Blocks -/

namespace Block

def toJson (b : Block) : Json := .obj [
  ("index", b.index.toJson),
  ("timestamp", b.timestamp.toJson),
  ("transactions", .arr (b.transactions.map .str)),
  ("merkle_root", .str b.merkleRoot),
  ("state_root", .str b.stateRoot),
  ("previous_hash", .str b.previousHash),
  ("difficulty", b.difficulty.toJson),
  ("nonce", b.nonce.toJson),
  ("hash", .str b.hash),
  ("validator", ofOption .str b.validator),
  ("validator_public_key", ofOption .str b.validatorPublicKey),
  ("validator_signature", ofOption .str b.validatorSignature),
  ("validator_pq_signature", ofOption .str b.validatorPqSignature),
  ("vrf_output", ofOption .str b.vrfOutput),
  ("vrf_proof", ofOption .str b.vrfProof)]

def ofJson (parseTime : String → Option DateTime) : Json → Option Block
  | .obj m => do
    return {
      index := ← required UInt64.ofJson m "index"
      timestamp := ← required (DateTime.ofJson parseTime) m "timestamp"
      transactions := ← required (asList asText) m "transactions"
      merkleRoot := ← withDefault "" asText m "merkle_root"
      stateRoot := ← withDefault "" asText m "state_root"
      previousHash := ← required asText m "previous_hash"
      difficulty := ← required UInt64.ofJson m "difficulty"
      nonce := ← required UInt64.ofJson m "nonce"
      hash := ← required asText m "hash"
      validator := ← withDefault none (asOption asText) m "validator"
      validatorPublicKey := ← withDefault none (asOption asText) m "validator_public_key"
      validatorSignature := ← withDefault none (asOption asText) m "validator_signature"
      validatorPqSignature := ← withDefault none (asOption asText) m "validator_pq_signature"
      vrfOutput := ← withDefault none (asOption asText) m "vrf_output"
      vrfProof := ← withDefault none (asOption asText) m "vrf_proof" }
  | _ => none

end Block

theorem asOption_text (o : Option String) : asOption asText (ofOption .str o) = some o :=
  asOption_ofOption (fun _ _ => rfl) fun _ h => nomatch h

theorem asList_text (l : List String) : asList asText (.arr (l.map .str)) = some l :=
  asList_arr fun _ _ => rfl

namespace Block

/-- A written block is read back, if its timestamp is. -/
theorem ofJson_toJson {parseTime : String → Option DateTime} {b : Block}
    (htime : parseTime b.timestamp.debugText = some b.timestamp) :
    ofJson parseTime b.toJson = some b := by
  have hread : DateTime.ofJson parseTime b.timestamp.toJson = some b.timestamp := htime
  unfold toJson ofJson
  simp only [required, withDefault, member]
  simp [asOption_text, asList_text, UInt64.ofJson_toJson, hread, asText]

end Block

/-! ## Transactions -/

namespace TransactionType

/-- The name of the variant. -/
def toName : TransactionType → String
  | .transfer => "Transfer"
  | .reward => "Reward"
  | .certificate => "Certificate"
  | .stake => "Stake"
  | .withdraw => "Withdraw"
  | .slash => "Slash"
  | .vest => "Vest"
  | .tokenCreate => "TokenCreate"
  | .tokenTransfer => "TokenTransfer"
  | .tokenBurn => "TokenBurn"
  | .addLiquidity => "AddLiquidity"
  | .removeLiquidity => "RemoveLiquidity"
  | .swap => "Swap"

/-- All variants. -/
def all : List TransactionType := [.transfer, .reward, .certificate, .stake, .withdraw, .slash,
  .vest, .tokenCreate, .tokenTransfer, .tokenBurn, .addLiquidity, .removeLiquidity, .swap]

def toJson (t : TransactionType) : Json := .str t.toName

def ofJson (j : Json) : Option TransactionType :=
  (asText j).bind fun name => all.find? fun t => t.toName = name

theorem ofJson_toJson (t : TransactionType) : ofJson t.toJson = some t := by
  cases t <;> decide

end TransactionType

namespace SlashProof

def toJson (p : SlashProof) : Json := .obj [
  ("block_a", p.blockA.toJson),
  ("block_b", p.blockB.toJson)]

def ofJson (parseTime : String → Option DateTime) : Json → Option SlashProof
  | .obj m => do
    return {
      blockA := ← required (Block.ofJson parseTime) m "block_a"
      blockB := ← required (Block.ofJson parseTime) m "block_b" }
  | _ => none

end SlashProof

namespace CredentialAction

def toJson (c : CredentialAction) : Json := .obj [
  ("id", .str c.id),
  ("subject", .str c.subject),
  ("data_hash", .str c.dataHash),
  ("revoke", .bool c.revoke)]

def ofJson : Json → Option CredentialAction
  | .obj m => do
    return {
      id := ← required asText m "id"
      subject := ← required asText m "subject"
      dataHash := ← required asText m "data_hash"
      revoke := ← withDefault false asFlag m "revoke" }
  | _ => none

theorem ofJson_toJson (c : CredentialAction) : ofJson c.toJson = some c := by
  unfold toJson ofJson
  simp only [required, withDefault, member]
  simp [asText, asFlag]

end CredentialAction

namespace TokenAction

def toJson (t : TokenAction) : Json := .obj [
  ("token_id", .str t.tokenId),
  ("symbol", .str t.symbol),
  ("name", .str t.name),
  ("decimals", t.decimals.toJson)]

def ofJson : Json → Option TokenAction
  | .obj m => do
    return {
      tokenId := ← withDefault "" asText m "token_id"
      symbol := ← withDefault "" asText m "symbol"
      name := ← withDefault "" asText m "name"
      decimals := ← withDefault 0 UInt32.ofJson m "decimals" }
  | _ => none

theorem ofJson_toJson (t : TokenAction) : ofJson t.toJson = some t := by
  unfold toJson ofJson
  simp only [withDefault, member]
  simp [asText, UInt32.ofJson_toJson]

end TokenAction

namespace AmmAction

def toJson (a : AmmAction) : Json := .obj [
  ("token_id", .str a.tokenId),
  ("amount_hkm", a.amountHkm.toJson),
  ("amount_token", a.amountToken.toJson),
  ("shares", a.shares.toJson),
  ("amount_in", a.amountIn.toJson),
  ("hkm_to_token", .bool a.hkmToToken),
  ("min_shares", a.minShares.toJson),
  ("min_hkm", a.minHkm.toJson),
  ("min_token", a.minToken.toJson),
  ("min_out", a.minOut.toJson)]

def ofJson : Json → Option AmmAction
  | .obj m => do
    return {
      tokenId := ← required asText m "token_id"
      amountHkm := ← withDefault 0 UInt64.ofJson m "amount_hkm"
      amountToken := ← withDefault 0 UInt64.ofJson m "amount_token"
      shares := ← withDefault 0 UInt64.ofJson m "shares"
      amountIn := ← withDefault 0 UInt64.ofJson m "amount_in"
      hkmToToken := ← withDefault false asFlag m "hkm_to_token"
      minShares := ← withDefault 0 UInt64.ofJson m "min_shares"
      minHkm := ← withDefault 0 UInt64.ofJson m "min_hkm"
      minToken := ← withDefault 0 UInt64.ofJson m "min_token"
      minOut := ← withDefault 0 UInt64.ofJson m "min_out" }
  | _ => none

theorem ofJson_toJson (a : AmmAction) : ofJson a.toJson = some a := by
  unfold toJson ofJson
  simp only [required, withDefault, member]
  simp [asText, asFlag, UInt64.ofJson_toJson]

end AmmAction

namespace Transaction

def toJson (tx : Transaction) : Json := .obj [
  ("id", .str tx.id),
  ("from", ofOption .str tx.sender),
  ("to", .str tx.recipient),
  ("amount", tx.amount.toJson),
  ("transaction_type", tx.transactionType.toJson),
  ("timestamp", tx.timestamp.toJson),
  ("nonce", tx.nonce.toJson),
  ("public_key", ofOption .str tx.publicKey),
  ("signature", ofOption .str tx.signature),
  ("slash_proof", ofOption SlashProof.toJson tx.slashProof),
  ("vrf_public_key", ofOption .str tx.vrfPublicKey),
  ("credential", ofOption CredentialAction.toJson tx.credential),
  ("vesting_cliff_blocks", ofOption UInt64.toJson tx.vestingCliffBlocks),
  ("vesting_duration_blocks", ofOption UInt64.toJson tx.vestingDurationBlocks),
  ("token", ofOption TokenAction.toJson tx.token),
  ("amm", ofOption AmmAction.toJson tx.amm),
  ("pq_public_key", ofOption .str tx.pqPublicKey),
  ("pq_signature", ofOption .str tx.pqSignature),
  ("chain_id", .str tx.chainId)]

def ofJson (parseTime : String → Option DateTime) : Json → Option Transaction
  | .obj m => do
    return {
      id := ← required asText m "id"
      sender := ← withDefault none (asOption asText) m "from"
      recipient := ← required asText m "to"
      amount := ← required UInt64.ofJson m "amount"
      transactionType := ← required TransactionType.ofJson m "transaction_type"
      timestamp := ← required (DateTime.ofJson parseTime) m "timestamp"
      nonce := ← withDefault 0 UInt64.ofJson m "nonce"
      publicKey := ← withDefault none (asOption asText) m "public_key"
      signature := ← withDefault none (asOption asText) m "signature"
      slashProof := ← withDefault none (asOption (SlashProof.ofJson parseTime)) m "slash_proof"
      vrfPublicKey := ← withDefault none (asOption asText) m "vrf_public_key"
      credential := ← withDefault none (asOption CredentialAction.ofJson) m "credential"
      vestingCliffBlocks := ←
        withDefault none (asOption UInt64.ofJson) m "vesting_cliff_blocks"
      vestingDurationBlocks := ←
        withDefault none (asOption UInt64.ofJson) m "vesting_duration_blocks"
      token := ← withDefault none (asOption TokenAction.ofJson) m "token"
      amm := ← withDefault none (asOption AmmAction.ofJson) m "amm"
      pqPublicKey := ← withDefault none (asOption asText) m "pq_public_key"
      pqSignature := ← withDefault none (asOption asText) m "pq_signature"
      chainId := ← withDefault "" asText m "chain_id" }
  | _ => none

end Transaction

/-! ## Timestamps -/

/-- The timestamp of a block satisfies `P`. -/
def Block.Timed (P : DateTime → Prop) (b : Block) : Prop := P b.timestamp

/-- All timestamps of a transaction satisfy `P`. -/
structure Transaction.Timed (P : DateTime → Prop) (tx : Transaction) : Prop where
  timestamp : P tx.timestamp
  blockA : ∀ p ∈ tx.slashProof, p.blockA.Timed P
  blockB : ∀ p ∈ tx.slashProof, p.blockB.Timed P

theorem Transaction.Timed.mono {P Q : DateTime → Prop} {tx : Transaction} (h : tx.Timed P)
    (hpq : ∀ t, P t → Q t) : tx.Timed Q where
  timestamp := hpq _ h.timestamp
  blockA p hp := hpq _ (h.blockA p hp)
  blockB p hp := hpq _ (h.blockB p hp)

/-- A timestamp is read back from its text. -/
def DateTime.ReadBack (parseTime : String → Option DateTime) (t : DateTime) : Prop :=
  parseTime t.debugText = some t

theorem SlashProof.ofJson_toJson {parseTime : String → Option DateTime} {p : SlashProof}
    (ha : p.blockA.Timed (DateTime.ReadBack parseTime))
    (hb : p.blockB.Timed (DateTime.ReadBack parseTime)) :
    ofJson parseTime p.toJson = some p := by
  unfold toJson ofJson
  simp only [required, member]
  simp [Block.ofJson_toJson ha, Block.ofJson_toJson hb]

/-- A written transaction is read back, if its timestamps are. -/
theorem Transaction.ofJson_toJson {parseTime : String → Option DateTime} {tx : Transaction}
    (h : tx.Timed (DateTime.ReadBack parseTime)) : ofJson parseTime tx.toJson = some tx := by
  have htime : DateTime.ofJson parseTime tx.timestamp.toJson = some tx.timestamp := h.timestamp
  have hproof : asOption (SlashProof.ofJson parseTime) (ofOption SlashProof.toJson tx.slashProof) =
      some tx.slashProof :=
    asOption_ofOption (fun p hp => SlashProof.ofJson_toJson (h.blockA p hp) (h.blockB p hp))
      fun _ h => nomatch h
  have hcredential : asOption CredentialAction.ofJson
      (ofOption CredentialAction.toJson tx.credential) = some tx.credential :=
    asOption_ofOption (fun c _ => c.ofJson_toJson) fun _ h => nomatch h
  have htoken : asOption TokenAction.ofJson (ofOption TokenAction.toJson tx.token) =
      some tx.token := asOption_ofOption (fun t _ => t.ofJson_toJson) fun _ h => nomatch h
  have hamm : asOption AmmAction.ofJson (ofOption AmmAction.toJson tx.amm) = some tx.amm :=
    asOption_ofOption (fun a _ => a.ofJson_toJson) fun _ h => nomatch h
  have hnumber : ∀ o, asOption UInt64.ofJson (ofOption UInt64.toJson o) = some o := fun _ =>
    asOption_ofOption (fun n _ => n.ofJson_toJson) fun _ h => nomatch h
  unfold toJson ofJson
  simp only [required, withDefault, member]
  simp [asText, asOption_text, UInt64.ofJson_toJson, TransactionType.ofJson_toJson, htime, hproof,
    hcredential, htoken, hamm, hnumber]
