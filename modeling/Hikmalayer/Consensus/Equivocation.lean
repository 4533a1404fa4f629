/-
# What an equivocation proof proves

The header text of a block is a plain concatenation, so the boundary between the index and
the Merkle root is not part of the hash.  A signed header can be read again at any index
that its text starts with: two blocks signed at different heights are an accepted proof as
soon as their indices start with the same digit.
-/
import Mathlib.Tactic
import Hikmalayer.Foundations.Text
import Hikmalayer.Model.Hex
import Hikmalayer.Model.Sample
import Hikmalayer.Authorization.Messages
import Hikmalayer.Ledger.Branches

open Outcome

/-! ## Header texts -/

namespace Block

variable {E : Env} {b c : Block}

/-- A block whose first nonce already meets the difficulty. -/
theorem newAt_first {ε : Type} {E : Env} {timestamp : DateTime} {index : UInt64}
    {transactions : List String} {previousHash : String} {difficulty : UInt64}
    {validator validatorPublicKey validatorSignature : Option String} {stateRoot : String}
    (h : Pow.startsWithZeroes (Pow.clampDifficulty (Pow.clampDifficulty difficulty))
      (sha256Hex E (hashPayload E index (computeMerkleRoot E transactions) stateRoot timestamp
        validator validatorPublicKey previousHash ++ toString (0 : UInt64))) = true) :
    (newAt E timestamp index transactions previousHash difficulty validator validatorPublicKey
      validatorSignature stateRoot : Outcome ε Block) =
      ok ⟨index, timestamp, transactions, computeMerkleRoot E transactions, stateRoot,
        previousHash, Pow.clampDifficulty difficulty, 0,
        sha256Hex E (hashPayload E index (computeMerkleRoot E transactions) stateRoot timestamp
          validator validatorPublicKey previousHash ++ toString (0 : UInt64)),
        validator, validatorPublicKey, validatorSignature, none, none, none⟩ := by
  have hfuel : (2 : ℕ) ^ 64 ≠ 0 := by norm_num
  obtain ⟨fuel, hfuel⟩ := Nat.exists_eq_succ_of_ne_zero hfuel
  rw [newAt, Pow.mineBlock, hfuel, Pow.search, if_pos h]
  rfl

/-- The first digit of the block index. -/
def leadingDigit (b : Block) : Option Char := (toString b.index).toList.head?

/-- The header text starts with the first digit of the index. -/
theorem head_preimage (E : Env) (b : Block) : (b.preimage E).toList.head? = b.leadingDigit := by
  obtain ⟨d, -, rest, hindex⟩ := Text.exists_head b.index
  simp [preimage, hashPayload, leadingDigit, String.toList_append, hindex]

/-- Past its first character the header text of `b` holds a timestamp and then the printed
address and key. -/
def Bears (E : Env) (address key : String) (b : Block) : Prop :=
  ∃ (before after : String) (t : DateTime), before ≠ "" ∧
    b.preimage E =
      before ++ t.debugText ++ debugOption E (some address) ++ debugOption E (some key) ++ after

/-- A block names its own validator and key. -/
theorem bears_of_names {address key : String} (hv : b.validator = some address)
    (hk : b.validatorPublicKey = some key) : b.Bears E address key := by
  refine ⟨toString b.index ++ b.merkleRoot ++ b.stateRoot, b.previousHash ++ toString b.nonce,
    b.timestamp, ?_, ?_⟩
  · intro h
    have hnil := congrArg String.toList h
    simp only [String.toList_append, String.toList_empty, List.append_eq_nil_iff] at hnil
    exact Text.toString_ne_nil b.index hnil.1.1
  · simp only [preimage, hashPayload, hv, hk, String.append_assoc]

/-- The hash of the header, signed under a key. -/
def Sealed (E : Env) (key : String) (b : Block) : Prop :=
  b.hash = b.calculateHash E ∧
    ∃ signature, b.validatorSignature = some signature ∧
      Pos.verifyBlockSignature E b.hash key signature = true

end Block

/-- What an accepted equivocation proof consists of. -/
theorem SlashProof.verify_eq_ok {E : Env} {proof : SlashProof} {v : String} :
    proof.verify E = ok v ↔
      proof.blockA.index = proof.blockB.index ∧ proof.blockA.hash ≠ proof.blockB.hash ∧
      proof.blockA.validator = some v ∧ proof.blockB.validator = some v ∧
      ∃ key, proof.blockA.validatorPublicKey = some key ∧
        proof.blockB.validatorPublicKey = some key ∧
        proof.blockA.Sealed E key ∧ proof.blockB.Sealed E key := by
  simp only [SlashProof.verify, SlashProof.checkSignature, Block.Sealed, Outcome.bind_eq_ok,
    ensure_eq_ok, okOr_eq_ok, pure_eq, ok.injEq]
  constructor
  · rintro ⟨_, hindex, _, hhash, _, hva, _, hvb, key, hka, _, hkb, _, rfl, _, ⟨hcalcA, hcalcB⟩, _,
      ⟨sigA, hsigA, hokA⟩, _, ⟨sigB, hsigB, hokB⟩, rfl⟩
    exact ⟨hindex, hhash, hva, hvb, key, hka, hkb, ⟨hcalcA, sigA, hsigA, hokA⟩,
      ⟨hcalcB, sigB, hsigB, hokB⟩⟩
  · rintro ⟨hindex, hhash, hva, hvb, key, hka, hkb, ⟨hcalcA, sigA, hsigA, hokA⟩,
      ⟨hcalcB, sigB, hsigB, hokB⟩⟩
    exact ⟨(), hindex, (), hhash, v, hva, (), hvb, key, hka, key, hkb, (), rfl, (),
      ⟨hcalcA, hcalcB⟩, (), ⟨sigA, hsigA, hokA⟩, (), ⟨sigB, hsigB, hokB⟩, rfl⟩

/-! ## Honest signers -/

/-- The text is a spelling of a secp256k1 point. -/
def Spells (E : Env) (key : String) (point : List UInt8) : Prop :=
  ∃ bytes, hexDecode key = some bytes ∧ E.parsePublicKey bytes = some point

/-- The holder of a point has signed exactly the hashes of these blocks, each built by
`new_at` and no two at one index, and nobody else can sign under the point. -/
structure HonestSigner (E : Env) (point : List UInt8) (signed : Set Block) : Prop where
  built : ∀ b ∈ signed, ∃ timestamp index transactions previousHash difficulty validator
    validatorPublicKey validatorSignature stateRoot,
      (Block.newAt E timestamp index transactions previousHash difficulty validator
        validatorPublicKey validatorSignature stateRoot : Outcome String Block) = ok b
  one_per_index : ∀ b ∈ signed, ∀ c ∈ signed, b.index = c.index → b = c
  signs : ∀ b ∈ signed, ∃ digest signature,
    hexDecode b.hash = some digest ∧ E.verifyEcdsa digest signature point = true
  unforgeable : ∀ digest signature, E.verifyEcdsa digest signature point = true →
    ∃ b ∈ signed, hexDecode b.hash = some digest

/-- The header texts of some blocks, as hashed. -/
def headers (E : Env) (blocks : Set Block) : Set (List UInt8) :=
  (fun b => utf8 (b.preimage E)) '' blocks

/-- A proof whose signatures are under the point, without a hash collision between its
headers and the signed ones. -/
structure SlashProof.Against (E : Env) (point : List UInt8) (signed : Set Block)
    (proof : SlashProof) : Prop where
  key : ∃ key, proof.blockA.validatorPublicKey = some key ∧ Spells E key point
  collisionFree : E.CollisionFree (headers E (insert proof.blockA (insert proof.blockB signed)))

/-- No proof against the holder of the point is accepted, and no slash of the address
registered with the point is applied. -/
structure Unslashable (E : Node) (address : String) (point : List UInt8) (signed : Set Block) :
    Prop where
  verify : ∀ proof : SlashProof, proof.Against E point signed → proof.verify E ≠ ok address
  apply : ∀ (tx : Transaction) (proof : SlashProof) (producer : String) (s s' : ChainState)
    (height : UInt64),
      tx.transactionType = .slash → tx.recipient = address → tx.slashProof = some proof →
      (∀ info, s.stakers[address]? = some info → Spells E info.publicKey point) →
      E.CollisionFree (headers E (insert proof.blockA (insert proof.blockB signed))) →
      tx.verifyForBlock E producer = ok () → s.applyVerified E tx height ≠ ok ((), s')

/-! ## Sufficiency -/

section

variable {E : Node} {address : String} {point : List UInt8} {signed : Set Block}

/-- No two signed blocks that bear the address under one spelling of the key have indices
with the same first digit, unless they have one hash. -/
def LeadsApart (E : Env) (address : String) (point : List UInt8) (signed : Set Block) : Prop :=
  ∀ key, Spells E key point → ∀ b ∈ signed, ∀ c ∈ signed, b.Bears E address key →
    c.Bears E address key → b.hash ≠ c.hash → b.leadingDigit ≠ c.leadingDigit

/-- The digest behind the hash of a header. -/
theorem Block.decode_calculateHash {E : Env} {b : Block} {digest : List UInt8}
    (hb : b.hash = b.calculateHash E) (h : hexDecode b.hash = some digest) :
    digest = (E.sha256 (utf8 (b.preimage E))).bytes := by
  rw [hb, Block.calculateHash, sha256Hex, hexDecode_hexEncode, Option.some.injEq] at h
  exact h.symm

theorem Digest.ext_bytes {a b : Digest} (h : a.bytes = b.bytes) : a = b := by
  cases a
  cases b
  simp only at h
  subst h
  rfl

/-- A verified block signature is a signature of the digest under the key's point. -/
theorem Pos.verifyBlockSignature_eq_true {E : Env} {hash key signature : String} :
    Pos.verifyBlockSignature E hash key signature = true ↔
      ∃ digest bytes keyBytes p, hexDecode hash = some digest ∧ digest.length = 32 ∧
        hexDecode signature = some bytes ∧ hexDecode key = some keyBytes ∧
        E.parsePublicKey keyBytes = some p ∧ E.verifyEcdsa digest bytes p = true := by
  unfold Pos.verifyBlockSignature Pos.verifyDigest
  constructor
  · intro h
    split at h
    · rename_i digest hd
      split at h
      · cases h
      · rename_i hlen
        split at h
        · rename_i bytes keyBytes hb hk
          split at h
          · rename_i p hp
            exact ⟨digest, bytes, keyBytes, p, hd, not_not.mp hlen, hb, hk, hp, h⟩
          · cases h
        · cases h
    · cases h
  · rintro ⟨digest, bytes, keyBytes, p, hd, hlen, hb, hk, hp, h⟩
    simp only [hd, hlen, hb, hk, hp, h, ne_eq, not_true_eq_false, if_false]

/-- A header sealed under the point is, as a text, one of the signed headers. -/
theorem HonestSigner.sealed (hs : HonestSigner E point signed) {key : String}
    (hkey : Spells E key point) {b : Block} (hb : b.Sealed E key)
    {blocks : Set Block} (hsub : signed ⊆ blocks) (hmem : b ∈ blocks)
    (hfree : E.CollisionFree (headers E blocks)) :
    ∃ x ∈ signed, x.preimage E = b.preimage E ∧ x.hash = b.hash := by
  obtain ⟨hhash, signature, -, hsig⟩ := hb
  obtain ⟨digest, bytes, keyBytes, p, hd, -, -, hk, hp, hv⟩ :=
    Pos.verifyBlockSignature_eq_true.mp hsig
  obtain ⟨keyBytes', hk', hp'⟩ := hkey
  obtain rfl : keyBytes' = keyBytes := by
    rw [hk, Option.some.injEq] at hk'
    exact hk'.symm
  obtain rfl : p = point := by
    rw [hp, Option.some.injEq] at hp'
    exact hp'
  obtain ⟨x, hx, hdx⟩ := hs.unforgeable digest bytes hv
  obtain ⟨_, _, _, _, _, _, _, _, _, hnew⟩ := hs.built x hx
  have hxhash := (Block.newAt_valid hnew).1
  have hdigest : E.sha256 (utf8 (x.preimage E)) = E.sha256 (utf8 (b.preimage E)) := by
    apply Digest.ext_bytes
    rw [← Block.decode_calculateHash hxhash hdx, ← Block.decode_calculateHash hhash hd]
  have htext : x.preimage E = b.preimage E := by
    apply utf8_injective
    exact hfree ⟨x, hsub hx, rfl⟩ ⟨b, hmem, rfl⟩ hdigest
  refine ⟨x, hx, htext, ?_⟩
  rw [hxhash, hhash, Block.calculateHash, Block.calculateHash, htext]

/-- With indices that start differently, no proof against the signer is accepted. -/
theorem LeadsApart.verify_ne (hapart : LeadsApart E address point signed)
    (hs : HonestSigner E point signed) {proof : SlashProof}
    (hp : proof.Against E point signed) : proof.verify E ≠ ok address := by
  intro h
  obtain ⟨hindex, hhash, hva, hvb, key, hka, hkb, hsealA, hsealB⟩ := SlashProof.verify_eq_ok.mp h
  obtain ⟨key', hkey', hspell⟩ := hp.key
  obtain rfl : key' = key := by
    rw [hka, Option.some.injEq] at hkey'
    exact hkey'.symm
  have hsub : signed ⊆ insert proof.blockA (insert proof.blockB signed) := fun _ h =>
    Set.mem_insert_of_mem _ (Set.mem_insert_of_mem _ h)
  obtain ⟨x, hx, htextA, hxhash⟩ := hs.sealed hspell hsealA hsub
    (Set.mem_insert _ _) hp.collisionFree
  obtain ⟨y, hy, htextB, hyhash⟩ := hs.sealed hspell hsealB hsub
    (Set.mem_insert_of_mem _ (Set.mem_insert _ _)) hp.collisionFree
  have hbx : x.Bears E address key' := by
    have := Block.bears_of_names (E := E) hva hka
    rwa [Block.Bears, ← htextA] at this
  have hby : y.Bears E address key' := by
    have := Block.bears_of_names (E := E) hvb hkb
    rwa [Block.Bears, ← htextB] at this
  apply hapart key' hspell x hx y hy hbx hby (by rwa [hxhash, hyhash])
  rw [← Block.head_preimage E x, ← Block.head_preimage E y, htextA, htextB, Block.head_preimage,
    Block.head_preimage, Block.leadingDigit, Block.leadingDigit, hindex]

/-- A slash is applied only to the holder of the key its proof is under. -/
theorem ChainState.applySlash_key {tx : Transaction} {s s' : ChainState} {height : UInt64}
    (ht : tx.transactionType = .slash) (h : s.applyVerified E tx height = ok ((), s')) :
    ∃ proof info, tx.slashProof = some proof ∧ s.stakers[tx.recipient]? = some info ∧
      proof.blockA.validatorPublicKey.getD "" = info.publicKey := by
  simp only [applyVerified, applyBranch, ht, applySlash, Exec.bind_eq_ok, Exec.read_eq_ok] at h
  obtain ⟨_, _, ⟨-, rfl⟩, _, _, ⟨-, rfl⟩, r, _, ⟨hc, -⟩, -⟩ := h
  obtain ⟨proof, info, hp, hi, hk, -⟩ := slashChecks_ok hc
  exact ⟨proof, info, hp, hi, hk⟩

theorem LeadsApart.unslashable (hapart : LeadsApart E address point signed)
    (hs : HonestSigner E point signed) : Unslashable E address point signed where
  verify _ hp := hapart.verify_ne hs hp
  apply := by
    intro tx proof producer s s' height ht hrec hproof hreg hfree hver happ
    have hsame : ∀ proof', tx.slashProof = some proof' → proof' = proof := fun proof' h => by
      rw [hproof, Option.some.injEq] at h
      exact h.symm
    obtain ⟨proof', info, hproof', hinfo, hkey⟩ := ChainState.applySlash_key ht happ
    obtain ⟨-, proof'', hproof'', hverify⟩ := (Transaction.verifyForBlock_slash ht).mp hver
    rw [hsame proof' hproof'] at hkey
    rw [hsame proof'' hproof''] at hverify
    rw [hrec] at hverify hinfo
    obtain ⟨-, -, -, -, key, hka, -⟩ := SlashProof.verify_eq_ok.mp hverify
    rw [hka, Option.getD_some] at hkey
    refine hapart.verify_ne hs ⟨⟨key, hka, ?_⟩, hfree⟩ hverify
    rw [hkey]
    exact hreg info hinfo

/-! ## Necessity -/

/-- The header text of a block ends in a digit. -/
theorem Block.preimage_last (E : Env) (b : Block) :
    ∃ d < 10, ∃ front, (b.preimage E).toList = front ++ [Nat.digitChar d] := by
  obtain ⟨d, hd, front, hlast⟩ := Text.exists_last b.nonce
  refine ⟨d, hd, (hashPayload E b.index b.merkleRoot b.stateRoot b.timestamp b.validator
    b.validatorPublicKey b.previousHash).toList ++ front, ?_⟩
  rw [preimage, String.toList_append, hlast, ← List.append_assoc]

/-- The same header text read again: the first digit is the index, the rest up to the
timestamp is the Merkle root, and the last digit is the nonce. -/
def Block.reread (b : Block) (address key : String) (index : UInt64) (root : String)
    (t : DateTime) (previousHash : String) (nonce : UInt64) (signature : String) : Block :=
  { b with
    index := index
    merkleRoot := root
    stateRoot := ""
    timestamp := t
    previousHash := previousHash
    nonce := nonce
    validator := some address
    validatorPublicKey := some key
    validatorSignature := some signature }

/-- A header text that bears an address and key can be read at the index of its first
digit. -/
theorem Block.Bears.exists_reread {E : Env} {address key : String} {b : Block}
    (h : b.Bears E address key) :
    ∃ root t previousHash nonce, ∃ d < 10, b.leadingDigit = some (Nat.digitChar d) ∧
      ∀ signature, (b.reread address key (UInt64.ofNat d) root t previousHash nonce
        signature).preimage E = b.preimage E := by
  obtain ⟨before, after, t, hbefore, htext⟩ := h
  -- the index takes the first character of what precedes the timestamp
  obtain ⟨d, hd, rest, hlead⟩ := Text.exists_head b.index
  have hbefore' : before.toList ≠ [] := fun hnil => hbefore (String.toList_inj.mp hnil)
  obtain ⟨c, root, hsplit⟩ := List.exists_cons_of_ne_nil hbefore'
  have hchars := congrArg String.toList htext
  have hc : Nat.digitChar d = c := by
    have hhead := congrArg List.head? hchars
    rw [head_preimage, leadingDigit, hlead] at hhead
    simpa [String.toList_append, hsplit] using hhead
  -- the nonce takes the last character, which the closing bracket of the key is not
  obtain ⟨e, he, front, hlast⟩ := b.preimage_last E
  have hafter : after.toList ≠ [] := by
    intro hnil
    rw [hlast] at hchars
    have hend := congrArg List.getLast? hchars
    simp only [debugOption, String.toList_append, hnil, List.append_nil,
      List.getLast?_append, List.getLast?_singleton, Option.some_or] at hend
    interval_cases e <;> simp at hend
  have hcut := List.dropLast_append_getLast hafter
  have hdigit : after.toList.getLast hafter = Nat.digitChar e := by
    rw [hlast] at hchars
    have hend := congrArg List.getLast? hchars
    rw [List.getLast?_append, List.getLast?_singleton, Option.some_or] at hend
    rw [String.toList_append, List.getLast?_append, List.getLast?_eq_some_getLast hafter,
      Option.some_or, Option.some.injEq] at hend
    exact hend.symm
  refine ⟨String.ofList root, t, String.ofList after.toList.dropLast, UInt64.ofNat e, d, hd, ?_,
    fun signature => ?_⟩
  · rw [leadingDigit, hlead]
    rfl
  · apply String.toList_inj.mp
    rw [hchars]
    simp only [preimage, hashPayload, reread, String.toList_append, String.toList_ofList,
      Text.toList_toString_digit hd, Text.toList_toString_digit he, hsplit, hc, ← hdigit,
      String.toList_empty, List.append_assoc, hcut, List.nil_append, List.cons_append]

/-- The signer's own signature seals a reread header. -/
theorem HonestSigner.sealed_reread (hs : HonestSigner E point signed) {key : String}
    (hkey : Spells E key point) {b : Block} (hb : b ∈ signed) :
    ∃ signature, ∀ c : Block, c.preimage E = b.preimage E → c.hash = b.hash →
      c.validatorSignature = some signature → c.Sealed E key := by
  obtain ⟨digest, signature, hd, hv⟩ := hs.signs b hb
  obtain ⟨keyBytes, hk, hp⟩ := hkey
  obtain ⟨_, _, _, _, _, _, _, _, _, hnew⟩ := hs.built b hb
  have hhash := (Block.newAt_valid hnew).1
  refine ⟨hexEncode signature, fun c htext hchash hsig => ⟨?_, _, hsig, ?_⟩⟩
  · rw [hchash, hhash, Block.calculateHash, Block.calculateHash, htext]
  · rw [hchash]
    refine Pos.verifyBlockSignature_eq_true.mpr ⟨digest, signature, keyBytes, point, hd, ?_,
      hexDecode_hexEncode _, hk, hp, hv⟩
    rw [Block.decode_calculateHash hhash hd]
    exact (E.sha256 _).length_bytes

/-- Rereading signed headers brings no new header text. -/
theorem headers_insert {E : Env} {b b' c c' : Block} (hb : b ∈ signed) (hc : c ∈ signed)
    (hb' : b'.preimage E = b.preimage E) (hc' : c'.preimage E = c.preimage E) :
    headers E (insert b' (insert c' signed)) = headers E signed := by
  unfold headers
  rw [Set.image_insert_eq, Set.image_insert_eq, hb', hc',
    Set.insert_eq_of_mem (Set.mem_image_of_mem (fun b => utf8 (b.preimage E)) hc),
    Set.insert_eq_of_mem (Set.mem_image_of_mem (fun b => utf8 (b.preimage E)) hb)]

/-- Two signed headers whose indices start alike make an accepted proof. -/
theorem HonestSigner.exists_proof (hs : HonestSigner E point signed)
    (hfree : E.CollisionFree (headers E signed)) {key : String} (hkey : Spells E key point)
    {b c : Block} (hb : b ∈ signed) (hc : c ∈ signed) (hbb : b.Bears E address key)
    (hbc : c.Bears E address key) (hhash : b.hash ≠ c.hash)
    (hlead : b.leadingDigit = c.leadingDigit) :
    ∃ proof : SlashProof, proof.Against E point signed ∧ proof.verify E = ok address := by
  obtain ⟨rootB, tB, prevB, nonceB, d, hd, hdb, htextB⟩ := hbb.exists_reread
  obtain ⟨rootC, tC, prevC, nonceC, e, he, hec, htextC⟩ := hbc.exists_reread
  obtain ⟨sigB, hsealB⟩ := hs.sealed_reread hkey hb
  obtain ⟨sigC, hsealC⟩ := hs.sealed_reread hkey hc
  have hde : d = e := by
    have hchar : Nat.digitChar d = Nat.digitChar e := by
      rw [hdb, hec, Option.some.injEq] at hlead
      exact hlead
    interval_cases d <;> interval_cases e <;> first | rfl | cases hchar
  refine ⟨⟨b.reread address key (UInt64.ofNat d) rootB tB prevB nonceB sigB,
    c.reread address key (UInt64.ofNat e) rootC tC prevC nonceC sigC⟩, ⟨⟨key, rfl, hkey⟩, ?_⟩, ?_⟩
  · rw [headers_insert hb hc (htextB sigB) (htextC sigC)]
    exact hfree
  · exact SlashProof.verify_eq_ok.mpr ⟨congrArg UInt64.ofNat hde, hhash, rfl, rfl, key, rfl, rfl,
      hsealB _ (htextB sigB) rfl rfl, hsealC _ (htextC sigC) rfl rfl⟩

/-- An honest signer cannot be slashed exactly when no two of its signed headers start with
the same digit. -/
theorem unslashable_iff (hs : HonestSigner E point signed)
    (hfree : E.CollisionFree (headers E signed)) :
    Unslashable E address point signed ↔ LeadsApart E address point signed := by
  refine ⟨fun h key hkey b hb c hc hbb hbc hhash hlead => ?_, fun h => h.unslashable hs⟩
  obtain ⟨proof, hp, hverify⟩ := hs.exists_proof hfree hkey hb hc hbb hbc hhash hlead
  exact h.verify proof hp hverify

end

/-! ## Two signers -/

namespace Sample

/-- An empty block of holder 7, as `new_at` builds it. -/
def minedBlock (index : UInt64) : Block :=
  let payload := Block.hashPayload (env []) index (computeMerkleRoot (env []) []) "" morning
    (some (address 7)) (some (publicKey 7)) "0"
  ⟨index, morning, [], computeMerkleRoot (env []) [], "", "0", 1, 0,
    sha256Hex (env []) (payload ++ toString (0 : UInt64)), some (address 7), some (publicKey 7),
    none, none, none, none⟩

theorem minedBlock_hash (index : UInt64) :
    (minedBlock index).hash = (minedBlock index).calculateHash (env []) := rfl

/-- The node on which holder 7 has signed the blocks at two indices and nothing else. -/
def signer (i j : UInt64) : Node :=
  { node [] with
    verifyEcdsa := fun message signature key =>
      signature = ecdsa message key ∧
        (hexEncode message = (minedBlock i).hash ∨ hexEncode message = (minedBlock j).hash) }

theorem newAt_minedBlock (i j index : UInt64) :
    (Block.newAt (signer i j) morning index [] "0" 1 (some (address 7)) (some (publicKey 7)) none
      "" : Outcome String Block) = ok (minedBlock index) := by
  exact Block.newAt_first (startsWithZeroes_digest (Or.inl rfl) _)

/-- Two blocks with different hashes, each signed once. -/
theorem signer_honest {i j : UInt64} (hij : i ≠ j) :
    HonestSigner (signer i j) (keyBytes 7) {minedBlock i, minedBlock j} where
  built := by
    rintro b (rfl | rfl) <;> exact ⟨_, _, _, _, _, _, _, _, _, newAt_minedBlock i j _⟩
  one_per_index := by
    rintro b (rfl | rfl) c (rfl | rfl) h
    · rfl
    · exact absurd h hij
    · exact absurd h.symm hij
    · rfl
  signs := by
    rintro b (rfl | rfl)
    · exact ⟨_, _, hexDecode_hexEncode _, decide_eq_true ⟨rfl, Or.inl rfl⟩⟩
    · exact ⟨_, _, hexDecode_hexEncode _, decide_eq_true ⟨rfl, Or.inr rfl⟩⟩
  unforgeable := by
    intro message signature h
    rcases (of_decide_eq_true h).2 with h | h
    · exact ⟨_, Or.inl rfl, by rw [← h, hexDecode_hexEncode]⟩
    · exact ⟨_, Or.inr rfl, by rw [← h, hexDecode_hexEncode]⟩

/-- Different hashes are no collision. -/
theorem signer_collisionFree {i j : UInt64} (h : (minedBlock i).hash ≠ (minedBlock j).hash) :
    (signer i j).CollisionFree (headers (signer i j) {minedBlock i, minedBlock j}) := by
  have hne : (digest (utf8 ((minedBlock i).preimage (env [])))) ≠
      (digest (utf8 ((minedBlock j).preimage (env [])))) := fun hd =>
    h (by rw [minedBlock_hash, minedBlock_hash]; exact congrArg (fun d => hexEncode d.bytes) hd)
  rintro _ ⟨b, rfl | rfl, rfl⟩ _ ⟨c, rfl | rfl, rfl⟩ hd
  · rfl
  · exact absurd hd hne
  · exact absurd hd.symm hne
  · rfl

end Sample

/-- Signing at heights 10 and 20 is safe. -/
theorem unslashable_sample :
    Unslashable (Sample.signer 10 20) (Sample.address 7) (Sample.keyBytes 7)
      {Sample.minedBlock 10, Sample.minedBlock 20} := by
  refine (unslashable_iff (Sample.signer_honest (by decide))
    (Sample.signer_collisionFree (by decide +kernel))).mpr ?_
  rintro key - b (rfl | rfl) c (rfl | rfl) - - hne
  · exact absurd rfl hne
  · decide
  · decide
  · exact absurd rfl hne

namespace Sample

/-- The block at an index, read at another one with the rest of the digits in the root. -/
def rereadBlock (index digit : UInt64) (rest : String) : Block :=
  (minedBlock index).reread (address 7) (publicKey 7) digit
    (rest ++ computeMerkleRoot (env []) []) morning "0" 0
    (signDigest 7 (digest (utf8 ((minedBlock index).preimage (env [])))).bytes)

/-- Two blocks read at one index. -/
def frame (i j digit : UInt64) (restI restJ : String) : SlashProof :=
  ⟨rereadBlock i digit restI, rereadBlock j digit restJ⟩

/-- A slash of holder 7. -/
def slash (proof : SlashProof) : Transaction :=
  { reward with
    recipient := address 7
    amount := 0
    transactionType := .slash
    slashProof := some proof }

theorem rereadBlock_index (index digit : UInt64) (rest : String) :
    (rereadBlock index digit rest).index = digit := rfl

theorem rereadBlock_preimage (E : Env) {index digit : UInt64} {rest : String}
    (h : toString index = toString digit ++ rest) :
    (rereadBlock index digit rest).preimage E = (minedBlock index).preimage E := by
  change toString digit ++ (rest ++ _) ++ "" ++ _ ++ _ ++ _ ++ _ ++ _ =
    toString index ++ _ ++ "" ++ _ ++ _ ++ _ ++ _ ++ _
  rw [h]
  simp only [String.append_assoc]
  rfl

/-- The signer's own signature seals a reread block. -/
theorem rereadBlock_sealed {i j index digit : UInt64} {rest : String}
    (hmem : index = i ∨ index = j) (h : toString index = toString digit ++ rest) :
    (rereadBlock index digit rest).Sealed (signer i j) (publicKey 7) := by
  refine ⟨?_, _, rfl, Pos.verifyBlockSignature_eq_true.mpr ⟨_, _, keyBytes 7, keyBytes 7,
    hexDecode_hexEncode _, (digest _).length_bytes, hexDecode_hexEncode _, hexDecode_hexEncode _,
    rfl, decide_eq_true ⟨rfl, ?_⟩⟩⟩
  · change sha256Hex (env []) ((minedBlock index).preimage (env [])) =
      sha256Hex (env []) ((rereadBlock index digit rest).preimage (env []))
    rw [rereadBlock_preimage _ h]
  · rcases hmem with rfl | rfl
    · exact Or.inl rfl
    · exact Or.inr rfl

variable {i j digit : UInt64} {restI restJ : String}

theorem frame_verify (hne : (minedBlock i).hash ≠ (minedBlock j).hash)
    (hi : toString i = toString digit ++ restI) (hj : toString j = toString digit ++ restJ) :
    (frame i j digit restI restJ).verify (signer i j) = ok (address 7) :=
  SlashProof.verify_eq_ok.mpr ⟨(rereadBlock_index _ _ _).trans (rereadBlock_index _ _ _).symm,
    hne, rfl, rfl, publicKey 7, rfl, rfl, rereadBlock_sealed (Or.inl rfl) hi,
    rereadBlock_sealed (Or.inr rfl) hj⟩

theorem frame_against (hne : (minedBlock i).hash ≠ (minedBlock j).hash)
    (hi : toString i = toString digit ++ restI) (hj : toString j = toString digit ++ restJ) :
    (frame i j digit restI restJ).Against (signer i j) (keyBytes 7)
      {minedBlock i, minedBlock j} := by
  refine ⟨⟨_, rfl, keyBytes 7, hexDecode_hexEncode _, rfl⟩, ?_⟩
  have h : headers (signer i j) {rereadBlock i digit restI, rereadBlock j digit restJ,
      minedBlock i, minedBlock j} = headers (signer i j) {minedBlock i, minedBlock j} :=
    headers_insert (Set.mem_insert _ _) (Set.mem_insert_of_mem _ rfl)
      (rereadBlock_preimage _ hi) (rereadBlock_preimage _ hj)
  rw [frame, h]
  exact signer_collisionFree hne

theorem slash_verifyForBlock {E : Env} {proof : SlashProof} {producer : String}
    (h : proof.verify E = ok (address 7)) : (slash proof).verifyForBlock E producer = ok () :=
  (Transaction.verifyForBlock_slash rfl).mpr ⟨⟨rfl, rfl⟩, proof, rfl, h⟩

end Sample

/-- An honest signer of the blocks at heights 10 and 11 is framed by the proof that reads
both at height 1, and the slash is applied at height 12. -/
theorem framed_at_ten_and_eleven :
    HonestSigner (Sample.signer 10 11) (Sample.keyBytes 7)
        {Sample.minedBlock 10, Sample.minedBlock 11} ∧
      (Sample.frame 10 11 1 "0" "1").Against (Sample.signer 10 11) (Sample.keyBytes 7)
        {Sample.minedBlock 10, Sample.minedBlock 11} ∧
      (Sample.frame 10 11 1 "0" "1").verify (Sample.signer 10 11) = ok (Sample.address 7) ∧
      (Sample.slash (Sample.frame 10 11 1 "0" "1")).verifyForBlock (Sample.signer 10 11) "" =
        ok () ∧
      ∃ s', (Sample.genesis 1000000000000000).applyVerified (Sample.signer 10 11)
        (Sample.slash (Sample.frame 10 11 1 "0" "1")) 12 = ok ((), s') := by
  have h10 : toString (10 : UInt64) = toString (1 : UInt64) ++ "0" := by decide
  have h11 : toString (11 : UInt64) = toString (1 : UInt64) ++ "1" := by decide
  have hne : (Sample.minedBlock 10).hash ≠ (Sample.minedBlock 11).hash := by decide +kernel
  have hverify := Sample.frame_verify hne h10 h11
  have happ : ((Sample.genesis 1000000000000000).applyVerified (Sample.signer 10 11)
      (Sample.slash (Sample.frame 10 11 1 "0" "1")) 12).returns (fun _ => true) = true := by
    decide +kernel
  obtain ⟨⟨_, s'⟩, hs', -⟩ := exists_of_returns happ
  exact ⟨Sample.signer_honest (by decide), Sample.frame_against hne h10 h11, hverify,
    Sample.slash_verifyForBlock hverify, s', hs'⟩
