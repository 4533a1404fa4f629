/-
# Registered keys

Every staker of a network whose genesis validator holds the treasury's key has registered an
ECDSA key in its canonical spelling, alone or with an ML-DSA key, from which its address
derives.  So two keys registered under one address, at any two moments, are the same text,
unless the digest of the addresses collides on them.
-/
import Mathlib.Tactic
import Hikmalayer.Authorization.Hybrid

open Outcome Exec OrderedMap

/-! ## Addresses -/

theorem utf8Size_digitChar {d : ℕ} (h : d < 16) : (Nat.digitChar d).utf8Size = 1 := by
  interval_cases d <;> rfl

theorem isHexLower_digitChar {d : ℕ} (h : d < 16) :
    Hybrid.isHexLower (Nat.digitChar d) = true := by
  interval_cases d <;> rfl

/-- What holds of every digit holds of the digits of a byte string. -/
theorem forall_mem_hexChars {p : Char → Prop} (hp : ∀ d < 16, p (Nat.digitChar d))
    (bytes : List UInt8) : ∀ c ∈ hexChars bytes, p c := by
  induction bytes with
  | nil => exact nofun
  | cons b rest ih =>
    intro c hc
    have hlt := b.toNat_lt
    rw [hexChars_cons] at hc
    rcases List.mem_cons.mp hc with rfl | hc
    · exact hp _ (by omega)
    rcases List.mem_cons.mp hc with rfl | hc
    · exact hp _ (by omega)
    · exact ih c hc

/-- The number of bytes of a text of one-byte characters. -/
theorem byteLen_of_narrow {l : List Char} (h : ∀ c ∈ l, c.utf8Size = 1) :
    byteLen (String.ofList l) = l.length := by
  induction l with
  | nil => rfl
  | cons c rest ih =>
    have hsize : [c].utf8Encode.size = 1 := by
      rw [List.utf8Encode_singleton, List.size_toByteArray, String.length_utf8EncodeChar,
        h c List.mem_cons_self]
    have hrest := ih fun c' hc' => h c' (List.mem_cons_of_mem _ hc')
    rw [byteLen, ← String.size_toByteArray, String.toByteArray_ofList] at hrest ⊢
    rw [List.utf8Encode_cons, ByteArray.size_append, hsize, hrest, List.length_cons, Nat.add_comm]

theorem byteLen_hexEncode (bytes : List UInt8) : byteLen (hexEncode bytes) = 2 * bytes.length := by
  rw [← length_hexChars]
  exact byteLen_of_narrow (forall_mem_hexChars (fun _ => utf8Size_digitChar) bytes)

namespace Hybrid

/-- A prefix and 20 bytes in hexadecimal. -/
theorem stripPrefix_append (start : String) (bytes : List UInt8) :
    stripPrefix start (start ++ hexEncode bytes) = some (hexChars bytes) := by
  unfold stripPrefix
  rw [String.toList_append, toList_hexEncode, if_pos (List.prefix_append _ _),
    List.drop_left]

theorem byteLen_address {start : String} (hstart : byteLen start = 3) {bytes : List UInt8}
    (hlen : bytes.length = 20) : byteLen (start ++ hexEncode bytes) = 43 := by
  have hsize := byteLen_hexEncode bytes
  unfold byteLen at hstart hsize ⊢
  rw [String.utf8ByteSize_append, hstart, hsize, hlen]

theorem all_isHexLower_hexChars (bytes : List UInt8) : (hexChars bytes).all isHexLower = true :=
  List.all_eq_true.mpr (forall_mem_hexChars (fun _ => isHexLower_digitChar) bytes)

/-- What is derived from two keys is a hybrid address. -/
theorem schemeOf_of_hybrid {E : Env} {publicKey pqPublicKey account : String}
    (h : deriveHybridAddress E publicKey pqPublicKey = ok account) :
    schemeOf account = some .hybrid := by
  simp only [deriveHybridAddress, Outcome.bind_eq_ok, pure_eq, ok.injEq] at h
  obtain ⟨point, -, pq, -, rfl⟩ := h
  have hlen : ((E.sha256 (utf8 addressDomain ++ point ++ pq)).bytes.take 20).length = 20 := by
    rw [List.length_take, (E.sha256 _).length_bytes]
    rfl
  unfold schemeOf
  rw [if_neg (not_not.mpr (byteLen_address (by decide) hlen)), stripPrefix_append]
  dsimp only
  rw [if_pos (all_isHexLower_hexChars _)]

/-- What is derived from one key is a classical address. -/
theorem schemeOf_of_classical {E : Env} {publicKey account : String}
    (h : Pos.deriveAddress E publicKey = ok account) : schemeOf account = some .classical := by
  simp only [Pos.deriveAddress, Outcome.bind_eq_ok, pure_eq, ok.injEq] at h
  obtain ⟨point, -, rfl⟩ := h
  have hlen : ((E.sha256 point).bytes.take 20).length = 20 := by
    rw [List.length_take, (E.sha256 _).length_bytes]
    rfl
  have hother : stripPrefix addressPrefix
      (Pos.addressPrefix ++ hexEncode ((E.sha256 point).bytes.take 20)) = none := by
    unfold stripPrefix
    rw [if_neg]
    rw [String.toList_append]
    intro hprefix
    have hthird := List.IsPrefix.getElem hprefix (i := 2) (by decide)
    rw [List.getElem_append_left (by decide)] at hthird
    exact absurd hthird (by decide)
  unfold schemeOf
  rw [if_neg (not_not.mpr (byteLen_address (by decide) hlen)), hother]
  dsimp only
  rw [stripPrefix_append]
  dsimp only
  rw [if_pos (all_isHexLower_hexChars _)]

end Hybrid

/-! ## What an ECDSA check reads -/

/-- A signature verifies exactly when both texts decode, the key is a point and the signature is
one of the digest under it. -/
theorem Pos.verifyMessage_iff {E : Env} {message publicKey signature : String} :
    verifyMessage E message publicKey signature = true ↔
    ∃ bytes key point, hexDecode signature = some bytes ∧ hexDecode publicKey = some key ∧
      E.parsePublicKey key = some point ∧
      E.verifyEcdsa (messageDigest E message) bytes point = true := by
  have hlen : (messageDigest E message).length = 32 := (E.sha256 _).length_bytes
  unfold verifyMessage verifyDigest
  rw [if_neg (not_not.mpr hlen)]
  constructor
  · intro h
    split at h
    · rename_i bytes key hs hk
      split at h
      · rename_i point hp
        exact ⟨bytes, key, point, hs, hk, hp, h⟩
      · cases h
    · cases h
  · rintro ⟨bytes, key, point, hs, hk, hp, hv⟩
    rw [hs, hk]
    dsimp only
    rw [hp]
    exact hv

/-- The ECDSA key a sender check accepts is spelled canonically. -/
theorem Transaction.SignedByKeys.canonical {E : Env} {tx : Transaction} {account text : String}
    (h : SignedByKeys E tx text account) :
    ∃ publicKey point, tx.publicKey = some publicKey ∧
      Pos.canonicalPublicKey E publicKey = ok point := by
  cases h with
  | @classical publicKey _ hkey hk =>
    simp only [Pos.deriveAddress, Outcome.bind_eq_ok] at hk
    obtain ⟨point, hc, -⟩ := hk
    exact ⟨publicKey, point, hkey, hc⟩
  | @hybrid publicKey _ _ hkey _ hk hsig =>
    -- the ECDSA check decodes the key as it stands, so there was nothing to trim
    obtain ⟨_, -, hv⟩ := hsig
    obtain ⟨_, _, _, -, hdecode, -⟩ := Pos.verifyMessage_iff.mp hv
    simp only [Hybrid.deriveHybridAddress, Outcome.bind_eq_ok, mapErr_eq_ok] at hk
    obtain ⟨point, hc, -⟩ := hk
    rw [trim_of_hexDecode hdecode] at hc
    exact ⟨publicKey, point, hkey, hc⟩

/-! ## Collisions -/

/-- The part of a digest that an address shows. -/
def addressDigest (E : Env) (input : List UInt8) : List UInt8 := (E.sha256 input).bytes.take 20

/-- What the keys of a staker entry can be hashed to an address from. -/
def addressInputs (E : Env) (info : StakeInfo) : Set (List UInt8) :=
  fun input => ∃ point, Pos.canonicalPublicKey E info.publicKey = ok point ∧
    (input = point ∨ ∃ pq, Pq.canonicalPqPublicKey (trim info.pqPublicKey) = ok pq ∧
      input = utf8 Hybrid.addressDomain ++ point ++ pq)

/-- The address digest does not collide on the keys of two entries. -/
def NoCollision (E : Env) (info info' : StakeInfo) : Prop :=
  Set.InjOn (addressDigest E) (addressInputs E info ∪ addressInputs E info')

/-- The keys of a staker entry: the ECDSA key in its canonical spelling, and the address derives
from it, or from it and the ML-DSA key. -/
inductive Registration (E : Env) (account : String) (info : StakeInfo) : Prop
  | classical (hk : Pos.deriveAddress E info.publicKey = ok account)
  | hybrid {point : List UInt8} (hc : Pos.canonicalPublicKey E info.publicKey = ok point)
      (hk : Hybrid.deriveHybridAddress E info.publicKey info.pqPublicKey = ok account)

namespace Registration

variable {E : Env} {account : String} {info info' : StakeInfo}

theorem withStake (h : Registration E account info) (stake : UInt64) :
    Registration E account { info with stake } := by
  cases h with
  | classical hk => exact .classical hk
  | hybrid hc hk => exact .hybrid hc hk

/-- A canonical spelling shows the key. -/
theorem spelling {publicKey : String} {point : List UInt8}
    (h : Pos.canonicalPublicKey E publicKey = ok point) :
    publicKey = hexEncode point ∧ trim publicKey = publicKey := by
  simp only [Pos.canonicalPublicKey, Outcome.bind_eq_ok, okOr_eq_ok, ensure_eq_ok, pure_eq,
    ok.injEq] at h
  obtain ⟨bytes, hb, _, -, _, hspell, rfl⟩ := h
  exact ⟨hspell.symm, trim_of_hexDecode hb⟩

theorem pqKey_length {value : String} {pq : List UInt8}
    (h : Pq.canonicalPqPublicKey value = ok pq) : pq.length = Pq.publicKeyLen := by
  simp only [Pq.canonicalPqPublicKey, Outcome.bind_eq_ok, ensure_eq_ok, pure_eq, ok.injEq] at h
  obtain ⟨bytes, -, _, hlen, _, -, rfl⟩ := h
  exact hlen

/-- An address of one key shows the digest of the key. -/
theorem classical_input (h : Pos.deriveAddress E info.publicKey = ok account) :
    ∃ point, Pos.canonicalPublicKey E info.publicKey = ok point ∧
      account = Pos.addressPrefix ++ hexEncode (addressDigest E point) := by
  simp only [Pos.deriveAddress, Outcome.bind_eq_ok, pure_eq, ok.injEq] at h
  obtain ⟨point, hc, rfl⟩ := h
  exact ⟨point, hc, rfl⟩

/-- An address of two keys shows the digest of both. -/
theorem hybrid_input {point : List UInt8} (hc : Pos.canonicalPublicKey E info.publicKey = ok point)
    (h : Hybrid.deriveHybridAddress E info.publicKey info.pqPublicKey = ok account) :
    ∃ pq, Pq.canonicalPqPublicKey (trim info.pqPublicKey) = ok pq ∧ account =
      Hybrid.addressPrefix ++ hexEncode (addressDigest E (utf8 Hybrid.addressDomain ++ point ++ pq)) := by
  simp only [Hybrid.deriveHybridAddress, Outcome.bind_eq_ok, mapErr_eq_ok, pure_eq, ok.injEq] at h
  obtain ⟨point', hc', pq, hpq, rfl⟩ := h
  rw [(spelling hc).2, hc, ok.injEq] at hc'
  exact ⟨pq, hpq, by rw [hc']; rfl⟩

theorem hexEncode_of_append {start : String} {a b : List UInt8}
    (h : start ++ hexEncode a = start ++ hexEncode b) : a = b := by
  refine hexEncode_injective (String.toList_inj.mp ?_)
  have hchars := congrArg String.toList h
  rw [String.toList_append, String.toList_append] at hchars
  exact List.append_cancel_left hchars

/-- Two registrations of one address are of the same key text. -/
theorem publicKey_eq (h : Registration E account info) (h' : Registration E account info')
    (hfree : NoCollision E info info') : info.publicKey = info'.publicKey := by
  cases h with
  | classical hk =>
    cases h' with
    | classical hk' =>
      obtain ⟨point, hc, haddr⟩ := classical_input hk
      obtain ⟨point', hc', haddr'⟩ := classical_input hk'
      have hsame : point = point' := hfree (Or.inl ⟨point, hc, Or.inl rfl⟩)
        (Or.inr ⟨point', hc', Or.inl rfl⟩) (hexEncode_of_append (haddr.symm.trans haddr'))
      rw [(spelling hc).1, (spelling hc').1, hsame]
    | hybrid _ hk' =>
      have hscheme := Hybrid.schemeOf_of_classical hk
      rw [Hybrid.schemeOf_of_hybrid hk'] at hscheme
      cases hscheme
  | hybrid hc hk =>
    cases h' with
    | classical hk' =>
      have hscheme := Hybrid.schemeOf_of_classical hk'
      rw [Hybrid.schemeOf_of_hybrid hk] at hscheme
      cases hscheme
    | hybrid hc' hk' =>
      obtain ⟨pq, hpq, haddr⟩ := hybrid_input hc hk
      obtain ⟨pq', hpq', haddr'⟩ := hybrid_input hc' hk'
      have hsame := hfree (Or.inl ⟨_, hc, Or.inr ⟨pq, hpq, rfl⟩⟩)
        (Or.inr ⟨_, hc', Or.inr ⟨pq', hpq', rfl⟩⟩) (hexEncode_of_append (haddr.symm.trans haddr'))
      -- the ML-DSA keys have one length, so the ECDSA keys end at the same place
      rw [List.append_assoc, List.append_assoc, List.append_cancel_left_eq] at hsame
      have hlen : pq.length = pq'.length := (pqKey_length hpq).trans (pqKey_length hpq').symm
      rw [(spelling hc).1, (spelling hc').1, (List.append_inj' hsame hlen).1]

end Registration

/-! ## Runs -/

namespace ChainState

variable {E : Node} {s s' : ChainState} {tx : Transaction} {height : UInt64}
  {account validator : String}

/-- Every staker's address derives from its keys. -/
def Registered (E : Env) (s : ChainState) : Prop :=
  ∀ account info, s.stakers[account]? = some info → Registration E account info

/-- Writing an entry whose keys derive. -/
theorem Registered.insert (h : Registered E s) {info : StakeInfo}
    (hi : Registration E account info) (hs : s'.stakers = s.stakers.insert account info) :
    Registered E s' := by
  have hall : All (Registration E) s.stakers := h
  unfold Registered
  rw [hs]
  exact hall.insert hi

/-- The keys of a signed stake. -/
theorem stake_registration {r : StakeRequest} {stake : UInt64} {vrfPublicKey pqPublicKey : String}
    (hver : tx.verifyForBlock E validator = ok ()) (ht : tx.transactionType = .stake)
    (hc : stakeChecks E tx s = ok r)
    (hpq : Hybrid.schemeOf r.sender = some .hybrid → tx.pqPublicKey = some pqPublicKey) :
    Registration E r.sender ⟨stake, r.publicKey, vrfPublicKey, pqPublicKey⟩ := by
  obtain ⟨text, hsigned⟩ := stakeChecks_signed hver ht hc
  obtain ⟨-, hkey, -⟩ := stakeChecks_ok hc
  obtain ⟨publicKey, point, hread, hc⟩ := hsigned.canonical
  obtain rfl : r.publicKey = publicKey := Option.some.inj (hkey.symm.trans hread)
  cases hsigned with
  | classical _ hk hd =>
    rw [hkey, Option.some.injEq] at hk
    exact .classical (hk ▸ hd)
  | hybrid hs hk hpqk hd =>
    rw [hpq hs, Option.some.injEq] at hpqk
    rw [hkey, Option.some.injEq] at hk
    subst hk hpqk
    exact .hybrid hc hd

/-- An applied transaction keeps the registrations. -/
theorem BondStep.registered (h : BondStep E tx height s s')
    (hver : tx.verifyForBlock E validator = ok ()) (hs : Registered E s) : Registered E s' := by
  cases h with
  | stake ht hc _ hpq hb =>
    exact hs.insert (stake_registration hver ht hc hpq) (congrArg Bonds.stakers hb)
  | withdraw ht hc hi _ _ hb =>
    exact hs.insert ((hs _ _ hi).withStake _) (congrArg Bonds.stakers hb)
  | slash ht hc hi hk => exact hs.insert ((hs _ _ hi).withStake _) hk
  | other _ hb =>
    have hk : s'.stakers = s.stakers := congrArg Bonds.stakers hb
    intro k i hi
    rw [hk] at hi
    exact hs k i hi

/-- Closing a block writes no key. -/
theorem Released.registered (h : Released height s s') (hs : Registered E s) : Registered E s' := by
  intro k i hi
  rcases h.stakers k with heq | ⟨hnone, -⟩
  · exact hs k i (heq ▸ hi)
  · rw [hnone] at hi
    cases hi

theorem Step.registered (h : Step E s s') (hs : Registered E s) : Registered E s' := by
  cases h with
  | apply _ hver h => exact (applyVerified_applied h).2.2.bondStep.registered hver hs
  | close _ h => exact (endBlock_released h).registered hs

end ChainState

/-! ## Genesis -/

namespace Blockchain

/-- The network has a genesis validator, whose canonical key derives to the treasury address, by
itself or with the genesis ML-DSA key. -/
def GenesisKeyDerives (E : Env) (chain : Blockchain) : Prop :=
  ∃ key, chain.genesisValidatorPublicKey = some key ∧
    Pos.isCanonicalPublicKey E key = true ∧
    (Pos.deriveAddress E key = ok chain.genesisTreasury ∨
      ∃ pq, Hybrid.deriveHybridAddress E key pq = ok chain.genesisTreasury)

variable {E : Node} {chain : Blockchain}

theorem GenesisKeyDerives.valid (h : chain.GenesisKeyDerives E) :
    isValidAddress chain.genesisTreasury = true := by
  obtain ⟨key, -, -, hk | ⟨pq, hk⟩⟩ := h
  · rw [isValidAddress, Hybrid.schemeOf_of_classical hk]
    rfl
  · rw [isValidAddress, Hybrid.schemeOf_of_hybrid hk]
    rfl

end Blockchain

namespace ChainState

variable {E : Node} {s : ChainState} {account treasury : String}

/-- Seating the genesis validator completes a hybrid treasury and changes no other entry. -/
theorem seat_entry {pqPublicKey : Option String} {info : StakeInfo}
    (h : (seatGenesisValidatorPqKey E s treasury pqPublicKey).stakers[account]? = some info) :
    ∃ old, s.stakers[account]? = some old ∧
      (info = old ∧ (account = treasury → Hybrid.schemeOf treasury ≠ some .hybrid) ∨
        ∃ pq, pqPublicKey = some pq ∧ info = { old with pqPublicKey := pq } ∧
          Hybrid.deriveHybridAddress E old.publicKey pq = ok treasury) := by
  unfold seatGenesisValidatorPqKey at h
  split at h
  · rename_i hclassical
    exact ⟨info, h, Or.inl ⟨rfl, fun _ hscheme => hclassical (decide_eq_true hscheme)⟩⟩
  · split at h
    · rename_i hnone
      refine ⟨info, h, Or.inl ⟨rfl, fun ha => ?_⟩⟩
      rw [ha, hnone] at h
      cases h
    · rename_i old hold
      split at h
      · rename_i hseated
        rw [setStaker_stakers, lookup_insert] at h
        split at h
        · rename_i ha
          rw [Option.some.injEq] at h
          cases pqPublicKey with
          | none => cases hseated
          | some pq =>
            exact ⟨old, ha ▸ hold, Or.inr ⟨pq, rfl, h.symm, completesTreasury_some.mp hseated⟩⟩
        · rename_i hne
          exact ⟨info, h, Or.inl ⟨rfl, fun ha => absurd ha.symm hne⟩⟩
      · have herase : (s.unseat treasury old).stakers = s.stakers.erase treasury := by
          unfold unseat
          split <;> rfl
        rw [herase, lookup_erase] at h
        split at h
        · cases h
        · rename_i hne
          exact ⟨info, h, Or.inl ⟨rfl, fun ha => absurd ha.symm hne⟩⟩

end ChainState

/-- The only staker of a genesis with a validator is the treasury, with the keys of the network
parameters. -/
theorem Blockchain.genesisState_entry {E : Node} {chain : Blockchain} {key account : String}
    {info : StakeInfo} (hkey : chain.genesisValidatorPublicKey = some key)
    (hi : (chain.genesisState E).stakers[account]? = some info) :
    account = chain.genesisTreasury ∧ info.publicKey = key ∧
      info.vrfPublicKey = chain.genesisValidatorVrfPublicKey.getD "" ∧
      (info.pqPublicKey = "" ∧ Hybrid.schemeOf chain.genesisTreasury ≠ some .hybrid ∨
        chain.genesisValidatorPqPublicKey = some info.pqPublicKey ∧
          Hybrid.deriveHybridAddress E key info.pqPublicKey = ok chain.genesisTreasury) := by
  obtain ⟨old, hold, hseat⟩ := ChainState.seat_entry hi
  have hstakers := ChainState.genesisForChain_stakers chain.genesisChainId chain.genesisTreasury key
    chain.genesisValidatorVrfPublicKey chain.genesisSupply chain.genesisValidatorAllowlist
  rw [hkey] at hold
  change (ChainState.genesisForChain chain.genesisChainId chain.genesisTreasury (some key)
    chain.genesisValidatorVrfPublicKey chain.genesisSupply
    chain.genesisValidatorAllowlist).stakers[account]? = some old at hold
  rw [hstakers, lookup_insert] at hold
  split at hold
  · rename_i ha
    rw [Option.some.injEq] at hold
    subst ha hold
    rcases hseat with ⟨rfl, hclassical⟩ | ⟨pq, hpq, rfl, hd⟩
    · exact ⟨rfl, rfl, rfl, Or.inl ⟨rfl, hclassical rfl⟩⟩
    · exact ⟨rfl, rfl, rfl, Or.inr ⟨hpq, hd⟩⟩
  · simp at hold

/-- The genesis validator is registered under the treasury address. -/
theorem Blockchain.genesisState_registered {E : Node} {chain : Blockchain}
    (h : chain.GenesisKeyDerives E) : ChainState.Registered E (chain.genesisState E) := by
  intro account info hi
  obtain ⟨key, hkey, hcanonical, hderives⟩ := h
  obtain ⟨rfl, rfl, -, ⟨-, hclassical⟩ | ⟨-, hd⟩⟩ := genesisState_entry hkey hi
  · rcases hderives with hk | ⟨pq, hk⟩
    · exact .classical hk
    · exact absurd (Hybrid.schemeOf_of_hybrid hk) hclassical
  · unfold Pos.isCanonicalPublicKey at hcanonical
    split at hcanonical
    · rename_i point hc
      exact .hybrid hc hd
    · cases hcanonical
