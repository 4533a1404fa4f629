/-
# Limits on stored texts

The texts of tokens and credentials and the keys of stakers are stored as the transaction spells
them, while some are checked only after trimming and one not at all.  The limits hold in every run
whose transactions spell those texts without padding.
-/
import Mathlib.Tactic
import Hikmalayer.Authorization.Registered
import Hikmalayer.Ledger.Credentials

open Outcome Exec OrderedMap

/-! ## Lengths -/

theorem byteLen_pos {text : String} (h : text ≠ "") : 1 ≤ byteLen text :=
  Nat.pos_of_ne_zero fun h0 => h (String.utf8ByteSize_eq_zero_iff.mp h0)

theorem ne_empty_of_not_blank {text : String} (h : ¬ blank text = true) : text ≠ "" := by
  rintro rfl
  exact h rfl

theorem ne_empty_of_trim {text : String} (h : trim text ≠ "") : text ≠ "" := by
  rintro rfl
  exact h rfl

/-- Trimming takes something off both ends. -/
theorem exists_padding (text : String) : ∃ before after, text = before ++ trim text ++ after := by
  have hfront := List.takeWhile_append_dropWhile (p := isWhitespace) (l := text.toList)
  have hback := List.takeWhile_append_dropWhile (p := isWhitespace)
    (l := (text.toList.dropWhile isWhitespace).reverse)
  refine ⟨String.ofList (text.toList.takeWhile isWhitespace),
    String.ofList ((text.toList.dropWhile isWhitespace).reverse.takeWhile isWhitespace).reverse, ?_⟩
  apply String.toList_inj.mp
  rw [String.toList_append, String.toList_append, trim, String.toList_ofList, String.toList_ofList,
    String.toList_ofList, List.append_assoc, ← List.reverse_append, hback, List.reverse_reverse,
    hfront]

/-- A text has the length of its trimmed text only when there was nothing to trim. -/
theorem byteLen_trim_iff {text : String} : byteLen text = byteLen (trim text) ↔ trim text = text := by
  constructor
  · intro hlen
    obtain ⟨before, after, htext⟩ := exists_padding text
    have hsum : byteLen text = byteLen before + byteLen (trim text) + byteLen after := by
      rw [byteLen, htext, String.utf8ByteSize_append, String.utf8ByteSize_append, ← htext]
      rfl
    have hbefore : before = "" := String.utf8ByteSize_eq_zero_iff.mp (by unfold byteLen at *; omega)
    have hafter : after = "" := String.utf8ByteSize_eq_zero_iff.mp (by unfold byteLen at *; omega)
    rw [hbefore, hafter, String.empty_append, String.append_empty] at htext
    exact htext.symm
  · intro h
    rw [h]

/-- The length of an ML-DSA key that a hybrid address derives from. -/
theorem byteLen_pqPublicKey_iff {E : Env} {publicKey pqPublicKey account : String}
    (h : Hybrid.deriveHybridAddress E publicKey pqPublicKey = ok account) :
    byteLen pqPublicKey = 2 * Pq.publicKeyLen ↔ trim pqPublicKey = pqPublicKey := by
  simp only [Hybrid.deriveHybridAddress, Outcome.bind_eq_ok, mapErr_eq_ok] at h
  obtain ⟨_, -, pq, hpq, -⟩ := h
  simp only [Pq.canonicalPqPublicKey, Outcome.bind_eq_ok, ensure_eq_ok] at hpq
  obtain ⟨bytes, -, _, hlen, _, hspell, -⟩ := hpq
  rw [← byteLen_trim_iff, ← hspell, byteLen_hexEncode, hlen]

namespace ChainState

open Transaction

variable {E : Node} {s s' t : ChainState} {tx : Transaction} {height : UInt64} {point : ℕ}
  {account validator id : String} {supply : UInt64}

/-! ## The limits -/

/-- The bytes of a VRF key. -/
def vrfPublicKeyLen : ℕ := 32

structure TokenLimits (info : TokenInfo) : Prop where
  symbol_pos : 1 ≤ byteLen info.symbol
  symbol : byteLen info.symbol ≤ maxTokenSymbolLen
  name : byteLen info.name ≤ maxTokenNameLen
  decimals : info.decimals ≤ maxTokenDecimals

structure CredentialLimits (id : String) (record : CredentialRecord) : Prop where
  id_pos : 1 ≤ byteLen id
  id : byteLen id ≤ 128
  subject : byteLen record.subject ≤ 256
  dataHash : byteLen record.dataHash ≤ 128

/-- The keys of a staker are the hexadecimal texts of keys of the prescribed lengths, where an
ECDSA key has `point` bytes. -/
structure KeyLimits (point : ℕ) (account : String) (info : StakeInfo) : Prop where
  publicKey : byteLen info.publicKey = 2 * point
  vrfPublicKey : byteLen info.vrfPublicKey = 2 * vrfPublicKeyLen
  pqPublicKey : byteLen info.pqPublicKey =
    if Hybrid.schemeOf account = some .hybrid then 2 * Pq.publicKeyLen else 0

structure Limits (point : ℕ) (s : ChainState) : Prop where
  tokens : All (fun _ info => TokenLimits info) s.tokens
  credentials : All CredentialLimits s.credentials
  keys : All (KeyLimits point) s.stakers

/-- The registered keys have the length of their kind as they are spelled. -/
structure KeysSpelled (tx : Transaction) : Prop where
  vrfPublicKey : ∀ key, tx.vrfPublicKey = some key → byteLen key = 2 * vrfPublicKeyLen
  pqPublicKey : ∀ key, tx.pqPublicKey = some key → trim key = key

/-- The texts that the checks read trimmed, or not at all, are spelled within the limits. -/
structure Spelled (tx : Transaction) : Prop where
  symbol : tx.transactionType = .tokenCreate → ∀ action, tx.token = some action →
    byteLen action.symbol ≤ maxTokenSymbolLen
  keys : tx.transactionType = .stake → KeysSpelled tx

/-! ## Tokens -/

/-- What an applied transaction wrote to the registrations of tokens. -/
inductive TokenWrite (tx : Transaction) (s s' : ChainState) : Prop
  | create {action : TokenAction} {t creator : String} {height : UInt64}
      (ht : tx.transactionType = .tokenCreate) (ha : tx.token = some action)
      (he : s'.tokens = s.tokens.insert t
        ⟨t, action.symbol, action.name, action.decimals, tx.amount, creator, height⟩)
  | burn {t : String} {info : TokenInfo} {totalSupply : UInt64}
      (ht : tx.transactionType = .tokenBurn) (hi : s.tokens[t]? = some info)
      (he : s'.tokens = s.tokens.insert t { info with totalSupply })
  | other (ht : tx.transactionType ≠ .tokenCreate) (he : s'.tokens = s.tokens)

theorem Applied.tokenWrite (h : Applied E tx height s s') : TokenWrite tx s s' := by
  cases h with
  | @signed account effects hm hn he =>
    by_cases hcreate : tx.transactionType = .tokenCreate
    · cases hm with
      | tokenCreate ht hc =>
        obtain ⟨-, ha, -⟩ := tokenCreateChecks_ok hc
        obtain ⟨_, _, _, -, -, -, rfl⟩ := tokenCreateEffects_ok he
        exact .create ht ha rfl
      | _ ht => rw [hcreate] at ht; cases ht
    by_cases hburn : tx.transactionType = .tokenBurn
    · cases hm with
      | tokenBurn ht hc =>
        obtain ⟨-, -, -, hmem⟩ := tokenBurnChecks_ok hc
        obtain ⟨_, _, _, _, info, -, -, -, hi, -, rfl⟩ :=
          tokenBurnEffects_ok (s := s.setNonce _ tx.nonce) hmem he
        exact .burn ht hi rfl
      | _ ht => rw [hburn] at ht; cases ht
    · have hsame : Leaves ChainState.tokens effects :=
        hm.leaves ⟨fun _ _ _ => rfl, fun _ _ => rfl, fun _ _ _ => rfl, fun _ _ _ => rfl,
          fun _ _ _ => rfl⟩ (fun _ _ _ _ => rfl) (fun _ _ _ => rfl) (fun _ _ _ => rfl)
          (fun ht => absurd ht (not_or.mpr ⟨hcreate, hburn⟩)) fun _ _ _ _ => rfl
      exact .other hcreate ((hsame (s.setNonce account tx.nonce)).1 _ _ he)
  | reward ht he =>
    refine .other (by rw [ht]; exact nofun) ?_
    exact (applyReward_leaves (g := ChainState.tokens) (fun _ _ _ => rfl) (fun _ _ _ => rfl)
      s).1 _ _ he
  | slash ht he =>
    refine .other (by rw [ht]; exact nofun) ?_
    exact (((Leaves.read ChainState.tokens _).bind fun _ => slashEffects_leaves (fun _ _ _ => rfl)
      (fun _ _ _ => rfl) (fun _ _ _ => rfl) (fun _ _ => rfl) (fun _ _ _ => rfl) _ _) s).1 _ _ he
  | anchor ht _ he => exact .other (by rw [ht]; exact nofun) (by rw [he])

/-- What the checks say about the texts of a new token; of the symbol they read the trimmed text. -/
theorem verifyForBlock_token {action : TokenAction} (hver : tx.verifyForBlock E validator = ok ())
    (ht : tx.transactionType = .tokenCreate) (ha : tx.token = some action) :
    1 ≤ byteLen action.symbol ∧ byteLen action.name ≤ maxTokenNameLen ∧
      action.decimals ≤ maxTokenDecimals := by
  simp only [verifyForBlock, ht, ha, okOr_some, ok_bind, Outcome.bind_eq_ok, okOr_eq_ok,
    ensure_eq_ok] at hver
  obtain ⟨_, -, _, hsymbol, _, hname, _, hdecimals, -⟩ := hver
  exact ⟨byteLen_pos (ne_empty_of_trim fun h => hsymbol (Or.inl h)), not_lt.mp hname,
    UInt32.not_lt.mp hdecimals⟩

theorem TokenWrite.limits_iff (h : TokenWrite tx s s')
    (hver : tx.verifyForBlock E validator = ok ()) (hs : All (fun _ info => TokenLimits info) s.tokens) :
    All (fun _ info => TokenLimits info) s'.tokens ↔
      (tx.transactionType = .tokenCreate → ∀ action, tx.token = some action →
        byteLen action.symbol ≤ maxTokenSymbolLen) := by
  cases h with
  | @create action _ _ _ ht ha he =>
    obtain ⟨hpos, hname, hdecimals⟩ := verifyForBlock_token hver ht ha
    rw [he, hs.insert_iff]
    constructor
    · intro hlimits _ action' ha'
      rw [ha, Option.some.injEq] at ha'
      exact ha' ▸ hlimits.symbol
    · intro hsymbol
      exact ⟨hpos, hsymbol ht action ha, hname, hdecimals⟩
  | burn ht hi he =>
    refine iff_of_true ?_ (fun hc => by rw [ht] at hc; cases hc)
    have hold := hs _ _ hi
    rw [he]
    exact hs.insert ⟨hold.symbol_pos, hold.symbol, hold.name, hold.decimals⟩
  | other ht he => exact iff_of_true (he ▸ hs) fun hc => absurd hc ht

/-! ## Credentials -/

theorem verifyForBlock_credential {action : CredentialAction} {issuer issuedAt : String}
    (hver : tx.verifyForBlock E validator = ok ()) (ht : tx.transactionType = .certificate)
    (ha : tx.credential = some action) :
    CredentialLimits action.id ⟨issuer, action.subject, action.dataHash, issuedAt, false⟩ := by
  simp only [verifyForBlock, ht, ha, Outcome.bind_eq_ok, okOr_eq_ok, ensure_eq_ok, not_or,
    not_lt] at hver
  obtain ⟨_, -, _, -, _, ⟨hblank, hid⟩, _, ⟨hsubject, hhash⟩, -⟩ := hver
  exact ⟨byteLen_pos (ne_empty_of_not_blank hblank), hid, hsubject, hhash⟩

theorem CredentialStep.limits (h : CredentialStep tx s s')
    (hver : tx.verifyForBlock E validator = ok ()) (hs : All CredentialLimits s.credentials) :
    All CredentialLimits s'.credentials := by
  cases h with
  | issue ht ha _ _ he =>
    rw [he]
    exact hs.insert (verifyForBlock_credential hver ht ha)
  | revoke _ _ _ hr _ he =>
    have hold := hs _ _ hr
    rw [he]
    exact hs.insert ⟨hold.id_pos, hold.id, hold.subject, hold.dataHash⟩
  | other _ he =>
    rw [he]
    exact hs

/-! ## Keys -/

/-- An ECDSA key that derives an address is the text of a point. -/
theorem byteLen_publicKey {publicKey : String} {bytes : List UInt8}
    (hpoint : ∀ bytes p, E.parsePublicKey bytes = some p → p.length = point)
    (h : Pos.canonicalPublicKey E publicKey = ok bytes) : byteLen publicKey = 2 * point := by
  obtain ⟨hspell, -⟩ := Registration.spelling h
  simp only [Pos.canonicalPublicKey, Outcome.bind_eq_ok, okOr_eq_ok, ensure_eq_ok, pure_eq,
    ok.injEq] at h
  obtain ⟨_, -, p, hp, _, -, rfl⟩ := h
  rw [hspell, byteLen_hexEncode, hpoint _ _ hp]

/-- The keys that a stake registers. -/
theorem stake_limits_iff {r : StakeRequest} {stake : UInt64} {pqPublicKey : String}
    (hpoint : ∀ bytes p, E.parsePublicKey bytes = some p → p.length = point)
    (hver : tx.verifyForBlock E validator = ok ()) (ht : tx.transactionType = .stake)
    (hc : stakeChecks E tx s = ok r)
    (hpq : Hybrid.schemeOf r.sender = some .hybrid → tx.pqPublicKey = some pqPublicKey)
    (hnone : Hybrid.schemeOf r.sender ≠ some .hybrid → pqPublicKey = "") :
    KeyLimits point r.sender ⟨stake, r.publicKey, r.vrfPublicKey, pqPublicKey⟩ ↔
      KeysSpelled tx := by
  obtain ⟨text, hsigned⟩ := stakeChecks_signed hver ht hc
  obtain ⟨-, hkey, hvrf, -⟩ := stakeChecks_ok hc
  obtain ⟨publicKey, bytes, hread, hcanonical⟩ := hsigned.canonical
  obtain rfl : r.publicKey = publicKey := Option.some.inj (hkey.symm.trans hread)
  have hecdsa := byteLen_publicKey hpoint hcanonical
  have hspelled : byteLen pqPublicKey =
      (if Hybrid.schemeOf r.sender = some .hybrid then 2 * Pq.publicKeyLen else 0) ↔
        ∀ key, tx.pqPublicKey = some key → trim key = key := by
    cases hsigned with
    | classical hs _ _ _ hunused =>
      have hother : Hybrid.schemeOf r.sender ≠ some .hybrid := by rw [hs]; exact nofun
      rw [if_neg hother, hnone hother, hunused.1]
      exact iff_of_true rfl nofun
    | hybrid hs hk hpqk hd =>
      rw [if_pos hs, hpq hs]
      rw [hkey, Option.some.injEq] at hk
      rw [hpq hs, Option.some.injEq] at hpqk
      subst hk hpqk
      rw [byteLen_pqPublicKey_iff hd]
      constructor
      · rintro h key hkey
        rw [Option.some.injEq] at hkey
        exact hkey ▸ h
      · exact fun h => h _ rfl
  constructor
  · intro hlimits
    refine ⟨fun key hk => ?_, hspelled.mp hlimits.pqPublicKey⟩
    rw [hvrf, Option.some.injEq] at hk
    exact hk ▸ hlimits.vrfPublicKey
  · rintro ⟨hvrfLen, htrim⟩
    exact ⟨hecdsa, hvrfLen _ hvrf, hspelled.mpr htrim⟩

theorem BondStep.limits_iff (hpoint : ∀ bytes p, E.parsePublicKey bytes = some p → p.length = point)
    (h : BondStep E tx height s s') (hver : tx.verifyForBlock E validator = ok ())
    (hs : All (KeyLimits point) s.stakers) : All (KeyLimits point) s'.stakers ↔
      (tx.transactionType = .stake → KeysSpelled tx) := by
  have hunchanged : tx.transactionType ≠ .stake → All (KeyLimits point) s'.stakers →
      (All (KeyLimits point) s'.stakers ↔ (tx.transactionType = .stake → KeysSpelled tx)) :=
    fun ht hall => iff_of_true hall fun hc => absurd hc ht
  cases h with
  | stake ht hc _ hpq hb hnone =>
    have he : s'.stakers = _ := congrArg Bonds.stakers hb
    rw [he, hs.insert_iff, stake_limits_iff hpoint hver ht hc hpq hnone]
    exact ⟨fun h _ => h, fun h => h ht⟩
  | withdraw ht _ hi _ _ hb =>
    refine hunchanged (by rw [ht]; exact nofun) ?_
    have hold := hs _ _ hi
    have he : s'.stakers = _ := congrArg Bonds.stakers hb
    rw [he]
    exact hs.insert ⟨hold.publicKey, hold.vrfPublicKey, hold.pqPublicKey⟩
  | slash ht _ hi hk =>
    refine hunchanged (by rw [ht]; exact nofun) ?_
    have hold := hs _ _ hi
    rw [hk]
    exact hs.insert ⟨hold.publicKey, hold.vrfPublicKey, hold.pqPublicKey⟩
  | other ht hb =>
    have he : s'.stakers = s.stakers := congrArg Bonds.stakers hb
    exact hunchanged ht.1 (he ▸ hs)

/-! ## Runs -/

/-- An applied transaction keeps the limits exactly when its texts are spelled within them. -/
theorem Limits.apply_iff (hpoint : ∀ bytes p, E.parsePublicKey bytes = some p → p.length = point)
    (hs : Limits point s) (hver : tx.verifyForBlock E validator = ok ())
    (h : applyVerified E tx height s = ok ((), s')) : Limits point s' ↔ Spelled tx := by
  have happlied := (applyVerified_applied h).2.2
  have htokens := happlied.tokenWrite.limits_iff hver hs.tokens
  have hkeys := happlied.bondStep.limits_iff hpoint hver hs.keys
  constructor
  · intro hlimits
    exact ⟨htokens.mp hlimits.tokens, hkeys.mp hlimits.keys⟩
  · intro hspelled
    exact ⟨htokens.mpr hspelled.symbol, happlied.credentialStep.limits hver hs.credentials,
      hkeys.mpr hspelled.keys⟩

/-- Closing a block writes no text. -/
theorem Limits.endBlock (hs : Limits point s) (h : endBlock E height validator s = ok ((), s')) :
    Limits point s' := by
  have htokens : s'.tokens = s.tokens := congrArg Assets.tokens ((endBlock_assets s).1 _ _ h)
  refine ⟨htokens ▸ hs.tokens, endBlock_credentials h ▸ hs.credentials, fun k i hi => ?_⟩
  rcases (endBlock_released h).stakers k with heq | ⟨hnone, -⟩
  · exact hs.keys k i (heq ▸ hi)
  · rw [hnone] at hi
    cases hi

/-- A step of the ledger whose transaction is spelled within the limits. -/
inductive SpelledStep (E : Node) : ChainState → ChainState → Prop
  | apply {s s' : ChainState} {tx : Transaction} {height : UInt64} {validator : String}
      (hv : isValidAddress validator = true) (hver : tx.verifyForBlock E validator = ok ())
      (hspelled : Spelled tx) (h : applyVerified E tx height s = ok ((), s')) : SpelledStep E s s'
  | close {s s' : ChainState} {height : UInt64} {validator : String}
      (hv : isValidAddress validator = true)
      (h : ChainState.endBlock E height validator s = ok ((), s')) : SpelledStep E s s'

theorem SpelledStep.limits (hpoint : ∀ bytes p, E.parsePublicKey bytes = some p → p.length = point)
    (h : SpelledStep E s s') (hs : Limits point s) : Limits point s' := by
  cases h with
  | apply _ hver hspelled h => exact (hs.apply_iff hpoint hver h).mpr hspelled
  | close _ h => exact hs.endBlock h

/-- A genesis registers nothing but its validator. -/
theorem GenesisState.texts (hg : GenesisState E supply s) : s.tokens = ∅ ∧ s.credentials = ∅ := by
  induction hg with
  | built _ _ key =>
    cases key with
    | none => exact ⟨rfl, rfl⟩
    | some key => exact ⟨rfl, rfl⟩
  | policy _ _ ih => exact ih
  | seated treasury pqPublicKey _ _ ih =>
    unfold seatGenesisValidatorPqKey
    split
    · exact ih
    · split
      · exact ih
      · split
        · exact ih
        · unfold unseat
          dsimp only
          split <;> exact ih

/-- One transaction writes one registration, one credential and one staker entry at most. -/
theorem Applied.differOnce (h : Applied E tx height s s') :
    DifferOnce s.tokens s'.tokens ∧ DifferOnce s.credentials s'.credentials ∧
      DifferOnce s.stakers s'.stakers := by
  refine ⟨?_, ?_, ?_⟩
  · cases h.tokenWrite with
    | create _ _ he => exact he ▸ .insert _ _ _
    | burn _ _ he => exact he ▸ .insert _ _ _
    | other _ he => exact he ▸ .refl _
  · cases h.credentialStep with
    | issue _ _ _ _ he => exact he ▸ .insert _ _ _
    | revoke _ _ _ _ _ he => exact he ▸ .insert _ _ _
    | other _ he => exact he ▸ .refl _
  · cases h.bondStep with
    | stake _ _ _ _ hb =>
      have he : s'.stakers = _ := congrArg Bonds.stakers hb
      exact he ▸ .insert _ _ _
    | withdraw _ _ _ _ _ hb =>
      have he : s'.stakers = _ := congrArg Bonds.stakers hb
      exact he ▸ .insert _ _ _
    | slash _ _ _ hk => exact hk ▸ .insert _ _ _
    | other _ hb =>
      have he : s'.stakers = s.stakers := congrArg Bonds.stakers hb
      exact he ▸ .refl _

/-! ## Main results -/

/-- From a genesis whose validator has keys of the prescribed lengths, the limits hold in every
state of a run whose transactions are spelled within them.  There a further transaction keeps the
limits exactly when it is spelled within them, and writes one registration, one credential and one
staker entry at most. -/
theorem limits_of_run (hpoint : ∀ bytes p, E.parsePublicKey bytes = some p → p.length = point)
    {g : ChainState} (hg : GenesisState E supply g) (hkeys : All (KeyLimits point) g.stakers)
    (hrun : Relation.ReflTransGen (SpelledStep E) g s) :
    Limits point s ∧ ∀ (tx : Transaction) (validator : String) (height : UInt64) (t : ChainState),
      tx.verifyForBlock E validator = ok () → applyVerified E tx height s = ok ((), t) →
        (Limits point t ↔ Spelled tx) ∧ DifferOnce s.tokens t.tokens ∧
          DifferOnce s.credentials t.credentials ∧ DifferOnce s.stakers t.stakers := by
  have hlimits : Limits point s := by
    induction hrun with
    | refl =>
      obtain ⟨htokens, hcredentials⟩ := hg.texts
      exact ⟨htokens ▸ All.empty _, hcredentials ▸ All.empty _, hkeys⟩
    | tail _ hstep ih => exact hstep.limits hpoint ih
  exact ⟨hlimits, fun tx validator height t hver h =>
    ⟨hlimits.apply_iff hpoint hver h, (applyVerified_applied h).2.2.differOnce⟩⟩

end ChainState

/-! ## Sample runs -/

namespace Sample

open ChainState

/-- Holder 7 creates a token. -/
def creation (symbol : String) : Transaction :=
  order 7 .tokenCreate "" 1000000000 1 (some ⟨"", symbol, "Gold", 2⟩) none
    (Transaction.tokenCreateSigningMessage symbol "Gold" 2 1000000000 1)

/-- Holder 7 stakes with a VRF key. -/
def staking (vrfPublicKey : String) : Transaction :=
  { order 7 .stake stakingPoolAccount 1000 1 none none
      (Transaction.stakeSigningMessage (address 7) 1000 1 vrfPublicKey) with
    vrfPublicKey := some vrfPublicKey }

/-- A genesis whose validator has a VRF key of 32 bytes. -/
def keyedGenesis : ChainState :=
  genesisForChain defaultChainId (address 7) (some (publicKey 7))
    (some (hexEncode (List.replicate vrfPublicKeyLen 7))) 1000000000000000 []

theorem keyedGenesis_keys : All (KeyLimits 2) keyedGenesis.stakers := by
  refine (All.empty _).insert ⟨byteLen_hexEncode _, ?_, ?_⟩
  · change byteLen (hexEncode (List.replicate vrfPublicKeyLen 7)) = 2 * vrfPublicKeyLen
    rw [byteLen_hexEncode, List.length_replicate]
  · rw [schemeOf_seven]
    rfl

theorem verifyForBlock_creation {symbol validator : String} (hne : trim symbol ≠ "")
    (hlen : byteLen (trim symbol) ≤ maxTokenSymbolLen) :
    (creation symbol).verifyForBlock (env []) validator = ok () := by
  simp only [Transaction.verifyForBlock, creation, order, Outcome.bind_eq_ok, okOr_some, ok_bind,
    ensure_eq_ok]
  refine ⟨(), ?_, (), by decide, (), by decide, (), ensure_pos (by decide), ?_⟩
  · rintro (h | h)
    · exact hne h
    · omega
  · exact verifySenderSignature_signed schemeOf_seven rfl rfl ⟨rfl, rfl⟩

theorem verifyForBlock_staking {vrfPublicKey validator : String} :
    (staking vrfPublicKey).verifyForBlock (env []) validator = ok () := by
  simp only [Transaction.verifyForBlock, staking, order, Outcome.bind_eq_ok, okOr_some, ok_bind,
    ensure_eq_ok]
  exact ⟨(), trivial, (), ensure_pos (by decide),
    verifySenderSignature_signed schemeOf_seven rfl rfl ⟨rfl, rfl⟩⟩

end Sample

namespace ChainState

/-- A token of four letters. -/
theorem limits_of_run_sample : ∃ s, Relation.ReflTransGen (SpelledStep (Sample.node []))
    Sample.keyedGenesis s ∧ Limits 2 s := by
  have hrun : (applyVerified (Sample.node []) (Sample.creation "GOLD") 1
      Sample.keyedGenesis).returns (fun _ => true) = true := by decide +kernel
  obtain ⟨⟨⟨⟩, s⟩, h, -⟩ := exists_of_returns hrun
  have hspelled : Spelled (Sample.creation "GOLD") := by
    refine ⟨fun _ action ha => ?_, fun hc => nomatch hc⟩
    have hgold : action.symbol = "GOLD" := by
      rw [← Option.some.inj ha]
    rw [hgold]
    decide
  have hsteps : Relation.ReflTransGen (SpelledStep (Sample.node [])) Sample.keyedGenesis s :=
    .single (.apply Sample.address_valid
      (Sample.verifyForBlock_creation (by decide) (by decide)) hspelled h)
  have hpoint : ∀ bytes p, (Sample.node []).parsePublicKey bytes = some p → p.length = 2 := by
    intro bytes p hp
    change Sample.parsePublicKey bytes = some p at hp
    unfold Sample.parsePublicKey at hp
    split at hp
    · rename_i hbytes
      rw [← Option.some.inj hp]
      exact hbytes.1
    · cases hp
  exact ⟨s, hsteps, (limits_of_run (E := Sample.node []) hpoint
    (.built defaultChainId (Sample.address 7) _ _ [] Sample.address_valid)
    Sample.keyedGenesis_keys hsteps).1⟩

/-- A symbol of four letters behind twenty spaces is stored with the spaces, and a VRF key of one
letter is stored as it is. -/
theorem limits_broken :
    (∃ (s : ChainState) (t : String) (info : TokenInfo), Reachable (Sample.node []) s ∧
      s.tokens[t]? = some info ∧ maxTokenSymbolLen < byteLen info.symbol) ∧
    ∃ (s : ChainState) (a : String) (info : StakeInfo), Reachable (Sample.node []) s ∧
      s.stakers[a]? = some info ∧ byteLen info.vrfPublicKey = 1 := by
  constructor
  · have hrun : (applyVerified (Sample.node []) (Sample.creation "                    GOLD") 1
        (Sample.genesis 1000000000000000)).returns (fun _ => true) = true := by decide +kernel
    obtain ⟨⟨⟨⟩, s⟩, h, -⟩ := exists_of_returns hrun
    cases (applyVerified_applied h).2.2.tokenWrite with
    | @create action t creator height ht ha he =>
      have hsymbol : action.symbol = "                    GOLD" := by rw [← Option.some.inj ha]
      have hstored := lookup_insert_self (Sample.genesis 1000000000000000).tokens t
        ⟨t, action.symbol, action.name, action.decimals,
          (Sample.creation "                    GOLD").amount, creator, height⟩
      rw [← he] at hstored
      refine ⟨s, t, _, (Sample.genesis_reachable _).step (.apply Sample.address_valid
        (Sample.verifyForBlock_creation (by decide) (by decide)) h), hstored, ?_⟩
      dsimp only
      rw [hsymbol]
      decide
    | burn ht => cases ht
    | other ht => exact absurd rfl ht
  · have hrun : (applyVerified (Sample.node []) (Sample.staking "x") 1
        (Sample.genesis 1000000000000000)).returns (fun _ => true) = true := by decide +kernel
    obtain ⟨⟨⟨⟩, s⟩, h, -⟩ := exists_of_returns hrun
    cases (applyVerified_applied h).2.2.bondStep with
    | @stake r stake pqPublicKey ht hc _ _ hb =>
      have hvrf : r.vrfPublicKey = "x" := Option.some.inj (stakeChecks_ok hc).2.2.1.symm
      have he : s.stakers = (Sample.genesis 1000000000000000).stakers.insert r.sender
        ⟨stake, r.publicKey, r.vrfPublicKey, pqPublicKey⟩ := congrArg Bonds.stakers hb
      have hstored := lookup_insert_self (Sample.genesis 1000000000000000).stakers r.sender
        ⟨stake, r.publicKey, r.vrfPublicKey, pqPublicKey⟩
      rw [← he] at hstored
      refine ⟨s, r.sender, _, (Sample.genesis_reachable _).step (.apply Sample.address_valid
        Sample.verifyForBlock_staking h), hstored, ?_⟩
      dsimp only
      rw [hvrf]
      decide
    | withdraw ht => cases ht
    | slash ht => cases ht
    | other ht => exact absurd rfl ht.1

end ChainState
