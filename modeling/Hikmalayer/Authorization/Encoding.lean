/-
# How many spellings an authorization has

A transaction carries up to four strings that authorize it.  Each is hexadecimal text, and the
rule is one authorization, one encoding.  The ECDSA key obeys it.  The ECDSA signature is decoded
in either letter case, the ML-DSA key is trimmed before it is compared with its canonical
spelling, and the ML-DSA signature is both trimmed and decoded in either case; a withdrawal is
checked against the registered keys and does not look at the ones it carries.
-/
import Mathlib.Tactic
import Hikmalayer.Authorization.Registered

open Outcome Exec OrderedMap

/-! ## The four strings -/

/-- The strings that authorize a transaction. -/
inductive AuthField
  | publicKey
  | pqPublicKey
  | signature
  | pqSignature
  deriving DecidableEq

namespace AuthField

/-- The string of a transaction. -/
def read : AuthField → Transaction → Option String
  | publicKey, tx => tx.publicKey
  | pqPublicKey, tx => tx.pqPublicKey
  | signature, tx => tx.signature
  | pqSignature, tx => tx.pqSignature

/-- The transaction with another string. -/
def write : AuthField → String → Transaction → Transaction
  | publicKey, text, tx => { tx with publicKey := some text }
  | pqPublicKey, text, tx => { tx with pqPublicKey := some text }
  | signature, text, tx => { tx with signature := some text }
  | pqSignature, text, tx => { tx with pqSignature := some text }

end AuthField

/-! ## The two halves of a signature -/

/-- The order of the group of secp256k1. -/
def curveOrder : ℕ := 0xfffffffffffffffffffffffffffffffebaaedce6af48a03bbfd25e8cd0364141

/-- Bytes read as a number, the most significant first. -/
def bigEndian (bytes : List UInt8) : ℕ := bytes.foldl (fun acc b => 256 * acc + b.toNat) 0

/-- The second half of a compact signature. -/
def sHalf (signature : List UInt8) : ℕ := bigEndian (signature.drop 32)

/-- The same first half and the complementary second one. -/
def IsTwin (a b : List UInt8) : Prop :=
  b.take 32 = a.take 32 ∧ sHalf b + sHalf a = curveOrder

/-- Verification refuses second halves above half the group order. -/
def Env.RejectsHighS (E : Env) : Prop :=
  ∀ digest signature key, digest.length = 32 → E.verifyEcdsa digest signature key = true →
    sHalf signature ≤ curveOrder / 2

/-- A twin never verifies where its original does. -/
theorem Env.RejectsHighS.twin {E : Env} (h : E.RejectsHighS) {a b digest key key' : List UInt8}
    (hlen : digest.length = 32) (ha : E.verifyEcdsa digest a key = true)
    (hb : E.verifyEcdsa digest b key' = true) : ¬ IsTwin a b := by
  rintro ⟨-, hsum⟩
  have hlow := h _ _ _ hlen ha
  have hlow' := h _ _ _ hlen hb
  have hodd : 2 * (curveOrder / 2) < curveOrder := by decide
  omega

/-! ## Spellings -/

namespace AuthField

/-- Two texts of a field that denote the same key or signature: up to letter case, surrounding
whitespace and, for an ECDSA key, the serialization of the point; or an ECDSA signature and its
twin. -/
def Respells (E : Env) (text text' : String) : AuthField → Prop
  | publicKey => ∃ a b point, hexDecode (trim text) = some a ∧ hexDecode (trim text') = some b ∧
      E.parsePublicKey a = some point ∧ E.parsePublicKey b = some point
  | signature => ∃ a b, hexDecode (trim text) = some a ∧ hexDecode (trim text') = some b ∧
      (b = a ∨ IsTwin a b)
  | pqPublicKey => ∃ a, hexDecode (trim text) = some a ∧ hexDecode (trim text') = some a
  | pqSignature => ∃ a, hexDecode (trim text) = some a ∧ hexDecode (trim text') = some a

/-- When a text is not accepted in the place of another one: a withdrawal must not be read from
the keys it carries, an ML-DSA key must differ in more than surrounding whitespace, an ECDSA
signature in more than letter case, and an ML-DSA signature has no such case. -/
def Guarded (tx : Transaction) (text text' : String) : AuthField → Prop
  | publicKey => tx.transactionType ≠ .withdraw
  | pqPublicKey => tx.transactionType ≠ .withdraw ∧ trim text' ≠ trim text
  | signature => hexDecode text' ≠ hexDecode text
  | pqSignature => False

end AuthField

/-! ## The two verifiers -/

namespace Pos

variable {E : Env} {message publicKey signature : String}

/-- Only the bytes of a signature count. -/
theorem verifyMessage_congr {signature' : String} (h : hexDecode signature' = hexDecode signature) :
    verifyMessage E message publicKey signature' = verifyMessage E message publicKey signature := by
  unfold verifyMessage verifyDigest
  rw [h]

/-- A signature that verifies, and another text of it or of its twin, which verifies when it
decodes to the same bytes. -/
theorem verifyMessage_respelled (hlow : E.RejectsHighS) {signature' : String}
    (h : verifyMessage E message publicKey signature = true)
    (hsame : AuthField.signature.Respells E signature signature') :
    verifyMessage E message publicKey signature' = true ↔
      hexDecode signature' = hexDecode signature := by
  refine ⟨fun h' => ?_, fun heq => verifyMessage_congr heq ▸ h⟩
  obtain ⟨bytes, _, _, hs, -, -, hv⟩ := verifyMessage_iff.mp h
  obtain ⟨bytes', _, _, hs', -, -, hv'⟩ := verifyMessage_iff.mp h'
  obtain ⟨a, b, ha, hb, hab⟩ := hsame
  rw [trim_of_hexDecode hs, hs, Option.some.injEq] at ha
  rw [trim_of_hexDecode hs', hs', Option.some.injEq] at hb
  subst ha hb
  rcases hab with rfl | htwin
  · rw [hs, hs']
  · exact absurd htwin (hlow.twin (E.sha256 _).length_bytes hv hv')

/-- The canonical spellings of one point are the same text. -/
theorem canonicalPublicKey_unique {text text' : String} {point point' : List UInt8}
    (h : canonicalPublicKey E text = ok point) (h' : canonicalPublicKey E text' = ok point')
    (hsame : AuthField.publicKey.Respells E text text') : text' = text := by
  obtain ⟨a, b, p, ha, hb, hpa, hpb⟩ := hsame
  have hread : ∀ {t : String} {q c : List UInt8}, canonicalPublicKey E t = ok q →
      hexDecode (trim t) = some c → E.parsePublicKey c = some p → t = hexEncode p := by
    intro t q c hc hd hp
    rw [(Registration.spelling hc).2] at hd
    simp only [canonicalPublicKey, hd, hp, okOr_some, ok_bind, Outcome.bind_eq_ok,
      ensure_eq_ok] at hc
    obtain ⟨_, hspell, -⟩ := hc
    exact hspell.symm
  rw [hread h ha hpa, hread h' hb hpb]

end Pos

namespace Pq

variable {E : Env} {message publicKey signature : String}

/-- Only the bytes of the trimmed texts count. -/
theorem verifyMessage_congr {publicKey' signature' : String}
    (hk : hexDecode (trim publicKey') = hexDecode (trim publicKey))
    (hs : hexDecode (trim signature') = hexDecode (trim signature)) :
    verifyMessage E message publicKey' signature' = verifyMessage E message publicKey signature := by
  unfold verifyMessage decodeHex
  rw [hk, hs]

/-- The canonical spelling shows the key. -/
theorem canonicalPqPublicKey_iff {value : String} {bytes : List UInt8} :
    canonicalPqPublicKey value = ok bytes ↔
      bytes.length = publicKeyLen ∧ value = hexEncode bytes := by
  simp only [canonicalPqPublicKey, decodeHex, Outcome.bind_eq_ok, okOr_eq_ok, ensure_eq_ok, pure_eq,
    ok.injEq]
  constructor
  · rintro ⟨_, -, _, hlen, _, hspell, rfl⟩
    exact ⟨hlen, hspell.symm⟩
  · rintro ⟨hlen, rfl⟩
    exact ⟨bytes, by rw [trim_hexEncode, hexDecode_hexEncode], (), hlen, (), rfl, rfl⟩

end Pq

/-! ## Signed transactions -/

namespace Transaction

variable {E : Env} {tx : Transaction} {account text text' message validator : String}
  {field : AuthField}

/-- A transaction with other authorization strings. -/
def reseal (tx : Transaction) (publicKey signature pqPublicKey pqSignature : Option String) :
    Transaction :=
  { tx with publicKey, signature, pqPublicKey, pqSignature }

/-- What a verified transaction says apart from its authorization strings stays verified, when
other strings sign it. -/
theorem verifyForBlock_reseal {k s pk ps : Option String}
    (hver : tx.verifyForBlock E validator = ok ()) (hw : tx.transactionType ≠ .withdraw)
    (hsigner : tx.signer = some account) (hm : tx.canonicalMessage = some message)
    (hv : verifySenderSignature E (tx.reseal k s pk ps) account message = ok ()) :
    (tx.reseal k s pk ps).verifyForBlock E validator = ok () := by
  cases ht : tx.transactionType <;>
    simp only [verifyForBlock, canonicalMessage, signer, reseal, ht, Outcome.bind_eq_ok,
      okOr_eq_ok, ensure_eq_ok, Option.bind_eq_bind, Option.bind_eq_some_iff, Option.pure_def,
      Option.some.injEq, reduceCtorEq] at hver hm hsigner hv ⊢
  case withdraw => exact absurd ht hw
  case certificate =>
    obtain ⟨action, hc, rfl⟩ := hm
    simp only [hc, Outcome.bind_eq_ok, okOr_eq_ok, ensure_eq_ok] at hver hsigner ⊢
    obtain ⟨_, hvalue, issuer, hs, _, hid, _, hsize, -⟩ := hver
    rw [if_neg (Option.some_ne_none _), hs, Option.some.injEq] at hsigner
    exact ⟨(), hvalue, issuer, hs, (), hid, (), hsize, hsigner ▸ hv⟩
  all_goals grind

/-- Writing one string is resealing. -/
theorem write_eq_reseal (field : AuthField) (text : String) (tx : Transaction) :
    ∃ k s pk ps, field.write text tx = tx.reseal k s pk ps := by
  cases field with
  | publicKey => exact ⟨some text, tx.signature, tx.pqPublicKey, tx.pqSignature, rfl⟩
  | pqPublicKey => exact ⟨tx.publicKey, tx.signature, some text, tx.pqSignature, rfl⟩
  | signature => exact ⟨tx.publicKey, some text, tx.pqPublicKey, tx.pqSignature, rfl⟩
  | pqSignature => exact ⟨tx.publicKey, tx.signature, tx.pqPublicKey, some text, rfl⟩

theorem sender_of_signer (h : tx.signer = some account) : tx.sender = some account := by
  unfold signer at h
  split at h
  · cases h
  · cases h
  · split at h
    · cases h
    · exact h
  · exact h

/-- Outside withdrawals a verified transaction is signed under the keys it carries. -/
theorem signedByKeys_of_verified (hver : tx.verifyForBlock E validator = ok ())
    (hw : tx.transactionType ≠ .withdraw) (hsigner : tx.signer = some account)
    (hm : tx.canonicalMessage = some message) :
    SignedByKeys E tx (scopedSigningMessage tx.chainId message) account := by
  obtain ⟨sender, hs, hv⟩ := verifyForBlock_signed hver hw hm
  rw [sender_of_signer hsigner, Option.some.injEq] at hs
  subst hs
  exact verifySenderSignature_eq_ok.mp hv

/-- Outside withdrawals the sender check decides about another string. -/
theorem verifyForBlock_write_iff (hver : tx.verifyForBlock E validator = ok ())
    (hw : tx.transactionType ≠ .withdraw) (hsigner : tx.signer = some account)
    (hm : tx.canonicalMessage = some message) :
    (field.write text' tx).verifyForBlock E validator = ok () ↔
      SignedByKeys E (field.write text' tx) (scopedSigningMessage tx.chainId message) account := by
  obtain ⟨k, s, pk, ps, hwrite⟩ := write_eq_reseal field text' tx
  rw [hwrite]
  constructor
  · intro h
    have hback : SignedByKeys E (tx.reseal k s pk ps) (scopedSigningMessage tx.chainId message)
        account := signedByKeys_of_verified h hw hsigner hm
    exact hback
  · exact fun h => verifyForBlock_reseal hver hw hsigner hm (verifySenderSignature_eq_ok.mpr h)

/-- A withdrawal is verified by what it carries; its signatures are left to the state. -/
theorem verifyForBlock_withdraw (hw : tx.transactionType = .withdraw) :
    tx.verifyForBlock E validator = ok () ↔
      tx.sender ≠ none ∧ tx.signature ≠ none ∧ tx.amount ≠ 0 := by
  simp only [verifyForBlock, hw, Outcome.bind_eq_ok, ensure_eq_ok]
  constructor
  · rintro ⟨_, hs, _, hsig, ha⟩
    exact ⟨hs, hsig, ha⟩
  · rintro ⟨hs, hsig, ha⟩
    exact ⟨(), hs, (), hsig, ha⟩

/-- Which other spellings of its strings a signed transaction stays signed under. -/
theorem SignedByKeys.write_iff (hlow : E.RejectsHighS) (h : SignedByKeys E tx text account)
    {old new : String} (hold : field.read tx = some old) (hne : new ≠ old)
    (hsame : field.Respells E old new) (hw : tx.transactionType ≠ .withdraw) :
    SignedByKeys E (field.write new tx) text account ↔ ¬ field.Guarded tx old new := by
  cases field with
  | publicKey =>
    refine iff_of_false (fun h' => ?_) (not_not.mpr hw)
    obtain ⟨k, point, hk, hc⟩ := h.canonical
    obtain ⟨k', point', hk', hc'⟩ := h'.canonical
    obtain rfl : old = k := Option.some.inj (hold.symm.trans hk)
    obtain rfl : new = k' := Option.some.inj hk'
    exact hne (Pos.canonicalPublicKey_unique hc hc' hsame)
  | pqPublicKey =>
    change _ ↔ ¬ (tx.transactionType ≠ .withdraw ∧ trim new ≠ trim old)
    rw [and_iff_right hw, not_not]
    obtain ⟨bytes, hb, hb'⟩ := hsame
    cases h with
    | classical _ _ _ _ hnone =>
      have hpresent : tx.pqPublicKey = some old := hold
      rw [hnone.1] at hpresent
      cases hpresent
    | @hybrid k pk hs hkey hpqkey hk hsig hpq =>
      obtain rfl : old = pk := Option.some.inj (hold.symm.trans hpqkey)
      constructor
      · intro h'
        cases h' with
        | classical hs' => rw [hs] at hs'; cases hs'
        | @hybrid k' pk' _ _ hpqkey' hk' =>
          obtain rfl : new = pk' := Option.some.inj hpqkey'
          simp only [Hybrid.deriveHybridAddress, Outcome.bind_eq_ok,
            Pq.canonicalPqPublicKey_iff] at hk hk'
          obtain ⟨_, -, pq, ⟨-, hspell⟩, -⟩ := hk
          obtain ⟨_, -, pq', ⟨-, hspell'⟩, -⟩ := hk'
          rw [hspell, hexDecode_hexEncode, Option.some.injEq] at hb
          rw [hspell', hexDecode_hexEncode, Option.some.injEq] at hb'
          rw [hspell, hspell', hb, hb']
      · intro htrim
        refine .hybrid hs hkey rfl ?_ hsig ?_
        · unfold Hybrid.deriveHybridAddress at hk ⊢
          rw [htrim]
          exact hk
        · obtain ⟨signature, hsig', hv⟩ := hpq
          exact ⟨signature, hsig', (Pq.verifyMessage_congr (by rw [htrim]) rfl).trans hv⟩
  | signature =>
    change _ ↔ ¬ (hexDecode new ≠ hexDecode old)
    rw [not_not]
    have hother : ∀ {k}, SignedUnder E tx text k →
        (SignedUnder E (AuthField.signature.write new tx) text k ↔
          hexDecode new = hexDecode old) := by
      rintro k ⟨s, hs, hv⟩
      obtain rfl : old = s := Option.some.inj (hold.symm.trans hs)
      rw [← Pos.verifyMessage_respelled hlow hv hsame]
      constructor
      · rintro ⟨s', hs', hv'⟩
        exact Option.some.inj hs' ▸ hv'
      · intro hv'
        exact ⟨new, rfl, hv'⟩
    cases h with
    | classical hs hkey hk hsig hnone =>
      rw [← hother hsig]
      constructor
      · intro h'
        cases h' with
        | classical _ hkey' _ hsig' =>
          exact Option.some.inj (hkey'.symm.trans hkey) ▸ hsig'
        | hybrid hs' => rw [hs] at hs'; cases hs'
      · exact fun hsig' => .classical hs hkey hk hsig' hnone
    | hybrid hs hkey hpqkey hk hsig hpq =>
      rw [← hother hsig]
      constructor
      · intro h'
        cases h' with
        | classical hs' => rw [hs] at hs'; cases hs'
        | hybrid _ hkey' _ _ hsig' => exact Option.some.inj (hkey'.symm.trans hkey) ▸ hsig'
      · exact fun hsig' => .hybrid hs hkey hpqkey hk hsig' hpq
  | pqSignature =>
    refine iff_of_true ?_ not_false
    obtain ⟨bytes, hb, hb'⟩ := hsame
    cases h with
    | classical _ _ _ _ hnone =>
      have hpresent : tx.pqSignature = some old := hold
      rw [hnone.2] at hpresent
      cases hpresent
    | hybrid hs hkey hpqkey hk hsig hpq =>
      obtain ⟨s, hs', hv⟩ := hpq
      obtain rfl : old = s := Option.some.inj (hold.symm.trans hs')
      exact .hybrid hs hkey hpqkey hk hsig
        ⟨new, rfl, (Pq.verifyMessage_congr rfl (hb'.trans hb.symm)).trans hv⟩

end Transaction

/-! ## Admission -/

namespace ChainState

variable {E : Node} {s s' : ChainState} {tx : Transaction} {height : UInt64}
  {account validator old new : String} {field : AuthField}

/-- The transaction is verified for a block, and a withdrawal, whose signatures are checked when
it is applied, passes its checks on the state. -/
def Admits (E : Env) (validator : String) (s : ChainState) (tx : Transaction) : Prop :=
  tx.verifyForBlock E validator = ok () ∧
    (tx.transactionType = .withdraw → ∃ r, withdrawChecks E tx s = ok r)

/-- The ML-DSA half of a withdrawal does not tell spellings apart. -/
theorem checkRegisteredPqKey_write {message registered : String}
    (h : checkRegisteredPqKey E tx message registered = ok ()) (hold : field.read tx = some old)
    (hsame : field.Respells E old new) :
    checkRegisteredPqKey E (field.write new tx) message registered = ok () := by
  have habsent : field = .pqPublicKey ∨ field = .pqSignature → registered ≠ "" := by
    rintro hfield rfl
    simp only [checkRegisteredPqKey, if_pos, ensure_eq_ok] at h
    rcases hfield with rfl | rfl
    · exact absurd (hold.symm.trans h.2) (Option.some_ne_none _)
    · exact absurd (hold.symm.trans h.1) (Option.some_ne_none _)
  cases field with
  | publicKey => exact h
  | signature => exact h
  | pqPublicKey =>
    unfold checkRegisteredPqKey at h ⊢
    rw [if_neg (habsent (Or.inl rfl))] at h ⊢
    exact h
  | pqSignature =>
    unfold checkRegisteredPqKey at h ⊢
    rw [if_neg (habsent (Or.inr rfl))] at h ⊢
    simp only [Outcome.bind_eq_ok, okOr_eq_ok, ensure_eq_ok] at h ⊢
    obtain ⟨signature, hs, hv⟩ := h
    obtain rfl : old = signature := Option.some.inj (hold.symm.trans hs)
    obtain ⟨bytes, hb, hb'⟩ := hsame
    exact ⟨new, rfl, (Pq.verifyMessage_congr rfl (hb'.trans hb.symm)).trans hv⟩

/-- Which other spellings of its strings a withdrawal passes its checks under. -/
theorem withdrawChecks_write_iff (hlow : E.RejectsHighS) {r : WithdrawRequest}
    (h : withdrawChecks E tx s = ok r) (hold : field.read tx = some old)
    (hsame : field.Respells E old new) :
    (∃ r, withdrawChecks E (field.write new tx) s = ok r) ↔
      (field = .signature → hexDecode new = hexDecode old) := by
  simp only [withdrawChecks, Outcome.bind_eq_ok, okOr_eq_ok, ensure_eq_ok, plain_eq_ok, pure_eq,
    ok.injEq] at h ⊢
  obtain ⟨sender, hs, signature, hsig, info, hi, _, hv, _, hpq, _, hcovers, remaining, hr, _, hmin,
    rfl⟩ := h
  have hpq' := checkRegisteredPqKey_write hpq hold hsame
  by_cases hfield : field = .signature
  · subst hfield
    obtain rfl : old = signature := Option.some.inj (hold.symm.trans hsig)
    rw [imp_iff_right rfl, ← Pos.verifyMessage_respelled hlow hv hsame]
    constructor
    · rintro ⟨_, sender', hs', signature', hsig', info', hi', _, hv', -⟩
      obtain rfl : sender = sender' := Option.some.inj (hs.symm.trans hs')
      obtain rfl : new = signature' := Option.some.inj hsig'
      obtain rfl : info = info' := Option.some.inj (hi.symm.trans hi')
      exact hv'
    · exact fun hv' => ⟨_, sender, hs, new, rfl, info, hi, (), hv', (), hpq', (), hcovers, remaining, hr,
        (), hmin, rfl⟩
  · refine iff_of_true ?_ fun h => absurd h hfield
    have hsame' : (field.write new tx).signature = some signature := by
      cases field with
      | signature => exact absurd rfl hfield
      | _ => exact hsig
    have hrest : (field.write new tx).sender = tx.sender ∧ (field.write new tx).amount = tx.amount ∧
        (field.write new tx).nonce = tx.nonce ∧ (field.write new tx).chainId = tx.chainId := by
      cases field <;> exact ⟨rfl, rfl, rfl, rfl⟩
    obtain ⟨hsender, hamount, hnonce, hchain⟩ := hrest
    rw [hsender, hamount, hnonce, hchain]
    exact ⟨_, sender, hs, signature, hsame', info, hi, (), hv, (), hpq', (), hcovers, remaining, hr, (),
      hmin, rfl⟩

/-- Which other spellings of its strings a signed transaction is admitted under. -/
theorem admits_write_iff (hlow : E.RejectsHighS) (h : Admits E validator s tx)
    (hsigner : tx.signer = some account) (hold : field.read tx = some old) (hne : new ≠ old)
    (hsame : field.Respells E old new) :
    Admits E validator s (field.write new tx) ↔ ¬ field.Guarded tx old new := by
  obtain ⟨hver, hchecks⟩ := h
  have htype : (field.write new tx).transactionType = tx.transactionType := by
    cases field <;> rfl
  unfold Admits
  rw [htype]
  by_cases hw : tx.transactionType = .withdraw
  · obtain ⟨r, hc⟩ := hchecks hw
    have hver' : (field.write new tx).verifyForBlock E validator = ok () := by
      rw [Transaction.verifyForBlock_withdraw hw] at hver
      rw [Transaction.verifyForBlock_withdraw (htype.trans hw)]
      cases field with
      | signature => exact ⟨hver.1, nofun, hver.2.2⟩
      | _ => exact hver
    rw [and_iff_right hver', imp_iff_right hw, withdrawChecks_write_iff hlow hc hold hsame]
    cases field <;> simp [AuthField.Guarded, hw]
  · obtain ⟨message, hm⟩ := canonicalMessage_of_signer hver hsigner
    have hsigned := Transaction.signedByKeys_of_verified hver hw hsigner hm
    rw [and_iff_left (fun h => absurd h hw), Transaction.verifyForBlock_write_iff hver hw hsigner hm,
      hsigned.write_iff hlow hold hne hsame hw]

end ChainState

/-! ## What a stake registers -/

/-- No ML-DSA key, or one in its canonical spelling. -/
def PqSpelled (text : String) : Prop := text = "" ∨ ∃ bytes, text = hexEncode bytes

namespace ChainState

variable {E : Node} {s s' : ChainState} {tx : Transaction} {height : UInt64}
  {account validator old new : String} {field : AuthField}

/-- A stake registers its ECDSA key in the canonical spelling, and its ML-DSA key as it is
written. -/
theorem stake_spelling (hver : tx.verifyForBlock E validator = ok ())
    (ht : tx.transactionType = .stake) (hsender : tx.sender = some account)
    (ha : applyVerified E tx height s = ok ((), s')) :
    ∃ info, s'.stakers[account]? = some info ∧
      Pos.isCanonicalPublicKey E info.publicKey = true ∧
      (PqSpelled info.pqPublicKey ↔ ∀ pq, tx.pqPublicKey = some pq → trim pq = pq) := by
  cases (applyVerified_applied ha).2.2 with
  | reward ht' => rw [ht] at ht'; cases ht'
  | slash ht' => rw [ht] at ht'; cases ht'
  | anchor ht' => rw [ht] at ht'; cases ht'
  | @signed signer effects hm hn he =>
    cases hm with
    | @stake r _ hc =>
      obtain ⟨hs, hkey, -⟩ := stakeChecks_ok hc
      obtain rfl : account = r.sender := Option.some.inj (hsender.symm.trans hs)
      obtain ⟨text, hsigned⟩ := stakeChecks_signed hver ht hc
      obtain ⟨k, point, hk, hcanonical⟩ := hsigned.canonical
      obtain rfl : r.publicKey = k := Option.some.inj (hkey.symm.trans hk)
      obtain ⟨_, _, _, stake, pq, -, -, -, -, ⟨hhybrid, hclassical⟩, rfl⟩ := stakeEffects_ok he
      refine ⟨⟨stake, r.publicKey, r.vrfPublicKey, pq⟩, lookup_insert_self _ _ _, ?_, ?_⟩
      · rw [Pos.isCanonicalPublicKey, hcanonical]
      · cases hsigned with
        | classical hscheme _ _ _ hnone =>
          have hempty : pq = "" := hclassical (by rw [hscheme]; exact nofun)
          exact iff_of_true (Or.inl hempty) (by rw [hnone.1]; exact nofun)
        | @hybrid _ pq' hscheme _ hpqkey hd =>
          obtain rfl : pq = pq' := Option.some.inj ((hhybrid hscheme).symm.trans hpqkey)
          rw [hpqkey]
          have hne := Hybrid.pqPublicKey_ne_empty hd
          simp only [Hybrid.deriveHybridAddress, Outcome.bind_eq_ok,
            Pq.canonicalPqPublicKey_iff] at hd
          obtain ⟨_, -, bytes, ⟨-, hspell⟩, -⟩ := hd
          constructor
          · rintro (hempty | ⟨bytes', rfl⟩) q hq
            · exact absurd hempty hne
            · exact Option.some.inj hq ▸ trim_hexEncode bytes'
          · exact fun h => Or.inr ⟨bytes, (h pq rfl).symm.trans hspell⟩
    | _ ht' => rw [ht] at ht'; cases ht'

/-- One authorization, one encoding, and how far it goes.  Replacing an authorization string of
an admitted signed transaction by another text of the same key or signature, or an ECDSA
signature by its twin, gets it refused exactly when the field guards against it; and a stake
leaves the canonical spelling of both its keys in the registry exactly when there was nothing to
trim from its ML-DSA key. -/
theorem one_encoding_iff (hlow : E.RejectsHighS) :
    (∀ tx validator s account field old new, Admits E validator s tx →
      tx.signer = some account → AuthField.read field tx = some old → new ≠ old →
      field.Respells E old new →
      (¬ Admits E validator s (field.write new tx) ↔ field.Guarded tx old new)) ∧
    ∀ tx validator height s s' account, tx.verifyForBlock E validator = ok () →
      tx.transactionType = .stake → tx.sender = some account →
      applyVerified E tx height s = ok ((), s') →
      ∃ info, s'.stakers[account]? = some info ∧
        Pos.isCanonicalPublicKey E info.publicKey = true ∧
        (PqSpelled info.pqPublicKey ↔ ∀ pq, tx.pqPublicKey = some pq → trim pq = pq) := by
  refine ⟨fun tx validator s account field old new h hsigner hold hne hsame => ?_,
    fun tx validator height s s' account hver ht hsender ha => stake_spelling hver ht hsender ha⟩
  rw [admits_write_iff hlow h hsigner hold hne hsame, not_not]

end ChainState

/-! ## A respelled token -/

namespace Sample

/-- Digits read before some bytes. -/
theorem bigEndian_foldl_lt (bytes : List UInt8) : ∀ acc : ℕ,
    bytes.foldl (fun acc b => 256 * acc + b.toNat) acc < (acc + 1) * 256 ^ bytes.length := by
  induction bytes with
  | nil => intro acc; simp
  | cons b rest ih =>
    intro acc
    have hb := b.toNat_lt
    have hrest := ih (256 * acc + b.toNat)
    have hstep : (256 * acc + b.toNat + 1) * 256 ^ rest.length ≤
        ((acc + 1) * 256) * 256 ^ rest.length := Nat.mul_le_mul_right _ (by omega)
    rw [List.foldl_cons, List.length_cons, pow_succ, Nat.mul_comm (256 ^ rest.length) 256,
      ← Nat.mul_assoc]
    exact lt_of_lt_of_le hrest hstep

/-- The toy signatures have low second halves. -/
theorem rejectsHighS (pool : List Transaction) : (env pool).RejectsHighS := by
  intro message signature key hlen hv
  have hsignature : signature = message ++ (digest key).bytes := of_decide_eq_true hv
  have hzero : (digest key).bytes = 0 :: ((digest key).bytes.drop 1) := rfl
  have hrest : ((digest key).bytes.drop 1).length = 31 := by
    rw [List.length_drop, (digest key).length_bytes]
  rw [hsignature, sHalf, List.drop_left' hlen, hzero, bigEndian, List.foldl_cons]
  have hlt := bigEndian_foldl_lt ((digest key).bytes.drop 1) 0
  rw [hrest] at hlt
  exact (lt_of_lt_of_le hlt (by decide)).le

/-- The text in capitals. -/
def capitals (text : String) : String := String.ofList (text.toList.map Char.toUpper)

/-- The signature of the token creation. -/
def tokenSignature : String := tokenCreation.signature.getD ""

theorem tokenCreation_admitted :
    ChainState.Admits (env []) "" (genesis 1000000000000000000) tokenCreation :=
  ⟨by decide +kernel, nofun⟩

end Sample

namespace ChainState

/-- With a space before its key the token creation is refused. -/
theorem one_encoding_iff_sample : ¬ Admits (Sample.env []) ""
    (Sample.genesis 1000000000000000000)
      (AuthField.publicKey.write (" " ++ Sample.publicKey 7) Sample.tokenCreation) := by
  have hsame : AuthField.publicKey.Respells (Sample.env []) (Sample.publicKey 7)
      (" " ++ Sample.publicKey 7) :=
    ⟨Sample.keyBytes 7, Sample.keyBytes 7, Sample.keyBytes 7, by decide +kernel, by decide +kernel,
      by decide +kernel, by decide +kernel⟩
  exact ((one_encoding_iff (E := Sample.node []) (Sample.rejectsHighS [])).1 _ _ _
    (Sample.address 7) .publicKey _ _ Sample.tokenCreation_admitted rfl rfl (by decide +kernel)
      hsame).mpr nofun

/-- With its signature in capitals the token creation is accepted like the original: another
text of the same bytes. -/
theorem capital_signature_accepted :
    (Sample.env []).RejectsHighS ∧
      Admits (Sample.env []) "" (Sample.genesis 1000000000000000000) Sample.tokenCreation ∧
      Sample.tokenCreation.signer = some (Sample.address 7) ∧
      AuthField.signature.read Sample.tokenCreation = some Sample.tokenSignature ∧
      Sample.capitals Sample.tokenSignature ≠ Sample.tokenSignature ∧
      AuthField.signature.Respells (Sample.env []) Sample.tokenSignature
        (Sample.capitals Sample.tokenSignature) ∧
      Admits (Sample.env []) "" (Sample.genesis 1000000000000000000)
        (AuthField.signature.write (Sample.capitals Sample.tokenSignature) Sample.tokenCreation) := by
  have hbytes : hexDecode (trim (Sample.capitals Sample.tokenSignature)) =
      hexDecode (trim Sample.tokenSignature) := by decide +kernel
  have hsome : (hexDecode (trim Sample.tokenSignature)).isSome = true := by decide +kernel
  obtain ⟨bytes, hb⟩ := Option.isSome_iff_exists.mp hsome
  exact ⟨Sample.rejectsHighS [], Sample.tokenCreation_admitted, rfl, rfl, by decide +kernel,
    ⟨bytes, bytes, hb, hbytes.trans hb, Or.inl rfl⟩, by decide +kernel, nofun⟩

end ChainState
