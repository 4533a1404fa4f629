/-
# The credential registry

A certificate either issues a credential under an id that is free, or marks a credential of its
sender as revoked; nothing else writes the registry.  So a credential stays as it was issued for the
whole run, except for its mark, which only its issuer sets and nobody takes back.
-/
import Mathlib.Tactic
import Hikmalayer.Authorization.Signers
import Hikmalayer.Ledger.SampleRun

open Outcome Exec OrderedMap

namespace ChainState

open Transaction

variable {E : Node} {s s' t : ChainState} {tx : Transaction} {height : UInt64}
  {account validator id : String} {action : CredentialAction} {record record' : CredentialRecord}

/-! ## One transaction -/

/-- What an applied transaction did to the credentials. -/
inductive CredentialStep (tx : Transaction) (s s' : ChainState) : Prop
  | issue {action : CredentialAction} {issuer : String} (ht : tx.transactionType = .certificate)
      (ha : tx.credential = some action) (hissue : action.revoke = false)
      (hnew : action.id ∉ s.credentials)
      (he : s'.credentials = s.credentials.insert action.id
        ⟨issuer, action.subject, action.dataHash, tx.timestamp.toRfc3339, false⟩)
  | revoke {action : CredentialAction} {record : CredentialRecord}
      (ht : tx.transactionType = .certificate) (ha : tx.credential = some action)
      (hrevoke : action.revoke = true) (hr : s.credentials[action.id]? = some record)
      (hissuer : tx.signer = some record.issuer)
      (he : s'.credentials = s.credentials.insert action.id { record with revoked := true })
  | other (ht : tx.transactionType = .certificate → tx.credential = none)
      (he : s'.credentials = s.credentials)

/-- The other types do not see the registry. -/
theorem Mutation.credentials {effects : StateAction} (h : Mutation E tx height s account effects)
    (ht : tx.transactionType ≠ .certificate) : Leaves credentials effects :=
  h.leaves ⟨fun _ _ _ => rfl, fun _ _ => rfl, fun _ _ _ => rfl, fun _ _ _ => rfl,
    fun _ _ _ => rfl⟩ (fun _ _ _ _ => rfl) (fun _ _ _ => rfl) (fun _ _ _ => rfl)
    (fun _ _ _ _ => rfl) fun hc => absurd hc ht

/-- The mutations of a certificate, after its nonce. -/
theorem certificateEffects_credentials (ht : tx.transactionType = .certificate)
    (ha : tx.credential = some action) (hsigner : tx.signer = some account)
    (he : certificateEffects tx action account (s.setNonce account tx.nonce) = ok ((), s')) :
    CredentialStep tx s s' := by
  rw [certificateEffects, update_eq_ok] at he
  split at he
  · rename_i hrevoke
    simp only [Outcome.bind_eq_ok, okOr_eq_ok, ensure_eq_ok, pure_eq, ok.injEq] at he
    obtain ⟨record, hr, _, hissuer, rfl⟩ := he
    exact .revoke ht ha hrevoke hr (by rw [hissuer, hsigner]) rfl
  · rename_i hissue
    simp only [Outcome.bind_eq_ok, ensure_eq_ok, pure_eq, ok.injEq] at he
    obtain ⟨_, hnew, rfl⟩ := he
    exact .issue ht ha (Bool.eq_false_iff.mpr hissue) hnew rfl

theorem Applied.credentialStep (h : Applied E tx height s s') : CredentialStep tx s s' := by
  cases h with
  | @signed account effects hm hn he =>
    by_cases ht : tx.transactionType = .certificate
    · have hsigner := hm.signer
      cases hm with
      | certificate _ ha hc => exact certificateEffects_credentials ht ha hsigner he
      | _ ht' => rw [ht] at ht'; cases ht'
    · exact .other (fun hc => absurd hc ht) ((hm.credentials ht (s.setNonce account tx.nonce)).1 _ _ he)
  | reward ht he =>
    refine .other (fun hc => by rw [ht] at hc; cases hc) ?_
    exact (applyReward_leaves (g := ChainState.credentials) (fun _ _ _ => rfl) (fun _ _ _ => rfl)
      s).1 _ _ he
  | slash ht he =>
    refine .other (fun hc => by rw [ht] at hc; cases hc) ?_
    exact (((Leaves.read ChainState.credentials _).bind fun _ => slashEffects_leaves
      (fun _ _ _ => rfl) (fun _ _ _ => rfl) (fun _ _ _ => rfl) (fun _ _ => rfl)
      (fun _ _ _ => rfl) _ _) s).1 _ _ he
  | anchor ht hc he => exact .other (fun _ => hc) (by rw [he])

theorem applyVerified_credentialStep (h : applyVerified E tx height s = ok ((), s')) :
    CredentialStep tx s s' :=
  (applyVerified_applied h).2.2.credentialStep

/-- Closing a block does not see the registry. -/
theorem endBlock_credentials (h : endBlock E height validator s = ok ((), s')) :
    s'.credentials = s.credentials :=
  (endBlock_leaves (g := ChainState.credentials) (fun _ _ _ => rfl) (fun _ _ => rfl)
    (fun _ _ => rfl) (fun _ _ => rfl) (fun _ _ => rfl) (fun _ _ => rfl) s).1 _ _ h

/-- Transactions of the other types leave the registry alone. -/
theorem CredentialStep.same (h : CredentialStep tx s s') (ht : tx.transactionType ≠ .certificate) :
    s'.credentials = s.credentials := by
  cases h with
  | issue hc => exact absurd hc ht
  | revoke hc => exact absurd hc ht
  | other _ he => exact he

/-- Nothing is issued under an id that is taken. -/
theorem CredentialStep.fresh (h : CredentialStep tx s s') (ht : tx.transactionType = .certificate)
    (ha : tx.credential = some action) (hissue : action.revoke = false) :
    action.id ∉ s.credentials := by
  cases h with
  | @issue action' _ _ ha' _ hnew =>
    rw [ha', Option.some.injEq] at ha
    exact ha ▸ hnew
  | revoke _ ha' hrevoke =>
    rw [ha', Option.some.injEq] at ha
    rw [ha, hissue] at hrevoke
    cases hrevoke
  | other hnone _ =>
    rw [hnone ht] at ha
    cases ha

/-! ## One credential -/

/-- What can become of a credential: it is the same, or the same with the mark set. -/
structure Continues (record record' : CredentialRecord) : Prop where
  issuer : record'.issuer = record.issuer
  subject : record'.subject = record.subject
  dataHash : record'.dataHash = record.dataHash
  issuedAt : record'.issuedAt = record.issuedAt
  revoked : record.revoked = true → record'.revoked = true

theorem Continues.refl (record : CredentialRecord) : Continues record record :=
  ⟨rfl, rfl, rfl, rfl, id⟩

theorem Continues.trans {a b c : CredentialRecord} (h : Continues a b) (h' : Continues b c) :
    Continues a c :=
  ⟨h'.issuer.trans h.issuer, h'.subject.trans h.subject, h'.dataHash.trans h.dataHash,
    h'.issuedAt.trans h.issuedAt, fun hr => h'.revoked (h.revoked hr)⟩

/-- An applied certificate with which an account revokes a credential. -/
def Revokes (E : Node) (id issuer : String) (s s' : ChainState) : Prop :=
  ∃ (tx : Transaction) (action : CredentialAction) (height : UInt64) (validator : String),
    tx.verifyForBlock E validator = ok () ∧ applyVerified E tx height s = ok ((), s') ∧
      tx.transactionType = .certificate ∧ tx.credential = some action ∧ action.id = id ∧
        action.revoke = true ∧ Authenticated E s tx issuer

/-- A step keeps a credential, and changes its mark only as its issuer asks. -/
theorem Step.credential (h : Step E s s') (hr : s.credentials[id]? = some record) :
    ∃ record', s'.credentials[id]? = some record' ∧ Continues record record' ∧
      (record'.revoked ≠ record.revoked → Revokes E id record.issuer s s') := by
  have hsame : s'.credentials = s.credentials → ∃ record', s'.credentials[id]? = some record' ∧
      Continues record record' ∧
        (record'.revoked ≠ record.revoked → Revokes E id record.issuer s s') := by
    intro he
    exact ⟨record, by rw [he, hr], .refl record, fun hne => absurd rfl hne⟩
  cases h with
  | close _ hend => exact hsame (endBlock_credentials hend)
  | @apply tx height validator _ hver ha =>
    cases applyVerified_credentialStep ha with
    | @issue action _ _ _ _ hnew he =>
      have hne : action.id ≠ id := by
        rintro rfl
        exact hnew (Std.ExtTreeMap.mem_iff_isSome_getElem?.mpr (by rw [hr]; rfl))
      refine ⟨record, ?_, .refl record, fun hr' => absurd rfl hr'⟩
      rw [he, lookup_insert_of_ne _ _ hne, hr]
    | @revoke action found ht hc hrevoke hfound hissuer he =>
      by_cases hid : action.id = id
      · subst hid
        rw [hr, Option.some.injEq] at hfound
        subst hfound
        refine ⟨{ record with revoked := true }, by rw [he, lookup_insert_self],
          ⟨rfl, rfl, rfl, rfl, fun _ => rfl⟩, fun _ => ?_⟩
        exact ⟨tx, action, height, validator, hver, ha, ht, hc, rfl, hrevoke,
          (applyVerified_applied ha).2.2.authenticated hver hissuer⟩
      · refine ⟨record, ?_, .refl record, fun hr' => absurd rfl hr'⟩
        rw [he, lookup_insert_of_ne _ _ hid, hr]
    | other _ he => exact hsame he

/-! ## Runs -/

/-- Somewhere between two states of a run an account revokes a credential. -/
def RevokedBetween (E : Node) (id issuer : String) (s s' : ChainState) : Prop :=
  ∃ t t', Relation.ReflTransGen (Step E) s t ∧ Revokes E id issuer t t' ∧
    Relation.ReflTransGen (Step E) t' s'

theorem RevokedBetween.step {issuer : String} (h : RevokedBetween E id issuer s t)
    (hstep : Step E t s') : RevokedBetween E id issuer s s' := by
  obtain ⟨u, u', hbefore, hrevokes, hafter⟩ := h
  exact ⟨u, u', hbefore, hrevokes, hafter.tail hstep⟩

/-- A run keeps a credential, and changes its mark only where its issuer asks. -/
theorem credential_of_run (hrun : Relation.ReflTransGen (Step E) s s')
    (hr : s.credentials[id]? = some record) :
    ∃ record', s'.credentials[id]? = some record' ∧ Continues record record' ∧
      (record'.revoked ≠ record.revoked → RevokedBetween E id record.issuer s s') := by
  induction hrun with
  | refl => exact ⟨record, hr, .refl record, fun hne => absurd rfl hne⟩
  | @tail t s' hrun hstep ih =>
    obtain ⟨middle, hmiddle, hfirst, hearlier⟩ := ih
    obtain ⟨last, hlast, hsecond, hnow⟩ := hstep.credential hmiddle
    refine ⟨last, hlast, hfirst.trans hsecond, fun hne => ?_⟩
    by_cases hbefore : middle.revoked = record.revoked
    · -- the mark was set by the last step
      have hrevokes := hnow (by rwa [hbefore])
      rw [hfirst.issuer] at hrevokes
      exact ⟨t, s', hrun, hrevokes, .refl⟩
    · exact (hearlier hbefore).step hstep

/-! ## A sample run -/

/-- Holder 7 signs an action on a credential. -/
def certificate (action : CredentialAction) (nonce : UInt64) : Transaction :=
  { Sample.order 7 .certificate "" 0 nonce none none (credentialSigningMessage action nonce) with
    credential := some action }

def diploma : CredentialAction := ⟨"diploma", "student", "hash", false⟩

theorem verifyForBlock_certificate {nonce : UInt64} (hid : blank action.id = false)
    (hlen : byteLen action.id ≤ 128) (hsubject : byteLen action.subject ≤ 256)
    (hhash : byteLen action.dataHash ≤ 128) :
    (certificate action nonce).verifyForBlock (Sample.node []) validator = ok () := by
  simp only [verifyForBlock, certificate, Sample.order, Outcome.bind_eq_ok, ensure_eq_ok,
    okOr_some, ok.injEq]
  refine ⟨(), trivial, _, rfl, (), ?_, (), ?_, ?_⟩
  · rintro (h | h)
    · rw [hid] at h
      cases h
    · omega
  · omega
  · exact Sample.verifySenderSignature_signed Sample.schemeOf_seven rfl rfl ⟨rfl, rfl⟩

/-- Holder 7 issues a credential and revokes it. -/
theorem credentialRun_sample : ∃ s s' record, Reachable (Sample.node []) s ∧
    Step (Sample.node []) s s' ∧ s.credentials["diploma"]? = some record ∧
      record.issuer = Sample.address 7 ∧ record.revoked = false ∧
        (s'.credentials["diploma"]?.map CredentialRecord.revoked) = some true := by
  have hrun : (applyVerified (Sample.node []) (certificate diploma 1) 1
      (Sample.genesis 1000000000000000)).returns (fun r =>
        decide (r.2.credentials["diploma"]?.map (fun record => (record.issuer, record.revoked)) =
          some (Sample.address 7, false)) &&
        (applyVerified (Sample.node []) (certificate { diploma with revoke := true } 2) 1
          r.2).returns fun r' => decide
            ((r'.2.credentials["diploma"]?.map CredentialRecord.revoked) = some true)) = true := by
    decide +kernel
  obtain ⟨⟨⟨⟩, s⟩, h₁, hrun⟩ := exists_of_returns hrun
  rw [Bool.and_eq_true, decide_eq_true_eq] at hrun
  obtain ⟨hissued, hrun⟩ := hrun
  obtain ⟨⟨⟨⟩, s'⟩, h₂, hrevoked⟩ := exists_of_returns hrun
  obtain ⟨record, hr, hfields⟩ := Option.map_eq_some_iff.mp hissued
  rw [Prod.mk.injEq] at hfields
  have hid : blank diploma.id = false := by decide
  have hlen : byteLen diploma.id ≤ 128 := by decide
  have hsubject : byteLen diploma.subject ≤ 256 := by decide
  have hhash : byteLen diploma.dataHash ≤ 128 := by decide
  have hverifies : ∀ revoke nonce, (certificate { diploma with revoke } nonce).verifyForBlock
      (Sample.node []) (Sample.address 7) = ok () :=
    fun _ _ => verifyForBlock_certificate hid hlen hsubject hhash
  exact ⟨s, s', record, (Sample.genesis_reachable _).step
    (.apply Sample.address_valid (hverifies false 1) h₁),
    .apply Sample.address_valid (hverifies true 2) h₂, hr, hfields.1, hfields.2,
    of_decide_eq_true hrevoked⟩

/-! ## Main result -/

/-- In every run a credential stays under its id as it was issued, nothing is issued under the id
again, and the mark is set only by a certificate that the issuer signed and never taken back.
Only certificates write the registry. -/
theorem credential_law (hrun : Relation.ReflTransGen (Step E) s s') :
    (∀ id record, s.credentials[id]? = some record →
      (∃ record', s'.credentials[id]? = some record' ∧ Continues record record' ∧
        (record'.revoked ≠ record.revoked → RevokedBetween E id record.issuer s s')) ∧
      ∀ (tx : Transaction) (action : CredentialAction) (height : UInt64) (t : ChainState),
        tx.transactionType = .certificate → tx.credential = some action → action.id = id →
          action.revoke = false → applyVerified E tx height s' ≠ ok ((), t)) ∧
    (∀ (tx : Transaction) (height : UInt64) (t : ChainState), tx.transactionType ≠ .certificate →
      applyVerified E tx height s' = ok ((), t) → t.credentials = s'.credentials) ∧
    ∀ (height : UInt64) (validator : String) (t : ChainState),
      endBlock E height validator s' = ok ((), t) → t.credentials = s'.credentials := by
  refine ⟨fun id record hr => ?_, fun tx height t ht h => ?_, fun height validator t h => ?_⟩
  · obtain ⟨record', hr', hcontinues, hmark⟩ := credential_of_run hrun hr
    refine ⟨⟨record', hr', hcontinues, hmark⟩, fun tx action height t ht ha hid hissue h => ?_⟩
    have hnew := (applyVerified_credentialStep h).fresh ht ha hissue
    rw [hid] at hnew
    exact hnew (Std.ExtTreeMap.mem_iff_isSome_getElem?.mpr (by rw [hr']; rfl))
  · exact (applyVerified_credentialStep h).same ht
  · exact endBlock_credentials h

theorem credential_law_sample : ∃ s s', Reachable (Sample.node []) s ∧
    RevokedBetween (Sample.node []) "diploma" (Sample.address 7) s s' := by
  obtain ⟨s, s', record, hreach, hstep, hr, hissuer, hvalid, hrevoked⟩ := credentialRun_sample
  obtain ⟨⟨record', hr', -, hmark⟩, -⟩ :=
    (credential_law (E := Sample.node []) (.single hstep)).1 "diploma" record hr
  rw [hr', Option.map_some, Option.some.injEq] at hrevoked
  exact ⟨s, s', hreach, hissuer ▸ hmark (by rw [hvalid, hrevoked]; exact nofun)⟩

end ChainState
