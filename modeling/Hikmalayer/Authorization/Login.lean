/-
# Runs of the login protocol

Anyone may ask for a nonce for any address and send any login request, in any order.  A
signature that verifies for an address covers a message that the key of the address has
signed before, and a fresh nonce occurs in nothing that was signed before it was issued.
The history of a run records what was signed, issued and opened, the latest first.
-/
import Mathlib.Tactic
import Hikmalayer.Model.Auth
import Hikmalayer.Model.Sample

open Outcome

namespace Login

/-- What happened at a point of a run. -/
inductive Fact where
  | signed (address message : String)
  | issued (address nonce : String)
  | opened (address nonce token : String)
  deriving DecidableEq

/-- The node's manager and all that happened. -/
structure World where
  manager : AuthManager
  history : List Fact

/-- The message contains the nonce. -/
def names (message nonce : String) : Bool := decide (nonce.toList <:+: message.toList)

/-- A nonce that was never issued and that nothing signed before contains. -/
structure Unpredictable (history : List Fact) (nonce : String) : Prop where
  new : ∀ address, .issued address nonce ∉ history
  unnamed : ∀ address message, .signed address message ∈ history → names message nonce = false

/-- The runs in which each served login request satisfies a condition. -/
inductive Run (E : Env) (condition : VerifyRequest → Prop) : World → Prop
  | start : Run E condition ⟨.new, []⟩
  | sign {w : World} (h : Run E condition w) (address message : String) :
      Run E condition ⟨w.manager, .signed address message :: w.history⟩
  | nonce {w : World} {uuid : String} (h : Run E condition w)
      (hfresh : Unpredictable w.history uuid) (address : String) :
      Run E condition
        ⟨(w.manager.generateNonce uuid address).2, .issued address uuid :: w.history⟩
  | login {w : World} {uuid : String} {payload : VerifyRequest} {response : VerifyResponse}
      {manager : AuthManager} (h : Run E condition w) (hcondition : condition payload)
      (hforge : Auth.verifySignature E payload.address payload.message payload.publicKey
        payload.signature = true → .signed payload.address payload.message ∈ w.history)
      (hserve : Auth.verify E uuid w.manager payload = ok (response, manager)) :
      Run E condition
        ⟨manager, .opened payload.address payload.nonce response.token :: w.history⟩
  | refused {w : World} {uuid : String} {payload : VerifyRequest} {status : StatusCode}
      (h : Run E condition w) (hserve : Auth.verify E uuid w.manager payload = err status) :
      Run E condition w

/-! ## The invariant -/

/-- The nonces of the sessions that were opened. -/
def openedNonces (history : List Fact) : List String :=
  history.filterMap fun fact => match fact with
    | .opened _ nonce _ => some nonce
    | _ => none

@[simp] theorem openedNonces_signed {address message : String} {history : List Fact} :
    openedNonces (.signed address message :: history) = openedNonces history := rfl

@[simp] theorem openedNonces_issued {address nonce : String} {history : List Fact} :
    openedNonces (.issued address nonce :: history) = openedNonces history := rfl

@[simp] theorem openedNonces_opened {address nonce token : String} {history : List Fact} :
    openedNonces (.opened address nonce token :: history) = nonce :: openedNonces history := rfl

/-- The key of the address signed a message with the nonce after the nonce was issued. -/
def SignedSince (history : List Fact) (address nonce : String) : Prop :=
  ∃ later earlier message, history = later ++ .issued address nonce :: earlier ∧
    .signed address message ∈ later ∧ names message nonce = true

/-- What every run keeps, whatever the requests are. -/
structure Kept (w : World) : Prop where
  /-- Each session was opened by a login. -/
  recorded : ∀ token address : String, w.manager.sessions[token]? = some address →
    ∃ nonce, .opened address nonce token ∈ w.history
  /-- A stored nonce was issued for its address. -/
  stored : ∀ address nonce : String, w.manager.nonces[address]? = some nonce →
    .issued address nonce ∈ w.history
  /-- A nonce is issued for one address. -/
  once : ∀ address address' nonce, .issued address nonce ∈ w.history →
    .issued address' nonce ∈ w.history → address = address'
  /-- A stored nonce is unspent. -/
  unspent : ∀ address nonce : String, w.manager.nonces[address]? = some nonce →
    nonce ∉ openedNonces w.history
  /-- Spent nonces were issued. -/
  spent : ∀ nonce ∈ openedNonces w.history, ∃ address, .issued address nonce ∈ w.history
  /-- No nonce is spent twice. -/
  nodup : (openedNonces w.history).Nodup
  /-- Nothing signed before a nonce was issued contains it. -/
  unnamed : ∀ later earlier address nonce, w.history = later ++ .issued address nonce :: earlier →
    ∀ signer message, .signed signer message ∈ earlier → names message nonce = false

variable {E : Env} {condition : VerifyRequest → Prop} {w : World}

theorem Kept.start : Kept ⟨.new, []⟩ where
  recorded := by
    intro token address h
    simp [AuthManager.new] at h
  stored := by
    intro address nonce h
    simp [AuthManager.new] at h
  once := by
    intro address address' nonce h
    cases h
  unspent := by
    intro address nonce h
    simp [AuthManager.new] at h
  spent := by
    intro nonce h
    cases h
  nodup := List.nodup_nil
  unnamed := by
    intro later earlier address nonce h
    simp at h

theorem Kept.sign (h : Kept w) (address message : String) :
    Kept ⟨w.manager, .signed address message :: w.history⟩ where
  recorded := by
    intro token owner hs
    obtain ⟨nonce, hmem⟩ := h.recorded token owner hs
    exact ⟨nonce, List.mem_cons_of_mem _ hmem⟩
  stored := fun owner nonce hn => List.mem_cons_of_mem _ (h.stored owner nonce hn)
  once := by
    intro owner owner' nonce ho ho'
    simp only [List.mem_cons, reduceCtorEq, false_or] at ho ho'
    exact h.once owner owner' nonce ho ho'
  unspent := h.unspent
  spent := by
    intro nonce hn
    obtain ⟨owner, hmem⟩ := h.spent nonce hn
    exact ⟨owner, List.mem_cons_of_mem _ hmem⟩
  nodup := h.nodup
  unnamed := by
    intro later earlier owner nonce hsplit
    cases later with
    | nil => cases hsplit
    | cons fact rest =>
      injection hsplit with _ hsplit
      exact h.unnamed rest earlier owner nonce hsplit

theorem Kept.nonce {uuid : String} (h : Kept w) (hfresh : Unpredictable w.history uuid)
    (address : String) :
    Kept ⟨(w.manager.generateNonce uuid address).2, .issued address uuid :: w.history⟩ where
  recorded := by
    intro token owner hs
    obtain ⟨nonce, hmem⟩ := h.recorded token owner hs
    exact ⟨nonce, List.mem_cons_of_mem _ hmem⟩
  stored := by
    intro owner nonce hn
    simp only [AuthManager.generateNonce] at hn
    by_cases hsame : address = owner
    · rw [hsame, OrderedMap.lookup_insert_self, Option.some.injEq] at hn
      rw [hsame, hn]
      exact List.mem_cons_self
    · rw [OrderedMap.lookup_insert_of_ne _ _ hsame] at hn
      exact List.mem_cons_of_mem _ (h.stored owner nonce hn)
  once := by
    intro owner owner' nonce ho ho'
    rcases List.mem_cons.mp ho with heq | ho <;> rcases List.mem_cons.mp ho' with heq' | ho'
    · cases heq
      cases heq'
      rfl
    · cases heq
      exact absurd ho' (hfresh.new owner')
    · cases heq'
      exact absurd ho (hfresh.new owner)
    · exact h.once owner owner' nonce ho ho'
  unspent := by
    intro owner nonce hn
    simp only [AuthManager.generateNonce] at hn
    rw [openedNonces_issued]
    by_cases hsame : address = owner
    · rw [hsame, OrderedMap.lookup_insert_self, Option.some.injEq] at hn
      intro hspent
      obtain ⟨issuedTo, hmem⟩ := h.spent nonce hspent
      rw [← hn] at hmem
      exact hfresh.new issuedTo hmem
    · rw [OrderedMap.lookup_insert_of_ne _ _ hsame] at hn
      exact h.unspent owner nonce hn
  spent := by
    intro nonce hn
    obtain ⟨owner, hmem⟩ := h.spent nonce hn
    exact ⟨owner, List.mem_cons_of_mem _ hmem⟩
  nodup := h.nodup
  unnamed := by
    intro later earlier owner nonce hsplit
    cases later with
    | nil =>
      injection hsplit with hfact hsplit
      cases hfact
      intro signer message hsigned
      rw [← hsplit] at hsigned
      exact hfresh.unnamed signer message hsigned
    | cons fact rest =>
      injection hsplit with _ hsplit
      exact h.unnamed rest earlier owner nonce hsplit

theorem Kept.login {uuid : String} {payload : VerifyRequest} {response : VerifyResponse}
    {manager : AuthManager} (h : Kept w)
    (hserve : Auth.verify E uuid w.manager payload = ok (response, manager)) :
    Kept ⟨manager, .opened payload.address payload.nonce response.token :: w.history⟩ := by
  obtain ⟨hnonce, -, rfl, rfl⟩ := Auth.verify_eq_ok.mp hserve
  have herased : ∀ {owner nonce : String},
      (w.manager.nonces.erase payload.address)[owner]? = some nonce →
        owner ≠ payload.address ∧ w.manager.nonces[owner]? = some nonce := by
    intro owner nonce hn
    rw [OrderedMap.lookup_erase] at hn
    by_cases hsame : payload.address = owner
    · rw [if_pos hsame] at hn
      cases hn
    · rw [if_neg hsame] at hn
      exact ⟨Ne.symm hsame, hn⟩
  refine ⟨?_, ?_, ?_, ?_, ?_, ?_, ?_⟩
  · intro token owner hs
    simp only [AuthManager.createSession] at hs
    by_cases hsame : uuid ++ "_" ++ payload.address = token
    · rw [hsame, OrderedMap.lookup_insert_self, Option.some.injEq] at hs
      refine ⟨payload.nonce, ?_⟩
      rw [hsame, hs]
      exact List.mem_cons_self
    · rw [OrderedMap.lookup_insert_of_ne _ _ hsame] at hs
      obtain ⟨nonce, hmem⟩ := h.recorded token owner hs
      exact ⟨nonce, List.mem_cons_of_mem _ hmem⟩
  · intro owner nonce hn
    exact List.mem_cons_of_mem _ (h.stored owner nonce (herased hn).2)
  · intro owner owner' nonce ho ho'
    simp only [List.mem_cons, reduceCtorEq, false_or] at ho ho'
    exact h.once owner owner' nonce ho ho'
  · intro owner nonce hn hspent
    obtain ⟨hne, hn⟩ := herased hn
    rw [openedNonces_opened, List.mem_cons] at hspent
    rcases hspent with rfl | hspent
    · exact hne (h.once _ _ _ (h.stored _ _ hn) (h.stored _ _ hnonce))
    · exact h.unspent owner nonce hn hspent
  · intro nonce hspent
    rw [openedNonces_opened, List.mem_cons] at hspent
    rcases hspent with rfl | hspent
    · exact ⟨payload.address, List.mem_cons_of_mem _ (h.stored _ _ hnonce)⟩
    · obtain ⟨owner, hmem⟩ := h.spent nonce hspent
      exact ⟨owner, List.mem_cons_of_mem _ hmem⟩
  · rw [openedNonces_opened, List.nodup_cons]
    exact ⟨h.unspent _ _ hnonce, h.nodup⟩
  · intro later earlier owner nonce hsplit
    cases later with
    | nil => cases hsplit
    | cons fact rest =>
      injection hsplit with _ hsplit
      exact h.unnamed rest earlier owner nonce hsplit

/-- Every run keeps the invariant. -/
theorem Run.kept (h : Run E condition w) : Kept w := by
  induction h with
  | start => exact .start
  | sign _ address message ih => exact ih.sign address message
  | nonce _ hfresh address ih => exact ih.nonce hfresh address
  | login _ _ _ hserve ih => exact ih.login hserve
  | refused _ _ ih => exact ih

/-! ## Sessions -/

/-- A served request whose message contains its nonce was signed since the nonce was issued. -/
theorem Kept.signedSince {uuid : String} {payload : VerifyRequest} {response : VerifyResponse}
    {manager : AuthManager} (h : Kept w) (hnames : names payload.message payload.nonce = true)
    (hforge : Auth.verifySignature E payload.address payload.message payload.publicKey
      payload.signature = true → .signed payload.address payload.message ∈ w.history)
    (hserve : Auth.verify E uuid w.manager payload = ok (response, manager)) :
    SignedSince w.history payload.address payload.nonce := by
  obtain ⟨hnonce, hsignature, -, -⟩ := Auth.verify_eq_ok.mp hserve
  have hsigned := hforge hsignature
  obtain ⟨later, earlier, hsplit⟩ := List.append_of_mem (h.stored _ _ hnonce)
  refine ⟨later, earlier, payload.message, hsplit, ?_, hnames⟩
  rw [hsplit, List.mem_append, List.mem_cons] at hsigned
  rcases hsigned with hlater | heq | hearlier
  · exact hlater
  · cases heq
  · -- what was signed before the nonce was issued does not contain it
    have hnot := h.unnamed later earlier _ _ hsplit _ _ hearlier
    rw [hnot] at hnames
    cases hnames

/-! ## A toy login -/

/-- Holder 7 asks for a session with a signed message and a nonce. -/
def request (message nonce : String) : VerifyRequest :=
  ⟨Sample.address 7, message, Sample.publicKey 7, Sample.signMessage 7 message, nonce⟩

/-- A first nonce for holder 7 and a request that names it. -/
theorem serve_request (message : String) (hsignature : Auth.verifySignature (Sample.env [])
    (Sample.address 7) message (Sample.publicKey 7) (Sample.signMessage 7 message) = true) :
    ∃ manager, Auth.verify (Sample.env []) "uuid"
      ((AuthManager.new.generateNonce "nonce-1" (Sample.address 7)).2)
      (request message "nonce-1") = ok (⟨"uuid_" ++ Sample.address 7, Sample.address 7⟩, manager) := by
  refine ⟨_, Auth.verify_eq_ok.mpr ⟨?_, hsignature, rfl, rfl⟩⟩
  exact OrderedMap.lookup_insert_self _ _ _

/-! ## Fresh signatures -/

/-- Each nonce opens at most one session, and when the served requests carry a message that
contains their nonce, each session was opened after the key of its address signed a message
with the nonce that the node had issued for it. -/
theorem session_fresh (h : Run E (fun payload => names payload.message payload.nonce = true) w) :
    (openedNonces w.history).Nodup ∧
      (∀ token address : String, w.manager.sessions[token]? = some address →
        ∃ nonce, .opened address nonce token ∈ w.history) ∧
      ∀ later earlier address nonce token,
        w.history = later ++ .opened address nonce token :: earlier →
          SignedSince earlier address nonce := by
  refine ⟨h.kept.nodup, h.kept.recorded, ?_⟩
  induction h with
  | start =>
    intro later earlier address nonce token hsplit
    simp at hsplit
  | refused _ _ ih => exact ih
  | login hrun hnames hforge hserve ih =>
    intro later earlier address nonce token hsplit
    cases later with
    | nil =>
      injection hsplit with hfact hsplit
      cases hfact
      rw [← hsplit]
      exact hrun.kept.signedSince hnames hforge hserve
    | cons fact rest =>
      injection hsplit with _ hsplit
      exact ih rest earlier address nonce token hsplit
  | sign _ _ _ ih | nonce _ _ _ ih =>
    intro later earlier address nonce token hsplit
    cases later with
    | nil => cases hsplit
    | cons fact rest =>
      injection hsplit with _ hsplit
      exact ih rest earlier address nonce token hsplit

/-- Holder 7 signs a message with its nonce and gets a session. -/
theorem session_fresh_sample :
    ∃ manager, SignedSince
        [.signed (Sample.address 7) "login nonce-1", .issued (Sample.address 7) "nonce-1"]
        (Sample.address 7) "nonce-1" ∧
      Run (Sample.env []) (fun payload => names payload.message payload.nonce = true)
        ⟨manager, [.opened (Sample.address 7) "nonce-1" ("uuid_" ++ Sample.address 7),
          .signed (Sample.address 7) "login nonce-1", .issued (Sample.address 7) "nonce-1"]⟩ := by
  obtain ⟨manager, hserve⟩ := serve_request "login nonce-1" (by decide +kernel)
  have hrun : Run (Sample.env []) (fun payload => names payload.message payload.nonce = true)
      ⟨manager, [.opened (Sample.address 7) "nonce-1" ("uuid_" ++ Sample.address 7),
        .signed (Sample.address 7) "login nonce-1", .issued (Sample.address 7) "nonce-1"]⟩ := by
    refine .login (.sign (.nonce .start ⟨?_, ?_⟩ _) _ _) (by decide) ?_ hserve
    · intro address h
      cases h
    · intro address message h
      cases h
    · exact fun _ => List.mem_cons_self
  exact ⟨manager, (session_fresh hrun).2.2 [] _ _ _ _ rfl, hrun⟩

/-- Whoever knows the signature of a published token creation of holder 7 gets a session for
its address: the holder signed nothing since the nonce was issued. -/
theorem session_stale :
    ∃ manager message, message = Transaction.scopedSigningMessage defaultChainId
        (Transaction.tokenCreateSigningMessage "GOLD" "Gold" 2 1000000000 1) ∧
      Sample.tokenCreation.signature = some (request message "nonce-1").signature ∧
      Run (Sample.env []) (fun _ => True)
        ⟨manager, [.opened (Sample.address 7) "nonce-1" ("uuid_" ++ Sample.address 7),
          .issued (Sample.address 7) "nonce-1", .signed (Sample.address 7) message]⟩ ∧
      manager.sessions["uuid_" ++ Sample.address 7]? = some (Sample.address 7) ∧
      ¬ SignedSince [.issued (Sample.address 7) "nonce-1", .signed (Sample.address 7) message]
        (Sample.address 7) "nonce-1" := by
  obtain ⟨manager, hserve⟩ := serve_request (Transaction.scopedSigningMessage defaultChainId
    (Transaction.tokenCreateSigningMessage "GOLD" "Gold" 2 1000000000 1)) (by decide +kernel)
  refine ⟨manager, _, rfl, rfl, ?_, ?_, ?_⟩
  · refine .login (.nonce (.sign .start _ _) ⟨?_, ?_⟩ _) trivial ?_ hserve
    · intro address h
      simp at h
    · intro address message h
      simp only [List.mem_singleton, Fact.signed.injEq] at h
      rw [h.2]
      decide +kernel
    · exact fun _ => List.mem_cons_of_mem _ List.mem_cons_self
  · obtain ⟨-, -, -, rfl⟩ := Auth.verify_eq_ok.mp hserve
    exact OrderedMap.lookup_insert_self _ _ _
  · rintro ⟨later, earlier, message, hsplit, hsigned, -⟩
    cases later with
    | nil => cases hsigned
    | cons fact rest =>
      injection hsplit with _ hsplit
      cases rest with
      | nil => cases hsplit
      | cons fact' rest' =>
        injection hsplit with _ hsplit
        simp at hsplit

end Login
