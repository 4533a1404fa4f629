/-
# Opening a keyring

With an ideal cipher and an ideal key derivation a stored vault opens to the keys that were sealed,
in their order.  What is shown beside them is checked for the addresses only: a stored public key is
the key's own exactly when nobody has changed it.
-/
import Mathlib.Tactic
import Hikmalayer.Model.Hex
import Hikmalayer.Model.Keyring

open Outcome

namespace Wallet

/-! ## Normalized text -/

theorem toLower_toLower (c : Char) : c.toLower.toLower = c.toLower := by
  unfold Char.toLower
  split
  · rename_i h
    rw [dif_neg]
    simp only [ge_iff_le, UInt32.le_iff_toNat_le, UInt32.toNat_add] at h ⊢
    have hA : 'A'.val.toNat = 65 := rfl
    have hZ : 'Z'.val.toNat = 90 := rfl
    have hshift : ('a'.val - 'A'.val).toNat = 32 := rfl
    omega
  · rename_i h
    rfl

theorem map_toLower_hexChars (bytes : List UInt8) :
    (hexChars bytes).map Char.toLower = hexChars bytes := by
  have hdigit : ∀ d < 16, (Nat.digitChar d).toLower = Nat.digitChar d := by decide
  induction bytes with
  | nil => rfl
  | cons b rest ih =>
    have hb := b.toNat_lt
    rw [hexChars_cons, List.map_cons, List.map_cons, ih, hdigit _ (by omega), hdigit _ (by omega)]

theorem isSpace_of_hexValue {c : Char} {v : ℕ} (h : hexValue c = some v) :
    Javascript.isSpace c = false := by
  rw [Javascript.isSpace, decide_eq_false_iff_not]
  simp only [List.mem_cons, List.not_mem_nil, or_false]
  rcases hexValue_cases h with h | h | h <;> omega

/-- Hexadecimal text is only put in lower case. -/
theorem normalizeHex_of_hexDecode {s : String} {bytes : List UInt8} (h : hexDecode s = some bytes) :
    normalizeHex s = String.ofList (s.toList.map Char.toLower) := by
  have hdigits := hexDecodeChars_digits s.toList h
  have htrim : Text.trimBy Javascript.isSpace s.toList = s.toList :=
    Text.trimBy_eq_self fun c hc => (hdigits c hc).elim fun v hv => isSpace_of_hexValue hv
  have hstrip : stripHexPrefix s.toList = s.toList := by
    unfold stripHexPrefix
    split
    · rename_i x rest hl
      obtain ⟨v, hv⟩ := hdigits x (by rw [hl]; exact List.mem_cons_of_mem _ List.mem_cons_self)
      rw [hl]
      refine if_neg ?_
      rintro (rfl | rfl) <;> cases hv
    · rfl
  rw [normalizeHex, htrim, hstrip]

/-- What is normalized and decodes is not changed by normalizing. -/
theorem normalizeHex_normalizeHex {s : String} {bytes : List UInt8}
    (h : hexDecode (normalizeHex s) = some bytes) :
    normalizeHex (normalizeHex s) = normalizeHex s := by
  rw [normalizeHex_of_hexDecode h, normalizeHex, String.toList_ofList, List.map_map]
  exact congrArg String.ofList (List.map_congr_left fun c _ => toLower_toLower c)

theorem normalizeHex_hexEncode (bytes : List UInt8) :
    normalizeHex (hexEncode bytes) = hexEncode bytes := by
  rw [normalizeHex_of_hexDecode (hexDecode_hexEncode bytes), toList_hexEncode, map_toLower_hexChars]
  rfl

/-- A text that starts with a bracket does not decode, normalized or not. -/
theorem hexDecode_bracket {s : String} (h : s.toList.head? = some '[') :
    hexDecode (normalizeHex s) = none := by
  obtain ⟨l, hl⟩ := List.head?_eq_some_iff.mp h
  obtain ⟨rest, hrest⟩ := Text.trimBy_cons (p := Javascript.isSpace) (c := '[') (by decide) l
  rw [normalizeHex, hl, hrest, hexDecode, String.toList_ofList]
  show hexDecodeChars ('[' :: rest.map Char.toLower) = none
  cases rest with
  | nil => rfl
  | cons c rest =>
    rw [List.map_cons, hexDecodeChars]
    rfl

/-! ## What a key derives to -/

variable {Key Ciphertext : Type} {W : Primitives Key Ciphertext}

theorem isValidPrivateKey_iff {key : String} : isValidPrivateKey W key = true ↔
    ∃ bytes, hexDecode (normalizeHex key) = some bytes ∧ bytes.length = 32 ∧
      W.isValidScalar bytes = true := by
  unfold isValidPrivateKey hexToBytes
  cases h : hexDecode (normalizeHex key) with
  | none => simp
  | some bytes => simp

theorem normalizeHex_of_valid {key : String} (h : isValidPrivateKey W key = true) :
    normalizeHex (normalizeHex key) = normalizeHex key := by
  obtain ⟨bytes, hbytes, -⟩ := isValidPrivateKey_iff.mp h
  exact normalizeHex_normalizeHex hbytes

theorem isValidPrivateKey_normalizeHex {key : String} (h : isValidPrivateKey W key = true) :
    isValidPrivateKey W (normalizeHex key) = true := by
  obtain ⟨bytes, hbytes, hrest⟩ := isValidPrivateKey_iff.mp h
  refine isValidPrivateKey_iff.mpr ⟨bytes, ?_, hrest⟩
  rw [normalizeHex_of_valid h, hbytes]

/-- The public key and the address that a key derives to. -/
structure Derives (W : Primitives Key Ciphertext) (key publicKey address : String) : Prop where
  publicKey_eq : derivePublicKey W key = ok publicKey
  address_eq : deriveAddress W publicKey = ok address

theorem exists_derives {key : String} (h : isValidPrivateKey W key = true) :
    ∃ publicKey address, Derives W key publicKey address := by
  obtain ⟨bytes, hbytes, -⟩ := isValidPrivateKey_iff.mp h
  refine ⟨hexEncode (W.getPublicKey bytes),
    addressPrefix ++ hexEncode ((W.sha256 (W.getPublicKey bytes)).take 20), ?_, ?_⟩
  · rw [derivePublicKey, hexToBytes, hbytes]
    rfl
  · rw [deriveAddress, hexToBytes, normalizeHex_hexEncode, hexDecode_hexEncode]
    rfl

/-- The address beside a key is its own. -/
def Addressed (W : Primitives Key Ciphertext) (key : String) (account : AccountMetadata) : Prop :=
  ∃ publicKey address, Derives W key publicKey address ∧ account.address = some address

/-- The address and the public key beside a key are its own. -/
def Shown (W : Primitives Key Ciphertext) (key : String) (account : AccountMetadata) : Prop :=
  ∃ publicKey address, Derives W key publicKey address ∧ account.address = some address ∧
    account.publicKey = some publicKey

/-- The public key beside a key is its own. -/
def Keyed (W : Primitives Key Ciphertext) (key : String) (account : AccountMetadata) : Prop :=
  ∃ publicKey, derivePublicKey W key = ok publicKey ∧ account.publicKey = some publicKey

theorem shown_iff {key : String} {account : AccountMetadata} (h : Addressed W key account) :
    Shown W key account ↔ Keyed W key account := by
  obtain ⟨publicKey, address, hd, ha⟩ := h
  constructor
  · rintro ⟨publicKey', address', hd', -, hk⟩
    exact ⟨publicKey', hd'.publicKey_eq, hk⟩
  · rintro ⟨publicKey', hd', hk⟩
    rw [hd.publicKey_eq, ok.injEq] at hd'
    exact ⟨publicKey, address, hd, ha, hd' ▸ hk⟩

/-- The check of the addresses passes exactly when each is its key's own. -/
theorem checkAddresses_eq_ok : ∀ {keys : List String} {accounts : List AccountMetadata},
    accounts.length = keys.length →
      (checkAddresses W keys accounts = ok () ↔ List.Forall₂ (Addressed W) keys accounts)
  | [], [], _ => ⟨fun _ => .nil, fun _ => rfl⟩
  | key :: keys, account :: accounts, hlen => by
    have ih : checkAddresses W keys accounts = ok () ↔ _ := checkAddresses_eq_ok (by simpa using hlen)
    rw [List.forall₂_cons, ← ih]
    simp only [checkAddresses, Outcome.bind_eq_ok, ensure_eq_ok]
    constructor
    · rintro ⟨publicKey, hp, address, ha, _, hsame, hrest⟩
      exact ⟨⟨publicKey, address, ⟨hp, ha⟩, hsame.symm⟩, hrest⟩
    · rintro ⟨⟨publicKey, address, hd, hsame⟩, hrest⟩
      exact ⟨publicKey, hd.publicKey_eq, address, hd.address_eq, (), hsame.symm, hrest⟩

/-! ## Sealing -/

/-- The cipher and the key derivation are ideal: what is sealed opens, with the key and the vector
it was sealed with and no others, and a derived key has one password, salt and count. -/
structure Primitives.Ideal (W : Primitives Key Ciphertext) : Prop where
  opens : ∀ key iv text, W.decrypt key iv (W.encrypt key iv text) = some text
  authentic : ∀ {key iv text key' iv' text'},
    W.decrypt key' iv' (W.encrypt key iv text) = some text' → key' = key ∧ iv' = iv
  separates : ∀ {bytes salt rounds bytes' salt' rounds'},
    W.pbkdf2 bytes salt rounds = W.pbkdf2 bytes' salt' rounds' →
      bytes = bytes' ∧ salt = salt' ∧ rounds = rounds'

/-- A password and the stored parameters open what was sealed under another vault and password. -/
structure Unlocks (vault : Vault Ciphertext) (password : List UInt16) (vault' : Vault Ciphertext)
    (password' : List UInt16) : Prop where
  password : Javascript.utf8ToBytes password' = Javascript.utf8ToBytes password
  salt : vault'.salt = vault.salt
  rounds : vault'.rounds = vault.rounds
  iv : vault'.iv = vault.iv

/-- What a stored vault of either version holds. -/
structure Holds (W : Primitives Key Ciphertext) (password : List UInt16) (keys : List String)
    (vault : Vault Ciphertext) (text : String) : Prop where
  sealed : vault.ciphertext =
    W.encrypt (deriveVaultKey W password vault.salt vault.rounds) vault.iv text
  valid : ∀ key ∈ keys, isValidPrivateKey W key = true
  normal : ∀ key ∈ keys, normalizeHex key = key
  form : (vault.version = 1 ∧ keys = [text]) ∨
    (vault.version = 2 ∧ keys ≠ [] ∧ text = (Json.arr (keys.map .str)).text)
  shown : List.Forall₂ (Shown W) keys (vaultAccounts (some vault))

/-- A vault that was stored for some keys under a password, in either version. -/
inductive Stored (W : Primitives Key Ciphertext) (password : List UInt16) :
    List String → Vault Ciphertext → Prop
  | single {key : String} {salt iv : List UInt8} {vault : Vault Ciphertext}
      (h : encryptVault W key password salt iv = ok vault) :
      Stored W password [normalizeHex key] vault
  | keyring {keys : List String} {labels : List (List UInt16)} {activeIndex : Option ℤ}
      {salt iv : List UInt8} {vault : Vault Ciphertext}
      (hvalid : ∀ key ∈ keys, isValidPrivateKey W key = true)
      (h : encryptKeyring W keys password labels activeIndex salt iv = ok vault) :
      Stored W password (keys.map normalizeHex) vault

theorem derivePublicKey_normalizeHex {key : String} (h : isValidPrivateKey W key = true) :
    derivePublicKey W (normalizeHex key) = derivePublicKey W key := by
  rw [derivePublicKey, derivePublicKey, normalizeHex_of_valid h]

/-- The metadata that is written is the keys' own. -/
theorem accountMetadata_shown {key : String} {label : Option (List UInt16)} {index : ℕ}
    {account : AccountMetadata} (h : accountMetadata W key label index = ok account) :
    Shown W key account := by
  simp only [accountMetadata, Outcome.bind_eq_ok, pure_eq, ok.injEq] at h
  obtain ⟨publicKey, hp, address, ha, rfl⟩ := h
  exact ⟨publicKey, address, ⟨hp, ha⟩, rfl, rfl⟩

theorem accountsFrom_shown {labels : List (List UInt16)} {keys : List String} {index : ℕ}
    {accounts : List AccountMetadata} (h : accountsFrom W labels index keys = ok accounts) :
    List.Forall₂ (Shown W) keys accounts := by
  induction keys generalizing index accounts with
  | nil =>
    rw [accountsFrom, pure_eq, ok.injEq] at h
    rw [← h]
    exact .nil
  | cons key keys ih =>
    rw [accountsFrom] at h
    obtain ⟨account, hmeta, h⟩ := Outcome.bind_eq_ok.mp h
    obtain ⟨rest, hrest, h⟩ := Outcome.bind_eq_ok.mp h
    rw [← ok.inj h]
    exact .cons (accountMetadata_shown hmeta) (ih hrest)

theorem accountsFrom_returns {labels : List (List UInt16)} {keys : List String} {index : ℕ}
    (h : ∀ key ∈ keys, isValidPrivateKey W key = true) :
    ∃ accounts, accountsFrom W labels index keys = ok accounts := by
  induction keys generalizing index with
  | nil => exact ⟨[], rfl⟩
  | cons key keys ih =>
    obtain ⟨publicKey, address, hd⟩ := exists_derives (h key List.mem_cons_self)
    obtain ⟨accounts, hrest⟩ : ∃ accounts, accountsFrom W labels (index + 1) keys = ok accounts :=
      ih fun k hk => h k (List.mem_cons_of_mem _ hk)
    simp only [accountsFrom, accountMetadata, hd.publicKey_eq, hd.address_eq, ok_bind, pure_eq, hrest,
      ok.injEq, exists_eq']

theorem Stored.holds {password : List UInt16} {keys : List String} {vault : Vault Ciphertext}
    (h : Stored W password keys vault) : ∃ text, Holds W password keys vault text := by
  cases h with
  | @single key salt iv _ h =>
    simp only [encryptVault, Outcome.bind_eq_ok, ensure_eq_ok, pure_eq, ok.injEq] at h
    obtain ⟨_, hvalid, _, -, publicKey, hp, address, ha, rfl⟩ := h
    refine ⟨normalizeHex key, rfl, ?_, ?_, .inl ⟨rfl, rfl⟩, ?_⟩
    · intro k hk
      rw [List.mem_singleton.mp hk]
      exact isValidPrivateKey_normalizeHex hvalid
    · intro k hk
      rw [List.mem_singleton.mp hk]
      exact normalizeHex_of_valid hvalid
    · refine .cons ⟨publicKey, address, ⟨?_, ha⟩, rfl, rfl⟩ .nil
      rw [derivePublicKey_normalizeHex hvalid, hp]
  | @keyring keys labels activeIndex salt iv _ hvalid h =>
    simp only [encryptKeyring, Outcome.bind_eq_ok, ensure_eq_ok, pure_eq, ok.injEq] at h
    obtain ⟨_, hsome, _, -, _, hvalid', _, -, _, -, accounts, haccounts, rfl⟩ := h
    refine ⟨_, rfl, hvalid', ?_, .inr ⟨rfl, ?_, rfl⟩, accountsFrom_shown haccounts⟩
    · intro k hk
      obtain ⟨key, hkey, rfl⟩ := List.mem_map.mp hk
      exact normalizeHex_of_valid (hvalid key hkey)
    · intro hnil
      rw [hnil] at hsome
      exact hsome rfl

/-- A list of keys is sealed when each is valid, no two are the same and they fit the wallet. -/
theorem encryptKeyring_returns {keys : List String} {password : List UInt16}
    {labels : List (List UInt16)} {activeIndex : Option ℤ} {salt iv : List UInt8}
    (hvalid : ∀ key ∈ keys, isValidPrivateKey W key = true)
    (hdistinct : (keys.map normalizeHex).Nodup) (hsome : keys ≠ [])
    (hlimit : keys.length ≤ maxAccounts) (hpassword : 8 ≤ password.length) :
    ∃ vault, encryptKeyring W keys password labels activeIndex salt iv = ok vault := by
  have hnormal : ∀ key ∈ keys.map normalizeHex, isValidPrivateKey W key = true := by
    intro k hk
    obtain ⟨key, hkey, rfl⟩ := List.mem_map.mp hk
    exact isValidPrivateKey_normalizeHex (hvalid key hkey)
  obtain ⟨accounts, haccounts⟩ : ∃ accounts, accountsFrom W labels 0 _ = ok accounts :=
    accountsFrom_returns hnormal
  have hlength : (keys.map normalizeHex).length = keys.length := List.length_map _
  have hpos : (keys.map normalizeHex).length ≠ 0 := by
    rw [hlength]
    exact fun h => hsome (List.length_eq_zero_iff.mp h)
  simp only [encryptKeyring, ensure_pos hpos, ensure_pos (hlength.le.trans hlimit),
    ensure_pos hnormal, ensure_pos hdistinct, ensure_pos hpassword, haccounts, ok_bind, pure_eq,
    ok.injEq, exists_eq']

theorem encryptKeyring_version {keys : List String} {password : List UInt16}
    {labels : List (List UInt16)} {activeIndex : Option ℤ} {salt iv : List UInt8}
    {vault : Vault Ciphertext}
    (h : encryptKeyring W keys password labels activeIndex salt iv = ok vault) :
    vault.version = 2 := by
  simp only [encryptKeyring, Outcome.bind_eq_ok, pure_eq, ok.injEq] at h
  obtain ⟨_, -, _, -, _, -, _, -, _, -, _, -, rfl⟩ := h
  rfl

/-! ## Opening -/

variable {password password' : List UInt16} {keys keys' : List String}
  {vault vault' : Vault Ciphertext} {text text' : String}

theorem openSealed_eq_ok (hW : W.Ideal) (h : Holds W password keys vault text)
    (hsame : vault'.ciphertext = vault.ciphertext) :
    openSealed W vault' password' = ok text' ↔
      Unlocks vault password vault' password' ∧ text' = text := by
  rw [openSealed, okOr_eq_ok, hsame, h.sealed]
  constructor
  · intro hopen
    obtain ⟨hkey, hiv⟩ := hW.authentic hopen
    obtain ⟨hbytes, hsalt, hrounds⟩ := hW.separates hkey
    rw [hkey, hiv, hW.opens, Option.some.injEq] at hopen
    exact ⟨⟨hbytes, hsalt, hrounds, hiv⟩, hopen.symm⟩
  · rintro ⟨⟨hbytes, hsalt, hrounds, hiv⟩, rfl⟩
    rw [deriveVaultKey, hbytes, hsalt, hrounds, hiv]
    exact hW.opens _ _ _

/-- A vault opens to the keys that were sealed when the password and the parameters are the same,
it still has the version it was stored with, and the addresses are the keys' own. -/
structure Opens (W : Primitives Key Ciphertext) (password : List UInt16) (keys : List String)
    (vault vault' : Vault Ciphertext) (password' : List UInt16) : Prop where
  unlocks : Unlocks vault password vault' password'
  version : vault'.version = 2 ↔ vault.version = 2
  addressed : List.Forall₂ (Addressed W) keys (vaultAccounts (some vault'))

theorem decryptVault_eq_ok {key : String} : decryptVault W vault' password' = ok key ↔
    openSealed W vault' password' = ok key ∧ isValidPrivateKey W key = true ∧
      ∃ publicKey address, Derives W key publicKey address ∧ vault'.address = some address := by
  simp only [decryptVault, Outcome.bind_eq_ok, ensure_eq_ok, pure_eq, ok.injEq]
  constructor
  · rintro ⟨key', hopen, _, hvalid, publicKey, hp, address, ha, _, hsame, rfl⟩
    exact ⟨hopen, hvalid, publicKey, address, ⟨hp, ha⟩, hsame.symm⟩
  · rintro ⟨hopen, hvalid, publicKey, address, hd, hsame⟩
    exact ⟨key, hopen, (), hvalid, publicKey, hd.publicKey_eq, address, hd.address_eq, (),
      hsame.symm, rfl⟩

/-- Opening as a single key. -/
theorem decryptKeyring_single (hversion : vault'.version ≠ 2) :
    decryptKeyring W (some vault') password' = ok keys' ↔
      ∃ key, keys' = [key] ∧ openSealed W vault' password' = ok key ∧
        isValidPrivateKey W key = true ∧
        List.Forall₂ (Addressed W) [key] (vaultAccounts (some vault')) := by
  simp only [decryptKeyring, okOr_some, ok_bind, if_pos hversion, Outcome.bind_eq_ok,
    decryptVault_eq_ok, pure_eq, ok.injEq, vaultAccounts, if_neg hversion, List.forall₂_cons,
    List.forall₂_nil_left_iff, and_true]
  constructor
  · rintro ⟨key, ⟨hopen, hvalid, haddress⟩, rfl⟩
    exact ⟨key, rfl, hopen, hvalid, haddress⟩
  · rintro ⟨key, rfl, hopen, hvalid, haddress⟩
    exact ⟨key, ⟨hopen, hvalid, haddress⟩, rfl⟩

/-- Opening as a list of keys. -/
theorem decryptKeyring_list (hversion : vault'.version = 2) :
    decryptKeyring W (some vault') password' = ok keys' ↔
      ∃ text list, openSealed W vault' password' = ok text ∧
        (Json.ofText text).bind (Json.asList Json.asText) = some list ∧ list ≠ [] ∧
        (∀ key ∈ list, isValidPrivateKey W key = true) ∧
        List.Forall₂ (Addressed W) list (vaultAccounts (some vault')) ∧
        keys' = list.map normalizeHex := by
  simp only [decryptKeyring, okOr_some, ok_bind, hversion, ne_eq, not_true, if_false,
    Outcome.bind_eq_ok, okOr_eq_ok, ensure_eq_ok, pure_eq, ok.injEq, vaultAccounts, if_true]
  constructor
  · rintro ⟨text, hopen, list, hlist, _, hsome, _, hvalid, _, hlen, _, hcheck, rfl⟩
    exact ⟨text, list, hopen, hlist, fun hnil => hsome (by rw [hnil]; rfl), hvalid,
      (checkAddresses_eq_ok hlen).mp hcheck, rfl⟩
  · rintro ⟨text, list, hopen, hlist, hsome, hvalid, haddress, rfl⟩
    have hlen := haddress.length_eq.symm
    exact ⟨text, hopen, list, hlist, (), fun hnil => hsome (List.length_eq_zero_iff.mp hnil), (),
      hvalid, (), hlen, (), (checkAddresses_eq_ok hlen).mpr haddress, rfl⟩

/-- The sealed list of keys is read back. -/
theorem read_keys (keys : List String) :
    (Json.ofText (Json.arr (keys.map .str)).text).bind (Json.asList Json.asText) = some keys := by
  rw [Json.ofText_text, Option.bind_some]
  exact Json.asList_arr fun key _ => rfl

/-- What a stored vault opens to, whatever has been changed beside the ciphertext. -/
theorem Holds.decrypt_eq_ok (hW : W.Ideal) (h : Holds W password keys vault text)
    (hsame : vault'.ciphertext = vault.ciphertext) :
    decryptKeyring W (some vault') password' = ok keys' ↔
      Opens W password keys vault vault' password' ∧ keys' = keys := by
  have hopen := fun t => @openSealed_eq_ok _ _ W password password' keys vault vault' text t hW h hsame
  rcases h.form with ⟨hform, hkeys⟩ | ⟨hform, hsome, htext⟩
  · by_cases hversion : vault'.version = 2
    · -- a single key is no list
      refine iff_of_false ?_ fun ho => ?_
      · rw [decryptKeyring_list hversion]
        rintro ⟨t, list, ht, hlist, -⟩
        obtain ⟨-, rfl⟩ := (hopen t).mp ht
        obtain ⟨j, hj, hasList⟩ := Option.bind_eq_some_iff.mp hlist
        have hvalid := h.valid t (by rw [hkeys]; exact List.mem_cons_self)
        cases j with
        | arr items =>
          obtain ⟨bytes, hbytes, -⟩ := isValidPrivateKey_iff.mp hvalid
          rw [hexDecode_bracket (Json.head_of_ofText_arr hj)] at hbytes
          cases hbytes
        | _ => cases hasList
      · have htwo := ho.1.version.mp hversion
        rw [hform] at htwo
        cases htwo
    · rw [decryptKeyring_single hversion]
      constructor
      · rintro ⟨key, rfl, ht, -, haddress⟩
        obtain ⟨hunlocks, rfl⟩ := (hopen key).mp ht
        refine ⟨⟨hunlocks, iff_of_false hversion (by rw [hform]; decide), hkeys ▸ haddress⟩, hkeys.symm⟩
      · rintro ⟨ho, rfl⟩
        exact ⟨text, hkeys, (hopen text).mpr ⟨ho.unlocks, rfl⟩,
          h.valid text (by rw [hkeys]; exact List.mem_cons_self), hkeys ▸ ho.addressed⟩
  · by_cases hversion : vault'.version = 2
    · rw [decryptKeyring_list hversion]
      have hnormal : keys.map normalizeHex = keys :=
        (List.map_congr_left fun key hkey => h.normal key hkey).trans (List.map_id _)
      constructor
      · rintro ⟨t, list, ht, hlist, -, -, haddress, rfl⟩
        obtain ⟨hunlocks, rfl⟩ := (hopen t).mp ht
        rw [htext, read_keys, Option.some.injEq] at hlist
        subst hlist
        exact ⟨⟨hunlocks, iff_of_true hversion hform, haddress⟩, hnormal⟩
      · rintro ⟨ho, rfl⟩
        exact ⟨text, keys', (hopen text).mpr ⟨ho.unlocks, rfl⟩, htext ▸ read_keys keys', hsome,
          h.valid, ho.addressed, hnormal.symm⟩
    · -- a list is no single key
      refine iff_of_false ?_ fun ho => hversion (ho.1.version.mpr hform)
      rw [decryptKeyring_single hversion]
      rintro ⟨key, rfl, ht, hvalid, -⟩
      obtain ⟨-, rfl⟩ := (hopen key).mp ht
      obtain ⟨bytes, hbytes, -⟩ := isValidPrivateKey_iff.mp hvalid
      have hbracket : key.toList.head? = some '[' := by
        rw [htext]
        exact Json.head_of_ofText_arr (Json.ofText_text _)
      rw [hexDecode_bracket hbracket] at hbytes
      cases hbytes

/-! ## The two halves together -/

theorem checkAddresses_ne_panicked : ∀ (keys : List String) (accounts : List AccountMetadata),
    checkAddresses W keys accounts ≠ panicked
  | [], _ => nofun
  | _ :: _, [] => nofun
  | key :: keys, account :: accounts => by
    have ih := checkAddresses_ne_panicked keys accounts
    simp only [checkAddresses, derivePublicKey, deriveAddress, hexToBytes, ne_eq,
      Outcome.bind_eq_panicked, okOr_ne_panicked, ensure_ne_panicked, pure_eq, reduceCtorEq,
      and_false, exists_false, or_self, ih, not_false_eq_true]

theorem decryptKeyring_ne_panicked (vault : Option (Vault Ciphertext)) (password : List UInt16) :
    decryptKeyring W vault password ≠ panicked := by
  intro h
  simp only [decryptKeyring, Outcome.bind_eq_panicked, okOr_ne_panicked, false_or] at h
  obtain ⟨vault, -, h⟩ := h
  split at h <;>
    simp only [decryptVault, openSealed, derivePublicKey, deriveAddress, hexToBytes,
      Outcome.bind_eq_panicked, okOr_ne_panicked, ensure_ne_panicked, checkAddresses_ne_panicked,
      pure_eq, reduceCtorEq, and_false, exists_false, or_self] at h

/-- A keyring is lossless and tamper evident at a modified vault and a password. -/
structure Secure (W : Primitives Key Ciphertext) (password : List UInt16) (keys : List String)
    (vault vault' : Vault Ciphertext) (password' : List UInt16) : Prop where
  lossless : decryptKeyring W (some vault) password = ok keys
  locked : password' ≠ password → ∃ e, decryptKeyring W (some vault) password' = err e
  evident : ∀ keys', decryptKeyring W (some vault') password' = ok keys' →
    List.Forall₂ (Shown W) keys' (vaultAccounts (some vault')) ∧
      ∀ account ∈ activeAccount (some vault'), ∃ key ∈ keys', Shown W key account

theorem Addressed.of_shown {key : String} {account : AccountMetadata} (h : Shown W key account) :
    Addressed W key account := by
  obtain ⟨publicKey, address, hd, ha, -⟩ := h
  exact ⟨publicKey, address, hd, ha⟩

theorem forall₂_shown {keys : List String} {accounts : List AccountMetadata}
    (haddress : List.Forall₂ (Addressed W) keys accounts)
    (hkey : List.Forall₂ (Keyed W) keys accounts) : List.Forall₂ (Shown W) keys accounts := by
  induction haddress with
  | nil => exact .nil
  | cons h _ ih =>
    obtain ⟨hk, hrest⟩ := List.forall₂_cons.mp hkey
    exact .cons ((shown_iff h).mpr hk) (ih hrest)

/-- The active account is one of the accounts. -/
theorem activeAccount_mem {vault : Option (Vault Ciphertext)} {account : AccountMetadata}
    (h : account ∈ activeAccount vault) : account ∈ vaultAccounts vault := by
  unfold activeAccount at h
  dsimp only at h
  split at h
  · cases h
  · rcases Option.or_eq_some_iff.mp h with h | ⟨-, h⟩
    · exact List.mem_of_getElem? h
    · exact List.mem_of_getElem? h

theorem shown_of_mem {keys : List String} {accounts : List AccountMetadata}
    (h : List.Forall₂ (Shown W) keys accounts) {account : AccountMetadata}
    (hmem : account ∈ accounts) : ∃ key ∈ keys, Shown W key account := by
  obtain ⟨n, hn, rfl⟩ := List.mem_iff_getElem.mp hmem
  have hkey : n < keys.length := h.length_eq ▸ hn
  exact ⟨keys[n], List.getElem_mem hkey, h.get hkey hn⟩

theorem Holds.opens (h : Holds W password keys vault text)
    (hbytes : Javascript.utf8ToBytes password' = Javascript.utf8ToBytes password) :
    Opens W password keys vault vault password' :=
  ⟨⟨hbytes, rfl, rfl, rfl⟩, Iff.rfl, h.shown.imp fun _ _ => .of_shown⟩

/-- Nothing but the addresses of the accounts is looked at. -/
theorem Holds.decrypt_accounts (hW : W.Ideal) (h : Holds W password keys vault text)
    (hversion : vault.version = 2) {accounts : List AccountMetadata}
    (haddress : List.Forall₂ (Addressed W) keys accounts) :
    decryptKeyring W (some { vault with accounts := some accounts }) password = ok keys := by
  have hopen := @Holds.decrypt_eq_ok _ _ W password password keys keys vault
    { vault with accounts := some accounts } text hW h rfl
  refine hopen.mpr ⟨⟨⟨rfl, rfl, rfl, rfl⟩, Iff.rfl, ?_⟩, rfl⟩
  rwa [vaultAccounts, if_pos hversion]

/-- Valid distinct keys are sealed.  A stored vault opens to its keys, with no other password than
one that encodes to the same bytes, and whatever is changed beside the ciphertext is noticed exactly
when no public key is changed in a vault that still opens. -/
theorem keyring_secure_iff (hW : W.Ideal) (password : List UInt16) :
    (∀ (keys : List String) (labels : List (List UInt16)) (activeIndex : Option ℤ)
      (salt iv : List UInt8), (∀ key ∈ keys, isValidPrivateKey W key = true) →
      (keys.map normalizeHex).Nodup → keys ≠ [] → keys.length ≤ maxAccounts → 8 ≤ password.length →
      ∃ vault, encryptKeyring W keys password labels activeIndex salt iv = ok vault) ∧
    ∀ (keys : List String) (vault vault' : Vault Ciphertext) (password' : List UInt16),
      Stored W password keys vault → vault'.ciphertext = vault.ciphertext →
      (Secure W password keys vault vault' password' ↔
        (password' ≠ password →
          Javascript.utf8ToBytes password' ≠ Javascript.utf8ToBytes password) ∧
        (Opens W password keys vault vault' password' →
          List.Forall₂ (Keyed W) keys (vaultAccounts (some vault')))) := by
  refine ⟨fun keys labels activeIndex salt iv => encryptKeyring_returns, ?_⟩
  intro keys vault vault' password' hstored hsame
  obtain ⟨text, h⟩ := hstored.holds
  constructor
  · rintro ⟨-, hlocked, hevident⟩
    refine ⟨fun hne hbytes => ?_, fun hopens => ?_⟩
    · obtain ⟨e, he⟩ := hlocked hne
      rw [(h.decrypt_eq_ok hW rfl).mpr ⟨h.opens hbytes, rfl⟩] at he
      cases he
    · have hshown := (hevident keys ((h.decrypt_eq_ok hW hsame).mpr ⟨hopens, rfl⟩)).1
      exact hshown.imp fun _ _ hs => (shown_iff (.of_shown hs)).mp hs
  · rintro ⟨hbytes, hkeyed⟩
    refine ⟨(h.decrypt_eq_ok hW rfl).mpr ⟨h.opens rfl, rfl⟩, fun hne => ?_, fun keys' hopen => ?_⟩
    · rcases hdecrypt : decryptKeyring W (some vault) password' with keys' | e | _
      · exact absurd ((h.decrypt_eq_ok hW rfl).mp hdecrypt).1.unlocks.password (hbytes hne)
      · exact ⟨e, rfl⟩
      · exact absurd hdecrypt (decryptKeyring_ne_panicked _ _)
    · obtain ⟨hopens, rfl⟩ := (h.decrypt_eq_ok hW hsame).mp hopen
      have hshown := forall₂_shown hopens.addressed (hkeyed hopens)
      exact ⟨hshown, fun account haccount => shown_of_mem hshown (activeAccount_mem haccount)⟩

/-! ## A sample -/

/-- Primitives whose ciphertexts are what was sealed. -/
def transparent : Primitives (List UInt8 × List UInt8 × ℕ)
    ((List UInt8 × List UInt8 × ℕ) × List UInt8 × String) where
  pbkdf2 password salt rounds := (password, salt, rounds)
  encrypt key iv text := (key, iv, text)
  decrypt key iv sealed := if sealed.1 = key ∧ sealed.2.1 = iv then some sealed.2.2 else none
  isValidScalar bytes := bytes ≠ List.replicate 32 0
  getPublicKey bytes := 4 :: (bytes ++ bytes)
  sha256 bytes := bytes.take 32
  hexError := id

theorem transparent_ideal : transparent.Ideal where
  opens key iv text := if_pos ⟨rfl, rfl⟩
  authentic h := by
    simp only [transparent, Option.ite_none_right_eq_some] at h
    exact ⟨h.1.1.symm, h.1.2.symm⟩
  separates h := by
    simp only [transparent, Prod.mk.injEq] at h
    exact h

@[irreducible]
def sampleKey : String := String.ofList (List.replicate 64 '1')

theorem sampleKey_normal : [sampleKey].map normalizeHex = [sampleKey] := by decide +kernel

theorem sampleKey_valid : ∀ key ∈ [sampleKey], isValidPrivateKey transparent key = true := by
  intro key hkey
  rw [List.mem_singleton.mp hkey]
  decide +kernel

variable {pass : List UInt16} {sampleVault : Vault ((List UInt8 × List UInt8 × ℕ) × List UInt8 × String)}

theorem sample_sealed (h : 8 ≤ pass.length) : ∃ vault,
    encryptKeyring transparent [sampleKey] pass [] none [] [] = ok vault :=
  encryptKeyring_returns sampleKey_valid
    (by rw [sampleKey_normal]; exact List.nodup_singleton _) (List.cons_ne_nil _ _) (by decide) h

theorem sample_stored (h : encryptKeyring transparent [sampleKey] pass [] none [] [] = ok sampleVault) :
    Stored transparent pass [sampleKey] sampleVault := by
  have hstored := Stored.keyring sampleKey_valid h
  rwa [sampleKey_normal] at hstored

/-- A key that is stored and opened again. -/
theorem keyring_secure_sample : ∃ vault,
    encryptKeyring transparent [sampleKey] (List.replicate 8 112) [] none [] [] = ok vault ∧
      Secure transparent (List.replicate 8 112) [sampleKey] vault vault (List.replicate 8 112) := by
  obtain ⟨hseal, hopen⟩ := keyring_secure_iff transparent_ideal (List.replicate 8 112)
  obtain ⟨vault, h⟩ := hseal [sampleKey] [] none [] [] sampleKey_valid
    (by rw [sampleKey_normal]; exact List.nodup_singleton _) (List.cons_ne_nil _ _) (by decide)
    (by decide)
  have hstored := sample_stored h
  obtain ⟨text, hholds⟩ := hstored.holds
  refine ⟨vault, h, (hopen _ vault vault _ hstored rfl).mpr ⟨fun hne => absurd rfl hne, fun _ => ?_⟩⟩
  exact hholds.shown.imp fun _ _ hs => (shown_iff (.of_shown hs)).mp hs

theorem utf8ToBytes_lone : Javascript.utf8ToBytes (List.replicate 8 0xD801) =
    Javascript.utf8ToBytes (List.replicate 8 0xD800) := by
  have hscalars : Javascript.scalars (List.replicate 8 0xD801) =
      Javascript.scalars (List.replicate 8 0xD800) := by decide +kernel
  rw [Javascript.utf8ToBytes, hscalars, Javascript.utf8ToBytes]

/-- With the public key of the stored account replaced the vault opens and shows the forged key; and
a password of lone surrogates opens what another one sealed. -/
theorem keyring_forged :
    (∃ vault account publicKey,
      encryptKeyring transparent [sampleKey] (List.replicate 8 112) [] none [] [] = ok vault ∧
      decryptKeyring transparent (some { vault with accounts := some [account] })
        (List.replicate 8 112) = ok [sampleKey] ∧
      activeAccount (some { vault with accounts := some [account] }) = some account ∧
      account.publicKey = some (publicKey ++ "00") ∧
      derivePublicKey transparent sampleKey = ok publicKey) ∧
    ∃ vault,
      encryptKeyring transparent [sampleKey] (List.replicate 8 0xD800) [] none [] [] = ok vault ∧
      decryptKeyring transparent (some vault) (List.replicate 8 0xD801) = ok [sampleKey] := by
  constructor
  · obtain ⟨vault, h⟩ := sample_sealed (by decide : 8 ≤ (List.replicate 8 (112 : UInt16)).length)
    obtain ⟨text, hholds⟩ := (sample_stored h).holds
    obtain ⟨publicKey, address, hd⟩ := exists_derives (sampleKey_valid sampleKey List.mem_cons_self)
    have hversion : vault.version = 2 := encryptKeyring_version h
    refine ⟨vault, ⟨some address, some (publicKey ++ "00"), []⟩, publicKey, h, ?_, ?_, rfl,
      hd.publicKey_eq⟩
    · exact hholds.decrypt_accounts transparent_ideal hversion
        (.cons ⟨publicKey, address, hd, rfl⟩ .nil)
    · rw [activeAccount, vaultAccounts, if_pos hversion]
      simp only [Option.getD_some, List.length_singleton, one_ne_zero, if_false,
        List.getElem?_singleton, if_true]
      split <;> rfl
  · obtain ⟨vault, h⟩ := sample_sealed (by decide : 8 ≤ (List.replicate 8 (0xD800 : UInt16)).length)
    obtain ⟨text, hholds⟩ := (sample_stored h).holds
    exact ⟨vault, h, (hholds.decrypt_eq_ok transparent_ideal rfl).mpr
      ⟨hholds.opens utf8ToBytes_lone, rfl⟩⟩

end Wallet
