/-
# The vault of the wallet

`dashboard/src/lib/wallet.js`: private keys are sealed under a password, and the addresses and
public keys of the accounts are stored beside them in the open.  A vault of the first version holds
one key; a keyring, the second version, holds a list of them, and opening reads both.

What `wallet.js` takes from WebCrypto and from the curve library is collected in `Primitives`.
-/
import Mathlib.Tactic
import Hikmalayer.Foundations.Json
import Hikmalayer.Foundations.Outcome
import Hikmalayer.Model.Javascript

open Outcome

namespace Wallet

/-- The third-party functions of the wallet, over the keys and ciphertexts of WebCrypto. -/
structure Primitives (Key Ciphertext : Type) where
  /-- PBKDF2-SHA256: password, salt, iterations. -/
  pbkdf2 : List UInt8 → List UInt8 → ℕ → Key
  /-- AES-256-GCM: key, initialisation vector, the text whose bytes are sealed. -/
  encrypt : Key → List UInt8 → String → Ciphertext
  decrypt : Key → List UInt8 → Ciphertext → Option String
  /-- `secp256k1.utils.isValidPrivateKey` of 32 bytes. -/
  isValidScalar : List UInt8 → Bool
  /-- `secp256k1.getPublicKey`, uncompressed. -/
  getPublicKey : List UInt8 → List UInt8
  sha256 : List UInt8 → List UInt8
  /-- The error of `hexToBytes`. -/
  hexError : String → String

/-! ## Keys and addresses -/

/-- `replace(/^0x/i, "")`. -/
def stripHexPrefix : List Char → List Char
  | '0' :: x :: rest => if x = 'x' ∨ x = 'X' then rest else '0' :: x :: rest
  | l => l

/-- Letters other than the ASCII ones stay: their lower case is no hexadecimal digit either. -/
def normalizeHex (value : String) : String :=
  String.ofList ((stripHexPrefix (Text.trimBy Javascript.isSpace value.toList)).map Char.toLower)

def addressPrefix : String := "hkm"

/-- Public metadata of one account; a field that was taken out reads as `none`. -/
structure AccountMetadata where
  address : Option String
  publicKey : Option String
  label : List UInt16
  deriving DecidableEq, Repr

/-- What is stored: the parameters and the ciphertext of the sealed text, the address and public key
of a vault of the first version, and the accounts of a keyring. -/
structure Vault (Ciphertext : Type) where
  version : ℕ
  iterations : ℕ
  salt : List UInt8
  iv : List UInt8
  ciphertext : Ciphertext
  address : Option String
  publicKey : Option String
  accounts : Option (List AccountMetadata)
  activeIndex : Option ℤ

def pbkdf2Iterations : ℕ := 310000

def maxAccounts : ℕ := 20

/-- ``Account ${index + 1}``. -/
def defaultLabel (index : ℕ) : List UInt16 := Javascript.ofText ("Account " ++ toString (index + 1))

variable {Key Ciphertext : Type} (W : Primitives Key Ciphertext)

def hexToBytes (text : String) : Outcome String (List UInt8) :=
  okOr (hexDecode text) (W.hexError text)

def isValidPrivateKey (hex : String) : Bool :=
  match hexToBytes W (normalizeHex hex) with
  | ok bytes => bytes.length = 32 && W.isValidScalar bytes
  | _ => false

def derivePublicKey (privateKeyHex : String) : Outcome String String := do
  let bytes ← hexToBytes W (normalizeHex privateKeyHex)
  return hexEncode (W.getPublicKey bytes)

def deriveAddress (publicKeyHex : String) : Outcome String String := do
  let pub ← hexToBytes W (normalizeHex publicKeyHex)
  return addressPrefix ++ hexEncode ((W.sha256 pub).take 20)

/-! ## One key -/

def deriveVaultKey (password : List UInt16) (salt : List UInt8) (iterations : ℕ) : Key :=
  W.pbkdf2 (Javascript.utf8ToBytes password) salt iterations

/-- `vault.iterations || PBKDF2_ITERATIONS`. -/
def Vault.rounds (vault : Vault Ciphertext) : ℕ :=
  if vault.iterations = 0 then pbkdf2Iterations else vault.iterations

/-- The salt and the initialisation vector are drawn at random. -/
def encryptVault (privateKeyHex : String) (password : List UInt16) (salt iv : List UInt8) :
    Outcome String (Vault Ciphertext) := do
  ensure (isValidPrivateKey W privateKeyHex = true) "Invalid private key"
  ensure (8 ≤ password.length) "Password must be at least 8 characters"
  let ciphertext := W.encrypt (deriveVaultKey W password salt pbkdf2Iterations) iv
    (normalizeHex privateKeyHex)
  let publicKey ← derivePublicKey W privateKeyHex
  let address ← deriveAddress W publicKey
  return ⟨1, pbkdf2Iterations, salt, iv, ciphertext, some address, some publicKey, none, none⟩

/-- The sealed text, for the right password. -/
def openSealed (vault : Vault Ciphertext) (password : List UInt16) : Outcome String String :=
  okOr (W.decrypt (deriveVaultKey W password vault.salt vault.rounds) vault.iv vault.ciphertext)
    "Incorrect password"

def decryptVault (vault : Vault Ciphertext) (password : List UInt16) : Outcome String String := do
  let privateKeyHex ← openSealed W vault password
  ensure (isValidPrivateKey W privateKeyHex = true) "Vault is corrupt"
  let publicKey ← derivePublicKey W privateKeyHex
  let address ← deriveAddress W publicKey
  ensure (some address = vault.address) "Vault integrity check failed"
  return privateKeyHex

/-! ## Several keys -/

def accountMetadata (privateKeyHex : String) (label : Option (List UInt16)) (index : ℕ) :
    Outcome String AccountMetadata := do
  let publicKey ← derivePublicKey W privateKeyHex
  let address ← deriveAddress W publicKey
  -- an empty label is falsy
  let shown := if label.getD [] = [] then defaultLabel index else label.getD []
  return ⟨some address, some publicKey, shown.take 40⟩

/-- The metadata of the keys from a position on. -/
def accountsFrom (labels : List (List UInt16)) : ℕ → List String →
    Outcome String (List AccountMetadata)
  | _, [] => return []
  | index, key :: keys => do
    let account ← accountMetadata W key labels[index]? index
    let accounts ← accountsFrom labels (index + 1) keys
    return account :: accounts

def encryptKeyring (privateKeys : List String) (password : List UInt16)
    (labels : List (List UInt16)) (activeIndex : Option ℤ) (salt iv : List UInt8) :
    Outcome String (Vault Ciphertext) := do
  let keys := privateKeys.map normalizeHex
  ensure (keys.length ≠ 0) "A keyring needs at least one key"
  ensure (keys.length ≤ maxAccounts) s!"At most {maxAccounts} accounts per wallet"
  ensure (∀ key ∈ keys, isValidPrivateKey W key = true) "Invalid private key"
  ensure keys.Nodup "That key is already in this wallet"
  ensure (8 ≤ password.length) "Password must be at least 8 characters"
  let ciphertext := W.encrypt (deriveVaultKey W password salt pbkdf2Iterations) iv
    (Json.arr (keys.map .str)).text
  let accounts ← accountsFrom W labels 0 keys
  let active := min (max (activeIndex.getD 0) 0) (keys.length - 1)
  return ⟨2, pbkdf2Iterations, salt, iv, ciphertext, none, none, some accounts, some active⟩

/-- The check of the stored addresses, position by position. -/
def checkAddresses : List String → List AccountMetadata → Outcome String Unit
  | key :: keys, account :: accounts => do
    let publicKey ← derivePublicKey W key
    let address ← deriveAddress W publicKey
    ensure (some address = account.address) "Vault integrity check failed"
    checkAddresses keys accounts
  | _, _ => ok ()

/-- The keys in the order of the accounts.  Only a list of texts is ever sealed. -/
def decryptKeyring (vault : Option (Vault Ciphertext)) (password : List UInt16) :
    Outcome String (List String) := do
  let vault ← okOr vault "No wallet on this device"
  if vault.version ≠ 2 then
    let key ← decryptVault W vault password
    return [key]
  else
    let text ← openSealed W vault password
    let keys ← okOr ((Json.ofText text).bind (Json.asList Json.asText)) "Vault is corrupt"
    ensure (keys.length ≠ 0) "Vault is corrupt"
    ensure (∀ key ∈ keys, isValidPrivateKey W key = true) "Vault is corrupt"
    let accounts := vault.accounts.getD []
    ensure (accounts.length = keys.length) "Vault integrity check failed"
    checkAddresses W keys accounts
    return keys.map normalizeHex

/-! ## What is shown -/

/-- The stored index of the active account, clamped. -/
def activeAccountIndex (vault : Option (Vault Ciphertext)) : ℕ :=
  let count := ((vault.bind Vault.accounts).getD []).length
  if count = 0 then 0
  else (min (max ((vault.bind Vault.activeIndex).getD 0) 0) (count - 1)).toNat

/-- The accounts of a vault of either version. -/
def vaultAccounts : Option (Vault Ciphertext) → List AccountMetadata
  | none => []
  | some vault =>
    if vault.version = 2 then vault.accounts.getD []
    else [⟨vault.address, vault.publicKey, defaultLabel 0⟩]

/-- The account that a site sees, in `extension/src/background.js`. -/
def activeAccount (vault : Option (Vault Ciphertext)) : Option AccountMetadata :=
  let accounts := vaultAccounts vault
  if accounts.length = 0 then none
  else accounts[activeAccountIndex vault]?.or accounts[0]?

end Wallet
