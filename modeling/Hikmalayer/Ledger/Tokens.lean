/-
# The ledger of native tokens

What a transaction does to the registration of a token, which balances are stored, and that
every credit of a token balance has room.  The last is said with a second reading of the
branches, in which a credit without room aborts: it behaves as the first one.
-/
import Mathlib.Tactic
import Hikmalayer.Ledger.Liquidity

open Outcome Exec OrderedMap

namespace ChainState

variable {E : Node} {s s' : ChainState} {tx : Transaction} {height : UInt64} {u : Unit}

/-! ## Stored balances -/

/-- No stored amount is zero. -/
def NonZero (m : BTreeMap UInt64) : Prop := ∀ (a : String) (v : UInt64), m[a]? = some v → v ≠ 0

theorem NonZero.empty : NonZero ∅ := fun a v h => by simp at h

theorem NonZero.insert {m : BTreeMap UInt64} (h : NonZero m) {a : String} {v : UInt64}
    (hv : 0 < v.toNat) : NonZero (m.insert a v) := by
  intro b w hb
  rw [lookup_insert] at hb
  split at hb
  · rw [Option.some.injEq] at hb
    rintro rfl
    rw [hb] at hv
    exact absurd hv (by decide)
  · exact h b w hb

theorem NonZero.writeOrRemove {m : BTreeMap UInt64} (h : NonZero m) (a : String) (v : UInt64) :
    NonZero (writeOrRemove m a v) := by
  unfold ChainState.writeOrRemove
  by_cases hv : v = 0
  · rw [if_pos hv]
    intro b w hb
    rw [lookup_erase] at hb
    split at hb
    · cases hb
    · exact h b w hb
  · rw [if_neg hv]
    refine h.insert (Nat.pos_of_ne_zero fun h0 => hv ?_)
    exact UInt64.toNat_inj.mp h0

/-- Balances are stored for registered tokens only, and none is zero. -/
structure BalancesStored (tokenBalances : BTreeMap (BTreeMap UInt64))
    (tokens : BTreeMap TokenInfo) : Prop where
  registered : ∀ t, t ∈ tokenBalances → t ∈ tokens
  nonzero : ∀ t : String, NonZero (mapAt tokenBalances t)

theorem BalancesStored.setHolders {tokenBalances : BTreeMap (BTreeMap UInt64)}
    {tokens : BTreeMap TokenInfo} (h : BalancesStored tokenBalances tokens) {t : String}
    {m : BTreeMap UInt64} (ht : t ∈ tokens) (hm : NonZero m) :
    BalancesStored (tokenBalances.insert t m) tokens where
  registered := by
    intro t' ht'
    rw [Std.ExtTreeMap.mem_insert] at ht'
    rcases ht' with heq | hmem
    · rw [Std.LawfulEqCmp.compare_eq_iff_eq] at heq
      exact heq ▸ ht
    · exact h.registered t' hmem
  nonzero := by
    intro t'
    rw [mapAt_insert]
    split
    · exact hm
    · exact h.nonzero t'

theorem BalancesStored.setToken {tokenBalances : BTreeMap (BTreeMap UInt64)}
    {tokens : BTreeMap TokenInfo} (h : BalancesStored tokenBalances tokens) (t : String)
    (info : TokenInfo) : BalancesStored tokenBalances (tokens.insert t info) where
  registered t' ht' := Std.ExtTreeMap.mem_insert.mpr (Or.inr (h.registered t' ht'))
  nonzero := h.nonzero

/-- A token with a balance is registered. -/
theorem Sound.token_registered (hs : Sound s) {t a : String}
    (h : 0 < (valueAt (mapAt s.tokenBalances t) a).toNat) : t ∈ s.tokens := by
  have hle := valueAt_le_sumOf (mapAt s.tokenBalances t) a
  rw [hs.tokens t] at hle
  rw [Std.ExtTreeMap.mem_iff_isSome_getElem?]
  cases hi : s.tokens[t]? with
  | none =>
    rw [tokenSupplyAt, share_of_none hi] at hle
    omega
  | some info => rfl

/-! ## Steps of a registration -/

/-- The transaction burns units of the token. -/
def Burns (tx : Transaction) (t : String) : Prop :=
  tx.transactionType = .tokenBurn ∧ tx.token.map TokenAction.tokenId = some t

/-- The transaction creates the token. -/
def Creates (E : Env) (tx : Transaction) (t : String) : Prop :=
  tx.transactionType = .tokenCreate ∧ ∃ creator action, tx.sender = some creator ∧
    tx.token = some action ∧ deriveTokenId E creator action.symbol tx.nonce = t

/-- What a transaction does to the registration of a token: a creation registers a new one,
a burn lowers the supply by the burned amount, and everything else leaves it alone. -/
inductive TokenStep (E : Env) (tx : Transaction) (t : String) :
    Option TokenInfo → Option TokenInfo → Prop
  | same {info : Option TokenInfo} (hb : ¬ Burns tx t) (hc : ¬ Creates E tx t) :
      TokenStep E tx t info info
  | created {info : TokenInfo} (hc : Creates E tx t) (hs : info.totalSupply = tx.amount) :
      TokenStep E tx t none (some info)
  | burned {info : TokenInfo} {totalSupply : UInt64} (hb : Burns tx t)
      (hs : totalSupply.toNat + tx.amount.toNat = info.totalSupply.toNat) :
      TokenStep E tx t (some info) (some { info with totalSupply })

/-- Whether a transaction neither creates nor burns. -/
theorem tokenStep_same {t : String} {info : Option TokenInfo}
    (hb : tx.transactionType ≠ .tokenBurn) (hc : tx.transactionType ≠ .tokenCreate) :
    TokenStep E tx t info info :=
  .same (fun h => hb h.1) fun h => hc h.1

/-! ## The operations on tokens -/

/-- What a transaction does to the tokens of a state. -/
structure TokensStep (E : Env) (tx : Transaction) (s s' : ChainState) : Prop where
  step : ∀ t : String, TokenStep E tx t s.tokens[t]? s'.tokens[t]?
  stored : BalancesStored s.tokenBalances s.tokens → BalancesStored s'.tokenBalances s'.tokens

theorem applyTokenCreate_tokens (ht : tx.transactionType = .tokenCreate) (hpos : tx.amount ≠ 0)
    (h : applyTokenCreate E tx height s = ok (u, s')) : TokensStep E tx s s' := by
  obtain ⟨r, hc, -, he⟩ := guarded_eq_ok.mp h
  obtain ⟨hsender, haction, hnew⟩ := tokenCreateChecks_ok hc
  have hid : deriveTokenId E r.sender r.action.symbol tx.nonce = r.tokenId := by
    simp only [tokenCreateChecks, Outcome.bind_eq_ok, pure_eq, ok.injEq] at hc
    obtain ⟨_, -, _, -, _, -, rfl⟩ := hc
    rfl
  obtain ⟨rest, pot, balance, -, -, hb, rfl⟩ := tokenCreateEffects_ok he
  have hcreates : Creates E tx r.tokenId := ⟨ht, r.sender, r.action, hsender, haction, hid⟩
  have hamount : 0 < tx.amount.toNat :=
    Nat.pos_of_ne_zero fun h0 => hpos (UInt64.toNat_inj.mp h0)
  constructor
  case step =>
    intro t
    show TokenStep E tx t s.tokens[t]? (s.tokens.insert r.tokenId _)[t]?
    rw [lookup_insert]
    by_cases hr : r.tokenId = t
    · rw [if_pos hr, ← hr, hnew]
      exact .created hcreates rfl
    · rw [if_neg hr]
      refine .same (fun hburn => ?_) fun hother => hr ?_
      · rw [Burns, ht] at hburn
        cases hburn.1
      · obtain ⟨-, creator, action, hsender', haction', hid'⟩ := hother
        rw [hsender, Option.some.injEq] at hsender'
        rw [haction, Option.some.injEq] at haction'
        rw [← hid, hsender', haction', hid']
  case stored =>
    intro hstored
    refine (hstored.setToken r.tokenId _).setHolders ?_ ?_
    · exact Std.ExtTreeMap.mem_insert_self
    · exact (hstored.nonzero r.tokenId).insert (by omega)

theorem applyTokenTransfer_tokens (ht : tx.transactionType = .tokenTransfer)
    (hpos : tx.amount ≠ 0) (h : applyTokenTransfer E tx s = ok (u, s')) :
    TokensStep E tx s s' := by
  obtain ⟨r, hc, -, he⟩ := guarded_eq_ok.mp h
  obtain ⟨-, -, -, hmem, -⟩ := tokenTransferChecks_ok hc
  obtain ⟨rest, pot, left, balance, holders, -, -, hl, rfl, hb, rfl⟩ := tokenTransferEffects_ok he
  have hamount : 0 < tx.amount.toNat :=
    Nat.pos_of_ne_zero fun h0 => hpos (UInt64.toNat_inj.mp h0)
  constructor
  case step =>
    intro t
    exact tokenStep_same (by simp [ht]) (by simp [ht])
  case stored =>
    intro hstored
    exact hstored.setHolders hmem
      (((hstored.nonzero r.tokenId).writeOrRemove r.sender left).insert (by omega))

theorem applyTokenBurn_tokens (hs : Sound s) (ht : tx.transactionType = .tokenBurn)
    (h : applyTokenBurn E tx s = ok (u, s')) : TokensStep E tx s s' := by
  obtain ⟨r, hc, -, he⟩ := guarded_eq_ok.mp h
  obtain ⟨-, haction, hid, hmem⟩ := tokenBurnChecks_ok hc
  obtain ⟨rest, pot, left, totalSupply, info, -, -, hl, hi, hsup, rfl⟩ :=
    tokenBurnEffects_ok (show r.tokenId ∈ (s.setNonce r.sender tx.nonce).tokens from hmem) he
  rw [setNonce_tokens] at hi
  rw [setNonce_tokenBalances] at hl
  have hsum := hs.tokens r.tokenId
  rw [tokenSupplyAt_of_lookup hi] at hsum
  have hle := valueAt_le_sumOf (mapAt s.tokenBalances r.tokenId) r.sender
  have hexact := Word.Saturation.toNat_of_sub hsup (by omega)
  have hburns : Burns tx r.tokenId := ⟨ht, by rw [haction, hid, Option.map_some]⟩
  constructor
  case step =>
    intro t
    show TokenStep E tx t s.tokens[t]? (s.tokens.insert r.tokenId _)[t]?
    rw [lookup_insert]
    by_cases hr : r.tokenId = t
    · rw [if_pos hr, ← hr, hi]
      exact .burned hburns (by omega)
    · rw [if_neg hr]
      refine .same (fun hburn => hr ?_) fun hcreate => ?_
      · have h₁ := hburns.2
        rw [hburn.2, Option.some.injEq] at h₁
        exact h₁.symm
      · rw [Creates, ht] at hcreate
        cases hcreate.1
  case stored =>
    intro hstored
    exact (hstored.setHolders hmem
      ((hstored.nonzero r.tokenId).writeOrRemove r.sender left)).setToken r.tokenId _

theorem applyAddLiquidity_tokens (ht : tx.transactionType = .addLiquidity)
    (h : applyAddLiquidity E tx s = ok (u, s')) : TokensStep E tx s s' := by
  obtain ⟨r, hc, -, he⟩ := guarded_eq_ok.mp h
  obtain ⟨action, -, -, -, hmem, -, hq⟩ := addLiquidityChecks_ok hc
  obtain ⟨rest, pot, custody, left, inPool, reserveHkm, reserveToken, totalShares, holding, holders,
    -, -, -, hl, rfl, hin, -, -, -, -, rfl⟩ := addLiquidityEffects_ok he
  obtain ⟨-, huse, -⟩ := addQuote_ok hq
  constructor
  case step =>
    intro t
    exact tokenStep_same (by simp [ht]) (by simp [ht])
  case stored =>
    intro hstored
    exact hstored.setHolders hmem
      (((hstored.nonzero r.tokenId).writeOrRemove r.sender left).insert (by omega))

theorem applyRemoveLiquidity_tokens (hs : Sound s) (ht : tx.transactionType = .removeLiquidity)
    (h : applyRemoveLiquidity E tx s = ok (u, s')) : TokensStep E tx s s' := by
  obtain ⟨r, hc, -, he⟩ := guarded_eq_ok.mp h
  obtain ⟨action, pool, -, -, -, -, -, -, -, -, -, -, hpaid⟩ := removeLiquidityChecks_ok hc
  obtain ⟨rest, pot, left, custody, balance, inPool, held, reserveHkm, reserveToken, totalShares,
    holders, pool', -, -, -, -, -, hin, rfl, hheld, -, -, -, -, rfl⟩ :=
    removeLiquidityEffects_ok he
  have hgrow := Word.Saturation.le_add hheld
  have hmem : r.tokenId ∈ s.tokens := hs.token_registered (a := ammPoolAccount) (by
    change inPool.toNat + _ = (valueAt (mapAt s.tokenBalances r.tokenId) ammPoolAccount).toNat
      at hin
    omega)
  constructor
  case step =>
    intro t
    exact tokenStep_same (by simp [ht]) (by simp [ht])
  case stored =>
    intro hstored
    exact hstored.setHolders hmem
      (((hstored.nonzero r.tokenId).writeOrRemove ammPoolAccount inPool).insert (by omega))

theorem applySwap_tokens (hs : Sound s) (ht : tx.transactionType = .swap)
    (hpos : ∀ action, tx.amm = some action → action.amountIn ≠ 0)
    (h : applySwap E tx s = ok (u, s')) : TokensStep E tx s s' := by
  obtain ⟨r, hc, -, he⟩ := guarded_eq_ok.mp h
  obtain ⟨action, pool, -, hamm, -, hamount, -, hpaid, -⟩ := swapChecks_ok hc
  have hin : 0 < r.amountIn.toNat := by
    rw [hamount]
    exact Nat.pos_of_ne_zero fun h0 => hpos action hamm (UInt64.toNat_inj.mp h0)
  have hboth : s'.tokens = s.tokens ∧
      (BalancesStored s.tokenBalances s.tokens → BalancesStored s'.tokenBalances s.tokens) := by
    unfold swapEffects at he
    split at he
    · obtain ⟨rest, pot, custody, inPool, held, reserveHkm, reserveToken, holders, pool', -, -, -,
        hpool, rfl, hheld, -, -, -, rfl⟩ := swapHkmToToken_ok he
      have hgrow := Word.Saturation.le_add hheld
      have hmem : r.tokenId ∈ s.tokens := hs.token_registered (a := ammPoolAccount) (by
        change inPool.toNat + _ = (valueAt (mapAt s.tokenBalances r.tokenId) ammPoolAccount).toNat
          at hpool
        omega)
      exact ⟨rfl, fun hstored => hstored.setHolders hmem
        (((hstored.nonzero r.tokenId).writeOrRemove ammPoolAccount inPool).insert (by omega))⟩
    · obtain ⟨rest, pot, left, inPool, custody, balance, reserveHkm, reserveToken, holders, pool', -,
        -, hleft, rfl, hcredit, -, -, -, -, -, rfl⟩ := swapTokenToHkm_ok he
      have hmem : r.tokenId ∈ s.tokens := hs.token_registered (a := r.sender) (by
        change left.toNat + _ = (valueAt (mapAt s.tokenBalances r.tokenId) r.sender).toNat at hleft
        omega)
      exact ⟨rfl, fun hstored => hstored.setHolders hmem
        (((hstored.nonzero r.tokenId).writeOrRemove r.sender left).insert (by omega))⟩
  constructor
  case step =>
    intro t
    rw [hboth.1]
    exact tokenStep_same (by simp [ht]) (by simp [ht])
  case stored =>
    rw [hboth.1]
    exact hboth.2

/-- Verified token transfers and creations move a positive amount, swaps take one. -/
theorem verifyForBlock_positive {validator : String} (h : tx.verifyForBlock E validator = ok ()) :
    (tx.transactionType = .tokenCreate → tx.amount ≠ 0) ∧
      (tx.transactionType = .tokenTransfer → tx.amount ≠ 0) ∧
      (tx.transactionType = .swap → ∀ action, tx.amm = some action → action.amountIn ≠ 0) := by
  refine ⟨fun ht => ?_, fun ht => ?_, fun ht action hamm => ?_⟩ <;>
    simp only [Transaction.verifyForBlock, ht, Outcome.bind_eq_ok, okOr_eq_ok, ensure_eq_ok] at h
  · obtain ⟨_, -, _, -, _, -, _, -, _, -, _, hamount, -⟩ := h
    exact hamount
  · obtain ⟨_, -, _, -, _, -, _, -, _, hamount, -⟩ := h
    exact hamount
  · obtain ⟨_, -, _, hsome, _, -, _, hin, -⟩ := h
    rw [hamm, Option.some.injEq] at hsome
    rw [hsome]
    exact hin

/-- A verified transaction moves each registration by one step, and stores what it may. -/
theorem applyVerified_tokens (hs : Sound s) {validator : String}
    (hver : tx.verifyForBlock E validator = ok ())
    (h : applyVerified E tx height s = ok (u, s')) : TokensStep E tx s s' := by
  obtain ⟨hcreate, htransfer, hswap⟩ := verifyForBlock_positive hver
  simp only [applyVerified, Exec.bind_eq_ok, read_eq_ok] at h
  obtain ⟨_, _, ⟨-, rfl⟩, _, _, ⟨-, rfl⟩, h⟩ := h
  by_cases hplain : isPlain tx.transactionType = true
  · have hsame := (applyBranch_assets hplain s).1 u s' h
    have htokens : s'.tokens = s.tokens := congrArg Assets.tokens hsame
    have hbalances : s'.tokenBalances = s.tokenBalances := congrArg Assets.tokenBalances hsame
    constructor
    case step =>
      intro t
      rw [htokens]
      refine tokenStep_same ?_ ?_ <;> (intro ht; rw [ht] at hplain; cases hplain)
    case stored =>
      rw [htokens, hbalances]
      exact id
  · unfold applyBranch at h
    cases ht : tx.transactionType <;> rw [ht] at hplain <;> simp only [ht] at h
    case tokenCreate => exact applyTokenCreate_tokens ht (hcreate ht) h
    case tokenTransfer => exact applyTokenTransfer_tokens ht (htransfer ht) h
    case tokenBurn => exact applyTokenBurn_tokens hs ht h
    case addLiquidity => exact applyAddLiquidity_tokens ht h
    case removeLiquidity => exact applyRemoveLiquidity_tokens hs ht h
    case swap => exact applySwap_tokens hs ht (hswap ht) h
    all_goals exact absurd rfl hplain

/-! ## Registrations over runs -/

/-- The registration `new` is `old` with some of its supply burned. -/
structure BurnedDown (old new : TokenInfo) : Prop where
  same : new = { old with totalSupply := new.totalSupply }
  supply : new.totalSupply.toNat ≤ old.totalSupply.toNat

theorem BurnedDown.refl (info : TokenInfo) : BurnedDown info info := ⟨rfl, le_rfl⟩

theorem BurnedDown.trans {a b c : TokenInfo} (h₁ : BurnedDown a b) (h₂ : BurnedDown b c) :
    BurnedDown a c := by
  refine ⟨?_, h₂.supply.trans h₁.supply⟩
  rw [h₂.same, h₁.same]

theorem TokenStep.burnedDown {t : String} {old : TokenInfo} {after : Option TokenInfo}
    (h : TokenStep E tx t (some old) after) : ∃ new, after = some new ∧ BurnedDown old new := by
  cases h with
  | same hb hc => exact ⟨old, rfl, .refl old⟩
  | burned hb hs => exact ⟨_, rfl, rfl, Nat.le.intro hs⟩

/-- A step keeps every registration, up to burning. -/
theorem Step.tokens (hs : Sound s) (h : Step E s s') {t : String} {old : TokenInfo}
    (ht : s.tokens[t]? = some old) : ∃ new, s'.tokens[t]? = some new ∧ BurnedDown old new := by
  cases h with
  | apply hv hver h =>
    have hstep := (applyVerified_tokens hs hver h).step t
    rw [ht] at hstep
    exact hstep.burnedDown
  | close hv h =>
    have hsame : s'.tokens = s.tokens := congrArg Assets.tokens ((endBlock_assets s).1 _ _ h)
    exact ⟨old, by rw [hsame, ht], .refl old⟩

theorem Reachable.tokensKept (hE : E.saturation = .clamp) (h : Reachable E s)
    (hrun : Relation.ReflTransGen (Step E) s s') {t : String} {old : TokenInfo}
    (ht : s.tokens[t]? = some old) : ∃ new, s'.tokens[t]? = some new ∧ BurnedDown old new := by
  induction hrun with
  | refl => exact ⟨old, ht, .refl old⟩
  | tail hprefix hstep ih =>
    obtain ⟨mid, hmid, hkept⟩ := ih
    obtain ⟨new, hnew, hkept'⟩ := hstep.tokens ((h.run hprefix).sound hE) hmid
    exact ⟨new, hnew, hkept.trans hkept'⟩

/-- In every reachable state balances are stored for registered tokens, and none is zero. -/
theorem Reachable.balancesStored (hE : E.saturation = .clamp) (h : Reachable E s) :
    BalancesStored s.tokenBalances s.tokens := by
  induction h with
  | genesis h =>
    obtain ⟨htokens, hbalances, -, -⟩ := h.assets_empty
    rw [htokens, hbalances]
    refine ⟨fun t ht => ?_, fun t => ?_⟩
    · exact absurd ht Std.ExtTreeMap.not_mem_empty
    · simpa [mapAt] using NonZero.empty
  | step hr hstep ih =>
    cases hstep with
    | apply hv hver h => exact (applyVerified_tokens (hr.sound hE) hver h).stored ih
    | close hv h =>
      have hsame := (endBlock_assets _).1 _ _ h
      have htokens := congrArg Assets.tokens hsame
      have hbalances := congrArg Assets.tokenBalances hsame
      change _ = _ at htokens hbalances
      simp only [assets] at htokens hbalances
      rw [htokens, hbalances]
      exact ih

/-! ## The two readings of a token credit -/

/-- The credits of token balances that the branches make. -/
structure TokenCredits where
  checked : String → String → UInt64 → StateAction
  saturating : String → String → UInt64 → StateAction

/-- The source's credits: one refuses to overflow, the other clamps. -/
def TokenCredits.source (E : Node) : TokenCredits := ⟨tryCreditToken, creditToken E⟩

/-- A credit that aborts when the balance has no room. -/
def creditTokenStrict (tokenId account : String) (amount : UInt64) : StateAction :=
  update fun s => do
    let balance ← plain (Word.checkedAdd (s.tokenBalanceOf tokenId account) amount)
    return s.setHolders tokenId ((mapAt s.tokenBalances tokenId).insert account balance)

/-- Every credit aborts when the balance has no room. -/
def TokenCredits.strict : TokenCredits := ⟨creditTokenStrict, creditTokenStrict⟩

namespace TokenCredits

variable (c : TokenCredits)

/-- `tokenCreateEffects` with its credit replaced. -/
def tokenCreateEffects (E : Node) (tx : Transaction) (height : UInt64) (r : TokenRequest) :
    StateAction := do
  let fee ← Exec.read fun s => ok s.baseFee
  debit r.sender fee
  collectFee E fee
  modify fun s => s.setToken r.tokenId
    ⟨r.tokenId, r.action.symbol, r.action.name, r.action.decimals, tx.amount, r.sender, height⟩
  c.checked r.tokenId r.sender tx.amount

/-- `tokenTransferEffects` with its credit replaced. -/
def tokenTransferEffects (E : Node) (tx : Transaction) (r : TokenRequest) : StateAction := do
  let fee ← Exec.read fun s => ok s.baseFee
  debit r.sender fee
  collectFee E fee
  debitToken r.tokenId r.sender tx.amount
  c.checked r.tokenId tx.recipient tx.amount

/-- `addLiquidityEffects` with its token credit replaced. -/
def addLiquidityEffects (E : Node) (r : AddRequest) : StateAction := do
  let fee ← Exec.read fun s => ok s.baseFee
  let total ← Exec.read fun _ => totalDebit r.quote.useHkm fee
  debit r.sender total
  collectFee E fee
  tryCredit ammPoolAccount r.quote.useHkm
  debitToken r.tokenId r.sender r.quote.useToken
  c.checked r.tokenId ammPoolAccount r.quote.useToken
  modify fun s => s.setPool r.tokenId (s.poolOrNew r.tokenId)
  update fun s => do
    let pool := s.poolOrNew r.tokenId
    let mintedTotal ← mintedTotal r.quote
    let reserveHkm ← okOr (Word.checkedAdd pool.reserveHkm r.quote.useHkm)
      "Pool HKM reserve would overflow"
    let reserveToken ← okOr (Word.checkedAdd pool.reserveToken r.quote.useToken)
      "Pool token reserve would overflow"
    let totalShares ← okOr (Word.checkedAdd pool.totalShares mintedTotal)
      "Pool LP shares would overflow"
    return s.setPool r.tokenId { pool with reserveHkm, reserveToken, totalShares }
  update fun s => do
    let holding ← okOr (Word.checkedAdd (s.lpSharesOf r.tokenId r.sender) r.quote.minted)
      "LP position would overflow"
    return s.setProviders r.tokenId ((mapAt s.lpShares r.tokenId).insert r.sender holding)

/-- `removeLiquidityEffects` with its token credit replaced. -/
def removeLiquidityEffects (E : Node) (r : RemoveRequest) : StateAction := do
  let fee ← Exec.read fun s => ok s.baseFee
  debit r.sender fee
  collectFee E fee
  burnShares r.tokenId r.sender r.shares
  debit ammPoolAccount r.amountHkm
  credit E r.sender r.amountHkm
  debitToken r.tokenId ammPoolAccount r.amountToken
  c.saturating r.tokenId r.sender r.amountToken
  update fun s => do
    let pool ← plain s.pools[r.tokenId]?
    let reserveHkm ← plain (Word.checkedSub pool.reserveHkm r.amountHkm)
    let reserveToken ← plain (Word.checkedSub pool.reserveToken r.amountToken)
    let totalShares ← plain (Word.checkedSub pool.totalShares r.shares)
    return s.setPool r.tokenId { pool with reserveHkm, reserveToken, totalShares }

/-- `swapHkmToToken` with its token credit replaced. -/
def swapHkmToToken (E : Node) (r : SwapRequest) : StateAction := do
  let fee ← Exec.read fun s => ok s.baseFee
  let total ← Exec.read fun _ => totalDebit r.amountIn fee
  debit r.sender total
  collectFee E fee
  tryCredit ammPoolAccount r.amountIn
  debitToken r.tokenId ammPoolAccount r.amountOut
  c.saturating r.tokenId r.sender r.amountOut
  update fun s => do
    let pool ← plain s.pools[r.tokenId]?
    let reserveHkm ← okOr (Word.checkedAdd pool.reserveHkm r.amountIn)
      "Pool HKM reserve would overflow"
    let reserveToken ← plain (Word.checkedSub pool.reserveToken r.amountOut)
    return s.setPool r.tokenId { pool with reserveHkm, reserveToken }

/-- `swapTokenToHkm` with its token credit replaced. -/
def swapTokenToHkm (E : Node) (r : SwapRequest) : StateAction := do
  let fee ← Exec.read fun s => ok s.baseFee
  debit r.sender fee
  collectFee E fee
  debitToken r.tokenId r.sender r.amountIn
  c.checked r.tokenId ammPoolAccount r.amountIn
  debit ammPoolAccount r.amountOut
  credit E r.sender r.amountOut
  update fun s => do
    let pool ← plain s.pools[r.tokenId]?
    let reserveToken ← okOr (Word.checkedAdd pool.reserveToken r.amountIn)
      "Pool token reserve would overflow"
    let reserveHkm ← plain (Word.checkedSub pool.reserveHkm r.amountOut)
    return s.setPool r.tokenId { pool with reserveHkm, reserveToken }

def swapEffects (E : Node) (r : SwapRequest) : StateAction :=
  if r.hkmToToken then c.swapHkmToToken E r else c.swapTokenToHkm E r

/-- `applyBranch` with its token credits replaced. -/
def applyBranch (E : Node) (tx : Transaction) (height : UInt64) : StateAction :=
  match tx.transactionType with
  | .tokenCreate =>
    guarded (tokenCreateChecks E tx) TokenRequest.sender tx.nonce
      (c.tokenCreateEffects E tx height)
  | .tokenTransfer =>
    guarded (tokenTransferChecks tx) TokenRequest.sender tx.nonce (c.tokenTransferEffects E tx)
  | .addLiquidity =>
    guarded (addLiquidityChecks tx) AddRequest.sender tx.nonce (c.addLiquidityEffects E)
  | .removeLiquidity =>
    guarded (removeLiquidityChecks tx) RemoveRequest.sender tx.nonce (c.removeLiquidityEffects E)
  | .swap => guarded (swapChecks tx) SwapRequest.sender tx.nonce (c.swapEffects E)
  | _ => ChainState.applyBranch E tx height

/-- `applyVerified` with its token credits replaced. -/
def applyVerified (E : Node) (tx : Transaction) (height : UInt64) : StateAction := do
  Exec.read fun s => s.verifyChainScope tx
  Exec.read fun s => s.verifySignaturePolicy tx
  c.applyBranch E tx height

end TokenCredits

/-- With the source's credits the branches are the source's. -/
theorem applyBranch_source (E : Node) (tx : Transaction) (height : UInt64) :
    (TokenCredits.source E).applyBranch E tx height = applyBranch E tx height := by
  unfold TokenCredits.applyBranch applyBranch
  cases tx.transactionType <;> rfl

/-! ## Every token credit has room -/

/-- The balances of each token add up to less than a word. -/
def TokensFit (s : ChainState) : Prop := ∀ t, sumOf (mapAt s.tokenBalances t) < 2 ^ 64

theorem Sound.tokensFit (hs : Sound s) : TokensFit s := fun t => by
  rw [hs.tokens t]
  exact tokenSupplyAt_lt _ t

theorem TokensFit.of_eq (hs : TokensFit s) (h : s'.tokenBalances = s.tokenBalances) :
    TokensFit s' := by
  unfold TokensFit
  rw [h]
  exact hs

/-- A credit with room is the same in both readings. -/
theorem tryCreditToken_eq_strict {t a : String} {amount : UInt64}
    (h : (valueAt (mapAt s.tokenBalances t) a).toNat + amount.toNat < 2 ^ 64) :
    creditTokenStrict t a amount s = tryCreditToken t a amount s := by
  unfold creditTokenStrict tryCreditToken update tokenBalanceOf
  beta_reduce
  rw [Word.checkedAdd_of_lt h, plain_some, okOr_some]

theorem creditToken_eq_strict {t a : String} {amount : UInt64}
    (h : (valueAt (mapAt s.tokenBalances t) a).toNat + amount.toNat < 2 ^ 64) :
    creditTokenStrict t a amount s = creditToken E t a amount s := by
  unfold creditTokenStrict creditToken update tokenBalanceOf
  beta_reduce
  rw [Word.checkedAdd_of_lt h, Word.Saturation.add_of_lt _ h]

/-- What was just debited can be credited to any account. -/
theorem debitToken_room (hs : TokensFit s) {t a b : String} {amount : UInt64}
    (h : debitToken t a amount s = ok (u, s')) :
    (valueAt (mapAt s'.tokenBalances t) b).toNat + amount.toNat < 2 ^ 64 := by
  obtain ⟨-, -, rest, hrest, rfl⟩ := debitToken_eq_ok.mp h
  have hsum := sumOf_writeOrRemove (mapAt s.tokenBalances t) a rest
  have hle := valueAt_le_sumOf (writeOrRemove (mapAt s.tokenBalances t) a rest) b
  have hfit := hs t
  rw [setHolders_tokenBalances, mapAt_insert, if_pos rfl]
  omega

section

variable (hs : TokensFit s)

include hs

theorem tokenTransferEffects_eq_strict (r : TokenRequest) :
    TokenCredits.strict.tokenTransferEffects E tx r s = tokenTransferEffects E tx r s := by
  unfold TokenCredits.tokenTransferEffects tokenTransferEffects
  refine (Leaves.read tokenBalances _).bind_congr fun _ s₁ h₁ => ?_
  refine (debit_leaves fun _ _ _ => rfl).bind_congr (g := tokenBalances) fun _ s₂ h₂ => ?_
  refine (collectFee_leaves fun _ _ => rfl).bind_congr (g := tokenBalances) fun _ s₃ h₃ => ?_
  have hfit := hs.of_eq (h₃.trans (h₂.trans h₁))
  refine Exec.bind_congr fun _ s₄ hdebit => ?_
  exact tryCreditToken_eq_strict (debitToken_room hfit hdebit)

theorem addLiquidityEffects_eq_strict (r : AddRequest) :
    TokenCredits.strict.addLiquidityEffects E r s = addLiquidityEffects E r s := by
  unfold TokenCredits.addLiquidityEffects addLiquidityEffects
  refine (Leaves.read tokenBalances _).bind_congr fun _ s₁ h₁ => ?_
  refine (Leaves.read tokenBalances _).bind_congr fun _ s₂ h₂ => ?_
  refine (debit_leaves fun _ _ _ => rfl).bind_congr (g := tokenBalances) fun _ s₃ h₃ => ?_
  refine (collectFee_leaves fun _ _ => rfl).bind_congr (g := tokenBalances) fun _ s₄ h₄ => ?_
  refine (tryCredit_leaves fun _ _ _ => rfl).bind_congr (g := tokenBalances) fun _ s₅ h₅ => ?_
  have hfit := hs.of_eq (h₅.trans (h₄.trans (h₃.trans (h₂.trans h₁))))
  refine Exec.bind_congr fun _ s₆ hdebit => ?_
  exact Exec.bind_congr_left (tryCreditToken_eq_strict (debitToken_room hfit hdebit)) _

theorem removeLiquidityEffects_eq_strict (r : RemoveRequest) :
    TokenCredits.strict.removeLiquidityEffects E r s = removeLiquidityEffects E r s := by
  unfold TokenCredits.removeLiquidityEffects removeLiquidityEffects
  refine (Leaves.read tokenBalances _).bind_congr fun _ s₁ h₁ => ?_
  refine (debit_leaves fun _ _ _ => rfl).bind_congr (g := tokenBalances) fun _ s₂ h₂ => ?_
  refine (collectFee_leaves fun _ _ => rfl).bind_congr (g := tokenBalances) fun _ s₃ h₃ => ?_
  refine (burnShares_leaves (fun _ _ _ => rfl) _).bind_congr (g := tokenBalances)
    fun _ s₄ h₄ => ?_
  refine (debit_leaves fun _ _ _ => rfl).bind_congr (g := tokenBalances) fun _ s₅ h₅ => ?_
  refine (credit_leaves fun _ _ _ => rfl).bind_congr (g := tokenBalances) fun _ s₆ h₆ => ?_
  have hfit := hs.of_eq (h₆.trans (h₅.trans (h₄.trans (h₃.trans (h₂.trans h₁)))))
  refine Exec.bind_congr fun _ s₇ hdebit => ?_
  exact Exec.bind_congr_left (creditToken_eq_strict (debitToken_room hfit hdebit)) _

theorem swapEffects_eq_strict (r : SwapRequest) :
    TokenCredits.strict.swapEffects E r s = swapEffects E r s := by
  unfold TokenCredits.swapEffects swapEffects
  split
  · unfold TokenCredits.swapHkmToToken swapHkmToToken
    refine (Leaves.read tokenBalances _).bind_congr fun _ s₁ h₁ => ?_
    refine (Leaves.read tokenBalances _).bind_congr fun _ s₂ h₂ => ?_
    refine (debit_leaves fun _ _ _ => rfl).bind_congr (g := tokenBalances) fun _ s₃ h₃ => ?_
    refine (collectFee_leaves fun _ _ => rfl).bind_congr (g := tokenBalances) fun _ s₄ h₄ => ?_
    refine (tryCredit_leaves fun _ _ _ => rfl).bind_congr (g := tokenBalances) fun _ s₅ h₅ => ?_
    have hfit := hs.of_eq (h₅.trans (h₄.trans (h₃.trans (h₂.trans h₁))))
    refine Exec.bind_congr fun _ s₆ hdebit => ?_
    exact Exec.bind_congr_left (creditToken_eq_strict (debitToken_room hfit hdebit)) _
  · unfold TokenCredits.swapTokenToHkm swapTokenToHkm
    refine (Leaves.read tokenBalances _).bind_congr fun _ s₁ h₁ => ?_
    refine (debit_leaves fun _ _ _ => rfl).bind_congr (g := tokenBalances) fun _ s₂ h₂ => ?_
    refine (collectFee_leaves fun _ _ => rfl).bind_congr (g := tokenBalances) fun _ s₃ h₃ => ?_
    have hfit := hs.of_eq (h₃.trans (h₂.trans h₁))
    refine Exec.bind_congr fun _ s₄ hdebit => ?_
    exact Exec.bind_congr_left (tryCreditToken_eq_strict (debitToken_room hfit hdebit)) _

end

/-- The holder of a new token starts from nothing. -/
theorem tokenCreateEffects_eq_strict {r : TokenRequest}
    (hnew : sumOf (mapAt s.tokenBalances r.tokenId) = 0) :
    TokenCredits.strict.tokenCreateEffects E tx height r s =
      tokenCreateEffects E tx height r s := by
  unfold TokenCredits.tokenCreateEffects tokenCreateEffects
  refine (Leaves.read tokenBalances _).bind_congr fun _ s₁ h₁ => ?_
  refine (debit_leaves fun _ _ _ => rfl).bind_congr (g := tokenBalances) fun _ s₂ h₂ => ?_
  refine (collectFee_leaves fun _ _ => rfl).bind_congr (g := tokenBalances) fun _ s₃ h₃ => ?_
  refine Leaves.bind_congr (g := tokenBalances) (Leaves.modify fun _ => rfl) fun _ s₄ h₄ => ?_
  refine tryCreditToken_eq_strict ?_
  have hle := valueAt_le_sumOf (mapAt s.tokenBalances r.tokenId) r.sender
  have hamount := Word.toNat_lt tx.amount
  rw [h₄.trans (h₃.trans (h₂.trans h₁))]
  omega

/-- A guarded branch whose effects are the same in both readings is. -/
theorem guarded_congr {α : Type} {checks : ChainState → Outcome String α} {sender : α → String}
    {nonce : UInt64} {effects effects' : α → StateAction}
    (h : ∀ a, checks s = ok a →
      effects a (s.setNonce (sender a) nonce) = effects' a (s.setNonce (sender a) nonce)) :
    guarded checks sender nonce effects s = guarded checks sender nonce effects' s := by
  unfold guarded
  refine Exec.bind_congr fun a s₁ h₁ => ?_
  obtain ⟨hc, rfl⟩ := read_eq_ok.mp h₁
  refine Exec.bind_congr fun _ s₂ h₂ => ?_
  obtain ⟨-, rfl⟩ := consumeNonce_eq_ok.mp h₂
  exact h a hc

/-- On a sound ledger no credit of a token balance lacks room: applying a transaction with
credits that abort is applying it. -/
theorem applyVerified_eq_strict (hs : Sound s) :
    TokenCredits.strict.applyVerified E tx height s = applyVerified E tx height s := by
  unfold TokenCredits.applyVerified applyVerified
  refine Exec.bind_congr fun _ s₁ h₁ => ?_
  obtain ⟨-, rfl⟩ := read_eq_ok.mp h₁
  refine Exec.bind_congr fun _ s₂ h₂ => ?_
  obtain ⟨-, rfl⟩ := read_eq_ok.mp h₂
  unfold TokenCredits.applyBranch
  cases ht : tx.transactionType <;> simp only [applyBranch, ht]
  case tokenCreate =>
    refine guarded_congr fun r hc => tokenCreateEffects_eq_strict ?_
    rw [setNonce_tokenBalances, hs.tokens, tokenSupplyAt,
      share_of_none (tokenCreateChecks_ok hc).2.2]
  case tokenTransfer =>
    exact guarded_congr fun r _ => tokenTransferEffects_eq_strict (hs.setNonce _ _).tokensFit r
  case addLiquidity =>
    exact guarded_congr fun r _ => addLiquidityEffects_eq_strict (hs.setNonce _ _).tokensFit r
  case removeLiquidity =>
    exact guarded_congr fun r _ => removeLiquidityEffects_eq_strict (hs.setNonce _ _).tokensFit r
  case swap =>
    exact guarded_congr fun r _ => swapEffects_eq_strict (hs.setNonce _ _).tokensFit r

/-! ## The main result -/

/-- The ledger of native tokens.  The balances of a registered token add up to its supply;
balances are stored for registered tokens only and none is zero; over any run a registration
stays as it is up to burning; an applied transaction changes registrations only by creating a
new one or burning exactly its amount; and no credit of a token balance lacks room. -/
theorem token_ledger (hE : E.saturation = .clamp) (h : Reachable E s) :
    (∀ (t : String) (info : TokenInfo), s.tokens[t]? = some info →
      sumOf (mapAt s.tokenBalances t) = info.totalSupply.toNat) ∧
    BalancesStored s.tokenBalances s.tokens ∧
    (∀ s', Relation.ReflTransGen (Step E) s s' → ∀ (t : String) (old : TokenInfo),
      s.tokens[t]? = some old → ∃ new, s'.tokens[t]? = some new ∧ BurnedDown old new) ∧
    (∀ (tx : Transaction) (height : UInt64) (validator : String) (s' : ChainState),
      tx.verifyForBlock E validator = ok () → applyVerified E tx height s = ok ((), s') →
      ∀ t : String, TokenStep E tx t s.tokens[t]? s'.tokens[t]?) ∧
    (∀ (height : UInt64) (validator : String) (s' : ChainState),
      endBlock E height validator s = ok ((), s') → s'.tokens = s.tokens) ∧
    ∀ (tx : Transaction) (height : UInt64),
      TokenCredits.strict.applyVerified E tx height s = applyVerified E tx height s := by
  have hs := h.sound hE
  refine ⟨fun t info ht => ?_, h.balancesStored hE, fun s' hrun t old ht => ?_,
    fun tx height validator s' hver happ => (applyVerified_tokens hs hver happ).step,
    fun height validator s' hend => congrArg Assets.tokens ((endBlock_assets s).1 _ _ hend),
    fun tx height => applyVerified_eq_strict hs⟩
  · rw [hs.tokens t, tokenSupplyAt_of_lookup ht]
  · exact h.tokensKept hE hrun ht

/-- The token that the treasury of a genesis creates. -/
theorem token_ledger_sample :
    ∃ s info, Reachable (Sample.node []) s ∧ s.tokens[Sample.tokenId]? = some info ∧
      info.totalSupply = 1000000000 ∧
      sumOf (mapAt s.tokenBalances Sample.tokenId) = 1000000000 := by
  have hrun : (applyVerified (Sample.node []) Sample.tokenCreation 1
      (Sample.genesis 1000000000000000)).returns (fun r =>
        decide (r.2.tokens[Sample.tokenId]?.map TokenInfo.totalSupply = some 1000000000)) =
      true := by decide +kernel
  obtain ⟨⟨⟨⟩, s⟩, h₀, hinfo⟩ := exists_of_returns hrun
  rw [decide_eq_true_eq, Option.map_eq_some_iff] at hinfo
  obtain ⟨info, hinfo, hsupply⟩ := hinfo
  have hreach : Reachable (Sample.node []) s :=
    (Reachable.genesis (.built defaultChainId (Sample.address 7) _ _ [] Sample.address_valid)).step
      (.apply Sample.address_valid (by decide +kernel) h₀)
  refine ⟨s, info, hreach, hinfo, hsupply, ?_⟩
  rw [(token_ledger rfl hreach).1 Sample.tokenId info hinfo, hsupply]
  rfl

end ChainState
