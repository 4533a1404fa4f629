/-
# The fee market

Every fee-paying transaction of a block puts the same fee into the pot, so the pot divided by
the fee counts them, and the base fee moves by a step that grows with their distance from the
target.  Below the target the step is at most an eighth; above it nothing bounds the distance,
since a block may carry any number of transactions.
-/
import Mathlib.Tactic
import Hikmalayer.Consensus.Growth
import Hikmalayer.Ledger.Conservation
import Hikmalayer.Ledger.Nonces
import Hikmalayer.Ledger.SampleRun

open Outcome Exec OrderedMap

/-- The types whose branches collect the fee. -/
def TransactionType.paysFee : TransactionType → Bool
  | .reward | .certificate | .slash => false
  | _ => true

namespace ChainState

variable {E : Node} {s s' : ChainState} {tx : Transaction} {height fee fee' : UInt64}

/-! ## What a transaction pays -/

/-- The fee and the pot it goes to. -/
structure Market where
  baseFee : UInt64
  feePot : UInt64

def market (s : ChainState) : Market := ⟨s.baseFee, s.feePot⟩

/-- A fee-paying transaction adds the fee to the pot, another one leaves the market alone. -/
structure Charged (E : Node) (paysFee : Bool) (s s' : ChainState) : Prop where
  baseFee : s'.baseFee = s.baseFee
  pays : paysFee = true → E.saturation.add s.feePot s.baseFee = some s'.feePot
  free : paysFee = false → s'.feePot = s.feePot

theorem Charged.of_leaves (h : s'.market = s.market) : Charged E false s s' :=
  ⟨congrArg Market.baseFee h, fun hp => absurd hp Bool.false_ne_true, fun _ => congrArg Market.feePot h⟩

theorem Charged.of_pot (hb : s'.baseFee = s.baseFee)
    (hp : E.saturation.add s.feePot s.baseFee = some s'.feePot) : Charged E true s s' :=
  ⟨hb, fun _ => hp, fun hf => absurd hf.symm Bool.false_ne_true⟩

/-- The mutations of a fee-paying type charge its sender. -/
theorem Mutation.charged {account : String} {effects : StateAction} {t : ChainState}
    (hm : Mutation E tx height s account effects)
    (he : effects (s.setNonce account tx.nonce) = ok ((), t)) :
    Charged E tx.transactionType.paysFee s t := by
  cases hm with
  | transfer ht =>
    obtain ⟨_, _, pot, -, -, hp, rfl⟩ := transferEffects_ok he
    exact ht ▸ .of_pot rfl hp
  | stake ht =>
    obtain ⟨_, _, pot, _, _, -, -, hp, -, -, rfl⟩ := stakeEffects_ok he
    exact ht ▸ .of_pot rfl hp
  | withdraw ht =>
    obtain ⟨_, pot, _, _, -, hp, -, rfl⟩ := withdrawEffects_ok he
    exact ht ▸ .of_pot rfl hp
  | vest ht =>
    obtain ⟨_, _, pot, _, _, -, -, hp, -, -, rfl⟩ := vestEffects_ok he
    exact ht ▸ .of_pot rfl hp
  | tokenCreate ht =>
    obtain ⟨_, pot, _, -, hp, -, rfl⟩ := tokenCreateEffects_ok he
    exact ht ▸ .of_pot rfl hp
  | tokenTransfer ht =>
    obtain ⟨_, pot, _, _, _, -, hp, -, -, -, rfl⟩ := tokenTransferEffects_ok he
    exact ht ▸ .of_pot rfl hp
  | @tokenBurn r ht hc =>
    obtain ⟨-, -, -, hmem⟩ := tokenBurnChecks_ok hc
    obtain ⟨_, pot, _, _, _, -, hp, -, -, -, rfl⟩ :=
      tokenBurnEffects_ok (s := s.setNonce r.sender tx.nonce) hmem he
    exact ht ▸ .of_pot rfl hp
  | addLiquidity ht =>
    obtain ⟨_, pot, _, _, _, _, _, _, _, _, -, hp, -, -, -, -, -, -, -, -, rfl⟩ :=
      addLiquidityEffects_ok he
    exact ht ▸ .of_pot rfl hp
  | removeLiquidity ht =>
    obtain ⟨_, pot, _, _, _, _, _, _, _, _, _, _, -, hp, -, -, -, -, -, -, -, -, -, -, rfl⟩ :=
      removeLiquidityEffects_ok he
    exact ht ▸ .of_pot rfl hp
  | swap ht =>
    unfold swapEffects at he
    split at he
    · obtain ⟨_, pot, _, _, _, _, _, _, _, -, hp, -, -, -, -, -, -, -, rfl⟩ := swapHkmToToken_ok he
      exact ht ▸ .of_pot rfl hp
    · obtain ⟨_, pot, _, _, _, _, _, _, _, _, -, hp, -, -, -, -, -, -, -, -, rfl⟩ :=
        swapTokenToHkm_ok he
      exact ht ▸ .of_pot rfl hp
  | @certificate _ action ht =>
    have hleaves : Leaves market (certificateEffects tx action account) :=
      certificateEffects_leaves (fun _ _ _ => rfl) _ _
    have hsame : t.market = s.market := (hleaves (s.setNonce account tx.nonce)).1 _ _ he
    exact ht ▸ .of_leaves hsame

theorem Applied.charged (h : Applied E tx height s s') :
    Charged E tx.transactionType.paysFee s s' := by
  cases h with
  | signed hm _ he => exact hm.charged he
  | reward ht he =>
    have hleaves : Leaves market (applyReward E tx) :=
      applyReward_leaves (fun _ _ _ => rfl) (fun _ _ _ => rfl)
    exact ht ▸ .of_leaves ((hleaves _).1 _ _ he)
  | slash ht he =>
    have hleaves : Leaves market (applySlash E tx height) :=
      (Leaves.read _ _).bind fun r => slashEffects_leaves (fun _ _ _ => rfl) (fun _ _ _ => rfl)
        (fun _ _ _ => rfl) (fun _ _ => rfl) (fun _ _ _ => rfl) _ r
    exact ht ▸ .of_leaves ((hleaves _).1 _ _ he)
  | anchor ht _ he => exact ht ▸ .of_leaves (congrArg market he)

/-! ## What a block collects -/

/-- How many fee-paying transactions some texts are. -/
def feePaying (E : Env) (txs : List String) : ℕ :=
  (txs.filterMap E.parseTx).countP fun tx => tx.transactionType.paysFee

theorem feePaying_cons {E : Env} {txStr : String} (hp : E.parseTx txStr = some tx)
    (rest : List String) : feePaying E (txStr :: rest) =
      feePaying E rest + if tx.transactionType.paysFee then 1 else 0 := by
  rw [feePaying, List.filterMap_cons_some hp, List.countP_cons]
  rfl

/-- The fees of a block add up in the pot, up to the largest word. -/
theorem executeTransactions_charged (hE : E.saturation = .clamp) {validator : String}
    {index : UInt64} {txs : List String} :
    ∀ {s s' : ChainState} {n n' : ℕ},
      executeTransactions E validator index s n txs = ok (s', n') →
      s'.baseFee = s.baseFee ∧ s'.feePot.toNat =
        min (s.feePot.toNat + feePaying E txs * s.baseFee.toNat) (2 ^ 64 - 1) := by
  induction txs with
  | nil =>
    intro s s' n n' h
    rw [executeTransactions, ok.injEq, Prod.mk.injEq] at h
    obtain ⟨rfl, -⟩ := h
    have hlt := Word.toNat_lt s.feePot
    refine ⟨rfl, ?_⟩
    change _ = min (s.feePot.toNat + 0 * s.baseFee.toNat) _
    omega
  | cons txStr rest ih =>
    intro s s' n n' h
    obtain ⟨mid, tx, h₁, h₂⟩ := executeTransactions_cons_eq_ok.mp h
    obtain ⟨hparse, -, happly, -⟩ := executeTransaction_eq_ok.mp h₁
    obtain ⟨hbase, hpays, hfree⟩ := (applyVerified_applied happly).2.2.charged
    obtain ⟨hbase', hpot⟩ := ih h₂
    refine ⟨hbase'.trans hbase, ?_⟩
    rw [hpot, hbase, feePaying_cons hparse]
    cases hp : tx.transactionType.paysFee with
    | true =>
      have hadd := hpays hp
      rw [hE, Word.Saturation.add_clamp, Option.some.injEq] at hadd
      rw [← hadd, Word.saturatingAdd_toNat, if_pos rfl, Nat.add_mul, Nat.one_mul]
      omega
    | false =>
      rw [hfree hp, if_neg Bool.false_ne_true, Nat.add_zero]

/-- The fee for the next block is computed from the pot that the transactions left. -/
theorem endBlock_baseFee {validator : String} (h : endBlock E height validator s = ok ((), s')) :
    nextBaseFee E s.baseFee (feePayingTxs s) = ok s'.baseFee := by
  have hunbond : ∀ account, Leaves market (releaseUnbonding E height account) := fun _ =>
    releaseUnbonding_leaves (fun _ _ _ => rfl) (fun _ _ => rfl) (fun _ _ => rfl)
  have hvest : ∀ account, Leaves market (releaseVesting E height account) := fun _ =>
    releaseVesting_leaves (fun _ _ _ => rfl) (fun _ _ => rfl)
  simp only [endBlock, settleFees, Exec.bind_eq_ok, read_eq_ok, ok.injEq, update_eq_ok,
    Outcome.bind_eq_ok, pure_eq] at h
  obtain ⟨_, _, ⟨rfl, rfl⟩, _, s₁, h₁, _, _, ⟨rfl, rfl⟩, _, s₂, h₂, _, _, ⟨next, hnext, rfl⟩, _, _,
    ⟨rfl, rfl⟩, hpay⟩ := h
  have hsame : s₂.market = s.market :=
    ((Leaves.forEach hvest _ _).1 _ _ h₂).trans ((Leaves.forEach hunbond _ _).1 _ _ h₁)
  have hbase : s₂.baseFee = s.baseFee := congrArg Market.baseFee hsame
  have hpot : s₂.feePot = s.feePot := congrArg Market.feePot hsame
  have hkeep : s'.baseFee = next := by
    split at hpay
    · have hleaves : Leaves baseFee (modify (fun s => s.setFeePot 0) >>= fun _ =>
          credit E validator (s₂.setBaseFee next).feePot) :=
        (Leaves.modify fun s => show (s.setFeePot 0).baseFee = s.baseFee from rfl).bind
          fun _ => credit_leaves fun _ _ _ => rfl
      exact (hleaves _).1 _ _ hpay
    · rw [Exec.pure_apply, ok.injEq, Prod.mk.injEq] at hpay
      exact congrArg ChainState.baseFee hpay.2.symm
  rw [hkeep, ← hnext, feePayingTxs, hbase, hpot]

/-! ## How the fee moves -/

/-- The largest step the fee is meant to take: an eighth of it, and at least one unit. -/
def stepBound (fee : UInt64) : ℕ := max (fee.toNat / 8) 1

theorem baseFeeStep_toNat (fee distance : UInt64) : (baseFeeStep fee distance).toNat =
    max (min (stepBound fee * distance.toNat) (2 ^ 64 - 1) / 50) 1 := by
  have h50 : baseFeeTargetTxs.toNat = 50 := rfl
  have h8 : (8 : UInt64).toNat = 8 := rfl
  rw [baseFeeStep, Word.max_toNat, UInt64.toNat_div, h50, UInt64.toNat_one,
    Word.saturatingMul_toNat, Word.max_toNat, UInt64.toNat_div, h8, UInt64.toNat_one]
  rfl

/-- Clamping a fee, on numbers. -/
theorem clamp_toNat (fee : UInt64) :
    (max txFee (min fee baseFeeMax)).toNat = max 1000 (min fee.toNat 100000000) := by
  rw [Word.max_toNat, Word.min_toNat]
  rfl

theorem nextBaseFee_at {count : UInt64} (hc : FeeBounded fee) (hn : count.toNat = 50)
    (h : nextBaseFee E fee count = ok fee') : fee'.toNat = fee.toNat := by
  have hlo : 1000 ≤ fee.toNat := hc.1
  have hhi : fee.toNat ≤ 100000000 := hc.2
  have heq : count = baseFeeTargetTxs := Word.toNat_ext hn
  simp only [nextBaseFee, if_pos heq, pure_eq, ok.injEq] at h
  rw [← h, clamp_toNat]
  omega

theorem nextBaseFee_above {count : UInt64} (hc : FeeBounded fee) (hn : 50 < count.toNat)
    (h : nextBaseFee E fee count = ok fee') : fee'.toNat = min (fee.toNat +
      max (min (stepBound fee * (count.toNat - 50)) (2 ^ 64 - 1) / 50) 1) 100000000 := by
  have hlo : 1000 ≤ fee.toNat := hc.1
  have hhi : fee.toNat ≤ 100000000 := hc.2
  have h50 : baseFeeTargetTxs.toNat = 50 := rfl
  have hne : ¬ count = baseFeeTargetTxs := fun heq => by
    rw [heq, h50] at hn
    omega
  have hlt : baseFeeTargetTxs < count := UInt64.lt_iff_toNat_lt.mpr hn
  simp only [nextBaseFee, if_neg hne, if_pos hlt, Outcome.bind_eq_ok, plain_eq_ok,
    Word.checkedSub_eq_some, pure_eq, ok.injEq] at h
  obtain ⟨distance, hd, next, hadd, rfl⟩ := h
  change E.saturation.add fee (baseFeeStep fee distance) = some next at hadd
  have hstep := (baseFeeStep_le fee distance).2
  rw [Word.Saturation.add_of_lt E.saturation (by omega), Option.some.injEq] at hadd
  have hdistance : distance.toNat = count.toNat - 50 := by omega
  rw [clamp_toNat, ← hadd, Word.toNat_add_of_lt (by omega), baseFeeStep_toNat, hdistance]
  omega

theorem nextBaseFee_below {count : UInt64} (hc : FeeBounded fee) (hn : count.toNat < 50)
    (h : nextBaseFee E fee count = ok fee') : fee'.toNat =
      max 1000 (fee.toNat - max (stepBound fee * (50 - count.toNat) / 50) 1) := by
  have hlo : 1000 ≤ fee.toNat := hc.1
  have hhi : fee.toNat ≤ 100000000 := hc.2
  have h50 : baseFeeTargetTxs.toNat = 50 := rfl
  have hne : ¬ count = baseFeeTargetTxs := fun heq => by
    rw [heq, h50] at hn
    omega
  have hlt : ¬ baseFeeTargetTxs < count := fun hlt => by
    rw [UInt64.lt_iff_toNat_lt] at hlt
    omega
  simp only [nextBaseFee, if_neg hne, if_neg hlt, Outcome.bind_eq_ok, plain_eq_ok,
    Word.checkedSub_eq_some, pure_eq, ok.injEq] at h
  obtain ⟨distance, hd, next, hsub, rfl⟩ := h
  change E.saturation.sub fee (baseFeeStep fee distance) = some next at hsub
  have hdistance : distance.toNat = 50 - count.toNat := by omega
  have hbound : stepBound fee ≤ fee.toNat := max_le (by omega) (by omega)
  have hmul : stepBound fee * (50 - count.toNat) ≤ stepBound fee * 50 :=
    Nat.mul_le_mul_left _ (by omega)
  have hstep := baseFeeStep_toNat fee distance
  rw [hdistance] at hstep
  rw [Word.Saturation.sub_of_le E.saturation (by omega), Option.some.injEq] at hsub
  rw [clamp_toNat, ← hsub, Word.toNat_sub_of_le (by omega), hstep]
  omega

/-! ## The law of the fee -/

/-- What the move of the fee over a block with `n` fee-paying transactions should be. -/
structure FeeMoves (fee fee' : UInt64) (n : ℕ) : Prop where
  bounded : FeeBounded fee'
  up : fee'.toNat ≤ fee.toNat + stepBound fee
  down : fee.toNat ≤ fee'.toNat + stepBound fee
  rises : 50 < n → fee.toNat < fee'.toNat ∨ fee = baseFeeMax
  stays : n = 50 → fee' = fee
  falls : n < 50 → fee'.toNat < fee.toNat ∨ fee = txFee

/-- The transactions do not exceed the target so far that the step passes its bound, unless the
maximum is within the bound. -/
def Modest (fee : UInt64) (n : ℕ) : Prop :=
  n ≤ 50 ∨ stepBound fee * (n - 50) < 50 * (stepBound fee + 1) ∨
    baseFeeMax.toNat ≤ fee.toNat + stepBound fee

/-- A count read off the pot: exact, unless the pot was full. -/
def Counts (count : UInt64) (n : ℕ) : Prop := count.toNat = n ∨ 1000 < count.toNat ∧ 1000 < n

/-- The step passes its bound exactly when the transactions are too many. -/
theorem step_le_iff {fee : UInt64} (hc : FeeBounded fee) (n : ℕ) :
    max (min (stepBound fee * (n - 50)) (2 ^ 64 - 1) / 50) 1 ≤ stepBound fee ↔
      stepBound fee * (n - 50) < 50 * (stepBound fee + 1) := by
  have hhi : fee.toNat ≤ 100000000 := hc.2
  have hpos : 1 ≤ stepBound fee := le_max_right _ _
  have hle : stepBound fee ≤ 100000000 := max_le (by omega) (by omega)
  omega

/-- Far above the target the step is past its bound. -/
theorem step_far {fee : UInt64} {n : ℕ} (hn : 1000 < n) :
    ¬ stepBound fee * (n - 50) < 50 * (stepBound fee + 1) := by
  have hpos : 1 ≤ stepBound fee := le_max_right _ _
  have hmul : stepBound fee * 100 ≤ stepBound fee * (n - 50) := Nat.mul_le_mul_left _ (by omega)
  omega

/-- The fee moves as it should exactly when the transactions are modest. -/
theorem feeMoves_iff {count : UInt64} {n : ℕ} (hc : FeeBounded fee) (hcount : Counts count n)
    (h : nextBaseFee E fee count = ok fee') : FeeMoves fee fee' n ↔ Modest fee n := by
  have hlo : 1000 ≤ fee.toNat := hc.1
  have hhi : fee.toNat ≤ 100000000 := hc.2
  have hpos : 1 ≤ stepBound fee := le_max_right _ _
  have hmax : baseFeeMax.toNat = 100000000 := rfl
  obtain ⟨next, hnext, hbounded⟩ := nextBaseFee_total hc count
  rw [hnext E, ok.injEq] at h
  subst h
  have hread := hnext E
  rcases lt_trichotomy n 50 with hn | hn | hn
  · -- below the target nothing can go wrong
    have hcn : count.toNat = n := by rcases hcount with h | h <;> omega
    have hval := nextBaseFee_below hc (by omega) hread
    rw [hcn] at hval
    have hmul : stepBound fee * (50 - n) ≤ stepBound fee * 50 :=
      Nat.mul_le_mul_left _ (by omega)
    refine ⟨fun _ => .inl hn.le, fun _ => ⟨hbounded, by omega, by omega, by omega, by omega, ?_⟩⟩
    intro _
    by_cases heq : fee.toNat = 1000
    · exact .inr (Word.toNat_ext heq)
    · exact .inl (by omega)
  · have hcn : count.toNat = 50 := by rcases hcount with h | h <;> omega
    have hval := nextBaseFee_at hc hcn hread
    exact ⟨fun _ => .inl hn.le, fun _ => ⟨hbounded, by omega, by omega, by omega,
      fun _ => Word.toNat_ext hval, by omega⟩⟩
  · have hcn : 50 < count.toNat := by rcases hcount with h | h <;> omega
    have hval := nextBaseFee_above hc hcn hread
    have hstep := step_le_iff hc count.toNat
    -- a full pot counts other transactions than there are, but both are far too many
    have hsame : stepBound fee * (count.toNat - 50) < 50 * (stepBound fee + 1) ↔
        stepBound fee * (n - 50) < 50 * (stepBound fee + 1) := by
      rcases hcount with h | ⟨h, h'⟩
      · rw [h]
      · exact iff_of_false (step_far h) (step_far h')
    rw [hsame] at hstep
    constructor
    · intro hmoves
      have hup := hmoves.up
      unfold Modest
      rw [← hstep, hmax]
      omega
    · intro hmodest
      unfold Modest at hmodest
      rw [← hstep, hmax] at hmodest
      refine ⟨hbounded, by omega, by omega, fun _ => ?_, by omega, by omega⟩
      by_cases heq : fee.toNat = 100000000
      · exact .inr (Word.toNat_ext heq)
      · exact .inl (by omega)

/-! ## Blocks -/

/-- The fee after an accepted block, from the number of its fee-paying transactions. -/
theorem Accepted.nextFee (hE : E.saturation = .clamp) {supply : UInt64} {blocks : List Block}
    (h : Accepted E supply s blocks) {block : Block} {place : Position}
    (hb : validateBlockAt E block place s = ok s') :
    ∃ count, nextBaseFee E s.baseFee count = ok s'.baseFee ∧
      Counts count (feePaying E block.transactions) := by
  obtain ⟨validator, -, -, he⟩ := validateBlockAt_ok hb
  obtain ⟨mid, htxs, hend, -⟩ := executeBlock_eq_ok.mp he
  obtain ⟨hbase, hpot⟩ := executeTransactions_charged hE htxs
  have hnext := endBlock_baseFee hend
  obtain ⟨hlo, hhi⟩ := ((h.reachable hE).sound hE).baseFee
  change 1000 ≤ s.baseFee.toNat at hlo
  change s.baseFee.toNat ≤ 100000000 at hhi
  rw [h.feePot hE, UInt64.toNat_zero, Nat.zero_add] at hpot
  refine ⟨feePayingTxs mid, hbase ▸ hnext, ?_⟩
  have hpos : 0 < mid.baseFee := by
    rw [hbase, UInt64.lt_iff_toNat_lt, UInt64.toNat_zero]
    omega
  rw [Counts, feePayingTxs, if_pos hpos, UInt64.toNat_div, hpot, hbase]
  by_cases hfit : feePaying E block.transactions * s.baseFee.toNat ≤ 2 ^ 64 - 1
  · rw [min_eq_left hfit]
    exact .inl (Nat.mul_div_cancel _ (by omega))
  · -- the pot is full, so that there were more transactions than a fee of 100 HKM could fill
    rw [min_eq_right (by omega)]
    refine .inr ⟨?_, ?_⟩
    · rw [Nat.lt_div_iff_mul_lt (by omega)]
      omega
    · by_contra hfew
      have hmul : feePaying E block.transactions * s.baseFee.toNat ≤ 1000 * 100000000 :=
        Nat.mul_le_mul (by omega) hhi
      omega

/-- Accepted blocks in a row, each below the target. -/
inductive Idle (E : Node) (s : ChainState) : ℕ → ChainState → Prop
  | none : Idle E s 0 s
  | next {n : ℕ} {mid s' : ChainState} {block : Block} {place : Position} (h : Idle E s n mid)
      (hb : validateBlockAt E block place mid = ok s')
      (hbelow : feePaying E block.transactions < 50) : Idle E s (n + 1) s'

/-- Every idle block takes at least a unit off the fee, down to the minimum. -/
theorem Idle.baseFee_le (hE : E.saturation = .clamp) {supply : UInt64} {blocks : List Block}
    (h : Accepted E supply s blocks) {n : ℕ} (hidle : Idle E s n s') :
    (∃ more, Accepted E supply s' more) ∧ s'.baseFee.toNat ≤ max 1000 (s.baseFee.toNat - n) := by
  induction hidle with
  | none => exact ⟨⟨blocks, h⟩, by omega⟩
  | next _ hb hbelow ih =>
    obtain ⟨⟨more, hacc⟩, hle⟩ := ih
    refine ⟨⟨_, hacc.block hb⟩, ?_⟩
    obtain ⟨count, hnext, hcount⟩ := hacc.nextFee hE hb
    have hcn : count.toNat < 50 := by rcases hcount with h | h <;> omega
    have hval := nextBaseFee_below ((hacc.reachable hE).sound hE).baseFee hcn hnext
    omega

/-- The fee market.  In a run from genesis the fee moves as it should over an accepted block
exactly when the block's fee-paying transactions are modest in number, and blocks below the
target, as many as the fee is above its minimum, bring it there. -/
theorem base_fee_moves_iff (hE : E.saturation = .clamp) {supply : UInt64} {blocks : List Block}
    (h : Accepted E supply s blocks) :
    (∀ block place s', validateBlockAt E block place s = ok s' →
      (FeeMoves s.baseFee s'.baseFee (feePaying E block.transactions) ↔
        Modest s.baseFee (feePaying E block.transactions))) ∧
      ∀ n s', s.baseFee.toNat ≤ n + txFee.toNat → Idle E s n s' → s'.baseFee = txFee := by
  refine ⟨fun block place s' hb => ?_, fun n s' hn hidle => ?_⟩
  · obtain ⟨count, hnext, hcount⟩ := h.nextFee hE hb
    exact feeMoves_iff ((h.reachable hE).sound hE).baseFee hcount hnext
  · obtain ⟨⟨more, hacc⟩, hle⟩ := hidle.baseFee_le hE h
    have hlo : 1000 ≤ s'.baseFee.toNat := ((hacc.reachable hE).sound hE).baseFee.1
    change s.baseFee.toNat ≤ n + 1000 at hn
    refine Word.toNat_ext ?_
    change s'.baseFee.toNat = 1000
    omega

end ChainState

open ChainState

namespace Sample

/-! ## A crowded block -/

variable {pool : List Transaction} {s : ChainState}

/-- Holder 7 pays itself a unit. -/
def payout (nonce : UInt64) : Transaction :=
  { order 7 .transfer (address 7) 1 nonce none none
      (Transaction.transferSigningMessage (address 7) (address 7) 1 nonce) with
    id := toString nonce }

/-- Payments with `m` nonces in a row, the first one after `k`. -/
def payouts (k : ℕ) : ℕ → List Transaction
  | 0 => []
  | m + 1 => payout (UInt64.ofNat (k + 1)) :: payouts (k + 1) m

theorem payout_verified (nonce : UInt64) (validator : String) :
    (payout nonce).verifyForBlock (env pool) validator = ok () := by
  change (payout nonce).verifySenderSignature (env pool) (address 7)
    (Transaction.transferSigningMessage (address 7) (address 7) 1 nonce) = ok ()
  exact verifySenderSignature_signed schemeOf_seven rfl rfl ⟨rfl, rfl⟩

/-- Holder 7 has used `k` nonces and can pay itself `m` times more at the lowest fee. -/
structure CanPay (k m : ℕ) (s : ChainState) : Prop where
  chainId : s.chainId = defaultChainId
  classical : s.requireHybridSignatures = false
  nonce : (s.nonceOf (address 7)).toNat = k
  fee : s.baseFee = txFee
  funds : m * 1000 < (s.balanceOf (address 7)).toNat

theorem CanPay.pay (pool : List Transaction) (index : UInt64) {k m : ℕ} (h : CanPay k (m + 1) s)
    (hk : k + 1 < 2 ^ 64) :
    ∃ s', s.applyVerified (node pool) (payout (UInt64.ofNat (k + 1))) index = ok ((), s') ∧
      CanPay (k + 1) m s' := by
  obtain ⟨hchain, hclassical, hnonce, hfee, hfunds⟩ := h
  have hnext : (UInt64.ofNat (k + 1)).toNat = k + 1 := Word.toNat_ofNat_of_lt hk
  have hlt := Word.toNat_lt (s.balanceOf (address 7))
  obtain ⟨rest, hrest⟩ : ∃ rest : UInt64, rest.toNat + 1001 = (s.balanceOf (address 7)).toNat :=
    ⟨UInt64.ofNat ((s.balanceOf (address 7)).toNat - 1001), by
      rw [Word.toNat_ofNat_of_lt (by omega)]
      omega⟩
  obtain ⟨back, hback⟩ : ∃ back : UInt64, back.toNat = rest.toNat + 1 :=
    ⟨UInt64.ofNat (rest.toNat + 1), Word.toNat_ofNat_of_lt (by omega)⟩
  have hleft : m * 1000 < back.toNat := by linarith only [hfunds, hrest, hback]
  set tx := payout (UInt64.ofNat (k + 1))
  set first := s.setNonce (address 7) (UInt64.ofNat (k + 1))
  set paid := ((first.setBalance (address 7) rest).setBalance (address 7) back).setFeePot
    (Word.saturatingAdd s.feePot txFee)
  have heffects : transferEffects (node pool) tx (address 7) first = ok ((), paid) := by
    simp only [transferEffects, Exec.bind_eq_ok, Exec.read_eq_ok, ok.injEq, totalDebit_eq_ok,
      debit_eq_ok, tryCredit_eq_ok, collectFee_eq_ok]
    refine ⟨txFee, first, ⟨hfee, rfl⟩, 1001, first, ⟨rfl, rfl⟩, (), _,
      ⟨rest, hrest, rfl⟩, (), _, ⟨back, ?_, rfl⟩, Word.saturatingAdd s.feePot txFee, rfl, rfl⟩
    change _ = (valueAt (s.balances.insert (address 7) rest) (address 7)).toNat + _
    rw [valueAt_insert_self]
    exact hback
  refine ⟨paid, ?_, hchain, hclassical, ?_, hfee, ?_⟩
  · simp only [applyVerified, Exec.bind_eq_ok, Exec.read_eq_ok]
    refine ⟨(), s, ⟨?_, rfl⟩, (), s, ⟨?_, rfl⟩, ?_⟩
    · exact ensure_pos hchain.symm
    · rw [verifySignaturePolicy, hclassical]
      rfl
    · exact guarded_eq_ok.mpr ⟨address 7, transferChecks_eq_ok.mpr ⟨rfl, address_valid⟩,
        hnext.trans (congrArg (· + 1) hnonce.symm), heffects⟩
  · change (valueAt (s.nonces.insert (address 7) _) (address 7)).toNat = k + 1
    rw [valueAt_insert_self, hnext]
  · have hread : paid.balanceOf (address 7) = back := valueAt_insert_self _ _ _
    rw [hread]
    exact hleft

/-- A row of payments that can be paid is applied. -/
theorem applyAll_payouts (pool : List Transaction) (index : UInt64) (count : ℕ) : ∀ {m k : ℕ} {s : ChainState}, CanPay k m s →
    k + m < 2 ^ 64 → ∃ s', applyAll pool index s count (payouts k m) = some (s', count) := by
  intro m
  induction m with
  | zero => exact fun _ _ => ⟨_, rfl⟩
  | succ m ih =>
    intro k s h hk
    obtain ⟨mid, hmid, hnext⟩ := h.pay pool index (by omega)
    obtain ⟨s', hs'⟩ := ih hnext (by omega)
    refine ⟨s', ?_⟩
    rw [payouts, applyAll, hmid]
    exact hs'

theorem countP_payouts : ∀ m k : ℕ,
    (payouts k m).countP (fun tx => tx.transactionType.paysFee) = m
  | 0, _ => rfl
  | m + 1, k => by
    rw [payouts, List.countP_cons, countP_payouts m (k + 1)]
    rfl

theorem id_payouts : ∀ m k : ℕ,
    (payouts k m).map Transaction.id = (List.range' (k + 1) m).map fun n => toString (UInt64.ofNat n)
  | 0, _ => rfl
  | m + 1, k => by
    rw [payouts, List.map_cons, id_payouts m (k + 1), List.range'_succ, List.map_cons]
    rfl

/-- A reward and a hundred and one payments. -/
def crowd : List Transaction := reward :: payouts 0 101

theorem crowd_nodup : (crowd.map Transaction.id).Nodup := by
  have hids : (payouts 0 101).map Transaction.id =
      (List.range' 1 101).map fun n => toString (UInt64.ofNat n) := id_payouts 101 0
  rw [crowd, List.map_cons, hids, List.nodup_cons]
  refine ⟨by decide, ?_⟩
  refine List.Nodup.map_on (fun a ha b hb hab => ?_) List.nodup_range'
  rw [List.mem_range'_1] at ha hb
  have hword := congrArg UInt64.toNat (Text.toString_injective hab)
  rwa [Word.toNat_ofNat_of_lt (by omega), Word.toNat_ofNat_of_lt (by omega)] at hword

theorem mem_payouts {tx : Transaction} : ∀ {m k : ℕ}, tx ∈ payouts k m → ∃ nonce, tx = payout nonce
  | 0, _, h => by cases h
  | m + 1, k, h => by
    rcases List.mem_cons.mp h with rfl | h
    · exact ⟨_, rfl⟩
    · exact mem_payouts h

theorem crowd_admitted : ∀ tx ∈ crowd, Admitted crowd (address 7) tx := by
  intro tx htx
  refine ⟨parseTx_of_mem crowd_nodup htx, ?_⟩
  rcases List.mem_cons.mp htx with rfl | htx
  · exact verifyForBlock_reward rfl rfl rfl
  · obtain ⟨nonce, rfl⟩ := mem_payouts htx
    exact payout_verified nonce _

/-- The reward leaves holder 7 enough to pay for the others. -/
theorem crowd_canPay :
    CanPay 0 101 ((genesis 1000000000000000).rewarded (address 7) reward.amount) :=
  ⟨rfl, rfl, by decide +kernel, rfl, by decide +kernel⟩

theorem executeBlock_firstBlock {supply : UInt64} {txs : List Transaction} {s' : ChainState}
    (htxs : ∀ tx ∈ txs, Admitted pool (address 7) tx)
    (h : executed pool 7 1 (genesis supply) txs = some s') :
    executeBlock (node pool) (address 7)
      (firstBlock pool 7 (genesis supply) (txs.map Transaction.id)) (genesis supply) = ok s' :=
  executeBlock_of_executed htxs rfl rfl rfl h

/-- A reward and payments after it execute. -/
theorem exists_executed {m : ℕ} (hm : m < 2 ^ 64)
    (hadmitted : ∀ tx ∈ reward :: payouts 0 m, Admitted pool (address 7) tx)
    (hpay : CanPay 0 m ((genesis 1000000000000000).rewarded (address 7) reward.amount)) :
    ∃ s', executed pool 7 1 (genesis 1000000000000000) (reward :: payouts 0 m) = some s' := by
  have hcount : 0 + rewardsOf reward = 1 := rfl
  have hreward : applyVerified (node pool) reward 1 (genesis 1000000000000000) =
      ok ((), (genesis 1000000000000000).rewarded (address 7) reward.amount) :=
    applyVerified_reward rfl rfl
  have hamount : reward.transactionType = .reward → reward.amount = blockReward 1 := fun _ => rfl
  obtain ⟨mid, hmid⟩ := applyAll_payouts pool 1 1 hpay (by omega)
  have happly : applyAll pool 1 (genesis 1000000000000000) 0 (reward :: payouts 0 m) =
      some (mid, 1) := by
    rw [applyAll, hreward]
    simp only [if_pos hamount, hcount]
    exact hmid
  have hreach : Reachable (node pool) (genesis 1000000000000000) :=
    .genesis (.built defaultChainId (address 7) _ _ [] address_valid)
  have hsound : Sound mid := (hreach.executeTransactions address_valid
    (executeTransactions_of_applyAll hadmitted happly)).sound rfl
  obtain ⟨last, hclose, -⟩ := hsound.endBlock (E := node pool) (Or.inl rfl) address_valid 1
  exact ⟨last, by simp only [executed, happly, hclose.returns]⟩

/-- The crowded block is accepted. -/
theorem exists_crowded : ∃ s, validateBlockAt (node crowd)
    (firstBlock crowd 7 (genesis 1000000000000000) (crowd.map Transaction.id)) firstPlace
      (genesis 1000000000000000) = ok s := by
  obtain ⟨last, hexec⟩ := exists_executed (by decide) crowd_admitted crowd_canPay
  exact ⟨last, validateBlockAt_firstBlock (by decide)
    (executeBlock_firstBlock crowd_admitted hexec)⟩

end Sample

namespace ChainState

/-- The texts of transactions that are found by their ids. -/
theorem feePaying_ids {E : Env} : ∀ {txs : List Transaction},
    (∀ tx ∈ txs, E.parseTx tx.id = some tx) → feePaying E (txs.map Transaction.id) =
      txs.countP fun tx => tx.transactionType.paysFee
  | [], _ => rfl
  | tx :: rest, h => by
    rw [List.map_cons, feePaying_cons (h tx List.mem_cons_self),
      feePaying_ids fun tx htx => h tx (List.mem_cons_of_mem _ htx), List.countP_cons]

/-- After a block that holds only its reward the fee is where it should be. -/
theorem base_fee_moves_sample :
    ∃ s, validateBlockAt (Sample.node [Sample.reward])
        (Sample.firstBlock [Sample.reward] 7 (Sample.genesis 1000000000000000) ["reward"])
        Sample.firstPlace (Sample.genesis 1000000000000000) = ok s ∧
      FeeMoves txFee s.baseFee 0 := by
  have hexec : (executeBlock (Sample.node [Sample.reward]) (Sample.address 7)
      (Sample.firstBlock [Sample.reward] 7 (Sample.genesis 1000000000000000) ["reward"])
      (Sample.genesis 1000000000000000)).returns (fun _ => true) = true := by decide +kernel
  obtain ⟨s, hs, -⟩ := exists_of_returns hexec
  have hacc := Sample.validateBlockAt_firstBlock (by decide) hs
  refine ⟨s, hacc, ?_⟩
  exact ((base_fee_moves_iff (E := Sample.node [Sample.reward]) rfl
    (.genesis (.built defaultChainId (Sample.address 7) _ _ [] Sample.address_valid))).1 _ _ _
      hacc).mpr (.inl (Nat.zero_le 50))

/-- A hundred and one payments in a block at the lowest fee move it by more than an eighth. -/
theorem base_fee_leaps :
    ∃ s, validateBlockAt (Sample.node Sample.crowd)
        (Sample.firstBlock Sample.crowd 7 (Sample.genesis 1000000000000000)
          (Sample.crowd.map Transaction.id)) Sample.firstPlace
        (Sample.genesis 1000000000000000) = ok s ∧
      ¬ FeeMoves (Sample.genesis 1000000000000000).baseFee s.baseFee
        (feePaying (Sample.node Sample.crowd) (Sample.crowd.map Transaction.id)) := by
  obtain ⟨s, hs⟩ := Sample.exists_crowded
  have hacc : Accepted (Sample.node Sample.crowd) 1000000000000000
      (Sample.genesis 1000000000000000) [] :=
    .genesis (.built defaultChainId (Sample.address 7) _ _ [] Sample.address_valid)
  obtain ⟨count, hnext, hcount⟩ := hacc.nextFee rfl hs
  have hpaying : feePaying (Sample.env Sample.crowd) (Sample.crowd.map Transaction.id) = 101 := by
    rw [feePaying_ids fun tx htx => (Sample.crowd_admitted tx htx).1, Sample.crowd,
      List.countP_cons, Sample.countP_payouts]
    rfl
  refine ⟨s, hs, fun hmoves => ?_⟩
  have hmodest := (feeMoves_iff ((hacc.reachable rfl).sound rfl).baseFee hcount hnext).mp hmoves
  have hfew : Modest txFee 101 := hpaying ▸ hmodest
  rcases hfew with h | h | h
  · omega
  · exact absurd h (by decide)
  · exact absurd h (by decide)

end ChainState
