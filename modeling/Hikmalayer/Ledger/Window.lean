/-
# The slashing window

What a validator had bonded when a height began stays within reach of a slash until the window
of that height is over: bonded, or unbonding until a later height than the window's last.
Only slashes take from it.  So while they have taken less than that, the validator's entry is
still there under the same key; and where it is there, a new offense of that height is
punished.
-/
import Mathlib.Tactic
import Hikmalayer.Authorization.Registered
import Hikmalayer.Ledger.Slashing
import Hikmalayer.Ledger.SampleRun

open Outcome Exec OrderedMap

namespace ChainState

variable {E : Node} {s₀ s s' : ChainState} {tx : Transaction} {height : UInt64}
  {h k : UInt64} {v producer : String} {X : ℕ}

/-! ## Runs from a height on -/

/-- What a transaction took from a validator, when it is a slash of it. -/
def slashTaken (v : String) (tx : Transaction) (s s' : ChainState) : ℕ :=
  if tx.transactionType = .slash ∧ tx.recipient = v then s.atRisk v - s'.atRisk v else 0

/-- The ledger from a state at height `h` on: the height of the block that is executed, the
state, and what slashes have taken from the validator since. -/
inductive Since (E : Node) (v : String) (h : UInt64) (s₀ : ChainState) :
    UInt64 → ChainState → ℕ → Prop
  | start : Since E v h s₀ h s₀ 0
  | apply {k : UInt64} {s s' : ChainState} {X : ℕ} {tx : Transaction} {producer : String}
      (hw : Since E v h s₀ k s X) (hv : isValidAddress producer = true)
      (hver : tx.verifyForBlock E producer = ok ())
      (ha : applyVerified E tx k s = ok ((), s')) : Since E v h s₀ k s' (X + slashTaken v tx s s')
  | close {k next : UInt64} {s s' : ChainState} {X : ℕ} {producer : String}
      (hw : Since E v h s₀ k s X) (hv : isValidAddress producer = true)
      (hc : endBlock E k producer s = ok ((), s')) (hnext : next.toNat = k.toNat + 1) :
      Since E v h s₀ next s' X

theorem Since.steps (hw : Since E v h s₀ k s X) : Relation.ReflTransGen (Step E) s₀ s := by
  induction hw with
  | start => exact .refl
  | apply _ hv hver ha ih => exact ih.tail (.apply hv hver ha)
  | close _ hv hc _ ih => exact ih.tail (.close hv hc)

/-- Heights do not go back. -/
theorem Since.le (hw : Since E v h s₀ k s X) : h.toNat ≤ k.toNat := by
  induction hw with
  | start => exact le_rfl
  | apply _ _ _ _ ih => exact ih
  | close _ _ _ hnext ih => omega

/-- Runs of the clamping node keep the invariant. -/
theorem Sound.steps (hE : E.saturation = .clamp) (hs : Sound s₀)
    (hrun : Relation.ReflTransGen (Step E) s₀ s) : Sound s := by
  induction hrun with
  | refl => exact hs
  | tail _ hstep ih => exact hstep.sound hE ih

/-- An accepted block carries the ledger to the next height. -/
theorem Since.block (hE : E.saturation = .clamp) (hs : Sound s₀) (hw : Since E v h s₀ k s X)
    {block : Block} {place : Position} (hindex : block.index = k) (hfit : k.toNat + 1 < 2 ^ 64)
    (hb : validateBlockAt E block place s = ok s') : ∃ X', Since E v h s₀ (k + 1) s' X' := by
  obtain ⟨producer, -, hmem, he⟩ := validateBlockAt_ok hb
  obtain ⟨mid, htx, hend, -⟩ := executeBlock_eq_ok.mp he
  rw [hindex] at htx hend
  have hv := (hs.steps hE hw.steps).addressed.staker producer hmem
  have hmid : ∃ X', Since E v h s₀ k mid X' := by
    refine executeTransactions_induct (P := fun t _ => ∃ X', Since E v h s₀ k t X') ?_ ⟨X, hw⟩ htx
    rintro t t' n txStr tx ⟨X', ht⟩ h₁
    obtain ⟨-, hver, ha, -⟩ := executeTransaction_eq_ok.mp h₁
    exact ⟨_, ht.apply hv hver ha⟩
  obtain ⟨X', hmid⟩ := hmid
  exact ⟨X', hmid.close hv hend (Word.toNat_add_of_lt hfit)⟩

/-- Accepted blocks at consecutive heights. -/
inductive Blocks (E : Node) : UInt64 → ChainState → UInt64 → ChainState → Prop
  | none {k : UInt64} {s : ChainState} : Blocks E k s k s
  | next {k k' : UInt64} {s mid s' : ChainState} {block : Block} {place : Position}
      (hindex : block.index = k) (hfit : k.toNat + 1 < 2 ^ 64)
      (hb : validateBlockAt E block place s = ok mid) (rest : Blocks E (k + 1) mid k' s') :
      Blocks E k s k' s'

/-- Accepted blocks carry the ledger along. -/
theorem Since.blocks (hE : E.saturation = .clamp) (hs : Sound s₀) {k' : UInt64}
    (hblocks : Blocks E k s k' s') :
    ∀ {X}, Since E v h s₀ k s X → ∃ X', Since E v h s₀ k' s' X' := by
  induction hblocks with
  | none => exact fun hw => ⟨_, hw⟩
  | next hindex hfit hb _ ih =>
    intro X hw
    obtain ⟨X', hnext⟩ := hw.block hE hs hindex hfit hb
    exact ih hnext

/-! ## What cannot leave -/

/-- Whether an entry with this release height waits for the end of the window of `h`. -/
def staysFor (h releaseHeight : UInt64) : Bool :=
  h.toNat + slashingWindowBlocks.toNat ≤ releaseHeight.toNat

/-- The stake of a validator that cannot leave within the window of `h`. -/
def lockedFor (h : UInt64) (s : ChainState) (v : String) : ℕ :=
  (s.stakers[v]?.getD .empty).stake.toNat + owed (staysFor h) (s.entriesOf v)

theorem owed_le_entriesSum (p : UInt64 → Bool) (entries : List UnbondingEntry) :
    owed p entries ≤ entriesSum entries := by
  induction entries with
  | nil => exact le_rfl
  | cons e rest ih =>
    have hsum : entriesSum (e :: rest) = e.amount.toNat + entriesSum rest := by
      simp [entriesSum]
    rw [owed_cons, hsum]
    split <;> omega

theorem lockedFor_le_atRisk (h : UInt64) (s : ChainState) (v : String) :
    s.lockedFor h v ≤ s.atRisk v :=
  Nat.add_le_add_left (owed_le_entriesSum _ _) _

/-- What is locked is read from the bonds of the validator. -/
theorem lockedFor_congr (hk : s'.stakers[v]? = s.stakers[v]?)
    (hu : s'.entriesOf v = s.entriesOf v) : s'.lockedFor h v = s.lockedFor h v := by
  rw [lockedFor, hk, hu]
  rfl

theorem entriesOf_congr (hu : s'.unbonding[v]? = s.unbonding[v]?) :
    s'.entriesOf v = s.entriesOf v := by
  rw [entriesOf, hu]
  rfl

/-- A transaction takes from what is locked only by slashing. -/
theorem BondStep.lockedFor_le (hstep : BondStep E tx k s s') (hhk : h.toNat ≤ k.toNat) (v : String) :
    s.lockedFor h v ≤ s'.lockedFor h v + slashTaken v tx s s' := by
  cases hstep with
  | @stake r stake pq ht hc hstake hpq hb =>
    have hk : s'.stakers = _ := congrArg Bonds.stakers hb
    have hu : s'.unbonding = s.unbonding := congrArg Bonds.unbonding hb
    have he : s'.entriesOf v = s.entriesOf v := entriesOf_congr (by rw [hu])
    by_cases hv : r.sender = v
    · subst hv
      rw [lockedFor, lockedFor, he, hk, lookup_insert_self, Option.getD_some]
      dsimp only
      omega
    · rw [lockedFor_congr (by rw [hk, lookup_insert, if_neg hv]) he]
      exact Nat.le_add_right _ _
  | @withdraw r info releaseHeight ht hc hi hrest hrelease hb =>
    have hk : s'.stakers = _ := congrArg Bonds.stakers hb
    have hu : s'.unbonding = _ := congrArg Bonds.unbonding hb
    by_cases hv : r.sender = v
    · subst hv
      -- the new entry is released after the window
      have hstays : staysFor h releaseHeight = true := by
        have hblocks : unbondingBlocks = slashingWindowBlocks := rfl
        rw [staysFor, decide_eq_true_eq, hrelease, hblocks]
        omega
      have he : s'.entriesOf r.sender = s.entriesOf r.sender ++ [⟨tx.amount, releaseHeight⟩] := by
        rw [entriesOf, hu, lookup_insert_self, Option.getD_some]
      rw [lockedFor, lockedFor, he, hk, lookup_insert_self, hi, Option.getD_some, Option.getD_some,
        owed_append, owed_cons, if_pos hstays, owed_nil]
      dsimp only
      omega
    · rw [lockedFor_congr (by rw [hk, lookup_insert, if_neg hv])
        (entriesOf_congr (by rw [hu, lookup_insert, if_neg hv]))]
      exact Nat.le_add_right _ _
  | @slash r info stake ht hc hi hk hothers hloss htake hrecord =>
    by_cases hv : tx.recipient = v
    · subst hv
      have hbefore : s.atRisk tx.recipient =
          info.stake.toNat + entriesSum (s.entriesOf tx.recipient) := by
        rw [atRisk, hi]
        rfl
      have hafter : s'.atRisk tx.recipient =
          stake.toNat + entriesSum (s'.entriesOf tx.recipient) := by
        rw [atRisk, hk, lookup_insert_self]
        rfl
      have hlocked := htake (staysFor h)
      rw [slashTaken, if_pos ⟨ht, rfl⟩, hbefore, hafter, lockedFor, lockedFor, hk,
        lookup_insert_self, hi, Option.getD_some, Option.getD_some]
      dsimp only
      omega
    · rw [lockedFor_congr (by rw [hk, lookup_insert, if_neg hv]) (hothers v hv)]
      exact Nat.le_add_right _ _
  | other _ hb =>
    have hk : s'.stakers = s.stakers := congrArg Bonds.stakers hb
    have hu : s'.unbonding = s.unbonding := congrArg Bonds.unbonding hb
    rw [lockedFor_congr (by rw [hk]) (entriesOf_congr (by rw [hu]))]
    exact Nat.le_add_right _ _

/-- A transaction takes nobody off the registry. -/
theorem BondStep.stakers_mono (hstep : BondStep E tx k s s') (hv : v ∈ s.stakers) :
    v ∈ s'.stakers := by
  have hinsert : ∀ {a : String} {info : StakeInfo}, s'.stakers = s.stakers.insert a info →
      v ∈ s'.stakers := fun hk => by
    rw [hk]
    exact Std.ExtTreeMap.mem_insert.mpr (Or.inr hv)
  cases hstep with
  | stake _ _ _ _ hb => exact hinsert (congrArg Bonds.stakers hb)
  | withdraw _ _ _ _ _ hb => exact hinsert (congrArg Bonds.stakers hb)
  | slash _ _ _ hk => exact hinsert hk
  | other _ hb =>
    have hk : s'.stakers = s.stakers := congrArg Bonds.stakers hb
    exact hk ▸ hv

/-- What waits for the end of the window is not released before. -/
theorem owed_staysFor_unmatured (hin : k.toNat < h.toNat + slashingWindowBlocks.toNat)
    (entries : List UnbondingEntry) :
    owed (staysFor h) (unmatured k entries) = owed (staysFor h) entries := by
  unfold owed unmatured
  rw [List.filter_filter]
  refine congrArg entriesSum (List.filter_congr fun e _ => ?_)
  by_cases hs : staysFor h e.releaseHeight = true
  · have hlate : ¬ e.releaseHeight ≤ k := by
      rw [staysFor, decide_eq_true_eq] at hs
      rw [UInt64.le_iff_toNat_le]
      omega
    simp [hs, hlate]
  · simp [hs]

/-- Closing a block inside the window releases nothing that is locked, and takes a validator off
the registry only when nothing is. -/
theorem Released.lockedFor (hr : Released k s s')
    (hin : k.toNat < h.toNat + slashingWindowBlocks.toNat) (v : String) :
    s.lockedFor h v ≤ s'.lockedFor h v ∧
      (v ∈ s.stakers → v ∈ s'.stakers ∨ s.lockedFor h v = 0) := by
  have howed : owed (staysFor h) (s'.entriesOf v) = owed (staysFor h) (s.entriesOf v) := by
    have hlate := hr.late v
    unfold lateEntries at hlate
    rw [← owed_staysFor_unmatured hin, hlate, owed_staysFor_unmatured hin]
  rcases hr.stakers v with hsame | ⟨hnone, hzero, hgone⟩
  · refine ⟨?_, fun hv => Or.inl ?_⟩
    · unfold ChainState.lockedFor
      rw [howed, hsame]
    · rw [Std.ExtTreeMap.mem_iff_isSome_getElem?, hsame]
      exact Std.ExtTreeMap.mem_iff_isSome_getElem?.mp hv
  · have hempty : s'.entriesOf v = [] := by
      unfold entriesOf
      rw [Std.ExtTreeMap.getElem?_eq_none hgone]
      rfl
    have hstake : (s.stakers[v]?.getD .empty).stake = 0 := by
      cases hi : s.stakers[v]? with
      | none => rfl
      | some info => exact hzero info hi
    have hnothing : s.lockedFor h v = 0 := by
      unfold ChainState.lockedFor
      rw [← howed, hempty, hstake]
      rfl
    exact ⟨hnothing ▸ Nat.zero_le _, fun _ => Or.inr hnothing⟩

/-! ## Within the window -/

/-- Until the window is over, what was locked is still locked or was slashed, and the validator
is registered unless slashes have taken all of it. -/
theorem Since.locked (hw : Since E v h s₀ k s X)
    (hin : k.toNat ≤ h.toNat + slashingWindowBlocks.toNat) (hv : v ∈ s₀.stakers) :
    s₀.lockedFor h v ≤ s.lockedFor h v + X ∧ (s₀.lockedFor h v ≤ X ∨ v ∈ s.stakers) := by
  induction hw with
  | start => exact ⟨le_rfl, Or.inr hv⟩
  | apply hw _ _ ha ih =>
    obtain ⟨hlocked, hthere⟩ := ih hin
    have hstep := (applyVerified_applied ha).2.2.bondStep
    have hle := hstep.lockedFor_le hw.le v
    refine ⟨by omega, ?_⟩
    rcases hthere with hless | hthere
    · exact Or.inl (by omega)
    · exact Or.inr (hstep.stakers_mono hthere)
  | close hw _ hc hnext ih =>
    obtain ⟨hlocked, hthere⟩ := ih (by omega)
    obtain ⟨hle, hgone⟩ := (endBlock_released hc).lockedFor (h := h) (by omega) v
    refine ⟨by omega, ?_⟩
    rcases hthere with hless | hthere
    · exact Or.inl hless
    · rcases hgone hthere with hthere | hnothing
      · exact Or.inr hthere
      · exact Or.inl (by omega)

/-! ## Punishment -/

/-- A slash of a validator for an offense at `h`: a positive amount leaves the staking pool and
what the validator has at risk, joins the burned counter, and is recorded. -/
structure Punished (v : String) (h : UInt64) (s s' : ChainState) (amount : UInt64) : Prop where
  positive : 0 < amount.toNat
  pool : (valueAt s'.balances stakingPoolAccount).toNat + amount.toNat =
    (valueAt s.balances stakingPoolAccount).toNat
  burned : s'.burned = Word.saturatingAdd s.burned amount
  atRisk : s'.atRisk v + amount.toNat = s.atRisk v
  recorded : s'.slashedOffenses[offenseKey v h]? = some amount

/-- A slash that is applied burns. -/
theorem applyVerified_punished (hE : E.saturation = .clamp) (ht : tx.transactionType = .slash)
    {proof : SlashProof} (hp : tx.slashProof = some proof)
    (ha : applyVerified E tx height s = ok ((), s')) :
    ∃ amount, Punished tx.recipient proof.blockA.index s s' amount := by
  have hstep := (applyVerified_applied ha).2.2.bondStep
  cases hstep with
  | stake ht' => rw [ht] at ht'; cases ht'
  | withdraw ht' => rw [ht] at ht'; cases ht'
  | other ht' => exact absurd ht ht'.2.2
  | @slash r info stake _ hc hi hk _ hloss _ hrecord =>
    obtain ⟨_, _, -, hi', -, -, -, hstake, hle⟩ := slashChecks_ok hc
    rw [hi, Option.some.injEq] at hi'
    subst hi'
    have hbranch : applyBranch E tx height = applySlash E tx height := by
      unfold applyBranch
      rw [ht]
    simp only [applyVerified, Exec.bind_eq_ok, read_eq_ok, hbranch, applySlash] at ha
    obtain ⟨_, _, ⟨-, rfl⟩, _, _, ⟨-, rfl⟩, r', _, ⟨hc', rfl⟩, he⟩ := ha
    rw [hc, ok.injEq] at hc'
    subst hc'
    obtain ⟨pool, burned, totalSupply, stake', unbonding, hpool, hburned, -, -, -, rfl⟩ :=
      slashEffects_ok hi hstake hle he
    rw [hE] at hburned
    have hkey : r.offenseKey = offenseKey tx.recipient proof.blockA.index := by
      simp only [slashChecks, hp, okOr_some, ok_bind, Outcome.bind_eq_ok, ensure_eq_ok,
        plain_eq_ok, okOr_eq_ok, pure_eq, ok.injEq] at hc
      obtain ⟨_, -, _, -, _, -, _, -, _, -, _, -, _, -, _, -, rfl⟩ := hc
      rfl
    refine ⟨r.slashed, slashChecks_pos hc, ?_, ?_, ?_, ?_⟩
    · change (valueAt (s.balances.insert stakingPoolAccount pool) stakingPoolAccount).toNat + _ = _
      rw [valueAt_insert_self, hpool]
    · rw [Word.Saturation.add_clamp, Option.some.injEq] at hburned
      exact hburned.symm
    · change stake.toNat + entriesSum _ + _ = _ at hloss
      rw [atRisk, atRisk, hk, lookup_insert_self, hi, Option.getD_some, Option.getD_some]
      exact hloss
    · rw [hrecord, hkey, lookup_insert_self]

/-! ## The law -/

/-- Runs from a genesis whose validator holds the treasury's key are sound. -/
theorem sound_of_steps (hE : E.saturation = .clamp) {chain : Blockchain}
    (hkey : chain.GenesisKeyDerives E)
    (hrun : Relation.ReflTransGen (Step E) (chain.genesisState E) s) : Sound s := by
  have hgenesis : GenesisState E chain.genesisSupply (chain.genesisState E) :=
    .seated _ _ hkey.valid (.policy _ (.built _ _ _ _ _ hkey.valid))
  exact hgenesis.fresh.sound.steps hE hrun

theorem registered_of_steps {chain : Blockchain} (hkey : chain.GenesisKeyDerives E)
    (hrun : Relation.ReflTransGen (Step E) (chain.genesisState E) s) : Registered E s := by
  induction hrun with
  | refl => exact chain.genesisState_registered hkey
  | tail _ hstep ih => exact hstep.registered ih

/-- Misbehaviour stays slashable while funds could leave.  Let a validator be registered when
height `h` begins, and take any state while the transactions of a block of height at most `h`
plus the window are applied.  What the validator has at risk there, and what slashes have taken
from it since, cover what it had bonded; it is still registered unless slashes have taken that
much; if it is, the ECDSA key is the same; and a new offense of height `h` under that key is
punished as soon as a tenth of what is at risk is not zero. -/
theorem slashable_within_window (hE : E.saturation = .clamp) {chain : Blockchain}
    (hkey : chain.GenesisKeyDerives E)
    (hrun : Relation.ReflTransGen (Step E) (chain.genesisState E) s₀) {info : StakeInfo}
    (hi : s₀.stakers[v]? = some info) (hw : Since E v h s₀ k s X)
    (hin : k.toNat ≤ h.toNat + slashingWindowBlocks.toNat)
    (hfree : ∀ info', s.stakers[v]? = some info' → NoCollision E info info') :
    info.stake.toNat ≤ s.atRisk v + X ∧ (X < info.stake.toNat → v ∈ s.stakers) ∧
      (∀ info', s.stakers[v]? = some info' → info'.publicKey = info.publicKey) ∧
      ∀ tx proof, v ∈ s.stakers → tx.transactionType = .slash → tx.recipient = v →
        tx.slashProof = some proof → proof.blockA.index = h →
        proof.blockA.validatorPublicKey = some info.publicKey →
        h.toNat + slashingWindowBlocks.toNat < 2 ^ 64 → ¬ offenseKey v h ∈ s.slashedOffenses →
        10 ≤ s.atRisk v →
        ∃ s' amount, applyVerified E tx k s = ok ((), s') ∧ Punished v h s s' amount := by
  have hstart : info.stake.toNat ≤ s₀.lockedFor h v := by
    rw [lockedFor, hi]
    exact Nat.le_add_right _ _
  obtain ⟨hlocked, hthere⟩ := hw.locked hin (mem_of_lookup hi)
  have hrisk := lockedFor_le_atRisk h s v
  have hsame : ∀ info', s.stakers[v]? = some info' → info'.publicKey = info.publicKey :=
    fun info' hi' => ((registered_of_steps hkey hrun v info hi).publicKey_eq
      (registered_of_steps hkey (hrun.trans hw.steps) v info' hi') (hfree info' hi')).symm
  refine ⟨by omega, fun hless => ?_, hsame, ?_⟩
  · rcases hthere with htaken | hthere
    · omega
    · exact hthere
  · intro tx proof hmem ht hv hp hindex hproof hfits hnew hpos
    obtain ⟨info', hi'⟩ := Option.isSome_iff_exists.mp
      (Std.ExtTreeMap.mem_iff_isSome_getElem?.mp hmem)
    have hslashable : Slashable s k proof.blockA.index tx.recipient
        (proof.blockA.validatorPublicKey.getD "") := by
      rw [hindex, hv, hproof]
      exact ⟨hin, hfits, ⟨info', hi', hsame info' hi'⟩, hnew, hpos⟩
    have hsound := sound_of_steps hE hkey (hrun.trans hw.steps)
    obtain ⟨s', ha⟩ := (slash_accepted_iff hE hsound ht hp).mpr hslashable
    obtain ⟨amount, hpunished⟩ := applyVerified_punished hE ht hp ha
    rw [hv, hindex] at hpunished
    exact ⟨s', amount, ha, hpunished⟩

end ChainState

/-! ## An entry that leaves -/

namespace Sample

/-- The network whose treasury and validator is holder 7. -/
def classicalChain : Blockchain :=
  { hybridChain with
    genesisTreasury := address 7
    genesisValidatorPublicKey := some (publicKey 7)
    genesisValidatorVrfPublicKey := some (publicKey 7)
    genesisValidatorPqPublicKey := none }

theorem classicalChain_genesisState (E : Env) :
    classicalChain.genesisState E = genesis 1000000000000000000 := by
  have hclassical : ¬ Hybrid.isHybridAddress (address 7) = true := by decide +kernel
  change ChainState.seatGenesisValidatorPqKey E (genesis 1000000000000000000) (address 7) none = _
  unfold ChainState.seatGenesisValidatorPqKey
  rw [if_pos hclassical]

theorem classicalChain_key (pool : List Transaction) :
    classicalChain.GenesisKeyDerives (node pool) := by
  have hc := canonicalPublicKey_publicKey (E := node pool) rfl 7
  refine ⟨publicKey 7, rfl, ?_, Or.inl ?_⟩
  · rw [Pos.isCanonicalPublicKey, hc]
  · rw [Pos.deriveAddress, hc]
    rfl

/-- Holder 7 pays holder 8. -/
def payment : Transaction :=
  order 7 .transfer (address 8) 2000000000000 1 none none
    (Transaction.transferSigningMessage (address 7) (address 8) 2000000000000 1)

/-- Holder 7 keeps a hundredth of its stake bonded. -/
def partialExit : Transaction :=
  order 7 .withdraw "" 990000000000 2 none none
    (Transaction.withdrawSigningMessage (address 7) 990000000000 2)

/-- Holder 8 becomes a validator. -/
def bonding : Transaction :=
  { order 8 .stake stakingPoolAccount 1000000000000 1 none none
      (Transaction.stakeSigningMessage (address 8) 1000000000000 1 (publicKey 8)) with
    vrfPublicKey := some (publicKey 8) }

/-- Holder 7 has signed two blocks of height 1. -/
def doubleSlash : Transaction :=
  { reward with
    id := "slash"
    recipient := address 7
    amount := 0
    transactionType := .slash
    slashProof := some ⟨sealBlock [] 7 firstPlace [] "a", sealBlock [] 7 firstPlace [] "b"⟩ }

/-- The reward of the blocks of holder 8. -/
def laterReward : Transaction := { reward with id := "later", recipient := address 8 }

def exitPool : List Transaction := [payment, partialExit, bonding, doubleSlash, reward, laterReward]

/-- The position of a block at a height. -/
def placeAt (k : UInt64) : Position := ⟨k, "0", "beacon", morning, 1⟩

/-- A block of holder `n` on a state. -/
def blockOn (pool : List Transaction) (n : UInt8) (k : UInt64) (transactions : List String)
    (s : ChainState) : Block :=
  sealBlock pool n (placeAt k) transactions (rootAfter pool n k s transactions)

/-- What the only validator with stake has bonded. -/
def soleStake (n : UInt8) (s : ChainState) : UInt64 := (s.stakers[address n]?.getD .empty).stake

/-- The state after a block of the only validator with stake. -/
def afterBlock (pool : List Transaction) (n : UInt8) (k : UInt64) (transactions : List Transaction)
    (s : ChainState) : Option ChainState :=
  if k.toNat + 1 < 2 ^ 64 ∧ 0 < soleStake n s ∧
      s.validatorSet = [⟨address n, soleStake n s, some (publicKey n)⟩] ∧
      s.stakers[address n]? = some ⟨soleStake n s, publicKey n, publicKey n, ""⟩ then
    executed pool n k s transactions
  else none

/-- The height and state after some blocks. -/
def afterBlocks (pool : List Transaction) :
    UInt64 → List (UInt8 × List Transaction) → ChainState → Option (UInt64 × ChainState)
  | k, [], s => some (k, s)
  | k, b :: rest, s => (afterBlock pool b.1 k b.2 s).bind (afterBlocks pool (k + 1) rest)

theorem blocks_of_afterBlocks {pool : List Transaction} {bs : List (UInt8 × List Transaction)}
    (hbs : ∀ b ∈ bs, ∀ tx ∈ b.2, Admitted pool (address b.1) tx) :
    ∀ {k k' : UInt64} {s s' : ChainState}, afterBlocks pool k bs s = some (k', s') →
      ChainState.Blocks (node pool) k s k' s' := by
  induction bs with
  | nil =>
    intro k k' s s' h
    rw [afterBlocks, Option.some.injEq, Prod.mk.injEq] at h
    exact h.1 ▸ h.2 ▸ .none
  | cons b rest ih =>
    intro k k' s s' h
    obtain ⟨mid, hmid, h⟩ := Option.bind_eq_some_iff.mp h
    unfold afterBlock at hmid
    split at hmid
    · rename_i hcond
      obtain ⟨hfit, hpos, hset, hreg⟩ := hcond
      have htime : ¬ morning.before morning := by decide
      have hexec : executeBlock (node pool) (address b.1)
          (blockOn pool b.1 k (b.2.map Transaction.id) s) s = ok mid :=
        executeBlock_of_executed (hbs b List.mem_cons_self) rfl rfl rfl hmid
      have haccept : validateBlockAt (node pool) (blockOn pool b.1 k (b.2.map Transaction.id) s)
          (placeAt k) s = ok mid :=
        validateBlockAt_sealBlock (Or.inl rfl) htime hpos hset hreg hexec
      exact .next rfl hfit haccept (ih (fun b hb => hbs b (List.mem_cons_of_mem _ hb)) h)
    · cases hmid

/-- The slash carries two blocks of holder 7 at height 1. -/
theorem doubleSlash_verified {pool : List Transaction} {validator : String} :
    doubleSlash.verifyForBlock (env pool) validator = ok () := by
  have hne : (sealBlock [] 7 firstPlace [] "a").hash ≠ (sealBlock [] 7 firstPlace [] "b").hash := by
    decide +kernel
  have hproof : SlashProof.verify (env pool)
      ⟨sealBlock [] 7 firstPlace [] "a", sealBlock [] 7 firstPlace [] "b"⟩ = ok (address 7) :=
    verify_sealBlock hne
  exact (Transaction.verifyForBlock_slash rfl).mpr ⟨⟨rfl, rfl⟩, _, rfl, hproof⟩

theorem payment_verified {pool : List Transaction} {validator : String} :
    payment.verifyForBlock (env pool) validator = ok () := by
  change payment.verifySenderSignature (env pool) (address 7) (Transaction.transferSigningMessage
    (address 7) (address 8) 2000000000000 1) = ok ()
  exact verifySenderSignature_order schemeOf_seven

theorem bonding_verified {pool : List Transaction} {validator : String} :
    bonding.verifyForBlock (env pool) validator = ok () := by
  change bonding.verifySenderSignature (env pool) (address 8) (Transaction.stakeSigningMessage
    (address 8) 1000000000000 1 (publicKey 8)) = ok ()
  exact verifySenderSignature_signed schemeOf_eight rfl rfl ⟨rfl, rfl⟩

/-- The transactions of the run verify in the blocks of the holder who is paid for them. -/
theorem exitPool_admitted :
    (∀ validator, ∀ tx ∈ [payment, partialExit, bonding, doubleSlash],
      Admitted exitPool validator tx) ∧
    Admitted exitPool (address 7) reward ∧ Admitted exitPool (address 8) laterReward := by
  have hids : (exitPool.map Transaction.id).Nodup := by decide +kernel
  refine ⟨fun validator tx htx => ⟨parseTx_of_mem hids (by simp [exitPool] at htx ⊢; tauto), ?_⟩,
    ⟨parseTx_of_mem hids (by simp [exitPool]), verifyForBlock_reward rfl rfl rfl⟩,
    ⟨parseTx_of_mem hids (by simp [exitPool]), verifyForBlock_reward rfl rfl rfl⟩⟩
  simp only [List.mem_cons, List.not_mem_nil, or_false] at htx
  rcases htx with rfl | rfl | rfl | rfl
  · exact payment_verified
  · rfl
  · exact bonding_verified
  · exact doubleSlash_verified

/-- Whether holder 7 is left with a hundredth of its stake by block 1, and with no entry by
block 21. -/
def leaves : Bool :=
  (afterBlocks exitPool 1 [(7, [payment, partialExit, reward])]
    (genesis 1000000000000000000)).any fun r =>
      r.1 = 2 && ⟨address 7, 10000000000, some (publicKey 7)⟩ ∈ r.2.validatorSet &&
      (afterBlocks exitPool 2 ((7, [bonding, doubleSlash, reward]) ::
        List.replicate 19 (8, [laterReward])) r.2).any fun r' =>
          r'.1 = 22 && r'.2.stakers[address 7]? = none

theorem leaves_eq : leaves = true := by decide +kernel

/-- Holder 7 keeps a hundredth of its stake bonded in block 1, is slashed in block 2, and is off
the registry after block 21. -/
theorem exit_run : ∃ s₀ s, ChainState.Blocks (node exitPool) 1 (genesis 1000000000000000000) 2 s₀ ∧
    ⟨address 7, 10000000000, some (publicKey 7)⟩ ∈ s₀.validatorSet ∧
    ChainState.Blocks (node exitPool) 2 s₀ 22 s ∧ s.stakers[address 7]? = none := by
  obtain ⟨hfree, hseven, height⟩ := exitPool_admitted
  have hfirst : ∀ b ∈ [((7 : UInt8), [payment, partialExit, reward])], ∀ tx ∈ b.2,
      Admitted exitPool (address b.1) tx := by
    intro b hb tx htx
    rw [List.mem_singleton] at hb
    subst hb
    simp only [List.mem_cons, List.not_mem_nil, or_false] at htx
    rcases htx with rfl | rfl | rfl
    · exact hfree _ _ (by simp)
    · exact hfree _ _ (by simp)
    · exact hseven
  have hlater : ∀ b ∈ ((7 : UInt8), [bonding, doubleSlash, reward]) ::
      List.replicate 19 (8, [laterReward]), ∀ tx ∈ b.2, Admitted exitPool (address b.1) tx := by
    intro b hb tx htx
    rcases List.mem_cons.mp hb with rfl | hb
    · simp only [List.mem_cons, List.not_mem_nil, or_false] at htx
      rcases htx with rfl | rfl | rfl
      · exact hfree _ _ (by simp)
      · exact hfree _ _ (by simp)
      · exact hseven
    · obtain rfl := List.eq_of_mem_replicate hb
      rw [List.mem_singleton.mp htx]
      exact height
  obtain ⟨⟨k, s₀⟩, h₁, hrest⟩ := (Option.any_eq_true _ _).mp leaves_eq
  simp only [Bool.and_eq_true, decide_eq_true_eq, Option.any_eq_true] at hrest
  obtain ⟨⟨rfl, hset⟩, ⟨k', s⟩, h₂, rfl, hgone⟩ := hrest
  exact ⟨s₀, s, blocks_of_afterBlocks hfirst h₁, hset, blocks_of_afterBlocks hlater h₂, hgone⟩

end Sample

namespace ChainState

/-- At genesis nothing was taken yet: a double block of height 1 is punished there. -/
theorem slashable_within_window_sample :
    ∃ s' amount, applyVerified (Sample.node []) Sample.doubleSlash 1
        (Sample.classicalChain.genesisState (Sample.node [])) = ok ((), s') ∧
      Punished (Sample.address 7) 1 (Sample.classicalChain.genesisState (Sample.node [])) s' amount := by
  have hgenesis := Sample.classicalChain_genesisState (Sample.node [])
  have hi : (Sample.classicalChain.genesisState (Sample.node [])).stakers[Sample.address 7]? =
      some ⟨genesisValidatorStake, Sample.publicKey 7, Sample.publicKey 7, ""⟩ := by
    rw [hgenesis, Sample.genesis_stakers (by decide), lookup_insert_self]
  -- one entry has one key to hash
  have hfree : ∀ info', (Sample.classicalChain.genesisState
      (Sample.node [])).stakers[Sample.address 7]? = some info' →
      NoCollision (Sample.node []) ⟨genesisValidatorStake, Sample.publicKey 7, Sample.publicKey 7, ""⟩
        info' := by
    intro info' hi'
    rw [hi, Option.some.injEq] at hi'
    subst hi'
    have hnone : ∀ pq, Pq.canonicalPqPublicKey (trim "") ≠ ok pq := by
      intro pq hpq
      have hlen := Registration.pqKey_length hpq
      simp only [Pq.canonicalPqPublicKey, Outcome.bind_eq_ok, ensure_eq_ok] at hpq
      obtain ⟨bytes, hb, _, hbytes, -⟩ := hpq
      have hempty : Pq.decodeHex (trim "") "post-quantum public key" = ok [] := by decide
      rw [hempty, ok.injEq] at hb
      rw [← hb] at hbytes
      exact absurd hbytes (by decide)
    rw [NoCollision, Set.union_self]
    rintro a ⟨point, hc, rfl | ⟨pq, hpq, -⟩⟩ b ⟨point', hc', rfl | ⟨pq, hpq, -⟩⟩ -
    · rw [hc, ok.injEq] at hc'
      exact hc'
    · exact absurd hpq (hnone pq)
    · exact absurd hpq (hnone pq)
    · exact absurd hpq (hnone pq)
  refine (slashable_within_window (E := Sample.node []) rfl (Sample.classicalChain_key []) .refl hi
    (.start (h := 1)) (by decide) hfree).2.2.2 Sample.doubleSlash _ (mem_of_lookup hi) rfl rfl rfl rfl
      rfl (by decide) ?_ ?_
  · rw [hgenesis]
    decide +kernel
  · rw [hgenesis]
    decide +kernel

/-- Holder 7 has a hundredth of its stake bonded when height 2 begins and the rest unbonding until
height 21.  A slash in block 2 takes a tenth of all of it, which is more than what is bonded.
When the rest is released nothing remains, and the entry is gone at height 22, the last one of
the window. -/
theorem entry_leaves_within_window :
    Sample.classicalChain.GenesisKeyDerives (Sample.node Sample.exitPool) ∧
      ∃ s₀ s X, Blocks (Sample.node Sample.exitPool) 1
          (Sample.classicalChain.genesisState (Sample.node Sample.exitPool)) 2 s₀ ∧
        ⟨Sample.address 7, 10000000000, some (Sample.publicKey 7)⟩ ∈ s₀.validatorSet ∧
        Since (Sample.node Sample.exitPool) (Sample.address 7) 2 s₀ 22 s X ∧
        (22 : UInt64).toNat ≤ (2 : UInt64).toNat + slashingWindowBlocks.toNat ∧
        s.stakers[Sample.address 7]? = none := by
  refine ⟨Sample.classicalChain_key _, ?_⟩
  have hgenesis := Sample.classicalChain_genesisState (Sample.node Sample.exitPool)
  obtain ⟨s₀, s, h₁, hset, h₂, hgone⟩ := Sample.exit_run
  rw [← hgenesis] at h₁
  have hsound : Sound (Sample.classicalChain.genesisState (Sample.node Sample.exitPool)) :=
    sound_of_steps rfl (Sample.classicalChain_key _) .refl
  obtain ⟨X₀, hbefore⟩ := Since.blocks (v := Sample.address 7) rfl hsound h₁ .start
  obtain ⟨X, hsince⟩ := Since.blocks (v := Sample.address 7) rfl (hsound.steps rfl hbefore.steps) h₂
    .start
  exact ⟨s₀, s, X, h₁, hset, hsince, by decide, hgone⟩

end ChainState
