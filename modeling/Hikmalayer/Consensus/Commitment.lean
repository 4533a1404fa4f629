/-
# What a block hash commits to

The hash covers index, roots, timestamp, producer and parent, and through the state root
the state after the block.  It does not cover the VRF output.  The output is fixed up to its
spelling: the beacon hashes the spelling, and the verification reads either letter case.
-/
import Mathlib.Tactic
import Hikmalayer.Ledger.Runs
import Hikmalayer.Consensus.Beacon

open Outcome

/-! ## The `Debug` text of a string -/

/-- The number that hexadecimal digits stand for. -/
def hexNumber (digits : List Char) : ℕ :=
  digits.foldl (fun acc c => 16 * acc + (hexValue c).getD 0) 0

theorem hexNumber_toDigits (n : ℕ) : hexNumber (Nat.toDigits 16 n) = n := by
  induction n using Nat.strong_induction_on with
  | _ n ih =>
    by_cases hn : n < 16
    · rw [Nat.toDigits_of_lt_base hn, hexNumber, List.foldl_cons, List.foldl_nil,
        hexValue_digitChar hn]
      show 16 * 0 + n = n
      omega
    · rw [Nat.toDigits_of_base_le (by decide) (by omega), hexNumber, List.foldl_append,
        List.foldl_cons, List.foldl_nil, hexValue_digitChar (Nat.mod_lt _ (by decide))]
      have hfront : hexNumber (Nat.toDigits 16 (n / 16)) = n / 16 := ih _ (by omega)
      rw [hexNumber] at hfront
      rw [hfront]
      show 16 * (n / 16) + n % 16 = n
      omega

/-- A hexadecimal digit is not the closing brace of a code point. -/
theorem ne_brace_of_mem_toDigits {n : ℕ} {c : Char} (h : c ∈ Nat.toDigits 16 n) :
    c ≠ '\x7d' := by
  induction n using Nat.strong_induction_on with
  | _ n ih =>
    have hdigit : ∀ d < 16, Nat.digitChar d ≠ '\x7d' := by decide
    by_cases hn : n < 16
    · rw [Nat.toDigits_of_lt_base hn, List.mem_singleton] at h
      rw [h]
      exact hdigit n hn
    · rw [Nat.toDigits_of_base_le (by decide) (by omega), List.mem_append,
        List.mem_singleton] at h
      rcases h with h | h
      · exact ih _ (by omega) h
      · rw [h]
        exact hdigit _ (Nat.mod_lt _ (by decide))

/-- The characters with a short escape, and the letters that stand for them. -/
def shortEscapes : List (Char × Char) :=
  [('"', '"'), ('\\', '\\'), ('\n', 'n'), ('\r', 'r'), ('\t', 't'), (Char.ofNat 0, '0')]

/-- A character is printed by a short escape, by its code point, or as it is. -/
theorem debugChar_cases (E : Env) (c : Char) :
    (∃ e, debugChar E c = ['\\', e] ∧ (c, e) ∈ shortEscapes) ∨
      debugChar E c = '\\' :: 'u' :: '\x7b' :: (Nat.toDigits 16 c.toNat ++ ['\x7d']) ∨
      debugChar E c = [c] ∧ c ≠ '"' ∧ c ≠ '\\' := by
  unfold debugChar
  by_cases hquote : c = '"'
  · exact Or.inl ⟨'"', by rw [if_pos hquote], by rw [hquote]; decide⟩
  by_cases hslash : c = '\\'
  · exact Or.inl ⟨'\\', by rw [if_neg hquote, if_pos hslash], by rw [hslash]; decide⟩
  by_cases hn : c = '\n'
  · exact Or.inl ⟨'n', by rw [if_neg hquote, if_neg hslash, if_pos hn], by rw [hn]; decide⟩
  by_cases hr : c = '\r'
  · exact Or.inl ⟨'r', by rw [if_neg hquote, if_neg hslash, if_neg hn, if_pos hr],
      by rw [hr]; decide⟩
  by_cases ht : c = '\t'
  · exact Or.inl ⟨'t', by rw [if_neg hquote, if_neg hslash, if_neg hn, if_neg hr, if_pos ht],
      by rw [ht]; decide⟩
  by_cases hzero : c.toNat = 0
  · have hc : c = Char.ofNat 0 := Char.toNat_inj.mp hzero
    exact Or.inl ⟨'0', by
      rw [if_neg hquote, if_neg hslash, if_neg hn, if_neg hr, if_neg ht, if_pos hzero],
      by rw [hc]; decide⟩
  rw [if_neg hquote, if_neg hslash, if_neg hn, if_neg hr, if_neg ht, if_neg hzero]
  by_cases hescaped : E.escaped c = true
  · right
    left
    rw [if_pos hescaped]
    rfl
  · right
    right
    rw [if_neg hescaped]
    exact ⟨rfl, hquote, hslash⟩

/-- No character's text is the start of another's. -/
theorem debugChar_append_inj {E : Env} {c d : Char} {x y : List Char}
    (h : debugChar E c ++ x = debugChar E d ++ y) : c = d ∧ x = y := by
  have hletter : ∀ p ∈ shortEscapes, ∀ q ∈ shortEscapes, p.2 = q.2 → p.1 = q.1 := by decide
  have hcode : ∀ p ∈ shortEscapes, p.2 ≠ 'u' := by decide
  rcases debugChar_cases E c with ⟨e, hc, he⟩ | hc | ⟨hc, -, hplain⟩ <;>
    rcases debugChar_cases E d with ⟨f, hd, hf⟩ | hd | ⟨hd, -, hplain'⟩ <;>
    rw [hc, hd] at h <;> simp only [List.cons_append, List.nil_append, List.cons.injEq] at h
  · exact ⟨hletter _ he _ hf h.2.1, h.2.2⟩
  · exact absurd h.2.1 (hcode _ he)
  · exact absurd h.1.symm hplain'
  · exact absurd h.2.1.symm (hcode _ hf)
  · rw [List.append_assoc, List.append_assoc] at h
    obtain ⟨hdigits, -, hrest⟩ := Text.append_cons_inj (by decide) (by decide)
      (fun z hz => decide_eq_true (ne_brace_of_mem_toDigits hz))
      (fun z hz => decide_eq_true (ne_brace_of_mem_toDigits hz)) h.2.2.2
    refine ⟨Char.toNat_inj.mp ?_, hrest⟩
    rw [← hexNumber_toDigits c.toNat, hdigits, hexNumber_toDigits]
  · exact absurd h.1.symm hplain'
  · exact absurd h.1 hplain
  · exact absurd h.1 hplain
  · exact h

theorem debugChar_ne_quote {E : Env} {c : Char} {x y : List Char} :
    debugChar E c ++ x ≠ '"' :: y := by
  intro h
  rcases debugChar_cases E c with ⟨e, hc, -⟩ | hc | ⟨hc, hquote, -⟩ <;>
    rw [hc] at h <;> simp only [List.cons_append, List.nil_append, List.cons.injEq] at h
  · exact absurd h.1 (by decide)
  · exact absurd h.1 (by decide)
  · exact hquote h.1

/-- The text of a string up to its closing quote determines the string. -/
theorem debugString_append_inj {E : Env} {a b : String} {x y : List Char}
    (h : (debugString E a).toList ++ x = (debugString E b).toList ++ y) : a = b ∧ x = y := by
  have hlist : ∀ (l m : List Char), l.flatMap (debugChar E) ++ '"' :: x =
      m.flatMap (debugChar E) ++ '"' :: y → l = m ∧ x = y := by
    intro l
    induction l with
    | nil =>
      intro m hm
      cases m with
      | nil =>
        simp only [List.flatMap_nil, List.nil_append, List.cons.injEq, true_and] at hm
        exact ⟨rfl, hm⟩
      | cons d m =>
        rw [List.flatMap_nil, List.nil_append, List.flatMap_cons, List.append_assoc] at hm
        exact absurd hm.symm debugChar_ne_quote
    | cons c l ih =>
      intro m hm
      cases m with
      | nil =>
        rw [List.flatMap_nil, List.nil_append, List.flatMap_cons, List.append_assoc] at hm
        exact absurd hm debugChar_ne_quote
      | cons d m =>
        rw [List.flatMap_cons, List.flatMap_cons, List.append_assoc, List.append_assoc] at hm
        obtain ⟨rfl, hrest⟩ := debugChar_append_inj hm
        obtain ⟨rfl, hxy⟩ := ih m hrest
        exact ⟨rfl, hxy⟩
  rw [debugString, debugString, String.toList_ofList, String.toList_ofList] at h
  simp only [List.cons_append, List.append_assoc, List.nil_append, List.cons.injEq, true_and] at h
  obtain ⟨hchars, hxy⟩ := hlist _ _ h
  exact ⟨String.toList_inj.mp hchars, hxy⟩

/-! ## The producer in the header -/

namespace Block

variable {E : Env} {b c : Block}

/-- A header text determines the producer. -/
theorem validator_determined (hmb : IsDigestText b.merkleRoot) (hsb : IsDigestText b.stateRoot)
    (hmc : IsDigestText c.merkleRoot) (hsc : IsDigestText c.stateRoot)
    (h : b.preimage E = c.preimage E) {v w : String} (hv : b.validator = some v)
    (hw : c.validator = some w) : v = w := by
  obtain ⟨hindex, hmerkle, hstate, htime⟩ := header_determined hmb hsb hmc hsc h
  have hchars := congrArg String.toList h
  simp only [preimage, hashPayload, String.toList_append, List.append_assoc, hindex, hmerkle,
    hstate, htime, List.append_cancel_left_eq, hv, hw, debugOption] at hchars
  exact (debugString_append_inj hchars).1

end Block

namespace Blockchain

/-- A round that is found among some rounds is found when more follow. -/
theorem findSlot_append {E : Env} {ε : Type} {randomness validator slot : String} {index : UInt64}
    {set : List Staker} {more : List UInt64} :
    ∀ {rounds : List UInt64},
      (findSlot E randomness index set validator rounds : Outcome ε _) = ok (some slot) →
      (findSlot E randomness index set validator (rounds ++ more) : Outcome ε _) =
        ok (some slot) := by
  intro rounds
  induction rounds with
  | nil => intro h; cases h
  | cons round rest ih =>
    intro h
    rw [List.cons_append]
    unfold findSlot at h ⊢
    rw [Outcome.bind_eq_ok] at h ⊢
    obtain ⟨leader, hleader, h⟩ := h
    refine ⟨leader, hleader, ?_⟩
    by_cases hmine : leader = some validator
    · rw [if_pos hmine] at h ⊢
      exact h
    · rw [if_neg hmine] at h ⊢
      exact ih h

/-- However many rounds are open, the first one that selects a validator is the same. -/
theorem findSlot_unique {E : Env} {ε : Type} {randomness validator slot slot' : String}
    {index : UInt64} {set : List Staker} {m n : ℕ}
    (h : (findSlot E randomness index set validator (roundList m) : Outcome ε _) =
      ok (some slot))
    (h' : (findSlot E randomness index set validator (roundList n) : Outcome ε _) =
      ok (some slot')) : slot = slot' := by
  have hprefix : ∀ {i j : ℕ}, i ≤ j → ∃ more, roundList j = roundList i ++ more := by
    intro i j hij
    obtain ⟨k, hk⟩ : ∃ k, j + 1 = (i + 1) + k := ⟨j - i, by omega⟩
    rw [roundList, roundList, hk, List.range_add, List.map_append]
    exact ⟨_, rfl⟩
  rcases Nat.le_total m n with hmn | hnm
  · obtain ⟨more, hmore⟩ := hprefix hmn
    rw [hmore, findSlot_append h, ok.injEq, Option.some.injEq] at h'
    exact h'
  · obtain ⟨more, hmore⟩ := hprefix hnm
    rw [hmore, findSlot_append h', ok.injEq, Option.some.injEq] at h
    exact h.symm

variable {E : Node} {chain chain' c₁ c₂ : Blockchain} {block b₁ b₂ : Block} {now now₁ now₂ : DateTime}

theorem slotOf_eq_some {E : Env} {slot : String} (h : slotOf E chain block = ok (some slot)) :
    ∃ (validator : String) (rounds : ℕ), block.validator = some validator ∧
      findSlot E chain.randomness block.index chain.state.validatorSet validator
        (roundList rounds) = (ok (some slot) : Outcome BlockError _) := by
  unfold slotOf at h
  split at h
  · rename_i parent validator _ hvalidator
    exact ⟨validator, _, hvalidator, h⟩
  · cases h

/-- The header of an accepted block is valid and commits to the state after it. -/
theorem accept_header (h : accept E now chain block = ok chain') :
    block.hasValidPow E = true ∧ block.hasValidMerkleRoot E = true ∧
      chain'.state.stateRoot E = block.stateRoot := by
  simp only [accept, commitBlock, Outcome.bind_eq_ok, pure_eq, ok.injEq] at h
  obtain ⟨post, hvalid, _, -, _, -, rfl⟩ := h
  obtain ⟨-, parent, index, -, -, hvalid⟩ := validateBlockCandidate_eq_ok.mp hvalid
  simp only [validateBlockAt, executeBlock, Outcome.bind_eq_ok, ensure_eq_ok, pure_eq,
    ok.injEq] at hvalid
  obtain ⟨_, -, _, -, _, hmerkle, _, hpow, _, -, _, -, _, -, _, hroot, rfl⟩ := hvalid
  exact ⟨hpow, hmerkle, hroot⟩

/-- The leader of a round at a height, as a chain draws it. -/
def leaderAt (E : Env) (chain : Blockchain) (index round : UInt64) :
    Outcome String (Option String) :=
  Pos.selectStakerWithSeed E (Vrf.slotInputAtRound chain.randomness index round)
    chain.state.validatorSet

/-- The texts that two blocks on one chain commit to: headers, states and beacons. -/
def committedTexts (E : Env) (chain c₁ c₂ : Blockchain) (b₁ b₂ : Block) : Set (List UInt8) :=
  {utf8 (b₁.preimage E), utf8 (b₂.preimage E), utf8 (E.stateJson c₁.state),
    utf8 (E.stateJson c₂.state), foldedText chain b₁, foldedText chain b₂}

/-- Accepted blocks of one hash have one header text, and one state after them. -/
theorem state_committed (h₁ : accept E now₁ chain b₁ = ok c₁) (h₂ : accept E now₂ chain b₂ = ok c₂)
    (hhash : b₁.hash = b₂.hash) (hfree : E.CollisionFree (committedTexts E chain c₁ c₂ b₁ b₂))
    (hjson : Set.InjOn E.stateJson {c₁.state, c₂.state}) :
    b₁.preimage E = b₂.preimage E ∧ c₁.state = c₂.state := by
  obtain ⟨hpow₁, hmerkle₁, hroot₁⟩ := accept_header h₁
  obtain ⟨hpow₂, hmerkle₂, hroot₂⟩ := accept_header h₂
  have htext : b₁.preimage E = b₂.preimage E :=
    Block.preimage_eq_of_hash hfree (by simp [committedTexts]) (by simp [committedTexts])
      (Block.hash_of_hasValidPow hpow₁) (Block.hash_of_hasValidPow hpow₂) hhash
  have hroots : b₁.stateRoot = b₂.stateRoot :=
    (Block.header_determined (Block.isDigestText_merkleRoot hmerkle₁)
      (by rw [← hroot₁]; exact isDigestText_sha256Hex E _)
      (Block.isDigestText_merkleRoot hmerkle₂)
      (by rw [← hroot₂]; exact isDigestText_sha256Hex E _) htext).2.2.1
  rw [← hroot₁, ← hroot₂] at hroots
  refine ⟨htext, hjson (by simp) (by simp) (sha256Hex_inj hfree ?_ ?_ hroots)⟩
  · simp [committedTexts]
  · simp [committedTexts]

/-- Accepted blocks of one hash carry one VRF output, up to its spelling. -/
theorem output_committed (hE : E.UniqueVrf) (h₁ : accept E now₁ chain b₁ = ok c₁)
    (h₂ : accept E now₂ chain b₂ = ok c₂) (htext : b₁.preimage E = b₂.preimage E) :
    ∃ output₁ output₂, b₁.vrfOutput = some output₁ ∧ b₂.vrfOutput = some output₂ ∧
      hexDecode output₁ = hexDecode output₂ := by
  obtain ⟨-, hmerkle₁, hroot₁⟩ := accept_header h₁
  obtain ⟨-, hmerkle₂, hroot₂⟩ := accept_header h₂
  obtain ⟨slot₁, output₁, proof₁, hi₁, hslot₁, ho₁, hv₁, -⟩ := accept_vrf h₁
  obtain ⟨slot₂, output₂, proof₂, hi₂, hslot₂, ho₂, hv₂, -⟩ := accept_vrf h₂
  obtain ⟨v₁, rounds₁, hb₁, hfind₁⟩ := slotOf_eq_some hslot₁
  obtain ⟨v₂, rounds₂, hb₂, hfind₂⟩ := slotOf_eq_some hslot₂
  have hvalidator : v₁ = v₂ :=
    Block.validator_determined (Block.isDigestText_merkleRoot hmerkle₁)
      (by rw [← hroot₁]; exact isDigestText_sha256Hex E _)
      (Block.isDigestText_merkleRoot hmerkle₂)
      (by rw [← hroot₂]; exact isDigestText_sha256Hex E _) htext hb₁ hb₂
  rw [hi₁, Option.some.injEq] at hi₂
  rw [← hvalidator, ← hi₂] at hfind₂
  have hslot : slot₁ = slot₂ := findSlot_unique hfind₁ hfind₂
  have hkey : chain.registeredVrfKey b₁ = chain.registeredVrfKey b₂ := by
    rw [registeredVrfKey, registeredVrfKey, hb₁, hb₂, hvalidator]
  rw [← hslot, ← hkey] at hv₂
  exact ⟨output₁, output₂, ho₁, ho₂, Vrf.output_unique hE hv₁ hv₂ rfl⟩

/-- Executing a block reads its index, its transactions and its state root. -/
theorem executeBlock_congr (b₁ b₂ : Block) {validator : String} {state : ChainState}
    (hindex : b₁.index = b₂.index) (htransactions : b₁.transactions = b₂.transactions)
    (hroot : b₁.stateRoot = b₂.stateRoot) :
    executeBlock E validator b₁ state = executeBlock E validator b₂ state := by
  rw [executeBlock, executeBlock, hindex, htransactions, hroot]

/-- The state after an accepted block is the result of executing it. -/
theorem accept_executes (h : accept E now chain block = ok chain') :
    ∃ validator, block.validator = some validator ∧
      executeBlock E validator block chain.state = ok chain'.state := by
  simp only [accept, commitBlock, Outcome.bind_eq_ok, pure_eq, ok.injEq] at h
  obtain ⟨post, hvalid, _, -, _, -, rfl⟩ := h
  obtain ⟨-, parent, index, -, -, hvalid⟩ := validateBlockCandidate_eq_ok.mp hvalid
  obtain ⟨validator, hvalidator, -, hexec⟩ := ChainState.validateBlockAt_ok hvalid
  exact ⟨validator, hvalidator, hexec⟩

end Blockchain

/-! ## A second spelling -/

namespace Sample

open Blockchain

/-- The same hexadecimal text in upper case. -/
def upperCase (text : String) : String :=
  String.ofList (text.toList.map fun c =>
    if 'a' ≤ c ∧ c ≤ 'f' then Char.ofNat (c.toNat - 32) else c)

/-- Holder 7's first block. -/
def spelled : Block := nextBlock [reward] (root [reward] 1000000000000000)

/-- The same block with its VRF output in upper case. -/
def respelled : Block := { spelled with vrfOutput := spelled.vrfOutput.map upperCase }

/-- Both are accepted, and the beacons after them differ. -/
theorem respelled_accepted :
    ((accept (node [reward]) morning (root [reward] 1000000000000000) respelled).returns fun c =>
      decide (c.randomness ≠ (chainOf [reward] 1000000000000000 1).randomness)) = true := by
  decide +kernel

/-- What the two blocks commit to. -/
def spelledTexts : List (List UInt8) :=
  [utf8 (spelled.preimage (env [reward])),
    utf8 (stateText (chainOf [reward] 1000000000000000 1).state),
    foldedText (root [reward] 1000000000000000) spelled,
    foldedText (root [reward] 1000000000000000) respelled]

theorem spelledTexts_nodup : (spelledTexts.map fun text => (digest text).bytes).Nodup := by
  decide +kernel

theorem spelledTexts_free {inputs : Set (List UInt8)} (h : ∀ x ∈ inputs, x ∈ spelledTexts) :
    (env [reward]).CollisionFree inputs := by
  intro x hx y hy hxy
  exact List.inj_on_of_nodup_map spelledTexts_nodup (h x hx) (h y hy) (congrArg Digest.bytes hxy)

/-- Both spellings are accepted; they leave one state and two beacons. -/
theorem respelled_pair :
    ∃ c₂, accept (node [reward]) morning (root [reward] 1000000000000000) spelled =
        ok (chainOf [reward] 1000000000000000 1) ∧
      accept (node [reward]) morning (root [reward] 1000000000000000) respelled = ok c₂ ∧
      (env [reward]).CollisionFree (committedTexts (env [reward]) (root [reward] 1000000000000000)
        (chainOf [reward] 1000000000000000 1) c₂ spelled respelled) ∧
      (chainOf [reward] 1000000000000000 1).state = c₂.state ∧
      (chainOf [reward] 1000000000000000 1).randomness ≠ c₂.randomness := by
  have haccept : accept (node [reward]) morning (root [reward] 1000000000000000) spelled =
      ok (chainOf [reward] 1000000000000000 1) :=
    accept_chainOf (by decide) (show 0 < 18 by decide) rfl
  obtain ⟨c₂, haccept₂, hne⟩ := exists_of_returns respelled_accepted
  have hstate : (chainOf [reward] 1000000000000000 1).state = c₂.state := by
    obtain ⟨v₁, hv₁, hexec₁⟩ := accept_executes haccept
    obtain ⟨v₂, hv₂, hexec₂⟩ := accept_executes haccept₂
    have hsame : v₁ = v₂ := Option.some.inj (hv₁.symm.trans hv₂)
    rw [← hsame, executeBlock_congr respelled spelled rfl rfl rfl, hexec₁, ok.injEq] at hexec₂
    exact hexec₂
  refine ⟨c₂, haccept, haccept₂, spelledTexts_free fun x hx => ?_, hstate,
    (of_decide_eq_true hne).symm⟩
  simp only [committedTexts, ← hstate, Set.mem_insert_iff, Set.mem_singleton_iff] at hx
  simp only [spelledTexts, List.mem_cons, List.not_mem_nil, or_false]
  rcases hx with rfl | rfl | rfl | rfl | rfl | rfl
  · exact Or.inl rfl
  · exact Or.inl rfl
  · exact Or.inr (Or.inl rfl)
  · exact Or.inr (Or.inl rfl)
  · exact Or.inr (Or.inr (Or.inl rfl))
  · exact Or.inr (Or.inr (Or.inr rfl))

end Sample

namespace Blockchain

/-! ## The hash and what follows -/

variable {E : Node} {chain c₁ c₂ : Blockchain} {b₁ b₂ : Block} {now₁ now₂ : DateTime}

/-- Accepted blocks of one hash leave one state and carry one VRF output; the beacon and the
leaders after them agree exactly when they also spell the output alike. -/
theorem hash_commits_iff (hE : E.UniqueVrf) (h₁ : accept E now₁ chain b₁ = ok c₁)
    (h₂ : accept E now₂ chain b₂ = ok c₂) (hhash : b₁.hash = b₂.hash)
    (hfree : E.CollisionFree (committedTexts E chain c₁ c₂ b₁ b₂))
    (hjson : Set.InjOn E.stateJson {c₁.state, c₂.state}) :
    c₁.state = c₂.state ∧
      (b₁.vrfOutput.bind hexDecode = b₂.vrfOutput.bind hexDecode) ∧
      ((c₁.randomness = c₂.randomness ∧
          ∀ index round, leaderAt E c₁ index round = leaderAt E c₂ index round) ↔
        b₁.vrfOutput = b₂.vrfOutput) := by
  obtain ⟨htext, hstate⟩ := state_committed h₁ h₂ hhash hfree hjson
  obtain ⟨output₁, output₂, ho₁, ho₂, hbytes⟩ := output_committed hE h₁ h₂ htext
  obtain ⟨-, o₁, -, -, -, ho₁', -, hr₁⟩ := accept_vrf h₁
  obtain ⟨-, o₂, -, -, -, ho₂', -, hr₂⟩ := accept_vrf h₂
  refine ⟨hstate, by rw [ho₁, ho₂]; exact hbytes, ?_, ?_⟩
  · rintro ⟨hsame, -⟩
    rw [hr₁, hr₂, Vrf.nextRandomness, Vrf.nextRandomness] at hsame
    have hfolded : foldedText chain b₁ = foldedText chain b₂ := by
      refine hfree (by simp [committedTexts]) (by simp [committedTexts]) (Digest.ext ?_)
      rw [foldedText, foldedText, ho₁', ho₂']
      exact hexEncode_injective hsame
    rw [foldedText, foldedText, ho₁', ho₂', List.append_cancel_left_eq] at hfolded
    have houtput : o₁ = o₂ := utf8_injective hfolded
    rw [ho₁', ho₂', houtput]
  · intro houtput
    have hsame : c₁.randomness = c₂.randomness := by
      rw [ho₁', ho₂', Option.some.injEq] at houtput
      rw [hr₁, hr₂, houtput]
    refine ⟨hsame, fun index round => ?_⟩
    rw [leaderAt, leaderAt, hsame, hstate]

/-- The two spellings of holder 7's first block leave one state and decode to one output. -/
theorem hash_commits_iff_sample :
    ∃ c₂, accept (Sample.node [Sample.reward]) Sample.morning
        (Sample.root [Sample.reward] 1000000000000000) Sample.respelled = ok c₂ ∧
      (Sample.chainOf [Sample.reward] 1000000000000000 1).state = c₂.state ∧
      Sample.spelled.vrfOutput.bind hexDecode = Sample.respelled.vrfOutput.bind hexDecode := by
  obtain ⟨c₂, haccept, haccept₂, hfree, hstate, -⟩ := Sample.respelled_pair
  have hjson : Set.InjOn (Sample.env [Sample.reward]).stateJson
      {(Sample.chainOf [Sample.reward] 1000000000000000 1).state, c₂.state} := by
    rw [hstate, Set.pair_eq_singleton]
    exact Set.injOn_singleton _ _
  have hcommits := hash_commits_iff (Sample.uniqueVrf [Sample.reward]) haccept haccept₂ rfl hfree
    hjson
  exact ⟨c₂, haccept₂, hcommits.1, hcommits.2.1⟩

/-- Two spellings of the VRF output give two accepted blocks of one hash with different
beacons after them. -/
theorem hash_leaves_spelling :
    ∃ c₁ c₂, (Sample.env [Sample.reward]).UniqueVrf ∧
      accept (Sample.node [Sample.reward]) Sample.morning
        (Sample.root [Sample.reward] 1000000000000000) Sample.spelled = ok c₁ ∧
      accept (Sample.node [Sample.reward]) Sample.morning
        (Sample.root [Sample.reward] 1000000000000000) Sample.respelled = ok c₂ ∧
      Sample.spelled.hash = Sample.respelled.hash ∧
      (Sample.env [Sample.reward]).CollisionFree
        (committedTexts (Sample.env [Sample.reward]) (Sample.root [Sample.reward] 1000000000000000)
          c₁ c₂ Sample.spelled Sample.respelled) ∧
      c₁.state = c₂.state ∧ c₁.randomness ≠ c₂.randomness := by
  obtain ⟨c₂, haccept, haccept₂, hfree, hstate, hne⟩ := Sample.respelled_pair
  exact ⟨_, c₂, Sample.uniqueVrf _, haccept, haccept₂, rfl, hfree, hstate, hne⟩

end Blockchain
