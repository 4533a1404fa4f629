/-
# What a Merkle root binds

The root is the top of a hash tree over the payloads: leaves and inner nodes are hashed by one
function, without a mark that tells them apart, and an odd last node is paired with itself.
Two payload lists therefore share a root without a collision when one list, padded with its odd
last nodes, is a level of the padded tree of the other.  These are the only pairs.
-/
import Mathlib.Tactic
import Hikmalayer.Foundations.PairTree
import Hikmalayer.Model.Sample
import Hikmalayer.Consensus.Header

open PairTree

/-! ## The root as the top of a tree -/

/-- The texts that the leaves hash; an empty list hashes one empty text. -/
def leafTexts (transactions : List String) : List String :=
  if transactions = [] then [""] else transactions

theorem leafTexts_ne_nil (transactions : List String) : leafTexts transactions ≠ [] := by
  unfold leafTexts
  split
  · exact List.cons_ne_nil _ _
  · assumption

/-- The texts hashed one layer up: digests of neighbours, joined. -/
def nextTexts (E : Env) : List String → List String := next (sha256Hex E) (· ++ ·)

/-- A layer holds the digests of the texts that pairing gives. -/
theorem merkleLayer_eq (E : Env) (layer : List String) :
    merkleLayer E layer = (pairUp (· ++ ·) layer).map (sha256Hex E) := by
  induction layer using merkleLayer.induct with
  | case1 => rfl
  | case2 left => rfl
  | case3 left right rest ih => rw [merkleLayer, ih, pairUp, List.map_cons]

/-- The fold over the digests of some texts ends in the digest of the last text. -/
theorem merkleFold_eq (E : Env) (layer : List String) :
    ∀ texts t, layer = texts.map (sha256Hex E) →
      (nextTexts E)^[depth texts.length] texts = [t] → merkleFold E layer = sha256Hex E t := by
  induction layer using merkleFold.induct E with
  | case1 =>
    intro texts t hlayer ht
    rw [List.map_eq_nil_iff.mp hlayer.symm] at ht
    cases ht
  | case2 root =>
    intro texts t hlayer ht
    obtain ⟨x, rfl, rfl⟩ := List.map_eq_singleton_iff.mp hlayer.symm
    rw [List.length_singleton, depth_of_le le_rfl] at ht
    rw [merkleFold, List.singleton_inj.mp ht]
  | case3 left right rest ih =>
    intro texts t hlayer ht
    have hlen := congrArg List.length hlayer
    rw [List.length_map, List.length_cons, List.length_cons] at hlen
    rw [merkleFold]
    refine ih (nextTexts E texts) t ?_ ?_
    · rw [merkleLayer_eq, hlayer]
      rfl
    · rw [depth_half (by omega), Function.iterate_succ_apply] at ht
      rw [nextTexts, length_next]
      exact ht

/-- The root is the digest of the text in which the levels end. -/
theorem exists_computeMerkleRoot (E : Env) (transactions : List String) :
    ∃ t, (nextTexts E)^[depth (leafTexts transactions).length] (leafTexts transactions) = [t] ∧
      computeMerkleRoot E transactions = sha256Hex E t := by
  obtain ⟨t, ht⟩ := exists_top (sha256Hex E) (· ++ ·) (leafTexts_ne_nil transactions)
  refine ⟨t, ht, ?_⟩
  unfold computeMerkleRoot
  by_cases h : transactions = []
  · subst h
    rw [if_pos rfl, List.singleton_inj.mp ht]
  · rw [if_neg h]
    have hleaves : leafTexts transactions = transactions := if_neg h
    rw [hleaves] at ht
    exact merkleFold_eq E _ _ t rfl ht

/-- Digests are of one length, so joined digests come apart. -/
theorem sha256Hex_append_inj {E : Env} {x y x' y' : String}
    (h : sha256Hex E x ++ sha256Hex E y = sha256Hex E x' ++ sha256Hex E y') :
    sha256Hex E x = sha256Hex E x' ∧ sha256Hex E y = sha256Hex E y' := by
  have hchars := congrArg String.toList h
  rw [String.toList_append, String.toList_append] at hchars
  have hlen := (isDigestText_sha256Hex E x).1.trans (isDigestText_sha256Hex E x').1.symm
  obtain ⟨hleft, hright⟩ := List.append_inj hchars hlen
  exact ⟨String.toList_inj.mp hleft, String.toList_inj.mp hright⟩

/-! ## Lists with one root -/

/-- The texts hashed on the way to a root. -/
def merkleTexts (E : Env) (transactions : List String) : Set (List UInt8) :=
  {x | ∃ text ∈ levels (sha256Hex E) (· ++ ·) (leafTexts transactions), x = utf8 text}

/-- The first list, padded, is a level of the tree of the second one, padded. -/
def IsLayerOf (E : Env) (a b : List String) : Prop :=
  Below (sha256Hex E) (· ++ ·) (leafTexts a) (leafTexts b)

/-- Different lists, one of them a level of the tree of the other. -/
def Confusable (E : Env) (a b : List String) : Prop :=
  a ≠ b ∧ (IsLayerOf E a b ∨ IsLayerOf E b a)

variable {E : Env} {a b : List String}

/-- A list and a level of its tree have one root. -/
theorem root_eq_of_isLayerOf (h : IsLayerOf E a b) :
    computeMerkleRoot E a = computeMerkleRoot E b := by
  obtain ⟨s, hs, hroot⟩ := exists_computeMerkleRoot E a
  obtain ⟨t, ht, hroot'⟩ := exists_computeMerkleRoot E b
  rw [hroot, hroot', top_eq_of_below hs ht h]

/-- Lists have one root exactly when one is a level of the tree of the other. -/
theorem root_eq_iff (hfree : E.CollisionFree (merkleTexts E a ∪ merkleTexts E b)) :
    computeMerkleRoot E a = computeMerkleRoot E b ↔ IsLayerOf E a b ∨ IsLayerOf E b a := by
  constructor
  · intro h
    obtain ⟨s, hs, hroot⟩ := exists_computeMerkleRoot E a
    obtain ⟨t, ht, hroot'⟩ := exists_computeMerkleRoot E b
    have htop : ∀ {l : List String} {u : String}, (nextTexts E)^[depth l.length] l = [u] →
        u ∈ levels (sha256Hex E) (· ++ ·) l := by
      intro l u hu
      refine (mem_levels _ _).mpr ⟨_, le_rfl, ?_⟩
      change u ∈ (nextTexts E)^[depth l.length] l
      rw [hu]
      exact List.mem_singleton_self u
    rw [hroot, hroot'] at h
    have hst := sha256Hex_inj hfree (Or.inl ⟨s, htop hs, rfl⟩) (Or.inr ⟨t, htop ht, rfl⟩) h
    refine (top_eq_iff (A := {x | utf8 x ∈ merkleTexts E a ∪ merkleTexts E b}) ?_ ?_ ?_ hs ht).mp hst
    · rintro x (hx | hx)
      · exact Or.inl ⟨x, hx, rfl⟩
      · exact Or.inr ⟨x, hx, rfl⟩
    · exact fun x hx y hy hxy => sha256Hex_inj hfree hx hy hxy
    · exact fun x y x' y' => sha256Hex_append_inj
  · rintro (h | h)
    · exact root_eq_of_isLayerOf h
    · exact (root_eq_of_isLayerOf h).symm

/-! ## Lists that are told apart -/

theorem leafTexts_inj (hlen : a.length = b.length) (h : leafTexts a = leafTexts b) : a = b := by
  rcases eq_or_ne a [] with rfl | ha
  · exact (List.length_eq_zero_iff.mp hlen.symm).symm
  · have hb : b ≠ [] := by
      rintro rfl
      exact ha (List.length_eq_zero_iff.mp hlen)
    rwa [leafTexts, if_neg ha, leafTexts, if_neg hb] at h

theorem length_leafTexts (hlen : a.length = b.length) :
    (leafTexts a).length = (leafTexts b).length := by
  rcases eq_or_ne a [] with rfl | ha
  · rw [List.length_eq_zero_iff.mp hlen.symm]
  · have hb : b ≠ [] := by
      rintro rfl
      exact ha (List.length_eq_zero_iff.mp hlen)
    rw [leafTexts, if_neg ha, leafTexts, if_neg hb, hlen]

/-- Of two lists of one length, neither is a level of the tree of the other. -/
theorem IsLayerOf.eq_of_length (h : IsLayerOf E a b) (hlen : a.length = b.length) : a = b := by
  obtain ⟨k, hk, hpad⟩ := h
  obtain ⟨s, hs, -⟩ := exists_computeMerkleRoot E a
  obtain ⟨t, ht⟩ := exists_top (sha256Hex E) (· ++ ·)
    (iterate_next_ne_nil (sha256Hex E) (· ++ ·) (leafTexts_ne_nil b) k)
  have hpow := congrArg List.length hpad
  rw [length_padded hs, length_padded ht, depth_iterate_next, length_leafTexts hlen] at hpow
  have hdepth := Nat.pow_right_injective le_rfl hpow
  -- the lists are equally deep, so the level is the leaves
  obtain rfl : k = 0 := by omega
  exact leafTexts_inj hlen (padded_inj (length_leafTexts hlen) hpad)

/-- A root binds the transactions of a list of known length. -/
theorem root_binds_of_length (hfree : E.CollisionFree (merkleTexts E a ∪ merkleTexts E b))
    (hlen : a.length = b.length) (h : computeMerkleRoot E a = computeMerkleRoot E b) : a = b := by
  rcases (root_eq_iff hfree).mp h with h | h
  · exact h.eq_of_length hlen
  · exact (h.eq_of_length hlen.symm).symm

/-- A text that is not a joined pair of digests. -/
def NoPair (text : String) : Prop := text.toList.length ≠ 128

theorem length_of_mem_nextTexts {texts : List String} {x : String}
    (h : x ∈ nextTexts E texts) : x.toList.length = 128 := by
  have hpair : ∀ digests : List String, (∀ d ∈ digests, IsDigestText d) →
      ∀ x ∈ pairUp (· ++ ·) digests, x.toList.length = 128 := by
    intro digests
    induction digests using pairUp.induct with
    | case1 =>
      intro _ x hx
      cases hx
    | case2 d =>
      intro hd x hx
      rw [pairUp, List.mem_singleton] at hx
      rw [hx, String.toList_append, List.length_append, (hd d List.mem_cons_self).1]
    | case3 d d' rest ih =>
      intro hd x hx
      rcases List.mem_cons.mp hx with rfl | hx
      · rw [String.toList_append, List.length_append, (hd d List.mem_cons_self).1,
          (hd d' (List.mem_cons_of_mem _ List.mem_cons_self)).1]
      · exact ih (fun d hmem => hd d (List.mem_cons_of_mem _ (List.mem_cons_of_mem _ hmem))) x hx
  refine hpair _ ?_ x h
  intro d hd
  obtain ⟨text, -, rfl⟩ := List.mem_map.mp hd
  exact isDigestText_sha256Hex E text

/-- Only the leaves of a tree can be a list without joined digests. -/
theorem IsLayerOf.padded_eq (h : IsLayerOf E a b) (ha : ∀ text ∈ leafTexts a, NoPair text) :
    padded (leafTexts a) = padded (leafTexts b) := by
  obtain ⟨k, hk, hpad⟩ := h
  cases k with
  | zero => exact hpad
  | succ k =>
    obtain ⟨x, hx⟩ := List.exists_mem_of_ne_nil _ (leafTexts_ne_nil a)
    have hlevel : x ∈ (nextTexts E)^[k + 1] (leafTexts b) := by
      refine mem_of_mem_padded ?_
      change x ∈ padded ((next (sha256Hex E) (· ++ ·))^[k + 1] (leafTexts b))
      rw [← hpad]
      exact (prefix_padded _).mem hx
    rw [Function.iterate_succ_apply'] at hlevel
    exact absurd (length_of_mem_nextTexts hlevel) (ha x hx)

/-- Lists without joined digests have one root exactly when they are padded to one list. -/
theorem root_eq_iff_padded (hfree : E.CollisionFree (merkleTexts E a ∪ merkleTexts E b))
    (ha : ∀ text ∈ leafTexts a, NoPair text) (hb : ∀ text ∈ leafTexts b, NoPair text) :
    computeMerkleRoot E a = computeMerkleRoot E b ↔
      padded (leafTexts a) = padded (leafTexts b) := by
  rw [root_eq_iff hfree]
  constructor
  · rintro (h | h)
    · exact h.padded_eq ha
    · exact (h.padded_eq hb).symm
  · exact fun h => Or.inl ⟨0, Nat.zero_le _, h⟩

/-! ## What a root and a block bind -/

/-- Without a collision, a root and the blocks that carry it bind the transactions of two lists
exactly when the lists are not confusable. -/
theorem merkle_binds_iff (hfree : E.CollisionFree (merkleTexts E a ∪ merkleTexts E b)) :
    ((computeMerkleRoot E a = computeMerkleRoot E b → a = b) ∧
      ∀ x y : Block, x.transactions = a → y.transactions = b →
        x.hasValidMerkleRoot E = true → y.hasValidMerkleRoot E = true →
        x.merkleRoot = y.merkleRoot → x.transactions = y.transactions) ↔
      ¬ Confusable E a b := by
  constructor
  · rintro ⟨hbinds, -⟩ ⟨hne, hlayer⟩
    exact hne (hbinds ((root_eq_iff hfree).mpr hlayer))
  · intro hnot
    have hbinds : computeMerkleRoot E a = computeMerkleRoot E b → a = b := by
      intro hroot
      by_contra hne
      exact hnot ⟨hne, (root_eq_iff hfree).mp hroot⟩
    refine ⟨hbinds, ?_⟩
    rintro x y rfl rfl hx hy hroot
    rw [of_decide_eq_true hx, of_decide_eq_true hy] at hroot
    exact hbinds hroot

/-! ## Lists of toy payloads -/

namespace Sample

/-- The texts of some levels do not collide when their digests differ. -/
theorem merkleTexts_free {l : List String} {a b : List String}
    (ha : ∀ x ∈ levels (sha256Hex (env [])) (· ++ ·) (leafTexts a), x ∈ l)
    (hb : ∀ x ∈ levels (sha256Hex (env [])) (· ++ ·) (leafTexts b), x ∈ l)
    (hl : (l.map fun text => (digest (utf8 text)).bytes).Nodup) :
    (env []).CollisionFree (merkleTexts (env []) a ∪ merkleTexts (env []) b) := by
  have hmem : ∀ x ∈ merkleTexts (env []) a ∪ merkleTexts (env []) b, ∃ t ∈ l, x = utf8 t := by
    rintro x (⟨t, ht, rfl⟩ | ⟨t, ht, rfl⟩)
    · exact ⟨t, ha t ht, rfl⟩
    · exact ⟨t, hb t ht, rfl⟩
  intro x hx y hy hxy
  obtain ⟨t, ht, rfl⟩ := hmem x hx
  obtain ⟨u, hu, rfl⟩ := hmem y hy
  rw [List.inj_on_of_nodup_map hl ht hu (congrArg Digest.bytes hxy)]

/-- Two lists of one payload are told apart. -/
theorem merkle_binds_iff_single :
    ((computeMerkleRoot (env []) ["x"] = computeMerkleRoot (env []) ["y"] → ["x"] = ["y"]) ∧
      ∀ x y : Block, x.transactions = ["x"] → y.transactions = ["y"] →
        x.hasValidMerkleRoot (env []) = true → y.hasValidMerkleRoot (env []) = true →
        x.merkleRoot = y.merkleRoot → x.transactions = y.transactions) ↔
      ¬ Confusable (env []) ["x"] ["y"] :=
  merkle_binds_iff (merkleTexts_free (l := ["x", "y"]) (by decide +kernel) (by decide +kernel)
    (by decide +kernel))

/-- A copy of the third of three payloads leaves the root as it is. -/
theorem copied_payload_same_root :
    (env []).CollisionFree (merkleTexts (env []) ["a", "b", "c"] ∪
        merkleTexts (env []) ["a", "b", "c", "c"]) ∧
      computeMerkleRoot (env []) ["a", "b", "c"] =
        computeMerkleRoot (env []) ["a", "b", "c", "c"] ∧
      ["a", "b", "c"] ≠ ["a", "b", "c", "c"] := by
  refine ⟨?_, root_eq_of_isLayerOf ⟨0, Nat.zero_le _, by decide +kernel⟩, by decide⟩
  exact merkleTexts_free (l := levels (sha256Hex (env [])) (· ++ ·) ["a", "b", "c"])
    (by decide +kernel) (by decide +kernel) (by decide +kernel)

end Sample
