import BitcoinPqc.Foundation.HashChain
import BitcoinPqc.Foundation.MerkleTree
import BitcoinPqc.Sphincs.Hash

/-!
# The hypertree of one key

What a secret key determines, independently of any program that computes it. The
values of a key are the WOTS chain values of every keypair, the nodes of every
subtree and the nodes of every FORS tree, each a function of its position.

A `Role` is the position of one hash call. Its address and, for a key, its
query are functions of the role; the roles that occur in a bounded30 key are
`Role.Valid`, and among these the hashed address bytes determine the role. So
an honest key uses no address for two different inputs.
-/

namespace BitcoinPqc

/-- The positions at which the hash functions are called. A FORS index counts
on across the seven trees. -/
inductive Role where
  | wotsPrf (layer tree leaf chain : ℕ)
  | wotsStep (layer tree leaf chain step : ℕ)
  | wotsPk (layer tree leaf : ℕ)
  | treeNode (layer tree height index : ℕ)
  | forsPrf (tree leaf index : ℕ)
  | forsNode (tree leaf height index : ℕ)
  | forsPk (tree leaf : ℕ)
  deriving DecidableEq

namespace Role

/-- The fields of the address of a call: layer, tree, type, keypair, the byte of
the chain number and the tree height, and the index. -/
def fields : Role → ℕ × ℕ × ℕ × ℕ × ℕ × ℕ
  | wotsPrf layer tree leaf chain => (layer, tree, addrTypeWotsPrf, leaf, chain, 0)
  | wotsStep layer tree leaf chain step =>
      (layer, tree, addrTypeWots, leaf, chain, step)
  | wotsPk layer tree leaf => (layer, tree, addrTypeWotsPk, leaf, 0, 0)
  | treeNode layer tree height index =>
      (layer, tree, addrTypeHashTree, 0, height, index)
  | forsPrf tree leaf index => (0, tree, addrTypeForsPrf, leaf, 0, index)
  | forsNode tree leaf height index => (0, tree, addrTypeForsTree, leaf, height, index)
  | forsPk tree leaf => (0, tree, addrTypeForsPk, leaf, 0, 0)

theorem fields_injective : Function.Injective fields := by
  intro r r' h
  cases r <;> cases r' <;> simp_all [fields]

/-- The address buffer of a call. -/
def addr (r : Role) : Addr :=
  addrOf r.fields.1 r.fields.2.1 r.fields.2.2.1 r.fields.2.2.2.1 r.fields.2.2.2.2.1
    r.fields.2.2.2.2.2

/-- The positions of a bounded30 key. -/
def Valid : Role → Prop
  | wotsPrf layer tree leaf chain =>
      layer < spxD ∧ tree < 2 ^ 24 ∧ leaf < 2 ^ spxTreeHeight ∧ chain < spxWotsLen
  | wotsStep layer tree leaf chain step =>
      layer < spxD ∧ tree < 2 ^ 24 ∧ leaf < 2 ^ spxTreeHeight ∧
        chain < spxWotsLen ∧ step < spxWotsW - 1
  | wotsPk layer tree leaf =>
      layer < spxD ∧ tree < 2 ^ 24 ∧ leaf < 2 ^ spxTreeHeight
  | treeNode layer tree height index =>
      layer < spxD ∧ tree < 2 ^ 24 ∧ 1 ≤ height ∧ height ≤ spxTreeHeight ∧
        index < 2 ^ (spxTreeHeight - height)
  | forsPrf tree leaf index =>
      tree < 2 ^ 24 ∧ leaf < 2 ^ spxTreeHeight ∧
        index < spxForsSigTrees * 2 ^ spxForsHeight
  | forsNode tree leaf height index =>
      tree < 2 ^ 24 ∧ leaf < 2 ^ spxTreeHeight ∧ height ≤ spxForsHeight ∧
        index < spxForsSigTrees * 2 ^ (spxForsHeight - height)
  | forsPk tree leaf => tree < 2 ^ 24 ∧ leaf < 2 ^ spxTreeHeight

theorem fields_lt {r : Role} (hr : r.Valid) :
    r.fields.1 < 256 ∧ r.fields.2.1 < 256 ^ 8 ∧ r.fields.2.2.1 < 256 ∧
      r.fields.2.2.2.1 < 2 ^ 32 ∧ r.fields.2.2.2.2.1 < 256 ∧
      r.fields.2.2.2.2.2 < 2 ^ 32 := by
  have hpow (a b : ℕ) : 2 ^ (a - b) ≤ 2 ^ a :=
    Nat.pow_le_pow_right (by decide) (Nat.sub_le a b)
  cases r with
  | treeNode layer tree height index =>
      have hle := hpow 6 height
      simp only [Valid, spxD, spxTreeHeight, spxFullHeight, Nat.reduceDiv] at hr
      simp only [fields, addrTypeHashTree]
      omega
  | forsNode tree leaf height index =>
      have hle := hpow 16 height
      simp only [Valid, spxD, spxTreeHeight, spxFullHeight, spxForsSigTrees,
        spxForsTrees, spxForsHeight, Nat.reduceDiv, Nat.reduceSub] at hr
      simp only [fields, addrTypeForsTree]
      omega
  | _ =>
      simp only [Valid, spxD, spxTreeHeight, spxFullHeight, spxForsSigTrees,
        spxForsTrees, spxForsHeight, spxWotsLen, spxWotsLen1, spxN, spxWotsLogw,
        spxWotsW, Nat.reduceDiv, Nat.reduceSub, Nat.reduceMul] at hr
      simp only [fields, addrTypeWotsPrf, addrTypeWots, addrTypeWotsPk,
        addrTypeForsPrf, addrTypeForsPk]
      omega

/-- Among valid positions the hashed address bytes determine the position. -/
theorem eq_of_adrs_eq {r r' : Role} (hr : r.Valid) (hr' : r'.Valid)
    (h : adrs r.addr = adrs r'.addr) : r = r' := by
  obtain ⟨hlayer, htree, htype, hkeypair, hheight, hindex⟩ := fields_lt hr
  obtain ⟨hlayer', htree', htype', hkeypair', hheight', hindex'⟩ := fields_lt hr'
  have hfields := adrs_addrOf_injective hlayer hlayer' htree htree' htype htype'
    hkeypair hkeypair' hheight hheight' hindex hindex' h
  apply fields_injective
  simp only [Prod.ext_iff]
  exact hfields

end Role

/-!
## The values of a key
-/

section Values

variable (H : HashFns) (st : Vector UInt8 40)

/-- The tweakable hash at a position. -/
def Role.hash (r : Role) (input : List Block) : Block := H.thash st (adrs r.addr) input

/-- Step `k` of chain `i`. -/
def wotsStep (layer tree leaf i k : ℕ) (x : Block) : Block :=
  (Role.wotsStep layer tree leaf i k).hash H st [x]

/-- The hash of two children to the node at height `h` and index `i`. -/
def treeHash (layer tree h i : ℕ) (left right : Block) : Block :=
  (Role.treeNode layer tree h i).hash H st [left, right]

/-- `treeHash` in the FORS trees. -/
def forsHash (tree leaf h i : ℕ) (left right : Block) : Block :=
  (Role.forsNode tree leaf h i).hash H st [left, right]

variable (ctx : SpxCtx)

/-- The start of WOTS chain `i`. -/
def wotsSk (layer tree leaf i : ℕ) : Block :=
  H.prfAddr ctx.stateSeeded (adrs (Role.wotsPrf layer tree leaf i).addr) ctx.skSeed

/-- Position `k` of WOTS chain `i`. -/
def wotsValue (layer tree leaf i k : ℕ) : Block :=
  chain (wotsStep H ctx.stateSeeded layer tree leaf i) 0 k
    (wotsSk H ctx layer tree leaf i)

/-- The WOTS public key of a keypair. -/
def wotsPk (layer tree leaf : ℕ) : Block :=
  (Role.wotsPk layer tree leaf).hash H ctx.stateSeeded
    ((List.range spxWotsLen).map fun i =>
      wotsValue H ctx layer tree leaf i (spxWotsW - 1))

/-- The node at height `h` and index `i` of a subtree. -/
def treeNode (layer tree h i : ℕ) : Block :=
  Merkle.node (wotsPk H ctx layer tree) (treeHash H ctx.stateSeeded layer tree) h i

/-- The root of a subtree. -/
def treeRoot (layer tree : ℕ) : Block := treeNode H ctx layer tree spxTreeHeight 0

/-- The secret value of FORS leaf `index`. -/
def forsSk (tree leaf index : ℕ) : Block :=
  H.prfAddr ctx.stateSeeded (adrs (Role.forsPrf tree leaf index).addr) ctx.skSeed

/-- FORS leaf `index`. -/
def forsLeaf (tree leaf index : ℕ) : Block :=
  (Role.forsNode tree leaf 0 index).hash H ctx.stateSeeded
    [forsSk H ctx tree leaf index]

/-- The node at height `h` and index `i` of the FORS trees. -/
def forsNode (tree leaf h i : ℕ) : Block :=
  Merkle.node (forsLeaf H ctx tree leaf) (forsHash H ctx.stateSeeded tree leaf) h i

/-- The FORS public key of a keypair. -/
def forsPk (tree leaf : ℕ) : Block :=
  (Role.forsPk tree leaf).hash H ctx.stateSeeded
    ((List.range spxForsSigTrees).map fun t =>
      forsNode H ctx tree leaf spxForsHeight t)

/-- The hash call at a position. -/
def queryAt : Role → Query
  | .wotsPrf layer tree leaf chain =>
      .prfAddr (adrs (Role.wotsPrf layer tree leaf chain).addr) ctx.skSeed
        (wotsSk H ctx layer tree leaf chain)
  | .wotsStep layer tree leaf chain step =>
      .thash (adrs (Role.wotsStep layer tree leaf chain step).addr)
        [wotsValue H ctx layer tree leaf chain step]
        (wotsValue H ctx layer tree leaf chain (step + 1))
  | .wotsPk layer tree leaf =>
      .thash (adrs (Role.wotsPk layer tree leaf).addr)
        ((List.range spxWotsLen).map fun i =>
          wotsValue H ctx layer tree leaf i (spxWotsW - 1))
        (wotsPk H ctx layer tree leaf)
  | .treeNode layer tree height index =>
      .thash (adrs (Role.treeNode layer tree height index).addr)
        [treeNode H ctx layer tree (height - 1) (2 * index),
          treeNode H ctx layer tree (height - 1) (2 * index + 1)]
        (treeNode H ctx layer tree height index)
  | .forsPrf tree leaf index =>
      .prfAddr (adrs (Role.forsPrf tree leaf index).addr) ctx.skSeed
        (forsSk H ctx tree leaf index)
  | .forsNode tree leaf 0 index =>
      .thash (adrs (Role.forsNode tree leaf 0 index).addr)
        [forsSk H ctx tree leaf index] (forsNode H ctx tree leaf 0 index)
  | .forsNode tree leaf (height + 1) index =>
      .thash (adrs (Role.forsNode tree leaf (height + 1) index).addr)
        [forsNode H ctx tree leaf height (2 * index),
          forsNode H ctx tree leaf height (2 * index + 1)]
        (forsNode H ctx tree leaf (height + 1) index)
  | .forsPk tree leaf =>
      .thash (adrs (Role.forsPk tree leaf).addr)
        ((List.range spxForsSigTrees).map fun t =>
          forsNode H ctx tree leaf spxForsHeight t)
        (forsPk H ctx tree leaf)

/-- A call that an honest run of the key may make. -/
def HonestQuery (q : Query) : Prop := ∃ r : Role, r.Valid ∧ q = queryAt H ctx r

end Values

/-!
## Positions of a signature

The keypair of layer `l + 1` that signs the root of the subtree used at layer `l`
is read off the index of that subtree.
-/

/-- Tree and leaf index at a layer, from those at layer `0`. -/
def layerPos (tree leaf : ℕ) : ℕ → ℕ × ℕ
  | 0 => (tree, leaf)
  | l + 1 => ((layerPos tree leaf l).1 >>> spxTreeHeight,
      (layerPos tree leaf l).1 &&& (2 ^ spxTreeHeight - 1))

/-- The value that is signed at a layer. -/
def signedValue (H : HashFns) (ctx : SpxCtx) (tree leaf : ℕ) : ℕ → Block
  | 0 => forsPk H ctx tree leaf
  | l + 1 => treeRoot H ctx l (layerPos tree leaf l).1

theorem layerPos_fst_lt {tree : ℕ} (leaf : ℕ) (h : tree < 2 ^ 24) (l : ℕ) :
    (layerPos tree leaf l).1 < 2 ^ 24 := by
  induction l with
  | zero => exact h
  | succ l ih =>
      refine Nat.lt_of_le_of_lt ?_ ih
      exact Nat.shiftRight_le _ _

theorem layerPos_snd_lt {leaf : ℕ} (tree : ℕ) (h : leaf < 2 ^ 6) (l : ℕ) :
    (layerPos tree leaf l).2 < 2 ^ 6 := by
  cases l with
  | zero => exact h
  | succ l =>
      have hmask (x : ℕ) : x &&& (2 ^ 6 - 1) = x % 2 ^ 6 :=
        Nat.and_two_pow_sub_one_eq_mod x 6
      change _ &&& (2 ^ 6 - 1) < 2 ^ 6
      rw [hmask]
      exact Nat.mod_lt _ (by decide)

theorem layerPos_fst (tree leaf l : ℕ) :
    (layerPos tree leaf l).1 = tree >>> (spxTreeHeight * l) := by
  induction l with
  | zero => rfl
  | succ l ih => rw [layerPos, ih, ← Nat.shiftRight_add, Nat.mul_succ]

theorem layerPos_fst_top {tree : ℕ} (leaf : ℕ) (h : tree < 2 ^ 24) :
    (layerPos tree leaf (spxD - 1)).1 = 0 := by
  rw [layerPos_fst]
  exact Nat.shiftRight_eq_zero tree 24 h

/-- Equal positions at a layer are equal positions at every higher layer. -/
theorem layerPos_eq_of_le {tree leaf tree' leaf' l : ℕ}
    (h : layerPos tree leaf l = layerPos tree' leaf' l) (k : ℕ) :
    layerPos tree leaf (l + k) = layerPos tree' leaf' (l + k) := by
  induction k with
  | zero => exact h
  | succ k ih =>
      have hfst := congrArg Prod.fst ih
      rw [← Nat.add_assoc, layerPos, layerPos, hfst]

theorem layerPos_fst_of_succ (tree leaf l : ℕ) :
    (layerPos tree leaf l).1 =
      (layerPos tree leaf (l + 1)).1 * 2 ^ spxTreeHeight +
        (layerPos tree leaf (l + 1)).2 := by
  have hmask (x : ℕ) : x &&& (2 ^ 6 - 1) = x % 2 ^ 6 := Nat.and_two_pow_sub_one_eq_mod x 6
  change _ = (layerPos tree leaf l).1 >>> 6 * 2 ^ 6 +
    ((layerPos tree leaf l).1 &&& (2 ^ 6 - 1))
  rw [hmask, Nat.shiftRight_eq_div_pow, Nat.mul_comm, Nat.div_add_mod]

/-- The position of a keypair determines the value that it signs. -/
theorem signedValue_eq_of_layerPos_eq (H : HashFns) (ctx : SpxCtx)
    {tree leaf tree' leaf' l : ℕ} (h : layerPos tree leaf l = layerPos tree' leaf' l) :
    signedValue H ctx tree leaf l = signedValue H ctx tree' leaf' l := by
  cases l with
  | zero =>
      obtain ⟨htree, hleaf⟩ := Prod.mk.inj h
      rw [signedValue, signedValue, htree, hleaf]
  | succ l => rw [signedValue, signedValue, layerPos_fst_of_succ, h, ← layerPos_fst_of_succ]

end BitcoinPqc
