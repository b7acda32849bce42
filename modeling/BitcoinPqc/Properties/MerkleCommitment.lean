import BitcoinPqc.Properties.Extraction
import BitcoinPqc.Properties.SignVerify
import BitcoinPqc.Properties.TreeShapes

/-!
# A root commits to the leaves of its tree

`treehashx1` makes a root and an authentication path, and `compute_root` recomputes the
root from one leaf and its path. The two agree for every tree, and no other leaf or path
gives the root unless two inputs of a tweakable hash collide.

The nodes of one tree are read as part of the row of all trees with the same address: the
tree with number `t` is the node `t` at the height of its root.
-/

namespace BitcoinPqc

open Merkle

/-- The leaves of one tree at their places in the row. -/
def rowOf (leaf : ℕ → Block) (offset i : ℕ) : Block := leaf (i - offset)

@[simp] theorem rowOf_add (leaf : ℕ → Block) (offset i : ℕ) :
    rowOf leaf offset (i + offset) = leaf i := by
  rw [rowOf, Nat.add_sub_cancel]

variable {H : HashFns} {ctx : SpxCtx} {layer tree type keypair treeHeight t : ℕ}

theorem shapeNode_eq_node {treeAddr : Addr}
    (haddr : WalkAddr layer tree type keypair treeAddr) (leaf : ℕ → Block) {h : ℕ}
    (hh : h ≤ treeHeight) (j : ℕ) :
    shapeNode H ctx treeAddr (t * 2 ^ treeHeight) leaf h j =
      node (rowOf leaf (t * 2 ^ treeHeight))
        (nodeHash H ctx.stateSeeded layer tree type keypair) h
        (j + t * 2 ^ (treeHeight - h)) := by
  induction h generalizing j with
  | zero => exact (rowOf_add leaf _ j).symm
  | succ h ih =>
      have hexp : 2 ^ (treeHeight - h) = 2 * 2 ^ (treeHeight - (h + 1)) := by
        rw [← Nat.pow_succ']
        congr 1
        omega
      have hchild : 2 * (j + t * 2 ^ (treeHeight - (h + 1))) =
          2 * j + t * 2 ^ (treeHeight - h) := by
        rw [hexp, Nat.mul_add, Nat.mul_left_comm]
      rw [shapeNode] at ih ⊢
      rw [node_succ, node_succ, ih (Nat.le_of_succ_le hh), ih (Nat.le_of_succ_le hh), hchild,
        shiftRight_mul_two_pow t hh, haddr.treeAddr, nodeAddr_addrOf,
        Nat.add_right_comm (2 * j) 1]
      rfl

variable {leafIdx authPath n : ℕ} {leaf : ℕ → Block} {treeAddr : Addr}

/-- With the path of the tree the climb of the verifier ends at the root. -/
theorem climb_of_pathOk (haddr : WalkAddr layer tree type keypair treeAddr)
    (hleaf : leafIdx < 2 ^ treeHeight) {mem : Vector UInt8 n}
    (hpath : PathOk (shapeNode H ctx treeAddr (t * 2 ^ treeHeight) leaf) treeHeight leafIdx
      authPath treeHeight mem) :
    climb (nodeHash H ctx.stateSeeded layer tree type keypair) (leafIdx + t * 2 ^ treeHeight)
        (pathEntry mem authPath) treeHeight (leaf leafIdx) =
      shapeNode H ctx treeAddr (t * 2 ^ treeHeight) leaf treeHeight 0 := by
  have hsiblings (k : ℕ) (hk : k < treeHeight) :
      pathEntry mem authPath k = node (rowOf leaf (t * 2 ^ treeHeight))
        (nodeHash H ctx.stateSeeded layer tree type keypair) k
        (((leafIdx + t * 2 ^ treeHeight) >>> k) ^^^ 1) := by
    rw [pathEntry, hpath hleaf k hk, shapeNode_eq_node haddr leaf hk.le, siblingIdx,
      shiftRight_add_mul_two_pow leafIdx t hk.le, shiftRight_mul_two_pow t hk.le,
      xor_one_add_two_pow _ _ hk]
  have htop : (leafIdx + t * 2 ^ treeHeight) >>> treeHeight =
      0 + t * 2 ^ (treeHeight - treeHeight) := by
    rw [shiftRight_add_mul_two_pow leafIdx t le_rfl, shiftRight_mul_two_pow t le_rfl,
      Nat.shiftRight_eq_zero leafIdx treeHeight hleaf]
  have hclimb := climb_node _ _ _ _ _ hsiblings
  rwa [rowOf_add, htop, ← shapeNode_eq_node haddr leaf le_rfl] at hclimb

/-- The root that `treehashx1` returns commits to every leaf of its tree. `compute_root`
returns the root for the leaf and the path that was written, and for no other leaf or path,
unless the two runs of `compute_root` show a collision of a tweakable hash. -/
theorem treehashx1_commits {ι : Type} (H : HashFns) (ctx : SpxCtx)
    (genLeaf : ℕ → ι → Traced Query (Block × ι)) (layer tree type keypair t : ℕ)
    {treeHeight leafIdx authPath n : ℕ} (hpos : 0 < treeHeight)
    (hleaf : leafIdx < 2 ^ treeHeight) (hbound : authPath + treeHeight * spxN ≤ n)
    (stack : ℕ → Block) {treeAddr addr : Addr}
    (hwalk : WalkAddr layer tree type keypair treeAddr)
    (haddr : WalkAddr layer tree type keypair addr) (info : ι) (mem : Vector UInt8 n) :
    let built := (treehashx1 H ctx (besidePath genLeaf) leafIdx (t * 2 ^ treeHeight) treeHeight
      authPath stack treeAddr info mem).val
    let leaf := genLeaves genLeaf (fun i => i + t * 2 ^ treeHeight) info leafIdx
    let honest := computeRoot H leaf leafIdx (t * 2 ^ treeHeight) built.2.2.2 authPath
      treeHeight ctx addr
    honest.val.1 = built.1 ∧
      ∀ (n' : ℕ) (leaf' : Block) (sig : Vector UInt8 n') (authPath' : ℕ),
        let other := computeRoot H leaf' leafIdx (t * 2 ^ treeHeight) sig authPath' treeHeight
          ctx addr
        other.val.1 = built.1 →
          (leaf' = leaf ∧ ∀ k < treeHeight,
            pathEntry sig authPath' k = pathEntry built.2.2.2 authPath k) ∨
          Collision other.log honest.log := by
  intro built leaf honest
  obtain ⟨hroot, _, _, hpath⟩ := treehashx1_shape H ctx genLeaf leafIdx (t * 2 ^ treeHeight)
    hbound stack treeAddr info mem (fun _ => True) (fun _ _ _ _ _ => trivial) trivial
  have hclimb := climb_of_pathOk hwalk hleaf hpath
  obtain ⟨hval, _, hlog⟩ :=
    computeRoot_spec H built.2.2.2 ctx leafIdx t authPath leaf hpos haddr
  have hhonest : honest.val.1 = built.1 := hval.trans (hclimb.trans hroot.symm)
  refine ⟨hhonest, ?_⟩
  intro n' leaf' sig authPath' other hother
  obtain ⟨hval', _, hlog'⟩ := computeRoot_spec H sig ctx leafIdx t authPath' leaf' hpos haddr
  have hsame := hval'.symm.trans (hother.trans (hhonest.symm.trans hval))
  exact path_eq_or_collision hlog' hlog hsame

theorem treehashx1_commits_indexLeaf :
    let ctx : SpxCtx := ⟨Vector.replicate 16 0, Vector.replicate 16 1, Vector.replicate 40 2⟩
    let built := (treehashx1 constantHash ctx (besidePath indexLeaf) 5 (1 * 2 ^ 3) 3 0
      (fun _ => Vector.replicate 16 3) (addrOf 0 0 2 0 0 0) 0
      (Vector.replicate 48 4 : Vector UInt8 48)).val
    let leaf := genLeaves indexLeaf (fun i => i + 1 * 2 ^ 3) 0 5
    let honest := computeRoot constantHash leaf 5 (1 * 2 ^ 3) built.2.2.2 0 3 ctx
      (addrOf 0 0 2 0 6 7)
    honest.val.1 = built.1 ∧
      ∀ (n' : ℕ) (leaf' : Block) (sig : Vector UInt8 n') (authPath' : ℕ),
        let other := computeRoot constantHash leaf' 5 (1 * 2 ^ 3) sig authPath' 3 ctx
          (addrOf 0 0 2 0 6 7)
        other.val.1 = built.1 →
          (leaf' = leaf ∧ ∀ k < 3,
            pathEntry sig authPath' k = pathEntry built.2.2.2 0 k) ∨
          Collision other.log honest.log :=
  treehashx1_commits constantHash _ indexLeaf 0 0 2 0 1 (by decide) (by decide) (by decide) _
    ⟨0, 0, rfl⟩ ⟨6, 7, rfl⟩ 0 _

end BitcoinPqc
