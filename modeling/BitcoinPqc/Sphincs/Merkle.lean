import BitcoinPqc.Sphincs.TreeHash
import BitcoinPqc.Sphincs.WotsLeaf

/-!
# Merkle signatures

The code of `merkle.c`: one layer of a hypertree signature, which is a WOTS
signature of the value in `root` followed by an authentication path, and the root
of the top tree, for which the same routine runs with the leaf index that signs
nothing.
-/

namespace BitcoinPqc

variable (E : Build) (H : HashFns)

/-- What `merkle_sign` returns and leaves in its arguments. -/
structure MerkleSignResult (n : ℕ) where
  code : Int
  root : Block
  treeAddr : Addr
  mem : Vector UInt8 n
  T : ThreadState

/-- The chain lengths with which both versions of `merkle_sign` begin: none are
computed when nothing is signed. -/
def merkleSignSteps (root : Block) (idxLeaf : ℕ) (T : ThreadState) :
    Traced Query (Except Int (Option (Vector ℕ 16)) × ThreadState) :=
  if idxLeaf ≠ spxNoSignLeaf then do
    let (chainResult, T) ← chainLengths E H root T
    pure (chainResult.map some, T)
  else pure (.ok none, T)

/-- `merkle_sign_scalar`; the signature of the layer is written at `sig`. -/
def merkleSignScalar {n : ℕ} (sig : ℕ) (mem : Vector UInt8 n) (root : Block)
    (ctx : SpxCtx) (wotsAddr treeAddr : Addr) (idxLeaf : ℕ) (T : ThreadState) :
    Traced Query (MerkleSignResult n) := do
  let authPath := sig + spxWotsBytes
  let (steps, T) ← merkleSignSteps E H root idxLeaf T
  match steps with
  | .error chainResult => pure ⟨chainResult, root, treeAddr, mem, T⟩
  | .ok steps => do
      let treeAddr := setType treeAddr addrTypeHashTree
      let pkAddr := setType zeroAddr addrTypeWotsPk
      let info : LeafInfoX1 :=
        { wotsSig := steps.map fun _ => sig
          wotsSignLeaf := idxLeaf
          wotsSteps := steps
          leafAddr := copySubtreeAddr zeroAddr wotsAddr
          pkAddr := copySubtreeAddr pkAddr wotsAddr }
      let r ← treehashx1 H ctx (wotsGenLeafx1Scalar E H ctx) idxLeaf 0 spxTreeHeight
        authPath E.uninit treeAddr info mem
      pure ⟨0, r.1, r.2.1, r.2.2.2, T⟩

/-- `merkle_sign_avx2`. -/
def merkleSignAvx2 {n : ℕ} (sig : ℕ) (mem : Vector UInt8 n) (root : Block)
    (ctx : SpxCtx) (wotsAddr treeAddr : Addr) (idxLeaf : ℕ) (T : ThreadState) :
    Traced Query (MerkleSignResult n) := do
  let authPath := sig + spxWotsBytes
  let (steps, T) ← merkleSignSteps E H root idxLeaf T
  match steps with
  | .error chainResult => pure ⟨chainResult, root, treeAddr, mem, T⟩
  | .ok steps => do
      let info : LeafInfoX8 :=
        { wotsSig := steps.map fun _ => sig
          wotsSignLeaf := idxLeaf
          wotsSteps := steps
          leafAddr := fun _ =>
            copySubtreeAddr (setType zeroAddr addrTypeWots) wotsAddr
          pkAddr := fun _ =>
            copySubtreeAddr (setType zeroAddr addrTypeWotsPk) wotsAddr }
      let treeAddrx8 : Lanes Addr := fun _ =>
        copySubtreeAddr (setType zeroAddr addrTypeHashTree) treeAddr
      let r ← treehashx8 H ctx (wotsGenLeafx8 E H ctx) idxLeaf 0 spxTreeHeight
        authPath (fun h j => E.uninit (8 * h + j.val)) treeAddrx8 info mem
      pure ⟨0, r.1, treeAddr, r.2.2.2, T⟩

/-- `merkle_sign`. -/
def merkleSign {n : ℕ} (sig : ℕ) (mem : Vector UInt8 n) (root : Block)
    (ctx : SpxCtx) (wotsAddr treeAddr : Addr) (idxLeaf : ℕ) (T : ThreadState) :
    Traced Query (MerkleSignResult n) :=
  if E.hasAvx2 then
    merkleSignAvx2 E H sig mem root ctx wotsAddr treeAddr idxLeaf T
  else
    merkleSignScalar E H sig mem root ctx wotsAddr treeAddr idxLeaf T

/-- An uninitialised local buffer of `n` bytes. -/
def uninitBytes (n : ℕ) : Vector UInt8 n :=
  Vector.ofFn fun i => (E.uninit (i.val / 16)).getD (i.val % 16) 0

/-- `merkle_gen_root`: the code, the root and the thread state, for the previous
contents `root` of the output. -/
def merkleGenRoot (root : Block) (ctx : SpxCtx) (T : ThreadState) :
    Traced Query (Int × Block × ThreadState) := do
  let authPath := uninitBytes E (spxTreeHeight * spxN + spxWotsBytes)
  let topTreeAddr := setLayerAddr zeroAddr (spxD - 1)
  let wotsAddr := setLayerAddr zeroAddr (spxD - 1)
  let r ← merkleSign E H 0 authPath root ctx wotsAddr topTreeAddr spxNoSignLeaf T
  pure (r.code, r.root, r.T)

end BitcoinPqc
