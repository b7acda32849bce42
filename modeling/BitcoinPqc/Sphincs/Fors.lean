import BitcoinPqc.Sphincs.ThreadState
import BitcoinPqc.Sphincs.TreeHash

/-!
# FORS

The code of `fors.c`. Seven trees of height 16 are signed; leaf and node indices
count on across the trees, so tree `t` is the part of one long row of leaves that
starts at `t * 2 ^ 16`. The eighth index of the digest is not signed, it is
required to be zero by `forscCompressedIndex`.
-/

namespace BitcoinPqc

variable (E : Build) (H : HashFns)

/-- `(m[offset >> 3] >> (offset & 0x7)) & 1`. -/
def messageBit {n : ℕ} (m : Vector UInt8 n) (offset : ℕ) : ℕ :=
  ((m.getD (offset >>> 3) 0).toNat >>> (offset &&& 7)) &&& 1

/-- `message_to_indices`: index `i`, for which `offset` runs from
`i * SPX_FORS_HEIGHT`. The digest stands at the start of the buffer `m`. -/
def messageToIndices {n : ℕ} (m : Vector UInt8 n) (i : ℕ) : ℕ :=
  (List.range spxForsHeight).foldl
    (fun idx j => idx ^^^ (messageBit m (i * spxForsHeight + j) <<< j)) 0

/-- `forsc_compressed_index`: the index of the first tree that is not signed. -/
def forscCompressedIndex {n : ℕ} (mhash : Vector UInt8 n) : ℕ :=
  (List.range spxForsHeight).foldl
    (fun idx j =>
      idx ^^^ (messageBit mhash (spxForsSigTrees * spxForsHeight + j) <<< j)) 0

/-- `fors_gen_leafx1`. -/
def forsGenLeafx1 {n : ℕ} (ctx : SpxCtx) (addrIdx : ℕ) (leafAddr : Addr)
    (mem : Vector UInt8 n) : Traced Query (Block × Addr × Vector UInt8 n) := do
  let leafAddr := setTreeIndex leafAddr addrIdx
  let leafAddr := setType leafAddr addrTypeForsPrf
  let sk ← prfAddr H ctx leafAddr
  let leafAddr := setType leafAddr addrTypeForsTree
  let leaf ← thash H [sk] ctx leafAddr
  pure (leaf, leafAddr, mem)

/-- `fors_gen_leafx8`. -/
def forsGenLeafx8 {n : ℕ} (ctx : SpxCtx) (addrIdx : ℕ) (leafAddr : Lanes Addr)
    (mem : Vector UInt8 n) :
    Traced Query (Lanes Block × Lanes Addr × Vector UInt8 n) := do
  let leafAddr : Lanes Addr := fun j =>
    setType (setTreeIndex (leafAddr j) (addrIdx + j.val)) addrTypeForsPrf
  let sk ← prfAddrx8 H ctx leafAddr
  let leafAddr : Lanes Addr := fun j => setType (leafAddr j) addrTypeForsTree
  let leaf ← thashx8 H (fun j => [sk j]) ctx leafAddr
  pure (leaf, leafAddr, mem)

/-- `fors_sign_tree`: the root of tree `treeNum`; the signature part is written at
`sigTree`. -/
def forsSignTree {n : ℕ} (sigTree : ℕ) (mem : Vector UInt8 n) (ctx : SpxCtx)
    (forsAddr : Addr) (leafIdx treeNum : ℕ) :
    Traced Query (Block × Vector UInt8 n) := do
  let idxOffset := treeNum * 2 ^ spxForsHeight
  let treeAddr := copyKeypairAddr zeroAddr forsAddr
  let leafAddr := copyKeypairAddr zeroAddr forsAddr
  let treeAddr := setTreeHeight treeAddr 0
  let treeAddr := setTreeIndex treeAddr (leafIdx + idxOffset)
  let treeAddr := setType treeAddr addrTypeForsPrf
  let sk ← prfAddr H ctx treeAddr
  let mem := write mem sigTree sk
  let treeAddr := setType treeAddr addrTypeForsTree
  let r ← treehashx1 H ctx (forsGenLeafx1 H ctx) leafIdx idxOffset spxForsHeight
    (sigTree + spxN) E.uninit treeAddr leafAddr mem
  pure (r.1, r.2.2.2)

/-- `fors_sign_tree_avx2`. -/
def forsSignTreeAvx2 {n : ℕ} (sigTree : ℕ) (mem : Vector UInt8 n) (ctx : SpxCtx)
    (forsAddr : Addr) (leafIdx treeNum : ℕ) :
    Traced Query (Block × Vector UInt8 n) := do
  let idxOffset := treeNum * 2 ^ spxForsHeight
  let treeAddr : Lanes Addr := fun _ =>
    setType (copyKeypairAddr zeroAddr forsAddr) addrTypeForsTree
  let leafAddr : Lanes Addr := fun _ => copyKeypairAddr zeroAddr forsAddr
  let treeAddr0 := setTreeHeight (treeAddr (laneIdx 0)) 0
  let treeAddr0 := setTreeIndex treeAddr0 (leafIdx + idxOffset)
  let treeAddr0 := setType treeAddr0 addrTypeForsPrf
  let sk ← prfAddr H ctx treeAddr0
  let mem := write mem sigTree sk
  let treeAddr := Function.update treeAddr (laneIdx 0) (setType treeAddr0 addrTypeForsTree)
  let r ← treehashx8 H ctx (forsGenLeafx8 H ctx) leafIdx idxOffset spxForsHeight
    (sigTree + spxN) (fun h j => E.uninit (8 * h + j.val)) treeAddr leafAddr mem
  pure (r.1, r.2.2.2)

/-- `fors_sign`: the FORS public key; the signature is written at `sig`. The build
has no runtime knobs, so the scalar path runs its trees in one loop. -/
def forsSign {n : ℕ} (sig : ℕ) (mem : Vector UInt8 n) (m : Block) (ctx : SpxCtx)
    (forsAddr : Addr) : Traced Query (Block × Vector UInt8 n) := do
  let pkAddr := setType (copyKeypairAddr zeroAddr forsAddr) addrTypeForsPk
  let r ← Traced.forRange spxForsSigTrees
    (fun i (s : (ℕ → Block) × Vector UInt8 n) => do
      let sigTree := sig + i * ((spxForsHeight + 1) * spxN)
      let t ←
        if E.hasAvx2 then
          forsSignTreeAvx2 E H sigTree s.2 ctx forsAddr (messageToIndices m i) i
        else
          forsSignTree E H sigTree s.2 ctx forsAddr (messageToIndices m i) i
      pure (Function.update s.1 i t.1, t.2))
    (E.uninit, mem)
  let pk ← thash H ((List.range spxForsSigTrees).map r.1) ctx pkAddr
  pure (pk, r.2)

/-- One tree of `fors_pk_from_sig`: the state is the roots, the signature pointer
and the address buffer. -/
def forsPkFromSigTree {n : ℕ} (sig : Vector UInt8 n) (m : Block) (ctx : SpxCtx)
    (i : ℕ) (s : (ℕ → Block) × ℕ × Addr) :
    Traced Query ((ℕ → Block) × ℕ × Addr) := do
  let idxOffset := i * 2 ^ spxForsHeight
  let treeAddr := setTreeHeight s.2.2 0
  let treeAddr := setTreeIndex treeAddr (messageToIndices m i + idxOffset)
  let leaf ← thash H [slice sig s.2.1 spxN] ctx treeAddr
  let sigPtr := s.2.1 + spxN
  let r ← computeRoot H leaf (messageToIndices m i) idxOffset sig sigPtr
    spxForsHeight ctx treeAddr
  pure (Function.update s.1 i r.1, sigPtr + spxN * spxForsHeight, r.2)

/-- `fors_pk_from_sig`. -/
def forsPkFromSig {n : ℕ} (sig : Vector UInt8 n) (sigPtr : ℕ) (m : Block)
    (ctx : SpxCtx) (forsAddr : Addr) : Traced Query Block := do
  let treeAddr := setType (copyKeypairAddr zeroAddr forsAddr) addrTypeForsTree
  let pkAddr := setType (copyKeypairAddr zeroAddr forsAddr) addrTypeForsPk
  let r ← Traced.forRange spxForsSigTrees (forsPkFromSigTree H sig m ctx)
    (E.uninit, sigPtr, treeAddr)
  thash H ((List.range spxForsSigTrees).map r.1) ctx pkAddr

end BitcoinPqc
