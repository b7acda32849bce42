import BitcoinPqc.Foundation.MerkleTree
import BitcoinPqc.Sphincs.Hash
import Mathlib.Logic.Function.Basic

/-!
# Roots and authentication paths

`computeRoot` is the verifier's walk up one path and `treehashx1` the signer's
construction of a whole tree, which writes the authentication path as the walk
meets its nodes. `treehashx8` builds the same tree with a logical node of eight
real nodes: in the top three levels there is one logical node left, whose first
lanes are garbage, and the two left adjustments locate the real nodes in it.

The memory that the authentication path is written to is passed through the
leaf generator, because a leaf generator may write to it as well; pointers into
it are offsets. A generator has a state of its own, the `info` of the source.
-/

namespace BitcoinPqc

variable (H : HashFns)

structure ComputeRootState where
  /-- The two halves of `buffer`. -/
  left : Block
  right : Block
  leafIdx : ℕ
  idxOffset : ℕ
  authPath : ℕ
  addr : Addr

/-- One round of the loop of `compute_root`. -/
def computeRootStep {n : ℕ} (sig : Vector UInt8 n) (ctx : SpxCtx) (i : ℕ)
    (s : ComputeRootState) : Traced Query ComputeRootState := do
  let leafIdx := s.leafIdx >>> 1
  let idxOffset := s.idxOffset >>> 1
  let addr := setTreeIndex (setTreeHeight s.addr (i + 1)) (leafIdx + idxOffset)
  let node ← thash H [s.left, s.right] ctx addr
  let sibling := slice sig s.authPath spxN
  let authPath := s.authPath + spxN
  if leafIdx &&& 1 = 1 then
    pure ⟨sibling, node, leafIdx, idxOffset, authPath, addr⟩
  else
    pure ⟨node, sibling, leafIdx, idxOffset, authPath, addr⟩

/-- `compute_root`, with the authentication path at offset `authPath` of `sig`. -/
def computeRoot {n : ℕ} (leaf : Block) (leafIdx idxOffset : ℕ)
    (sig : Vector UInt8 n) (authPath treeHeight : ℕ) (ctx : SpxCtx)
    (addr : Addr) : Traced Query (Block × Addr) := do
  let sibling := slice sig authPath spxN
  let start : ComputeRootState :=
    if leafIdx &&& 1 = 1 then
      ⟨sibling, leaf, leafIdx, idxOffset, authPath + spxN, addr⟩
    else
      ⟨leaf, sibling, leafIdx, idxOffset, authPath + spxN, addr⟩
  let s ← Traced.forRange (treeHeight - 1) (computeRootStep H sig ctx) start
  let leafIdx := s.leafIdx >>> 1
  let idxOffset := s.idxOffset >>> 1
  let addr := setTreeIndex (setTreeHeight s.addr treeHeight) (leafIdx + idxOffset)
  let root ← thash H [s.left, s.right] ctx addr
  pure (root, addr)

/-!
## The scalar tree walk
-/

/-- The variables that the inner loop of `treehashx1` leaves behind. -/
structure TreeHashState (n : ℕ) where
  current : Block
  treeAddr : Addr
  mem : Vector UInt8 n

/-- The inner loop of `treehashx1` at height `h`, where `r` is
`tree_height - h`. It leaves with the height of a left child, or with `none`
at the root. -/
def treehashx1Climb {n : ℕ} (ctx : SpxCtx) (authPath idx maxIdx : ℕ)
    (stack : ℕ → Block) :
    (r h internalIdx internalLeaf internalIdxOffset : ℕ) →
      TreeHashState n → Traced Query (Option ℕ × TreeHashState n)
  | 0, _, _, _, _, s => pure (none, s)
  | r + 1, h, internalIdx, internalLeaf, internalIdxOffset, s => do
      let mem :=
        if internalIdx ^^^ internalLeaf = 1 then
          write s.mem (authPath + h * spxN) s.current
        else s.mem
      if internalIdx &&& 1 = 0 ∧ idx < maxIdx then
        pure (some h, { s with mem := mem })
      else do
        let internalIdxOffset := internalIdxOffset >>> 1
        let treeAddr := setTreeIndex (setTreeHeight s.treeAddr (h + 1))
          (internalIdx / 2 + internalIdxOffset)
        let current ← thash H [stack h, s.current] ctx treeAddr
        treehashx1Climb ctx authPath idx maxIdx stack r (h + 1)
          (internalIdx >>> 1) (internalLeaf >>> 1) internalIdxOffset
          ⟨current, treeAddr, mem⟩

/-- The outer loop of `treehashx1` at leaf `idx`, where `rest` is
`max_idx - idx`. At the last leaf the climb does not stop below the root. -/
def treehashx1Loop {n : ℕ} {ι : Type} (ctx : SpxCtx)
    (genLeaf : ℕ → ι → Vector UInt8 n → Traced Query (Block × ι × Vector UInt8 n))
    (leafIdx idxOffset treeHeight authPath maxIdx : ℕ) :
    (rest idx : ℕ) → (ℕ → Block) → Addr → ι → Vector UInt8 n →
      Traced Query (Block × Addr × ι × Vector UInt8 n)
  | rest, idx, stack, treeAddr, info, mem => do
      let (leaf, info, mem) ← genLeaf (idx + idxOffset) info mem
      let (stop, s) ← treehashx1Climb H ctx authPath idx maxIdx stack treeHeight 0
        idx leafIdx idxOffset ⟨leaf, treeAddr, mem⟩
      match rest with
      | 0 => pure (s.current, s.treeAddr, info, s.mem)
      | rest + 1 =>
        match stop with
        | none => pure (s.current, s.treeAddr, info, s.mem)
        | some h =>
            treehashx1Loop ctx genLeaf leafIdx idxOffset treeHeight authPath maxIdx
              rest (idx + 1) (Function.update stack h s.current) s.treeAddr info s.mem

/-- `treehashx1`: the root, the address buffer, the generator's state and the
memory. -/
def treehashx1 {n : ℕ} {ι : Type} (ctx : SpxCtx)
    (genLeaf : ℕ → ι → Vector UInt8 n → Traced Query (Block × ι × Vector UInt8 n))
    (leafIdx idxOffset treeHeight authPath : ℕ) (stack : ℕ → Block)
    (treeAddr : Addr) (info : ι) (mem : Vector UInt8 n) :
    Traced Query (Block × Addr × ι × Vector UInt8 n) :=
  let maxIdx := 2 ^ treeHeight - 1
  treehashx1Loop H ctx genLeaf leafIdx idxOffset treeHeight authPath maxIdx maxIdx 0
    stack treeAddr info mem

/-!
## The 8-lane tree walk
-/

/-- The variables that the inner loop of `treehashx8` leaves behind. -/
structure TreeHashStateX8 (n : ℕ) where
  current : Lanes Block
  treeAddr : Lanes Addr
  leftAdj : ℕ
  prevLeftAdj : ℕ
  mem : Vector UInt8 n

/-- The inputs of the `thashx8` that merges the saved logical node `left` with
`current`. -/
def mergeInput (left current : Lanes Block) : Lanes (List Block) := fun j =>
  if j.val < 4 then
    [left (laneIdx (2 * j.val)), left (laneIdx (2 * j.val + 1))]
  else
    [current (laneIdx (2 * (j.val - 4))),
      current (laneIdx (2 * (j.val - 4) + 1))]

/-- `(uint32_t)tree_index` for lane `j`. -/
def laneTreeIndex (internalIdx leftAdj internalIdxOffset : ℕ) (j : Fin 8) : ℕ :=
  ((4 * ((internalIdx &&& 0xFFFFFFFE : ℕ) : Int) + (j.val : Int) - (leftAdj : Int) +
    (internalIdxOffset : Int)) % 2 ^ 32).toNat

/-- The inner loop of `treehashx8` at height `h`, where `r` is
`tree_height - h`. -/
def treehashx8Climb {n : ℕ} (ctx : SpxCtx) (treeHeight authPath idx maxIdx : ℕ)
    (stack : ℕ → Lanes Block) :
    (r h internalIdx internalLeaf internalIdxOffset : ℕ) →
      TreeHashStateX8 n → Traced Query (Option ℕ × TreeHashStateX8 n)
  | 0, _, _, _, _, s => pure (none, s)
  | r + 1, h, internalIdx, internalLeaf, internalIdxOffset, s => do
      let top := treeHeight - 3 ≤ h
      let prevLeftAdj := if top then s.leftAdj else s.prevLeftAdj
      let leftAdj := if top then 8 - 2 ^ (treeHeight - h - 1) else s.leftAdj
      let mem :=
        if (((internalIdx <<< 3) % 2 ^ 32) ^^^ internalLeaf) &&& 0xFFFFFFF8 = 0 then
          write s.mem (authPath + h * spxN)
            (s.current (laneIdx (((internalLeaf &&& 7) ^^^ 1) + prevLeftAdj)))
        else s.mem
      if internalIdx &&& 1 = 0 ∧ idx < maxIdx then
        pure (some h,
          { s with leftAdj := leftAdj, prevLeftAdj := prevLeftAdj, mem := mem })
      else do
        let internalIdxOffset := internalIdxOffset >>> 1
        let treeAddr : Lanes Addr := fun j =>
          setTreeIndex (setTreeHeight (s.treeAddr j) (h + 1))
            (laneTreeIndex internalIdx leftAdj internalIdxOffset j)
        let current ← thashx8 H (mergeInput (stack h) s.current) ctx treeAddr
        treehashx8Climb ctx treeHeight authPath idx maxIdx stack r (h + 1)
          (internalIdx >>> 1) (internalLeaf >>> 1) internalIdxOffset
          ⟨current, treeAddr, leftAdj, prevLeftAdj, mem⟩

/-- The outer loop of `treehashx8` at group `idx` of eight leaves, where `rest` is
`max_idx - idx`. -/
def treehashx8Loop {n : ℕ} {ι : Type} (ctx : SpxCtx)
    (genLeafx8 : ℕ → ι → Vector UInt8 n →
      Traced Query (Lanes Block × ι × Vector UInt8 n))
    (leafIdx idxOffset treeHeight authPath maxIdx : ℕ) :
    (rest idx : ℕ) → (ℕ → Lanes Block) → Lanes Addr → (leftAdj prevLeftAdj : ℕ) →
      ι → Vector UInt8 n →
      Traced Query (Block × Lanes Addr × ι × Vector UInt8 n)
  | rest, idx, stack, treeAddr, leftAdj, prevLeftAdj, info, mem => do
      let (leaves, info, mem) ← genLeafx8 (8 * idx + idxOffset) info mem
      let (stop, s) ← treehashx8Climb H ctx treeHeight authPath idx maxIdx stack
        treeHeight 0 idx leafIdx idxOffset
        ⟨leaves, treeAddr, leftAdj, prevLeftAdj, mem⟩
      match rest with
      | 0 => pure (s.current (laneIdx 7), s.treeAddr, info, s.mem)
      | rest + 1 =>
        match stop with
        | none => pure (s.current (laneIdx 7), s.treeAddr, info, s.mem)
        | some h =>
            treehashx8Loop ctx genLeafx8 leafIdx idxOffset treeHeight authPath maxIdx
              rest (idx + 1) (Function.update stack h s.current) s.treeAddr s.leftAdj
              s.prevLeftAdj info s.mem

/-- `treehashx8`. -/
def treehashx8 {n : ℕ} {ι : Type} (ctx : SpxCtx)
    (genLeafx8 : ℕ → ι → Vector UInt8 n →
      Traced Query (Lanes Block × ι × Vector UInt8 n))
    (leafIdx idxOffset treeHeight authPath : ℕ) (stack : ℕ → Lanes Block)
    (treeAddr : Lanes Addr) (info : ι) (mem : Vector UInt8 n) :
    Traced Query (Block × Lanes Addr × ι × Vector UInt8 n) :=
  let maxIdx := 2 ^ (treeHeight - 3) - 1
  treehashx8Loop H ctx genLeafx8 leafIdx idxOffset treeHeight authPath maxIdx maxIdx 0
    stack treeAddr 0 0 info mem

/-!
## The tree walk with a stack of heights

`treehash` knows no heights in advance: it keeps the height of every node on its stack and
merges the two topmost ones while they are equal.
-/

/-- The arrays of `treehash`, its address buffer and the memory. -/
structure TreeHashArrays (n : ℕ) where
  stack : ℕ → Block
  heights : ℕ → ℕ
  treeAddr : Addr
  mem : Vector UInt8 n

/-- The inner loop of `treehash` after leaf `idx`, with the final `offset`. -/
def treehashMerge {n : ℕ} (ctx : SpxCtx) (leafIdx idxOffset authPath idx : ℕ) :
    (offset : ℕ) → TreeHashArrays n → Traced Query (ℕ × TreeHashArrays n)
  | offset + 2, s =>
      if s.heights (offset + 1) = s.heights offset then do
        let height := s.heights (offset + 1) + 1
        let treeIdx := idx >>> height
        let treeAddr := setTreeIndex (setTreeHeight s.treeAddr height)
          (treeIdx + idxOffset >>> height)
        let node ← thash H [s.stack offset, s.stack (offset + 1)] ctx treeAddr
        let heights := Function.update s.heights offset (s.heights offset + 1)
        let mem :=
          if (leafIdx >>> heights offset) ^^^ 1 = treeIdx then
            write s.mem (authPath + heights offset * spxN) node
          else s.mem
        treehashMerge ctx leafIdx idxOffset authPath idx (offset + 1)
          ⟨Function.update s.stack offset node, heights, treeAddr, mem⟩
      else pure (offset + 2, s)
  | offset, s => pure (offset, s)

/-- The outer loop of `treehash` at leaf `idx`, with `rest` leaves to go. The arrays have
`tree_height + 1` entries: a leaf that does not fit is an `.error`, where the source writes
behind them. -/
def treehashLoop {n : ℕ} (ctx : SpxCtx) (genLeaf : ℕ → Addr → Traced Query Block)
    (leafIdx idxOffset treeHeight authPath : ℕ) :
    (rest idx offset : ℕ) → TreeHashArrays n → Traced Query (Except ℕ (TreeHashArrays n))
  | 0, _, _, s => pure (.ok s)
  | rest + 1, idx, offset, s =>
      if treeHeight < offset then pure (.error idx)
      else do
        let leaf ← genLeaf (idx + idxOffset) s.treeAddr
        let mem := if leafIdx ^^^ 1 = idx then write s.mem authPath leaf else s.mem
        let (offset, s) ← treehashMerge H ctx leafIdx idxOffset authPath idx (offset + 1)
          ⟨Function.update s.stack offset leaf, Function.update s.heights offset 0, s.treeAddr,
            mem⟩
        treehashLoop ctx genLeaf leafIdx idxOffset treeHeight authPath rest (idx + 1) offset s

/-- `treehash` of `utils.c`: the root, the address buffer and the memory. `stack` and
`heights` are what the uninitialised arrays hold. -/
def treehash {n : ℕ} (ctx : SpxCtx) (genLeaf : ℕ → Addr → Traced Query Block)
    (leafIdx idxOffset treeHeight authPath : ℕ) (stack : ℕ → Block) (heights : ℕ → ℕ)
    (treeAddr : Addr) (mem : Vector UInt8 n) :
    Traced Query (Except ℕ (Block × Addr × Vector UInt8 n)) := do
  match ← treehashLoop H ctx genLeaf leafIdx idxOffset treeHeight authPath
      (2 ^ treeHeight) 0 0 ⟨stack, heights, treeAddr, mem⟩ with
  | .error idx => pure (.error idx)
  | .ok s => pure (.ok (s.stack 0, s.treeAddr, s.mem))

end BitcoinPqc
