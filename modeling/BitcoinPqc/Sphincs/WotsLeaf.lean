import BitcoinPqc.Sphincs.Wots

/-!
# Leaves of the hypertree

`wotsGenLeafx1Scalar` computes the WOTS public key of one leaf and, when the leaf
is the one being signed with, copies the chain values of the signature into the
memory while the chains pass them. `wotsGenLeafx8` does the same for eight
consecutive leaves, one in each lane, and `wotsGenLeafx1Avx2` for one leaf, with eight of
its chains in the lanes.
-/

namespace BitcoinPqc

variable (E : Build) (H : HashFns)

/-- `struct leaf_info_x1`. -/
structure LeafInfoX1 where
  wotsSig : Option ℕ
  wotsSignLeaf : ℕ
  wotsSteps : Option (Vector ℕ 16)
  leafAddr : Addr
  pkAddr : Addr

/-- The inner loop of `wots_gen_leafx1_scalar` at chain position `k`, where `rest`
is `SPX_WOTS_W - 1 - k`. -/
def wotsChainLoop {n : ℕ} (ctx : SpxCtx) (doSign : Bool) (wotsK sigPtr : ℕ) :
    (rest k : ℕ) → Block → Addr → Vector UInt8 n →
      Traced Query (Block × Addr × Vector UInt8 n)
  | rest, k, buffer, leafAddr, mem => do
      let mem := if doSign ∧ k = wotsK then write mem sigPtr buffer else mem
      match rest with
      | 0 => pure (buffer, leafAddr, mem)
      | rest + 1 => do
          let leafAddr := setHashAddr leafAddr k
          let buffer ← thash H [buffer] ctx leafAddr
          wotsChainLoop ctx doSign wotsK sigPtr rest (k + 1) buffer leafAddr mem

/-- Whether the call for `leafIdx` also produces the WOTS signature. -/
def LeafInfoX1.doSign (info : LeafInfoX1) (leafIdx : ℕ) : Bool :=
  info.wotsSteps.isSome && info.wotsSig.isSome &&
    info.wotsSignLeaf != spxNoSignLeaf && leafIdx == info.wotsSignLeaf

/-- `info->wots_steps[i]`, read when `do_sign` is set. -/
def LeafInfoX1.step (info : LeafInfoX1) (i : ℕ) : ℕ :=
  (info.wotsSteps.getD (Vector.replicate 16 0)).getD i 0

/-- One chain of `wots_gen_leafx1_scalar`. -/
def wotsGenLeafChain {n : ℕ} (ctx : SpxCtx) (info : LeafInfoX1) (doSign : Bool)
    (i : ℕ) (s : (ℕ → Block) × Addr × Vector UInt8 n) :
    Traced Query ((ℕ → Block) × Addr × Vector UInt8 n) := do
  let wotsK := if doSign then info.step i else spxNoSignLeaf
  let leafAddr := setChainAddr s.2.1 i
  let leafAddr := setHashAddr leafAddr 0
  let leafAddr := setType leafAddr addrTypeWotsPrf
  let buffer ← prfAddr H ctx leafAddr
  let leafAddr := setType leafAddr addrTypeWots
  let r ← wotsChainLoop H ctx doSign wotsK (info.wotsSig.getD 0 + i * spxN)
    (spxWotsW - 1) 0 buffer leafAddr s.2.2
  pure (Function.update s.1 i r.1, r.2.1, r.2.2)

/-- `wots_gen_leafx1_scalar`, to which `wots_gen_leafx1` dispatches without
AVX2. -/
def wotsGenLeafx1Scalar {n : ℕ} (ctx : SpxCtx) (leafIdx : ℕ) (info : LeafInfoX1)
    (mem : Vector UInt8 n) :
    Traced Query (Block × LeafInfoX1 × Vector UInt8 n) := do
  let doSign := info.doSign leafIdx
  let leafAddr := setKeypairAddr info.leafAddr leafIdx
  let pkAddr := setKeypairAddr info.pkAddr leafIdx
  let r ← Traced.forRange spxWotsLen (wotsGenLeafChain H ctx info doSign)
    (E.uninit, leafAddr, mem)
  let dest ← thash H ((List.range spxWotsLen).map r.1) ctx pkAddr
  pure (dest, { info with leafAddr := r.2.1, pkAddr := pkAddr }, r.2.2)

/-!
## Eight leaves at a time
-/

/-- `struct leaf_info_x8`. -/
structure LeafInfoX8 where
  wotsSig : Option ℕ
  wotsSignLeaf : ℕ
  wotsSteps : Option (Vector ℕ 16)
  leafAddr : Lanes Addr
  pkAddr : Lanes Addr

/-- Whether the group of leaves that starts at `leafIdx` holds the leaf that is
signed with. -/
def LeafInfoX8.doSign (info : LeafInfoX8) (leafIdx : ℕ) : Bool :=
  info.wotsSteps.isSome && info.wotsSig.isSome &&
    info.wotsSignLeaf != spxNoSignLeaf &&
    ((leafIdx ^^^ info.wotsSignLeaf) &&& 0xFFFFFFF8) == 0

def LeafInfoX8.step (info : LeafInfoX8) (i : ℕ) : ℕ :=
  (info.wotsSteps.getD (Vector.replicate 16 0)).getD i 0

/-- The inner loop of `wots_gen_leafx8` at chain position `k`. -/
def wotsChainLoopX8 {n : ℕ} (ctx : SpxCtx) (doSign : Bool)
    (wotsSignIndex wotsK sigPtr : ℕ) :
    (rest k : ℕ) → Lanes Block → Lanes Addr → Vector UInt8 n →
      Traced Query (Lanes Block × Lanes Addr × Vector UInt8 n)
  | rest, k, buffer, leafAddr, mem => do
      let mem :=
        if doSign ∧ k = wotsK then
          write mem sigPtr (buffer (laneIdx wotsSignIndex))
        else mem
      match rest with
      | 0 => pure (buffer, leafAddr, mem)
      | rest + 1 => do
          let leafAddr : Lanes Addr := fun j => setHashAddr (leafAddr j) k
          let buffer ← thashx8 H (fun j => [buffer j]) ctx leafAddr
          wotsChainLoopX8 ctx doSign wotsSignIndex wotsK sigPtr rest (k + 1) buffer
            leafAddr mem

/-- One chain of `wots_gen_leafx8`, in all lanes. -/
def wotsGenLeafChainX8 {n : ℕ} (ctx : SpxCtx) (info : LeafInfoX8) (doSign : Bool)
    (wotsSignIndex i : ℕ) (s : (ℕ → Lanes Block) × Lanes Addr × Vector UInt8 n) :
    Traced Query ((ℕ → Lanes Block) × Lanes Addr × Vector UInt8 n) := do
  let wotsK := if doSign then info.step i else spxNoSignLeaf
  let leafAddr : Lanes Addr := fun j =>
    setType (setHashAddr (setChainAddr (s.2.1 j) i) 0) addrTypeWotsPrf
  let buffer ← prfAddrx8 H ctx leafAddr
  let leafAddr : Lanes Addr := fun j => setType (leafAddr j) addrTypeWots
  let r ← wotsChainLoopX8 H ctx doSign wotsSignIndex wotsK
    (info.wotsSig.getD 0 + i * spxN) (spxWotsW - 1) 0 buffer leafAddr s.2.2
  pure (Function.update s.1 i r.1, r.2.1, r.2.2)

/-- `wots_gen_leafx8`. -/
def wotsGenLeafx8 {n : ℕ} (ctx : SpxCtx) (leafIdx : ℕ) (info : LeafInfoX8)
    (mem : Vector UInt8 n) :
    Traced Query (Lanes Block × LeafInfoX8 × Vector UInt8 n) := do
  let doSign := info.doSign leafIdx
  let wotsSignIndex := if doSign then info.wotsSignLeaf &&& 7 else 0
  let leafAddr : Lanes Addr := fun j =>
    setKeypairAddr (info.leafAddr j) (leafIdx + j.val)
  let pkAddr : Lanes Addr := fun j =>
    setKeypairAddr (info.pkAddr j) (leafIdx + j.val)
  let r ← Traced.forRange spxWotsLen
    (wotsGenLeafChainX8 H ctx info doSign wotsSignIndex)
    (fun i _ => E.uninit i, leafAddr, mem)
  let dest ← thashx8 H (fun j => (List.range spxWotsLen).map fun i => r.1 i j) ctx
    pkAddr
  pure (dest, { info with leafAddr := r.2.1, pkAddr := pkAddr }, r.2.2)

/-!
## Eight chains of one leaf at a time
-/

/-- `wots_k` of chain `i`. -/
def LeafInfoX1.wotsK (info : LeafInfoX1) (doSign : Bool) (i : ℕ) : ℕ :=
  if doSign then info.step i else spxNoSignLeaf

/-- The copies that `wots_gen_leafx1_avx2` makes at chain position `k`: one for each of the
lanes whose chain, counted from `i`, has reached its value in the signature. -/
def copyLanes {n : ℕ} (info : LeafInfoX1) (doSign : Bool) (i lanes k : ℕ)
    (bufs : Lanes Block) (mem : Vector UInt8 n) : Vector UInt8 n :=
  (List.range lanes).foldl
    (fun mem j =>
      if doSign ∧ k = info.wotsK doSign (i + j) then
        write mem (info.wotsSig.getD 0 + (i + j) * spxN) (bufs (laneIdx j))
      else mem) mem

/-- The inner loop of `wots_gen_leafx1_avx2` at chain position `k`. -/
def wotsChainLoopAvx2 {n : ℕ} (ctx : SpxCtx) (info : LeafInfoX1) (doSign : Bool)
    (i lanes : ℕ) :
    (rest k : ℕ) → Lanes Block → Lanes Addr → Vector UInt8 n →
      Traced Query (Lanes Block × Vector UInt8 n)
  | rest, k, bufs, addrs, mem => do
      let mem := copyLanes info doSign i lanes k bufs mem
      match rest with
      | 0 => pure (bufs, mem)
      | rest + 1 => do
          let addrs : Lanes Addr := fun j =>
            if j.val < lanes then setHashAddr (addrs j) k else addrs j
          let bufs ← thashx8 H (fun j => [bufs j]) ctx addrs
          wotsChainLoopAvx2 ctx info doSign i lanes rest (k + 1) bufs addrs mem

/-- The chains `i = 8 * group`, …, one in each lane. The lanes behind the last chain share
the buffer `empty` in the source, which nothing outside the lanes reads; sixteen chains
leave no such lane. -/
def wotsGenLeafGroup {n : ℕ} (ctx : SpxCtx) (info : LeafInfoX1) (doSign : Bool)
    (leafAddr : Addr) (group : ℕ) (s : (ℕ → Block) × Vector UInt8 n) :
    Traced Query ((ℕ → Block) × Vector UInt8 n) := do
  let i := 8 * group
  let lanes := if spxWotsLen - i > 8 then 8 else spxWotsLen - i
  let addrs : Lanes Addr := fun j =>
    setType (setHashAddr (setChainAddr leafAddr (if j.val < lanes then i + j.val else 0)) 0)
      addrTypeWotsPrf
  let bufs ← prfAddrx8 H ctx addrs
  let addrs : Lanes Addr := fun j =>
    if j.val < lanes then setType (addrs j) addrTypeWots else addrs j
  let r ← wotsChainLoopAvx2 H ctx info doSign i lanes (spxWotsW - 1) 0 bufs addrs s.2
  pure (fun l => if i ≤ l ∧ l < i + lanes then r.1 (laneIdx (l - i)) else s.1 l, r.2)

/-- `wots_gen_leafx1_avx2`. The address buffers of the lanes are copies, so only the key
pair of `leaf_addr` changes. -/
def wotsGenLeafx1Avx2 {n : ℕ} (ctx : SpxCtx) (leafIdx : ℕ) (info : LeafInfoX1)
    (mem : Vector UInt8 n) :
    Traced Query (Block × LeafInfoX1 × Vector UInt8 n) := do
  let doSign := info.doSign leafIdx
  let leafAddr := setKeypairAddr info.leafAddr leafIdx
  let pkAddr := setKeypairAddr info.pkAddr leafIdx
  let r ← Traced.forRange ((spxWotsLen + 7) / 8)
    (wotsGenLeafGroup H ctx info doSign leafAddr) (E.uninit, mem)
  let dest ← thash H ((List.range spxWotsLen).map r.1) ctx pkAddr
  pure (dest, { info with leafAddr := leafAddr, pkAddr := pkAddr }, r.2)

/-- `wots_gen_leafx1`. -/
def wotsGenLeafx1 {n : ℕ} (ctx : SpxCtx) (leafIdx : ℕ) (info : LeafInfoX1)
    (mem : Vector UInt8 n) :
    Traced Query (Block × LeafInfoX1 × Vector UInt8 n) :=
  if E.hasAvx2 then wotsGenLeafx1Avx2 E H ctx leafIdx info mem
  else wotsGenLeafx1Scalar E H ctx leafIdx info mem

end BitcoinPqc
