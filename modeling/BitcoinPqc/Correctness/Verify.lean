import BitcoinPqc.Correctness.Sign

/-!
# What a verification run computes

The values that the verifier recomputes are functions of the signature: the ends of
the chains, the root of each layer and the FORS public key. Each lemma of this file
gives the value that a function of the verifier returns together with the hash calls
that it makes for certain, so that a statement about two runs can point at calls of
these runs.
-/

namespace BitcoinPqc

open Merkle

variable (E : Build) (H : HashFns)

/-!
## One layer
-/

section Layer

variable {n : ℕ} (sig : Vector UInt8 n) (st : Vector UInt8 40)
  (layer tree leaf sigPtr : ℕ) (lengths : Vector ℕ 16)

/-- Element `i` of the WOTS signature at offset `sigPtr`. -/
abbrev wotsElement (i : ℕ) : Block := slice sig (sigPtr + i * spxN) spxN

/-- The end of chain `i`, from the signature. -/
def chainEnd (i : ℕ) : Block :=
  chain (wotsStep H st layer tree leaf i) (lengths.getD i 0)
    (spxWotsW - 1 - lengths.getD i 0) (wotsElement sig sigPtr i)

/-- The chain ends in the order in which they are compressed. -/
def chainEnds : List Block :=
  (List.range spxWotsLen).map (chainEnd H sig st layer tree leaf sigPtr lengths)

/-- The WOTS public key of a layer, compressed to a leaf. -/
def recoveredLeaf : Block :=
  (Role.wotsPk layer tree leaf).hash H st
    (chainEnds H sig st layer tree leaf sigPtr lengths)

/-- The root of the subtree of a layer. -/
def recoveredRoot : Block :=
  climb (nodeHash H st layer tree addrTypeHashTree 0) leaf
    (pathEntry sig (sigPtr + spxWotsBytes)) spxTreeHeight
    (recoveredLeaf H sig st layer tree leaf sigPtr lengths)

/-- The calls that the verification of a layer makes for certain. -/
inductive LayerCall : Query → Prop
  | step (i k : ℕ) (hi : i < spxWotsLen)
      (hk : k < spxWotsW - 1 - lengths.getD i 0) :
      LayerCall (wotsStepQuery H st layer tree leaf i (lengths.getD i 0)
        (wotsElement sig sigPtr i) k)
  | pk : LayerCall (.thash (adrs (Role.wotsPk layer tree leaf).addr)
      (chainEnds H sig st layer tree leaf sigPtr lengths)
      (recoveredLeaf H sig st layer tree leaf sigPtr lengths))
  | node (k : ℕ) (hk : k < spxTreeHeight) :
      LayerCall (climbQuery H st layer tree addrTypeHashTree 0 leaf
        (pathEntry sig (sigPtr + spxWotsBytes))
        (recoveredLeaf H sig st layer tree leaf sigPtr lengths) k)

end Layer

section WotsPk

variable {H} {n : ℕ} {sig : Vector UInt8 n} {ctx : SpxCtx}
  {layer tree leaf sigPtr : ℕ} {lengths : Vector ℕ 16}

/-- The chain loop of `wots_pk_from_sig` after `i` chains. -/
structure PkChainsOk (H : HashFns) (sig : Vector UInt8 n) (ctx : SpxCtx)
    (layer tree leaf sigPtr : ℕ) (lengths : Vector ℕ 16) (i : ℕ)
    (s : (ℕ → Block) × Addr) : Prop where
  ends : ∀ i' < i,
    s.1 i' = chainEnd H sig ctx.stateSeeded layer tree leaf sigPtr lengths i'
  addr : ∃ height index, index < 256 ∧
    s.2 = addrOf layer tree addrTypeWots leaf height index

theorem wotsPkChain_step {i : ℕ} {s : (ℕ → Block) × Addr}
    (hlen : lengths.getD i 0 < spxWotsW)
    (hs : PkChainsOk H sig ctx layer tree leaf sigPtr lengths i s) :
    ∃ index < 256, genChain H (slice sig (sigPtr + i * spxN) spxN) (lengths.getD i 0)
        (spxWotsW - 1 - lengths.getD i 0) ctx (setChainAddr s.2 i) =
      ⟨(chainEnd H sig ctx.stateSeeded layer tree leaf sigPtr lengths i,
          addrOf layer tree addrTypeWots leaf i index),
        (List.range (spxWotsW - 1 - lengths.getD i 0)).map
          (wotsStepQuery H ctx.stateSeeded layer tree leaf i (lengths.getD i 0)
            (wotsElement sig sigPtr i))⟩ := by
  obtain ⟨height, index, hindex, haddr⟩ := hs.addr
  rw [haddr, setChainAddr_addrOf]
  exact genChain_eq H layer tree leaf i ctx hindex _ _ (by omega) _

variable (sig ctx layer tree leaf sigPtr) in
/-- The chain loop computes the chain ends, and its calls include every chain step. -/
theorem wotsPkChains_spec (hlen : ∀ i, lengths.getD i 0 < spxWotsW) (pk : ℕ → Block)
    {addr : Addr}
    (haddr : ∃ height index, index < 256 ∧
      addr = addrOf layer tree addrTypeWots leaf height index) :
    PkChainsOk H sig ctx layer tree leaf sigPtr lengths spxWotsLen
        (wotsPkChains H pk sig sigPtr lengths ctx addr).val ∧
      ∀ i < spxWotsLen, ∀ k < spxWotsW - 1 - lengths.getD i 0,
        wotsStepQuery H ctx.stateSeeded layer tree leaf i (lengths.getD i 0)
            (wotsElement sig sigPtr i) k ∈
          (wotsPkChains H pk sig sigPtr lengths ctx addr).log := by
  have hround (i : ℕ) : PkChainsOk H sig ctx layer tree leaf sigPtr lengths i
      (Traced.forRange i (fun i (s : (ℕ → Block) × Addr) => do
        let addr := setChainAddr s.2 i
        let r ← genChain H (slice sig (sigPtr + i * spxN) spxN) (lengths.getD i 0)
          (spxWotsW - 1 - lengths.getD i 0) ctx addr
        pure (Function.update s.1 i r.1, r.2)) (pk, addr)).val := by
    induction i with
    | zero => exact ⟨fun i' hi' => by omega, haddr⟩
    | succ i ih =>
        obtain ⟨index, hindex, heq⟩ := wotsPkChain_step (hlen i) ih
        rw [Traced.forRange_succ, Traced.val_bind]
        simp only [heq, Traced.val_bind, Traced.val_pure]
        refine ⟨?_, i, index, hindex, rfl⟩
        intro i' hi'
        rcases Nat.lt_succ_iff_lt_or_eq.mp hi' with hlt | rfl
        · exact (Function.update_of_ne (by omega) _ _).trans (ih.ends i' hlt)
        · exact Function.update_self _ _ _
  refine ⟨hround spxWotsLen, ?_⟩
  intro i hi k hk
  refine Traced.mem_log_forRange hi ?_
  obtain ⟨index, hindex, heq⟩ := wotsPkChain_step (hlen i) (hround i)
  simp only [heq, Traced.log_bind]
  exact List.mem_append_left _ (List.mem_map_of_mem (List.mem_range.mpr hk))

variable (sig ctx sigPtr) in
theorem wotsPkFromSig_of_ok {E : Build} {msg : Block} {T T' : ThreadState}
    (hres : (chainLengths E H msg T).val = (.ok lengths, T')) (pk : ℕ → Block)
    (addr : Addr) :
    wotsPkFromSig E H pk sig sigPtr msg ctx addr T =
      ⟨(.ok (wotsPkChains H pk sig sigPtr lengths ctx addr).val, T'),
        (chainLengths E H msg T).log ++
          (wotsPkChains H pk sig sigPtr lengths ctx addr).log⟩ := by
  rw [wotsPkFromSig]
  apply Traced.ext
  · simp only [Traced.val_bind, hres, Traced.val_pure]
  · simp only [Traced.log_bind, hres, Traced.log_pure, List.append_nil]

end WotsPk

/-!
## The FORS public key
-/

section ForsValues

variable {n : ℕ} (sig : Vector UInt8 n) (st : Vector UInt8 40) (tree leaf sigPtr : ℕ)
  (mhash : Block)

/-- The leaf of FORS tree `t` that the digest opens, counted over all trees. -/
def openedIdx (t : ℕ) : ℕ := messageToIndices mhash t + t * 2 ^ spxForsHeight

/-- The secret value that the signature gives for tree `t`. -/
abbrev forsElement (t : ℕ) : Block := slice sig (sigPtr + t * treeBytes) spxN

/-- Entry `k` of the authentication path of tree `t`. -/
abbrev forsPath (t : ℕ) : ℕ → Block := pathEntry sig (sigPtr + t * treeBytes + spxN)

/-- The opened leaf of tree `t`. -/
def recoveredForsLeaf (t : ℕ) : Block :=
  (Role.forsNode tree leaf 0 (openedIdx mhash t)).hash H st [forsElement sig sigPtr t]

/-- The root of tree `t`. -/
def recoveredForsRoot (t : ℕ) : Block :=
  climb (nodeHash H st 0 tree addrTypeForsTree leaf) (openedIdx mhash t)
    (forsPath sig sigPtr t) spxForsHeight
    (recoveredForsLeaf H sig st tree leaf sigPtr mhash t)

/-- The roots in the order in which they are compressed. -/
def recoveredForsRoots : List Block :=
  (List.range spxForsSigTrees).map (recoveredForsRoot H sig st tree leaf sigPtr mhash)

/-- The FORS public key. -/
def recoveredForsPk : Block :=
  (Role.forsPk tree leaf).hash H st (recoveredForsRoots H sig st tree leaf sigPtr mhash)

/-- The calls that `fors_pk_from_sig` makes for certain. -/
inductive ForsCall : Query → Prop
  | leaf (t : ℕ) (ht : t < spxForsSigTrees) :
      ForsCall (.thash (adrs (Role.forsNode tree leaf 0 (openedIdx mhash t)).addr)
        [forsElement sig sigPtr t] (recoveredForsLeaf H sig st tree leaf sigPtr mhash t))
  | node (t k : ℕ) (ht : t < spxForsSigTrees) (hk : k < spxForsHeight) :
      ForsCall (climbQuery H st 0 tree addrTypeForsTree leaf (openedIdx mhash t)
        (forsPath sig sigPtr t) (recoveredForsLeaf H sig st tree leaf sigPtr mhash t) k)
  | pk : ForsCall (.thash (adrs (Role.forsPk tree leaf).addr)
      (recoveredForsRoots H sig st tree leaf sigPtr mhash)
      (recoveredForsPk H sig st tree leaf sigPtr mhash))

end ForsValues

section ForsPk

variable {H} {n : ℕ} {sig : Vector UInt8 n} {ctx : SpxCtx} {tree leaf sigPtr : ℕ}
  {mhash : Block}

/-- The loop of `fors_pk_from_sig` after `i` trees. -/
structure ForsPkOk (H : HashFns) (sig : Vector UInt8 n) (ctx : SpxCtx)
    (tree leaf sigPtr : ℕ) (mhash : Block) (i : ℕ) (s : (ℕ → Block) × ℕ × Addr) :
    Prop where
  roots : ∀ t < i,
    s.1 t = recoveredForsRoot H sig ctx.stateSeeded tree leaf sigPtr mhash t
  sigPtr : s.2.1 = sigPtr + i * treeBytes
  addr : WalkAddr 0 tree addrTypeForsTree leaf s.2.2

theorem forsPkFromSigTree_spec {t : ℕ} {s : (ℕ → Block) × ℕ × Addr}
    (hs : ForsPkOk H sig ctx tree leaf sigPtr mhash t s) :
    ForsPkOk H sig ctx tree leaf sigPtr mhash (t + 1)
        (forsPkFromSigTree H sig mhash ctx t s).val ∧
      .thash (adrs (Role.forsNode tree leaf 0 (openedIdx mhash t)).addr)
          [forsElement sig sigPtr t]
          (recoveredForsLeaf H sig ctx.stateSeeded tree leaf sigPtr mhash t) ∈
        (forsPkFromSigTree H sig mhash ctx t s).log ∧
      ∀ k < spxForsHeight,
        climbQuery H ctx.stateSeeded 0 tree addrTypeForsTree leaf (openedIdx mhash t)
            (forsPath sig sigPtr t)
            (recoveredForsLeaf H sig ctx.stateSeeded tree leaf sigPtr mhash t) k ∈
          (forsPkFromSigTree H sig mhash ctx t s).log := by
  obtain ⟨hroots, hptr, height, index, haddr⟩ := hs
  have hleaf : thash H [slice sig s.2.1 spxN] ctx
      (setTreeIndex (setTreeHeight s.2.2 0)
        (messageToIndices mhash t + t * 2 ^ spxForsHeight)) =
      ⟨recoveredForsLeaf H sig ctx.stateSeeded tree leaf sigPtr mhash t,
        [.thash (adrs (Role.forsNode tree leaf 0 (openedIdx mhash t)).addr)
          [forsElement sig sigPtr t]
          (recoveredForsLeaf H sig ctx.stateSeeded tree leaf sigPtr mhash t)]⟩ := by
    rw [haddr, setTreeHeight_addrOf, setTreeIndex_addrOf, hptr]
    rfl
  have haddr' : WalkAddr 0 tree addrTypeForsTree leaf
      (setTreeIndex (setTreeHeight s.2.2 0)
        (messageToIndices mhash t + t * 2 ^ spxForsHeight)) := by
    rw [haddr, setTreeHeight_addrOf, setTreeIndex_addrOf]
    exact ⟨_, _, rfl⟩
  obtain ⟨hroot, hwalk, hcalls⟩ := computeRoot_spec H sig ctx
    (messageToIndices mhash t) t (s.2.1 + spxN)
    (recoveredForsLeaf H sig ctx.stateSeeded tree leaf sigPtr mhash t)
    (show 0 < spxForsHeight by decide) haddr'
  rw [hptr] at hroot hcalls hwalk
  rw [forsPkFromSigTree, hptr] at *
  simp only [hleaf, Traced.val_bind, Traced.val_pure, Traced.log_bind]
  refine ⟨⟨?_, ?_, hwalk⟩, List.mem_append_left _ (List.mem_singleton_self _), ?_⟩
  · intro t' ht'
    rcases Nat.lt_succ_iff_lt_or_eq.mp ht' with hlt | rfl
    · exact (Function.update_of_ne (by omega) _ _).trans (hroots t' hlt)
    · exact (Function.update_self _ _ _).trans hroot
  · simp only [treeBytes, spxN, spxForsHeight]
    omega
  · intro k hk
    exact List.mem_append_right _ (List.mem_append_left _ (hcalls k hk))

variable (sig ctx sigPtr mhash) in
theorem forsPkFromSig_spec {forsAddr : Addr}
    (haddr : ∃ type index, forsAddr = addrOf 0 tree type leaf 0 index) :
    (forsPkFromSig E H sig sigPtr mhash ctx forsAddr).val =
        recoveredForsPk H sig ctx.stateSeeded tree leaf sigPtr mhash ∧
      ∀ q, ForsCall H sig ctx.stateSeeded tree leaf sigPtr mhash q →
        q ∈ (forsPkFromSig E H sig sigPtr mhash ctx forsAddr).log := by
  obtain ⟨type, index, haddr⟩ := haddr
  have hround (i : ℕ) : ForsPkOk H sig ctx tree leaf sigPtr mhash i
      (Traced.forRange i (forsPkFromSigTree H sig mhash ctx)
        (E.uninit, sigPtr, addrOf 0 tree addrTypeForsTree leaf 0 0)).val := by
    induction i with
    | zero => exact ⟨fun t ht => by omega, by rw [Nat.zero_mul]; rfl, ⟨0, 0, rfl⟩⟩
    | succ i ih =>
        rw [Traced.forRange_succ, Traced.val_bind]
        exact (forsPkFromSigTree_spec ih).1
  have hinput : (List.range spxForsSigTrees).map
      (Traced.forRange spxForsSigTrees (forsPkFromSigTree H sig mhash ctx)
        (E.uninit, sigPtr, addrOf 0 tree addrTypeForsTree leaf 0 0)).val.1 =
      recoveredForsRoots H sig ctx.stateSeeded tree leaf sigPtr mhash :=
    List.map_congr_left fun t ht => (hround spxForsSigTrees).roots t (List.mem_range.mp ht)
  have heq : forsPkFromSig E H sig sigPtr mhash ctx forsAddr =
      Traced.forRange spxForsSigTrees (forsPkFromSigTree H sig mhash ctx)
        (E.uninit, sigPtr, addrOf 0 tree addrTypeForsTree leaf 0 0) >>= fun r =>
      thash H ((List.range spxForsSigTrees).map r.1) ctx
        (addrOf 0 tree addrTypeForsPk leaf 0 0) := by
    rw [forsPkFromSig, haddr, zeroAddr_eq_addrOf, copyKeypairAddr_addrOf,
      setType_addrOf, setType_addrOf]
  rw [heq]
  refine ⟨?_, ?_⟩
  · rw [Traced.val_bind, hinput]
    rfl
  · intro q hq
    rw [Traced.log_bind, hinput, List.mem_append]
    cases hq with
    | leaf t ht =>
        exact Or.inl (Traced.mem_log_forRange ht
          (forsPkFromSigTree_spec (hround t)).2.1)
    | node t k ht hk =>
        exact Or.inl (Traced.mem_log_forRange ht
          ((forsPkFromSigTree_spec (hround t)).2.2 k hk))
    | pk => exact Or.inr (List.mem_singleton_self _)

end ForsPk

/-!
## The loop over the layers
-/

section Layers

variable {E H} {sig : Vector UInt8 3680} {ctx : SpxCtx} {tree leaf l : ℕ}

/-- The variables of the loop before layer `l`, up to the root. -/
structure VerifyStateOk (tree leaf l : ℕ) (s : VerifyLayerState) : Prop where
  sig : s.sig = layerOffset l
  pos : (s.tree, s.idxLeaf) = layerPos tree leaf l
  wotsAddr : ∃ layer tree keypair height index, index < 256 ∧
    s.wotsAddr = addrOf layer tree addrTypeWots keypair height index
  treeAddr : ∃ layer tree height index,
    s.treeAddr = addrOf layer tree addrTypeHashTree 0 height index
  wotsPkAddr : ∃ layer tree keypair,
    s.wotsPkAddr = addrOf layer tree addrTypeWotsPk keypair 0 0

/-- The root that the verifier recomputes for layer `l`. -/
def layerRoot (H : HashFns) (sig : Vector UInt8 3680) (ctx : SpxCtx) (tree leaf l : ℕ)
    (lengths : Vector ℕ 16) : Block :=
  recoveredRoot H sig ctx.stateSeeded l (layerPos tree leaf l).1
    (layerPos tree leaf l).2 (layerOffset l) lengths

/-- The calls of layer `l`. -/
def LayerCallAt (H : HashFns) (sig : Vector UInt8 3680) (ctx : SpxCtx)
    (tree leaf l : ℕ) (lengths : Vector ℕ 16) : Query → Prop :=
  LayerCall H sig ctx.stateSeeded l (layerPos tree leaf l).1 (layerPos tree leaf l).2
    (layerOffset l) lengths

theorem verifyLayer_of_error {s : VerifyLayerState} {c : Int} {T : ThreadState}
    (hres : searchResult H s.root (wotscBound E s.T) s.T = (.error c, T)) :
    (verifyLayer E H sig ctx l s).val = .error T := by
  rw [verifyLayer]
  simp only [wotsPkFromSig, Traced.val_bind, chainLengths_val, hres, Traced.val_pure]

theorem verifyLayer_of_ok {s : VerifyLayerState} (hs : VerifyStateOk tree leaf l s)
    {lengths : Vector ℕ 16} {T : ThreadState}
    (hres : searchResult H s.root (wotscBound E s.T) s.T = (.ok lengths, T)) :
    ∃ u, (verifyLayer E H sig ctx l s).val = .ok u ∧
      VerifyStateOk tree leaf (l + 1) u ∧
      u.root = layerRoot H sig ctx tree leaf l lengths ∧ u.T = T ∧
      ∀ q, LayerCallAt H sig ctx tree leaf l lengths q →
        q ∈ (verifyLayer E H sig ctx l s).log := by
  obtain ⟨hsig, hpos, ⟨_, _, keypair, height, index, hindex, hwots⟩,
    ⟨_, _, height', index', htreeAddr⟩, _, _, keypair', hpk⟩ := hs
  obtain ⟨htree, hleaf⟩ := Prod.mk.inj hpos
  have hlen (i : ℕ) : lengths.getD i 0 < spxWotsW :=
    searchResult_lt (congrArg Prod.fst hres) i
  obtain ⟨hchains, hsteps⟩ := wotsPkChains_spec sig ctx l (layerPos tree leaf l).1
    (layerPos tree leaf l).2 (layerOffset l) hlen s.wotsPk ⟨height, index, hindex, rfl⟩
  have hinput : (List.range spxWotsLen).map
      (wotsPkChains H s.wotsPk sig (layerOffset l) lengths ctx
        (addrOf l (layerPos tree leaf l).1 addrTypeWots (layerPos tree leaf l).2 height
          index)).val.1 =
      chainEnds H sig ctx.stateSeeded l (layerPos tree leaf l).1 (layerPos tree leaf l).2
        (layerOffset l) lengths :=
    List.map_congr_left fun i hi => hchains.ends i (List.mem_range.mp hi)
  obtain ⟨hroot, hwalk, hnodes⟩ := computeRoot_spec H sig ctx (layerPos tree leaf l).2 0
    (layerOffset l + spxWotsBytes)
    (recoveredLeaf H sig ctx.stateSeeded l (layerPos tree leaf l).1
      (layerPos tree leaf l).2 (layerOffset l) lengths)
    (show 0 < spxTreeHeight by decide)
    (show WalkAddr l (layerPos tree leaf l).1 addrTypeHashTree 0
      (addrOf l (layerPos tree leaf l).1 addrTypeHashTree 0 height' index') from
        ⟨_, _, rfl⟩)
  rw [Nat.zero_mul, Nat.add_zero] at *
  have hleafCall : thash H (chainEnds H sig ctx.stateSeeded l (layerPos tree leaf l).1
        (layerPos tree leaf l).2 (layerOffset l) lengths) ctx
        (addrOf l (layerPos tree leaf l).1 addrTypeWotsPk (layerPos tree leaf l).2 0 0) =
      ⟨recoveredLeaf H sig ctx.stateSeeded l (layerPos tree leaf l).1
          (layerPos tree leaf l).2 (layerOffset l) lengths,
        [.thash (adrs (Role.wotsPk l (layerPos tree leaf l).1
            (layerPos tree leaf l).2).addr)
          (chainEnds H sig ctx.stateSeeded l (layerPos tree leaf l).1
            (layerPos tree leaf l).2 (layerOffset l) lengths)
          (recoveredLeaf H sig ctx.stateSeeded l (layerPos tree leaf l).1
            (layerPos tree leaf l).2 (layerOffset l) lengths)]⟩ := rfl
  have hpkSig := wotsPkFromSig_of_ok sig ctx (layerOffset l)
    ((chainLengths_val E H s.root s.T).trans hres) s.wotsPk
    (addrOf l (layerPos tree leaf l).1 addrTypeWots (layerPos tree leaf l).2 height index)
  rw [verifyLayer]
  simp only [hwots, htreeAddr, hpk, setLayerAddr_addrOf, setTreeAddr_addrOf,
    copySubtreeAddr_addrOf, setKeypairAddr_addrOf, copyKeypairAddr_addrOf, hsig, htree,
    hleaf, hpkSig, Traced.val_bind, Traced.log_bind, hinput, hleafCall, Traced.val_pure]
  obtain ⟨height'', index'', hindex'', haddr⟩ := hchains.addr
  refine ⟨_, rfl, ⟨?_, rfl, ⟨_, _, _, _, _, hindex'', haddr⟩, ⟨_, _, hwalk⟩,
    ⟨_, _, _, rfl⟩⟩, hroot, rfl, ?_⟩
  · simp only [layerOffset, layerBytes, Nat.succ_mul]
    omega
  · intro q hq
    simp only [List.mem_append]
    cases hq with
    | step i k hi hk => exact Or.inl (Or.inr (hsteps i hi k hk))
    | pk => exact Or.inr (Or.inl (List.mem_singleton_self _))
    | node k hk => exact Or.inr (Or.inr (Or.inl (hnodes k hk)))

end Layers

/-!
## A whole run
-/

section Run

variable (sig : Vector UInt8 3680) (m : List UInt8) (pk : Vector UInt8 32)
  (T : ThreadState)

/-- The digest and the position that a signature selects. -/
def verifyDigest : Block × ℕ × ℕ := hashMessage H (slice sig 0 spxN) pk m

/-- The variables of the loop of a verification run before layer `l`. -/
def verifyStateAt (l : ℕ) : Except ThreadState VerifyLayerState :=
  (Traced.forRangeExcept l (verifyLayer E H sig (pkCtx E H pk))
    (verifyLayersStart E H sig (verifyDigest H sig m pk).1 (verifyDigest H sig m pk).2.1
      (verifyDigest H sig m pk).2.2 (pkCtx E H pk) T).val).val

/-- `crypto_sign_verify` accepts when the last FORS index is zero and the loop reaches
the root of the public key. -/
theorem cryptoSignVerify_eq_zero_iff :
    (cryptoSignVerify E H sig spxBytes m pk T).val.1 = 0 ↔
      forscCompressedIndex (verifyDigest H sig m pk).1 = 0 ∧
        ∃ s, verifyStateAt E H sig m pk T spxD = .ok s ∧ s.root = slice pk spxN spxN := by
  unfold cryptoSignVerify verifyStateAt verifyDigest
  rw [if_neg (not_not_intro rfl)]
  simp only
  split
  · next hidx => simp [hidx]
  · next hidx =>
      rw [Classical.not_not] at hidx
      simp only [hidx, true_and, Traced.val_bind]
      cases (Traced.forRangeExcept spxD (verifyLayer E H sig (pkCtx E H pk))
        (verifyLayersStart E H sig (hashMessage H (slice sig 0 spxN) pk m).1
          (hashMessage H (slice sig 0 spxN) pk m).2.1
          (hashMessage H (slice sig 0 spxN) pk m).2.2 (pkCtx E H pk) T).val).val with
      | error T' => simp
      | ok s =>
          by_cases hroot : s.root = slice pk spxN spxN
          · simp [hroot]
          · simp [hroot]

theorem verifyDigest_pos :
    (verifyDigest H sig m pk).2.1 < 2 ^ 24 ∧ (verifyDigest H sig m pk).2.2 < 2 ^ 6 :=
  ⟨hashMessage_tree_lt _ _ _ _, hashMessage_leaf_lt _ _ _ _⟩

/-- `VerifyStateOk` at the position that a signature selects. -/
abbrev RunStateOk (l : ℕ) (s : VerifyLayerState) : Prop :=
  VerifyStateOk (verifyDigest H sig m pk).2.1 (verifyDigest H sig m pk).2.2 l s

/-- The FORS public key that a signature gives. -/
def runForsPk : Block :=
  recoveredForsPk H sig (pkCtx E H pk).stateSeeded (verifyDigest H sig m pk).2.1
    (verifyDigest H sig m pk).2.2 spxN (verifyDigest H sig m pk).1

/-- The root that a signature gives for layer `l`, with the chain lengths of its
value. -/
def runRoot (l : ℕ) (lengths : Vector ℕ 16) : Block :=
  layerRoot H sig (pkCtx E H pk) (verifyDigest H sig m pk).2.1
    (verifyDigest H sig m pk).2.2 l lengths

/-- The calls of a run for its FORS public key. -/
def RunForsCall : Query → Prop :=
  ForsCall H sig (pkCtx E H pk).stateSeeded (verifyDigest H sig m pk).2.1
    (verifyDigest H sig m pk).2.2 spxN (verifyDigest H sig m pk).1

/-- The calls of a run for layer `l`. -/
def RunLayerCall (l : ℕ) (lengths : Vector ℕ 16) : Query → Prop :=
  LayerCallAt H sig (pkCtx E H pk) (verifyDigest H sig m pk).2.1
    (verifyDigest H sig m pk).2.2 l lengths

theorem verifyStateAt_zero :
    ∃ s, verifyStateAt E H sig m pk T 0 = .ok s ∧ RunStateOk H sig m pk 0 s ∧
      s.root = runForsPk E H sig m pk ∧ s.T = T ∧
      ∀ q, RunForsCall E H sig m pk q →
        q ∈ (verifyLayersStart E H sig (verifyDigest H sig m pk).1
          (verifyDigest H sig m pk).2.1 (verifyDigest H sig m pk).2.2 (pkCtx E H pk)
          T).log := by
  have haddr : setKeypairAddr (setTreeAddr (setType zeroAddr addrTypeWots)
      (verifyDigest H sig m pk).2.1) (verifyDigest H sig m pk).2.2 =
      addrOf 0 (verifyDigest H sig m pk).2.1 addrTypeWots (verifyDigest H sig m pk).2.2
        0 0 := by
    rw [zeroAddr_eq_addrOf, setType_addrOf, setTreeAddr_addrOf, setKeypairAddr_addrOf]
  have hzero (type : ℕ) : setType zeroAddr type = addrOf 0 0 type 0 0 0 := by
    rw [zeroAddr_eq_addrOf, setType_addrOf]
  have hfors : _ ∧ ∀ q, RunForsCall E H sig m pk q → _ := forsPkFromSig_spec E sig
    (pkCtx E H pk) spxN (verifyDigest H sig m pk).1 ⟨_, _, haddr⟩
  refine ⟨_, rfl, ⟨rfl, rfl, ⟨_, _, _, _, _, by decide, haddr⟩, ⟨_, _, _, _, hzero _⟩,
    ⟨_, _, _, hzero _⟩⟩, hfors.1, rfl, ?_⟩
  intro q hq
  exact List.mem_append_left _ (hfors.2 q hq)

variable {E H sig m pk T} {l : ℕ}

theorem verifyStateAt_succ_eq_ok_iff {u : VerifyLayerState} :
    verifyStateAt E H sig m pk T (l + 1) = .ok u ↔
      ∃ s, verifyStateAt E H sig m pk T l = .ok s ∧
        (verifyLayer E H sig (pkCtx E H pk) l s).val = .ok u :=
  Traced.forRangeExcept_succ_eq_ok_iff _ _ _ _

/-- What a run that passes layer `l` has done there: from the variables `s` it found the
chain lengths of the value `s.root`, and it went on with the recomputed root. -/
structure LayerPassed (E : Build) (H : HashFns) (sig : Vector UInt8 3680)
    (m : List UInt8) (pk : Vector UInt8 32) (T : ThreadState) (l : ℕ)
    (s u : VerifyLayerState) (lengths : Vector ℕ 16) : Prop where
  before : verifyStateAt E H sig m pk T l = .ok s
  state : RunStateOk H sig m pk l s
  search : searchResult H s.root (wotscBound E s.T) s.T = (.ok lengths, u.T)
  root : u.root = runRoot E H sig m pk l lengths
  calls : ∀ q, RunLayerCall E H sig m pk l lengths q →
    q ∈ (verifyLayer E H sig (pkCtx E H pk) l s).log

theorem verifyStateAt_succ_of_ok {s : VerifyLayerState} {lengths : Vector ℕ 16}
    {T' : ThreadState} (hat : verifyStateAt E H sig m pk T l = .ok s)
    (hs : RunStateOk H sig m pk l s)
    (hres : searchResult H s.root (wotscBound E s.T) s.T = (.ok lengths, T')) :
    ∃ u, verifyStateAt E H sig m pk T (l + 1) = .ok u ∧ RunStateOk H sig m pk (l + 1) u ∧
      u.T = T' ∧ LayerPassed E H sig m pk T l s u lengths := by
  obtain ⟨u, hval, hu, hroot, hT, hcalls⟩ := verifyLayer_of_ok hs hres
  refine ⟨u, verifyStateAt_succ_eq_ok_iff.mpr ⟨s, hat, hval⟩, hu, hT, hat, hs, ?_, hroot,
    hcalls⟩
  rw [hT]
  exact hres

theorem runStateOk_of_eq_ok {s : VerifyLayerState}
    (hat : verifyStateAt E H sig m pk T l = .ok s) : RunStateOk H sig m pk l s := by
  induction l generalizing s with
  | zero =>
      obtain ⟨s', hat', hs', _⟩ := verifyStateAt_zero E H sig m pk T
      rw [hat] at hat'
      cases hat'
      exact hs'
  | succ l ih =>
      obtain ⟨t, hbefore, hval⟩ := verifyStateAt_succ_eq_ok_iff.mp hat
      have ht := ih hbefore
      cases hres : searchResult H t.root (wotscBound E t.T) t.T with
      | mk found T' =>
        cases found with
        | error c =>
            rw [verifyLayer_of_error hres] at hval
            cases hval
        | ok lengths =>
            obtain ⟨u, hu, huok, _⟩ := verifyStateAt_succ_of_ok hbefore ht hres
            rw [hat] at hu
            cases hu
            exact huok

theorem layerPassed_of_succ_eq_ok {u : VerifyLayerState}
    (hat : verifyStateAt E H sig m pk T (l + 1) = .ok u) :
    ∃ s lengths, LayerPassed E H sig m pk T l s u lengths := by
  obtain ⟨s, hbefore, hval⟩ := verifyStateAt_succ_eq_ok_iff.mp hat
  cases hres : searchResult H s.root (wotscBound E s.T) s.T with
  | mk found T' =>
    cases found with
    | error c =>
        rw [verifyLayer_of_error hres] at hval
        cases hval
    | ok lengths =>
        obtain ⟨v, hv, _, _, hpassed⟩ :=
          verifyStateAt_succ_of_ok hbefore (runStateOk_of_eq_ok hbefore) hres
        rw [hat] at hv
        cases hv
        exact ⟨s, lengths, hpassed⟩

/-- The calls of a run whose digest leaves the last FORS tree at index zero. -/
theorem log_cryptoSignVerify (hidx : forscCompressedIndex (verifyDigest H sig m pk).1 = 0) :
    ∃ log, (cryptoSignVerify E H sig spxBytes m pk T).log =
      (verifyLayersStart E H sig (verifyDigest H sig m pk).1 (verifyDigest H sig m pk).2.1
          (verifyDigest H sig m pk).2.2 (pkCtx E H pk) T).log ++
        ((Traced.forRangeExcept spxD (verifyLayer E H sig (pkCtx E H pk))
          (verifyLayersStart E H sig (verifyDigest H sig m pk).1
            (verifyDigest H sig m pk).2.1 (verifyDigest H sig m pk).2.2 (pkCtx E H pk)
            T).val).log ++ log) := by
  unfold cryptoSignVerify verifyDigest at *
  rw [if_neg (not_not_intro rfl)]
  simp only
  rw [if_neg (not_not_intro hidx)]
  exact ⟨_, by rw [Traced.log_bind, Traced.log_bind]⟩

theorem mem_log_of_forsCall
    (hidx : forscCompressedIndex (verifyDigest H sig m pk).1 = 0) {q : Query}
    (hq : RunForsCall E H sig m pk q) :
    q ∈ (cryptoSignVerify E H sig spxBytes m pk T).log := by
  obtain ⟨_, _, _, _, _, hcalls⟩ := verifyStateAt_zero E H sig m pk T
  obtain ⟨log, hlog⟩ := log_cryptoSignVerify (E := E) (T := T) hidx
  rw [hlog]
  exact List.mem_append_left _ (hcalls q hq)

/-- An accepting run makes the calls of every layer that it passes. -/
theorem LayerPassed.mem_log {s u : VerifyLayerState} {lengths : Vector ℕ 16}
    (h : LayerPassed E H sig m pk T l s u lengths) (hl : l < spxD)
    (hidx : forscCompressedIndex (verifyDigest H sig m pk).1 = 0) {q : Query}
    (hq : RunLayerCall E H sig m pk l lengths q) :
    q ∈ (cryptoSignVerify E H sig spxBytes m pk T).log := by
  obtain ⟨log, hlog⟩ := log_cryptoSignVerify (E := E) (T := T) hidx
  rw [hlog]
  exact List.mem_append_right _ (List.mem_append_left _
    (Traced.mem_log_forRangeExcept hl h.before (h.calls q hq)))

end Run

end BitcoinPqc
