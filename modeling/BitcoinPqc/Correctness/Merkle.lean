import BitcoinPqc.Correctness.WotsLeaf
import BitcoinPqc.Sphincs.Merkle

/-!
# Both versions of `merkle_sign` sign with a keypair of the hypertree

Whether the scalar or the vectorised code runs, `merkleSign` returns the root of
the subtree, whatever value it signs, and on success leaves the WOTS signature of
the value and the authentication path of the leaf in the layer's window. It fails
exactly when the counter search does. Without a leaf to sign with it runs no
search and returns the same root.
-/

namespace BitcoinPqc

variable (E : Build) (H : HashFns) (ctx : SpxCtx)

/-- The calls that the dispatched code may make satisfy `P`: those of the key for
the scalar code, all of them for the vectorised code. -/
structure CallsOk (P : Query → Prop) : Prop where
  scalar : E.hasAvx2 = false → ∀ r : Role, r.Valid → P (queryAt H ctx r)
  avx2 : E.hasAvx2 = true → AnyHash P

/-- The window of a layer after signing with the keypair at `leaf`. -/
structure LayerSigned {n : ℕ} (layer tree leaf : ℕ) (lengths : Vector ℕ 16) (sig : ℕ)
    (mem : Vector UInt8 n) : Prop where
  chains : ∀ i < spxWotsLen, slice mem (sig + i * spxN) spxN =
    wotsValue H ctx layer tree leaf i (lengths.getD i 0)
  path : ∀ k < spxTreeHeight, slice mem (sig + spxWotsBytes + k * spxN) spxN =
    treeNode H ctx layer tree k (siblingIdx leaf k)

/-- The length of the window of a layer. -/
abbrev layerBytes : ℕ := spxWotsBytes + spxTreeHeight * spxN

/-- The address buffers of a layer: the fields of the subtree are right, and the
tree address has no keypair. -/
structure LayerAddrs (layer tree : ℕ) (wotsAddr treeAddr : Addr) : Prop where
  wots : ∃ type keypair height index,
    wotsAddr = addrOf layer tree type keypair height index
  tree : ∃ type height index, treeAddr = addrOf layer tree type 0 height index

variable {H ctx} {layer tree : ℕ} {P : Query → Prop} {n : ℕ}

theorem AnyHash.query (hP : AnyHash P) (r : Role) : P (queryAt H ctx r) := by
  cases r with
  | wotsPrf => exact hP.prfAddr _ _ _
  | forsPrf => exact hP.prfAddr _ _ _
  | forsNode tree leaf height index =>
      cases height with
      | zero => exact hP.thash _ _ _
      | succ height => exact hP.thash _ _ _
  | _ => exact hP.thash _ _ _

theorem CallsOk.of_anyHash {E : Build} (hP : AnyHash P) : CallsOk E H ctx P :=
  ⟨fun _ r _ => hP.query r, fun _ => hP⟩

theorem callsOk_true (E : Build) (H : HashFns) (ctx : SpxCtx) :
    CallsOk E H ctx fun _ => True :=
  CallsOk.of_anyHash ⟨fun _ _ _ => trivial, fun _ _ _ => trivial⟩

theorem CallsOk.query {E : Build} (hP : CallsOk E H ctx P) {r : Role} (hr : r.Valid) :
    P (queryAt H ctx r) := by
  cases havx2 : E.hasAvx2 with
  | true => exact (hP.avx2 havx2).query r
  | false => exact hP.scalar havx2 r hr

theorem walkTree_treeNode
    (hP : ∀ h < spxTreeHeight, ∀ j < 2 ^ (spxTreeHeight - (h + 1)),
      P (queryAt H ctx (.treeNode layer tree (h + 1) j))) :
    WalkTree H ctx layer tree addrTypeHashTree 0 spxTreeHeight 0
      (treeNode H ctx layer tree) P where
  node_succ := by
    intro h _ j
    rw [Nat.zero_shiftRight, Nat.add_zero]
    rfl
  query := by
    intro h hh j hj
    rw [Nat.zero_shiftRight, Nat.add_zero]
    exact hP h hh j hj

theorem leafQueries_of_valid (hP : ∀ r : Role, r.Valid → P (queryAt H ctx r))
    (hlayer : layer < spxD) (htree : tree < 2 ^ 24) {leaf : ℕ}
    (hleaf : leaf < 2 ^ spxTreeHeight) : LeafQueries H ctx layer tree P leaf where
  prf := fun i hi => hP (.wotsPrf layer tree leaf i) ⟨hlayer, htree, hleaf, hi⟩
  step := fun i hi k hk =>
    hP (.wotsStep layer tree leaf i k) ⟨hlayer, htree, hleaf, hi, hk⟩
  pk := hP (.wotsPk layer tree leaf) ⟨hlayer, htree, hleaf⟩

/-- What `merkle_sign` leaves when it has the chain lengths `steps`. -/
def SubtreeDone (H : HashFns) (ctx : SpxCtx) (layer tree sig idxLeaf : ℕ)
    (steps : Option (Vector ℕ 16)) (mem : Vector UInt8 n) (T : ThreadState)
    (r : MerkleSignResult n) : Prop :=
  r.code = 0 ∧ r.root = treeRoot H ctx layer tree ∧ r.T = T ∧
    (∃ type height index, r.treeAddr = addrOf layer tree type 0 height index) ∧
    EqOutside r.mem mem sig (sig + layerBytes) ∧
    (idxLeaf < 2 ^ spxTreeHeight → ∀ v, steps = some v →
      LayerSigned H ctx layer tree idxLeaf v sig r.mem)

/-- What `merkle_sign` leaves in both cases of the counter search. -/
def MerkleOk (H : HashFns) (ctx : SpxCtx) (layer tree sig idxLeaf : ℕ)
    (mem : Vector UInt8 n) (found : Except Int (Option (Vector ℕ 16)) × ThreadState)
    (r : MerkleSignResult n) : Prop :=
  match found with
  | (.error c, T) => r.code = c ∧ r.mem = mem ∧ r.T = T
  | (.ok steps, T) => SubtreeDone H ctx layer tree sig idxLeaf steps mem T r

section Versions

variable {sig idxLeaf : ℕ} {mem : Vector UInt8 n} {root : Block}
  {wotsAddr treeAddr : Addr} {T : ThreadState}
  {found : Except Int (Option (Vector ℕ 16)) × ThreadState}

theorem layerMem_done {steps : Option (Vector ℕ 16)} {mem' : Vector UInt8 n}
    (hmem : LeafMem H ctx layer tree sig idxLeaf steps mem (2 ^ spxTreeHeight) mem')
    (hpath : PathOk (treeNode H ctx layer tree) spxTreeHeight idxLeaf
      (sig + spxWotsBytes) spxTreeHeight mem')
    (hleaf : idxLeaf < 2 ^ spxTreeHeight) (v : Vector ℕ 16) (hv : steps = some v) :
    LayerSigned H ctx layer tree idxLeaf v sig mem' :=
  ⟨hmem.2 v hv hleaf, hpath hleaf⟩

theorem merkleSignScalar_sat (hP : ∀ r : Role, r.Valid → P (queryAt H ctx r))
    (hlayer : layer < spxD) (htree : tree < 2 ^ 24)
    (hfound : Traced.Sat P (fun r => r = found) (merkleSignSteps E H root idxLeaf T))
    (hsteps : ∀ v, found.1 = .ok (some v) → ∀ i, v.getD i 0 < spxWotsW)
    (hbound : sig + layerBytes ≤ n) (haddrs : LayerAddrs layer tree wotsAddr treeAddr) :
    Traced.Sat P (MerkleOk H ctx layer tree sig idxLeaf mem found)
      (merkleSignScalar E H sig mem root ctx wotsAddr treeAddr idxLeaf T) := by
  obtain ⟨⟨type, keypair, height, index, hwots⟩, type', height', index', htreeAddr⟩ :=
    haddrs
  rw [merkleSignScalar]
  refine hfound.bind ?_
  rintro ⟨res, T'⟩ hres
  subst hres
  cases res with
  | error c => exact Traced.Sat.pure ⟨rfl, rfl, rfl⟩
  | ok steps =>
      simp only [hwots, htreeAddr, setType_addrOf, zeroAddr_eq_addrOf,
        copySubtreeAddr_addrOf]
      have hgen : LeafGen (treeNode H ctx layer tree) P spxTreeHeight 0
          (sig + spxWotsBytes) (wotsGenLeafx1Scalar E H ctx)
          (LeafInv H ctx layer tree sig idxLeaf steps mem) :=
        leafGen_wots E (fun leaf hleaf => leafQueries_of_valid hP hlayer htree hleaf)
          (fun v hv => hsteps v (by rw [hv])) (by omega)
      have hinv : LeafInv H ctx layer tree sig idxLeaf steps mem 0
          ⟨steps.map fun _ => sig, idxLeaf, steps, addrOf layer tree 0 0 0 0,
            addrOf layer tree addrTypeWotsPk 0 0 0⟩ mem :=
        ⟨⟨rfl, rfl, rfl, ⟨0, 0, 0, 0, by decide, rfl⟩, ⟨0, rfl⟩⟩,
          EqOutside.refl _ _ _, fun v hv hlt => absurd hlt (Nat.not_lt_zero _)⟩
      refine Traced.Sat.bind (treehashx1_sat
        (walkTree_treeNode fun h hh j hj => hP (.treeNode layer tree (h + 1) j)
          ⟨hlayer, htree, Nat.le_add_left 1 h, hh, hj⟩)
        hgen (by omega) E.uninit ⟨height', index', rfl⟩ hinv) ?_
      rintro r ⟨hroot, ⟨height, index, haddr⟩, ⟨_, hmem⟩, hpath⟩
      exact Traced.Sat.pure ⟨rfl, hroot, rfl, ⟨_, height, index, haddr⟩, hmem.1,
        layerMem_done hmem hpath⟩

theorem merkleSignAvx2_sat (hP : AnyHash P)
    (hfound : Traced.Sat P (fun r => r = found) (merkleSignSteps E H root idxLeaf T))
    (hsteps : ∀ v, found.1 = .ok (some v) → ∀ i, v.getD i 0 < spxWotsW)
    (hleaf : idxLeaf < 2 ^ 32) (hbound : sig + layerBytes ≤ n)
    (haddrs : LayerAddrs layer tree wotsAddr treeAddr) :
    Traced.Sat P (MerkleOk H ctx layer tree sig idxLeaf mem found)
      (merkleSignAvx2 E H sig mem root ctx wotsAddr treeAddr idxLeaf T) := by
  obtain ⟨⟨type, keypair, height, index, hwots⟩, type', height', index', htreeAddr⟩ :=
    haddrs
  rw [merkleSignAvx2]
  refine hfound.bind ?_
  rintro ⟨res, T'⟩ hres
  subst hres
  cases res with
  | error c => exact Traced.Sat.pure ⟨rfl, rfl, rfl⟩
  | ok steps =>
      simp only [hwots, htreeAddr, setType_addrOf, zeroAddr_eq_addrOf,
        copySubtreeAddr_addrOf]
      have hgen : LeafGenX8 (treeNode H ctx layer tree) P spxTreeHeight 0
          (sig + spxWotsBytes) (wotsGenLeafx8 E H ctx)
          (LeafInvX8 H ctx layer tree sig idxLeaf steps mem) :=
        leafGenX8_wots E hP (fun v hv => hsteps v (by rw [hv])) (by omega) hleaf
      have hinv : LeafInvX8 H ctx layer tree sig idxLeaf steps mem 0
          ⟨steps.map fun _ => sig, idxLeaf, steps,
            fun _ => addrOf layer tree addrTypeWots 0 0 0,
            fun _ => addrOf layer tree addrTypeWotsPk 0 0 0⟩ mem :=
        ⟨⟨rfl, rfl, rfl, fun _ => ⟨_, 0, 0, 0, by decide, rfl⟩, fun _ => ⟨0, rfl⟩⟩,
          EqOutside.refl _ _ _, fun v hv hlt => absurd hlt (Nat.not_lt_zero _)⟩
      refine Traced.Sat.bind (treehashx8_sat
        (walkTree_treeNode fun h hh j hj => hP.thash _ _ _)
        hgen hP.thash (by omega) (by decide) ⟨by decide, by decide⟩ hleaf _
        (fun _ => ⟨0, 0, rfl⟩) hinv) ?_
      rintro r ⟨hroot, ⟨_, hmem⟩, hpath⟩
      exact Traced.Sat.pure ⟨rfl, hroot, rfl, ⟨_, height', index', rfl⟩, hmem.1,
        layerMem_done hmem hpath⟩

/-- `merkle_sign` in both versions. -/
theorem merkleSign_sat (hP : CallsOk E H ctx P) (hlayer : layer < spxD)
    (htree : tree < 2 ^ 24)
    (hfound : Traced.Sat P (fun r => r = found) (merkleSignSteps E H root idxLeaf T))
    (hsteps : ∀ v, found.1 = .ok (some v) → ∀ i, v.getD i 0 < spxWotsW)
    (hleaf : idxLeaf < 2 ^ 32) (hbound : sig + layerBytes ≤ n)
    (haddrs : LayerAddrs layer tree wotsAddr treeAddr) :
    Traced.Sat P (MerkleOk H ctx layer tree sig idxLeaf mem found)
      (merkleSign E H sig mem root ctx wotsAddr treeAddr idxLeaf T) := by
  unfold merkleSign
  cases havx2 : E.hasAvx2 with
  | true =>
      rw [if_pos rfl]
      exact merkleSignAvx2_sat E (hP.avx2 havx2) hfound hsteps hleaf hbound haddrs
  | false =>
      rw [if_neg Bool.false_ne_true]
      exact merkleSignScalar_sat E (hP.scalar havx2) hlayer htree hfound hsteps hbound
        haddrs

end Versions

theorem searchResult_lt {msg : Block} {bound : ℕ} {T : ThreadState} {v : Vector ℕ 16}
    (h : (searchResult H msg bound T).1 = .ok v) (i : ℕ) : v.getD i 0 < spxWotsW := by
  unfold searchResult at h
  split at h
  · cases h
    exact baseW_lt _ _ _
  · cases h

theorem merkleSign_sign_sat (hP : CallsOk E H ctx P)
    (hsearch : ∀ msg c, P (.wotscHash msg c)) (hlayer : layer < spxD)
    (htree : tree < 2 ^ 24) {sig idxLeaf : ℕ} (hleaf : idxLeaf < 2 ^ spxTreeHeight)
    (hbound : sig + layerBytes ≤ n) {wotsAddr treeAddr : Addr}
    (haddrs : LayerAddrs layer tree wotsAddr treeAddr) (mem : Vector UInt8 n)
    (root : Block) (T : ThreadState) :
    Traced.Sat P
      (MerkleOk H ctx layer tree sig idxLeaf mem
        ((searchResult H root (wotscBound E T) T).1.map some,
          (searchResult H root (wotscBound E T) T).2))
      (merkleSign E H sig mem root ctx wotsAddr treeAddr idxLeaf T) := by
  have hleaf64 : idxLeaf < 64 := hleaf
  have hsign : idxLeaf ≠ spxNoSignLeaf := by
    simp only [spxNoSignLeaf]
    omega
  refine merkleSign_sat E hP hlayer htree ?_ ?_ (by omega) hbound haddrs
  · rw [merkleSignSteps, if_pos hsign]
    have hlengths : Traced.Sat P
        (fun r => r = searchResult H root (wotscBound E T) T)
        (chainLengths E H root T) := by
      refine ⟨fun q hq => ?_, chainLengths_val E H root T⟩
      obtain ⟨c, rfl⟩ := chainLengths_log E H root T q hq
      exact hsearch root c
    refine hlengths.bind ?_
    rintro _ rfl
    exact Traced.Sat.pure rfl
  · intro v hv i
    cases hres : (searchResult H root (wotscBound E T) T).1 with
    | error c =>
        rw [hres] at hv
        cases hv
    | ok w =>
        rw [hres] at hv
        cases hv
        exact searchResult_lt hres i

/-- Without a leaf to sign with `merkle_sign` returns the root of the subtree. -/
theorem merkleSign_noSign_sat (hP : CallsOk E H ctx P) (hlayer : layer < spxD)
    (htree : tree < 2 ^ 24) {sig : ℕ} (hbound : sig + layerBytes ≤ n)
    {wotsAddr treeAddr : Addr} (haddrs : LayerAddrs layer tree wotsAddr treeAddr)
    (mem : Vector UInt8 n) (root : Block) (T : ThreadState) :
    Traced.Sat P (SubtreeDone H ctx layer tree sig spxNoSignLeaf none mem T)
      (merkleSign E H sig mem root ctx wotsAddr treeAddr spxNoSignLeaf T) := by
  have hfound : Traced.Sat P (fun r => r = (.ok none, T))
      (merkleSignSteps E H root spxNoSignLeaf T) := by
    rw [merkleSignSteps, if_neg (not_not_intro rfl)]
    exact Traced.Sat.pure rfl
  exact merkleSign_sat E hP hlayer htree hfound (fun v hv => by cases hv) (by decide)
    hbound haddrs

/-- `merkle_gen_root` returns the root of the top subtree, for every previous
content of its output. -/
theorem merkleGenRoot_sat (hP : CallsOk E H ctx P) (root : Block) (T : ThreadState) :
    Traced.Sat P (fun r => r = (0, treeRoot H ctx (spxD - 1) 0, T))
      (merkleGenRoot E H root ctx T) := by
  have haddrs : LayerAddrs (spxD - 1) 0 (setLayerAddr zeroAddr (spxD - 1))
      (setLayerAddr zeroAddr (spxD - 1)) := by
    rw [zeroAddr_eq_addrOf, setLayerAddr_addrOf]
    exact ⟨⟨0, 0, 0, 0, rfl⟩, ⟨0, 0, 0, rfl⟩⟩
  rw [merkleGenRoot]
  refine Traced.Sat.bind (merkleSign_noSign_sat E hP (by decide) (by decide)
    (by decide) haddrs _ root T) ?_
  rintro r ⟨hcode, hroot, hT, _⟩
  exact Traced.Sat.pure (by rw [hcode, hroot, hT])

end BitcoinPqc
