import BitcoinPqc.Foundation.TreeWalk
import BitcoinPqc.Sphincs.TreeHash

/-!
# Tree walks compute roots and authentication paths

`treehashx1` is proved once for every tree whose nodes satisfy the hash equations
of `NodeTree` and every leaf generator that keeps an invariant of its own,
`LeafGen`. The walk returns the root, keeps the generator's invariant and leaves
the sibling of the ancestor of `leafIdx` at every height in the authentication
path. The nodes are hashed under an arbitrary address in which the walk sets the
height and the index; `WalkTree` is the case of an address with given fields.

`computeRoot` is `climb` from the signed leaf, so with the siblings of a tree it
returns that tree's root.
-/

namespace BitcoinPqc

open Merkle

variable (H : HashFns)

/-- `nd h j` is the node at height `h` and index `j` of one tree, whose node
addresses have the given fields; the calls that hash its nodes satisfy `P`. -/
structure WalkTree (ctx : SpxCtx) (layer tree type keypair treeHeight idxOffset : ℕ)
    (nd : ℕ → ℕ → Block) (P : Query → Prop) : Prop where
  node_succ : ∀ h < treeHeight, ∀ j, nd (h + 1) j =
    H.thash ctx.stateSeeded
      (adrs (addrOf layer tree type keypair (h + 1) (j + idxOffset >>> (h + 1))))
      [nd h (2 * j), nd h (2 * j + 1)]
  query : ∀ h < treeHeight, ∀ j < 2 ^ (treeHeight - (h + 1)),
    P (.thash
      (adrs (addrOf layer tree type keypair (h + 1) (j + idxOffset >>> (h + 1))))
      [nd h (2 * j), nd h (2 * j + 1)] (nd (h + 1) j))

/-- The address buffer of a walk: only its height and index change. -/
def WalkAddr (layer tree type keypair : ℕ) (addr : Addr) : Prop :=
  ∃ height index, addr = addrOf layer tree type keypair height index

/-!
## Node addresses
-/

/-- The address of the node at the given height and index of a tree with the address
`base`. -/
def nodeAddr (base : Addr) (height index : ℕ) : Addr :=
  setTreeIndex (setTreeHeight base height) index

/-- `addr` is the address of a node, or of no node, of the same tree as `base`. -/
def TreeAddr (base addr : Addr) : Prop :=
  ∀ height index, nodeAddr addr height index = nodeAddr base height index

theorem nodeAddr_nodeAddr (base : Addr) (height index height' index' : ℕ) :
    nodeAddr (nodeAddr base height index) height' index' = nodeAddr base height' index' := by
  simp only [nodeAddr, setTreeHeight, setTreeIndex]
  rw [write_comm _ 18 17 _ _ (by decide), write_write_self, write_write_self]

theorem nodeAddr_addrOf (layer tree type keypair height index height' index' : ℕ) :
    nodeAddr (addrOf layer tree type keypair height index) height' index' =
      addrOf layer tree type keypair height' index' := by
  rw [nodeAddr, setTreeHeight_addrOf, setTreeIndex_addrOf]

theorem TreeAddr.of_eqOutside {base addr : Addr}
    (h : EqOutside addr base spxOffsetTreeHgt (spxOffsetTreeIndex + 4)) :
    TreeAddr base addr := by
  intro height index
  ext i hi
  simp only [nodeAddr, setTreeHeight, setTreeIndex, spxOffsetTreeHgt, spxOffsetTreeIndex,
    getElem_write] at h ⊢
  split
  · rfl
  · split
    · rfl
    · exact congrArg UInt8.toNat (h i hi (by omega))

theorem exists_nodeAddr_self (addr : Addr) :
    ∃ height index, nodeAddr addr height index = addr := by
  refine ⟨(addr.getD spxOffsetTreeHgt 0).toNat,
    bytesToUll (slice addr spxOffsetTreeIndex 4), ?_⟩
  have hheight : #v[UInt8.ofNat (addr.getD spxOffsetTreeHgt 0).toNat] =
      slice addr spxOffsetTreeHgt 1 := by
    apply Vector.ext
    intro i hi
    obtain rfl : i = 0 := by omega
    rw [getElem_slice _ _ _ _ hi (by decide), UInt8.ofNat_toNat]
    simp [Vector.getD]
  have hindex : u32ToBytes (bytesToUll (slice addr spxOffsetTreeIndex 4)) =
      slice addr spxOffsetTreeIndex 4 := by
    rw [u32ToBytes_eq, ullToBytes_bytesToUll]
  rw [nodeAddr, setTreeHeight, hheight, write_slice_self _ _ _ (by decide), setTreeIndex, hindex,
    write_slice_self _ _ _ (by decide)]

section TreeAddr

variable {base addr : Addr}

theorem TreeAddr.refl (base : Addr) : TreeAddr base base := fun _ _ => rfl

theorem TreeAddr.set_eq (h : TreeAddr base addr) (height index : ℕ) :
    setTreeIndex (setTreeHeight addr height) index = nodeAddr base height index :=
  h height index

theorem TreeAddr.nodeAddr (base : Addr) (height index : ℕ) :
    TreeAddr base (nodeAddr base height index) :=
  nodeAddr_nodeAddr base height index

theorem WalkAddr.treeAddr {layer tree type keypair : ℕ}
    (h : WalkAddr layer tree type keypair addr) :
    TreeAddr (addrOf layer tree type keypair 0 0) addr := by
  obtain ⟨height, index, rfl⟩ := h
  intro height' index'
  rw [nodeAddr_addrOf, nodeAddr_addrOf]

theorem TreeAddr.walkAddr {layer tree type keypair : ℕ}
    (h : TreeAddr (addrOf layer tree type keypair 0 0) addr) :
    WalkAddr layer tree type keypair addr := by
  obtain ⟨height, index, hself⟩ := exists_nodeAddr_self addr
  refine ⟨height, index, ?_⟩
  rw [← hself, h height index, nodeAddr_addrOf]

end TreeAddr

/-- `nd h j` is the node at height `h` and index `j` of one tree, whose node
addresses are those of `base`; the calls that hash its nodes satisfy `P`. -/
structure NodeTree (ctx : SpxCtx) (base : Addr) (treeHeight idxOffset : ℕ)
    (nd : ℕ → ℕ → Block) (P : Query → Prop) : Prop where
  node_succ : ∀ h < treeHeight, ∀ j, nd (h + 1) j =
    H.thash ctx.stateSeeded (adrs (nodeAddr base (h + 1) (j + idxOffset >>> (h + 1))))
      [nd h (2 * j), nd h (2 * j + 1)]
  query : ∀ h < treeHeight, ∀ j < 2 ^ (treeHeight - (h + 1)),
    P (.thash (adrs (nodeAddr base (h + 1) (j + idxOffset >>> (h + 1))))
      [nd h (2 * j), nd h (2 * j + 1)] (nd (h + 1) j))

theorem WalkTree.nodeTree {ctx : SpxCtx}
    {layer tree type keypair treeHeight idxOffset : ℕ} {nd : ℕ → ℕ → Block}
    {P : Query → Prop}
    (W : WalkTree H ctx layer tree type keypair treeHeight idxOffset nd P) :
    NodeTree H ctx (addrOf layer tree type keypair 0 0) treeHeight idxOffset nd P where
  node_succ h hh j := by
    rw [nodeAddr_addrOf]
    exact W.node_succ h hh j
  query h hh j hj := by
    rw [nodeAddr_addrOf]
    exact W.query h hh j hj

/-!
## The walk
-/

/-- The sibling of the ancestor at height `k` of the leaf `leafIdx`. -/
abbrev siblingIdx (leafIdx k : ℕ) : ℕ := (leafIdx >>> k) ^^^ 1

/-- Every sibling that the walk has met is in the authentication path. -/
def AuthOk {n : ℕ} (nd : ℕ → ℕ → Block) (treeHeight leafIdx authPath idx h : ℕ)
    (mem : Vector UInt8 n) : Prop :=
  ∀ k < treeHeight, Done idx h k (siblingIdx leafIdx k) →
    slice mem (authPath + k * spxN) spxN = nd k (siblingIdx leafIdx k)

/-- A leaf generator for the leaves of `nd` that keeps `Inv idx`, which the writes
of the authentication path do not disturb, and leaves that path alone. -/
structure LeafGen {n : ℕ} {ι : Type} (nd : ℕ → ℕ → Block) (P : Query → Prop)
    (treeHeight idxOffset authPath : ℕ)
    (genLeaf : ℕ → ι → Vector UInt8 n → Traced Query (Block × ι × Vector UInt8 n))
    (Inv : ℕ → ι → Vector UInt8 n → Prop) : Prop where
  gen : ∀ idx < 2 ^ treeHeight, ∀ info mem, Inv idx info mem →
    Traced.Sat P
      (fun r => r.1 = nd 0 idx ∧ Inv (idx + 1) r.2.1 r.2.2 ∧
        ∀ k < treeHeight, slice r.2.2 (authPath + k * spxN) spxN =
          slice mem (authPath + k * spxN) spxN)
      (genLeaf (idx + idxOffset) info mem)
  write : ∀ idx info mem k (b : Block), k < treeHeight → Inv idx info mem →
    Inv idx info (write mem (authPath + k * spxN) b)

section Walk

variable {H} {ctx : SpxCtx} {base : Addr}
  {layer tree type keypair treeHeight idxOffset : ℕ} {nd : ℕ → ℕ → Block}
  {P : Query → Prop} {n : ℕ} {leafIdx authPath : ℕ}

/-- The walk treats height `h` at the node `j`: the path entry of that height is
written exactly when `j` is the sibling. -/
theorem AuthOk.write_step {idx h j : ℕ} {mem : Vector UInt8 n}
    (hauth : AuthOk nd treeHeight leafIdx authPath idx h mem)
    (hbound : authPath + treeHeight * spxN ≤ n) (hh : h < treeHeight)
    (hend : idx + 1 = (j + 1) * 2 ^ h) :
    AuthOk nd treeHeight leafIdx authPath idx (h + 1)
      (if j ^^^ (leafIdx >>> h) = 1 then write mem (authPath + h * spxN) (nd h j)
      else mem) := by
  intro k hk hdone
  simp only [spxN] at hbound ⊢
  by_cases hsib : j = siblingIdx leafIdx h
  · have hxor : j ^^^ (leafIdx >>> h) = 1 := by
      rw [hsib, siblingIdx, Nat.xor_comm, ← Nat.xor_assoc, Nat.xor_self, Nat.zero_xor]
    rw [if_pos hxor]
    by_cases hkh : k = h
    · rw [hkh, slice_write_self _ _ _ (by omega), ← hsib]
    · rw [slice_write_of_disjoint _ _ _ _ _ (by omega)]
      rcases hdone.cases with hold | ⟨hnew, _⟩
      · exact hauth k hk hold
      · exact absurd hnew hkh
  · have hxor : ¬ j ^^^ (leafIdx >>> h) = 1 := by
      intro hone
      apply hsib
      rw [siblingIdx, ← hone, Nat.xor_comm j, ← Nat.xor_assoc, Nat.xor_self,
        Nat.zero_xor]
    rw [if_neg hxor]
    rcases hdone.cases with hold | ⟨rfl, heq⟩
    · exact hauth k hk hold
    · rw [hend] at heq
      have hidx := Nat.mul_right_cancel (Nat.two_pow_pos k) heq
      exact absurd (by omega) hsib

/-- What a climb from leaf `idx` returns: the left child it stops at, or the root after the
last leaf. -/
def ClimbResult (base : Addr) (treeHeight leafIdx authPath : ℕ) (nd : ℕ → ℕ → Block)
    (M : Vector UInt8 n → Prop) (idx : ℕ) (t : Option ℕ × TreeHashState n) : Prop :=
  M t.2.mem ∧ TreeAddr base t.2.treeAddr ∧
    t.1.elim
      (idx = 2 ^ treeHeight - 1 ∧ t.2.current = nd treeHeight 0 ∧
        AuthOk nd treeHeight leafIdx authPath idx treeHeight t.2.mem)
      fun h => idx < 2 ^ treeHeight - 1 ∧ ∃ j, j % 2 = 0 ∧
        idx + 1 = (j + 1) * 2 ^ h ∧ t.2.current = nd h j ∧
        AuthOk nd treeHeight leafIdx authPath idx (h + 1) t.2.mem

theorem treehashx1Climb_sat
    (W : NodeTree H ctx base treeHeight idxOffset nd P)
    (M : Vector UInt8 n → Prop)
    (hM : ∀ mem k (b : Block), k < treeHeight → M mem →
      M (write mem (authPath + k * spxN) b))
    (hbound : authPath + treeHeight * spxN ≤ n) {idx : ℕ}
    (hidx : idx < 2 ^ treeHeight) {stack : ℕ → Block}
    (hstack : StackOk nd treeHeight idx stack) (r h j : ℕ) (hr : h + r = treeHeight)
    (hend : idx + 1 = (j + 1) * 2 ^ h) (s : TreeHashState n)
    (hcur : s.current = nd h j) (haddr : TreeAddr base s.treeAddr)
    (hmem : M s.mem) (hauth : AuthOk nd treeHeight leafIdx authPath idx h s.mem) :
    Traced.Sat P (ClimbResult base treeHeight leafIdx authPath nd M idx)
      (treehashx1Climb H ctx authPath idx (2 ^ treeHeight - 1) stack r h j
        (leafIdx >>> h) (idxOffset >>> h) s) := by
  induction r generalizing h j s with
  | zero =>
      have hh : h = treeHeight := hr
      subst hh
      have hj := index_lt_of_climb hr hidx hend
      have hj0 : j = 0 := by omega
      subst hj0
      rw [treehashx1Climb]
      exact Traced.Sat.pure ⟨hmem, haddr, by omega, hcur, hauth⟩
  | succ r ih =>
      have hh : h < treeHeight := by omega
      have hauth' := hauth.write_step hbound hh hend
      rw [← hcur] at hauth'
      have hmem' : M (if j ^^^ (leafIdx >>> h) = 1
          then write s.mem (authPath + h * spxN) s.current else s.mem) := by
        split
        · exact hM _ _ _ hh hmem
        · exact hmem
      rw [treehashx1Climb]
      by_cases hstop : j &&& 1 = 0 ∧ idx < 2 ^ treeHeight - 1
      · simp only [if_pos hstop]
        rw [Nat.and_one_is_mod] at hstop
        exact Traced.Sat.pure
          ⟨hmem', haddr, hstop.2, j, hstop.1, hend, hcur, hauth'⟩
      · simp only [if_neg hstop]
        rw [Nat.and_one_is_mod] at hstop
        obtain ⟨p, rfl, hend'⟩ := exists_parent_of_climb hh hidx hend hstop
        have hleft := hstack.left_sibling hh hend
        have hp : p < 2 ^ (treeHeight - (h + 1)) := by
          rw [show treeHeight - (h + 1) = r by omega]
          exact index_lt_of_climb (by omega) hidx hend'
        have hshift : (2 * p + 1) >>> 1 = p := by
          rw [Nat.shiftRight_one]
          omega
        rw [haddr.set_eq, hleft, hcur, hshift, show (2 * p + 1) / 2 = p by omega,
          ← Nat.shiftRight_add, ← Nat.shiftRight_add]
        rw [hcur] at hauth' hmem'
        have hquery := W.query h hh p hp
        rw [W.node_succ h hh p] at hquery
        refine (Traced.Sat.ask (Q := fun b => b = nd (h + 1) p) hquery
          (W.node_succ h hh p).symm).bind ?_
        rintro _ rfl
        exact ih (h + 1) p (by omega) hend' _ rfl (TreeAddr.nodeAddr _ _ _) hmem' hauth'

theorem treehashx1Climb_leaf_sat {ι : Type}
    {genLeaf : ℕ → ι → Vector UInt8 n → Traced Query (Block × ι × Vector UInt8 n)}
    {Inv : ℕ → ι → Vector UInt8 n → Prop}
    (W : NodeTree H ctx base treeHeight idxOffset nd P)
    (G : LeafGen nd P treeHeight idxOffset authPath genLeaf Inv)
    (hbound : authPath + treeHeight * spxN ≤ n) {idx : ℕ} (hidx : idx < 2 ^ treeHeight)
    {stack : ℕ → Block} (hstack : StackOk nd treeHeight idx stack) {treeAddr : Addr}
    (haddr : TreeAddr base treeAddr) {mem mem' : Vector UInt8 n}
    (hauth : AuthOk nd treeHeight leafIdx authPath idx 0 mem) {leaf : Block} {info : ι}
    (hleaf : leaf = nd 0 idx) (hinv : Inv (idx + 1) info mem')
    (hframe : ∀ k < treeHeight, slice mem' (authPath + k * spxN) spxN =
      slice mem (authPath + k * spxN) spxN) :
    Traced.Sat P (ClimbResult base treeHeight leafIdx authPath nd (Inv (idx + 1) info) idx)
      (treehashx1Climb H ctx authPath idx (2 ^ treeHeight - 1) stack treeHeight 0 idx
        leafIdx idxOffset ⟨leaf, treeAddr, mem'⟩) := by
  have hauth' : AuthOk nd treeHeight leafIdx authPath idx 0 mem' :=
    fun k hk hdone => (hframe k hk).trans (hauth k hk hdone)
  exact treehashx1Climb_sat W (Inv (idx + 1) info)
    (fun mem k b hk hm => G.write _ _ _ k b hk hm) hbound hidx hstack treeHeight 0 idx
    (by omega) (by omega) ⟨leaf, treeAddr, mem'⟩ hleaf haddr hinv hauth'

/-- The path entries below height `h` are the siblings, for a leaf of the tree. -/
def PathOk (nd : ℕ → ℕ → Block) (treeHeight leafIdx authPath h : ℕ)
    (mem : Vector UInt8 n) : Prop :=
  leafIdx < 2 ^ treeHeight → ∀ k < h,
    slice mem (authPath + k * spxN) spxN = nd k (siblingIdx leafIdx k)

/-- What a whole walk with a buffer of the tree of `base` returns. -/
def NodeResult {ι : Type} (base : Addr) (treeHeight leafIdx authPath : ℕ)
    (nd : ℕ → ℕ → Block) (Inv : ℕ → ι → Vector UInt8 n → Prop)
    (r : Block × Addr × ι × Vector UInt8 n) : Prop :=
  r.1 = nd treeHeight 0 ∧ TreeAddr base r.2.1 ∧ Inv (2 ^ treeHeight) r.2.2.1 r.2.2.2 ∧
    PathOk nd treeHeight leafIdx authPath treeHeight r.2.2.2

/-- What a whole walk returns. -/
def WalkResult {ι : Type} (layer tree type keypair treeHeight leafIdx authPath : ℕ)
    (nd : ℕ → ℕ → Block) (Inv : ℕ → ι → Vector UInt8 n → Prop)
    (r : Block × Addr × ι × Vector UInt8 n) : Prop :=
  r.1 = nd treeHeight 0 ∧ WalkAddr layer tree type keypair r.2.1 ∧
    Inv (2 ^ treeHeight) r.2.2.1 r.2.2.2 ∧
    PathOk nd treeHeight leafIdx authPath treeHeight r.2.2.2

theorem siblingIdx_lt {leafIdx treeHeight k : ℕ} (hleaf : leafIdx < 2 ^ treeHeight)
    (hk : k < treeHeight) : siblingIdx leafIdx k < 2 ^ (treeHeight - k) := by
  refine Nat.xor_lt_two_pow ?_ (Nat.one_lt_two_pow (by omega))
  rw [Nat.shiftRight_eq_div_pow, Nat.div_lt_iff_lt_mul (Nat.two_pow_pos k),
    ← Nat.pow_add]
  rwa [show treeHeight - k + k = treeHeight by omega]

theorem treehashx1Loop_sat {ι : Type}
    {genLeaf : ℕ → ι → Vector UInt8 n → Traced Query (Block × ι × Vector UInt8 n)}
    {Inv : ℕ → ι → Vector UInt8 n → Prop}
    (W : NodeTree H ctx base treeHeight idxOffset nd P)
    (G : LeafGen nd P treeHeight idxOffset authPath genLeaf Inv)
    (hbound : authPath + treeHeight * spxN ≤ n) (rest idx : ℕ)
    (hrest : idx + rest = 2 ^ treeHeight - 1) (stack : ℕ → Block)
    (hstack : StackOk nd treeHeight idx stack) (treeAddr : Addr)
    (haddr : TreeAddr base treeAddr) (info : ι)
    (mem : Vector UInt8 n) (hinv : Inv idx info mem)
    (hauth : AuthOk nd treeHeight leafIdx authPath idx 0 mem) :
    Traced.Sat P (NodeResult base treeHeight leafIdx authPath nd Inv)
      (treehashx1Loop H ctx genLeaf leafIdx idxOffset treeHeight authPath
        (2 ^ treeHeight - 1) rest idx stack treeAddr info mem) := by
  have hpos : 0 < 2 ^ treeHeight := Nat.two_pow_pos treeHeight
  induction rest generalizing idx stack treeAddr info mem with
  | zero =>
      rw [treehashx1Loop]
      refine (G.gen idx (by omega) info mem hinv).bind ?_
      rintro ⟨leaf, info, mem'⟩ ⟨hleaf, hinv, hframe⟩
      refine (treehashx1Climb_leaf_sat W G hbound (by omega) hstack haddr hauth hleaf hinv
        hframe).bind ?_
      rintro ⟨stop, s⟩ ⟨hmem, haddr, hstop⟩
      cases stop with
      | some h => exact absurd hstop.1 (by omega)
      | none =>
          obtain ⟨hlast, hroot, hauth⟩ := hstop
          subst hlast
          rw [show 2 ^ treeHeight - 1 + 1 = 2 ^ treeHeight by omega] at hmem
          refine Traced.Sat.pure ⟨hroot, haddr, hmem, ?_⟩
          intro hleafIdx k hk
          exact hauth k hk (done_last hk (siblingIdx_lt hleafIdx hk))
  | succ rest ih =>
      rw [treehashx1Loop]
      refine (G.gen idx (by omega) info mem hinv).bind ?_
      rintro ⟨leaf, info, mem'⟩ ⟨hleaf, hinv, hframe⟩
      refine (treehashx1Climb_leaf_sat W G hbound (by omega) hstack haddr hauth hleaf hinv
        hframe).bind ?_
      rintro ⟨stop, s⟩ ⟨hmem, haddr, hstop⟩
      cases stop with
      | none => exact absurd hstop.1 (by omega)
      | some h =>
          obtain ⟨_, j, hj, hend, hcur, hauth⟩ := hstop
          refine ih (idx + 1) (by omega) _ ?_ _ haddr _ _ hmem ?_
          · rw [hcur]
            exact hstack.update hj hend
          · exact fun k hk hdone => hauth k hk (done_of_done_next hj hend hdone)

theorem treehashx1_node_sat {ι : Type}
    {genLeaf : ℕ → ι → Vector UInt8 n → Traced Query (Block × ι × Vector UInt8 n)}
    {Inv : ℕ → ι → Vector UInt8 n → Prop}
    (W : NodeTree H ctx base treeHeight idxOffset nd P)
    (G : LeafGen nd P treeHeight idxOffset authPath genLeaf Inv)
    (hbound : authPath + treeHeight * spxN ≤ n) (stack : ℕ → Block) {treeAddr : Addr}
    (haddr : TreeAddr base treeAddr) {info : ι} {mem : Vector UInt8 n}
    (hinv : Inv 0 info mem) :
    Traced.Sat P (NodeResult base treeHeight leafIdx authPath nd Inv)
      (treehashx1 H ctx genLeaf leafIdx idxOffset treeHeight authPath stack treeAddr
        info mem) :=
  treehashx1Loop_sat W G hbound _ 0 (Nat.zero_add _) stack
    (stackOk_zero nd treeHeight stack) treeAddr haddr info mem hinv
    fun k _ hdone => absurd hdone (not_done_zero k _)

/-- `treehashx1` builds the tree of `nd`, with node addresses of the given fields. -/
theorem treehashx1_sat {ι : Type}
    {genLeaf : ℕ → ι → Vector UInt8 n → Traced Query (Block × ι × Vector UInt8 n)}
    {Inv : ℕ → ι → Vector UInt8 n → Prop}
    (W : WalkTree H ctx layer tree type keypair treeHeight idxOffset nd P)
    (G : LeafGen nd P treeHeight idxOffset authPath genLeaf Inv)
    (hbound : authPath + treeHeight * spxN ≤ n) (stack : ℕ → Block) {treeAddr : Addr}
    (haddr : WalkAddr layer tree type keypair treeAddr) {info : ι}
    {mem : Vector UInt8 n} (hinv : Inv 0 info mem) :
    Traced.Sat P
      (WalkResult layer tree type keypair treeHeight leafIdx authPath nd Inv)
      (treehashx1 H ctx genLeaf leafIdx idxOffset treeHeight authPath stack treeAddr
        info mem) := by
  refine (treehashx1_node_sat W.nodeTree G hbound stack haddr.treeAddr hinv).mono ?_
  rintro r ⟨hroot, hsame, hinv, hpath⟩
  exact ⟨hroot, hsame.walkAddr, hinv, hpath⟩

end Walk

/-!
## The verifier's walk
-/

theorem mul_two_pow_eq_mul_mul (t : ℕ) {k m : ℕ} (hk : k ≤ m) :
    t * 2 ^ m = t * 2 ^ (m - k) * 2 ^ k := by
  rw [Nat.mul_assoc, ← Nat.pow_add, Nat.sub_add_cancel hk]

theorem shiftRight_mul_two_pow (t : ℕ) {k m : ℕ} (hk : k ≤ m) :
    (t * 2 ^ m) >>> k = t * 2 ^ (m - k) := by
  rw [mul_two_pow_eq_mul_mul t hk, Nat.shiftRight_eq_div_pow,
    Nat.mul_div_cancel _ (Nat.two_pow_pos k)]

theorem shiftRight_add_mul_two_pow (a t : ℕ) {k m : ℕ} (hk : k ≤ m) :
    (a + t * 2 ^ m) >>> k = a >>> k + (t * 2 ^ m) >>> k := by
  rw [shiftRight_mul_two_pow t hk, mul_two_pow_eq_mul_mul t hk, Nat.shiftRight_eq_div_pow,
    Nat.shiftRight_eq_div_pow, Nat.add_mul_div_right _ _ (Nat.two_pow_pos k)]

/-- Below the root the offset of a tree does not change which child a node is. -/
theorem shiftRight_add_mul_two_pow_mod_two (a t : ℕ) {k m : ℕ} (hk : k < m) :
    ((a + t * 2 ^ m) >>> k) % 2 = (a >>> k) % 2 := by
  have hsplit : t * 2 ^ m = t * 2 ^ (m - (k + 1)) * 2 * 2 ^ k := by
    rw [mul_two_pow_eq_mul_mul t hk, Nat.mul_assoc _ 2, ← Nat.pow_succ']
  rw [hsplit, Nat.shiftRight_eq_div_pow, Nat.shiftRight_eq_div_pow,
    Nat.add_mul_div_right _ _ (Nat.two_pow_pos k)]
  omega

/-- Entry `k` of the authentication path at offset `authPath`. -/
abbrev pathEntry {n : ℕ} (sig : Vector UInt8 n) (authPath k : ℕ) : Block :=
  slice sig (authPath + k * spxN) spxN

section ComputeRoot

variable (st : Vector UInt8 40) (layer tree type keypair : ℕ)

/-- The hash of the node at height `h` and index `i` of a tree whose node addresses
have the given fields. -/
def nodeHash (h i : ℕ) (left right : Block) : Block :=
  H.thash st (adrs (addrOf layer tree type keypair h i)) [left, right]

/-- The children of the ancestor at height `k + 1` of the leaf `g`, in order. -/
def climbChildren (g : ℕ) (path : ℕ → Block) (leaf : Block) (k : ℕ) : Block × Block :=
  children (g >>> k) (climb (nodeHash H st layer tree type keypair) g path k leaf)
    (path k)

/-- The call that hashes the ancestor at height `k + 1` of the leaf `g`. -/
def climbQuery (g : ℕ) (path : ℕ → Block) (leaf : Block) (k : ℕ) : Query :=
  .thash (adrs (addrOf layer tree type keypair (k + 1) (g >>> (k + 1))))
    [(climbChildren H st layer tree type keypair g path leaf k).1,
      (climbChildren H st layer tree type keypair g path leaf k).2]
    (climb (nodeHash H st layer tree type keypair) g path (k + 1) leaf)

/-- The state before the hash of the ancestor at height `k + 1`. -/
structure RootOk (leafIdx idxOffset authPath : ℕ) (path : ℕ → Block) (leaf : Block)
    (k : ℕ) (s : ComputeRootState) : Prop where
  buffer : (s.left, s.right) =
    climbChildren H st layer tree type keypair (leafIdx + idxOffset) path leaf k
  leafIdx : s.leafIdx = leafIdx >>> k
  idxOffset : s.idxOffset = idxOffset >>> k
  authPath : s.authPath = authPath + (k + 1) * spxN
  addr : WalkAddr layer tree type keypair s.addr

variable {layer tree type keypair} {n : ℕ} {sig : Vector UInt8 n} {ctx : SpxCtx}
  {leafIdx t treeHeight authPath : ℕ} {leaf : Block}

theorem RootOk.thash_eq {k : ℕ} (hk : k < treeHeight) {s : ComputeRootState}
    (hs : RootOk H ctx.stateSeeded layer tree type keypair leafIdx (t * 2 ^ treeHeight)
      authPath (pathEntry sig authPath) leaf k s) :
    thash H [s.left, s.right] ctx
        (setTreeIndex (setTreeHeight s.addr (k + 1))
          (s.leafIdx >>> 1 + s.idxOffset >>> 1)) =
      ⟨climb (nodeHash H ctx.stateSeeded layer tree type keypair)
          (leafIdx + t * 2 ^ treeHeight) (pathEntry sig authPath) (k + 1) leaf,
        [climbQuery H ctx.stateSeeded layer tree type keypair
          (leafIdx + t * 2 ^ treeHeight) (pathEntry sig authPath) leaf k]⟩ := by
  obtain ⟨hbuffer, hleafIdx, hidxOffset, _, height, index, haddr⟩ := hs
  rw [haddr, setTreeHeight_addrOf, setTreeIndex_addrOf, hleafIdx, hidxOffset,
    ← Nat.shiftRight_add, ← Nat.shiftRight_add,
    ← shiftRight_add_mul_two_pow leafIdx t hk]
  obtain ⟨hleft, hright⟩ := Prod.mk.inj hbuffer
  rw [hleft, hright]
  rfl

theorem RootOk.step {k : ℕ} (hk : k + 1 < treeHeight) {s : ComputeRootState}
    (hs : RootOk H ctx.stateSeeded layer tree type keypair leafIdx (t * 2 ^ treeHeight)
      authPath (pathEntry sig authPath) leaf k s) :
    RootOk H ctx.stateSeeded layer tree type keypair leafIdx (t * 2 ^ treeHeight)
      authPath (pathEntry sig authPath) leaf (k + 1)
      (computeRootStep H sig ctx k s).val := by
  have hparity : (s.leafIdx >>> 1) &&& 1 = 1 ↔
      ((leafIdx + t * 2 ^ treeHeight) >>> (k + 1)) % 2 = 1 := by
    rw [Nat.and_one_is_mod, hs.leafIdx, ← Nat.shiftRight_add,
      shiftRight_add_mul_two_pow_mod_two leafIdx t hk]
  have hentry : slice sig s.authPath spxN = pathEntry sig authPath (k + 1) := by
    rw [hs.authPath]
  have hnext : s.authPath + spxN = authPath + (k + 1 + 1) * spxN := by
    rw [hs.authPath]
    simp only [spxN]
    omega
  have haddr : WalkAddr layer tree type keypair
      (setTreeIndex (setTreeHeight s.addr (k + 1))
        (s.leafIdx >>> 1 + s.idxOffset >>> 1)) := by
    obtain ⟨height, index, haddr⟩ := hs.addr
    rw [haddr, setTreeHeight_addrOf, setTreeIndex_addrOf]
    exact ⟨_, _, rfl⟩
  have hshift : s.leafIdx >>> 1 = leafIdx >>> (k + 1) := by
    rw [hs.leafIdx, ← Nat.shiftRight_add]
  have hshiftOffset : s.idxOffset >>> 1 = (t * 2 ^ treeHeight) >>> (k + 1) := by
    rw [hs.idxOffset, ← Nat.shiftRight_add]
  rw [computeRootStep, Traced.val_bind, hs.thash_eq H (by omega), hentry]
  by_cases hodd : (s.leafIdx >>> 1) &&& 1 = 1
  · rw [if_pos hodd]
    refine ⟨?_, hshift, hshiftOffset, hnext, haddr⟩
    rw [climbChildren, children, if_pos (hparity.mp hodd)]
    rfl
  · rw [if_neg hodd]
    refine ⟨?_, hshift, hshiftOffset, hnext, haddr⟩
    rw [climbChildren, children, if_neg fun h => hodd (hparity.mpr h)]
    rfl

theorem log_computeRootStep {k : ℕ} (hk : k < treeHeight) {s : ComputeRootState}
    (hs : RootOk H ctx.stateSeeded layer tree type keypair leafIdx (t * 2 ^ treeHeight)
      authPath (pathEntry sig authPath) leaf k s) :
    climbQuery H ctx.stateSeeded layer tree type keypair
        (leafIdx + t * 2 ^ treeHeight) (pathEntry sig authPath) leaf k ∈
      (computeRootStep H sig ctx k s).log := by
  rw [computeRootStep, Traced.log_bind, hs.thash_eq H hk]
  exact List.mem_append_left _ (List.mem_singleton_self _)

/-- The buffer `compute_root` starts with. -/
def computeRootStart {n : ℕ} (sig : Vector UInt8 n) (authPath : ℕ) (leaf : Block)
    (leafIdx idxOffset : ℕ) (addr : Addr) : ComputeRootState :=
  if leafIdx &&& 1 = 1 then
    ⟨slice sig authPath spxN, leaf, leafIdx, idxOffset, authPath + spxN, addr⟩
  else
    ⟨leaf, slice sig authPath spxN, leafIdx, idxOffset, authPath + spxN, addr⟩

theorem rootOk_start (hpos : 0 < treeHeight) {addr : Addr}
    (haddr : WalkAddr layer tree type keypair addr) :
    RootOk H ctx.stateSeeded layer tree type keypair leafIdx (t * 2 ^ treeHeight)
      authPath (pathEntry sig authPath) leaf 0
      (computeRootStart sig authPath leaf leafIdx (t * 2 ^ treeHeight) addr) := by
  have hparity : leafIdx &&& 1 = 1 ↔ ((leafIdx + t * 2 ^ treeHeight) >>> 0) % 2 = 1 := by
    rw [Nat.and_one_is_mod, shiftRight_add_mul_two_pow_mod_two leafIdx t hpos]
    rfl
  have hentry : slice sig authPath spxN = pathEntry sig authPath 0 := by
    rw [pathEntry, Nat.zero_mul, Nat.add_zero]
  have hnext : authPath + spxN = authPath + (0 + 1) * spxN := by
    rw [Nat.zero_add, Nat.one_mul]
  unfold computeRootStart
  rw [hentry]
  split
  · next hodd =>
      refine ⟨?_, rfl, rfl, hnext, haddr⟩
      rw [climbChildren, children, if_pos (hparity.mp hodd)]
      rfl
  · next heven =>
      refine ⟨?_, rfl, rfl, hnext, haddr⟩
      rw [climbChildren, children, if_neg fun h => heven (hparity.mpr h)]
      rfl

variable (sig ctx leafIdx t authPath leaf) in
/-- `compute_root` climbs from the leaf, with one call for each ancestor. -/
theorem computeRoot_spec (hpos : 0 < treeHeight) {addr : Addr}
    (haddr : WalkAddr layer tree type keypair addr) :
    (computeRoot H leaf leafIdx (t * 2 ^ treeHeight) sig authPath treeHeight ctx
          addr).val.1 =
        climb (nodeHash H ctx.stateSeeded layer tree type keypair)
          (leafIdx + t * 2 ^ treeHeight) (pathEntry sig authPath) treeHeight leaf ∧
      WalkAddr layer tree type keypair
        (computeRoot H leaf leafIdx (t * 2 ^ treeHeight) sig authPath treeHeight ctx
          addr).val.2 ∧
      ∀ k < treeHeight,
        climbQuery H ctx.stateSeeded layer tree type keypair
            (leafIdx + t * 2 ^ treeHeight) (pathEntry sig authPath) leaf k ∈
          (computeRoot H leaf leafIdx (t * 2 ^ treeHeight) sig authPath treeHeight ctx
            addr).log := by
  have hround (i : ℕ) (hi : i ≤ treeHeight - 1) :
      RootOk H ctx.stateSeeded layer tree type keypair leafIdx (t * 2 ^ treeHeight)
        authPath (pathEntry sig authPath) leaf i
        (Traced.forRange i (computeRootStep H sig ctx)
          (computeRootStart sig authPath leaf leafIdx (t * 2 ^ treeHeight) addr)).val := by
    induction i with
    | zero => exact rootOk_start H hpos haddr
    | succ i ih => exact (ih (by omega)).step H (by omega)
  have hlast := hround (treeHeight - 1) le_rfl
  have hthash := hlast.thash_eq H (by omega)
  rw [show treeHeight - 1 + 1 = treeHeight by omega] at hthash
  have heq : computeRoot H leaf leafIdx (t * 2 ^ treeHeight) sig authPath treeHeight ctx
      addr = Traced.forRange (treeHeight - 1) (computeRootStep H sig ctx)
        (computeRootStart sig authPath leaf leafIdx (t * 2 ^ treeHeight) addr) >>=
      fun s => thash H [s.left, s.right] ctx (setTreeIndex
          (setTreeHeight s.addr treeHeight) (s.leafIdx >>> 1 + s.idxOffset >>> 1)) >>=
      fun root => pure (root, setTreeIndex (setTreeHeight s.addr treeHeight)
        (s.leafIdx >>> 1 + s.idxOffset >>> 1)) := rfl
  rw [heq]
  refine ⟨?_, ?_, ?_⟩
  · rw [Traced.val_bind, Traced.val_bind, hthash]
    rfl
  · obtain ⟨height, index, haddr⟩ := hlast.addr
    rw [Traced.val_bind, Traced.val_bind, haddr, setTreeHeight_addrOf,
      setTreeIndex_addrOf]
    exact ⟨_, _, rfl⟩
  · intro k hk
    rw [Traced.log_bind, Traced.log_bind, hthash]
    rcases Nat.lt_or_ge k (treeHeight - 1) with hlt | hge
    · refine List.mem_append_left _ (Traced.mem_log_forRange hlt ?_)
      exact log_computeRootStep H hk (hround k (by omega))
    · rw [show k = treeHeight - 1 by omega]
      exact List.mem_append_right _
        (List.mem_append_left _ (List.mem_singleton_self _))

end ComputeRoot

end BitcoinPqc
