import BitcoinPqc.Correctness.Merkle
import BitcoinPqc.Foundation.BitFields
import BitcoinPqc.Sphincs.Fors

/-!
# FORS signing and its public key

`forsSign` builds the seven trees of a keypair, in either version, and returns the
FORS public key, which does not depend on the digest. In its window it leaves for
every tree the secret value of the leaf the digest selects and the authentication
path of that leaf.
-/

namespace BitcoinPqc

open Merkle

variable (E : Build) (H : HashFns) (ctx : SpxCtx) (tree leaf : ℕ)

/-- The nodes of FORS tree `t`, numbered within the tree. -/
def forsTreeNode (t h j : ℕ) : Block :=
  forsNode H ctx tree leaf h (j + t * 2 ^ (spxForsHeight - h))

/-- The part of a FORS signature for tree `t`, in which leaf `leafIdx` is opened. -/
structure TreeSigned {n : ℕ} (t leafIdx sigTree : ℕ) (mem : Vector UInt8 n) : Prop where
  sk : slice mem sigTree spxN =
    forsSk H ctx tree leaf (leafIdx + t * 2 ^ spxForsHeight)
  path : ∀ k < spxForsHeight, slice mem (sigTree + spxN + k * spxN) spxN =
    forsTreeNode H ctx tree leaf t k (siblingIdx leafIdx k)

/-- The length of the part of a signature for one tree. -/
abbrev treeBytes : ℕ := (spxForsHeight + 1) * spxN

variable {H ctx tree leaf} {P : Query → Prop} {n : ℕ}

theorem messageBit_eq (m : Vector UInt8 n) (o : ℕ) : messageBit m o = (bitAt m o).toNat := by
  have hmask : o &&& 7 = o % 8 := Nat.and_two_pow_sub_one_eq_mod o 3
  rw [messageBit, bitAt, Nat.toNat_testBit, Nat.and_one_is_mod, hmask,
    Nat.shiftRight_eq_div_pow, Nat.shiftRight_eq_div_pow]

/-- The index of a tree is a bit field of the digest. -/
theorem messageToIndices_eq (m : Vector UInt8 n) (i : ℕ) :
    messageToIndices m i = bitField spxForsHeight m i := by
  simp only [messageToIndices, messageBit_eq]
  exact foldl_xor_shiftLeft (fun j => bitAt m (i * spxForsHeight + j)) spxForsHeight

theorem messageToIndices_lt (m : Vector UInt8 n) (i : ℕ) :
    messageToIndices m i < 2 ^ spxForsHeight := by
  rw [messageToIndices_eq]
  exact bitField_lt _ m i

theorem walkTree_forsTreeNode {t : ℕ}
    (hP : ∀ h < spxForsHeight, ∀ j < 2 ^ (spxForsHeight - (h + 1)),
      P (queryAt H ctx
        (.forsNode tree leaf (h + 1) (j + t * 2 ^ (spxForsHeight - (h + 1)))))) :
    WalkTree H ctx 0 tree addrTypeForsTree leaf spxForsHeight (t * 2 ^ spxForsHeight)
      (forsTreeNode H ctx tree leaf t) P := by
  have hchild (h j : ℕ) (hh : h < spxForsHeight) :
      2 * (j + t * 2 ^ (spxForsHeight - (h + 1))) =
        2 * j + t * 2 ^ (spxForsHeight - h) := by
    have hexp : 2 ^ (spxForsHeight - h) = 2 * 2 ^ (spxForsHeight - (h + 1)) := by
      rw [← Nat.pow_succ']
      congr 1
      omega
    rw [hexp, Nat.mul_add, Nat.mul_left_comm]
  have hnode (h j : ℕ) (hh : h < spxForsHeight) :
      forsTreeNode H ctx tree leaf t (h + 1) j =
        forsHash H ctx.stateSeeded tree leaf (h + 1)
          (j + t * 2 ^ (spxForsHeight - (h + 1)))
          (forsTreeNode H ctx tree leaf t h (2 * j))
          (forsTreeNode H ctx tree leaf t h (2 * j + 1)) := by
    rw [forsTreeNode, forsNode, Merkle.node_succ, hchild h j hh,
      show 2 * j + t * 2 ^ (spxForsHeight - h) + 1 =
        2 * j + 1 + t * 2 ^ (spxForsHeight - h) by omega]
    rfl
  constructor
  · intro h hh j
    rw [shiftRight_mul_two_pow t hh, hnode h j hh]
    rfl
  · intro h hh j hj
    have hquery := hP h hh j hj
    rw [queryAt, hchild h j hh, show 2 * j + t * 2 ^ (spxForsHeight - h) + 1 =
        2 * j + 1 + t * 2 ^ (spxForsHeight - h) by omega] at hquery
    rw [shiftRight_mul_two_pow t hh]
    exact hquery

/-- The memory while a tree is walked: outside the tree's part it is unchanged and
the secret value is in its place. -/
def TreeMem (H : HashFns) (ctx : SpxCtx) (tree leaf t leafIdx sigTree : ℕ)
    (mem0 mem : Vector UInt8 n) : Prop :=
  EqOutside mem mem0 sigTree (sigTree + treeBytes) ∧
    slice mem sigTree spxN = forsSk H ctx tree leaf (leafIdx + t * 2 ^ spxForsHeight)

theorem TreeMem.write {t leafIdx sigTree k : ℕ} {mem0 mem : Vector UInt8 n}
    (h : TreeMem H ctx tree leaf t leafIdx sigTree mem0 mem) (hk : k < spxForsHeight)
    (b : Block) :
    TreeMem H ctx tree leaf t leafIdx sigTree mem0
      (BitcoinPqc.write mem (sigTree + spxN + k * spxN) b) := by
  simp only [spxForsHeight] at hk
  refine ⟨((EqOutside.write mem _ b).mono ?_ ?_).trans h.1, ?_⟩
  · omega
  · simp only [spxN, treeBytes, spxForsHeight]
    omega
  · rw [slice_write_of_disjoint _ _ _ _ _ (by omega)]
    exact h.2

/-- The address buffer of a FORS leaf generator. -/
def ForsAddr (tree leaf : ℕ) (addr : Addr) : Prop :=
  ∃ type index, addr = addrOf 0 tree type leaf 0 index

theorem prfAddr_forsSk (index : ℕ) :
    prfAddr H ctx (addrOf 0 tree addrTypeForsPrf leaf 0 index) =
      ⟨forsSk H ctx tree leaf index, [queryAt H ctx (.forsPrf tree leaf index)]⟩ := rfl

theorem thash_forsLeaf (index : ℕ) :
    thash H [forsSk H ctx tree leaf index] ctx
        (addrOf 0 tree addrTypeForsTree leaf 0 index) =
      ⟨forsLeaf H ctx tree leaf index, [queryAt H ctx (.forsNode tree leaf 0 index)]⟩ :=
  rfl

theorem forsTreeNode_zero (t j : ℕ) :
    forsTreeNode H ctx tree leaf t 0 j =
      forsLeaf H ctx tree leaf (j + t * 2 ^ spxForsHeight) := rfl

section Trees

variable {t leafIdx sigTree : ℕ} {mem0 : Vector UInt8 n}

theorem leafGen_fors
    (hprf : ∀ j < 2 ^ spxForsHeight,
      P (queryAt H ctx (.forsPrf tree leaf (j + t * 2 ^ spxForsHeight))))
    (hleaf : ∀ j < 2 ^ spxForsHeight,
      P (queryAt H ctx (.forsNode tree leaf 0 (j + t * 2 ^ spxForsHeight)))) :
    LeafGen (forsTreeNode H ctx tree leaf t) P spxForsHeight (t * 2 ^ spxForsHeight)
      (sigTree + spxN) (forsGenLeafx1 H ctx)
      (fun _ addr mem => ForsAddr tree leaf addr ∧
        TreeMem H ctx tree leaf t leafIdx sigTree mem0 mem) where
  gen := by
    rintro idx hidx addr mem ⟨⟨type, index, haddr⟩, hmem⟩
    rw [forsGenLeafx1]
    simp only [haddr, setTreeIndex_addrOf, setType_addrOf]
    refine (Traced.Sat.single (prfAddr_forsSk _) (hprf idx hidx)).bind ?_
    rintro _ rfl
    refine (Traced.Sat.single (thash_forsLeaf _) (hleaf idx hidx)).bind ?_
    rintro _ rfl
    exact Traced.Sat.pure ⟨rfl, ⟨⟨_, _, rfl⟩, hmem⟩, fun k _ => rfl⟩
  write := by
    intro idx addr mem k b hk hinv
    exact ⟨hinv.1, hinv.2.write hk b⟩

theorem leafGenX8_fors (hP : AnyHash P) :
    LeafGenX8 (forsTreeNode H ctx tree leaf t) P spxForsHeight (t * 2 ^ spxForsHeight)
      (sigTree + spxN) (forsGenLeafx8 H ctx)
      (fun _ addr mem => (∀ l, ForsAddr tree leaf (addr l)) ∧
        TreeMem H ctx tree leaf t leafIdx sigTree mem0 mem) where
  gen := by
    rintro idx hidx addr mem ⟨haddr, hmem⟩
    have hindex (l : Fin 8) : 8 * idx + t * 2 ^ spxForsHeight + l.val =
        8 * idx + l.val + t * 2 ^ spxForsHeight := by omega
    have haddr' (l : Fin 8) : setType (setTreeIndex (addr l)
          (8 * idx + t * 2 ^ spxForsHeight + l.val)) addrTypeForsPrf =
        addrOf 0 tree addrTypeForsPrf leaf 0
          (8 * idx + l.val + t * 2 ^ spxForsHeight) := by
      obtain ⟨type, index, heq⟩ := haddr l
      rw [heq, setTreeIndex_addrOf, setType_addrOf, hindex]
    rw [forsGenLeafx8]
    simp only [haddr', setType_addrOf]
    refine (prfAddrx8_sat H hP.prfAddr ctx _).bind ?_
    intro sk hsk
    refine (thashx8_sat H hP.thash _ ctx _).bind ?_
    intro out hout
    refine Traced.Sat.pure ⟨funext fun l => ?_, ⟨fun l => ⟨_, _, rfl⟩, hmem⟩,
      fun k _ => rfl⟩
    rw [group, forsTreeNode_zero]
    refine (hout l).trans ?_
    rw [hsk l]
    rfl
  write := by
    intro idx addr mem k b hk hinv
    exact ⟨hinv.1, hinv.2.write hk b⟩

/-- What signing with one tree leaves. -/
def TreeDone (H : HashFns) (ctx : SpxCtx) (tree leaf t leafIdx sigTree : ℕ)
    (mem0 : Vector UInt8 n) (r : Block × Vector UInt8 n) : Prop :=
  r.1 = forsNode H ctx tree leaf spxForsHeight t ∧
    EqOutside r.2 mem0 sigTree (sigTree + treeBytes) ∧
    TreeSigned H ctx tree leaf t leafIdx sigTree r.2

theorem forsTreeNode_root (t : ℕ) :
    forsTreeNode H ctx tree leaf t spxForsHeight 0 =
      forsNode H ctx tree leaf spxForsHeight t := by
  rw [forsTreeNode, Nat.sub_self, Nat.pow_zero, Nat.mul_one, Nat.zero_add]

/-- Writing the secret value first makes the memory right for the walk. -/
theorem treeMem_start (hbound : sigTree + treeBytes ≤ n) (mem : Vector UInt8 n) :
    TreeMem H ctx tree leaf t leafIdx sigTree mem
      (write mem sigTree
        (forsSk H ctx tree leaf (leafIdx + t * 2 ^ spxForsHeight))) := by
  simp only [treeBytes, spxForsHeight, spxN] at hbound
  refine ⟨(EqOutside.write mem _ _).mono le_rfl ?_, slice_write_self _ _ _ (by omega)⟩
  simp only [treeBytes, spxForsHeight, spxN]
  omega

theorem forsSignTree_sat (hP : ∀ r : Role, r.Valid → P (queryAt H ctx r))
    (htree : tree < 2 ^ 24) (hleaf : leaf < 2 ^ spxTreeHeight)
    (ht : t < spxForsSigTrees) (hidx : leafIdx < 2 ^ spxForsHeight)
    (hbound : sigTree + treeBytes ≤ n) (mem : Vector UInt8 n) {forsAddr : Addr}
    (haddr : ∃ type index, forsAddr = addrOf 0 tree type leaf 0 index) :
    Traced.Sat P (TreeDone H ctx tree leaf t leafIdx sigTree mem)
      (forsSignTree E H sigTree mem ctx forsAddr leafIdx t) := by
  obtain ⟨type, index, haddr⟩ := haddr
  have hprf (j : ℕ) (hj : j < 2 ^ spxForsHeight) :
      P (queryAt H ctx (.forsPrf tree leaf (j + t * 2 ^ spxForsHeight))) := by
    refine hP (.forsPrf tree leaf _) ⟨htree, hleaf, ?_⟩
    calc j + t * 2 ^ spxForsHeight < (t + 1) * 2 ^ spxForsHeight := by
          rw [Nat.succ_mul]
          omega
      _ ≤ spxForsSigTrees * 2 ^ spxForsHeight := Nat.mul_le_mul_right _ ht
  have hnode (h j : ℕ) (hh : h ≤ spxForsHeight) (hj : j < 2 ^ (spxForsHeight - h)) :
      P (queryAt H ctx
        (.forsNode tree leaf h (j + t * 2 ^ (spxForsHeight - h)))) := by
    refine hP (.forsNode tree leaf h _) ⟨htree, hleaf, hh, ?_⟩
    calc j + t * 2 ^ (spxForsHeight - h) < (t + 1) * 2 ^ (spxForsHeight - h) := by
          rw [Nat.succ_mul]
          omega
      _ ≤ spxForsSigTrees * 2 ^ (spxForsHeight - h) := Nat.mul_le_mul_right _ ht
  rw [forsSignTree]
  simp only [haddr, zeroAddr_eq_addrOf, copyKeypairAddr_addrOf, setTreeHeight_addrOf,
    setTreeIndex_addrOf, setType_addrOf]
  refine (Traced.Sat.single (prfAddr_forsSk _) (hprf leafIdx hidx)).bind ?_
  rintro _ rfl
  have hgen : LeafGen (forsTreeNode H ctx tree leaf t) P spxForsHeight
      (t * 2 ^ spxForsHeight) (sigTree + spxN) (forsGenLeafx1 H ctx)
      (fun _ addr mem' => ForsAddr tree leaf addr ∧
        TreeMem H ctx tree leaf t leafIdx sigTree mem mem') :=
    leafGen_fors hprf fun j hj => hnode 0 j (Nat.zero_le _) hj
  refine Traced.Sat.bind (treehashx1_sat
    (walkTree_forsTreeNode fun h hh j hj => hnode (h + 1) j hh hj) hgen
    (by
      simp only [treeBytes, spxForsHeight, spxN] at hbound ⊢
      omega) E.uninit ⟨_, _, rfl⟩ ⟨⟨0, 0, rfl⟩, treeMem_start hbound mem⟩) ?_
  rintro r ⟨hroot, _, ⟨_, hmem⟩, hpath⟩
  exact Traced.Sat.pure ⟨hroot.trans (forsTreeNode_root t), hmem.1, hmem.2, hpath hidx⟩

theorem forsSignTreeAvx2_sat (hP : AnyHash P) (ht : t < spxForsSigTrees)
    (hidx : leafIdx < 2 ^ spxForsHeight)
    (hbound : sigTree + treeBytes ≤ n) (mem : Vector UInt8 n) {forsAddr : Addr}
    (haddr : ∃ type index, forsAddr = addrOf 0 tree type leaf 0 index) :
    Traced.Sat P (TreeDone H ctx tree leaf t leafIdx sigTree mem)
      (forsSignTreeAvx2 E H sigTree mem ctx forsAddr leafIdx t) := by
  obtain ⟨type, index, haddr⟩ := haddr
  rw [forsSignTreeAvx2]
  simp only [haddr, zeroAddr_eq_addrOf, copyKeypairAddr_addrOf, setTreeHeight_addrOf,
    setTreeIndex_addrOf, setType_addrOf]
  refine (Traced.Sat.single (prfAddr_forsSk _) (hP.prfAddr _ _ _)).bind ?_
  rintro _ rfl
  have hgen : LeafGenX8 (forsTreeNode H ctx tree leaf t) P spxForsHeight
      (t * 2 ^ spxForsHeight) (sigTree + spxN) (forsGenLeafx8 H ctx)
      (fun _ addr mem' => (∀ l, ForsAddr tree leaf (addr l)) ∧
        TreeMem H ctx tree leaf t leafIdx sigTree mem mem') := leafGenX8_fors hP
  have hwalk (l : Fin 8) : WalkAddr 0 tree addrTypeForsTree leaf
      (Function.update (fun _ : Fin 8 => addrOf 0 tree addrTypeForsTree leaf 0 0) (laneIdx 0)
        (addrOf 0 tree addrTypeForsTree leaf 0 (leafIdx + t * 2 ^ spxForsHeight)) l) := by
    by_cases hl : l = laneIdx 0
    · rw [hl, Function.update_self]
      exact ⟨_, _, rfl⟩
    · rw [Function.update_of_ne hl]
      exact ⟨_, _, rfl⟩
  have hidx16 : leafIdx < 2 ^ 16 := hidx
  have ht7 : t < 7 := ht
  refine Traced.Sat.bind (treehashx8_sat
    (walkTree_forsTreeNode fun h hh j hj => hP.thash _ _ _) hgen hP.thash
    (by
      simp only [treeBytes, spxForsHeight, spxN] at hbound ⊢
      omega) (show t * 2 ^ 16 < 2 ^ 31 by omega) ⟨by decide, by decide⟩ (by omega) _ hwalk
      ⟨fun _ => ⟨0, 0, rfl⟩, treeMem_start hbound mem⟩) ?_
  rintro r ⟨hroot, ⟨_, hmem⟩, hpath⟩
  exact Traced.Sat.pure ⟨hroot.trans (forsTreeNode_root t), hmem.1, hmem.2, hpath hidx⟩

end Trees

/-- The FORS part of a signature of the digest `mhash`. -/
def ForsSigned (H : HashFns) (ctx : SpxCtx) (tree leaf : ℕ) (mhash : Block) (sig : ℕ)
    (mem : Vector UInt8 n) : Prop :=
  ∀ t < spxForsSigTrees,
    TreeSigned H ctx tree leaf t (messageToIndices mhash t) (sig + t * treeBytes) mem

theorem thash_forsPk :
    thash H ((List.range spxForsSigTrees).map fun t =>
        forsNode H ctx tree leaf spxForsHeight t) ctx
        (addrOf 0 tree addrTypeForsPk leaf 0 0) =
      ⟨forsPk H ctx tree leaf, [queryAt H ctx (.forsPk tree leaf)]⟩ := rfl

theorem TreeSigned.of_eqOutside {t leafIdx sigTree lo hi : ℕ}
    {mem mem' : Vector UInt8 n}
    (h : TreeSigned H ctx tree leaf t leafIdx sigTree mem)
    (hout : EqOutside mem' mem lo hi) (hd : sigTree + treeBytes ≤ lo ∨ hi ≤ sigTree) :
    TreeSigned H ctx tree leaf t leafIdx sigTree mem' := by
  simp only [treeBytes, spxForsHeight, spxN] at hd
  constructor
  · rw [← h.sk]
    exact hout.slice_eq _ _ (by
      simp only [spxN]
      omega)
  · intro k hk
    rw [← h.path k hk]
    simp only [spxForsHeight] at hk
    exact hout.slice_eq _ _ (by
      simp only [spxN]
      omega)

/-- The state of `fors_sign` after `i` trees. -/
def TreesOk (H : HashFns) (ctx : SpxCtx) (tree leaf : ℕ) (mhash : Block) (sig : ℕ)
    (mem0 : Vector UInt8 n) (i : ℕ) (s : (ℕ → Block) × Vector UInt8 n) : Prop :=
  (∀ t < i, s.1 t = forsNode H ctx tree leaf spxForsHeight t) ∧
    EqOutside s.2 mem0 sig (sig + i * treeBytes) ∧
    ∀ t < i, TreeSigned H ctx tree leaf t (messageToIndices mhash t)
      (sig + t * treeBytes) s.2

theorem TreesOk.next {mhash : Block} {sig i : ℕ} {mem0 : Vector UInt8 n}
    {s : (ℕ → Block) × Vector UInt8 n} {r : Block × Vector UInt8 n}
    (hs : TreesOk H ctx tree leaf mhash sig mem0 i s)
    (hr : TreeDone H ctx tree leaf i (messageToIndices mhash i) (sig + i * treeBytes)
      s.2 r) :
    TreesOk H ctx tree leaf mhash sig mem0 (i + 1) (Function.update s.1 i r.1, r.2) := by
  obtain ⟨hroots, hout, hsigned⟩ := hs
  obtain ⟨hroot, hout', hsigned'⟩ := hr
  refine ⟨?_, ?_, ?_⟩
  · intro t ht
    rcases Nat.lt_succ_iff_lt_or_eq.mp ht with hlt | rfl
    · exact (Function.update_of_ne (by omega) _ _).trans (hroots t hlt)
    · exact (Function.update_self _ _ _).trans hroot
  · refine (hout'.mono ?_ ?_).trans (hout.mono le_rfl ?_)
    · omega
    · rw [Nat.succ_mul]
      omega
    · rw [Nat.succ_mul]
      omega
  · intro t ht
    rcases Nat.lt_succ_iff_lt_or_eq.mp ht with hlt | rfl
    · refine (hsigned t hlt).of_eqOutside hout' (Or.inl ?_)
      simp only [treeBytes, spxForsHeight, spxN]
      omega
    · exact hsigned'

/-- `fors_sign` returns the FORS public key of the keypair, whatever the digest. -/
theorem forsSign_sat (hP : CallsOk E H ctx P) (htree : tree < 2 ^ 24)
    (hleaf : leaf < 2 ^ spxTreeHeight) {sig : ℕ} (hbound : sig + spxForsBytes ≤ n)
    (mem : Vector UInt8 n) (mhash : Block) {forsAddr : Addr}
    (haddr : ∃ type index, forsAddr = addrOf 0 tree type leaf 0 index) :
    Traced.Sat P
      (fun r => r.1 = forsPk H ctx tree leaf ∧
        EqOutside r.2 mem sig (sig + spxForsBytes) ∧
        ForsSigned H ctx tree leaf mhash sig r.2)
      (forsSign E H sig mem mhash ctx forsAddr) := by
  have hpkAddr : setType (copyKeypairAddr zeroAddr forsAddr) addrTypeForsPk =
      addrOf 0 tree addrTypeForsPk leaf 0 0 := by
    obtain ⟨type, index, heq⟩ := haddr
    rw [heq, zeroAddr_eq_addrOf, copyKeypairAddr_addrOf, setType_addrOf]
  rw [forsSign, hpkAddr]
  refine Traced.Sat.bind (Traced.Sat.forRange spxForsSigTrees
    (TreesOk H ctx tree leaf mhash sig mem)
    ⟨fun t ht => by omega, EqOutside.refl _ _ _, fun t ht => by omega⟩ ?_) ?_
  · intro i hi s hs
    have hi7 : i < 7 := hi
    have hfit : sig + i * treeBytes + treeBytes ≤ n := by
      simp only [treeBytes, spxForsBytes, spxForsHeight, spxForsSigTrees, spxForsTrees,
        spxN] at hbound ⊢
      omega
    have hidx := messageToIndices_lt mhash i
    cases havx2 : E.hasAvx2 with
    | true =>
        simp only [if_true]
        refine Traced.Sat.bind
          (forsSignTreeAvx2_sat E (hP.avx2 havx2) hi hidx hfit s.2 haddr) ?_
        intro r hr
        exact Traced.Sat.pure (hs.next hr)
    | false =>
        simp only [Bool.false_eq_true, if_false]
        refine Traced.Sat.bind (forsSignTree_sat E (hP.scalar havx2) htree hleaf hi hidx
          hfit s.2 haddr) ?_
        intro r hr
        exact Traced.Sat.pure (hs.next hr)
  · rintro ⟨roots, mem'⟩ ⟨hroots, hout, hsigned⟩
    have hinput : (List.range spxForsSigTrees).map roots =
        (List.range spxForsSigTrees).map fun t =>
          forsNode H ctx tree leaf spxForsHeight t :=
      List.map_congr_left fun t ht => hroots t (List.mem_range.mp ht)
    have hthash : thash H ((List.range spxForsSigTrees).map roots) ctx
        (addrOf 0 tree addrTypeForsPk leaf 0 0) =
        ⟨forsPk H ctx tree leaf, [queryAt H ctx (.forsPk tree leaf)]⟩ := by
      rw [hinput, thash_forsPk]
    have hquery : P (queryAt H ctx (.forsPk tree leaf)) := hP.query ⟨htree, hleaf⟩
    refine Traced.Sat.bind (Traced.Sat.single hthash hquery) ?_
    rintro _ rfl
    exact Traced.Sat.pure ⟨rfl, hout, hsigned⟩

end BitcoinPqc
