import BitcoinPqc.Correctness.TreeHashX8
import BitcoinPqc.Properties.SignVerify

/-!
# Both tree walks build the same tree

The code builds trees of height 6 and 16. The two walks agree for every height from 3
to 29 and every leaf that can be signed, whatever the node stacks hold at the start.
Both are compared with one tree, whose leaves are those of the scalar generator. A
generator is called for one leaf, or one group of eight leaves, after the other, and its
state is everything that it reads and writes.

The marker for no leaf is no node of a tree of these heights, nor is it in any group of
eight, so neither walk then writes a path.
-/

namespace BitcoinPqc

open Merkle

/-!
## Leaf generators
-/

section Generators

variable {ι κ β : Type}

/-- The state of a generator before its call with number `i`, where that call is for the
leaf `first i`. -/
def genInfo (gen : ℕ → ι → Traced Query (β × ι)) (first : ℕ → ℕ) (info : ι) : ℕ → ι
  | 0 => info
  | i + 1 => (gen (first i) (genInfo gen first info i)).val.2

/-- What a generator returns in its call with number `i`. -/
def genLeaves (gen : ℕ → ι → Traced Query (β × ι)) (first : ℕ → ℕ) (info : ι) (i : ℕ) : β :=
  (gen (first i) (genInfo gen first info i)).val.1

/-- The 8-wide generator yields eight consecutive leaves of the scalar generator in each
of its calls. -/
def YieldsEight (genLeaf : ℕ → ι → Traced Query (Block × ι))
    (genLeafx8 : ℕ → κ → Traced Query (Lanes Block × κ)) (treeHeight idxOffset : ℕ)
    (info : ι) (infox8 : κ) : Prop :=
  ∀ g < 2 ^ (treeHeight - 3), ∀ l : Fin 8,
    genLeaves genLeafx8 (fun g => 8 * g + idxOffset) infox8 g l =
      genLeaves genLeaf (fun i => i + idxOffset) info (8 * g + l.val)

variable {n : ℕ}

/-- A generator next to the memory that the path is written to. -/
def besidePath (gen : ℕ → ι → Traced Query (β × ι)) (idx : ℕ) (info : ι)
    (mem : Vector UInt8 n) : Traced Query (β × ι × Vector UInt8 n) := do
  let r ← gen idx info
  pure (r.1, r.2, mem)

@[simp] theorem val_besidePath (gen : ℕ → ι → Traced Query (β × ι)) (idx : ℕ) (info : ι)
    (mem : Vector UInt8 n) :
    (besidePath gen idx info mem).val =
      ((gen idx info).val.1, (gen idx info).val.2, mem) := rfl

/-- The tree over the leaves of a generator. -/
def shapeNode (H : HashFns) (ctx : SpxCtx) (base : Addr) (idxOffset : ℕ)
    (leaf : ℕ → Block) : ℕ → ℕ → Block :=
  node leaf fun h j left right => H.thash ctx.stateSeeded
    (adrs (nodeAddr base h (j + idxOffset >>> h))) [left, right]

theorem nodeTree_shapeNode (H : HashFns) (ctx : SpxCtx) (base : Addr)
    (treeHeight idxOffset : ℕ) (leaf : ℕ → Block) :
    NodeTree H ctx base treeHeight idxOffset (shapeNode H ctx base idxOffset leaf)
      fun _ => True where
  node_succ _ _ _ := rfl
  query _ _ _ _ := trivial

theorem leafGen_besidePath (genLeaf : ℕ → ι → Traced Query (Block × ι)) (info : ι)
    (nd : ℕ → ℕ → Block) (treeHeight idxOffset authPath : ℕ)
    (hleaf : ∀ i, nd 0 i = genLeaves genLeaf (fun i => i + idxOffset) info i)
    (M : Vector UInt8 n → Prop)
    (hM : ∀ mem k (b : Block), k < treeHeight → M mem →
      M (write mem (authPath + k * spxN) b)) :
    LeafGen nd (fun _ => True) treeHeight idxOffset authPath (besidePath genLeaf)
      fun i state mem => state = genInfo genLeaf (fun i => i + idxOffset) info i ∧ M mem where
  gen := by
    rintro idx _ _ mem ⟨rfl, hmem⟩
    exact ⟨fun _ _ => trivial, (hleaf idx).symm, ⟨rfl, hmem⟩, fun _ _ => rfl⟩
  write := fun _ _ _ _ _ hk hinv => ⟨hinv.1, hM _ _ _ hk hinv.2⟩

theorem leafGenX8_besidePath (genLeafx8 : ℕ → κ → Traced Query (Lanes Block × κ))
    (infox8 : κ) (nd : ℕ → ℕ → Block) (treeHeight idxOffset authPath : ℕ)
    (hleaf : ∀ g < 2 ^ (treeHeight - 3),
      genLeaves genLeafx8 (fun g => 8 * g + idxOffset) infox8 g = group nd 0 g) :
    LeafGenX8 (n := n) nd (fun _ => True) treeHeight idxOffset authPath
      (besidePath genLeafx8)
      fun i state _ => state = genInfo genLeafx8 (fun g => 8 * g + idxOffset) infox8 (i / 8)
      where
  gen := by
    intro g hg state mem hstate
    rw [Nat.mul_div_cancel_left g (by decide)] at hstate
    subst hstate
    refine ⟨fun _ _ => trivial, hleaf g hg, ?_, fun _ _ => rfl⟩
    rw [Nat.mul_div_cancel_left (g + 1) (by decide)]
    rfl
  write := fun _ _ _ _ _ _ hinv => hinv

end Generators

/-!
## No leaf to sign
-/

section NoLeaf

variable (H : HashFns) (ctx : SpxCtx) {n : ℕ} {ι : Type}

theorem treehashx1Climb_mem (authPath idx maxIdx : ℕ) (stack : ℕ → Block)
    (r h internalIdx internalLeaf internalIdxOffset : ℕ) (s : TreeHashState n)
    (hidx : internalIdx < 2 ^ r) (hleaf : 2 ^ (r + 1) ≤ internalLeaf) :
    (treehashx1Climb H ctx authPath idx maxIdx stack r h internalIdx internalLeaf
      internalIdxOffset s).val.2.mem = s.mem := by
  induction r generalizing h internalIdx internalLeaf internalIdxOffset s with
  | zero => rfl
  | succ r ih =>
      have hpow : 2 ^ (r + 1 + 1) = 2 * 2 ^ (r + 1) := Nat.pow_succ'
      have hhalf : 2 ^ (r + 1) = 2 * 2 ^ r := Nat.pow_succ'
      have hmiss : ¬ internalIdx ^^^ internalLeaf = 1 := by
        intro hone
        have hsib : internalLeaf = internalIdx ^^^ 1 := by
          rw [← hone, ← Nat.xor_assoc, Nat.xor_self, Nat.zero_xor]
        have hlt : internalIdx ^^^ 1 < 2 ^ (r + 1) :=
          Nat.xor_lt_two_pow hidx (Nat.one_lt_two_pow (by omega))
        omega
      rw [treehashx1Climb, if_neg hmiss]
      dsimp only
      split
      · rfl
      · rw [Traced.val_bind, ih]
        · rw [Nat.shiftRight_one]
          omega
        · rw [Nat.shiftRight_one]
          omega

theorem treehashx1Loop_mem (genLeaf : ℕ → ι → Traced Query (Block × ι))
    {leafIdx treeHeight : ℕ} (idxOffset authPath : ℕ) (hleaf : 2 ^ (treeHeight + 1) ≤ leafIdx)
    (rest idx : ℕ) (hrest : idx + rest = 2 ^ treeHeight - 1) (stack : ℕ → Block)
    (treeAddr : Addr) (info : ι) (mem : Vector UInt8 n) :
    (treehashx1Loop H ctx (besidePath genLeaf) leafIdx idxOffset treeHeight authPath
      (2 ^ treeHeight - 1) rest idx stack treeAddr info mem).val.2.2.2 = mem := by
  have hpos : 0 < 2 ^ treeHeight := Nat.two_pow_pos treeHeight
  induction rest generalizing idx stack treeAddr info mem with
  | zero =>
      rw [treehashx1Loop]
      simp only [Traced.val_bind, val_besidePath]
      exact treehashx1Climb_mem H ctx _ _ _ _ _ _ _ _ _ _ (by omega) hleaf
  | succ rest ih =>
      have hclimb (s : TreeHashState n) := treehashx1Climb_mem H ctx authPath idx
        (2 ^ treeHeight - 1) stack treeHeight 0 idx leafIdx idxOffset s (by omega) hleaf
      rw [treehashx1Loop]
      simp only [Traced.val_bind, val_besidePath]
      split
      · exact hclimb _
      · rw [ih _ (by omega)]
        exact hclimb _

theorem treehashx8Climb_mem (treeHeight authPath idx maxIdx : ℕ) (stack : ℕ → Lanes Block)
    (r h internalIdx internalLeaf internalIdxOffset : ℕ) (s : TreeHashStateX8 n)
    (hbound : internalIdx < 2 ^ 29) (hidx : 8 * internalIdx < 2 ^ r)
    (hleaf : 2 ^ (r + 2) ≤ internalLeaf) (hleaf32 : internalLeaf < 2 ^ 32) :
    (treehashx8Climb H ctx treeHeight authPath idx maxIdx stack r h internalIdx internalLeaf
      internalIdxOffset s).val.2.mem = s.mem := by
  induction r generalizing h internalIdx internalLeaf internalIdxOffset s with
  | zero => rfl
  | succ r ih =>
      have hpow : 2 ^ (r + 1 + 2) = 8 * 2 ^ r := by
        rw [Nat.pow_add, Nat.pow_succ]
        omega
      have hpow' : 2 ^ (r + 2) = 4 * 2 ^ r := by
        rw [Nat.pow_add, Nat.mul_comm]
      have hhalf : 2 ^ (r + 1) = 2 * 2 ^ r := Nat.pow_succ'
      have hmiss : ¬ (((internalIdx <<< 3) % 2 ^ 32) ^^^ internalLeaf) &&& 0xFFFFFFF8 = 0 := by
        rw [shiftLeft_three_mod hbound, group_test_iff hbound hleaf32]
        omega
      rw [treehashx8Climb, if_neg hmiss]
      dsimp only
      split
      · rfl
      · rw [Traced.val_bind, ih]
        · rw [Nat.shiftRight_one]
          omega
        · rw [Nat.shiftRight_one]
          omega
        · rw [Nat.shiftRight_one]
          omega
        · rw [Nat.shiftRight_one]
          omega

theorem treehashx8Loop_mem (genLeafx8 : ℕ → ι → Traced Query (Lanes Block × ι))
    {leafIdx treeHeight : ℕ} (idxOffset authPath : ℕ)
    (hheight : 3 ≤ treeHeight ∧ treeHeight ≤ 29) (hleaf : 2 ^ (treeHeight + 2) ≤ leafIdx)
    (hleaf32 : leafIdx < 2 ^ 32) (rest idx : ℕ)
    (hrest : idx + rest = 2 ^ (treeHeight - 3) - 1) (stack : ℕ → Lanes Block)
    (treeAddr : Lanes Addr) (leftAdj prevLeftAdj : ℕ) (info : ι) (mem : Vector UInt8 n) :
    (treehashx8Loop H ctx (besidePath genLeafx8) leafIdx idxOffset treeHeight authPath
      (2 ^ (treeHeight - 3) - 1) rest idx stack treeAddr leftAdj prevLeftAdj info
      mem).val.2.2.2 = mem := by
  have hpos : 0 < 2 ^ (treeHeight - 3) := Nat.two_pow_pos _
  have hle : 2 ^ (treeHeight - 3) ≤ 2 ^ 26 := Nat.pow_le_pow_right (by decide) (by omega)
  have hpow : 2 ^ treeHeight = 8 * 2 ^ (treeHeight - 3) := by
    rw [show (8 : ℕ) = 2 ^ 3 by rfl, ← Nat.pow_add]
    congr 1
    omega
  induction rest generalizing idx stack treeAddr leftAdj prevLeftAdj info mem with
  | zero =>
      rw [treehashx8Loop]
      simp only [Traced.val_bind, val_besidePath]
      exact treehashx8Climb_mem H ctx _ _ _ _ _ _ _ _ _ _ _ (by omega) (by omega) hleaf hleaf32
  | succ rest ih =>
      have hclimb (s : TreeHashStateX8 n) := treehashx8Climb_mem H ctx treeHeight authPath idx
        (2 ^ (treeHeight - 3) - 1) stack treeHeight 0 idx leafIdx idxOffset s (by omega)
        (by omega) hleaf hleaf32
      rw [treehashx8Loop]
      simp only [Traced.val_bind, val_besidePath]
      split
      · exact hclimb _
      · rw [ih _ (by omega)]
        exact hclimb _

end NoLeaf

/-!
## Every shape
-/

section Shapes

variable (H : HashFns) (ctx : SpxCtx) {ι κ : Type} {n : ℕ}
  {genLeaf : ℕ → ι → Traced Query (Block × ι)}
  {genLeafx8 : ℕ → κ → Traced Query (Lanes Block × κ)}
  {treeHeight leafIdx idxOffset authPath : ℕ}

variable (genLeaf leafIdx idxOffset) in
/-- The scalar walk builds the tree over the leaves of its generator. -/
theorem treehashx1_shape (hbound : authPath + treeHeight * spxN ≤ n) (stack : ℕ → Block)
    (treeAddr : Addr) (info : ι) (mem : Vector UInt8 n) (M : Vector UInt8 n → Prop)
    (hM : ∀ mem k (b : Block), k < treeHeight → M mem →
      M (write mem (authPath + k * spxN) b)) (hmem : M mem) :
    NodeResult treeAddr treeHeight leafIdx authPath
      (shapeNode H ctx treeAddr idxOffset
        (genLeaves genLeaf (fun i => i + idxOffset) info))
      (fun i state mem => state = genInfo genLeaf (fun i => i + idxOffset) info i ∧ M mem)
      (treehashx1 H ctx (besidePath genLeaf) leafIdx idxOffset treeHeight authPath stack
        treeAddr info mem).val :=
  (treehashx1_node_sat (nodeTree_shapeNode H ctx treeAddr treeHeight idxOffset _)
    (leafGen_besidePath genLeaf info _ treeHeight idxOffset authPath (fun _ => rfl) M hM)
    hbound stack (TreeAddr.refl treeAddr) ⟨rfl, hmem⟩).2

/-- The 8-wide walk builds the same tree. -/
theorem treehashx8_shape (hheight : 3 ≤ treeHeight ∧ treeHeight ≤ 29)
    (hleaf : leafIdx < 2 ^ 32) (hoff : idxOffset + 2 ^ treeHeight ≤ 2 ^ 32)
    (hbound : authPath + treeHeight * spxN ≤ n) (stackx8 : ℕ → Lanes Block)
    {treeAddr : Addr} {treeAddrx8 : Lanes Addr}
    (haddr : ∀ l, EqOutside (treeAddrx8 l) treeAddr spxOffsetTreeHgt (spxOffsetTreeIndex + 4))
    {info : ι} {infox8 : κ}
    (hgen : YieldsEight genLeaf genLeafx8 treeHeight idxOffset info infox8)
    (mem : Vector UInt8 n) :
    WalkResultX8 treeHeight leafIdx authPath
      (shapeNode H ctx treeAddr idxOffset
        (genLeaves genLeaf (fun i => i + idxOffset) info))
      (fun i state _ => state = genInfo genLeafx8 (fun g => 8 * g + idxOffset) infox8 (i / 8))
      (treehashx8 H ctx (besidePath genLeafx8) leafIdx idxOffset treeHeight authPath stackx8
        treeAddrx8 infox8 mem).val := by
  have hpos : 0 < 2 ^ treeHeight := Nat.two_pow_pos treeHeight
  refine (treehashx8_node_sat (nodeTree_shapeNode H ctx treeAddr treeHeight idxOffset _)
    (leafGenX8_besidePath genLeafx8 infox8 _ treeHeight idxOffset authPath ?_)
    (fun _ _ _ => trivial) hbound (by omega) ⟨hheight.1, by omega⟩ hleaf stackx8
    (fun l => TreeAddr.of_eqOutside (haddr l)) rfl).2
  intro g hg
  funext l
  exact hgen g hg l

/-- The two walks return the same root. For a leaf of the tree they write the same
authentication path, and for no leaf they write none. -/
theorem treehashx8_eq_treehashx1 (hheight : 3 ≤ treeHeight ∧ treeHeight ≤ 29)
    (hleaf : leafIdx < 2 ^ treeHeight ∨ leafIdx = spxNoSignLeaf)
    (hoff : idxOffset + 2 ^ treeHeight ≤ 2 ^ 32)
    (hbound : authPath + treeHeight * spxN ≤ n) (stack : ℕ → Block)
    (stackx8 : ℕ → Lanes Block) {treeAddr : Addr} {treeAddrx8 : Lanes Addr}
    (haddr : ∀ l, EqOutside (treeAddrx8 l) treeAddr spxOffsetTreeHgt (spxOffsetTreeIndex + 4))
    {info : ι} {infox8 : κ}
    (hgen : YieldsEight genLeaf genLeafx8 treeHeight idxOffset info infox8)
    (mem memx8 : Vector UInt8 n) :
    let x1 := (treehashx1 H ctx (besidePath genLeaf) leafIdx idxOffset treeHeight authPath
      stack treeAddr info mem).val
    let x8 := (treehashx8 H ctx (besidePath genLeafx8) leafIdx idxOffset treeHeight authPath
      stackx8 treeAddrx8 infox8 memx8).val
    x8.1 = x1.1 ∧
      (leafIdx < 2 ^ treeHeight → ∀ k < treeHeight,
        pathEntry x8.2.2.2 authPath k = pathEntry x1.2.2.2 authPath k) ∧
      (leafIdx = spxNoSignLeaf → x1.2.2.2 = mem ∧ x8.2.2.2 = memx8) := by
  intro x1 x8
  have hpow : 2 ^ treeHeight ≤ 2 ^ 29 := Nat.pow_le_pow_right (by decide) hheight.2
  have hleaf32 : leafIdx < 2 ^ 32 := by
    rcases hleaf with hlt | rfl
    · omega
    · decide
  obtain ⟨hroot, _, _, hpath⟩ :=
    treehashx1_shape H ctx genLeaf leafIdx idxOffset hbound stack treeAddr info mem
      (fun _ => True) (fun _ _ _ _ _ => trivial) trivial
  obtain ⟨hroot8, _, hpath8⟩ :=
    treehashx8_shape H ctx hheight hleaf32 hoff hbound stackx8 haddr hgen memx8
  refine ⟨hroot8.trans hroot.symm, ?_, ?_⟩
  · intro hlt k hk
    exact (hpath8 hlt k hk).trans (hpath hlt k hk).symm
  · intro hnone
    have hlarge : 2 ^ (treeHeight + 2) ≤ leafIdx := by
      rw [hnone, Nat.pow_add]
      exact le_trans (Nat.mul_le_mul_right _ hpow) (by decide)
    have hlarge' : 2 ^ (treeHeight + 1) ≤ leafIdx :=
      le_trans (Nat.pow_le_pow_right (by decide) (by omega)) hlarge
    exact ⟨treehashx1Loop_mem H ctx genLeaf idxOffset authPath hlarge' _ 0 (Nat.zero_add _)
        stack treeAddr info mem,
      treehashx8Loop_mem H ctx genLeafx8 idxOffset authPath hheight hlarge hleaf32 _ 0
        (Nat.zero_add _) stackx8 treeAddrx8 0 0 infox8 memx8⟩

end Shapes

/-- A generator whose leaves repeat the low byte of their index. -/
def indexLeaf (idx : ℕ) (calls : ℕ) : Traced Query (Block × ℕ) :=
  pure (Vector.replicate 16 (UInt8.ofNat idx), calls + 1)

/-- Its 8-wide form. -/
def indexLeafx8 (idx : ℕ) (calls : ℕ) : Traced Query (Lanes Block × ℕ) :=
  pure (fun l => Vector.replicate 16 (UInt8.ofNat (idx + l.val)), calls + 1)

theorem yieldsEight_indexLeaf (treeHeight idxOffset calls callsx8 : ℕ) :
    YieldsEight indexLeaf indexLeafx8 treeHeight idxOffset calls callsx8 := by
  intro g _ l
  change Vector.replicate 16 (UInt8.ofNat (8 * g + idxOffset + l.val)) =
    Vector.replicate 16 (UInt8.ofNat (8 * g + l.val + idxOffset))
  rw [Nat.add_right_comm]

theorem treehashx8_eq_treehashx1_indexLeaf :
    let ctx : SpxCtx := ⟨Vector.replicate 16 0, Vector.replicate 16 1, Vector.replicate 40 2⟩
    let x1 := (treehashx1 constantHash ctx (besidePath indexLeaf) 5 8 3 0
      (fun _ => Vector.replicate 16 3) (addrOf 0 0 2 0 0 0) 0
      (Vector.replicate 48 4 : Vector UInt8 48)).val
    let x8 := (treehashx8 constantHash ctx (besidePath indexLeafx8) 5 8 3 0
      (fun _ _ => Vector.replicate 16 5) (fun l => addrOf 0 0 2 0 6 l.val) 0
      (Vector.replicate 48 7 : Vector UInt8 48)).val
    x8.1 = x1.1 ∧
      (5 < 2 ^ 3 → ∀ k < 3, pathEntry x8.2.2.2 0 k = pathEntry x1.2.2.2 0 k) ∧
      (5 = spxNoSignLeaf → x1.2.2.2 = Vector.replicate 48 4 ∧
        x8.2.2.2 = Vector.replicate 48 7) :=
  treehashx8_eq_treehashx1 constantHash _ (by decide) (Or.inl (by decide)) (by decide)
    (by decide) _ _ (by unfold EqOutside; decide) (yieldsEight_indexLeaf 3 8 0 0) _ _

end BitcoinPqc
