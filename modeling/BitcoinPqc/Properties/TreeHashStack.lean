import BitcoinPqc.Foundation.HeightStack
import BitcoinPqc.Properties.TreeShapes

/-!
# The stack of heights builds the same tree

`treehash` of `utils.c` and `treehashx1` are the same computation: they make the same calls
in the same order, and leave the same root, address buffer and authentication path. The two
stacks are related by `Holds`; the climb from one leaf merges as often in both walks,
because the heights below the current node are the ones of its index.
-/

namespace BitcoinPqc

open Merkle

variable {H : HashFns} {ctx : SpxCtx} {n : ℕ} {treeHeight leafIdx idxOffset authPath : ℕ}

/-- The node with index `j` at height `h` is written to the path when it is the sibling of
an ancestor of the leaf. -/
def pathWrite (leafIdx authPath h j : ℕ) (node : Block) (mem : Vector UInt8 n) :
    Vector UInt8 n :=
  if (leafIdx >>> h) ^^^ 1 = j then write mem (authPath + h * spxN) node else mem

/-!
## One leaf
-/

section Climb

/-- The inner loop stops at a node that is lower than every other one on the stack. -/
theorem treehashMerge_of_lt {slots : ℕ → Block} {idx k h p : ℕ} {s : TreeHashArrays n}
    (hheight : s.heights k = h) (hrest : Holds slots s.stack s.heights k (waiting (h + 1) p)) :
    treehashMerge H ctx leafIdx idxOffset authPath idx (k + 1) s = pure (k + 1, s) := by
  cases k with
  | zero => rfl
  | succ k =>
      have hne : s.heights (k + 1) ≠ s.heights k := by
        generalize hwaiting : waiting (h + 1) p = hs at hrest
        cases hrest with
        | @cons _ h' _ hheight' _ _ =>
            have hle := le_of_mem_waiting (hwaiting ▸ List.mem_cons_self : h' ∈ waiting (h + 1) p)
            omega
      rw [treehashMerge, if_neg hne]

/-- What the inner loops of the two walks leave after leaf `idx`: the same node, the left
child that the climb stopped at or the root. -/
def Merged (base : Addr) (treeHeight leafIdx authPath idx : ℕ) (slots : ℕ → Block)
    (a : ℕ × TreeHashArrays n) (b : Option ℕ × TreeHashState n) : Prop :=
  ∃ k, a.1 = k + 1 ∧ a.2.stack k = b.2.current ∧ a.2.treeAddr = b.2.treeAddr ∧
    TreeAddr base a.2.treeAddr ∧
    match b.1 with
    | some h => h < treeHeight ∧ a.2.heights k = h ∧ a.2.mem = b.2.mem ∧
        ∃ p, idx + 1 = (2 * p + 1) * 2 ^ h ∧
          Holds slots a.2.stack a.2.heights k (waiting (h + 1) p)
    | none => idx + 1 = 2 ^ treeHeight ∧ k = 0 ∧
        a.2.mem = pathWrite leafIdx authPath treeHeight 0 b.2.current b.2.mem

theorem shiftRight_eq_of_end {idx h j : ℕ} (hend : idx + 1 = (j + 1) * 2 ^ h) :
    idx >>> h = j := by
  have hpos : 0 < 2 ^ h := Nat.two_pow_pos h
  rw [Nat.shiftRight_eq_div_pow]
  exact Nat.div_eq_of_lt_le (by rw [Nat.succ_mul] at hend; omega) (by omega)

/-- The check of `treehashx1` for a node of the path is the one of `treehash`. -/
theorem xor_eq_one_iff (j leaf : ℕ) : j ^^^ leaf = 1 ↔ leaf ^^^ 1 = j := by
  constructor
  · intro h
    rw [← h, Nat.xor_comm j leaf, ← Nat.xor_assoc, Nat.xor_self, Nat.zero_xor]
  · rintro rfl
    rw [Nat.xor_comm leaf 1, Nat.xor_assoc, Nat.xor_self, Nat.xor_zero]

theorem treehashMerge_same {base : Addr} {idx : ℕ} (hidx : idx < 2 ^ treeHeight)
    (slots : ℕ → Block) (r h j k : ℕ) (hr : h + r = treeHeight)
    (hend : idx + 1 = (j + 1) * 2 ^ h) (s : TreeHashArrays n) (t : TreeHashState n)
    (hheight : s.heights k = h) (hholds : Holds slots s.stack s.heights k (waiting h j))
    (hcurrent : s.stack k = t.current) (haddr : s.treeAddr = t.treeAddr)
    (htree : TreeAddr base s.treeAddr)
    (hmem : s.mem = pathWrite leafIdx authPath h j t.current t.mem) :
    Traced.Same (Merged base treeHeight leafIdx authPath idx slots)
      (treehashMerge H ctx leafIdx idxOffset authPath idx (k + 1) s)
      (treehashx1Climb H ctx authPath idx (2 ^ treeHeight - 1) slots r h j (leafIdx >>> h)
        (idxOffset >>> h) t) := by
  induction r generalizing h j k s t with
  | zero =>
      obtain rfl : h = treeHeight := hr
      obtain rfl : j = 0 := Nat.lt_one_iff.mp (index_lt_of_climb (r := 0) rfl hidx hend)
      rw [waiting_zero_index] at hholds
      obtain rfl : 0 = k := hholds.length_eq
      exact Traced.Same.pure ⟨0, rfl, hcurrent, haddr, htree, by omega, rfl, hmem⟩
  | succ r ih =>
      have hlt : h < treeHeight := by omega
      have hwritten : (if j ^^^ leafIdx >>> h = 1 then
          write t.mem (authPath + h * spxN) t.current else t.mem) = s.mem := by
        rw [hmem, pathWrite]
        simp only [xor_eq_one_iff]
      rw [treehashx1Climb, Nat.and_one_is_mod]
      simp only [hwritten]
      by_cases hstop : j % 2 = 0 ∧ idx < 2 ^ treeHeight - 1
      · -- a left child waits for its sibling in both walks
        obtain ⟨p, rfl⟩ : ∃ p, j = 2 * p := ⟨j / 2, by omega⟩
        rw [waiting_two_mul] at hholds
        rw [if_pos hstop, treehashMerge_of_lt hheight hholds]
        exact Traced.Same.pure
          ⟨k, rfl, hcurrent, haddr, htree, hlt, hheight, rfl, p, hend, hholds⟩
      · -- a right child has its sibling on top of the stack, and in the slot of its height
        obtain ⟨p, rfl, hparent⟩ := exists_parent_of_climb hlt hidx hend hstop
        have hindex : idx >>> (h + 1) = p := shiftRight_eq_of_end hparent
        rw [waiting_two_mul_add_one] at hholds
        rw [if_neg hstop]
        generalize hwaiting : h :: waiting (h + 1) p = hs at hholds
        cases hholds with
        | nil => cases hwaiting
        | @cons k h' hs hsibling hleft hrest =>
            obtain ⟨rfl, rfl⟩ := List.cons.inj hwaiting
            rw [treehashMerge, if_pos (hheight.trans hsibling.symm)]
            simp only [hheight, hsibling, hindex, hcurrent, hleft, haddr, Function.update_self,
              Nat.shiftRight_one, show (2 * p + 1) / 2 = p by omega]
            refine (Traced.Same.refl _).bind ?_
            rintro node _ rfl
            refine ih (h + 1) p k (by omega) hparent _ _ (Function.update_self ..)
              (hrest.update_above le_rfl _ _) (Function.update_self ..) rfl ?_ rfl
            rw [← haddr, htree.set_eq]
            exact TreeAddr.nodeAddr base _ _

theorem treehashMerge_leaf_same {base : Addr} {idx offset : ℕ} (hidx : idx < 2 ^ treeHeight)
    (slots : ℕ → Block) (s : TreeHashArrays n)
    (hholds : Holds slots s.stack s.heights offset (waiting 0 idx))
    (htree : TreeAddr base s.treeAddr) (leaf : Block) :
    Traced.Same (Merged base treeHeight leafIdx authPath idx slots)
      (treehashMerge H ctx leafIdx idxOffset authPath idx (offset + 1)
        ⟨Function.update s.stack offset leaf, Function.update s.heights offset 0, s.treeAddr,
          if leafIdx ^^^ 1 = idx then write s.mem authPath leaf else s.mem⟩)
      (treehashx1Climb H ctx authPath idx (2 ^ treeHeight - 1) slots treeHeight 0 idx leafIdx
        idxOffset ⟨leaf, s.treeAddr, s.mem⟩) := by
  refine treehashMerge_same hidx slots treeHeight 0 idx offset (Nat.zero_add _)
    (Nat.mul_one _).symm _ _ (Function.update_self ..) (hholds.update_above le_rfl _ _)
    (Function.update_self ..) rfl htree ?_
  rw [pathWrite, Nat.shiftRight_zero, Nat.zero_mul, Nat.add_zero]

end Climb

/-!
## All leaves
-/

section Loop

/-- What the outer loops leave: the root at the bottom of the stack. -/
def SameWalk (treeHeight leafIdx authPath : ℕ) (a : Except ℕ (TreeHashArrays n))
    (b : Block × Addr × Unit × Vector UInt8 n) : Prop :=
  ∃ s, a = .ok s ∧ s.stack 0 = b.1 ∧ s.treeAddr = b.2.1 ∧
    s.mem = pathWrite leafIdx authPath treeHeight 0 b.1 b.2.2.2

/-- A leaf generator of `treehash`, whose leaves do not depend on the node that the address
buffer was last used for. -/
def LeavesOf (base : Addr) (genLeaf : ℕ → Addr → Traced Query Block) : Prop :=
  ∀ i addr, TreeAddr base addr → genLeaf i addr = genLeaf i base

/-- The generator in the form that `treehashx1` takes it in. -/
def leafOf (base : Addr) (genLeaf : ℕ → Addr → Traced Query Block) (i : ℕ) (_ : Unit) :
    Traced Query (Block × Unit) := do
  let leaf ← genLeaf i base
  pure (leaf, ())

theorem besidePath_leafOf (base : Addr) (genLeaf : ℕ → Addr → Traced Query Block) (i : ℕ)
    (mem : Vector UInt8 n) :
    besidePath (leafOf base genLeaf) i () mem =
      (genLeaf i base >>= fun leaf => pure (leaf, (), mem)) := by
  simp [besidePath, leafOf]

/-- The walks from leaf `idx` on. The stack has room for the leaf, because the subtrees on it
are as many as there are ones in `idx`. -/
theorem treehashLoop_same {base : Addr} {genLeaf : ℕ → Addr → Traced Query Block}
    (hgen : LeavesOf base genLeaf) (rest idx offset : ℕ)
    (hrest : idx + rest = 2 ^ treeHeight - 1) (slots : ℕ → Block) (s : TreeHashArrays n)
    (hholds : Holds slots s.stack s.heights offset (waiting 0 idx))
    (htree : TreeAddr base s.treeAddr) :
    Traced.Same (SameWalk treeHeight leafIdx authPath)
      (treehashLoop H ctx genLeaf leafIdx idxOffset treeHeight authPath (rest + 1) idx offset s)
      (treehashx1Loop H ctx (besidePath (leafOf base genLeaf)) leafIdx idxOffset treeHeight
        authPath (2 ^ treeHeight - 1) rest idx slots s.treeAddr () s.mem) := by
  have hpos : 0 < 2 ^ treeHeight := Nat.two_pow_pos treeHeight
  induction rest generalizing idx offset slots s with
  | zero =>
      have hroom : ¬ treeHeight < offset := Nat.not_lt.mpr (hholds.le (by omega))
      rw [treehashLoop, treehashx1Loop, if_neg hroom, hgen _ _ htree, besidePath_leafOf,
        bind_assoc]
      refine (Traced.Same.refl _).bind ?_
      rintro leaf _ rfl
      rw [pure_bind]
      refine (treehashMerge_leaf_same (by omega) slots s hholds htree leaf).bind ?_
      rintro ⟨_, a⟩ ⟨stop, t⟩ ⟨k, rfl, hroot, haddr, -, hstop⟩
      cases stop with
      | none =>
          obtain ⟨-, rfl, hmem⟩ := hstop
          exact Traced.Same.pure ⟨a, rfl, hroot, haddr, hmem⟩
      | some h =>
          obtain ⟨hlt, -, -, p, hend, -⟩ := hstop
          have hodd := odd_of_climb_last (r := treeHeight - h - 1) (by omega)
            (show idx = 2 ^ treeHeight - 1 by omega) hend
          omega
  | succ rest ih =>
      have hroom : ¬ treeHeight < offset := Nat.not_lt.mpr (hholds.le (by omega))
      rw [treehashLoop, treehashx1Loop, if_neg hroom, hgen _ _ htree, besidePath_leafOf,
        bind_assoc]
      refine (Traced.Same.refl _).bind ?_
      rintro leaf _ rfl
      rw [pure_bind]
      refine (treehashMerge_leaf_same (by omega) slots s hholds htree leaf).bind ?_
      rintro ⟨_, a⟩ ⟨stop, t⟩ ⟨k, rfl, hcurrent, haddr, htree', hstop⟩
      cases stop with
      | none => exact absurd hstop.1 (by omega)
      | some h =>
          obtain ⟨-, hheight, hmem, p, hend, hholds'⟩ := hstop
          have hnext : waiting 0 (idx + 1) = h :: waiting (h + 1) p := by
            rw [hend, waiting_mul_two_pow, waiting_two_mul_add_one]
          have hstored := hholds'.store hheight
          rw [hcurrent, ← hnext] at hstored
          simp only
          rw [← haddr, ← hmem]
          exact ih (idx + 1) (k + 1) (by omega) _ a hstored htree'

end Loop

/-- `treehash` is `treehashx1`, with the same calls in the same order. It never runs out of
its stack. The one difference is the leaf index: where it lies in the tree to the right of
this one, `treehash` writes the root behind the path. -/
theorem treehash_eq_treehashx1 (H : HashFns) (ctx : SpxCtx)
    (genLeaf : ℕ → Addr → Traced Query Block) (leafIdx idxOffset treeHeight authPath : ℕ)
    (stack slots : ℕ → Block) (heights : ℕ → ℕ) (treeAddr : Addr) (mem : Vector UInt8 n)
    (hgen : LeavesOf treeAddr genLeaf) :
    treehash H ctx genLeaf leafIdx idxOffset treeHeight authPath stack heights treeAddr mem =
      (do
        let r ← treehashx1 H ctx (besidePath (leafOf treeAddr genLeaf)) leafIdx idxOffset
          treeHeight authPath slots treeAddr () mem
        pure (.ok (r.1, r.2.1,
          if leafIdx >>> treeHeight = 1 then
            write r.2.2.2 (authPath + treeHeight * spxN) r.1
          else r.2.2.2))) := by
  have hpos : 0 < 2 ^ treeHeight := Nat.two_pow_pos treeHeight
  have hsame := @treehashLoop_same H ctx n treeHeight leafIdx idxOffset authPath treeAddr genLeaf
    hgen (2 ^ treeHeight - 1) 0 0 (Nat.zero_add _) slots ⟨stack, heights, treeAddr, mem⟩
    (by rw [waiting_zero_index]; exact .nil) (TreeAddr.refl treeAddr)
  rw [Nat.sub_add_cancel hpos] at hsame
  rw [treehash]
  refine (hsame.bind ?_).eq
  rintro _ ⟨root, treeAddr', _, mem'⟩ ⟨s, rfl, rfl, rfl, hmem⟩
  simp only [hmem, pathWrite, Nat.xor_eq_zero_iff]
  exact Traced.Same.refl _

/-- A leaf generator like the one of a FORS tree: it asks for the leaf at its own address. -/
def addressedLeaf (H : HashFns) (ctx : SpxCtx) (i : ℕ) (treeAddr : Addr) :
    Traced Query Block :=
  prfAddr H ctx (nodeAddr treeAddr 0 i)

theorem leavesOf_addressedLeaf (H : HashFns) (ctx : SpxCtx) (base : Addr) :
    LeavesOf base (addressedLeaf H ctx) := by
  intro i addr haddr
  rw [addressedLeaf, haddr 0 i, addressedLeaf]

theorem treehash_eq_treehashx1_addressedLeaf :
    let ctx : SpxCtx := ⟨Vector.replicate 16 0, Vector.replicate 16 1, Vector.replicate 40 2⟩
    let base := addrOf 0 0 3 0 0 0
    treehash constantHash ctx (addressedLeaf constantHash ctx) 5 8 3 0
        (fun _ => Vector.replicate 16 3) (fun _ => 7) base
        (Vector.replicate 48 4 : Vector UInt8 48) =
      (do
        let r ← treehashx1 constantHash ctx
          (besidePath (leafOf base (addressedLeaf constantHash ctx))) 5 8 3 0
          (fun _ => Vector.replicate 16 5) base () (Vector.replicate 48 4 : Vector UInt8 48)
        pure (.ok (r.1, r.2.1,
          if 5 >>> 3 = 1 then write r.2.2.2 (0 + 3 * spxN) r.1 else r.2.2.2))) :=
  treehash_eq_treehashx1 constantHash _ _ 5 8 3 0 _ _ _ _ _
    (leavesOf_addressedLeaf constantHash _ _)

end BitcoinPqc
