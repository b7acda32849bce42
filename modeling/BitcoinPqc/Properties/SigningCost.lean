import BitcoinPqc.Properties.HashCalls
import BitcoinPqc.Properties.OneTimeKeys
import Mathlib.Tactic.Module

/-!
# The hash calls of key generation and signing

A tree walk costs its leaves and one merge for every other node, so it costs the same for
every leaf that is signed and for none. The work of a build with AVX2 is counted lane by
lane, with the lanes of the top three levels that hold no real node.
-/

namespace BitcoinPqc

open Merkle

variable {E : Build} {H : HashFns} {ctx : SpxCtx}

/-!
## Tree walks
-/

section Walks

variable {n : ℕ} {ι : Type}

theorem hashCalls_treehashx1Climb (authPath idx maxIdx : ℕ) (stack : ℕ → Block)
    (r h j leaf off : ℕ) (s : TreeHashState n) :
    hashCalls (treehashx1Climb H ctx authPath idx maxIdx stack r h j leaf off s) =
      climbMerges (idx < maxIdx) r j • {.thash} := by
  induction r generalizing h j leaf off s with
  | zero => rfl
  | succ r ih =>
      rw [treehashx1Climb, climbMerges]
      by_cases hstop : j % 2 = 0 ∧ idx < maxIdx
      · have hstop' : j &&& 1 = 0 ∧ idx < maxIdx := by rwa [Nat.and_one_is_mod]
        simp only [if_pos hstop', hashCalls, Traced.cost_pure]
        simp [hstop]
      · have hstop' : ¬ (j &&& 1 = 0 ∧ idx < maxIdx) := by rwa [Nat.and_one_is_mod]
        simp only [if_neg hstop', hashCalls, Traced.cost_bind]
        rw [← hashCalls, ← hashCalls, hashCalls_thash, ih, Nat.shiftRight_one,
          if_neg (by simpa using hstop), succ_nsmul']

/-- A climb from a leaf before the last one stops below the root. -/
theorem treehashx1Climb_stops (authPath idx maxIdx : ℕ) (stack : ℕ → Block)
    (r h j leaf off : ℕ) (s : TreeHashState n) (hidx : idx < maxIdx) (hj : j + 1 < 2 ^ r) :
    (treehashx1Climb H ctx authPath idx maxIdx stack r h j leaf off s).val.1 ≠ none := by
  induction r generalizing h j leaf off s with
  | zero => omega
  | succ r ih =>
      rw [treehashx1Climb, Nat.and_one_is_mod]
      by_cases hstop : j % 2 = 0 ∧ idx < maxIdx
      · simp [hstop]
      · rw [Nat.pow_succ] at hj
        have hnext : j >>> 1 + 1 < 2 ^ r := by
          rw [Nat.shiftRight_one]
          omega
        simp only [if_neg hstop]
        exact ih _ _ _ _ _ hnext

theorem hashCalls_treehashx1Loop {g : Multiset HashKind}
    {genLeaf : ℕ → ι → Vector UInt8 n → Traced Query (Block × ι × Vector UInt8 n)}
    (hgen : ∀ i info mem, hashCalls (genLeaf i info mem) = g)
    (leafIdx idxOffset treeHeight authPath rest idx : ℕ)
    (hrest : idx + rest = 2 ^ treeHeight - 1) (stack : ℕ → Block) (treeAddr : Addr)
    (info : ι) (mem : Vector UInt8 n) :
    completed idx • {.thash} + hashCalls (treehashx1Loop H ctx genLeaf leafIdx idxOffset
        treeHeight authPath (2 ^ treeHeight - 1) rest idx stack treeAddr info mem) =
      (rest + 1) • g + (2 ^ treeHeight - 1) • {.thash} := by
  have hpos : 0 < 2 ^ treeHeight := Nat.two_pow_pos treeHeight
  induction rest generalizing idx stack treeAddr info mem with
  | zero =>
      have hidx : ¬ idx < 2 ^ treeHeight - 1 := by omega
      have hlast : 2 ^ treeHeight - 1 = completed idx + treeHeight := by
        rw [← completed_two_pow, ← completed_last, show idx = 2 ^ treeHeight - 1 by omega]
      have hclimb := @hashCalls_treehashx1Climb H ctx n authPath idx
        (2 ^ treeHeight - 1) stack treeHeight 0 idx leafIdx idxOffset
      rw [decide_eq_false hidx, climbMerges_false] at hclimb
      rw [treehashx1Loop]
      simp only [hashCalls, Traced.cost_bind, Traced.cost_pure, add_zero] at hgen hclimb ⊢
      rw [hgen, hclimb, hlast, add_nsmul _ (completed idx), Nat.zero_add, one_nsmul, add_left_comm]
  | succ rest ih =>
      have hidx : idx < 2 ^ treeHeight - 1 := by omega
      have hnext : idx + 1 < 2 ^ treeHeight := by omega
      have hclimb := @hashCalls_treehashx1Climb H ctx n authPath idx
        (2 ^ treeHeight - 1) stack treeHeight 0 idx leafIdx idxOffset
      rw [decide_eq_true hidx] at hclimb
      have hstops := @treehashx1Climb_stops H ctx n authPath idx
        (2 ^ treeHeight - 1) stack treeHeight 0 idx leafIdx idxOffset
      rw [treehashx1Loop]
      simp only [hashCalls, Traced.cost_bind] at hgen hclimb ⊢
      rw [hgen, hclimb]
      generalize hresult : (treehashx1Climb H ctx authPath idx (2 ^ treeHeight - 1) stack
        treeHeight 0 idx leafIdx idxOffset _).val = result
      obtain ⟨stop, t⟩ := result
      cases stop with
      | none => exact absurd (congrArg Prod.fst hresult) (hstops _ hidx hnext)
      | some h =>
          have hrec := ih (idx + 1) (by omega) (Function.update stack h t.current) t.treeAddr
            (genLeaf (idx + idxOffset) info mem).val.2.1 t.mem
          rw [completed_succ hnext, add_nsmul, add_assoc] at hrec
          rw [add_left_comm, hrec, succ_nsmul' _ (rest + 1), add_assoc]

theorem hashCalls_treehashx1 {g : Multiset HashKind}
    {genLeaf : ℕ → ι → Vector UInt8 n → Traced Query (Block × ι × Vector UInt8 n)}
    (hgen : ∀ i info mem, hashCalls (genLeaf i info mem) = g)
    (leafIdx idxOffset treeHeight authPath : ℕ) (stack : ℕ → Block) (treeAddr : Addr)
    (info : ι) (mem : Vector UInt8 n) :
    hashCalls (treehashx1 H ctx genLeaf leafIdx idxOffset treeHeight authPath stack treeAddr
        info mem) = 2 ^ treeHeight • g + (2 ^ treeHeight - 1) • {.thash} := by
  have hloop := @hashCalls_treehashx1Loop H ctx n ι g genLeaf hgen leafIdx idxOffset
    treeHeight authPath (2 ^ treeHeight - 1) 0 (Nat.zero_add _) stack treeAddr info mem
  rw [completed, if_pos rfl, zero_nsmul, zero_add,
    Nat.sub_add_cancel (Nat.two_pow_pos treeHeight)] at hloop
  exact hloop

theorem hashCalls_treehashx8Climb (treeHeight authPath idx maxIdx : ℕ)
    (stack : ℕ → Lanes Block) (r h j leaf off : ℕ) (s : TreeHashStateX8 n) :
    hashCalls (treehashx8Climb H ctx treeHeight authPath idx maxIdx stack r h j leaf off s) =
      climbMerges (idx < maxIdx) r j • 8 • {.thash} := by
  induction r generalizing h j leaf off s with
  | zero => rfl
  | succ r ih =>
      rw [treehashx8Climb, climbMerges]
      by_cases hstop : j % 2 = 0 ∧ idx < maxIdx
      · have hstop' : j &&& 1 = 0 ∧ idx < maxIdx := by rwa [Nat.and_one_is_mod]
        simp only [if_pos hstop', hashCalls, Traced.cost_pure]
        simp [hstop]
      · have hstop' : ¬ (j &&& 1 = 0 ∧ idx < maxIdx) := by rwa [Nat.and_one_is_mod]
        simp only [if_neg hstop', hashCalls, Traced.cost_bind]
        rw [← hashCalls, ← hashCalls, hashCalls_thashx8, ih, Nat.shiftRight_one,
          if_neg (by simpa using hstop)]
        exact (succ_nsmul' _ _).symm

theorem treehashx8Climb_stops (treeHeight authPath idx maxIdx : ℕ)
    (stack : ℕ → Lanes Block) (r h j leaf off : ℕ) (s : TreeHashStateX8 n)
    (hidx : idx < maxIdx) (hj : j + 1 < 2 ^ r) :
    (treehashx8Climb H ctx treeHeight authPath idx maxIdx stack r h j leaf off s).val.1 ≠
      none := by
  induction r generalizing h j leaf off s with
  | zero => omega
  | succ r ih =>
      rw [treehashx8Climb, Nat.and_one_is_mod]
      by_cases hstop : j % 2 = 0 ∧ idx < maxIdx
      · simp [hstop]
      · rw [Nat.pow_succ] at hj
        have hnext : j >>> 1 + 1 < 2 ^ r := by
          rw [Nat.shiftRight_one]
          omega
        simp only [if_neg hstop]
        exact ih _ _ _ _ _ hnext

/-- The walk from group `idx` on. The last climb goes on through the top three levels. -/
theorem hashCalls_treehashx8Loop {g : Multiset HashKind}
    {genLeafx8 : ℕ → ι → Vector UInt8 n → Traced Query (Lanes Block × ι × Vector UInt8 n)}
    (hgen : ∀ i info mem, hashCalls (genLeafx8 i info mem) = g)
    (leafIdx idxOffset groups authPath rest idx : ℕ) (hrest : idx + rest = 2 ^ groups - 1)
    (stack : ℕ → Lanes Block) (treeAddr : Lanes Addr) (leftAdj prevLeftAdj : ℕ) (info : ι)
    (mem : Vector UInt8 n) :
    completed idx • 8 • {.thash} + hashCalls (treehashx8Loop H ctx genLeafx8 leafIdx
        idxOffset (groups + 3) authPath (2 ^ groups - 1) rest idx stack treeAddr leftAdj
        prevLeftAdj info mem) =
      (rest + 1) • g + (2 ^ groups + 2) • 8 • {.thash} := by
  have hpos : 0 < 2 ^ groups := Nat.two_pow_pos groups
  induction rest generalizing idx stack treeAddr leftAdj prevLeftAdj info mem with
  | zero =>
      have hidx : ¬ idx < 2 ^ groups - 1 := by omega
      have hlast : 2 ^ groups + 2 = completed idx + (groups + 3) := by
        have hlast := completed_last groups
        rw [completed_two_pow, ← show idx = 2 ^ groups - 1 by omega] at hlast
        omega
      have hclimb := @hashCalls_treehashx8Climb H ctx n (groups + 3)
        authPath idx (2 ^ groups - 1) stack (groups + 3) 0 idx leafIdx idxOffset
      rw [decide_eq_false hidx, climbMerges_false] at hclimb
      rw [treehashx8Loop]
      simp only [hashCalls, Traced.cost_bind, Traced.cost_pure, add_zero] at hgen hclimb ⊢
      rw [hgen, hclimb, hlast, add_nsmul _ (completed idx), Nat.zero_add, one_nsmul,
        add_left_comm]
  | succ rest ih =>
      have hidx : idx < 2 ^ groups - 1 := by omega
      have hnext : idx + 1 < 2 ^ (groups + 3) := by
        rw [Nat.pow_add]
        omega
      have hclimb := @hashCalls_treehashx8Climb H ctx n (groups + 3)
        authPath idx (2 ^ groups - 1) stack (groups + 3) 0 idx leafIdx idxOffset
      rw [decide_eq_true hidx] at hclimb
      have hstops := @treehashx8Climb_stops H ctx n (groups + 3)
        authPath idx (2 ^ groups - 1) stack (groups + 3) 0 idx leafIdx idxOffset
      rw [treehashx8Loop]
      simp only [hashCalls, Traced.cost_bind] at hgen hclimb ⊢
      rw [hgen, hclimb]
      generalize hresult : (treehashx8Climb H ctx (groups + 3) authPath idx (2 ^ groups - 1)
        stack (groups + 3) 0 idx leafIdx idxOffset _).val = result
      obtain ⟨stop, t⟩ := result
      cases stop with
      | none => exact absurd (congrArg Prod.fst hresult) (hstops _ hidx hnext)
      | some h =>
          have hrec := ih (idx + 1) (by omega) (Function.update stack h t.current) t.treeAddr
            t.leftAdj t.prevLeftAdj (genLeafx8 (8 * idx + idxOffset) info mem).val.2.1 t.mem
          rw [completed_succ hnext, add_nsmul, add_assoc] at hrec
          rw [add_left_comm, hrec, succ_nsmul' _ (rest + 1), add_assoc]

/-- The 8-lane walk costs its groups of leaves and eight calls for every logical node above
them. -/
theorem hashCalls_treehashx8 {g : Multiset HashKind}
    {genLeafx8 : ℕ → ι → Vector UInt8 n → Traced Query (Lanes Block × ι × Vector UInt8 n)}
    (hgen : ∀ i info mem, hashCalls (genLeafx8 i info mem) = g)
    (leafIdx idxOffset : ℕ) {treeHeight : ℕ} (hheight : 3 ≤ treeHeight) (authPath : ℕ)
    (stack : ℕ → Lanes Block) (treeAddr : Lanes Addr) (info : ι) (mem : Vector UInt8 n) :
    hashCalls (treehashx8 H ctx genLeafx8 leafIdx idxOffset treeHeight authPath stack
        treeAddr info mem) =
      2 ^ (treeHeight - 3) • g + (2 ^ (treeHeight - 3) + 2) • 8 • {.thash} := by
  obtain ⟨groups, rfl⟩ := Nat.exists_eq_add_of_le' hheight
  have hloop := @hashCalls_treehashx8Loop H ctx n ι g genLeafx8 hgen leafIdx idxOffset groups
    authPath (2 ^ groups - 1) 0 (Nat.zero_add _) stack treeAddr 0 0 info mem
  rw [completed, if_pos rfl, zero_nsmul, zero_add,
    Nat.sub_add_cancel (Nat.two_pow_pos groups)] at hloop
  rw [treehashx8, Nat.add_sub_cancel]
  exact hloop

end Walks

/-!
## Leaves
-/

section Leaves

variable {n : ℕ}

theorem hashCalls_wotsChainLoop (doSign : Bool) (wotsK sigPtr rest k : ℕ) (buffer : Block)
    (leafAddr : Addr) (mem : Vector UInt8 n) :
    hashCalls (wotsChainLoop H ctx doSign wotsK sigPtr rest k buffer leafAddr mem) =
      rest • {.thash} := by
  induction rest generalizing k buffer leafAddr mem with
  | zero => rfl
  | succ rest ih =>
      rw [wotsChainLoop, hashCalls, Traced.cost_bind, ← hashCalls, ← hashCalls,
        hashCalls_thash, ih, succ_nsmul']

theorem hashCalls_wotsChainLoopX8 (doSign : Bool) (signIndex wotsK sigPtr rest k : ℕ)
    (buffer : Lanes Block) (leafAddr : Lanes Addr) (mem : Vector UInt8 n) :
    hashCalls (wotsChainLoopX8 H ctx doSign signIndex wotsK sigPtr rest k buffer leafAddr
      mem) = rest • 8 • {.thash} := by
  induction rest generalizing k buffer leafAddr mem with
  | zero => rfl
  | succ rest ih =>
      rw [wotsChainLoopX8, hashCalls, Traced.cost_bind, ← hashCalls, ← hashCalls,
        hashCalls_thashx8, ih]
      exact (succ_nsmul' _ _).symm

/-- The calls for one leaf of the hypertree: sixteen chains of 255 steps, each from a secret
value, and the compression of their ends. -/
abbrev wotsLeafCalls : Multiset HashKind :=
  spxWotsLen • ({.prfAddr} + (spxWotsW - 1) • {.thash}) + {.thash}

/-- A leaf costs the same whether it signs or not. -/
theorem hashCalls_wotsGenLeafx1Scalar (leafIdx : ℕ) (info : LeafInfoX1)
    (mem : Vector UInt8 n) :
    hashCalls (wotsGenLeafx1Scalar E H ctx leafIdx info mem) = wotsLeafCalls := by
  have hchain (i : ℕ) (s : (ℕ → Block) × Addr × Vector UInt8 n) :
      hashCalls (wotsGenLeafChain H ctx info (info.doSign leafIdx) i s) =
        {.prfAddr} + (spxWotsW - 1) • {.thash} := by
    rw [wotsGenLeafChain]
    simp only [hashCalls, Traced.cost_bind, Traced.cost_pure, add_zero]
    rw [← hashCalls, ← hashCalls, hashCalls_prfAddr, hashCalls_wotsChainLoop]
  rw [wotsGenLeafx1Scalar]
  simp only [hashCalls, Traced.cost_bind, Traced.cost_pure, add_zero]
  rw [Traced.cost_forRange_const Query.kind fun i _ s => hchain i s, ← hashCalls,
    hashCalls_thash]

theorem hashCalls_wotsGenLeafx8 (leafIdx : ℕ) (info : LeafInfoX8) (mem : Vector UInt8 n) :
    hashCalls (wotsGenLeafx8 E H ctx leafIdx info mem) = 8 • wotsLeafCalls := by
  have hchain (signIndex i : ℕ) (s : (ℕ → Lanes Block) × Lanes Addr × Vector UInt8 n) :
      hashCalls (wotsGenLeafChainX8 H ctx info (info.doSign leafIdx) signIndex i s) =
        8 • ({.prfAddr} + (spxWotsW - 1) • {.thash}) := by
    rw [wotsGenLeafChainX8]
    simp only [hashCalls, Traced.cost_bind, Traced.cost_pure, add_zero]
    rw [← hashCalls, ← hashCalls, hashCalls_prfAddrx8, hashCalls_wotsChainLoopX8,
      nsmul_left_comm, ← nsmul_add]
  rw [wotsGenLeafx8]
  simp only [hashCalls, Traced.cost_bind, Traced.cost_pure, add_zero]
  rw [Traced.cost_forRange_const Query.kind fun i _ s => hchain _ i s, ← hashCalls,
    hashCalls_thashx8, nsmul_left_comm, ← nsmul_add]

theorem hashCalls_forsGenLeafx1 (addrIdx : ℕ) (leafAddr : Addr) (mem : Vector UInt8 n) :
    hashCalls (forsGenLeafx1 H ctx addrIdx leafAddr mem) = {.prfAddr} + {.thash} := rfl

theorem hashCalls_forsGenLeafx8 (addrIdx : ℕ) (leafAddr : Lanes Addr)
    (mem : Vector UInt8 n) :
    hashCalls (forsGenLeafx8 H ctx addrIdx leafAddr mem) = 8 • ({.prfAddr} + {.thash}) := by
  rw [forsGenLeafx8]
  simp only [hashCalls, Traced.cost_bind, Traced.cost_pure, add_zero]
  rw [← hashCalls, ← hashCalls, hashCalls_prfAddrx8, hashCalls_thashx8, nsmul_add]

end Leaves

/-!
## Trees
-/

/-- The calls for the inner nodes of a tree: one for each node, or eight for each logical
node of the 8-lane walk. -/
def walkMerges (E : Build) (treeHeight : ℕ) : ℕ :=
  if E.hasAvx2 then (2 ^ (treeHeight - 3) + 2) * 8 else 2 ^ treeHeight - 1

/-- The calls for one FORS tree: the opened value, the leaves and the nodes. -/
def forsTreeCalls (E : Build) : Multiset HashKind :=
  {.prfAddr} + (2 ^ spxForsHeight • ({.prfAddr} + {.thash}) +
    walkMerges E spxForsHeight • {.thash})

/-- The calls for the FORS signature. -/
def forsCalls (E : Build) : Multiset HashKind :=
  spxForsSigTrees • forsTreeCalls E + {.thash}

/-- The calls for one subtree of the hypertree. -/
def subtreeCalls (E : Build) : Multiset HashKind :=
  2 ^ spxTreeHeight • wotsLeafCalls + walkMerges E spxTreeHeight • {.thash}

section Trees

variable {n : ℕ}

theorem hashCalls_forsSignTree (h : E.hasAvx2 = false) (sigTree : ℕ) (mem : Vector UInt8 n)
    (forsAddr : Addr) (leafIdx treeNum : ℕ) :
    hashCalls (forsSignTree E H sigTree mem ctx forsAddr leafIdx treeNum) =
      forsTreeCalls E := by
  rw [forsSignTree, forsTreeCalls, walkMerges, h]
  simp only [hashCalls, Traced.cost_bind, Traced.cost_pure, add_zero]
  rw [← hashCalls, ← hashCalls, hashCalls_prfAddr,
    hashCalls_treehashx1 (@hashCalls_forsGenLeafx1 H ctx n)]
  rfl

theorem hashCalls_forsSignTreeAvx2 (h : E.hasAvx2 = true) (sigTree : ℕ)
    (mem : Vector UInt8 n) (forsAddr : Addr) (leafIdx treeNum : ℕ) :
    hashCalls (forsSignTreeAvx2 E H sigTree mem ctx forsAddr leafIdx treeNum) =
      forsTreeCalls E := by
  rw [forsSignTreeAvx2, forsTreeCalls, walkMerges, h]
  simp only [hashCalls, Traced.cost_bind, Traced.cost_pure, add_zero]
  rw [← hashCalls, ← hashCalls, hashCalls_prfAddr,
    hashCalls_treehashx8 (@hashCalls_forsGenLeafx8 H ctx n) _ _ (by decide), ← mul_nsmul',
    ← mul_nsmul']
  rfl

theorem hashCalls_forsSign (sig : ℕ) (mem : Vector UInt8 n) (m : Block) (forsAddr : Addr) :
    hashCalls (forsSign E H sig mem m ctx forsAddr) = forsCalls E := by
  rw [forsSign, forsCalls]
  simp only [hashCalls, Traced.cost_bind, Traced.cost_pure, add_zero]
  rw [Traced.cost_forRange_const Query.kind (c := forsTreeCalls E), ← hashCalls,
    hashCalls_thash]
  intro i _ s
  split
  · next h =>
      rw [Traced.cost_bind, Traced.cost_pure, add_zero]
      exact hashCalls_forsSignTreeAvx2 h _ _ _ _ _
  · next h =>
      rw [Traced.cost_bind, Traced.cost_pure, add_zero]
      exact hashCalls_forsSignTree (Bool.eq_false_iff.mpr h) _ _ _ _ _

section MerkleSign

variable (sig : ℕ) (mem : Vector UInt8 n) (root : Block) (wotsAddr treeAddr : Addr)
  (idxLeaf : ℕ) (T : ThreadState)

/-- After the chain lengths both versions build the subtree, whatever they sign. -/
theorem hashCalls_merkleSign_of_steps {steps : Option (Vector ℕ 16)} {T' : ThreadState}
    (h : (merkleSignSteps E H root idxLeaf T).val = (.ok steps, T')) :
    hashCalls (merkleSign E H sig mem root ctx wotsAddr treeAddr idxLeaf T) =
      hashCalls (merkleSignSteps E H root idxLeaf T) + subtreeCalls E := by
  rw [merkleSign, subtreeCalls, walkMerges]
  split
  · rw [merkleSignAvx2]
    simp only [hashCalls, Traced.cost_bind, Traced.cost_pure, add_zero, h]
    rw [← hashCalls, ← hashCalls,
      hashCalls_treehashx8 (@hashCalls_wotsGenLeafx8 E H ctx n) _ _ (by decide), ← mul_nsmul',
      ← mul_nsmul']
    rfl
  · rw [merkleSignScalar]
    simp only [hashCalls, Traced.cost_bind, Traced.cost_pure, add_zero, h]
    rw [← hashCalls, ← hashCalls,
      hashCalls_treehashx1 (@hashCalls_wotsGenLeafx1Scalar E H ctx n)]

theorem hashCalls_merkleSign_of_error {c : Int} {T' : ThreadState}
    (h : (merkleSignSteps E H root idxLeaf T).val = (.error c, T')) :
    hashCalls (merkleSign E H sig mem root ctx wotsAddr treeAddr idxLeaf T) =
      hashCalls (merkleSignSteps E H root idxLeaf T) := by
  rw [merkleSign]
  split
  · rw [merkleSignAvx2]
    simp only [hashCalls, Traced.cost_bind, Traced.cost_pure, add_zero, h]
  · rw [merkleSignScalar]
    simp only [hashCalls, Traced.cost_bind, Traced.cost_pure, add_zero, h]

variable {idxLeaf} in
theorem hashCalls_merkleSign (hleaf : idxLeaf ≠ spxNoSignLeaf) :
    hashCalls (merkleSign E H sig mem root ctx wotsAddr treeAddr idxLeaf T) =
      searchAttempts H root (wotscBound E T) • {.wotscHash} +
        (firstUpTo (CounterHit H root) (wotscBound E T)).elim 0 fun _ => subtreeCalls E := by
  have hcost : hashCalls (merkleSignSteps E H root idxLeaf T) =
      searchAttempts H root (wotscBound E T) • {.wotscHash} := by
    rw [merkleSignSteps, if_pos hleaf]
    simp only [hashCalls, Traced.cost_bind, Traced.cost_pure, add_zero]
    exact hashCalls_chainLengths root T
  have hval : (merkleSignSteps E H root idxLeaf T).val =
      ((searchResult H root (wotscBound E T) T).1.map some,
        (searchResult H root (wotscBound E T) T).2) := by
    rw [merkleSignSteps, if_pos hleaf, Traced.val_bind, chainLengths_val, Traced.val_pure]
  rw [searchResult] at hval
  rw [← hcost]
  cases hfirst : firstUpTo (CounterHit H root) (wotscBound E T) with
  | none =>
      rw [hfirst] at hval
      rw [Option.elim_none, add_zero]
      exact hashCalls_merkleSign_of_error sig mem root wotsAddr treeAddr idxLeaf T hval
  | some c =>
      rw [hfirst] at hval
      exact hashCalls_merkleSign_of_steps sig mem root wotsAddr treeAddr idxLeaf T hval

end MerkleSign

theorem hashCalls_merkleGenRoot (root : Block) (T : ThreadState) :
    hashCalls (merkleGenRoot E H root ctx T) = subtreeCalls E := by
  have hsteps (root : Block) : merkleSignSteps E H root spxNoSignLeaf T =
      pure (.ok none, T) := rfl
  rw [merkleGenRoot]
  simp only [hashCalls, Traced.cost_bind, Traced.cost_pure, add_zero]
  rw [← hashCalls, hashCalls_merkleSign_of_steps _ _ _ _ _ _ _
    (congrArg Traced.val (hsteps root)), hsteps]
  exact zero_add _

end Trees

/-!
## Signing runs
-/

theorem hashCalls_signLayer (l : ℕ) {s : SignLayerState} (hleaf : s.idxLeaf ≠ spxNoSignLeaf) :
    hashCalls (signLayer E H ctx l s) =
      searchAttempts H s.root (wotscBound E s.T) • {.wotscHash} +
        (firstUpTo (CounterHit H s.root) (wotscBound E s.T)).elim 0 fun _ =>
          subtreeCalls E := by
  rw [signLayer, hashCalls, Traced.cost_bind, ← hashCalls, hashCalls_merkleSign _ _ _ _ _ _ hleaf]
  split
  · exact add_zero _
  · exact add_zero _

section Attempts

variable (H) (ctx) (tree leaf bound : ℕ)

instance (l : ℕ) : Decidable (Searchable H ctx tree leaf bound l) :=
  decidable_of_iff
    (∀ l' < l, (firstUpTo (CounterHit H (signedValue H ctx tree leaf l')) bound).isSome)
    (forall₂_congr fun _ _ => Option.isSome_iff_exists)

theorem searchable_succ (l : ℕ) :
    Searchable H ctx tree leaf bound (l + 1) ↔ Searchable H ctx tree leaf bound l ∧
      ∃ c, firstUpTo (CounterHit H (signedValue H ctx tree leaf l)) bound = some c := by
  constructor
  · intro h
    exact ⟨fun l' hl' => h l' (by omega), h l (Nat.lt_succ_self l)⟩
  · rintro ⟨hbelow, hlast⟩ l' hl'
    rcases Nat.lt_succ_iff_lt_or_eq.mp hl' with hlt | rfl
    · exact hbelow l' hlt
    · exact hlast

/-- The attempts of the search at layer `l`, none when the layer is not reached. -/
def signAttempts (l : ℕ) : ℕ :=
  if Searchable H ctx tree leaf bound l then
    searchAttempts H (signedValue H ctx tree leaf l) bound
  else 0

/-- The number of layers below `n` that are signed. -/
def layersSigned (n : ℕ) : ℕ :=
  ∑ l ∈ Finset.range n, if Searchable H ctx tree leaf bound (l + 1) then 1 else 0

theorem signAttempts_le (l : ℕ) : signAttempts H ctx tree leaf bound l ≤ bound + 1 := by
  rw [signAttempts]
  split
  · exact searchAttempts_le H _ bound
  · exact Nat.zero_le _

theorem layersSigned_le (n : ℕ) : layersSigned H ctx tree leaf bound n ≤ n := by
  calc layersSigned H ctx tree leaf bound n ≤ ∑ _l ∈ Finset.range n, 1 :=
        Finset.sum_le_sum fun l _ => by split <;> simp
    _ = n := by simp

theorem layersSigned_lt_of_not_searchable {n : ℕ}
    (h : ¬ Searchable H ctx tree leaf bound (n + 1)) :
    layersSigned H ctx tree leaf bound (n + 1) < n + 1 := by
  rw [layersSigned, Finset.sum_range_succ, if_neg h, add_zero, ← layersSigned,
    Nat.lt_succ_iff]
  exact layersSigned_le _ _ _ _ _ n

theorem layersSigned_of_searchable {n : ℕ} (h : Searchable H ctx tree leaf bound n) :
    layersSigned H ctx tree leaf bound n = n := by
  have hall (l : ℕ) (hl : l ∈ Finset.range n) :
      (if Searchable H ctx tree leaf bound (l + 1) then 1 else 0) = 1 :=
    if_pos fun l' hl' => h l' (by rw [Finset.mem_range] at hl; omega)
  rw [layersSigned, Finset.sum_congr rfl hall]
  simp

end Attempts

section Run

variable {sig : Vector UInt8 3680} {m : List UInt8} {sk : Vector UInt8 64} {T : ThreadState}

theorem signStateAt_sat {l : ℕ} (hl : l ≤ spxD) :
    Traced.ExceptPost
      (fun d => layersThread E H (skCtx H sk) (signGrind E H m sk T).tree
        (signGrind E H m sk T).idxLeaf (signGrind E H m sk T).T l = .error (d.1, d.2.2))
      (fun s => (∃ mem, SignStateOk E H (skCtx H sk) (signGrind E H m sk T).tree
        (signGrind E H m sk T).idxLeaf mem (signGrind E H m sk T).T l s) ∧
        s.idxLeaf ≠ spxNoSignLeaf)
      (signStateAt E H sig m sk T l) := by
  have hpos : (signGrind E H m sk T).tree < 2 ^ 24 ∧
      (signGrind E H m sk T).idxLeaf < 2 ^ 6 := grindOutcome_pos _ _ _ _ _ _
  have hP := callsOk_true E H (skCtx H sk)
  have hstart := (signLayersStart_sat hP hpos.1 hpos.2
    (write sig 0 (signGrind E H m sk T).R)).2.1
  have hloop := (Traced.Sat.forRangeExcept l _ _ hstart fun i hi t ht =>
    signLayer_sat hP (fun _ _ => trivial) hpos.1 hpos.2 (hi.trans_le hl) ht).2
  change Traced.ExceptPost _ _ (signStateAt E H sig m sk T l) at hloop
  cases hat : signStateAt E H sig m sk T l with
  | error d =>
      rw [hat] at hloop
      obtain ⟨i, hi, herr⟩ := hloop
      exact layersThread_error_of_le hi herr
  | ok s =>
      rw [hat] at hloop
      have hidx : s.idxLeaf = (layerPos (signGrind E H m sk T).tree
          (signGrind E H m sk T).idxLeaf l).2 := congrArg Prod.snd hloop.pos
      have hlt := layerPos_snd_lt (signGrind E H m sk T).tree hpos.2 l
      rw [← hidx] at hlt
      exact ⟨⟨_, hloop⟩, Nat.ne_of_lt (Nat.lt_trans hlt (by decide))⟩

variable (E) (H) (sig) (m) (sk) (T)

/-- The attempts of the signing searches of a run. -/
def signRunAttempts (l : ℕ) : ℕ :=
  signAttempts H (skCtx H sk) (signGrind E H m sk T).tree (signGrind E H m sk T).idxLeaf
    (wotscBound E T) l

/-- The layers below `n` that a run signs. -/
def signRunLayers (n : ℕ) : ℕ :=
  layersSigned H (skCtx H sk) (signGrind E H m sk T).tree (signGrind E H m sk T).idxLeaf
    (wotscBound E T) n

/-- The loop over the first `n` layers costs the searches of the layers that it reaches and
the subtrees of those that it signs. -/
theorem hashCalls_signLayers (hgrind : (signGrind E H m sk T).code = 0) {n : ℕ}
    (hn : n ≤ spxD) :
    hashCalls (Traced.forRangeExcept n (signLayer E H (skCtx H sk))
        (signLayersStart E H (skCtx H sk) (write sig 0 (signGrind E H m sk T).R)
          (signGrind E H m sk T)).val) =
      signRunLayers E H m sk T n • subtreeCalls E +
        (∑ l ∈ Finset.range n, signRunAttempts E H m sk T l) • {.wotscHash} := by
  have hbound := (signGrind_of_eq_zero hgrind).2.2
  induction n with
  | zero => simp [signRunLayers, layersSigned]
  | succ n ih =>
      have hsat : Traced.ExceptPost _ _ (signStateAt E H sig m sk T n) :=
        signStateAt_sat (Nat.le_of_succ_le hn)
      have hsearchable : _ ↔ Searchable H (skCtx H sk) (signGrind E H m sk T).tree
          (signGrind E H m sk T).idxLeaf (wotscBound E (signGrind E H m sk T).T) n :=
        exists_layersThread_ok_iff n
      have hsucc := searchable_succ H (skCtx H sk) (signGrind E H m sk T).tree
        (signGrind E H m sk T).idxLeaf (wotscBound E T) n
      rw [hbound] at hsearchable
      rw [signRunLayers, layersSigned, Finset.sum_range_succ, ← layersSigned, ← signRunLayers,
        Finset.sum_range_succ, signRunAttempts, signAttempts]
      cases hat : signStateAt E H sig m sk T n with
      | error d =>
          rw [hat] at hsat
          have hnot : ¬ Searchable H (skCtx H sk) (signGrind E H m sk T).tree
              (signGrind E H m sk T).idxLeaf (wotscBound E T) n := by
            intro h
            obtain ⟨T', hok⟩ := hsearchable.mpr h
            have herr : layersThread E H (skCtx H sk) (signGrind E H m sk T).tree
              (signGrind E H m sk T).idxLeaf (signGrind E H m sk T).T n = .error _ := hsat
            rw [herr] at hok
            cases hok
          rw [hashCalls, Traced.cost_forRangeExcept_succ_of_error _ hat, ← hashCalls,
            ih (Nat.le_of_succ_le hn), if_neg hnot, if_neg fun h => hnot (hsucc.mp h).1,
            add_zero, add_zero]
      | ok s =>
          rw [hat] at hsat
          obtain ⟨⟨mem, hs⟩, hleaf⟩ := hsat
          have hreached := hsearchable.mp ⟨_, hs.thread⟩
          have hthread := (wotscBound_layersThread hs.thread).trans hbound
          rw [hashCalls, Traced.cost_forRangeExcept_succ_of_ok _ hat, ← hashCalls,
            ← hashCalls, ih (Nat.le_of_succ_le hn), hashCalls_signLayer n hleaf, hs.root,
            hthread, if_pos hreached]
          cases hfirst : firstUpTo (CounterHit H (signedValue H (skCtx H sk)
              (signGrind E H m sk T).tree (signGrind E H m sk T).idxLeaf n))
              (wotscBound E T) with
          | none =>
              have hnot : ¬ Searchable H (skCtx H sk) (signGrind E H m sk T).tree
                  (signGrind E H m sk T).idxLeaf (wotscBound E T) (n + 1) := by
                intro h
                obtain ⟨c, hc⟩ := (hsucc.mp h).2
                rw [hfirst] at hc
                cases hc
              rw [if_neg hnot, Option.elim_none, add_zero, add_zero, add_nsmul, add_assoc]
          | some c =>
              rw [if_pos (hsucc.mpr ⟨hreached, c, hfirst⟩), Option.elim_some, succ_nsmul,
                add_nsmul _ (∑ l ∈ Finset.range n, signRunAttempts E H m sk T l),
                add_comm (searchAttempts _ _ _ • _), add_add_add_comm]

end Run

/-!
## The totals
-/

/-- The tweakable hashes of one subtree: 64 leaves of 4081 calls, and the nodes. -/
def subtreeThashes (E : Build) : ℕ := 64 * 4081 + walkMerges E spxTreeHeight

/-- The tweakable hashes of the FORS signature: seven trees of `2 ^ 16` leaves, and the
compression of their roots. -/
def forsThashes (E : Build) : ℕ := 7 * (2 ^ 16 + walkMerges E spxForsHeight) + 1

theorem subtreeCalls_eq (E : Build) :
    subtreeCalls E = 1024 • {.prfAddr} + subtreeThashes E • {.thash} := by
  have hsum (p t : Multiset HashKind) (w : ℕ) :
      2 ^ 6 • (16 • (p + 255 • t) + t) + w • t = 1024 • p + (64 * 4081 + w) • t := by module
  exact hsum _ _ _

theorem forsCalls_eq (E : Build) :
    forsCalls E = 458759 • {.prfAddr} + forsThashes E • {.thash} := by
  have hsum (p t : Multiset HashKind) (w : ℕ) :
      7 • (p + (2 ^ 16 • (p + t) + w • t)) + t = 458759 • p + (7 * (2 ^ 16 + w) + 1) • t := by
    module
  exact hsum _ _ _

theorem subtreeThashes_eq (E : Build) :
    subtreeThashes E = if E.hasAvx2 then 261264 else 261247 := by
  rw [subtreeThashes, walkMerges]
  split
  · rfl
  · rfl

theorem forsThashes_eq (E : Build) :
    forsThashes E = if E.hasAvx2 then 917617 else 917498 := by
  rw [forsThashes, walkMerges]
  split
  · rfl
  · rfl

/-- Key generation makes the calls of one subtree, whatever the seed is. -/
theorem keygen_cost (E : Build) (H : HashFns) (pk : Vector UInt8 32) (sk : Vector UInt8 64)
    (seed : Vector UInt8 48) (T : ThreadState) :
    hashCalls (cryptoSignSeedKeypair E H pk sk seed T) =
      1024 • {.prfAddr} + (if E.hasAvx2 then 261264 else 261247) • {.thash} := by
  rw [← subtreeThashes_eq, ← subtreeCalls_eq, cryptoSignSeedKeypair, hashCalls,
    Traced.cost_bind, ← hashCalls, hashCalls_merkleGenRoot]
  split
  simp only
  split
  · rw [Traced.cost_pure, add_zero]
  · rw [Traced.cost_pure, add_zero]

theorem hashCalls_cryptoSignSignature (E : Build) (H : HashFns) (sig : Vector UInt8 3680)
    (m : List UInt8) (sk : Vector UInt8 64) (T : ThreadState)
    (hfailed : T.clearFailure.randombytesBlock.2.randomSourceFailed = false)
    (hgrind : (signGrind E H m sk T).code = 0) :
    hashCalls (cryptoSignSignature E H sig m sk T) =
      forsCalls E + (signRunLayers E H m sk T spxD • subtreeCalls E +
        (∑ l ∈ Finset.range spxD, signRunAttempts E H m sk T l) • {.wotscHash}) := by
  have hstart : hashCalls (signLayersStart E H (skCtx H sk)
      (write sig 0 (signGrind E H m sk T).R) (signGrind E H m sk T)) = forsCalls E := by
    rw [signLayersStart]
    simp only [hashCalls, Traced.cost_bind, Traced.cost_pure, add_zero]
    exact hashCalls_forsSign _ _ _ _
  have hloop := hashCalls_signLayers E H sig m sk T hgrind le_rfl
  rw [cryptoSignSignature]
  simp only [grindLoop_eq_outcome]
  change hashCalls (if T.clearFailure.randombytesBlock.2.randomSourceFailed = true then _
    else if (signGrind E H m sk T).code ≠ 0 then _ else _) = _
  rw [hfailed, if_neg Bool.false_ne_true, if_neg (not_not_intro hgrind), hashCalls,
    Traced.cost_bind, Traced.cost_bind, ← hstart, ← hloop]
  refine congrArg _ ?_
  split
  · exact add_zero _
  · exact add_zero _

/-- A run that finds no salt makes no call that is counted here. -/
theorem hashCalls_cryptoSignSignature_of_noSalt (E : Build) (H : HashFns)
    (sig : Vector UInt8 3680) (m : List UInt8) (sk : Vector UInt8 64) (T : ThreadState)
    (h : T.clearFailure.randombytesBlock.2.randomSourceFailed = true ∨
      (signGrind E H m sk T).code ≠ 0) :
    hashCalls (cryptoSignSignature E H sig m sk T) = 0 := by
  rw [cryptoSignSignature]
  simp only [grindLoop_eq_outcome]
  change hashCalls (if T.clearFailure.randombytesBlock.2.randomSourceFailed = true then _
    else if (signGrind E H m sk T).code ≠ 0 then _ else _) = _
  split
  · rfl
  · next hfailed => rw [if_pos (h.resolve_left hfailed), hashCalls, Traced.cost_pure]

/-- The cost of signing. Every signature costs the same tweakable hashes and address PRFs,
whatever the key, the message and the randomness are, and the attempts of five searches. A
call that fails has cost nothing, or the FORS signature and the subtrees of the layers that
it signed before the search that failed. -/
theorem signing_cost (E : Build) (H : HashFns) (sig : Vector UInt8 3680) (m : List UInt8)
    (sk : Vector UInt8 64) (T : ThreadState) :
    let run := cryptoSignSignature E H sig m sk T
    let attempts := ∑ l ∈ Finset.range 5, signRunAttempts E H m sk T l
    let l := signRunLayers E H m sk T 5
    attempts ≤ 5 * (wotscBound E T + 1) ∧
      (run.val.code = 0 → hashCalls run =
        463879 • {.prfAddr} + (if E.hasAvx2 then 2223937 else 2223733) • {.thash} +
          attempts • {.wotscHash}) ∧
      (run.val.code ≠ 0 → hashCalls run = 0 ∨ l < 5 ∧ hashCalls run =
        (458759 + l * 1024) • {.prfAddr} +
          ((if E.hasAvx2 then 917617 else 917498) +
            l * (if E.hasAvx2 then 261264 else 261247)) • {.thash} +
          attempts • {.wotscHash}) := by
  intro run attempts l
  have htotal (k : ℕ) : forsCalls E + (k • subtreeCalls E + attempts • {.wotscHash}) =
      (458759 + k * 1024) • {.prfAddr} +
        (forsThashes E + k * subtreeThashes E) • {.thash} + attempts • {.wotscHash} := by
    rw [forsCalls_eq, subtreeCalls_eq]
    module
  have hfive : forsThashes E + 5 * subtreeThashes E =
      if E.hasAvx2 then 2223937 else 2223733 := by
    rw [forsThashes_eq, subtreeThashes_eq]
    split
    · rfl
    · rfl
  have hattempts : attempts ≤ 5 * (wotscBound E T + 1) := by
    calc attempts ≤ ∑ _l ∈ Finset.range 5, (wotscBound E T + 1) :=
          Finset.sum_le_sum fun l _ => signAttempts_le _ _ _ _ _ l
      _ = 5 * (wotscBound E T + 1) := by simp
  have hzero := cryptoSignSignature_eq_zero_iff E H sig m sk T
  refine ⟨hattempts, ?_, ?_⟩
  · intro hcode
    obtain ⟨hfailed, hgrind, hsearch⟩ := hzero.mp hcode
    have hlayers : signRunLayers E H m sk T spxD = spxD :=
      layersSigned_of_searchable _ _ _ _ _ hsearch
    have hcost := hashCalls_cryptoSignSignature E H sig m sk T hfailed hgrind
    rw [hlayers] at hcost
    rw [← hfive]
    exact hcost.trans (htotal 5)
  · intro hcode
    by_cases hsalt : T.clearFailure.randombytesBlock.2.randomSourceFailed = true ∨
        (signGrind E H m sk T).code ≠ 0
    · exact Or.inl (hashCalls_cryptoSignSignature_of_noSalt E H sig m sk T hsalt)
    · obtain ⟨hfailed, hgrind⟩ := not_or.mp hsalt
      rw [Classical.not_not] at hgrind
      rw [Bool.not_eq_true] at hfailed
      have hsearch := fun h => hcode (hzero.mpr ⟨hfailed, hgrind, h⟩)
      have hcost := hashCalls_cryptoSignSignature E H sig m sk T hfailed hgrind
      rw [← forsThashes_eq, ← subtreeThashes_eq]
      exact Or.inr ⟨layersSigned_lt_of_not_searchable _ _ _ _ _ hsearch,
        hcost.trans (htotal _)⟩

end BitcoinPqc
