import BitcoinPqc.Correctness.Verdict
import BitcoinPqc.Foundation.Cost
import BitcoinPqc.Properties.Encoding
import Mathlib.Algebra.Module.BigOperators

/-!
# How many hash calls the code makes

The calls of a run are counted by kind: tweakable hashes, address PRFs and hashes of the
counter search. The code branches on what it computes in the counter search and in the
chain lengths only. The chain lengths of a value that passed the search have a fixed sum,
so the number of calls of a layer is fixed up to the attempts of its search.

The 8-lane functions count as eight calls.
-/

namespace BitcoinPqc

variable {E : Build} {H : HashFns} {ctx : SpxCtx}

/-- The kinds of hash calls. -/
inductive HashKind where
  | thash
  | prfAddr
  | wotscHash
  deriving DecidableEq

/-- The kind of a call. -/
def Query.kind : Query → HashKind
  | .thash .. => .thash
  | .prfAddr .. => .prfAddr
  | .wotscHash .. => .wotscHash

/-- The hash calls of a run by kind. -/
abbrev hashCalls {α : Type} (x : Traced Query α) : Multiset HashKind :=
  Traced.cost Query.kind x

@[simp] theorem hashCalls_thash (input : List Block) (addr : Addr) :
    hashCalls (thash H input ctx addr) = {.thash} := rfl

@[simp] theorem hashCalls_prfAddr (addr : Addr) :
    hashCalls (prfAddr H ctx addr) = {.prfAddr} := rfl

@[simp] theorem hashCalls_thashx8 (input : Lanes (List Block)) (addr : Lanes Addr) :
    hashCalls (thashx8 H input ctx addr) = 8 • {.thash} := rfl

@[simp] theorem hashCalls_prfAddrx8 (addr : Lanes Addr) :
    hashCalls (prfAddrx8 H ctx addr) = 8 • {.prfAddr} := rfl

/-!
## Chains and the counter search
-/

theorem hashCalls_genChain (inp : Block) (start steps : ℕ) (addr : Addr) :
    hashCalls (genChain H inp start steps ctx addr) =
      (min (start + steps) spxWotsW - start) • {.thash} := by
  apply Traced.cost_forRange_const
  intro k _ s
  simp

/-- The attempts of a search up to `bound`. -/
def searchAttempts (H : HashFns) (msg : Block) (bound : ℕ) : ℕ :=
  (firstUpTo (CounterHit H msg) bound).elim (bound + 1) (· + 1)

theorem searchAttempts_le (H : HashFns) (msg : Block) (bound : ℕ) :
    searchAttempts H msg bound ≤ bound + 1 := by
  rw [searchAttempts]
  cases hfirst : firstUpTo (CounterHit H msg) bound with
  | none => exact le_rfl
  | some c => exact Nat.succ_le_succ ((firstUpTo_eq_some_iff _ _ _).mp hfirst).2.1

theorem hashCalls_wotscSearchLoop (msg : Block) (n c : ℕ) (T : ThreadState) :
    c • {.wotscHash} + hashCalls (wotscSearchLoop H msg n c T) =
      (firstFrom (CounterHit H msg) n c).elim (c + n + 1) (· + 1) • {HashKind.wotscHash} := by
  induction n generalizing c with
  | zero =>
      by_cases hhit : CounterHit H msg c
      · rw [firstFrom, if_pos hhit, wotscSearchLoop_of_hit H hhit]
        exact (succ_nsmul _ _).symm
      · rw [firstFrom, if_neg hhit, wotscSearchLoop_of_last_miss H hhit]
        exact (succ_nsmul _ _).symm
  | succ n ih =>
      by_cases hhit : CounterHit H msg c
      · rw [firstFrom, if_pos hhit, wotscSearchLoop_of_hit H hhit]
        exact (succ_nsmul _ _).symm
      · have hcons : hashCalls (wotscSearchLoop H msg (n + 1) c T) =
            {.wotscHash} + hashCalls (wotscSearchLoop H msg n (c + 1) T) := by
          rw [wotscSearchLoop_of_miss H hhit]
          rfl
        rw [firstFrom, if_neg hhit, hcons, ← add_assoc, ← succ_nsmul, ih (c + 1),
          show c + (n + 1) + 1 = c + 1 + n + 1 by omega]

theorem hashCalls_chainLengths (msg : Block) (T : ThreadState) :
    hashCalls (chainLengths E H msg T) =
      searchAttempts H msg (wotscBound E T) • {.wotscHash} := by
  have hloop := @hashCalls_wotscSearchLoop H msg (wotscBound E T) 0 T
  rw [zero_nsmul, zero_add, Nat.zero_add] at hloop
  rw [hashCalls, chainLengths, wotscCompressMessageChecked, wotscCompressMessageCheckedBounded,
    Traced.cost_bind, searchAttempts, firstUpTo, ← hloop]
  split
  · rw [Traced.cost_pure, add_zero]
  · rw [Traced.cost_pure, add_zero]

/-- The chain lengths of a value that passed the search leave a fixed number of steps to
the ends of the chains. -/
theorem sum_steps_of_checksum {lengths : Vector ℕ 16}
    (h : wotscChecksum lengths = spxWotscTarget) :
    ∑ i ∈ Finset.range spxWotsLen, (spxWotsW - 1 - lengths.getD i 0) = spxWotscTarget := by
  rw [← h, wotscChecksum_eq, Finset.sum_range]
  exact Finset.sum_congr rfl fun i _ => by rw [getD_eq_getElem _ i.isLt]; rfl

theorem hashCalls_wotsPkChains {n : ℕ} (pk : ℕ → Block) (sig : Vector UInt8 n) (sigPtr : ℕ)
    {lengths : Vector ℕ 16} (h : wotscChecksum lengths = spxWotscTarget) (addr : Addr) :
    hashCalls (wotsPkChains H pk sig sigPtr lengths ctx addr) = spxWotscTarget • {.thash} := by
  have hsteps (d : ℕ) : min (d + (spxWotsW - 1 - d)) spxWotsW - d = spxWotsW - 1 - d := by
    omega
  rw [hashCalls, wotsPkChains, Traced.cost_forRange Query.kind
    (c := fun i => (spxWotsW - 1 - lengths.getD i 0) • {.thash}), ← Finset.sum_smul,
    sum_steps_of_checksum h]
  intro i _ s
  rw [Traced.cost_bind, Traced.cost_pure, add_zero, ← hashCalls, hashCalls_genChain, hsteps]

/-!
## The verifier
-/

theorem hashCalls_computeRoot {n : ℕ} (leaf : Block) (leafIdx idxOffset : ℕ)
    (sig : Vector UInt8 n) (authPath : ℕ) {treeHeight : ℕ} (hpos : 0 < treeHeight)
    (addr : Addr) :
    hashCalls (computeRoot H leaf leafIdx idxOffset sig authPath treeHeight ctx addr) =
      treeHeight • {.thash} := by
  have hround (i : ℕ) (s : ComputeRootState) :
      hashCalls (computeRootStep H sig ctx i s) = {.thash} := by
    rw [hashCalls, computeRootStep, Traced.cost_bind, ← hashCalls, hashCalls_thash]
    split
    · rw [Traced.cost_pure, add_zero]
    · rw [Traced.cost_pure, add_zero]
  rw [hashCalls, computeRoot, Traced.cost_bind,
    Traced.cost_forRange_const Query.kind fun i _ s => hround i s]
  simp only [Traced.cost_bind, Traced.cost_pure, add_zero, hashCalls_thash]
  rw [← succ_nsmul, Nat.sub_add_cancel hpos]

theorem hashCalls_forsPkFromSigTree {n : ℕ} (sig : Vector UInt8 n) (mhash : Block) (i : ℕ)
    (s : (ℕ → Block) × ℕ × Addr) :
    hashCalls (forsPkFromSigTree H sig mhash ctx i s) = (1 + spxForsHeight) • {.thash} := by
  simp only [forsPkFromSigTree, Traced.cost_bind, Traced.cost_pure, add_zero, hashCalls_thash]
  rw [← hashCalls, hashCalls_computeRoot _ _ _ _ _ (by decide), add_nsmul, one_nsmul]

/-- The calls of the FORS public key: its trees and the compression of their roots. -/
abbrev forsPkCalls : ℕ := (1 + spxForsHeight) * spxForsSigTrees + 1

theorem hashCalls_forsPkFromSig {n : ℕ} (sig : Vector UInt8 n) (sigPtr : ℕ) (mhash : Block)
    (forsAddr : Addr) :
    hashCalls (forsPkFromSig E H sig sigPtr mhash ctx forsAddr) =
      forsPkCalls • {.thash} := by
  simp only [forsPkFromSig, Traced.cost_bind, hashCalls_thash]
  rw [Traced.cost_forRange_const Query.kind fun i _ s =>
    hashCalls_forsPkFromSigTree sig mhash i s, ← mul_nsmul, ← succ_nsmul]

/-- The calls of a layer after its search. -/
abbrev layerCalls : ℕ := spxWotscTarget + 1 + spxTreeHeight

theorem hashCalls_verifyLayer_of_none (sig : Vector UInt8 3680) (l : ℕ)
    {s : VerifyLayerState}
    (h : firstUpTo (CounterHit H s.root) (wotscBound E s.T) = none) :
    hashCalls (verifyLayer E H sig ctx l s) = (wotscBound E s.T + 1) • {.wotscHash} := by
  have hsearch := @hashCalls_chainLengths E H s.root s.T
  rw [searchAttempts, h] at hsearch
  have hval := chainLengths_val E H s.root s.T
  rw [searchResult, h] at hval
  simp only [verifyLayer, wotsPkFromSig, Traced.cost_bind, Traced.val_bind, hval,
    Traced.cost_pure, Traced.val_pure, add_zero]
  exact hsearch

theorem hashCalls_verifyLayer_of_some (sig : Vector UInt8 3680) (l : ℕ)
    {s : VerifyLayerState} {c : ℕ}
    (h : firstUpTo (CounterHit H s.root) (wotscBound E s.T) = some c) :
    hashCalls (verifyLayer E H sig ctx l s) =
      (c + 1) • {.wotscHash} + layerCalls • {.thash} := by
  have hsearch := @hashCalls_chainLengths E H s.root s.T
  rw [searchAttempts, h, Option.elim_some] at hsearch
  have hval := chainLengths_val E H s.root s.T
  rw [searchResult, h] at hval
  have htarget : wotscChecksum (counterLengths H s.root c) = spxWotscTarget :=
    ((firstUpTo_eq_some_iff _ _ _).mp h).1
  simp only [verifyLayer, wotsPkFromSig, Traced.cost_bind, Traced.val_bind, hval,
    Traced.cost_pure, Traced.val_pure, add_zero, hashCalls_thash]
  rw [← hashCalls, ← hashCalls, ← hashCalls, hsearch, hashCalls_wotsPkChains _ _ _ htarget,
    hashCalls_computeRoot _ _ _ _ _ (by decide)]
  simp only [layerCalls, add_nsmul, one_nsmul, add_assoc]

section Run

variable (E) (H) (sig : Vector UInt8 3680) (m : List UInt8) (pk : Vector UInt8 32)
  (T : ThreadState)

/-- The attempts of the search at layer `l`, none when the layer is not reached. -/
def layerAttempts (bound l : ℕ) : ℕ :=
  (verifiedValue E H sig m pk bound l).elim 0 fun root => searchAttempts H root bound

/-- The number of layers below `n` whose search succeeds. -/
def layersPassed (bound n : ℕ) : ℕ :=
  ∑ l ∈ Finset.range n, (verifiedValue E H sig m pk bound (l + 1)).elim 0 fun _ => 1

theorem layerAttempts_le (bound l : ℕ) : layerAttempts E H sig m pk bound l ≤ bound + 1 := by
  rw [layerAttempts]
  cases verifiedValue E H sig m pk bound l with
  | none => exact Nat.zero_le _
  | some root => exact searchAttempts_le H root bound

theorem layersPassed_le (bound n : ℕ) : layersPassed E H sig m pk bound n ≤ n := by
  have hle (l : ℕ) : ((verifiedValue E H sig m pk bound (l + 1)).elim 0 fun _ => 1) ≤ 1 := by
    cases verifiedValue E H sig m pk bound (l + 1) <;> simp
  calc layersPassed E H sig m pk bound n ≤ ∑ _l ∈ Finset.range n, 1 :=
        Finset.sum_le_sum fun l _ => hle l
    _ = n := by simp

theorem verifiedValue_isSome_of_succ {bound l : ℕ}
    (h : (verifiedValue E H sig m pk bound (l + 1)).isSome) :
    (verifiedValue E H sig m pk bound l).isSome := by
  cases hbelow : verifiedValue E H sig m pk bound l with
  | none => simp [verifiedValue, hbelow] at h
  | some root => rfl

theorem layersPassed_of_isSome {bound n : ℕ}
    (h : (verifiedValue E H sig m pk bound n).isSome) :
    layersPassed E H sig m pk bound n = n := by
  induction n with
  | zero => rfl
  | succ n ih =>
      obtain ⟨root, hroot⟩ := Option.isSome_iff_exists.mp h
      rw [layersPassed, Finset.sum_range_succ, ← layersPassed,
        ih (verifiedValue_isSome_of_succ E H sig m pk h), hroot, Option.elim_some]

/-- The loop over the first `n` layers costs the searches of the layers that it reaches and
the other calls of those that it passes. -/
theorem hashCalls_verifyLayers (n : ℕ) :
    hashCalls (Traced.forRangeExcept n (verifyLayer E H sig (pkCtx E H pk))
        (verifyLayersStart E H sig (verifyDigest H sig m pk).1 (verifyDigest H sig m pk).2.1
          (verifyDigest H sig m pk).2.2 (pkCtx E H pk) T).val) =
      (layersPassed E H sig m pk (wotscBound E T) n * layerCalls) • {.thash} +
        (∑ l ∈ Finset.range n, layerAttempts E H sig m pk (wotscBound E T) l) •
          {.wotscHash} := by
  induction n with
  | zero => simp [layersPassed]
  | succ n ih =>
      have hvalue := valueAt_verifyStateAt E H sig m pk T n
      rw [layersPassed, Finset.sum_range_succ, ← layersPassed, Finset.sum_range_succ]
      cases hat : verifyStateAt E H sig m pk T n with
      | error T' =>
          rw [hat] at hvalue
          have hnone : verifiedValue E H sig m pk (wotscBound E T) (n + 1) = none := by
            rw [verifiedValue, hvalue.1, Option.bind_none]
          rw [hashCalls, Traced.cost_forRangeExcept_succ_of_error _ hat, ← hashCalls, ih,
            layerAttempts, hvalue.1, hnone]
          rfl
      | ok s =>
          rw [hat] at hvalue
          obtain ⟨hroot, hbound, _⟩ := hvalue
          rw [hashCalls, Traced.cost_forRangeExcept_succ_of_ok _ hat, ← hashCalls, ← hashCalls,
            ih, layerAttempts, hroot, Option.elim_some, searchAttempts]
          cases hfirst : firstUpTo (CounterHit H s.root) (wotscBound E T) with
          | none =>
              have hnone : verifiedValue E H sig m pk (wotscBound E T) (n + 1) = none := by
                rw [verifiedValue, hroot, Option.bind_some, hfirst, Option.map_none]
              rw [hashCalls_verifyLayer_of_none _ _ (by rw [hbound, hfirst]), hbound, hnone,
                Option.elim_none, Option.elim_none, add_zero]
              simp only [add_nsmul, add_assoc]
          | some c =>
              have hsome : verifiedValue E H sig m pk (wotscBound E T) (n + 1) =
                  some (runRoot E H sig m pk n (counterLengths H s.root c)) := by
                rw [verifiedValue, hroot, Option.bind_some, hfirst, Option.map_some]
              rw [hashCalls_verifyLayer_of_some _ _ (by rw [hbound, hfirst]), hsome,
                Option.elim_some, Option.elim_some]
              rw [add_mul, one_mul, add_nsmul _ _ layerCalls, add_nsmul _ _ (c + 1),
                add_comm ((c + 1) • _), add_add_add_comm]

theorem hashCalls_cryptoSignVerify
    (hidx : forscCompressedIndex (verifyDigest H sig m pk).1 = 0) :
    hashCalls (cryptoSignVerify E H sig spxBytes m pk T) =
      (forsPkCalls + layersPassed E H sig m pk (wotscBound E T) spxD * layerCalls) •
          {.thash} +
        (∑ l ∈ Finset.range spxD, layerAttempts E H sig m pk (wotscBound E T) l) •
          {.wotscHash} := by
  have hstart : hashCalls (verifyLayersStart E H sig (verifyDigest H sig m pk).1
      (verifyDigest H sig m pk).2.1 (verifyDigest H sig m pk).2.2 (pkCtx E H pk) T) =
      forsPkCalls • {.thash} := by
    rw [hashCalls, verifyLayersStart, Traced.cost_bind, Traced.cost_pure, add_zero]
    exact hashCalls_forsPkFromSig _ _ _ _
  have hloop := hashCalls_verifyLayers E H sig m pk T spxD
  unfold cryptoSignVerify verifyDigest at *
  rw [if_neg (not_not_intro rfl)]
  simp only
  rw [if_neg (not_not_intro hidx), hashCalls, Traced.cost_bind, Traced.cost_bind, ← hashCalls,
    ← hashCalls, hstart, hloop, add_nsmul _ forsPkCalls, add_assoc, add_assoc]
  refine congrArg _ (congrArg _ ?_)
  split
  · exact add_zero _
  · split
    · exact add_zero _
    · exact add_zero _

/-- A verification that fails one of these checks makes no call. -/
theorem hashCalls_cryptoSignVerify_of_unchecked {siglen : ℕ}
    (h : ¬ (siglen = spxBytes ∧ forscCompressedIndex (verifyDigest H sig m pk).1 = 0)) :
    hashCalls (cryptoSignVerify E H sig siglen m pk T) = 0 := by
  unfold cryptoSignVerify
  split
  · rfl
  · next hlen =>
      have hidx : forscCompressedIndex (hashMessage H (slice sig 0 spxN) pk m).1 ≠ 0 :=
        fun hidx => h ⟨Classical.not_not.mp hlen, hidx⟩
      simp only
      rw [if_pos hidx, hashCalls, Traced.cost_pure]

end Run

/-- The cost of verification. A signature that is accepted costs 10355 tweakable hashes,
whatever the signature, the message and the key are, and the attempts of five searches. One
that is rejected has cost nothing, or 120 tweakable hashes, 2047 for each layer that it
passed, and its attempts. -/
theorem verify_cost (E : Build) (H : HashFns) (sig : Vector UInt8 3680) (siglen : ℕ)
    (m : List UInt8) (pk : Vector UInt8 32) (T : ThreadState) :
    let run := cryptoSignVerify E H sig siglen m pk T
    let attempts := ∑ l ∈ Finset.range 5, layerAttempts E H sig m pk (wotscBound E T) l
    let l := layersPassed E H sig m pk (wotscBound E T) 5
    attempts ≤ 5 * (wotscBound E T + 1) ∧ wotscBound E T ≤ 0xFFFF ∧
      (run.val.1 = 0 → hashCalls run = 10355 • {.thash} + attempts • {.wotscHash}) ∧
      (hashCalls run = 0 ∨
        l ≤ 5 ∧ hashCalls run = (120 + l * 2047) • {.thash} + attempts • {.wotscHash}) := by
  intro run attempts l
  have hattempts : attempts ≤ 5 * (wotscBound E T + 1) := by
    calc attempts ≤ ∑ _l ∈ Finset.range 5, (wotscBound E T + 1) :=
          Finset.sum_le_sum fun l _ => layerAttempts_le E H sig m pk _ l
      _ = 5 * (wotscBound E T + 1) := by simp
  refine ⟨hattempts, wotscBound_le E T, ?_, ?_⟩
  · intro hzero
    have hlen : siglen = spxBytes := by
      by_contra hne
      have hrejected : run.val.1 = -1 := cryptoSignVerify_of_length hne
      omega
    subst hlen
    obtain ⟨hidx, hvalue⟩ := cryptoSignVerify_eq_zero_iff_value.mp hzero
    have hpassed := layersPassed_of_isSome E H sig m pk
      (Option.isSome_iff_exists.mpr ⟨_, hvalue⟩)
    have htotal : forsPkCalls + spxD * layerCalls = 10355 := by decide
    have hcost := hashCalls_cryptoSignVerify E H sig m pk T hidx
    rw [hpassed, htotal] at hcost
    exact hcost
  · by_cases hchecked : siglen = spxBytes ∧ forscCompressedIndex (verifyDigest H sig m pk).1 = 0
    · obtain ⟨rfl, hidx⟩ := hchecked
      exact Or.inr ⟨layersPassed_le E H sig m pk (wotscBound E T) spxD,
        hashCalls_cryptoSignVerify E H sig m pk T hidx⟩
    · exact Or.inl (hashCalls_cryptoSignVerify_of_unchecked E H sig m pk T hchecked)

end BitcoinPqc
