import BitcoinPqc.Sphincs.Hypertree
import BitcoinPqc.Sphincs.Wots

/-!
# WOTS+C chains and searches compute what they should

The chaining function computes `chain` of the position's step function and calls
the hash once for each step. The counter search is `firstUpTo` of the counters
whose digits have the target checksum, so `chainLengths` is determined by the
message and the bound.
-/

namespace BitcoinPqc

variable (E : Build) (H : HashFns)

/-!
## Chains
-/

section Chains

variable (st : Vector UInt8 40) (layer tree leaf i : ℕ)

/-- The hash call of step `k` of a chain that starts at position `start` with
`x`. -/
def wotsStepQuery (start : ℕ) (x : Block) (k : ℕ) : Query :=
  .thash (adrs (Role.wotsStep layer tree leaf i (start + k)).addr)
    [chain (wotsStep H st layer tree leaf i) start k x]
    (chain (wotsStep H st layer tree leaf i) start (k + 1) x)

/-- A chain within `w` steps computes the chain of step hashes, and its calls are
its steps. The address buffer comes back with another step number. -/
theorem genChain_eq (ctx : SpxCtx) {index : ℕ} (hindex : index < 256)
    (start steps : ℕ) (h : start + steps ≤ spxWotsW) (x : Block) :
    ∃ index' < 256, genChain H x start steps ctx
        (addrOf layer tree addrTypeWots leaf i index) =
      ⟨(chain (wotsStep H ctx.stateSeeded layer tree leaf i) start steps x,
          addrOf layer tree addrTypeWots leaf i index'),
        (List.range steps).map
          (wotsStepQuery H ctx.stateSeeded layer tree leaf i start x)⟩ := by
  have hrounds : min (start + steps) spxWotsW - start = steps := by omega
  rw [genChain, hrounds]
  clear hrounds
  induction steps with
  | zero => exact ⟨index, hindex, rfl⟩
  | succ steps ih =>
      obtain ⟨index', hindex', heq⟩ := ih (by omega)
      have hstep : start + steps < 256 := by
        simp only [spxWotsW] at h
        omega
      refine ⟨start + steps, hstep, ?_⟩
      rw [Traced.forRange_succ, heq]
      apply Traced.ext
      · simp only [Traced.val_bind, Traced.val_pure,
          setHashAddr_addrOf _ _ _ _ _ hindex' hstep]
        rfl
      · simp only [Traced.log_bind, Traced.log_pure, List.append_nil,
          setHashAddr_addrOf _ _ _ _ _ hindex' hstep, List.range_succ,
          List.map_append]
        rfl

end Chains

/-!
## The counter search
-/

/-- The digits of the message compressed with `counter`. -/
def counterLengths (msg : Block) (counter : ℕ) : Vector ℕ 16 :=
  baseW spxWotsLen1 (wotscCompressed H msg counter)

/-- The digits have the target checksum. -/
def CounterHit (msg : Block) (counter : ℕ) : Prop :=
  wotscChecksum (counterLengths H msg counter) = spxWotscTarget

instance (msg : Block) : DecidablePred (CounterHit H msg) := fun _ =>
  inferInstanceAs (Decidable (_ = _))

/-- What `chain_lengths` returns for a search up to `bound`, and the thread state
it leaves. -/
def searchResult (msg : Block) (bound : ℕ) (T : ThreadState) :
    Except Int (Vector ℕ 16) × ThreadState :=
  match firstUpTo (CounterHit H msg) bound with
  | some c => (.ok (counterLengths H msg c), T.recordWotscAttempts (c + 1))
  | none =>
      (.error signLimitExceeded, (T.recordWotscAttempts (bound + 1)).recordWotscCap)

theorem wotscHashCounter_target_iff (msg : Block) (c : ℕ) :
    (wotscHashCounter H msg c).val.2 = spxWotscTarget ↔ CounterHit H msg c := by
  simp only [wotscHashCounter, Traced.val_ask, CounterHit, counterLengths]

theorem wotscSearchLoop_of_hit {msg : Block} {c : ℕ} (h : CounterHit H msg c) (n : ℕ)
    (T : ThreadState) :
    wotscSearchLoop H msg n c T =
      ⟨(.ok (wotscCompressed H msg c, c, spxWotscTarget),
          T.recordWotscAttempts (c + 1)), [.wotscHash msg c]⟩ := by
  have hval := (wotscHashCounter_target_iff H msg c).mpr h
  rw [wotscSearchLoop]
  apply Traced.ext
  · rw [Traced.val_bind, if_pos hval, hval]
    rfl
  · rw [Traced.log_bind, if_pos hval]
    rfl

theorem wotscSearchLoop_of_miss {msg : Block} {c : ℕ} (h : ¬ CounterHit H msg c)
    (n : ℕ) (T : ThreadState) :
    wotscSearchLoop H msg (n + 1) c T =
      ⟨(wotscSearchLoop H msg n (c + 1) T).val,
        .wotscHash msg c :: (wotscSearchLoop H msg n (c + 1) T).log⟩ := by
  have hval := mt (wotscHashCounter_target_iff H msg c).mp h
  rw [wotscSearchLoop]
  apply Traced.ext
  · rw [Traced.val_bind, if_neg hval]
  · rw [Traced.log_bind, if_neg hval]
    rfl

theorem wotscSearchLoop_of_last_miss {msg : Block} {c : ℕ} (h : ¬ CounterHit H msg c)
    (T : ThreadState) :
    wotscSearchLoop H msg 0 c T =
      ⟨(.error signLimitExceeded, (T.recordWotscAttempts (c + 1)).recordWotscCap),
        [.wotscHash msg c]⟩ := by
  have hval := mt (wotscHashCounter_target_iff H msg c).mp h
  rw [wotscSearchLoop]
  apply Traced.ext
  · rw [Traced.val_bind, if_neg hval]
    rfl
  · rw [Traced.log_bind, if_neg hval]
    rfl

theorem wotscSearchLoop_val (msg : Block) (n c : ℕ) (T : ThreadState) :
    (wotscSearchLoop H msg n c T).val =
      match firstFrom (CounterHit H msg) n c with
      | some d =>
          (.ok (wotscCompressed H msg d, d, spxWotscTarget),
            T.recordWotscAttempts (d + 1))
      | none =>
          (.error signLimitExceeded,
            (T.recordWotscAttempts (c + n + 1)).recordWotscCap) := by
  induction n generalizing c with
  | zero =>
      by_cases hhit : CounterHit H msg c
      · rw [firstFrom, if_pos hhit, wotscSearchLoop_of_hit H hhit]
      · rw [firstFrom, if_neg hhit, wotscSearchLoop_of_last_miss H hhit, Nat.add_zero]
  | succ n ih =>
      by_cases hhit : CounterHit H msg c
      · rw [firstFrom, if_pos hhit, wotscSearchLoop_of_hit H hhit]
      · rw [firstFrom, if_neg hhit, wotscSearchLoop_of_miss H hhit,
          show c + (n + 1) + 1 = c + 1 + n + 1 by omega]
        exact ih (c + 1)

theorem wotscSearchLoop_log (msg : Block) (n c : ℕ) (T : ThreadState) :
    ∀ q ∈ (wotscSearchLoop H msg n c T).log, ∃ d, q = .wotscHash msg d := by
  induction n generalizing c with
  | zero =>
      by_cases hhit : CounterHit H msg c
      · rw [wotscSearchLoop_of_hit H hhit]
        exact fun q hq => ⟨c, List.mem_singleton.mp hq⟩
      · rw [wotscSearchLoop_of_last_miss H hhit]
        exact fun q hq => ⟨c, List.mem_singleton.mp hq⟩
  | succ n ih =>
      by_cases hhit : CounterHit H msg c
      · rw [wotscSearchLoop_of_hit H hhit]
        exact fun q hq => ⟨c, List.mem_singleton.mp hq⟩
      · rw [wotscSearchLoop_of_miss H hhit]
        intro q hq
        rcases List.mem_cons.mp hq with rfl | hq
        · exact ⟨c, rfl⟩
        · exact ih (c + 1) q hq

theorem chainLengths_val (msg : Block) (T : ThreadState) :
    (chainLengths E H msg T).val = searchResult H msg (wotscBound E T) T := by
  have hloop := wotscSearchLoop_val H msg (wotscBound E T) 0 T
  rw [chainLengths, Traced.val_bind, wotscCompressMessageChecked,
    wotscCompressMessageCheckedBounded, searchResult, firstUpTo, hloop, Nat.zero_add]
  cases firstFrom (CounterHit H msg) (wotscBound E T) 0 with
  | some c => rfl
  | none => rfl

/-- The only calls of `chainLengths` are those of its counters. -/
theorem chainLengths_log (msg : Block) (T : ThreadState) :
    ∀ q ∈ (chainLengths E H msg T).log, ∃ c, q = .wotscHash msg c := by
  intro q hq
  rw [chainLengths, Traced.log_bind, List.mem_append] at hq
  rcases hq with hq | hq
  · exact wotscSearchLoop_log H msg _ 0 T q hq
  · split at hq <;> simp at hq

theorem searchResult_eq_ok_iff (msg : Block) (bound : ℕ) (T T' : ThreadState)
    (lengths : Vector ℕ 16) :
    searchResult H msg bound T = (.ok lengths, T') ↔
      ∃ c, firstUpTo (CounterHit H msg) bound = some c ∧
        lengths = counterLengths H msg c ∧ T' = T.recordWotscAttempts (c + 1) := by
  unfold searchResult
  cases firstUpTo (CounterHit H msg) bound with
  | some c =>
      simp only [Prod.mk.injEq, Except.ok.injEq, Option.some.injEq]
      constructor
      · rintro ⟨rfl, rfl⟩
        exact ⟨c, rfl, rfl, rfl⟩
      · rintro ⟨_, rfl, rfl, rfl⟩
        exact ⟨rfl, rfl⟩
  | none => simp

theorem baseW_lt (outLen : ℕ) (input : Block) (i : ℕ) :
    (baseW outLen input).getD i 0 < spxWotsW := by
  have hloop (n inp bits : ℕ) (total : UInt8) (k : ℕ) :
      (baseWLoop input n inp bits total).getD k 0 < spxWotsW := by
    induction n generalizing inp bits total k with
    | zero => simp [baseWLoop]
    | succ n ih =>
        cases k with
        | zero =>
            simp only [baseWLoop, List.getD_cons_zero]
            exact Nat.lt_of_le_of_lt Nat.and_le_right (by decide)
        | succ k =>
            simp only [baseWLoop, List.getD_cons_succ]
            exact ih _ _ _ _
  by_cases hi : i < outLen
  · simpa [baseW, Vector.getD, hi] using hloop outLen 0 0 0 i
  · simp [Vector.getD, hi]

end BitcoinPqc
