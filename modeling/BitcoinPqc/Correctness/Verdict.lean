import BitcoinPqc.Correctness.Verify

/-!
# What the verdict depends on

The roots that a verification run goes through are a function of its arguments and of
the bound of the counter search. Nothing else of the build or of the thread enters, and
a run on a thread without a stats object leaves the thread as it was.
-/

namespace BitcoinPqc

variable {E E' : Build} {H : HashFns} {sig : Vector UInt8 3680} {m : List UInt8}
  {pk : Vector UInt8 32} {T T' : ThreadState}

/-- The value of layer `l` in a run whose searches go up to `bound`, unless a search
below finds no counter. -/
def verifiedValue (E : Build) (H : HashFns) (sig : Vector UInt8 3680) (m : List UInt8)
    (pk : Vector UInt8 32) (bound : ℕ) : ℕ → Option Block
  | 0 => some (runForsPk E H sig m pk)
  | l + 1 => (verifiedValue E H sig m pk bound l).bind fun root =>
      (firstUpTo (CounterHit H root) bound).map fun c =>
        runRoot E H sig m pk l (counterLengths H root c)

/-- The contexts of two builds differ in a field that no hash call of the verifier
reads. -/
theorem verifiedValue_build (E E' : Build) (H : HashFns) (sig : Vector UInt8 3680)
    (m : List UInt8) (pk : Vector UInt8 32) (bound l : ℕ) :
    verifiedValue E H sig m pk bound l = verifiedValue E' H sig m pk bound l := by
  induction l with
  | zero => rfl
  | succ l ih =>
      rw [verifiedValue, verifiedValue, ih]
      rfl

theorem verifyStateAt_succ_of_error {l : ℕ}
    (hat : verifyStateAt E H sig m pk T l = .error T') :
    verifyStateAt E H sig m pk T (l + 1) = .error T' := by
  unfold verifyStateAt at *
  rw [Traced.forRangeExcept, Traced.val_bind, hat]
  rfl

theorem searchResult_thread {msg : Block} {bound : ℕ} (hstats : T.signStats = none) :
    (searchResult H msg bound T).2 = T := by
  have hattempts (n : ℕ) : T.recordWotscAttempts n = T := by
    apply ThreadState.ext <;> simp [ThreadState.recordWotscAttempts, hstats]
  have hcap : T.recordWotscCap = T := by
    apply ThreadState.ext <;> simp [ThreadState.recordWotscCap, hstats]
  unfold searchResult
  split
  · exact hattempts _
  · simp only [hattempts, hcap]

theorem firstUpTo_of_searchResult_error {msg : Block} {bound : ℕ} {c : Int}
    (h : searchResult H msg bound T = (.error c, T')) :
    firstUpTo (CounterHit H msg) bound = none := by
  cases hfirst : firstUpTo (CounterHit H msg) bound with
  | none => rfl
  | some d =>
      rw [searchResult, hfirst] at h
      cases h

/-- What a run has before layer `l`: the value of the layer with the bound it started
with, or no value after a search that failed. -/
def ValueAt (E : Build) (H : HashFns) (sig : Vector UInt8 3680) (m : List UInt8)
    (pk : Vector UInt8 32) (T : ThreadState) (l : ℕ) :
    Except ThreadState VerifyLayerState → Prop
  | .error T' => verifiedValue E H sig m pk (wotscBound E T) l = none ∧
      (T.signStats = none → T' = T)
  | .ok s => verifiedValue E H sig m pk (wotscBound E T) l = some s.root ∧
      wotscBound E s.T = wotscBound E T ∧ (T.signStats = none → s.T = T)

theorem valueAt_succ {l : ℕ} {s : VerifyLayerState}
    (hat : verifyStateAt E H sig m pk T l = .ok s)
    (hs : ValueAt E H sig m pk T l (.ok s)) :
    ValueAt E H sig m pk T (l + 1) (verifyStateAt E H sig m pk T (l + 1)) := by
  obtain ⟨hvalue, hbound, hthread⟩ := hs
  have hsearched (h : T.signStats = none) :
      (searchResult H s.root (wotscBound E s.T) s.T).2 = T := by
    rw [hthread h, searchResult_thread h]
  cases hres : searchResult H s.root (wotscBound E s.T) s.T with
  | mk found T' =>
    rw [hres] at hsearched
    cases found with
    | error c =>
        have hnone := firstUpTo_of_searchResult_error hres
        have hlayer : (verifyLayer E H sig (pkCtx E H pk) l s).val = .error T' :=
          verifyLayer_of_error hres
        have herror : verifyStateAt E H sig m pk T (l + 1) = .error T' := by
          unfold verifyStateAt at *
          rw [Traced.forRangeExcept, Traced.val_bind, hat]
          exact hlayer
        rw [hbound] at hnone
        rw [herror]
        refine ⟨?_, hsearched⟩
        rw [verifiedValue, hvalue, Option.bind_some, hnone, Option.map_none]
    | ok lengths =>
        obtain ⟨u, hu, _, huT, hpassed⟩ :=
          verifyStateAt_succ_of_ok hat (runStateOk_of_eq_ok hat) hres
        obtain ⟨c, hc, hlengths, hT'⟩ := (searchResult_eq_ok_iff H _ _ _ _ _).mp hres
        rw [hbound] at hc
        rw [hu]
        refine ⟨?_, ?_, fun h => huT.trans (hsearched h)⟩
        · rw [verifiedValue, hvalue, Option.bind_some, hc, Option.map_some, hpassed.root,
            hlengths]
        · rw [huT, hT', wotscBound_recordWotscAttempts, hbound]

theorem valueAt_verifyStateAt (E : Build) (H : HashFns) (sig : Vector UInt8 3680)
    (m : List UInt8) (pk : Vector UInt8 32) (T : ThreadState) (l : ℕ) :
    ValueAt E H sig m pk T l (verifyStateAt E H sig m pk T l) := by
  induction l with
  | zero =>
      obtain ⟨s, hat, _, hroot, hT, _⟩ := verifyStateAt_zero E H sig m pk T
      rw [hat]
      exact ⟨congrArg some hroot.symm, by rw [hT], fun _ => hT⟩
  | succ l ih =>
      cases hat : verifyStateAt E H sig m pk T l with
      | error T' =>
          rw [hat] at ih
          rw [verifyStateAt_succ_of_error hat]
          refine ⟨?_, ih.2⟩
          rw [verifiedValue, ih.1, Option.bind_none]
      | ok s =>
          rw [hat] at ih
          exact valueAt_succ hat ih

/-!
## The verdict
-/

/-- A signature of the right length is accepted when the last FORS index of its digest
is zero and the value above the top layer is the root of the public key. -/
theorem cryptoSignVerify_eq_zero_iff_value :
    (cryptoSignVerify E H sig spxBytes m pk T).val.1 = 0 ↔
      forscCompressedIndex (verifyDigest H sig m pk).1 = 0 ∧
        verifiedValue E H sig m pk (wotscBound E T) spxD = some (slice pk spxN spxN) := by
  have hvalue := valueAt_verifyStateAt E H sig m pk T spxD
  rw [cryptoSignVerify_eq_zero_iff]
  refine and_congr_right fun _ => ?_
  cases hat : verifyStateAt E H sig m pk T spxD with
  | error T' =>
      rw [hat] at hvalue
      simp [hvalue.1]
  | ok s =>
      rw [hat] at hvalue
      simp [hvalue.1]

theorem cryptoSignVerify_cases (E : Build) (H : HashFns) (sig : Vector UInt8 3680)
    (siglen : ℕ) (m : List UInt8) (pk : Vector UInt8 32) (T : ThreadState) :
    ((cryptoSignVerify E H sig siglen m pk T).val.1 = 0 ∨
        (cryptoSignVerify E H sig siglen m pk T).val.1 = -1) ∧
      (T.signStats = none → (cryptoSignVerify E H sig siglen m pk T).val.2 = T) := by
  have hvalue := valueAt_verifyStateAt E H sig m pk T spxD
  unfold verifyStateAt verifyDigest at hvalue
  unfold cryptoSignVerify
  split
  · exact ⟨Or.inr rfl, fun _ => rfl⟩
  · simp only
    split
    · exact ⟨Or.inr rfl, fun _ => rfl⟩
    · simp only [Traced.val_bind]
      cases hloop : (Traced.forRangeExcept spxD (verifyLayer E H sig (pkCtx E H pk))
          (verifyLayersStart E H sig (hashMessage H (slice sig 0 spxN) pk m).1
            (hashMessage H (slice sig 0 spxN) pk m).2.1
            (hashMessage H (slice sig 0 spxN) pk m).2.2 (pkCtx E H pk) T).val).val with
      | error T' =>
          rw [hloop] at hvalue
          exact ⟨Or.inr rfl, hvalue.2⟩
      | ok s =>
          rw [hloop] at hvalue
          simp only
          split
          · exact ⟨Or.inr rfl, hvalue.2.2⟩
          · exact ⟨Or.inl rfl, hvalue.2.2⟩

theorem cryptoSignVerify_of_length {siglen : ℕ} (h : siglen ≠ spxBytes) :
    (cryptoSignVerify E H sig siglen m pk T).val.1 = -1 := by
  rw [cryptoSignVerify, if_pos h]
  rfl

theorem cryptoSignVerify_congr (hbound : wotscBound E T = wotscBound E' T')
    (sig : Vector UInt8 3680) (siglen : ℕ) (m : List UInt8) (pk : Vector UInt8 32) :
    (cryptoSignVerify E H sig siglen m pk T).val.1 =
      (cryptoSignVerify E' H sig siglen m pk T').val.1 := by
  by_cases hlen : siglen = spxBytes
  · subst hlen
    have hiff : (cryptoSignVerify E H sig spxBytes m pk T).val.1 = 0 ↔
        (cryptoSignVerify E' H sig spxBytes m pk T').val.1 = 0 := by
      rw [cryptoSignVerify_eq_zero_iff_value, cryptoSignVerify_eq_zero_iff_value, hbound,
        verifiedValue_build E E']
    have hcases := (cryptoSignVerify_cases E H sig spxBytes m pk T).1
    have hcases' := (cryptoSignVerify_cases E' H sig spxBytes m pk T').1
    omega
  · rw [cryptoSignVerify_of_length hlen, cryptoSignVerify_of_length hlen]

end BitcoinPqc
