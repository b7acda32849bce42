import BitcoinPqc.Api.Machine
import BitcoinPqc.Correctness.Verdict
import BitcoinPqc.Properties.Keys

/-!
# Calls do not see the calls before them

Signing installs a random source and a stats object in thread-local variables and takes
both out again on every path. A thread on which neither is installed is `Clean`. Every
public call on a clean thread returns what it returns on a fresh thread, because the
only variable that is left, the failure flag, is cleared before it is read, and it leaves
the thread clean. So this holds after every run of public calls.
-/

namespace BitcoinPqc

variable {E : Build} {H : HashFns} {A : Allocator} {T : ThreadState}

/-- No random source and no stats object is installed. -/
structure ThreadState.Clean (T : ThreadState) : Prop where
  randomData : T.randomData = none
  randomDataSize : T.randomDataSize = 0
  randomDataOffset : T.randomDataOffset = 0
  signStats : T.signStats = none

theorem ThreadState.clean_fresh : fresh.Clean := ⟨rfl, rfl, rfl, rfl⟩

theorem ThreadState.clean_restored (T : ThreadState) :
    T.signStatsEnd.restoreOriginalRandom.Clean := ⟨rfl, rfl, rfl, rfl⟩

theorem ThreadState.Clean.markRandomSourceFailed (h : T.Clean) :
    T.markRandomSourceFailed.Clean :=
  ⟨h.randomData, h.randomDataSize, h.randomDataOffset, h.signStats⟩

/-- On a clean thread a counter search goes through all counters. -/
theorem ThreadState.Clean.wotscBound_eq (h : T.Clean) (E : Build) :
    wotscBound E T = 0xFFFF := by
  rw [wotscBound, h.signStats]
  rfl

/-!
## Functions that do not use the thread
-/

theorem slhDsaSecretKeyValidate_fresh (sk : Option (List UInt8)) (skSize : ℕ)
    (T : ThreadState) :
    (slhDsaSecretKeyValidate E H sk skSize T).val =
      ((slhDsaSecretKeyValidate E H sk skSize .fresh).val.1, T) := by
  rw [slhDsaSecretKeyValidate, slhDsaSecretKeyValidate]
  cases sk with
  | none => rfl
  | some sk =>
      by_cases hsize : skSize = slhDsaSecretKeySize
      · have hcode (T : ThreadState) := (slhDsaSecretKeyValidate_sat E H sk
          (callsOk_true E H _) T).2
        rw [hsize, hcode T, hcode .fresh]
      · simp only [slhDsaSecretKeyValidateUnburned]
        rw [if_pos hsize, if_pos hsize]
        rfl

theorem slhDsaKeygen_fresh (pk : Option (Vector UInt8 32)) (sk : Option (Vector UInt8 64))
    (randomData : Option (List UInt8)) (randomDataSize : ℕ) (heap : Heap)
    (T : ThreadState) :
    (slhDsaKeygen E H A pk sk randomData randomDataSize heap T).val =
      { (slhDsaKeygen E H A pk sk randomData randomDataSize heap .fresh).val with T := T } := by
  rw [slhDsaKeygen, slhDsaKeygen, slhDsaKeygenImpl.eq_def, slhDsaKeygenImpl.eq_def]
  split
  · split
    · rfl
    · split
      · rfl
      · simp only [Traced.val_bind, Traced.val_pure, cryptoSignSeedKeypair_val]
        rfl
  · rfl

theorem slhDsaDerandomize_fresh (seed : Option (Vector UInt8 64)) (m : Option (List UInt8))
    (mlen : ℕ) (sk : Option (List UInt8)) (hT : T.Clean) :
    ∃ T', T'.Clean ∧ slhDsaDerandomize H seed m mlen sk T =
      ((slhDsaDerandomize H seed m mlen sk .fresh).1, T') := by
  rw [slhDsaDerandomize, slhDsaDerandomize, slhDsaDerandomizeUnburned.eq_def,
    slhDsaDerandomizeUnburned.eq_def]
  split
  · split
    · exact ⟨_, hT.markRandomSourceFailed, rfl⟩
    · exact ⟨_, hT, rfl⟩
  · exact ⟨_, hT.markRandomSourceFailed, rfl⟩

/-!
## Verification
-/

theorem slhDsaVerify_fresh (sig : Option (List UInt8)) (siglen : ℕ)
    (m : Option (List UInt8)) (mlen : ℕ) (pk : Option (List UInt8)) (hT : T.Clean) :
    (slhDsaVerify E H sig siglen m mlen pk T).val =
      ((slhDsaVerify E H sig siglen m mlen pk .fresh).val.1, T) := by
  have hbound : wotscBound E T = wotscBound E .fresh := by
    rw [hT.wotscBound_eq, ThreadState.clean_fresh.wotscBound_eq]
  rw [slhDsaVerify.eq_def, slhDsaVerify.eq_def]
  split
  · split
    · rfl
    · refine Prod.ext ?_ ?_
      · exact cryptoSignVerify_congr hbound _ _ _ _
      · exact (cryptoSignVerify_cases _ _ _ _ _ _ _).2 hT.signStats
  · rfl

/-!
## Signing
-/

/-- After the checks signing sets every thread-local variable before it reads one. -/
theorem slhDsaSignChecked_thread (sig : Vector UInt8 3680) (message : List UInt8)
    (mlen : ℕ) (sk : List UInt8) (stats : Option SignStats) (T T' : ThreadState) :
    slhDsaSignChecked E H sig message mlen sk stats T =
      slhDsaSignChecked E H sig message mlen sk stats T' := rfl

theorem slhDsaSignChecked_clean (sig : Vector UInt8 3680) (message : List UInt8)
    (mlen : ℕ) (sk : List UInt8) (stats : Option SignStats) (T : ThreadState) :
    (slhDsaSignChecked E H sig message mlen sk stats T).val.T.Clean := by
  rw [slhDsaSignChecked_thread sig message mlen sk stats T .fresh]
  unfold slhDsaSignChecked
  simp only
  split
  · exact ThreadState.clean_fresh
  · simp only [Traced.val_bind]
    split
    · exact ThreadState.clean_restored _
    · split
      · exact ThreadState.clean_restored _
      · exact ThreadState.clean_restored _

theorem slhDsaSignWithStats_fresh (sig : Option (Vector UInt8 3680)) (siglen : Option ℕ)
    (m : Option (List UInt8)) (mlen : ℕ) (sk : Option (List UInt8))
    (stats : Option SignStats) (hT : T.Clean) :
    ∃ T', T'.Clean ∧ (slhDsaSignWithStats E H sig siglen m mlen sk stats T).val =
      { (slhDsaSignWithStats E H sig siglen m mlen sk stats .fresh).val with T := T' } := by
  rw [slhDsaSignWithStats, slhDsaSignWithStats, slhDsaSignWithStatsImpl.eq_def,
    slhDsaSignWithStatsImpl.eq_def]
  split
  · next sig _ sk =>
      split
      · exact ⟨_, hT, rfl⟩
      · have hkey (T : ThreadState) := slhDsaSecretKeyValidate_fresh (E := E) (H := H)
          (some sk) slhDsaSecretKeySize T
        simp only [slhDsaSecretKeyValidate] at hkey
        simp only [Traced.val_bind, hkey T]
        split
        · exact ⟨_, hT, rfl⟩
        · exact ⟨_, slhDsaSignChecked_clean sig (m.getD [0]) mlen sk stats T, rfl⟩
  · exact ⟨_, hT, rfl⟩

/-- A stats object only receives the statistics. -/
theorem slhDsaSignWithStats_none (sig : Option (Vector UInt8 3680)) (siglen : Option ℕ)
    (m : Option (List UInt8)) (mlen : ℕ) (sk : Option (List UInt8))
    (stats : Option SignStats) (T : ThreadState) :
    (slhDsaSignWithStats E H sig siglen m mlen sk none T).val =
      { (slhDsaSignWithStats E H sig siglen m mlen sk stats T).val with stats := none } := by
  rw [slhDsaSignWithStats, slhDsaSignWithStats, slhDsaSignWithStatsImpl.eq_def,
    slhDsaSignWithStatsImpl.eq_def]
  split
  · split
    · rfl
    · simp only [Traced.val_bind]
      split
      · rfl
      · unfold slhDsaSignChecked
        simp only
        split
        · rfl
        · simp only [Traced.val_bind]
          split
          · rfl
          · split
            · rfl
            · rfl
  · rfl

/-!
## The public functions on structs
-/

theorem bitcoinPqcKeygen_fresh (keypair : Option Keypair)
    (randomData : Option (List UInt8)) (randomDataSize : ℕ) (heap : Heap)
    (T : ThreadState) :
    bitcoinPqcKeygen E H A keypair randomData randomDataSize heap T =
      { bitcoinPqcKeygen E H A keypair randomData randomDataSize heap .fresh with T := T } := by
  rw [bitcoinPqcKeygen, bitcoinPqcKeygen]
  split
  · rfl
  · split
    · rfl
    · split
      · rfl
      · dsimp only
        rw [bitcoinPqcKeygenAllocated, bitcoinPqcKeygenAllocated]
        split
        · rfl
        · rw [slhDsaKeygen_fresh]
          dsimp only
          split
          · split
            · rfl
            · rfl
          · rfl

theorem bitcoinPqcSecretKeyValidate_fresh (secretKey : Option (List UInt8))
    (secretKeySize : ℕ) (T : ThreadState) :
    bitcoinPqcSecretKeyValidate E H secretKey secretKeySize T =
      ((bitcoinPqcSecretKeyValidate E H secretKey secretKeySize .fresh).1, T) := by
  rw [bitcoinPqcSecretKeyValidate, bitcoinPqcSecretKeyValidate,
    slhDsaSecretKeyValidate_fresh secretKey secretKeySize T]
  split
  · rfl
  · dsimp only
    split
    · rfl
    · rfl

theorem bitcoinPqcVerify_fresh (publicKey : Option (List UInt8)) (publicKeySize : ℕ)
    (message : Option (List UInt8)) (messageSize : ℕ) (signature : Option (List UInt8))
    (signatureSize : ℕ) (hT : T.Clean) :
    bitcoinPqcVerify E H publicKey publicKeySize message messageSize signature signatureSize
        T =
      ((bitcoinPqcVerify E H publicKey publicKeySize message messageSize signature
        signatureSize .fresh).1, T) := by
  rw [bitcoinPqcVerify, bitcoinPqcVerify, slhDsaVerify_fresh _ _ _ _ _ hT]
  split
  · rfl
  · split
    · rfl
    · split
      · rfl
      · split
        · rfl
        · dsimp only
          split
          · rfl
          · rfl

theorem bitcoinPqcSignAllocated_fresh (secretKey : List UInt8) (secretKeySize : ℕ)
    (messagePtr : List UInt8) (messageSize : ℕ) (signature : Option Signature)
    (stats : Option SignStats) (sig : Option ℕ) (heap : Heap) (hT : T.Clean) :
    ∃ T', T'.Clean ∧ bitcoinPqcSignAllocated E H secretKey secretKeySize messagePtr
        messageSize signature stats sig heap T =
      { bitcoinPqcSignAllocated E H secretKey secretKeySize messagePtr messageSize signature
          stats sig heap .fresh with T := T' } := by
  rw [bitcoinPqcSignAllocated, bitcoinPqcSignAllocated]
  split
  · exact ⟨T, hT, rfl⟩
  · obtain ⟨T₁, hT₁, hsign⟩ := slhDsaSignWithStats_fresh (E := E) (H := H)
      (some (bytesAt 3680 (heap.load sig))) (some 0) (some messagePtr) messageSize
      (some secretKey) stats hT
    obtain ⟨T₂, hT₂, hself⟩ := slhDsaSignWithStats_fresh (E := E) (H := H)
      (some (bytesAt 3680 (heap.load sig))) (some 0) (some messagePtr) messageSize
      (some secretKey) stats ThreadState.clean_fresh
    have hfresh : (slhDsaSignWithStats E H (some (bytesAt 3680 (heap.load sig))) (some 0)
        (some messagePtr) messageSize (some secretKey) stats .fresh).val.T = T₂ :=
      congrArg SlhDsaSignResult.T hself
    rw [hsign]
    dsimp only
    rw [hfresh, slhDsaVerify_fresh _ _ _ _ _ hT₁, slhDsaVerify_fresh _ _ _ _ _ hT₂]
    split
    · split
      · exact ⟨T₁, hT₁, rfl⟩
      · split
        · exact ⟨T₁, hT₁, rfl⟩
        · exact ⟨T₁, hT₁, rfl⟩
    · split
      · exact ⟨T₁, hT₁, rfl⟩
      · exact ⟨T₁, hT₁, rfl⟩

theorem bitcoinPqcSignImpl_fresh (secretKey : Option (List UInt8)) (secretKeySize : ℕ)
    (message : Option (List UInt8)) (messageSize : ℕ) (signature : Option Signature)
    (stats : Option SignStats) (heap : Heap) (hT : T.Clean) :
    ∃ T', T'.Clean ∧ bitcoinPqcSignImpl E H A secretKey secretKeySize message messageSize
        signature stats heap T =
      { bitcoinPqcSignImpl E H A secretKey secretKeySize message messageSize signature
          stats heap .fresh with T := T' } := by
  rw [bitcoinPqcSignImpl, bitcoinPqcSignImpl]
  split
  · exact ⟨T, hT, rfl⟩
  · split
    · exact ⟨T, hT, rfl⟩
    · split
      · exact ⟨T, hT, rfl⟩
      · split
        · exact ⟨T, hT, rfl⟩
        · exact bitcoinPqcSignAllocated_fresh _ _ _ _ _ _ _ _ hT

theorem bitcoinPqcSignImpl_none (secretKey : Option (List UInt8)) (secretKeySize : ℕ)
    (message : Option (List UInt8)) (messageSize : ℕ) (signature : Option Signature)
    (stats : Option SignStats) (heap : Heap) (T : ThreadState) :
    bitcoinPqcSignImpl E H A secretKey secretKeySize message messageSize signature none heap
        T =
      { bitcoinPqcSignImpl E H A secretKey secretKeySize message messageSize signature stats
          heap T with stats := none } := by
  rw [bitcoinPqcSignImpl, bitcoinPqcSignImpl]
  split
  · rfl
  · split
    · rfl
    · split
      · rfl
      · split
        · rfl
        · dsimp only
          rw [bitcoinPqcSignAllocated, bitcoinPqcSignAllocated,
            slhDsaSignWithStats_none _ _ _ _ _ stats]
          dsimp only
          split
          · rfl
          · split
            · split
              · rfl
              · split
                · rfl
                · rfl
            · split
              · rfl
              · rfl

/-!
## Runs
-/

/-- What a call returns, without the statistics. -/
def Outcome.withoutStats : Outcome → Outcome
  | .error e _ => .error e none
  | .signature c sig siglen _ => .signature c sig siglen none
  | outcome => outcome

namespace Machine

variable (E H A)

/-- A call on a clean thread does what it does on a fresh thread and leaves a clean
thread. -/
theorem step_fresh (s : Machine) (hs : s.thread.Clean) (c : Call) :
    ∃ T', T'.Clean ∧ s.step E H A c =
      (({ s with thread := .fresh }.step E H A c).1,
        { ({ s with thread := .fresh }.step E H A c).2 with thread := T' }) := by
  cases c with
  | keygen keypair randomData randomDataSize =>
      refine ⟨_, hs, ?_⟩
      rw [step, bitcoinPqcKeygen_fresh]
      rfl
  | keypairFree keypair => exact ⟨_, hs, rfl⟩
  | secretKeyValidate secretKey secretKeySize =>
      refine ⟨_, hs, ?_⟩
      rw [step, bitcoinPqcSecretKeyValidate_fresh]
      rfl
  | sign secretKey secretKeySize message messageSize signature =>
      obtain ⟨T', hT', hsign⟩ := bitcoinPqcSignImpl_fresh (E := E) (H := H) (A := A)
        secretKey secretKeySize message messageSize (signature.map s.signatures) none s.heap hs
      refine ⟨T', hT', ?_⟩
      rw [step, bitcoinPqcSign, hsign]
      rfl
  | signWithStats secretKey secretKeySize message messageSize signature stats =>
      obtain ⟨T', hT', hsign⟩ := bitcoinPqcSignImpl_fresh (E := E) (H := H) (A := A)
        secretKey secretKeySize message messageSize (signature.map s.signatures) stats s.heap
        hs
      refine ⟨T', hT', ?_⟩
      rw [step, bitcoinPqcSignWithStats, hsign]
      rfl
  | signatureFree signature => exact ⟨_, hs, rfl⟩
  | verify publicKey publicKeySize message messageSize signature signatureSize =>
      refine ⟨_, hs, ?_⟩
      rw [step, bitcoinPqcVerify_fresh _ _ _ _ _ _ hs]
      rfl
  | slhKeygen pk sk randomData randomDataSize =>
      refine ⟨_, hs, ?_⟩
      rw [step, slhDsaKeygen_fresh]
      rfl
  | slhSecretKeyValidate sk skSize =>
      refine ⟨_, hs, ?_⟩
      rw [step, slhDsaSecretKeyValidate_fresh]
      rfl
  | slhSign sig siglen m mlen sk =>
      obtain ⟨T', hT', hsign⟩ := slhDsaSignWithStats_fresh (E := E) (H := H) sig siglen m
        mlen sk none hs
      refine ⟨T', hT', ?_⟩
      rw [step, slhDsaSign, hsign]
      rfl
  | slhSignWithStats sig siglen m mlen sk stats =>
      obtain ⟨T', hT', hsign⟩ := slhDsaSignWithStats_fresh (E := E) (H := H) sig siglen m
        mlen sk stats hs
      refine ⟨T', hT', ?_⟩
      rw [step, hsign]
      rfl
  | slhVerify sig siglen m mlen pk =>
      refine ⟨_, hs, ?_⟩
      rw [step, slhDsaVerify_fresh _ _ _ _ _ hs]
      rfl
  | slhDerandomize seed m mlen sk =>
      obtain ⟨T', hT', hseed⟩ := slhDsaDerandomize_fresh (H := H) seed m mlen sk hs
      refine ⟨T', hT', ?_⟩
      rw [step, hseed]
      rfl

theorem step_clean (s : Machine) (c : Call) (hs : s.thread.Clean) :
    (s.step E H A c).2.thread.Clean := by
  obtain ⟨T', hT', hstep⟩ := step_fresh E H A s hs c
  rw [hstep]
  exact hT'

end Machine

end BitcoinPqc
